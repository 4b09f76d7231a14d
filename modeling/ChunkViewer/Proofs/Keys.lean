import ChunkViewer.Proofs.WorldRefines

/-!
# Sub-chunk keys

A key is taken apart into its position bytes, its region id and its sub-chunk byte. Two
different keys share a slot only through region ids that the loader does not tell apart:
every id other than 1 is the End.
-/

namespace ChunkViewer

open ExceptRun

/-! ## The parts of a key -/

/-- Position bytes, region bytes if there are any, the tag byte and the sub-chunk byte. -/
def keyBytes (x z region : List UInt8) (y : UInt8) : Slice := x ++ z ++ region ++ [0x2F, y]

lemma isSubChunkKey_parts {k : Slice} (h : isSubChunkKey k = true) :
    ∃ x z region y, k = keyBytes x z region y ∧ x.length = 4 ∧ z.length = 4 ∧
      (region = [] ∨ region.length = 4) := by
  have hsplit : ∀ n, k.length = 8 + n + 2 → k[8 + n]? = some 0x2F →
      ∃ y, k = keyBytes (k.take 4) ((k.drop 4).take 4) ((k.drop 8).take n) y := by
    intro n hlen htag
    have h8 : 8 + n < k.length := by omega
    have h9 : 8 + n + 1 < k.length := by omega
    refine ⟨k[8 + n + 1], ?_⟩
    have hdrop : k.drop (8 + n) = [0x2F, k[8 + n + 1]] := by
      have h0 : k[8 + n] = 0x2F := by
        rw [List.getElem?_eq_getElem (by omega)] at htag
        exact Option.some.inj htag
      rw [List.drop_eq_getElem_cons (by omega), h0, List.drop_eq_getElem_cons (by omega),
        List.drop_eq_nil_of_le (by omega)]
    unfold keyBytes
    rw [← hdrop, show k.take 4 ++ (k.drop 4).take 4 = k.take 8 from List.take_add.symm,
      show k.take 8 ++ (k.drop 8).take n = k.take (8 + n) from List.take_add.symm,
      List.take_append_drop]
  simp only [isSubChunkKey, Bool.or_eq_true, Bool.and_eq_true, beq_iff_eq] at h
  rcases h with ⟨hlen, htag⟩ | ⟨hlen, htag⟩
  · obtain ⟨y, hy⟩ := hsplit 0 hlen htag
    exact ⟨_, _, _, y, hy, by simp [hlen], by simp [hlen], Or.inl (by simp)⟩
  · obtain ⟨y, hy⟩ := hsplit 4 hlen htag
    exact ⟨_, _, _, y, hy, by simp [hlen], by simp [hlen], Or.inr (by simp [hlen])⟩

lemma toChar_inj {a b : UInt8} : toChar a = toChar b ↔ a = b := by
  unfold toChar
  rw [BitVec.toInt_inj]
  exact UInt8.toBitVec_inj

section

variable {x z : List UInt8} (hx : x.length = 4) (hz : z.length = 4)
include hx hz

lemma length_keyBytes (region : List UInt8) (y : UInt8) :
    (keyBytes x z region y).length = region.length + 10 := by
  simp only [keyBytes, List.length_append, List.length_cons, List.length_nil]
  omega

lemma take_keyBytes (region : List UInt8) (y : UInt8) :
    (keyBytes x z region y).take 8 = x ++ z := by
  unfold keyBytes
  rw [List.append_assoc (x ++ z), List.take_left' (by simp [hx, hz])]

lemma drop_keyBytes {region : List UInt8} (hr : region.length = 4) (y : UInt8) :
    (keyBytes x z region y).drop 12 = [0x2F, y] := by
  unfold keyBytes
  rw [List.drop_left' (by simp [hx, hz, hr])]

lemma keyBytes_last (region : List UInt8) (y : UInt8) :
    (keyBytes x z region y).charAt (((keyBytes x z region y).length : ℤ) - 1) = .ok y := by
  rw [length_keyBytes hx hz, show ((region.length + 10 : ℕ) : ℤ) - 1 = ((region.length + 9 : ℕ) : ℤ) by omega]
  apply charAt_natCast
  unfold keyBytes
  rw [List.getElem?_append_right (by simp only [List.length_append]; omega)]
  simp only [List.length_append, hx, hz, show region.length + 9 - (4 + 4 + region.length) = 1 by omega]
  rfl

lemma parseInt32_keyBytes (region : List UInt8) (y : UInt8) :
    parseInt32 (keyBytes x z region y) 0 = .ok (wordOf x) ∧
      parseInt32 (keyBytes x z region y) 4 = .ok (wordOf z) ∧
      (region.length = 4 → parseInt32 (keyBytes x z region y) 8 = .ok (wordOf region)) := by
  unfold keyBytes
  refine ⟨?_, ?_, ?_⟩
  · have := parseInt32_append (p := []) (t := z ++ region ++ [0x2F, y]) hx (by simp)
    simpa [List.append_assoc] using this
  · have := parseInt32_append (p := x) (t := region ++ [0x2F, y]) hz (by omega)
    rw [hx] at this
    simpa [List.append_assoc] using this
  · intro hr
    have := parseInt32_append (p := x ++ z) (t := [0x2F, y]) hr (by simp [hx, hz])
    rw [List.length_append, hx, hz] at this
    exact this

lemma decodeKey_overworld (y : UInt8) :
    decodeKey (keyBytes x z [] y) =
      .ok ⟨.OVERWORLD, (wordOf x).toInt, (wordOf z).toInt, toChar y⟩ := by
  obtain ⟨h0, h4, -⟩ := parseInt32_keyBytes hx hz [] y
  have hlen : (keyBytes x z [] y).length = 10 := length_keyBytes hx hz [] y
  unfold decodeKey keyDimension
  rw [h0, ok_bind, keyBytes_last hx hz, ok_bind, h4, ok_bind, if_neg (by omega), ok_bind]

lemma decodeKey_region {region : List UInt8} (hr : region.length = 4) (y : UInt8) :
    decodeKey (keyBytes x z region y) =
      .ok ⟨if (wordOf region).toInt = 1 then .NETHER else .ENDWORLD, (wordOf x).toInt,
        (wordOf z).toInt, toChar y⟩ := by
  obtain ⟨h0, h4, h8⟩ := parseInt32_keyBytes hx hz region y
  have hlen : (keyBytes x z region y).length = 14 := by rw [length_keyBytes hx hz, hr]
  unfold decodeKey keyDimension
  rw [h0, ok_bind, keyBytes_last hx hz, ok_bind, h4, ok_bind, if_pos (by omega), h8 hr, ok_bind,
    ok_bind]

end

/-! ## Collisions -/

lemma toInt_eq_one {n : BitVec 32} : n.toInt = 1 ↔ n = 1#32 := by
  rw [show (1 : ℤ) = (1#32).toInt by decide, BitVec.toInt_inj]

/-- The region bytes of a 14-byte key are not those of the Nether. -/
def OtherRegion (k : Slice) : Prop := parseInt32 k 8 ≠ .ok 1#32

lemma decodeKey_eq_iff {k k' : Slice} (hk : isSubChunkKey k = true) (hk' : isSubChunkKey k' = true)
    (hne : k ≠ k') :
    decodeKey k = decodeKey k' ↔
      k.length = 14 ∧ k'.length = 14 ∧ k.take 8 = k'.take 8 ∧ k.drop 12 = k'.drop 12 ∧
        OtherRegion k ∧ OtherRegion k' := by
  obtain ⟨x, z, r, y, rfl, hx, hz, hr⟩ := isSubChunkKey_parts hk
  obtain ⟨x', z', r', y', rfl, hx', hz', hr'⟩ := isSubChunkKey_parts hk'
  rcases hr with rfl | hr
  · rw [decodeKey_overworld hx hz, length_keyBytes hx hz]
    refine ⟨?_, fun h => absurd h.1 (by simp)⟩
    intro h
    exfalso
    rcases hr' with rfl | hr'
    · rw [decodeKey_overworld hx' hz'] at h
      obtain ⟨-, h1, h2, h3⟩ := Slot.mk.inj (Except.ok.inj h)
      rw [BitVec.toInt_inj, wordOf_inj hx hx'] at h1
      rw [BitVec.toInt_inj, wordOf_inj hz hz'] at h2
      rw [toChar_inj] at h3
      exact hne (by rw [h1, h2, h3])
    · rw [decodeKey_region hx' hz' hr'] at h
      have hd := (Slot.mk.inj (Except.ok.inj h)).1
      split at hd <;> exact absurd hd (by decide)
  · rcases hr' with rfl | hr'
    · rw [decodeKey_overworld hx' hz', decodeKey_region hx hz hr,
        length_keyBytes hx' hz']
      refine ⟨?_, fun h => absurd h.2.1 (by simp)⟩
      intro h
      have hd := (Slot.mk.inj (Except.ok.inj h)).1
      split at hd <;> exact absurd hd (by decide)
    · have h8 := (parseInt32_keyBytes hx hz r y).2.2 hr
      have h8' := (parseInt32_keyBytes hx' hz' r' y').2.2 hr'
      rw [decodeKey_region hx hz hr, decodeKey_region hx' hz' hr', length_keyBytes hx hz,
        length_keyBytes hx' hz', hr, hr', take_keyBytes hx hz, take_keyBytes hx' hz',
        drop_keyBytes hx hz hr, drop_keyBytes hx' hz' hr', OtherRegion, OtherRegion, h8, h8']
      have hpos : x ++ z = x' ++ z' ↔ x = x' ∧ z = z' :=
        ⟨fun h => List.append_inj h (hx.trans hx'.symm), fun h => by rw [h.1, h.2]⟩
      have hregion : wordOf r = wordOf r' → x = x' ∧ z = z' ∧ y = y' → False := by
        rintro h ⟨rfl, rfl, rfl⟩
        exact hne (by rw [(wordOf_inj hr hr').mp h])
      simp only [Except.ok.injEq, Slot.mk.injEq, BitVec.toInt_inj, wordOf_inj hx hx',
        wordOf_inj hz hz', toChar_inj, toInt_eq_one, List.cons.injEq, and_true, true_and, hpos, ne_eq]
      by_cases h1 : wordOf r = 1#32
      · by_cases h1' : wordOf r' = 1#32
        · have := hregion (h1.trans h1'.symm)
          simp only [h1, h1', if_true, true_and]
          tauto
        · simp [h1, h1']
      · by_cases h1' : wordOf r' = 1#32
        · simp [h1, h1']
        · simp only [h1, h1', if_false, true_and, not_false_eq_true, and_true, and_assoc]

/-- Two region ids that both stand for the End. -/
def endKey (region : UInt8) : Slice := [0, 0, 0, 0, 0, 0, 0, 0, region, 0, 0, 0, 0x2F, 0]

theorem sub_chunk_keys_collide :
    ¬∀ k k' : Slice, isSubChunkKey k = true → isSubChunkKey k' = true → k ≠ k' →
      decodeKey k ≠ decodeKey k' := by
  intro h
  exact h (endKey 2) (endKey 3) (by decide) (by decide) (by decide) (by decide)

/-! ## Keys of the known regions -/

/-- A key with region bytes has the id of the Nether or of the End. -/
def KnownRegion (k : Slice) : Prop :=
  k.length = 14 → parseInt32 k 8 = .ok 1#32 ∨ parseInt32 k 8 = .ok 2#32

lemma decodeKey_inj {k k' : Slice} (hk : isSubChunkKey k = true) (hk' : isSubChunkKey k' = true)
    (hr : KnownRegion k) (hr' : KnownRegion k') (h : decodeKey k = decodeKey k') : k = k' := by
  by_contra hne
  obtain ⟨hlen, hlen', htake, hdrop, hother, hother'⟩ := (decodeKey_eq_iff hk hk' hne).mp h
  have h8 : parseInt32 k 8 = parseInt32 k' 8 :=
    ((hr hlen).resolve_left hother).trans ((hr' hlen').resolve_left hother').symm
  rw [parseInt32_eq (by omega) (by omega), parseInt32_eq (by omega) (by omega)] at h8
  have hwindow : k.window 8 4 = k'.window 8 4 :=
    (wordOf_inj (length_window (by omega)) (length_window (by omega))).mp (Except.ok.inj h8)
  have hparts : ∀ s : Slice, s = s.take 8 ++ (s.window 8 4 ++ s.drop 12) := by
    intro s
    unfold Slice.window
    rw [show s.drop 12 = (s.drop 8).drop 4 by rw [List.drop_drop], List.take_append_drop,
      List.take_append_drop]
  exact hne (by rw [hparts k, hparts k', htake, hwindow, hdrop])

lemma slot?_inj {e e' : Entry} {slot : Slot} (hr : KnownRegion e.key) (hr' : KnownRegion e'.key)
    (h : e.slot? = some slot) (h' : e'.slot? = some slot) : e.key = e'.key := by
  obtain ⟨hk, -, hd⟩ := slot?_eq_some.mp h
  obtain ⟨hk', -, hd'⟩ := slot?_eq_some.mp h'
  exact decodeKey_inj hk hk' hr hr' (hd.trans hd'.symm)

/-- Which keys share a slot; and with the known regions a slot is loaded into only once. -/
theorem sub_chunk_keys :
    (∀ k k' : Slice, isSubChunkKey k = true → isSubChunkKey k' = true → k ≠ k' →
      ∃ slot slot', decodeKey k = .ok slot ∧ decodeKey k' = .ok slot' ∧
        (slot = slot' ↔ k.length = 14 ∧ k'.length = 14 ∧ k.take 8 = k'.take 8 ∧
          k.drop 12 = k'.drop 12 ∧ OtherRegion k ∧ OtherRegion k')) ∧
    (∀ (fuel : ℕ) (seen : List Entry) (st : LoaderState) (e : Entry) (slot : Slot) (c : Chunk)
      (y : Fin 16), Loads fuel seen true st → (∀ e' ∈ seen, e'.key ≠ e.key) →
        (∀ e' ∈ seen ++ [e], KnownRegion e'.key) → e.slot? = some slot →
          slot.chunkY = (y : ℕ) → st.at? slot.dimension slot.chunkX slot.chunkZ = some c →
            c.palette y = []) := by
  constructor
  · intro k k' hk hk' hne
    obtain ⟨slot, hslot⟩ := decodeKey_ok hk
    obtain ⟨slot', hslot'⟩ := decodeKey_ok hk'
    refine ⟨slot, slot', hslot, hslot', ?_⟩
    rw [← decodeKey_eq_iff hk hk' hne, hslot, hslot', Except.ok.injEq]
  · intro fuel seen st e slot c y hrun hnew hregion hslot hy hc
    have hnone : entriesAt seen ⟨slot.dimension, slot.chunkX, slot.chunkZ, (y : ℕ)⟩ = [] := by
      rw [← hy]
      unfold entriesAt
      rw [List.filter_eq_nil_iff]
      intro e' he' hsame
      have hkey := slot?_inj (hregion e' (List.mem_append_left _ he'))
        (hregion e (List.mem_append_right _ (List.mem_singleton_self e))) (of_decide_eq_true hsame) hslot
      exact hnew e' he' hkey
    have hsub := hrun.subChunk_eq hc y
    rw [hnone] at hsub
    exact congrArg SubChunk.palette hsub

theorem sub_chunk_keys_endKey :
    (∃ slot slot', decodeKey (endKey 2) = .ok slot ∧ decodeKey (endKey 3) = .ok slot' ∧
      slot = slot') ∧
    (Chunk.new (-1) 2).palette 3 = [] := by
  obtain ⟨hkeys, hruns⟩ := sub_chunk_keys
  constructor
  · obtain ⟨slot, slot', h, h', hiff⟩ := hkeys (endKey 2) (endKey 3) (by decide) (by decide) (by decide)
    refine ⟨slot, slot', h, h', hiff.mpr ?_⟩
    unfold OtherRegion
    decide
  · -- The same position one sub-chunk further up.
    have hrun : Loads 0 [emptyEntry 4] true (LoaderState.init.newChunk (-1) 2 .OVERWORLD) :=
      Loads.step Loads.start rfl
    have hat : (LoaderState.init.newChunk (-1) 2 .OVERWORLD).at? .OVERWORLD (-1) 2 =
        some (Chunk.new (-1) 2) := by
      rw [LoaderState.at?, findChunk_newChunk, if_pos ⟨rfl, rfl⟩]
      rfl
    refine hruns 0 [emptyEntry 4] _ (emptyEntry 3) ⟨.OVERWORLD, -1, 2, 3⟩ (Chunk.new (-1) 2) 3 hrun ?_ ?_
      (by decide) rfl hat
    · decide
    · intro e he
      simp only [List.cons_append, List.nil_append, List.mem_cons, List.not_mem_nil, or_false] at he
      rcases he with rfl | rfl <;> exact fun h => absurd h (by decide)

end ChunkViewer
