import ChunkViewer.Library.Decimal
import ChunkViewer.Proofs.StorageOutside
import ChunkViewer.Spec.World

/-!
# The chunk store

Every entry either leaves the state as it was or finds or makes the chunk of its slot and
loads its storages into that chunk. From this one case analysis follow the invariants of the
store: ids belong to their chunks, no chunk is stored twice, and the counter is the number
of stored chunks.
-/

namespace ChunkViewer

open ExceptRun

/-! ## Ids and maps -/

lemma chunkID_inj {x z x' z' : ℤ} : chunkID x z = chunkID x' z' ↔ x = x' ∧ z = z' := by
  constructor
  · intro h
    have hbar : ("|" : String) = String.singleton '|' := by decide
    unfold chunkID at h
    rw [hbar] at h
    exact Decimal.pair_inj (by decide) (by decide) h
  · rintro ⟨rfl, rfl⟩
    rfl

/-- The number of stored chunks, over the three maps. -/
def WorldData.size (w : WorldData) : ℕ :=
  w.chunks.entries.length + w.netherChunks.entries.length + w.endChunks.entries.length

lemma findChunk_addChunk (w : WorldData) (c : Chunk) (p : ChunkPointer) (d d' : ChunkDimension)
    (id : String) :
    (w.addChunk c p d).findChunk id d' =
      if d' = d ∧ id = chunkID c.x c.z then some p else w.findChunk id d' := by
  by_cases hid : id = chunkID c.x c.z
  · subst hid
    cases d <;> cases d' <;> simp [WorldData.addChunk, WorldData.findChunk]
  · cases d <;> cases d' <;> simp [WorldData.addChunk, WorldData.findChunk, hid]

lemma size_addChunk {w : WorldData} {c : Chunk} {d : ChunkDimension}
    (h : w.findChunk (chunkID c.x c.z) d = none) (p : ChunkPointer) :
    (w.addChunk c p d).size = w.size + 1 := by
  cases d <;>
    simp only [WorldData.findChunk, AList.lookup_eq_none] at h <;>
    simp only [WorldData.addChunk, WorldData.size, AList.entries_insert_of_notMem h,
      List.length_cons] <;>
    omega

lemma findChunk_newChunk (st : LoaderState) (x z : ℤ) (d d' : ChunkDimension) (id : String) :
    (st.newChunk x z d).world.findChunk id d' =
      if d' = d ∧ id = chunkID x z then some st.heap.length else st.world.findChunk id d' :=
  findChunk_addChunk st.world (Chunk.new x z) st.heap.length d d' id

/-! ## One entry -/

lemma decodeKey_ok {k : Slice} (h : isSubChunkKey k = true) : ∃ slot, decodeKey k = .ok slot := by
  have hlen : k.length = 10 ∨ k.length = 14 := by
    simp only [isSubChunkKey, Bool.or_eq_true, Bool.and_eq_true, beq_iff_eq] at h
    omega
  have hlt : k.length - 1 < k.length := by omega
  have hlast : k.charAt ((k.length : ℤ) - 1) = .ok k[k.length - 1] := by
    apply charAt_eq_ok.mpr
    refine ⟨by omega, ?_⟩
    rw [show ((k.length : ℤ) - 1).toNat = k.length - 1 by omega]
    exact List.getElem?_eq_getElem hlt
  unfold decodeKey keyDimension
  rw [parseInt32_eq (by omega) (by omega), ok_bind, hlast, ok_bind,
    parseInt32_eq (by omega) (by omega), ok_bind]
  by_cases h14 : k.length = 13 ∨ k.length = 14
  · rw [if_pos h14, parseInt32_eq (by omega) (by omega), ok_bind, ok_bind]
    exact ⟨_, rfl⟩
  · rw [if_neg h14, ok_bind]
    exact ⟨_, rfl⟩

lemma slot?_eq_some {e : Entry} {slot : Slot} :
    e.slot? = some slot ↔
      isSubChunkKey e.key = true ∧ e.value[0]? = some 8 ∧ decodeKey e.key = .ok slot := by
  unfold Entry.slot?
  by_cases h : isSubChunkKey e.key = true ∧ e.value[0]? = some 8
  · rw [if_pos h]
    cases decodeKey e.key with
    | error err => simp [Except.toOption]
    | ok s => simp [Except.toOption, h]
  · rw [if_neg h]
    constructor
    · intro h'
      exact absurd h' (by simp)
    · rintro ⟨h1, h2, -⟩
      exact absurd ⟨h1, h2⟩ h

lemma toChar_eq_eight {b : UInt8} : toChar b = 8 ↔ b = 8 := by
  constructor
  · intro h
    have hb := b.toNat_lt
    unfold toChar at h
    rw [BitVec.toInt_eq_toNat_cond, UInt8.toNat_toBitVec] at h
    have h8 : (8 : UInt8).toNat = 8 := rfl
    apply UInt8.toNat_inj.mp
    rw [h8]
    split at h <;> omega
  · rintro rfl
    decide

lemma loadEntry_of_slot {fuel : ℕ} {e : Entry} {slot : Slot} (h : e.slot? = some slot)
    (st : LoaderState) :
    loadEntry fuel e st =
      (st.visit slot).2.deref (st.visit slot).1 >>= fun c =>
        e.value.charAt 1 >>= fun storageNum =>
          storageLoop fuel e.value slot.chunkY (toChar storageNum).toNat 0 2 c >>= fun r =>
            .ok (r.1, (st.visit slot).2.write (st.visit slot).1 r.2) := by
  obtain ⟨hkey, hformat, hdecode⟩ := slot?_eq_some.mp h
  unfold loadEntry
  rw [if_pos hkey, hdecode, ok_bind]
  rw [show e.value.charAt 0 = .ok 8 from charAt_natCast hformat, ok_bind,
    if_neg (not_not.mpr (toChar_eq_eight.mpr rfl))]

lemma loadEntry_of_no_slot (fuel : ℕ) {e : Entry} (h : e.slot? = none) (st : LoaderState) :
    loadEntry fuel e st = .ok (true, st) ∨
      (isSubChunkKey e.key = true ∧ e.value = [] ∧ loadEntry fuel e st = .error .assertion) := by
  unfold loadEntry
  by_cases hkey : isSubChunkKey e.key = true
  · obtain ⟨slot, hdecode⟩ := decodeKey_ok hkey
    rw [if_pos hkey, hdecode, ok_bind]
    cases hv : e.value with
    | nil => exact Or.inr ⟨hkey, rfl, rfl⟩
    | cons b rest =>
      left
      have hb : b ≠ 8 := by
        rintro rfl
        have := slot?_eq_some.mpr ⟨hkey, by rw [hv]; rfl, hdecode⟩
        rw [h] at this
        exact absurd this (by simp)
      rw [show Slice.charAt (b :: rest) 0 = .ok b from rfl, ok_bind,
        if_pos (fun h8 => hb (toChar_eq_eight.mp h8))]
  · rw [if_neg hkey]
    exact Or.inl rfl

/-- Everything an entry can do to the state. -/
theorem loadEntry_cases {fuel : ℕ} {e : Entry} {st st' : LoaderState} {ok : Bool}
    (h : loadEntry fuel e st = .ok (ok, st')) :
    (e.slot? = none ∧ ok = true ∧ st' = st) ∨
    ∃ slot c c' storageNum, e.slot? = some slot ∧
      (st.visit slot).2.deref (st.visit slot).1 = .ok c ∧
      e.value.charAt 1 = .ok storageNum ∧
      storageLoop fuel e.value slot.chunkY (toChar storageNum).toNat 0 2 c = .ok (ok, c') ∧
      st' = (st.visit slot).2.write (st.visit slot).1 c' := by
  cases hs : e.slot? with
  | none =>
    left
    rcases loadEntry_of_no_slot fuel hs st with hskip | ⟨-, -, hstop⟩
    · rw [hskip] at h
      obtain ⟨h1, h2⟩ := Prod.mk.inj (Except.ok.inj h)
      exact ⟨rfl, h1.symm, h2.symm⟩
    · rw [hstop] at h
      exact absurd h (by simp)
  | some slot =>
    right
    rw [loadEntry_of_slot hs] at h
    obtain ⟨c, hc, hrest⟩ := bind_eq_ok.mp h
    obtain ⟨storageNum, hn, hloop⟩ := bind_eq_ok.mp hrest
    obtain ⟨r, hr, hst⟩ := bind_eq_ok.mp hloop
    obtain ⟨h1, h2⟩ := Prod.mk.inj (Except.ok.inj hst)
    exact ⟨slot, c, r.2, storageNum, rfl, hc, hn, by rw [hr, ← h1], h2.symm⟩

end ChunkViewer
