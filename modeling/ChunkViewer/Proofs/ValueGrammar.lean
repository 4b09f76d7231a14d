import ChunkViewer.Proofs.FurtherStorages
import ChunkViewer.Proofs.StorageArithmetic
import ChunkViewer.Proofs.TagGrammar
import ChunkViewer.Proofs.Unpacking
import ChunkViewer.Spec.ValueGrammar

/-!
# What the loader accepts

If no value is longer than 32768 bytes a load comes to its end exactly if every entry is accepted.
The loop over the entries, that over the storages and that over the palette each accept what their
parts accept, one after the other.
-/

namespace ChunkViewer

open ExceptRun Recognizer

/-! ## Palettes -/

section

variable {v : Slice} (hv : v.length ≤ 32768) {fuel : ℕ} (hfuel : 32768 ≤ fuel)
include hv hfuel

lemma readPalette_recognizes (p : ℕ) {o : ℕ} (ho : 1 ≤ o) (hle : o ≤ v.length) :
    Recognizes v o
      (fun ws : { ws : List TagWord // ws.length = p } => ws.val.flatMap TagWord.encode)
      (fun ws => (o + (ws.val.flatMap TagWord.encode).length, ws.val.map TagWord.decode))
      (readPalette fuel v p o) := by
  induction p generalizing o with
  | zero =>
    refine (Recognizes.ok v o _).reword ?_ ?_
    · rintro - -
      exact ⟨⟨[], rfl⟩, rfl, rfl⟩
    · rintro ⟨ws, hws⟩ -
      obtain rfl := List.length_eq_zero_iff.mp hws
      exact ⟨(), rfl, rfl⟩
  | succ p ih =>
    have hrest : ∀ w : TagWord, w.encode <+: v.drop o → Recognizes v (o + w.encode.length)
        (fun ws : { ws : List TagWord // ws.length = p } => ws.val.flatMap TagWord.encode)
        (fun ws => (o + w.encode.length + (ws.val.flatMap TagWord.encode).length,
          w.decode :: ws.val.map TagWord.decode))
        (readPalette fuel v p (o + w.encode.length) >>= fun r => .ok (r.1, w.decode :: r.2)) := by
      intro w hw
      have hend := Slice.At.end_le hw hle
      exact (ih (by omega) hend).map fun _ _ => rfl
    have hrun := ((ParserRecognizes.of_length_le hv fuel).tag hle (by omega)).bind (ε := Stop)
      (f := fun r => readPalette fuel v p r.1 >>= fun r' => .ok (r'.1, r.2 :: r'.2)) hrest
    rw [readPalette]
    refine hrun.reword ?_ ?_
    · rintro ⟨w, ws, hws⟩ -
      refine ⟨⟨w :: ws, by rw [List.length_cons, hws]⟩, rfl, Prod.ext ?_ rfl⟩
      simp only [List.flatMap_cons, List.length_append]
      omega
    · rintro ⟨ws, hws⟩ -
      cases ws with
      | nil => exact absurd hws.symm (Nat.succ_ne_zero _)
      | cons w ws =>
        refine ⟨⟨w, ws, Nat.succ.inj hws⟩, rfl, Prod.ext ?_ rfl⟩
        simp only [List.flatMap_cons, List.length_append]
        omega

end

/-! ## Words -/

lemma readWords_isOk_iff {v : Slice} {i off : ℕ} {l : StorageLayout} (hf : l.Forward) {n : ℤ}
    (hn : -2147483648 ≤ n ∧ n ≤ 2147483647) (hle : off + 1 + 4 * l.numWords.toNat ≤ v.length)
    (hv : v.length ≤ 32768) :
    (∃ states, readWords v i l.bitsPerBlock l.blocksPerWord n l.numWords.toNat (off + 1) 0 =
      .ok states) ↔ (i = 0 → l.bitsPerBlock ≤ 30 ∧ n ≠ -2147483648) := by
  have hword : ∀ j, 0 ≤ j → j < 0 + l.numWords.toNat → parseInt32 v (off + 1 + 4 * j) =
      .ok (wordOf (v.window (off + 1 + 4 * j) 4)) :=
    fun j _ hj => parseInt32_eq (by omega) (by omega)
  by_cases hi : i = 0
  · subst hi
    by_cases hdefined : l.bitsPerBlock ≤ 30 ∧ n ≠ -2147483648
    · have hread := @readWords_eq _ _ _ hf.bits_pos hdefined.1 hf.blocks_pos hf.fits (by omega)
        hn.2 v (off + 1) _ _ 0 hword (by omega)
      rw [Nat.mul_zero, Nat.add_zero, Nat.zero_mul] at hread
      exact iff_of_true ⟨_, hread⟩ fun _ => hdefined
    · refine iff_of_false ?_ fun h => hdefined (h rfl)
      rintro ⟨states, hread⟩
      have hwords := hf.words_ge
      have hblocks := hf.blocks_pos
      obtain ⟨err, herr, -⟩ := blockState_undefined hf.bits_pos hf.bits_le hf.blocks_pos hf.fits
        hdefined (wordOf (v.window (off + 1) 4)) 0
      have hfirst := hword 0 le_rfl (by omega)
      rw [Nat.mul_zero, Nat.add_zero] at hfirst
      rw [show l.numWords.toNat = (l.numWords.toNat - 1) + 1 by omega, readWords, hfirst, ok_bind,
        readBlocks, if_pos rfl,
        show l.blocksPerWord.toNat = (l.blocksPerWord.toNat - 1) + 1 by omega, readStates, herr] at hread
      exact absurd hread (by simp)
  · refine iff_of_true ⟨[], ?_⟩ fun h => absurd h hi
    have hread := @readWords_further v i hi l.bitsPerBlock l.blocksPerWord n (off + 1) _ _ 0 0 hword
      (by omega)
    rwa [Nat.mul_zero, Nat.add_zero] at hread

/-! ## Storages -/

lemma storageLayout_numWords {sv : ℤ} {l : StorageLayout} (hl : storageLayout sv = .ok l) :
    -4096 ≤ l.numWords ∧ l.numWords ≤ 4096 := by
  rcases storageLayout_ok hl with hf | hback
  · exact ⟨by have := hf.words_ge; omega, hf.words_le⟩
  · omega

lemma readStorage_of_header {v : Slice} {fuel i off start : ℕ} {sv : UInt8} {l : StorageLayout}
    (hsv : v[off]? = some sv) (hrt : sv &&& 1 ≠ 1) (hl : storageLayout (toChar sv) = .ok l)
    (hstart : (start : ℤ) = off + 1 + l.numWords * 4) (hv : v.length ≤ 32768) :
    readStorage fuel v i off =
      parseInt32 v start >>= fun n =>
        readPalette fuel v n.toInt.toNat (start + 4) >>= fun r =>
          readWords v i l.bitsPerBlock l.blocksPerWord n.toInt l.numWords.toNat (off + 1) 0 >>=
            fun states => .ok (some (⟨n.toInt, r.2, states⟩, r.1)) := by
  have hoff := (List.getElem?_eq_some_iff.mp hsv).1
  have hwords := storageLayout_numWords hl
  have hcursor : toUInt32 (((off + 1 : ℕ) : ℤ) + l.numWords * 4) = start := by
    rw [show ((off + 1 : ℕ) : ℤ) + l.numWords * 4 = (start : ℤ) by push_cast; omega]
    exact toUInt32_natCast (by omega)
  unfold readStorage
  rw [charAt_natCast hsv, ok_bind, if_neg hrt, hl, ok_bind, asInt_ok (by omega) (by omega), ok_bind]
  simp only [(@toUInt32_add off (by omega)).1, hcursor, (@toUInt32_add start (by omega)).2.2.1]

lemma readStorage_before {v : Slice} {fuel i off : ℕ} {sv : UInt8} {l : StorageLayout}
    (hsv : v[off]? = some sv) (hrt : sv &&& 1 ≠ 1) (hl : storageLayout (toChar sv) = .ok l)
    (hneg : (off : ℤ) + 1 + l.numWords * 4 < 0) (hv : v.length ≤ 32768) :
    readStorage fuel v i off = .error .assertion := by
  have hoff := (List.getElem?_eq_some_iff.mp hsv).1
  have hwords := storageLayout_numWords hl
  have hcursor : toInt32 (toUInt32 (((off + 1 : ℕ) : ℤ) + l.numWords * 4)) =
      off + 1 + l.numWords * 4 := by
    unfold toInt32 toUInt32
    rw [BitVec.toInt_eq_toNat_cond, BitVec.toNat_ofNat]
    omega
  have hstop : parseInt32 v (toUInt32 (((off + 1 : ℕ) : ℤ) + l.numWords * 4)) =
      .error .assertion := by
    unfold parseInt32
    rw [hcursor]
    exact parseLittleEndian_assertion v _ 4 0 0 (by norm_num) (by norm_num) (by omega) (by omega)
      (Or.inl (by omega))
  unfold readStorage
  rw [charAt_natCast hsv, ok_bind, if_neg hrt, hl, ok_bind, asInt_ok (by omega) (by omega), ok_bind]
  simp only [(@toUInt32_add off (by omega)).1, hstop, error_bind]

section

variable {v : Slice} (hv : v.length ≤ 32768) {fuel : ℕ} (hfuel : 32768 ≤ fuel)
include hv hfuel

lemma StorageAt.of_readStorage {i off next : ℕ} (hi : i = 0 → off = 2) {s : Storage}
    (h : readStorage fuel v i off = .ok (some (s, next))) : StorageAt v i off next := by
  have hread := h
  unfold readStorage at hread
  obtain ⟨sv, hsv, hread⟩ := bind_eq_ok.mp hread
  have hget : v[off]? = some sv := by simpa using (charAt_eq_ok.mp hsv).2
  by_cases hrt : sv &&& 1 = 1
  · rw [if_pos hrt] at hread
    exact absurd hread (by simp)
  rw [if_neg hrt] at hread
  obtain ⟨l, hl, -⟩ := bind_eq_ok.mp hread
  by_cases hneg : (off : ℤ) + 1 + l.numWords * 4 < 0
  · rw [readStorage_before hget hrt hl hneg hv] at h
    exact absurd h (by simp)
  obtain ⟨start, hstart⟩ :=
    Int.eq_ofNat_of_zero_le (show 0 ≤ (off : ℤ) + 1 + l.numWords * 4 by omega)
  rw [readStorage_of_header hget hrt hl hstart.symm hv] at h
  obtain ⟨n, hn, h⟩ := bind_eq_ok.mp h
  obtain ⟨r, hr, h⟩ := bind_eq_ok.mp h
  obtain ⟨states, hstates, h⟩ := bind_eq_ok.mp h
  obtain rfl : r.1 = next := (Prod.mk.inj (Option.some.inj (Except.ok.inj h))).2
  have hoff := (List.getElem?_eq_some_iff.mp hget).1
  have hbound := storageLayout_numWords hl
  have hend := parseInt32_bytes hn (by omega)
  obtain ⟨n', hsize, hn'⟩ := (parseInt32_recognizes hv (by omega) n).mp hn
  obtain rfl : n = n' := hn'
  obtain ⟨⟨palette, hcount⟩, hpalette, rfl⟩ :=
    (readPalette_recognizes hv hfuel n.toInt.toNat (by omega) hend r).mp hr
  refine StorageAt.read hget hrt hl hstart.symm hcount
    (prefix_drop_append.mpr ⟨hsize, by rw [LittleEndian.length_bytes]; exact hpalette⟩) ?_
  rcases storageLayout_ok hl with hf | ⟨-, hback⟩
  · have hwords := hf.words_ge
    have hlow := BitVec.le_two_mul_toInt (x := n)
    have hhigh := BitVec.two_mul_toInt_lt (x := n)
    exact (readWords_isOk_iff hf (by omega) (by omega) hv).mp ⟨states, hstates⟩
  · intro h0
    rw [hi h0] at hstart
    omega

lemma StorageAt.readStorage_eq {i off next : ℕ} (h : StorageAt v i off next) :
    ∃ s, readStorage fuel v i off = .ok (some (s, next)) := by
  obtain ⟨hget, hrt, hl, hstart, hcount, hat, hdefined⟩ := h
  rename_i sv l start n palette
  have hoff := (List.getElem?_eq_some_iff.mp hget).1
  obtain ⟨hsize, hpalette⟩ := prefix_drop_append.mp hat
  have hend := Slice.At.le_length hsize (by simp [LittleEndian.bytes])
  rw [LittleEndian.length_bytes] at hpalette hend
  have hn : parseInt32 v start = .ok n :=
    (parseInt32_recognizes hv (by omega) n).mpr ⟨n, hsize, rfl⟩
  have hr := (readPalette_recognizes hv hfuel n.toInt.toNat (o := start + 4) (by omega) hend _).mpr
    ⟨⟨palette, hcount⟩, hpalette, rfl⟩
  obtain ⟨states, hstates⟩ : ∃ states, readWords v i l.bitsPerBlock l.blocksPerWord n.toInt
      l.numWords.toNat (off + 1) 0 = .ok states := by
    rcases storageLayout_ok hl with hf | ⟨-, hback⟩
    · have hwords := hf.words_ge
      have hlow := BitVec.le_two_mul_toInt (x := n)
      have hhigh := BitVec.two_mul_toInt_lt (x := n)
      exact (readWords_isOk_iff hf (by omega) (by omega) hv).mpr hdefined
    · rw [Int.toNat_of_nonpos (by omega)]
      exact ⟨[], rfl⟩
  refine ⟨⟨n.toInt, palette.map TagWord.decode, states⟩, ?_⟩
  rw [readStorage_of_header hget hrt hl hstart hv, hn, ok_bind, hr, ok_bind, hstates]
  rfl

lemma readStorages_isOk_iff (count : ℕ) {i off : ℕ} (hi : i = 0 → off = 2) :
    (∃ storages, readStorages fuel v count i off = .ok (true, storages)) ↔
      StoragesAt v count i off := by
  induction count generalizing i off with
  | zero => exact iff_of_true ⟨[], rfl⟩ (StoragesAt.nil i off)
  | succ count ih =>
    have hnext : ∀ next, i + 1 = 0 → next = 2 := fun _ h => absurd h (Nat.succ_ne_zero i)
    constructor
    · rintro ⟨storages, h⟩
      rw [readStorages] at h
      obtain ⟨r, hr, h⟩ := bind_eq_ok.mp h
      cases r with
      | none => exact absurd (Prod.mk.inj (Except.ok.inj h)).1 (by simp)
      | some r =>
        obtain ⟨s, next⟩ := r
        obtain ⟨⟨ok, rest⟩, hrest, h⟩ := bind_eq_ok.mp h
        obtain rfl : ok = true := (Prod.mk.inj (Except.ok.inj h)).1
        exact StoragesAt.cons (StorageAt.of_readStorage hv hfuel hi hr)
          ((ih (hnext next)).mp ⟨rest, hrest⟩)
    · intro h
      cases h with
      | cons hfirst hrest =>
        obtain ⟨s, hs⟩ := hfirst.readStorage_eq hv hfuel
        obtain ⟨rest, hread⟩ := (ih (hnext _)).mpr hrest
        refine ⟨s :: rest, ?_⟩
        rw [readStorages, hs, ok_bind]
        dsimp only
        rw [hread]
        rfl

end

/-! ## Entries -/

lemma storageLoop_stops_outside {chunkY : ℤ} (hy : Outside chunkY) (fuel : ℕ) (v : Slice) {n : ℕ}
    (hn : 0 < n) (c c' : Chunk) : storageLoop fuel v chunkY n 0 2 c ≠ .ok (true, c') := by
  obtain ⟨n, rfl⟩ : ∃ m, n = m + 1 := ⟨n - 1, by omega⟩
  intro h
  rw [storageLoop] at h
  obtain ⟨r, hr, h⟩ := bind_eq_ok.mp h
  cases r with
  | none => exact absurd (Prod.mk.inj (Except.ok.inj h)).1 (by simp)
  | some r => exact loadStorage_outside hy fuel v c r hr

lemma storageLoop_isOk_iff {v : Slice} (hv : v.length ≤ 32768) {fuel : ℕ} (hfuel : 32768 ≤ fuel)
    (chunkY : ℤ) (n : ℕ) (c : Chunk) :
    (∃ c', storageLoop fuel v chunkY n 0 2 c = .ok (true, c')) ↔
      StoragesAt v n 0 2 ∧ (0 < n → 0 ≤ chunkY ∧ chunkY ≤ 15) := by
  rcases inside_or_outside chunkY with ⟨y, rfl⟩ | hy
  · rw [and_iff_left fun _ => ⟨by omega, by omega⟩,
      ← readStorages_isOk_iff hv hfuel n fun _ => rfl]
    constructor
    · rintro ⟨c', h⟩
      rw [storageLoop_eq] at h
      obtain ⟨⟨ok, storages⟩, hread, h⟩ := bind_eq_ok.mp h
      obtain rfl : ok = true := (Prod.mk.inj (Except.ok.inj h)).1
      exact ⟨storages, hread⟩
    · rintro ⟨storages, hread⟩
      exact ⟨c.loadAll y storages, by rw [storageLoop_eq, hread, ok_bind]⟩
  · cases n with
    | zero =>
      exact iff_of_true ⟨c, rfl⟩ ⟨StoragesAt.nil 0 2, fun h => absurd h (Nat.lt_irrefl 0)⟩
    | succ n =>
      refine iff_of_false ?_ ?_
      · rintro ⟨c', h⟩
        exact storageLoop_stops_outside hy fuel v n.succ_pos c c' h
      · rintro ⟨-, hinside⟩
        have := hinside n.succ_pos
        unfold Outside at hy
        omega

lemma Entry.accepted_of_no_slot {e : Entry} (hslot : e.slot? = none)
    (hvalue : isSubChunkKey e.key = true → e.value ≠ []) : e.Accepted :=
  ⟨hvalue, fun slot h => absurd (hslot.symm.trans h) (by simp)⟩

lemma loadEntry_isOk_iff {e : Entry} (he : e.value.length ≤ 32768) {fuel : ℕ}
    (hfuel : 32768 ≤ fuel) {st : LoaderState} (hst : st.StoreInv) :
    (∃ st', loadEntry fuel e st = .ok (true, st')) ↔ e.Accepted := by
  cases hslot : e.slot? with
  | none =>
    rcases loadEntry_of_no_slot fuel hslot st with h | ⟨hkey, hnil, h⟩
    · refine iff_of_true ⟨st, h⟩ (Entry.accepted_of_no_slot hslot ?_)
      intro hkey hnil
      obtain ⟨slot, hdecode⟩ := decodeKey_ok hkey
      unfold loadEntry at h
      rw [if_pos hkey, hdecode, ok_bind, hnil] at h
      exact absurd h (by simp [Slice.charAt])
    · refine iff_of_false ?_ fun haccepted => haccepted.value hkey hnil
      rintro ⟨st', h'⟩
      exact absurd (h.symm.trans h') (by simp)
  | some slot =>
    obtain ⟨-, hformat, -⟩ := slot?_eq_some.mp hslot
    obtain ⟨c, hc⟩ := hst.deref_visit slot
    rw [loadEntry_of_slot hslot, hc, ok_bind]
    constructor
    · rintro ⟨st', h⟩
      obtain ⟨count, hcount, h⟩ := bind_eq_ok.mp h
      obtain ⟨⟨ok, c'⟩, hloop, h⟩ := bind_eq_ok.mp h
      obtain rfl : ok = true := (Prod.mk.inj (Except.ok.inj h)).1
      obtain ⟨hstorages, hinside⟩ := (storageLoop_isOk_iff he hfuel _ _ c).mp ⟨c', hloop⟩
      refine ⟨fun _ hnil => absurd hformat (by simp [hnil]), fun slot' hslot' => ?_⟩
      obtain rfl := Option.some.inj (hslot.symm.trans hslot')
      refine ⟨count, by simpa using (charAt_eq_ok.mp hcount).2, hstorages, fun h => ?_⟩
      exact hinside (by omega)
    · intro haccepted
      obtain ⟨count, hcount, hstorages, hinside⟩ := haccepted.storages slot hslot
      obtain ⟨c', hloop⟩ := (storageLoop_isOk_iff he hfuel slot.chunkY _ c).mpr
        ⟨hstorages, fun h => hinside (by omega)⟩
      rw [show e.value.charAt 1 = .ok count from charAt_natCast hcount, ok_bind, hloop]
      exact ⟨_, rfl⟩

lemma loadEntries_isOk_iff {entries : List Entry} (hsize : ∀ e ∈ entries, e.value.length ≤ 32768)
    {fuel : ℕ} (hfuel : 32768 ≤ fuel) {st : LoaderState} (hst : st.StoreInv) :
    (∃ st', loadEntries fuel entries st = .ok (true, st')) ↔ ∀ e ∈ entries, e.Accepted := by
  induction entries generalizing st with
  | nil => exact iff_of_true ⟨st, rfl⟩ (by simp)
  | cons e es ih =>
    have hfirst := loadEntry_isOk_iff (hsize e List.mem_cons_self) hfuel hst
    have hrest := fun e' h => hsize e' (List.mem_cons_of_mem e h)
    rw [List.forall_mem_cons]
    constructor
    · rintro ⟨st', h⟩
      rw [loadEntries] at h
      obtain ⟨⟨ok, st₁⟩, hentry, h⟩ := bind_eq_ok.mp h
      cases ok with
      | false => exact absurd (Prod.mk.inj (Except.ok.inj h)).1 (by simp)
      | true =>
        exact ⟨hfirst.mp ⟨st₁, hentry⟩,
          (ih hrest (loadEntry_storeInv hst hentry)).mp ⟨st', h⟩⟩
    · rintro ⟨haccepted, hothers⟩
      obtain ⟨st₁, hentry⟩ := hfirst.mpr haccepted
      obtain ⟨st', h⟩ := (ih hrest (loadEntry_storeInv hst hentry)).mpr hothers
      exact ⟨st', by rw [loadEntries, hentry, ok_bind]; exact h⟩

/-- A load comes to its end exactly if every entry of the database is accepted. -/
theorem load_ends_iff {entries : List Entry} (hsize : ∀ e ∈ entries, e.value.length ≤ 32768)
    {fuel : ℕ} (hfuel : 32768 ≤ fuel) :
    (∃ st, parseBedrock fuel entries = .ok (true, st)) ↔ ∀ e ∈ entries, e.Accepted :=
  loadEntries_isOk_iff hsize hfuel LoaderState.StoreInv.init


/-- One storage, whose palette is a tag without a name, a type or a payload. -/
def packedWord : TagWord where
  head := ⟨0, .END, rfl⟩
  name := .empty
  payload := .ending

set_option maxRecDepth 4000 in
lemma packedEntry_accepted : (packedEntry 1 (List.replicate 128 0) 1 [0, 0, 0]).Accepted where
  value _ := by simp [packedEntry, storageValue]
  storages slot hslot := by
    obtain rfl := Option.some.inj (hslot.symm.trans (packedEntry_slot? 1 _ 1 _))
    obtain ⟨l, hl, -, hbits, -, hwords⟩ := @storageLayout_ofNat 1 le_rfl (by norm_num)
    have hstart : ((515 : ℕ) : ℤ) = (2 : ℕ) + 1 + l.numWords * 4 := by
      rw [hwords]
      norm_num
    have hread : StorageAt (packedEntry 1 (List.replicate 128 0) 1 [0, 0, 0]).value 0 2 522 :=
      @StorageAt.read _ 0 2 2 l 515 1 [packedWord] rfl (by decide) hl hstart rfl ⟨[], rfl⟩
        fun _ => ⟨by omega, by decide⟩
    exact ⟨1, rfl, StoragesAt.cons hread (StoragesAt.nil 1 522), by decide⟩

/-- A storage that is there, behind an entry that is skipped. Behind it a value that ends at the
format. -/
theorem load_ends_iff_packed :
    (∃ st, parseBedrock 32768 [⟨[], []⟩, packedEntry 1 (List.replicate 128 0) 1 [0, 0, 0]] =
      .ok (true, st)) ∧
    ¬∃ st, parseBedrock 32768 [packedEntry 1 (List.replicate 128 0) 1 [0, 0, 0],
      ⟨[255, 255, 255, 255, 2, 0, 0, 0, 0x2F, 4], [8]⟩] = .ok (true, st) := by
  have hlen : (packedEntry 1 (List.replicate 128 0) 1 [0, 0, 0]).value.length ≤ 32768 := by
    rw [packedEntry, storageValue]
    simp [length_wordBytes, LittleEndian.length_bytes]
  constructor
  · refine (load_ends_iff (by simpa using hlen) le_rfl).mpr ?_
    rw [List.forall_mem_cons]
    refine ⟨Entry.accepted_of_no_slot rfl (by decide), ?_⟩
    simpa using packedEntry_accepted
  · rw [load_ends_iff (by simpa using hlen) le_rfl]
    intro haccepted
    obtain ⟨count, hcount, -⟩ :=
      (haccepted ⟨[255, 255, 255, 255, 2, 0, 0, 0, 0x2F, 4], [8]⟩ (by simp)).storages
        ⟨.OVERWORLD, -1, 2, 4⟩ (by decide)
    exact absurd hcount (by simp)

end ChunkViewer
