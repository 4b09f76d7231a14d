import ChunkViewer.Proofs.StorageArithmetic

/-!
# Writes to a chunk

The sub-chunk index of a key is a signed byte that nothing checks. With an index in 0..15
every subscript into the arrays of a chunk is in range, whatever the value. With any other
index the first write of storage 0 is out of range, so the load is only safe if it never
gets there.
-/

namespace ChunkViewer

open ExceptRun

/-- No subscript out of range. -/
abbrev InRange {α : Type} (x : Exec α) : Prop := ErrorsIn (fun e => ¬e.isSubscript) x

lemma InRange.of_read {α : Type} {x : Exec α} (h : ErrorsIn Stop.isRead x) : InRange x :=
  h.mono fun _ he => he.not_isSubscript

lemma InRange.of_storage {α : Type} {x : Exec α} (h : ErrorsIn Stop.isStorage x) : InRange x :=
  h.mono fun _ he => he.not_isSubscript

/-! ## An index in 0..15 -/

lemma readStates_inRange (b k n : ℤ) (word : BitVec 32) (block pos : ℕ) :
    InRange (readStates b k n word block pos) := by
  induction block generalizing pos with
  | zero => exact ErrorsIn.ok _ _
  | succ block ih =>
    rw [readStates]
    refine ErrorsIn.bind (InRange.of_storage (blockState_errors _ _ _ _ _)) fun state => ?_
    exact ErrorsIn.bind (ih _) fun rest => ErrorsIn.ok _ _

lemma readWords_inRange (v : Slice) (i : ℕ) (b k n : ℤ) (w off pos : ℕ) :
    InRange (readWords v i b k n w off pos) := by
  induction w generalizing off pos with
  | zero => exact ErrorsIn.ok _ _
  | succ w ih =>
    rw [readWords]
    refine ErrorsIn.bind (InRange.of_read (parseLittleEndian_errors _ _ _ _ _)) fun word => ?_
    refine ErrorsIn.bind ?_ fun states => ErrorsIn.bind (ih _ _) fun rest => ErrorsIn.ok _ _
    exact ErrorsIn.ite (readStates_inRange _ _ _ _ _ _) (ErrorsIn.ok _ _)

lemma readStorage_inRange (fuel : ℕ) (v : Slice) (i off : ℕ) : InRange (readStorage fuel v i off) := by
  unfold readStorage
  refine ErrorsIn.bind (InRange.of_read (charAt_errors _ _)) fun sv => ?_
  refine ErrorsIn.ite (ErrorsIn.ok _ _) ?_
  refine ErrorsIn.bind (InRange.of_storage (storageLayout_errors _)) fun l => ?_
  refine ErrorsIn.bind (asInt_errors id _) fun advance => ?_
  refine ErrorsIn.bind (InRange.of_read (parseLittleEndian_errors _ _ _ _ _)) fun n => ?_
  refine ErrorsIn.bind (InRange.of_read (readPalette_errors _ _ _ _)) fun r => ?_
  exact ErrorsIn.bind (readWords_inRange _ _ _ _ _ _ _ _) fun states => ErrorsIn.ok _ _

lemma readStorages_inRange (fuel : ℕ) (v : Slice) (n i off : ℕ) :
    InRange (readStorages fuel v n i off) := by
  induction n generalizing i off with
  | zero => exact ErrorsIn.ok _ _
  | succ n ih =>
    rw [readStorages]
    refine ErrorsIn.bind (readStorage_inRange _ _ _ _) fun r => ?_
    cases r with
    | none => exact ErrorsIn.ok _ _
    | some r => exact ErrorsIn.bind (ih _ _) fun rest => ErrorsIn.ok _ _

/-! ## Any other index -/

/-- The value gets storage 0 to its first write: a palette entry that parses, or the first
block if the palette is empty. -/
def ReachesWrite (fuel : ℕ) (v : Slice) : Prop :=
  ∃ sv l n, v.charAt (2 : ℕ) = .ok sv ∧ sv &&& 1 ≠ 1 ∧ storageLayout (toChar sv) = .ok l ∧
    0 < l.numWords ∧ parseInt32 v (3 + 4 * l.numWords.toNat) = .ok n ∧
    ((0 < n.toInt ∧ ∃ r, parseNBTTag v fuel (7 + 4 * l.numWords.toNat) NBTTag.new true = .ok r) ∨
      (n.toInt ≤ 0 ∧ l.bitsPerBlock ≤ 30 ∧ n.toInt ≠ -2147483648))

section

variable {fuel : ℕ} {v : Slice} {chunkY : ℤ} {sv : UInt8} {l : StorageLayout}

lemma forward_of_numWords (hl : storageLayout (toChar sv) = .ok l) (hpos : 0 < l.numWords) :
    l.Forward := by
  rcases storageLayout_ok hl with hf | ⟨-, hneg⟩
  · exact hf
  · omega

lemma loadStorage_outside_error (hy : Outside chunkY) (c : Chunk) (h : ReachesWrite fuel v) :
    ∃ err, loadStorage fuel v chunkY 0 2 c = .error err ∧ err.isSubscript := by
  obtain ⟨sv, l, n, hsv, hrt, hl, hpos, hn, hwrite⟩ := h
  have hf := forward_of_numWords hl hpos
  have hwords := hf.words_le
  rw [loadStorage_first hsv hrt hl hf, hn, ok_bind]
  rcases hwrite with ⟨hn0, r, hr⟩ | ⟨hn0, hb30, hmin⟩
  · have hsucc : n.toInt.toNat = (n.toInt.toNat - 1) + 1 := by omega
    rw [hsucc, paletteLoop_outside hy, hr, ok_bind, error_bind]
    exact ⟨_, rfl, trivial⟩
  · have hzero : n.toInt.toNat = 0 := by omega
    have hlow := BitVec.le_two_mul_toInt (x := n)
    have hN : l.numWords.toNat = (l.numWords.toNat - 1) + 1 := by omega
    obtain ⟨word, hword⟩ := parseInt32_of_parseInt32 3 hn (by omega) (by omega)
    rw [hzero, paletteLoop, ok_bind, hN, wordLoop_outside hy v hf.blocks_pos, hword, ok_bind,
      blockState_eq hf.bits_pos hb30 hf.blocks_pos hf.fits (by omega) (by omega), ok_bind, error_bind]
    exact ⟨_, rfl, trivial⟩

lemma loadStorage_first_inRange (hy : Outside chunkY) (c : Chunk) (h : ¬ReachesWrite fuel v)
    (hsv : v.charAt (2 : ℕ) = .ok sv) (hrt : sv &&& 1 ≠ 1) (hl : storageLayout (toChar sv) = .ok l)
    (hf : l.Forward) : InRange (loadStorage fuel v chunkY 0 2 c) := by
  have hwords := hf.words_ge
  rw [loadStorage_first hsv hrt hl hf]
  cases hn : parseInt32 v (3 + 4 * l.numWords.toNat) with
  | error err =>
    rw [error_bind]
    exact ErrorsIn.error (Stop.isRead.not_isSubscript (parseLittleEndian_errors _ _ _ _ _ err hn))
  | ok n =>
    rw [ok_bind]
    by_cases hn0 : 0 < n.toInt
    · have hsucc : n.toInt.toNat = (n.toInt.toNat - 1) + 1 := by omega
      rw [hsucc, paletteLoop_outside hy]
      cases hr : parseNBTTag v fuel (7 + 4 * l.numWords.toNat) NBTTag.new true with
      | error err =>
        rw [error_bind, error_bind]
        exact ErrorsIn.error (Stop.isRead.not_isSubscript (parseNBTTag_errors _ _ _ _ _ err hr))
      | ok r => exact absurd ⟨sv, l, n, hsv, hrt, hl, by omega, hn, Or.inl ⟨hn0, r, hr⟩⟩ h
    · have hzero : n.toInt.toNat = 0 := by omega
      have hN : l.numWords.toNat = (l.numWords.toNat - 1) + 1 := by omega
      rw [hzero, paletteLoop, ok_bind, hN, wordLoop_outside hy v hf.blocks_pos]
      refine ErrorsIn.bind ?_ fun c' => ErrorsIn.ok _ _
      refine ErrorsIn.bind (InRange.of_read (parseLittleEndian_errors _ _ _ _ _)) fun word => ?_
      -- The first block has a state only if the value reaches a write.
      cases hs : blockState word 0 l.bitsPerBlock l.blocksPerWord n.toInt with
      | error err =>
        rw [error_bind]
        exact ErrorsIn.error (Stop.isStorage.not_isSubscript (blockState_errors _ _ _ _ _ err hs))
      | ok state =>
        exfalso
        by_cases hdefined : l.bitsPerBlock ≤ 30 ∧ n.toInt ≠ -2147483648
        · exact h ⟨sv, l, n, hsv, hrt, hl, by omega, hn, Or.inr ⟨by omega, hdefined⟩⟩
        · obtain ⟨err, herr, -⟩ := blockState_undefined hf.bits_pos hf.bits_le hf.blocks_pos hf.fits
            hdefined word 0
          rw [hs] at herr
          exact absurd herr (by simp)

lemma loadStorage_outside_inRange (hy : Outside chunkY) (c : Chunk) (h : ¬ReachesWrite fuel v) :
    InRange (loadStorage fuel v chunkY 0 2 c) := by
  cases hsv : v.charAt (2 : ℕ) with
  | error err =>
    unfold loadStorage
    rw [hsv, error_bind]
    exact ErrorsIn.error (Stop.isRead.not_isSubscript (charAt_errors v _ err hsv))
  | ok sv =>
    by_cases hrt : sv &&& 1 = 1
    · unfold loadStorage
      rw [hsv, ok_bind, if_pos hrt]
      exact ErrorsIn.ok _ _
    cases hl : storageLayout (toChar sv) with
    | error err =>
      unfold loadStorage
      rw [hsv, ok_bind, if_neg hrt, hl, error_bind]
      exact ErrorsIn.error (Stop.isStorage.not_isSubscript (storageLayout_errors _ err hl))
    | ok l =>
      rcases storageLayout_ok hl with hf | ⟨h1, h2⟩
      · exact loadStorage_first_inRange hy c h hsv hrt hl hf
      · rw [loadStorage_first_backward hsv hrt hl h1 h2]
        exact ErrorsIn.error id

lemma storageLoop_outside_inRange (hy : Outside chunkY) (n : ℕ) (c : Chunk) :
    InRange (storageLoop fuel v chunkY (n + 1) 0 2 c) ↔ ¬ReachesWrite fuel v := by
  rw [storageLoop]
  constructor
  · intro hrange hreach
    obtain ⟨err, herr, hsub⟩ := loadStorage_outside_error hy c hreach
    exact hrange err (by rw [herr, error_bind]) hsub
  · intro hnot err herr
    rcases bind_eq_error.mp herr with hload | ⟨r, hload, hrest⟩
    · exact loadStorage_outside_inRange hy c hnot err hload
    · cases r with
      | none => exact absurd hrest (by simp)
      | some r => exact absurd hload (loadStorage_outside hy fuel v c r)

end

/-! ## Entries -/

/-- The subscripts of an entry are in range if and only if its sub-chunk index is, or its
value never gets to a write. -/
theorem chunk_writes_in_range {fuel fuel' : ℕ} {seen : List Entry} {st : LoaderState}
    (hrun : Loads fuel' seen true st) {e : Entry} {slot : Slot} (hslot : e.slot? = some slot) :
    (∀ err, loadEntry fuel e st = .error err → ¬err.isSubscript) ↔
      (0 ≤ slot.chunkY ∧ slot.chunkY ≤ 15) ∨
        ∀ count, e.value.charAt 1 = .ok count → 0 < toChar count → ¬ReachesWrite fuel e.value := by
  obtain ⟨c, hc⟩ := hrun.storeInv.deref_visit slot
  refine (loadEntry_errorsIn_iff (fun _ => Stop.isRead.not_isSubscript) hslot hc).trans ?_
  rcases inside_or_outside slot.chunkY with ⟨y, hy⟩ | hy
  · refine iff_of_true ?_ (Or.inl (by omega))
    intro count _
    rw [hy, storageLoop_eq]
    exact ErrorsIn.bind (readStorages_inRange _ _ _ _ _) fun r => ErrorsIn.ok _ _
  · have hnot : ¬(0 ≤ slot.chunkY ∧ slot.chunkY ≤ 15) := by
      unfold Outside at hy
      omega
    rw [or_iff_right hnot]
    refine forall₂_congr fun count _ => ?_
    by_cases hpos : 0 < toChar count
    · obtain ⟨n, hn⟩ : ∃ n, (toChar count).toNat = n + 1 := ⟨(toChar count).toNat - 1, by omega⟩
      rw [hn, forall_prop_of_true hpos]
      exact storageLoop_outside_inRange hy n c
    · rw [show (toChar count).toNat = 0 by omega]
      exact iff_of_true (ErrorsIn.ok _ _) fun hpos' => absurd hpos' hpos

lemma packedEntry_reachesWrite :
    ReachesWrite 2 (packedEntry 1 (List.replicate 128 0) 1 [0, 0, 0]).value := by
  have hlayout : storageLayout (toChar 2) = .ok ⟨1, 32, 128⟩ := by decide +kernel
  have hsize := @parseInt32_paletteSize 1 1 (List.replicate 128 0) 1 [0, 0, 0]
    (by rw [List.length_replicate]; norm_num)
  have hpalette := packedValue_one.palette
  rw [List.length_replicate] at hsize hpalette
  rw [readPalette] at hpalette
  obtain ⟨r, hr, -⟩ := bind_eq_ok.mp hpalette
  exact ⟨2, _, _, rfl, by decide, hlayout, by norm_num, hsize, Or.inl ⟨by decide, r, hr⟩⟩

/-- Its writes under a sub-chunk index of 3. -/
theorem chunk_writes_in_range_packedEntry :
    (packedEntry 1 (List.replicate 128 0) 1 [0, 0, 0]).slot? = some ⟨.OVERWORLD, -1, 2, 3⟩ ∧
      ReachesWrite 2 (packedEntry 1 (List.replicate 128 0) 1 [0, 0, 0]).value ∧
      ∀ err, loadEntry 2 (packedEntry 1 (List.replicate 128 0) 1 [0, 0, 0]) LoaderState.init =
        .error err → ¬err.isSubscript := by
  have hrun : Loads 2 [] true LoaderState.init := Loads.start
  have hslot := packedEntry_slot? 1 (List.replicate 128 0) 1 [0, 0, 0]
  exact ⟨hslot, packedEntry_reachesWrite,
    (chunk_writes_in_range hrun hslot).mpr (Or.inl (by decide))⟩

/-- The same value above the top of the chunk. -/
def aboveEntry : Entry :=
  ⟨[255, 255, 255, 255, 2, 0, 0, 0, 0x2F, 16],
    (packedEntry 1 (List.replicate 128 0) 1 [0, 0, 0]).value⟩

lemma aboveEntry_slot? : aboveEntry.slot? = some ⟨.OVERWORLD, -1, 2, 16⟩ :=
  slot?_eq_some.mpr ⟨rfl, rfl, rfl⟩

/-- A sub-chunk index of 16: the palette entry is appended past the last palette. -/
theorem sub_chunk_sixteen_out_of_range :
    aboveEntry.slot? = some ⟨.OVERWORLD, -1, 2, 16⟩ ∧
      ∃ err, loadEntry 2 aboveEntry LoaderState.init = .error err ∧ err.isSubscript := by
  have hy : Outside 16 := Or.inr (by norm_num)
  obtain ⟨c, hc⟩ := LoaderState.StoreInv.init.deref_visit ⟨.OVERWORLD, -1, 2, 16⟩
  have hreach : ReachesWrite 2 aboveEntry.value := packedEntry_reachesWrite
  obtain ⟨err, herr, hsub⟩ := loadStorage_outside_error hy c hreach
  refine ⟨aboveEntry_slot?, err, ?_, hsub⟩
  rw [loadEntry_of_slot aboveEntry_slot?, hc, ok_bind, show aboveEntry.value.charAt 1 = .ok 1 from rfl,
    ok_bind, show (toChar 1).toNat = 1 from rfl, storageLoop, herr]
  rfl

end ChunkViewer
