import ChunkViewer.Proofs.StorageHeader
import ChunkViewer.Proofs.StorageLoad

/-!
# Sub-chunk indices outside the chunk

The sub-chunk index is a signed byte of the key and is not checked. For an index outside
0..15 the first palette entry or block that is stored is an undefined subscript, and storage
0 cannot be finished without storing one.
-/

namespace ChunkViewer

open ExceptRun

/-- An index that is not one of the 16 sub-chunks. -/
def Outside (chunkY : ℤ) : Prop := chunkY < 0 ∨ 15 < chunkY

lemma inside_or_outside (chunkY : ℤ) : (∃ y : Fin 16, chunkY = (y : ℕ)) ∨ Outside chunkY := by
  by_cases h : 0 ≤ chunkY ∧ chunkY ≤ 15
  · exact Or.inl ⟨⟨chunkY.toNat, by omega⟩, by simp only; omega⟩
  · exact Or.inr (by unfold Outside; omega)

lemma not_outside (y : Fin 16) : ¬Outside ((y : ℕ) : ℤ) := by
  unfold Outside
  omega

lemma Chunk.addBlockState_outside {chunkY : ℤ} (hy : Outside chunkY) (c : Chunk) (tag : NBTTag) :
    c.addBlockState chunkY tag = .error (.undefined .blockStatesSubscript) := by
  unfold Chunk.addBlockState
  unfold Outside at hy
  rw [subscript_eq_error (by omega), error_bind]

lemma Chunk.addBlock_outside {chunkY : ℤ} (hy : Outside chunkY) (c : Chunk) (state : ℤ) (pos : ℕ) :
    c.addBlock state ((pos >>> 8 &&& 0xF : ℕ) : ℤ) (((pos &&& 0xF : ℕ) : ℤ) + 16 * chunkY)
      ((pos >>> 4 &&& 0xF : ℕ) : ℤ) = .error (.undefined .blocksSubscript) := by
  have hx : pos >>> 8 &&& 0xF ≤ 0xF := Nat.and_le_right
  have hz : pos >>> 4 &&& 0xF ≤ 0xF := Nat.and_le_right
  have hr : pos &&& 0xF ≤ 0xF := Nat.and_le_right
  unfold Outside at hy
  unfold Chunk.addBlock
  rw [subscript_natCast (by omega), ok_bind, subscript_natCast (by omega), ok_bind,
    subscript_eq_error (by omega), error_bind]

lemma paletteLoop_outside {chunkY : ℤ} (hy : Outside chunkY) (fuel : ℕ) (v : Slice)
    (p currOffset : ℕ) (c : Chunk) :
    paletteLoop fuel v chunkY (p + 1) currOffset c =
      parseNBTTag v fuel currOffset NBTTag.new true >>=
        fun _ => .error (.undefined .blockStatesSubscript) := by
  rw [paletteLoop]
  cases parseNBTTag v fuel currOffset NBTTag.new true with
  | error e => rfl
  | ok r => simp only [ok_bind, Chunk.addBlockState_outside hy, error_bind]

lemma wordLoop_outside {chunkY : ℤ} (hy : Outside chunkY) (v : Slice) {b k : ℤ} (hk : 1 ≤ k) (n : ℤ)
    (w currOffset : ℕ) (c : Chunk) :
    wordLoop v 0 b k n chunkY (w + 1) currOffset 0 c =
      parseInt32 v currOffset >>= fun word =>
        blockState word 0 b k n >>= fun _ => .error (.undefined .blocksSubscript) := by
  have hblocks : k.toNat = (k.toNat - 1) + 1 := by omega
  rw [wordLoop]
  cases parseInt32 v currOffset with
  | error e => rfl
  | ok word =>
    rw [ok_bind, hblocks, blockLoop, placeBlock, if_pos rfl, ok_bind]
    cases blockState word 0 b k n with
    | error e => rfl
    | ok state => simp only [ok_bind, Chunk.addBlock_outside hy, error_bind]

/-! ## Storage 0 -/

/-- Storage 0 starts at offset 2, its block words at 3; the palette comes after the words. -/
lemma StorageLayout.Forward.first_offsets {l : StorageLayout} (hf : l.Forward) :
    asInt .cursorAdvance (l.numWords * 4) = .ok (l.numWords * 4) ∧
      toUInt32 ((3 : ℕ) + l.numWords * 4) = 3 + 4 * l.numWords.toNat ∧
      toUInt32 ((3 + 4 * l.numWords.toNat : ℕ) + 4) = 7 + 4 * l.numWords.toNat := by
  have h1 := hf.words_ge
  have h2 := hf.words_le
  refine ⟨asInt_ok (by omega) (by omega), ?_, ?_⟩
  · unfold toUInt32
    omega
  · unfold toUInt32
    omega

lemma loadStorage_first {fuel : ℕ} {v : Slice} {chunkY : ℤ} {c : Chunk} {sv : UInt8}
    {l : StorageLayout} (hsv : v.charAt (2 : ℕ) = .ok sv) (hrt : sv &&& 1 ≠ 1)
    (hl : storageLayout (toChar sv) = .ok l) (hf : l.Forward) :
    loadStorage fuel v chunkY 0 2 c =
      parseInt32 v (3 + 4 * l.numWords.toNat) >>= fun n =>
        paletteLoop fuel v chunkY n.toInt.toNat (7 + 4 * l.numWords.toNat) c >>= fun r =>
          wordLoop v 0 l.bitsPerBlock l.blocksPerWord n.toInt chunkY l.numWords.toNat 3 0 r.2 >>=
            fun c' => .ok (some (r.1, c')) := by
  obtain ⟨hadvance, hstart, hpalette⟩ := hf.first_offsets
  unfold loadStorage
  rw [hsv, ok_bind, if_neg hrt, hl, ok_bind, hadvance, ok_bind]
  simp only [show toUInt32 ((2 : ℕ) + 1) = 3 from rfl, hstart, hpalette]

lemma readStorage_first {fuel : ℕ} {v : Slice} {sv : UInt8} {l : StorageLayout}
    (hsv : v.charAt (2 : ℕ) = .ok sv) (hrt : sv &&& 1 ≠ 1)
    (hl : storageLayout (toChar sv) = .ok l) (hf : l.Forward) :
    readStorage fuel v 0 2 =
      parseInt32 v (3 + 4 * l.numWords.toNat) >>= fun n =>
        readPalette fuel v n.toInt.toNat (7 + 4 * l.numWords.toNat) >>= fun r =>
          readWords v 0 l.bitsPerBlock l.blocksPerWord n.toInt l.numWords.toNat 3 0 >>=
            fun states => .ok (some (⟨n.toInt, r.2, states⟩, r.1)) := by
  obtain ⟨hadvance, hstart, hpalette⟩ := hf.first_offsets
  unfold readStorage
  rw [hsv, ok_bind, if_neg hrt, hl, ok_bind, hadvance, ok_bind]
  simp only [show toUInt32 ((2 : ℕ) + 1) = 3 from rfl, hstart, hpalette]

/-- With a negative width the cursor of storage 0 goes before the start of the value. -/
lemma loadStorage_first_backward {fuel : ℕ} {v : Slice} {chunkY : ℤ} {c : Chunk} {sv : UInt8}
    {l : StorageLayout} (hsv : v.charAt (2 : ℕ) = .ok sv) (hrt : sv &&& 1 ≠ 1)
    (hl : storageLayout (toChar sv) = .ok l) (h1 : -4096 ≤ l.numWords) (h2 : l.numWords ≤ -128) :
    loadStorage fuel v chunkY 0 2 c = .error .assertion := by
  have hneg : toInt32 (toUInt32 ((3 : ℕ) + l.numWords * 4)) = 3 + l.numWords * 4 := by
    unfold toInt32 toUInt32
    rw [BitVec.toInt_eq_toNat_cond, BitVec.toNat_ofNat]
    omega
  have hstop : parseInt32 v (toUInt32 ((3 : ℕ) + l.numWords * 4)) = .error .assertion := by
    unfold parseInt32
    rw [hneg]
    exact parseLittleEndian_assertion v _ 4 0 0 (by norm_num) (by norm_num) (by omega) (by omega)
      (Or.inl (by omega))
  unfold loadStorage
  rw [hsv, ok_bind, if_neg hrt, hl, ok_bind, asInt_ok (by omega) (by omega), ok_bind]
  simp only [show toUInt32 ((2 : ℕ) + 1) = 3 from rfl, hstop, error_bind]

/-- Outside the chunk storage 0 is never finished. -/
lemma loadStorage_outside {chunkY : ℤ} (hy : Outside chunkY) (fuel : ℕ) (v : Slice) (c : Chunk)
    (r : ℕ × Chunk) : loadStorage fuel v chunkY 0 2 c ≠ .ok (some r) := by
  intro h
  cases hsv : v.charAt (2 : ℕ) with
  | error e =>
    unfold loadStorage at h
    rw [hsv, error_bind] at h
    exact absurd h (by simp)
  | ok sv =>
    by_cases hrt : sv &&& 1 = 1
    · unfold loadStorage at h
      rw [hsv, ok_bind, if_pos hrt] at h
      exact absurd h (by simp)
    rcases storageLayout_cases (toChar sv) with ⟨-, hl⟩ | ⟨-, hl⟩ | ⟨l, hl, -, hf⟩ | ⟨-, l, hl, h1, h2⟩
    · unfold loadStorage at h
      rw [hsv, ok_bind, if_neg hrt, hl, error_bind] at h
      exact absurd h (by simp)
    · unfold loadStorage at h
      rw [hsv, ok_bind, if_neg hrt, hl, error_bind] at h
      exact absurd h (by simp)
    · rw [loadStorage_first hsv hrt hl hf] at h
      obtain ⟨n, -, hpal⟩ := bind_eq_ok.mp h
      obtain ⟨q, hq, hwords⟩ := bind_eq_ok.mp hpal
      obtain ⟨c', hw, -⟩ := bind_eq_ok.mp hwords
      have hN : l.numWords.toNat = (l.numWords.toNat - 1) + 1 := by
        have := hf.words_ge
        omega
      rw [hN, wordLoop_outside hy v hf.blocks_pos] at hw
      obtain ⟨word, -, hstate⟩ := bind_eq_ok.mp hw
      obtain ⟨state, -, hstop⟩ := bind_eq_ok.mp hstate
      exact absurd hstop (by simp)
    · rw [loadStorage_first_backward hsv hrt hl h1 h2] at h
      exact absurd h (by simp)

lemma storageLoop_outside {chunkY : ℤ} (hy : Outside chunkY) {fuel : ℕ} {v : Slice} {n : ℕ}
    {c c' : Chunk} {ok : Bool} (h : storageLoop fuel v chunkY n 0 2 c = .ok (ok, c')) : c' = c := by
  cases n with
  | zero => exact (Prod.mk.inj (Except.ok.inj h)).2.symm
  | succ n =>
    rw [storageLoop] at h
    obtain ⟨r, hr, hrest⟩ := bind_eq_ok.mp h
    cases r with
    | none => exact (Prod.mk.inj (Except.ok.inj hrest)).2.symm
    | some r => exact absurd hr (loadStorage_outside hy fuel v c r)

lemma storageLoop_position {fuel : ℕ} {v : Slice} {chunkY : ℤ} {n : ℕ} {c c' : Chunk} {ok : Bool}
    (h : storageLoop fuel v chunkY n 0 2 c = .ok (ok, c')) : c'.x = c.x ∧ c'.z = c.z := by
  rcases inside_or_outside chunkY with ⟨y, rfl⟩ | hy
  · rw [storageLoop_eq] at h
    obtain ⟨r, -, hr⟩ := bind_eq_ok.mp h
    rw [← (Prod.mk.inj (Except.ok.inj hr)).2]
    exact c.loadAll_position y r.2
  · rw [storageLoop_outside hy h]
    exact ⟨rfl, rfl⟩

end ChunkViewer
