import ChunkViewer.Proofs.ChunkCells

/-!
# The storage loop refines the reading of a value

For a sub-chunk index in 0..15 the loops that write to the chunk do what `readStorages`
says: the same stop if there is one, else the storages it reads are loaded into that
sub-chunk.
-/

namespace ChunkViewer

open ExceptRun

lemma subscript_natCast {what : Undefined} {size n : ℕ} (h : n < size) :
    subscript what size n = .ok ⟨n, h⟩ := by
  unfold subscript
  rw [dif_pos ⟨by omega, by omega⟩]
  rfl

lemma subscript_eq_error {what : Undefined} {size : ℕ} {n : ℤ} (h : n < 0 ∨ size ≤ n) :
    subscript what size n = .error (.undefined what) := by
  unfold subscript
  rw [dif_neg (by omega)]

lemma Chunk.addBlockState_eq (c : Chunk) (y : Fin 16) (tag : NBTTag) :
    c.addBlockState (y : ℕ) tag = .ok (c.pushState y tag) := by
  unfold Chunk.addBlockState
  rw [subscript_natCast y.isLt]
  rfl

lemma Chunk.addBlock_eq (c : Chunk) (state : ℤ) (i : Fin 16) (j : Fin 256) (k : Fin 16) :
    c.addBlock state (i : ℕ) (j : ℕ) (k : ℕ) = .ok (c.setCell state i j k) := by
  unfold Chunk.addBlock
  rw [subscript_natCast i.isLt, ok_bind, subscript_natCast k.isLt, ok_bind,
    subscript_natCast j.isLt, ok_bind]

lemma Chunk.addBlock_position (c : Chunk) (y : Fin 16) (pos : ℕ) (state : ℤ) :
    c.addBlock state ((pos >>> 8 &&& 0xF : ℕ) : ℤ) (((pos &&& 0xF : ℕ) : ℤ) + 16 * ((y : ℕ) : ℤ))
      ((pos >>> 4 &&& 0xF : ℕ) : ℤ) = .ok (c.setCell state (posX pos) (posY y pos) (posZ pos)) := by
  have hx : pos >>> 8 &&& 0xF = pos / 256 % 16 := by
    rw [Nat.shiftRight_eq_div_pow]
    exact Nat.and_two_pow_sub_one_eq_mod _ 4
  have hz : pos >>> 4 &&& 0xF = pos / 16 % 16 := by
    rw [Nat.shiftRight_eq_div_pow]
    exact Nat.and_two_pow_sub_one_eq_mod _ 4
  have hy : pos &&& 0xF = pos % 16 := Nat.and_two_pow_sub_one_eq_mod _ 4
  have hcast : ((pos % 16 : ℕ) : ℤ) + 16 * ((y : ℕ) : ℤ) = ((16 * y + pos % 16 : ℕ) : ℤ) := by
    push_cast
    ring
  rw [hx, hz, hy, hcast]
  exact c.addBlock_eq state (posX pos) (posY y pos) (posZ pos)

lemma paletteLoop_eq (fuel : ℕ) (v : Slice) (y : Fin 16) (p currOffset : ℕ) (c : Chunk) :
    paletteLoop fuel v (y : ℕ) p currOffset c =
      readPalette fuel v p currOffset >>= fun r => .ok (r.1, c.pushAll y r.2) := by
  induction p generalizing currOffset c with
  | zero => rfl
  | succ p ih =>
    rw [paletteLoop, readPalette]
    cases htag : parseNBTTag v fuel currOffset NBTTag.new true with
    | error e => rfl
    | ok r =>
      obtain ⟨offset, tag⟩ := r
      simp only [ok_bind, Chunk.addBlockState_eq, ih]
      cases readPalette fuel v p offset with
      | error e => rfl
      | ok r => rfl

lemma length_readStates {b bpw n : ℤ} {word : BitVec 32} {block pos : ℕ} {states : List ℤ}
    (h : readStates b bpw n word block pos = .ok states) : states.length = block := by
  induction block generalizing pos states with
  | zero => exact (Except.ok.inj h) ▸ rfl
  | succ block ih =>
    rw [readStates] at h
    obtain ⟨state, _, hrest⟩ := bind_eq_ok.mp h
    obtain ⟨rest, hread, hcons⟩ := bind_eq_ok.mp hrest
    rw [← Except.ok.inj hcons, List.length_cons, ih hread]

lemma blockLoop_zero (b bpw n : ℤ) (y : Fin 16) (word : BitVec 32) (block pos : ℕ) (c : Chunk) :
    blockLoop 0 b bpw n (y : ℕ) word block pos c =
      readStates b bpw n word block pos >>= fun states => .ok (pos + block, c.fill y pos states) := by
  induction block generalizing pos c with
  | zero => rfl
  | succ block ih =>
    rw [blockLoop, readStates, placeBlock, if_pos rfl]
    cases hs : blockState word pos b bpw n with
    | error e => rfl
    | ok state =>
      simp only [ok_bind, Chunk.addBlock_position, ih]
      cases hr : readStates b bpw n word block (pos + 1) with
      | error e => rfl
      | ok states => simp only [ok_bind, Chunk.fill, Nat.add_right_comm pos 1 block, Nat.add_assoc]

lemma blockLoop_pos {i : ℕ} (hi : i ≠ 0) (b bpw n chunkY : ℤ) (word : BitVec 32) (block pos : ℕ)
    (c : Chunk) : blockLoop i b bpw n chunkY word block pos c = .ok (pos + block, c) := by
  induction block generalizing pos with
  | zero => rfl
  | succ block ih =>
    simp only [blockLoop, placeBlock, if_neg hi, ok_bind, ih, Nat.add_right_comm pos 1 block,
      Nat.add_assoc]

/-- Only storage 0 has states. -/
lemma readWords_pos {v : Slice} {i : ℕ} (hi : i ≠ 0) {b bpw n : ℤ} {w currOffset pos : ℕ}
    {states : List ℤ} (h : readWords v i b bpw n w currOffset pos = .ok states) : states = [] := by
  induction w generalizing currOffset pos states with
  | zero => exact (Except.ok.inj h).symm
  | succ w ih =>
    rw [readWords] at h
    obtain ⟨word, _, hblocks⟩ := bind_eq_ok.mp h
    rw [readBlocks, if_neg hi, ok_bind] at hblocks
    obtain ⟨rest, hread, hnil⟩ := bind_eq_ok.mp hblocks
    rw [← Except.ok.inj hnil, ih hread, List.nil_append]

lemma wordLoop_eq (v : Slice) (i : ℕ) (b bpw n : ℤ) (y : Fin 16) (w currOffset pos : ℕ) (c : Chunk) :
    wordLoop v i b bpw n (y : ℕ) w currOffset pos c =
      readWords v i b bpw n w currOffset pos >>= fun states => .ok (c.fill y pos states) := by
  induction w generalizing currOffset pos c with
  | zero => rfl
  | succ w ih =>
    rw [wordLoop, readWords]
    cases hw : parseInt32 v currOffset with
    | error e => rfl
    | ok word =>
      simp only [ok_bind]
      by_cases hi : i = 0
      · subst hi
        simp only [blockLoop_zero, readBlocks, if_true]
        cases hr : readStates b bpw n word bpw.toNat pos with
        | error e => rfl
        | ok states =>
          simp only [ok_bind, ih]
          cases readWords v 0 b bpw n w (toUInt32 (currOffset + 4)) (pos + bpw.toNat) with
          | error e => rfl
          | ok rest => simp only [ok_bind, Chunk.fill_append, length_readStates hr]
      · simp only [blockLoop_pos hi, readBlocks, if_neg hi, ok_bind, ih, List.nil_append]
        cases hr : readWords v i b bpw n w (toUInt32 (currOffset + 4)) (pos + bpw.toNat) with
        | error e => rfl
        | ok rest =>
          have hnil := readWords_pos hi hr
          subst hnil
          rfl

lemma loadStorage_eq (fuel : ℕ) (v : Slice) (y : Fin 16) (i currOffset : ℕ) (c : Chunk) :
    loadStorage fuel v (y : ℕ) i currOffset c =
      readStorage fuel v i currOffset >>=
        fun r => .ok (r.map (fun p => (p.2, c.load y p.1))) := by
  unfold loadStorage readStorage
  cases hv : v.charAt currOffset with
  | error e => rfl
  | ok storageVersion =>
    simp only [ok_bind]
    by_cases hrt : storageVersion &&& 1 = 1
    · rw [if_pos hrt, if_pos hrt]
      rfl
    · rw [if_neg hrt, if_neg hrt]
      cases hl : storageLayout (toChar storageVersion) with
      | error e => rfl
      | ok layout =>
        simp only [ok_bind]
        cases ha : asInt .cursorAdvance (layout.numWords * 4) with
        | error e => rfl
        | ok advance =>
          simp only [ok_bind]
          cases hn : parseInt32 v (toUInt32 (toUInt32 (currOffset + 1) + advance)) with
          | error e => rfl
          | ok paletteSize =>
            simp only [ok_bind, paletteLoop_eq]
            cases hp : readPalette fuel v paletteSize.toInt.toNat
                (toUInt32 (toUInt32 (toUInt32 (currOffset + 1) + advance) + 4)) with
            | error e => rfl
            | ok palette =>
              simp only [ok_bind, wordLoop_eq]
              cases readWords v i layout.bitsPerBlock layout.blocksPerWord paletteSize.toInt
                  layout.numWords.toNat (toUInt32 (currOffset + 1)) 0 with
              | error e => rfl
              | ok states => rfl

/-- The whole loop: the storages that are read are loaded in order. -/
theorem storageLoop_eq (fuel : ℕ) (v : Slice) (y : Fin 16) (n i currOffset : ℕ) (c : Chunk) :
    storageLoop fuel v (y : ℕ) n i currOffset c =
      readStorages fuel v n i currOffset >>= fun r => .ok (r.1, c.loadAll y r.2) := by
  induction n generalizing i currOffset c with
  | zero => rfl
  | succ n ih =>
    rw [storageLoop, readStorages, loadStorage_eq]
    cases hs : readStorage fuel v i currOffset with
    | error e => rfl
    | ok r =>
      cases r with
      | none => rfl
      | some p =>
        simp only [ok_bind, Option.map_some, ih]
        cases readStorages fuel v n (i + 1) p.2 with
        | error e => rfl
        | ok r => rfl

end ChunkViewer
