import ChunkViewer.Library.BitField
import ChunkViewer.Proofs.StorageHeader
import ChunkViewer.Proofs.StorageLoad

/-!
# What is read from a storage

The states of storage 0 are fields of its words, -2 where they are outside the palette; the
other storages have no states. The palette has as many tags as its size says.
-/

namespace ChunkViewer

open ExceptRun RingFill

/-! ## One block -/

/-- An index, or -2 when it is outside a palette of the size. -/
def clip (paletteSize : ℤ) (index : ℕ) : ℤ := if (index : ℤ) < paletteSize then index else -2

lemma blockState_eq {b k n : ℤ} (hb : 1 ≤ b) (hb30 : b ≤ 30) (hk : 1 ≤ k) (hfits : k * b ≤ 32)
    (hn1 : -2147483648 < n) (hn2 : n ≤ 2147483647) (word : BitVec 32) (pos : ℕ) :
    blockState word pos b k n =
      .ok (clip n (BitField.field word.toNat (pos % k.toNat * b.toNat) b.toNat)) := by
  obtain ⟨width, rfl⟩ := Int.eq_ofNat_of_zero_le (show 0 ≤ b by omega)
  obtain ⟨blocks, rfl⟩ := Int.eq_ofNat_of_zero_le (show 0 ≤ k by omega)
  have hmod : pos % blocks < blocks := Nat.mod_lt _ (by omega)
  have hinside : pos % blocks * width + width ≤ 32 := by
    have hmul : (pos % blocks + 1) * width ≤ blocks * width := Nat.mul_le_mul_right width hmod
    have hle : blocks * width ≤ 32 := by exact_mod_cast hfits
    rw [Nat.add_mul, Nat.one_mul] at hmul
    omega
  have hpow : (2 : ℕ) ^ width ≤ 2 ^ 30 := Nat.pow_le_pow_right (by norm_num) (by omega)
  have hmask : BitVec.ofInt 32 ((2 : ℤ) ^ width - 1) = BitVec.ofNat 32 (2 ^ width - 1) := by
    rw [← BitVec.ofInt_natCast, Nat.cast_sub Nat.one_le_two_pow]
    push_cast
    rfl
  have hfield := BitField.sshiftRight_and_mask word hinside
  have hlt := BitField.field_lt word.toNat (pos % blocks * width) width
  unfold blockState
  rw [shiftWord_ok hb hk hfits, ok_bind, indexMask_ok hb hb30, ok_bind, asInt_ok (by omega) (by omega),
    ok_bind]
  simp only [Int.toNat_natCast] at *
  rw [hmask, BitVec.toInt_eq_toNat_of_lt (by rw [hfield]; omega), hfield]
  unfold clip
  congr 1
  by_cases hclip : ((BitField.field word.toNat (pos % blocks * width) width : ℕ) : ℤ) < n
  · rw [if_neg (by omega), if_pos hclip]
  · rw [if_pos (by omega), if_neg hclip]

lemma indexMask_nonneg {b m : ℤ} (h : indexMask b = .ok m) : 0 ≤ m ∧ m ≤ 2147483647 := by
  by_cases h0 : b = 0
  · subst h0
    obtain rfl := Except.ok.inj ((show indexMask 0 = .ok 0 by decide).symm.trans h)
    omega
  by_cases hin : 1 ≤ b ∧ b ≤ 30
  · rw [indexMask_ok hin.1 hin.2] at h
    have hpow : (2 : ℤ) ^ b.toNat ≤ 2 ^ 30 := by
      exact_mod_cast Nat.pow_le_pow_right (show 0 < 2 by norm_num) (show b.toNat ≤ 30 by omega)
    have hpos : (0 : ℤ) < 2 ^ b.toNat := by positivity
    have := Except.ok.inj h
    omega
  · exfalso
    by_cases h31 : b = 31
    · rw [indexMask_error (Or.inl h31)] at h
      exact absurd h (by simp)
    · rw [indexMask, if_neg (by omega)] at h
      exact absurd h (by simp)

/-- Whatever the width, a state is -2 or an index into the palette. -/
lemma blockState_range {word : BitVec 32} {pos : ℕ} {b k n state : ℤ}
    (h : blockState word pos b k n = .ok state) : state = -2 ∨ 0 ≤ state ∧ state < n := by
  unfold blockState at h
  obtain ⟨shifted, -, h1⟩ := bind_eq_ok.mp h
  obtain ⟨mask, hmask, h2⟩ := bind_eq_ok.mp h1
  obtain ⟨last, hlast, h3⟩ := bind_eq_ok.mp h2
  obtain ⟨hm1, hm2⟩ := indexMask_nonneg hmask
  obtain ⟨rfl, -, -⟩ := asInt_eq_ok.mp hlast
  have hnonneg : 0 ≤ (shifted &&& BitVec.ofInt 32 mask).toInt := by
    have hmsb : (BitVec.ofInt 32 mask).msb = false := by
      obtain ⟨m, rfl⟩ := Int.eq_ofNat_of_zero_le hm1
      rw [BitVec.ofInt_natCast, BitVec.msb_eq_decide, BitVec.toNat_ofNat, decide_eq_false_iff_not]
      omega
    rw [BitVec.toInt_eq_toNat_of_msb (by rw [BitVec.msb_and, hmsb, Bool.and_false])]
    omega
  have hstate := Except.ok.inj h3
  split at hstate
  · exact Or.inl hstate.symm
  · exact Or.inr (by omega)

/-! ## The words of storage 0 -/

lemma readStates_eq {b k n : ℤ} (hb : 1 ≤ b) (hb30 : b ≤ 30) (hk : 1 ≤ k) (hfits : k * b ≤ 32)
    (hn1 : -2147483648 < n) (hn2 : n ≤ 2147483647) (word : BitVec 32) (block pos : ℕ) :
    readStates b k n word block pos = .ok ((List.range' pos block).map fun q =>
      clip n (BitField.field word.toNat (q % k.toNat * b.toNat) b.toNat)) := by
  induction block generalizing pos with
  | zero => rfl
  | succ block ih =>
    rw [readStates, blockState_eq hb hb30 hk hfits hn1 hn2, ok_bind, ih, ok_bind, List.range'_succ,
      List.map_cons]

lemma toUInt32_nextWord {start w : ℕ} (h : start + 4 * (w + 1) < 4294967296) :
    toUInt32 ((start + 4 * w : ℕ) + 4) = start + 4 * (w + 1) := by
  rw [show ((start + 4 * w : ℕ) : ℤ) + 4 = ((start + 4 * (w + 1) : ℕ) : ℤ) by push_cast; ring]
  exact toUInt32_natCast h

lemma readWords_eq {b k n : ℤ} (hb : 1 ≤ b) (hb30 : b ≤ 30) (hk : 1 ≤ k) (hfits : k * b ≤ 32)
    (hn1 : -2147483648 < n) (hn2 : n ≤ 2147483647) {v : Slice} {start : ℕ} {word : ℕ → BitVec 32}
    {w w₀ : ℕ} (hword : ∀ j, w₀ ≤ j → j < w₀ + w → parseInt32 v (start + 4 * j) = .ok (word j))
    (hmax : start + 4 * (w₀ + w) < 4294967296) :
    readWords v 0 b k n w (start + 4 * w₀) (w₀ * k.toNat) =
      .ok ((List.range' (w₀ * k.toNat) (w * k.toNat)).map fun q =>
        clip n (BitField.field (word (q / k.toNat)).toNat (q % k.toNat * b.toNat) b.toNat)) := by
  induction w generalizing w₀ with
  | zero => rw [Nat.zero_mul]; rfl
  | succ w ih =>
    rw [readWords, hword w₀ le_rfl (by omega), ok_bind, readBlocks, if_pos rfl,
      readStates_eq hb hb30 hk hfits hn1 hn2, ok_bind,
      toUInt32_nextWord (by omega), ← Nat.succ_mul,
      ih (fun j h1 h2 => hword j (by omega) (by omega)) (by omega), ok_bind]
    congr 1
    rw [Nat.succ_mul w, Nat.add_comm (w * k.toNat), ← List.range'_append_1, List.map_append,
      ← Nat.succ_mul]
    congr 1
    apply List.map_congr_left
    intro q hq
    -- The positions of this word are those whose quotient is its number.
    have hquot : q / k.toNat = w₀ := by
      rw [List.mem_range'_1] at hq
      apply Nat.div_eq_of_lt_le
      · exact hq.1
      · rw [Nat.succ_mul]
        exact hq.2
    rw [hquot]

/-! ## A storage -/

lemma length_readPalette {fuel : ℕ} {v : Slice} {p off next : ℕ} {tags : List NBTTag}
    (h : readPalette fuel v p off = .ok (next, tags)) : tags.length = p := by
  induction p generalizing off next tags with
  | zero => rw [← (Prod.mk.inj (Except.ok.inj h)).2, List.length_nil]
  | succ p ih =>
    rw [readPalette] at h
    obtain ⟨⟨off₁, tag⟩, -, h1⟩ := bind_eq_ok.mp h
    obtain ⟨⟨off₂, rest⟩, hrest, h2⟩ := bind_eq_ok.mp h1
    rw [← (Prod.mk.inj (Except.ok.inj h2)).2, List.length_cons, ih hrest]

lemma readStates_range {b k n : ℤ} {word : BitVec 32} {block pos : ℕ} {states : List ℤ}
    (h : readStates b k n word block pos = .ok states) :
    ∀ state ∈ states, state = -2 ∨ 0 ≤ state ∧ state < n := by
  induction block generalizing pos states with
  | zero =>
    rw [← Except.ok.inj h]
    simp
  | succ block ih =>
    rw [readStates] at h
    obtain ⟨state, hstate, h1⟩ := bind_eq_ok.mp h
    obtain ⟨rest, hrest, h2⟩ := bind_eq_ok.mp h1
    rw [← Except.ok.inj h2, List.forall_mem_cons]
    exact ⟨blockState_range hstate, ih hrest⟩

lemma readWords_range {v : Slice} {i : ℕ} {b k n : ℤ} {w off pos : ℕ} {states : List ℤ}
    (h : readWords v i b k n w off pos = .ok states) :
    ∀ state ∈ states, state = -2 ∨ 0 ≤ state ∧ state < n := by
  induction w generalizing off pos states with
  | zero =>
    rw [← Except.ok.inj h]
    simp
  | succ w ih =>
    rw [readWords] at h
    obtain ⟨word, -, h1⟩ := bind_eq_ok.mp h
    obtain ⟨states₁, hblocks, h2⟩ := bind_eq_ok.mp h1
    obtain ⟨rest, hrest, h3⟩ := bind_eq_ok.mp h2
    rw [← Except.ok.inj h3, List.forall_mem_append]
    refine ⟨?_, ih hrest⟩
    unfold readBlocks at hblocks
    split at hblocks
    · exact readStates_range hblocks
    · rw [← Except.ok.inj hblocks]
      simp

/-- What holds of every storage that is read. -/
structure Storage.WellRead (i : ℕ) (s : Storage) : Prop where
  states : ∀ state ∈ s.states, state = -2 ∨ 0 ≤ state ∧ state < s.paletteSize
  later : i ≠ 0 → s.states = []
  palette : s.palette.length = s.paletteSize.toNat

lemma readStorage_wellRead {fuel : ℕ} {v : Slice} {i off next : ℕ} {s : Storage}
    (h : readStorage fuel v i off = .ok (some (s, next))) : s.WellRead i := by
  unfold readStorage at h
  obtain ⟨sv, -, h1⟩ := bind_eq_ok.mp h
  by_cases hrt : sv &&& 1 = 1
  · rw [if_pos hrt] at h1
    exact absurd h1 (by simp)
  rw [if_neg hrt] at h1
  obtain ⟨layout, -, h2⟩ := bind_eq_ok.mp h1
  obtain ⟨advance, -, h3⟩ := bind_eq_ok.mp h2
  obtain ⟨n, -, h4⟩ := bind_eq_ok.mp h3
  obtain ⟨⟨off₁, tags⟩, htags, h5⟩ := bind_eq_ok.mp h4
  obtain ⟨states, hstates, h6⟩ := bind_eq_ok.mp h5
  rw [← (Prod.mk.inj (Option.some.inj (Except.ok.inj h6))).1]
  exact ⟨readWords_range hstates, fun hi => readWords_pos hi hstates, length_readPalette htags⟩

lemma readStorages_wellRead {fuel : ℕ} {v : Slice} {n i off : ℕ} {ok : Bool}
    {storages : List Storage} (h : readStorages fuel v n i off = .ok (ok, storages)) (hi : i ≠ 0) :
    ∀ s ∈ storages, s.states = [] := by
  induction n generalizing i off ok storages with
  | zero =>
    rw [← (Prod.mk.inj (Except.ok.inj h)).2]
    simp
  | succ n ih =>
    rw [readStorages] at h
    obtain ⟨r, hr, h1⟩ := bind_eq_ok.mp h
    cases r with
    | none =>
      rw [← (Prod.mk.inj (Except.ok.inj h1)).2]
      simp
    | some r =>
      obtain ⟨⟨ok', rest⟩, hrest, h2⟩ := bind_eq_ok.mp h1
      rw [← (Prod.mk.inj (Except.ok.inj h2)).2, List.forall_mem_cons]
      exact ⟨(readStorage_wellRead hr).later hi, ih hrest (by omega)⟩

lemma readStorages_cons {fuel : ℕ} {v : Slice} {n i off next : ℕ} {ok : Bool} {s : Storage}
    {storages : List Storage} (hs : readStorage fuel v i off = .ok (some (s, next)))
    (h : readStorages fuel v (n + 1) i off = .ok (ok, storages)) :
    ∃ rest, storages = s :: rest ∧ readStorages fuel v n (i + 1) next = .ok (ok, rest) := by
  rw [readStorages, hs, ok_bind] at h
  obtain ⟨⟨ok', rest⟩, hrest, h1⟩ := bind_eq_ok.mp h
  obtain ⟨hok, hstorages⟩ := Prod.mk.inj (Except.ok.inj h1)
  exact ⟨rest, hstorages.symm, hok ▸ hrest⟩

lemma storages_cases (fuel : ℕ) (v : Slice) {ok : Bool} {storages : List Storage}
    (h : readValue fuel v = .ok (ok, storages)) :
    storages = [] ∨ ∃ s rest next, storages = s :: rest ∧
      readStorage fuel v 0 2 = .ok (some (s, next)) ∧ s.WellRead 0 ∧ ∀ t ∈ rest, t.states = [] := by
  unfold readValue at h
  obtain ⟨storageNum, -, h1⟩ := bind_eq_ok.mp h
  cases hn : (toChar storageNum).toNat with
  | zero =>
    rw [hn] at h1
    exact Or.inl (Prod.mk.inj (Except.ok.inj h1)).2.symm
  | succ n =>
    rw [hn] at h1
    have h2 := h1
    rw [readStorages] at h2
    obtain ⟨r, hr, h3⟩ := bind_eq_ok.mp h2
    cases r with
    | none => exact Or.inl (Prod.mk.inj (Except.ok.inj h3)).2.symm
    | some r =>
      obtain ⟨rest, hcons, hrest⟩ := readStorages_cons hr h1
      exact Or.inr ⟨r.1, rest, r.2, hcons, hr, readStorage_wellRead hr,
        readStorages_wellRead hrest (by omega)⟩

/-- Storages without states leave the cells and only add to the palette. -/
lemma SubChunk.loadAll_stateless (s : SubChunk) {storages : List Storage}
    (h : ∀ t ∈ storages, t.states = []) :
    s.loadAll storages = ⟨s.cells, s.palette ++ storages.flatMap Storage.palette⟩ := by
  induction storages generalizing s with
  | nil => simp [SubChunk.loadAll]
  | cons t storages ih =>
    rw [List.forall_mem_cons] at h
    have hload : s.load t = ⟨s.cells, s.palette ++ t.palette⟩ := by
      rw [SubChunk.load, h.1]
      rfl
    have := ih (s.load t) h.2
    rw [SubChunk.loadAll, List.foldl_cons]
    rw [SubChunk.loadAll] at this
    rw [this, hload, List.flatMap_cons, List.append_assoc]

end ChunkViewer
