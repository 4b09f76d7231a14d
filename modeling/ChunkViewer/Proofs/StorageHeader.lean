import ChunkViewer.Proofs.SliceReads
import ChunkViewer.Proofs.Stops

/-!
# The storage header

What the header byte of a storage makes of `blocksPerWord`, `numWords` and the cursor, for
each range of the width `bitsPerBlock`, and when the expressions of a block word are defined.
-/

namespace ChunkViewer

open ExceptRun

/-! ## Words and blocks per word -/

lemma blocksPerWordOf_pos {b : ℤ} (h1 : 1 ≤ b) (h2 : b ≤ 32) :
    ∃ k, blocksPerWordOf b = .ok k ∧ 1 ≤ k ∧ k ≤ 32 ∧ k * b ≤ 32 ∧ 32 < (k + 1) * b := by
  refine ⟨32 / b, ?_, ?_, ?_, ?_, ?_⟩
  · rw [blocksPerWordOf, if_neg (by omega), Int.tdiv_eq_ediv_of_nonneg (by norm_num)]
  · rw [Int.le_ediv_iff_mul_le (by omega)]
    omega
  · exact Int.ediv_le_self b (by norm_num)
  · exact Int.ediv_mul_le 32 (by omega)
  · exact Int.lt_ediv_add_one_mul_self 32 (by omega)

lemma blocksPerWordOf_neg {b : ℤ} (h1 : -32 ≤ b) (h2 : b ≤ -1) :
    ∃ k, blocksPerWordOf b = .ok k ∧ -32 ≤ k ∧ k ≤ -1 := by
  obtain ⟨k, hk, hk1, hk2, -, -⟩ := blocksPerWordOf_pos (b := -b) (by omega) (by omega)
  refine ⟨-k, ?_, by omega, by omega⟩
  rw [blocksPerWordOf, if_neg (by omega)] at hk ⊢
  have := Except.ok.inj hk
  rw [Int.tdiv_neg] at this
  congr 1
  omega

lemma blocksPerWordOf_large {b : ℤ} (h : b < -32 ∨ 32 < b) : blocksPerWordOf b = .ok 0 := by
  rw [blocksPerWordOf, if_neg (by omega)]
  congr 1
  rcases h with h | h
  · have := Int.ediv_eq_zero_of_lt (show (0 : ℤ) ≤ 32 by norm_num) (show (32 : ℤ) < -b by omega)
    rw [show b = -(-b) by omega, Int.tdiv_neg, Int.tdiv_eq_ediv_of_nonneg (by norm_num), this, neg_zero]
  · rw [Int.tdiv_eq_ediv_of_nonneg (by norm_num)]
    exact Int.ediv_eq_zero_of_lt (by norm_num) h

lemma numWordsOf_pos {k : ℤ} (h1 : 1 ≤ k) (h2 : k ≤ 32) :
    ∃ n, numWordsOf k = .ok n ∧ 128 ≤ n ∧ n ≤ 4096 ∧ 4096 ≤ n * k ∧ n * k < 4096 + k := by
  have hk : (0 : ℚ) < k := by exact_mod_cast (by omega : 0 < k)
  have hle : 4096 ≤ ⌈(4096 : ℚ) / k⌉ * k := by
    have := Int.le_ceil ((4096 : ℚ) / k)
    rw [div_le_iff₀ hk] at this
    exact_mod_cast this
  have hlt : ⌈(4096 : ℚ) / k⌉ * k < 4096 + k := by
    have := mul_lt_mul_of_pos_right (Int.ceil_lt_add_one ((4096 : ℚ) / k)) hk
    rw [add_mul, div_mul_cancel₀ _ hk.ne', one_mul] at this
    exact_mod_cast this
  refine ⟨⌈(4096 : ℚ) / k⌉, ?_, by nlinarith, by nlinarith, hle, hlt⟩
  rw [numWordsOf, if_neg (by omega)]

lemma numWordsOf_neg {k : ℤ} (h1 : -32 ≤ k) (h2 : k ≤ -1) :
    ∃ n, numWordsOf k = .ok n ∧ -4096 ≤ n ∧ n ≤ -128 := by
  have hk : (0 : ℚ) < -k := by exact_mod_cast (by omega : 0 < -k)
  refine ⟨⌈(4096 : ℚ) / k⌉, by rw [numWordsOf, if_neg (by omega)], ?_, ?_⟩
  · apply Int.le_ceil_iff.mpr
    rw [← neg_div_neg_eq, lt_div_iff₀ hk]
    have : ((-4096 : ℤ) - 1 : ℚ) * -k < -4096 := by
      have : (1 : ℚ) ≤ -k := by exact_mod_cast (by omega : 1 ≤ -k)
      push_cast
      nlinarith
    exact_mod_cast this
  · apply Int.ceil_le.mpr
    rw [← neg_div_neg_eq, div_le_iff₀ hk]
    have : (-k : ℚ) ≤ 32 := by exact_mod_cast (by omega : -k ≤ 32)
    push_cast
    nlinarith

/-! ## The layout for each range of the width -/

lemma storageLayout_eq (sv : ℤ) :
    storageLayout sv = blocksPerWordOf (sv >>> 1) >>= fun k =>
      numWordsOf k >>= fun n => .ok ⟨sv >>> 1, k, n⟩ := rfl

lemma storageLayout_zero {sv : ℤ} (h : sv >>> 1 = 0) :
    storageLayout sv = .error (.undefined .blocksPerWord) := by
  rw [storageLayout_eq, h, blocksPerWordOf, if_pos rfl, error_bind]

lemma storageLayout_large {sv : ℤ} (h : sv >>> 1 < -32 ∨ 32 < sv >>> 1) :
    storageLayout sv = .error (.undefined .numWords) := by
  rw [storageLayout_eq, blocksPerWordOf_large h, ok_bind, numWordsOf, if_pos rfl, error_bind]

/-- A layout for a width of 1 to 32 bits. -/
structure StorageLayout.Forward (l : StorageLayout) : Prop where
  bits_pos : 1 ≤ l.bitsPerBlock
  bits_le : l.bitsPerBlock ≤ 32
  blocks_pos : 1 ≤ l.blocksPerWord
  blocks_le : l.blocksPerWord ≤ 32
  fits : l.blocksPerWord * l.bitsPerBlock ≤ 32
  words_ge : 128 ≤ l.numWords
  words_le : l.numWords ≤ 4096
  covers : 4096 ≤ l.numWords * l.blocksPerWord
  tight : l.numWords * l.blocksPerWord < 4096 + l.blocksPerWord

lemma storageLayout_forward {sv : ℤ} (h1 : 1 ≤ sv >>> 1) (h2 : sv >>> 1 ≤ 32) :
    ∃ l, storageLayout sv = .ok l ∧ l.bitsPerBlock = sv >>> 1 ∧ l.Forward := by
  obtain ⟨k, hk, hk1, hk2, hfits, -⟩ := blocksPerWordOf_pos h1 h2
  obtain ⟨n, hn, hn1, hn2, hcov, htight⟩ := numWordsOf_pos hk1 hk2
  refine ⟨⟨sv >>> 1, k, n⟩, ?_, rfl, ⟨h1, h2, hk1, hk2, hfits, hn1, hn2, hcov, htight⟩⟩
  rw [storageLayout_eq, hk, ok_bind, hn, ok_bind]

/-- A negative width gives a negative number of words: the cursor moves back. -/
lemma storageLayout_backward {sv : ℤ} (h1 : -32 ≤ sv >>> 1) (h2 : sv >>> 1 ≤ -1) :
    ∃ l, storageLayout sv = .ok l ∧ -4096 ≤ l.numWords ∧ l.numWords ≤ -128 := by
  obtain ⟨k, hk, hk1, hk2⟩ := blocksPerWordOf_neg h1 h2
  obtain ⟨n, hn, hn1, hn2⟩ := numWordsOf_neg hk1 hk2
  refine ⟨⟨sv >>> 1, k, n⟩, ?_, hn1, hn2⟩
  rw [storageLayout_eq, hk, ok_bind, hn, ok_bind]

lemma storageLayout_cases (sv : ℤ) :
    (sv >>> 1 = 0 ∧ storageLayout sv = .error (.undefined .blocksPerWord)) ∨
    ((sv >>> 1 < -32 ∨ 32 < sv >>> 1) ∧ storageLayout sv = .error (.undefined .numWords)) ∨
    (∃ l, storageLayout sv = .ok l ∧ l.bitsPerBlock = sv >>> 1 ∧ l.Forward) ∨
    ((-32 ≤ sv >>> 1 ∧ sv >>> 1 ≤ -1) ∧
      ∃ l, storageLayout sv = .ok l ∧ -4096 ≤ l.numWords ∧ l.numWords ≤ -128) := by
  by_cases h0 : sv >>> 1 = 0
  · exact Or.inl ⟨h0, storageLayout_zero h0⟩
  by_cases hl : sv >>> 1 < -32 ∨ 32 < sv >>> 1
  · exact Or.inr (Or.inl ⟨hl, storageLayout_large hl⟩)
  by_cases hp : 1 ≤ sv >>> 1
  · exact Or.inr (Or.inr (Or.inl (storageLayout_forward hp (by omega))))
  · have hneg : -32 ≤ sv >>> 1 ∧ sv >>> 1 ≤ -1 := by omega
    exact Or.inr (Or.inr (Or.inr ⟨hneg, storageLayout_backward hneg.1 hneg.2⟩))

/-- Only a positive width and a small negative one have a layout. -/
lemma storageLayout_ok {sv : ℤ} {l : StorageLayout} (h : storageLayout sv = .ok l) :
    l.Forward ∨ (-4096 ≤ l.numWords ∧ l.numWords ≤ -128) := by
  rcases storageLayout_cases sv with ⟨-, h'⟩ | ⟨-, h'⟩ | ⟨l', h', -, hf⟩ | ⟨-, l', h', hback⟩
  · rw [h'] at h
    exact absurd h (by simp)
  · rw [h'] at h
    exact absurd h (by simp)
  · rw [h'] at h
    exact Or.inl (Except.ok.inj h ▸ hf)
  · rw [h'] at h
    exact Or.inr (Except.ok.inj h ▸ hback)

/-! ## The block of a word -/

lemma indexMask_ok {b : ℤ} (h1 : 1 ≤ b) (h2 : b ≤ 30) : indexMask b = .ok (2 ^ b.toNat - 1) := by
  have hpow : (2 : ℕ) ^ b.toNat ≤ 2 ^ 30 := Nat.pow_le_pow_right (by norm_num) (by omega)
  have hval : (1#32 <<< b.toNat).toInt = 2 ^ b.toNat := by
    rw [BitVec.toInt_eq_toNat_of_lt]
    · rw [BitVec.toNat_shiftLeft, Nat.shiftLeft_eq, Nat.mod_eq_of_lt]
      · push_cast
        simp
      · simp only [BitVec.toNat_ofNat]
        omega
    · rw [BitVec.toNat_shiftLeft, Nat.shiftLeft_eq]
      simp only [BitVec.toNat_ofNat]
      omega
  rw [indexMask, if_pos (by omega), hval, asInt_ok]
  · have : (0 : ℤ) < 2 ^ b.toNat := by positivity
    omega
  · have : ((2 : ℤ)) ^ b.toNat ≤ 2 ^ 30 := by exact_mod_cast hpow
    omega

/-- At 31 bits the mask overflows, at 32 its shift is undefined. -/
lemma indexMask_error {b : ℤ} (h : b = 31 ∨ b = 32) :
    indexMask b = .error (.undefined .indexMask) := by
  rcases h with rfl | rfl <;> decide

lemma shiftWord_ok {b k : ℤ} (hb : 1 ≤ b) (hk : 1 ≤ k) (hfits : k * b ≤ 32) (word : BitVec 32)
    (pos : ℕ) :
    shiftWord word pos b k = .ok (word.sshiftRight ((pos % k.toNat) * b.toNat)) := by
  obtain ⟨k, rfl⟩ := Int.eq_ofNat_of_zero_le (show 0 ≤ k by omega)
  obtain ⟨b, rfl⟩ := Int.eq_ofNat_of_zero_le (show 0 ≤ b by omega)
  have hshift : (pos : ℤ).tmod (k : ℤ) * (b : ℤ) = ((pos % k * b : ℕ) : ℤ) := by
    rw [← Int.ofNat_tmod]
    push_cast
    rfl
  have hlt : pos % k * b < 32 := by
    have hmod : pos % k < k := Nat.mod_lt _ (by omega)
    have hmul : (pos % k + 1) * b ≤ k * b := Nat.mul_le_mul_right b hmod
    have hkb : k * b ≤ 32 := by exact_mod_cast hfits
    rw [Nat.add_mul, Nat.one_mul] at hmul
    omega
  unfold shiftWord
  simp only [hshift, Int.toNat_natCast]
  rw [if_pos (by omega)]

end ChunkViewer
