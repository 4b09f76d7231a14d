import Mathlib

/-!
# Bit fields

`field n shift width` is the number in `width` bits of `n` from bit `shift` on. Shifting a
signed word and masking it reads a field, as long as the field lies inside the word. Numbers
packed side by side are the digits of the number they make.
-/

namespace BitField

def field (n shift width : ℕ) : ℕ := n / 2 ^ shift % 2 ^ width

lemma field_lt (n shift width : ℕ) : field n shift width < 2 ^ width :=
  Nat.mod_lt _ (by positivity)

lemma testBit_field (n shift width i : ℕ) :
    (field n shift width).testBit i = (decide (i < width) && n.testBit (shift + i)) := by
  unfold field
  rw [Nat.testBit_mod_two_pow, Nat.testBit_div_two_pow, Nat.add_comm i shift]

/-- The sign bits that an arithmetic shift brings in stay outside the mask. -/
lemma sshiftRight_and_mask {w : ℕ} (x : BitVec w) {shift width : ℕ} (h : shift + width ≤ w) :
    (x.sshiftRight shift &&& BitVec.ofNat w (2 ^ width - 1)).toNat = field x.toNat shift width := by
  apply Nat.eq_of_testBit_eq
  intro i
  rw [testBit_field, BitVec.testBit_toNat, BitVec.getLsbD_and, BitVec.getLsbD_sshiftRight,
    BitVec.getLsbD_ofNat, Nat.testBit_two_pow_sub_one, ← BitVec.testBit_toNat]
  by_cases hi : i < width
  · have h1 : i < w := by omega
    have h2 : shift + i < w := by omega
    simp [hi, h1, h2]
  · simp [hi]

/-! ## Packing -/

lemma field_ofDigits {width i : ℕ} {ds : List ℕ} (hds : ∀ d ∈ ds, d < 2 ^ width)
    (hi : i < ds.length) :
    field (Nat.ofDigits (2 ^ width) ds) (i * width) width = ds.getD i 0 := by
  have hmem : ds[i] < 2 ^ width := hds _ (List.getElem_mem hi)
  unfold field
  rw [Nat.mul_comm i, pow_mul, Nat.ofDigits_div_pow_eq_ofDigits_drop i (by positivity) ds hds,
    List.drop_eq_getElem_cons hi, Nat.ofDigits_cons, Nat.add_mul_mod_self_left,
    Nat.mod_eq_of_lt hmem, List.getD_eq_getElem _ _ hi]

lemma ofDigits_lt {width w : ℕ} {ds : List ℕ} (hwidth : 1 ≤ width) (hds : ∀ d ∈ ds, d < 2 ^ width)
    (hfits : ds.length * width ≤ w) : Nat.ofDigits (2 ^ width) ds < 2 ^ w := by
  have hbase : 1 < 2 ^ width := Nat.one_lt_two_pow (by omega)
  have hlt := Nat.ofDigits_lt_base_pow_length hbase hds
  rw [← pow_mul, Nat.mul_comm] at hlt
  exact hlt.trans_le (Nat.pow_le_pow_right (by norm_num) hfits)

end BitField
