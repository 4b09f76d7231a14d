import Mathlib

/-!
# Decimal numerals

Signed decimal numerals and the numbers they stand for. Two printed numerals with a separator
between them determine both numbers: the separator is not a character of a numeral.
-/

namespace Decimal

/-! ## Numerals -/

/-- At least one digit and nothing else. -/
def Digits (cs : List Char) : Prop := cs ≠ [] ∧ ∀ c ∈ cs, c.isDigit = true

def value (digits : List Char) : ℕ := Nat.ofDigitChars 10 digits 0

/-- Digits, with or without a sign in front, that stand for a number. -/
inductive Signed : List Char → ℤ → Prop
  | unsigned {digits : List Char} : Digits digits → Signed digits (value digits)
  | plus {digits : List Char} : Digits digits → Signed ('+' :: digits) (value digits)
  | minus {digits : List Char} : Digits digits → Signed ('-' :: digits) (-value digits)

lemma Signed.of_mem {cs : List Char} {n : ℤ} (h : Signed cs n) {c : Char} (hc : c ∈ cs) :
    c.isDigit = true ∨ c = '+' ∨ c = '-' := by
  cases h with
  | unsigned hdigits => exact Or.inl (hdigits.2 c hc)
  | plus hdigits =>
    rcases List.mem_cons.mp hc with hc | hc
    · exact Or.inr (Or.inl hc)
    · exact Or.inl (hdigits.2 c hc)
  | minus hdigits =>
    rcases List.mem_cons.mp hc with hc | hc
    · exact Or.inr (Or.inr hc)
    · exact Or.inl (hdigits.2 c hc)

lemma Signed.ne_nil {cs : List Char} {n : ℤ} (h : Signed cs n) : cs ≠ [] := by
  cases h with
  | unsigned hdigits => exact hdigits.1
  | plus _ => exact List.cons_ne_nil _ _
  | minus _ => exact List.cons_ne_nil _ _

lemma digits_repr (n : ℕ) : Digits n.repr.toList ∧ value n.repr.toList = n := by
  rw [Nat.toList_repr]
  refine ⟨⟨Nat.toDigits_ne_nil, ?_⟩, Nat.ofDigitChars_ten_toDigits⟩
  intro c hc
  exact Nat.isDigit_of_mem_toDigits (by norm_num) (by norm_num) hc

/-- A printed number is a numeral of it. -/
theorem signed_toString (n : ℤ) : Signed (toString n).toList n := by
  rw [Int.toString_eq_repr, Int.repr_eq_if]
  by_cases h : 0 ≤ n
  · obtain ⟨hdigits, hvalue⟩ := digits_repr n.toNat
    have hsigned := Signed.unsigned hdigits
    rw [hvalue, Int.toNat_of_nonneg h] at hsigned
    rwa [if_pos h]
  · obtain ⟨hdigits, hvalue⟩ := digits_repr (-n).toNat
    have hsigned := Signed.minus hdigits
    rw [hvalue, Int.toNat_of_nonneg (by omega), neg_neg] at hsigned
    rw [if_neg h, String.toList_append]
    exact hsigned

/-! ## Pairs -/

lemma mem_toString {n : ℤ} {c : Char} (hc : c ∈ (toString n).toList) :
    c.isDigit = true ∨ c = '-' := by
  rw [Int.toString_eq_repr, Int.repr_eq_if] at hc
  by_cases h : 0 ≤ n
  · rw [if_pos h, Nat.toList_repr] at hc
    exact Or.inl (Nat.isDigit_of_mem_toDigits (by norm_num) (by norm_num) hc)
  · rw [if_neg h, String.toList_append, List.mem_append, Nat.toList_repr] at hc
    rcases hc with hc | hc
    · exact Or.inr (by simpa using hc)
    · exact Or.inl (Nat.isDigit_of_mem_toDigits (by norm_num) (by norm_num) hc)

lemma notMem_toString {sep : Char} (hdigit : sep.isDigit = false) (hsign : sep ≠ '-') (n : ℤ) :
    sep ∉ (toString n).toList := by
  intro hmem
  rcases mem_toString hmem with hd | hs
  · rw [hdigit] at hd
    exact absurd hd (by simp)
  · exact hsign hs

lemma toString_inj {a b : ℤ} (h : (toString a).toList = (toString b).toList) : a = b := by
  have hstr := String.toList_inj.mp h
  rw [Int.toString_eq_repr, Int.toString_eq_repr] at hstr
  exact Int.repr_injective hstr

theorem pair_inj {sep : Char} (hdigit : sep.isDigit = false) (hsign : sep ≠ '-') {a b a' b' : ℤ}
    (h : toString a ++ String.singleton sep ++ toString b =
      toString a' ++ String.singleton sep ++ toString b') : a = a' ∧ b = b' := by
  have hlist := congrArg String.toList h
  simp only [String.toList_append, String.toList_singleton, List.append_assoc,
    List.singleton_append] at hlist
  obtain ⟨hl, -, hr⟩ := (List.append_cons_inj_of_notMem (notMem_toString hdigit hsign a)
    (notMem_toString hdigit hsign b)).mp hlist
  exact ⟨toString_inj hl, toString_inj hr⟩

end Decimal
