import Mathlib

/-!
# Filling a ring of cells

`ringFill cells pos as` writes the elements of `as` one after the other, starting at
position `pos` and going round the `m` cells. The last write to a cell is the one seen.
-/

namespace RingFill

variable {α : Type} {m : ℕ} [NeZero m]

def ringFill (cells : Fin m → α) : ℕ → List α → Fin m → α
  | _, [] => cells
  | pos, a :: as => ringFill (Function.update cells (Fin.ofNat m pos) a) (pos + 1) as

lemma ringFill_append (cells : Fin m → α) (pos : ℕ) (as bs : List α) :
    ringFill cells pos (as ++ bs) = ringFill (ringFill cells pos as) (pos + as.length) bs := by
  induction as generalizing cells pos with
  | nil => rfl
  | cons a as ih =>
    rw [List.cons_append, ringFill, ih, ringFill, List.length_cons, Nat.add_right_comm,
      Nat.add_assoc]

lemma ringFill_add_turn (cells : Fin m → α) (pos : ℕ) (as : List α) :
    ringFill cells (pos + m) as = ringFill cells pos as := by
  induction as generalizing cells pos with
  | nil => rfl
  | cons a as ih =>
    have hpos : Fin.ofNat m (pos + m) = Fin.ofNat m pos := Fin.ext (by simp)
    rw [ringFill, ringFill, hpos, Nat.add_right_comm, ih]

lemma ringFill_apply {cells : Fin m → α} {pos : ℕ} {as : List α} (h : pos + as.length ≤ m)
    (q : Fin m) :
    ringFill cells pos as q = if pos ≤ q then as.getD (q - pos) (cells q) else cells q := by
  induction as generalizing cells pos with
  | nil => simp [ringFill]
  | cons a as ih =>
    simp only [List.length_cons] at h
    have hval : (Fin.ofNat m pos).val = pos := by simp [Nat.mod_eq_of_lt (show pos < m by omega)]
    rw [ringFill, ih (by omega)]
    by_cases hq : q.val = pos
    · have hqf : q = Fin.ofNat m pos := Fin.ext (by omega)
      rw [if_neg (by omega), if_pos (by omega), hqf, Function.update_self, hval, Nat.sub_self,
        List.getD_cons_zero]
    · have hqf : q ≠ Fin.ofNat m pos := fun e => hq (by rw [e, hval])
      rw [Function.update_of_ne hqf]
      by_cases hlt : pos + 1 ≤ q.val
      · rw [if_pos hlt, if_pos (by omega), show q.val - pos = (q.val - (pos + 1)) + 1 by omega,
          List.getD_cons_succ]
      · rw [if_neg hlt, if_neg (by omega)]

/-- From the start of the ring and at most twice round: the second turn wins. -/
lemma ringFill_two_turns {cells : Fin m → α} {as : List α} (h : as.length ≤ m + m) (q : Fin m) :
    ringFill cells 0 as q = as.getD (m + q) (as.getD q (cells q)) := by
  have hq := q.isLt
  by_cases hlen : as.length ≤ m
  · rw [ringFill_apply (by omega), if_pos (by omega), Nat.sub_zero,
      List.getD_eq_default as (as.getD q (cells q)) (show as.length ≤ m + q by omega)]
  · have hsplit : ringFill cells 0 as =
        ringFill (ringFill cells 0 (as.take m)) (0 + m) (as.drop m) := by
      conv_lhs => rw [← List.take_append_drop m as]
      rw [ringFill_append, List.length_take, Nat.min_eq_left (by omega)]
    rw [hsplit, ringFill_add_turn, ringFill_apply (by simp only [List.length_drop]; omega),
      if_pos (Nat.zero_le _), Nat.sub_zero,
      ringFill_apply (by simp only [List.length_take]; omega), if_pos (Nat.zero_le _), Nat.sub_zero]
    simp only [List.getD_eq_getElem?_getD, List.getElem?_drop]
    rw [List.getElem?_take_of_lt hq]

lemma ringFill_mem (cells : Fin m → α) (pos : ℕ) (as : List α) (q : Fin m) :
    ringFill cells pos as q = cells q ∨ ringFill cells pos as q ∈ as := by
  induction as generalizing cells pos with
  | nil => exact Or.inl rfl
  | cons a as ih =>
    rw [ringFill]
    rcases ih (Function.update cells (Fin.ofNat m pos) a) (pos + 1) with h | h
    · rw [h, Function.update_apply]
      by_cases hq : q = Fin.ofNat m pos
      · rw [if_pos hq]
        exact Or.inr List.mem_cons_self
      · rw [if_neg hq]
        exact Or.inl rfl
    · exact Or.inr (List.mem_cons_of_mem a h)

end RingFill
