import Mathlib

/-!
# Association lists with assignment

`assign k v l` is the `m[k] = v` of a map kept as a list of pairs: a key that is there
gets the new value, a new key goes to the end. Reading is `List.lookup`.
-/

namespace AssocList

variable {κ α : Type} [DecidableEq κ]

def assign (k : κ) (v : α) : List (κ × α) → List (κ × α)
  | [] => [(k, v)]
  | (k', v') :: l => if k = k' then (k, v) :: l else (k', v') :: assign k v l

lemma lookup_cons_eq_ite (k k' : κ) (v : α) (l : List (κ × α)) :
    ((k', v) :: l).lookup k = if k = k' then some v else l.lookup k := by
  by_cases h : k = k'
  · simp [h]
  · have hb : (k == k') = false := beq_eq_false_iff_ne.mpr h
    rw [if_neg h, List.lookup_cons, hb]

lemma lookup_assign (k k' : κ) (v : α) (l : List (κ × α)) :
    (assign k v l).lookup k' = if k' = k then some v else l.lookup k' := by
  induction l with
  | nil => rw [assign, lookup_cons_eq_ite]
  | cons p l ih =>
    obtain ⟨k₁, v₁⟩ := p
    rw [assign]
    by_cases h₁ : k = k₁
    · subst h₁
      rw [if_pos rfl, lookup_cons_eq_ite, lookup_cons_eq_ite]
      by_cases h : k' = k <;> simp [h]
    · rw [if_neg h₁, lookup_cons_eq_ite, lookup_cons_eq_ite, ih]
      by_cases h₂ : k' = k₁
      · have hne : ¬k' = k := fun e => h₁ (e ▸ h₂)
        simp [h₂, show ¬k₁ = k from fun e => h₁ e.symm]
      · rw [if_neg h₂, if_neg h₂]

lemma sum_map_assign_le (f : κ × α → ℕ) (k : κ) (v : α) (l : List (κ × α)) :
    ((assign k v l).map f).sum ≤ (l.map f).sum + f (k, v) := by
  induction l with
  | nil => simp [assign]
  | cons p l ih =>
    obtain ⟨k', v'⟩ := p
    rw [assign]
    by_cases h : k = k'
    · rw [if_pos h, List.map_cons, List.sum_cons, List.map_cons, List.sum_cons]
      omega
    · rw [if_neg h, List.map_cons, List.sum_cons, List.map_cons, List.sum_cons]
      omega

end AssocList
