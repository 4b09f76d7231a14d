import Mathlib

/-!
# Words between separators

A list is split into words, its runs without a separator. `Spells` says which lists have which
words: any number of separators stands around the words, and at least one between two of them.
-/

namespace SpacedWords

variable {α : Type} {sep : α → Bool}

/-- A run that is not empty and has no separator. -/
def IsWord (sep : α → Bool) (word : List α) : Prop := word ≠ [] ∧ ∀ c ∈ word, sep c = false

inductive Spells (sep : α → Bool) : List α → List (List α) → Prop
  | nil : Spells sep [] []
  | sep {c : α} {cs : List α} {words : List (List α)} :
      sep c = true → Spells sep cs words → Spells sep (c :: cs) words
  | last {word : List α} : IsWord sep word → Spells sep word [word]
  | word {word : List α} {c : α} {cs : List α} {words : List (List α)} :
      IsWord sep word → sep c = true → Spells sep cs words →
      Spells sep (word ++ c :: cs) (word :: words)

lemma spells_nil_iff {cs : List α} : Spells sep cs [] ↔ ∀ c ∈ cs, sep c = true := by
  constructor
  · generalize hnone : ([] : List (List α)) = words
    intro h
    induction h with
    | nil => simp
    | sep hc _ ih => exact List.forall_mem_cons.mpr ⟨hc, ih hnone⟩
    | last _ => exact absurd hnone (by simp)
    | word _ _ _ => exact absurd hnone (by simp)
  · intro h
    induction cs with
    | nil => exact .nil
    | cons c cs ih =>
      rw [List.forall_mem_cons] at h
      exact .sep h.1 (ih h.2)

/-! ## Splitting -/

def split (sep : α → Bool) (cs : List α) : List (List α) :=
  (cs.splitOnP sep).filter fun run => !run.isEmpty

lemma split_sep {c : α} (h : sep c = true) (cs : List α) : split sep (c :: cs) = split sep cs := by
  rw [split, List.splitOnP_cons_eq_if_splitOnPPrepend, if_pos h, List.filter_cons_of_neg (by simp),
    split]

lemma split_word {word : List α} (h : IsWord sep word) : split sep word = [word] := by
  rw [split, List.splitOnP_eq_singleton h.2, List.filter_cons_of_pos (by simpa using h.1),
    List.filter_nil]

lemma split_word_sep {word : List α} (hword : IsWord sep word) {c : α} (hc : sep c = true)
    (cs : List α) : split sep (word ++ c :: cs) = word :: split sep cs := by
  rw [split, List.splitOnP_append_cons_of_forall_mem hword.2 c hc,
    List.filter_cons_of_pos (by simpa using hword.1), split]

lemma spells_split_append (cs : List α) {run : List α} (hrun : ∀ c ∈ run, sep c = false) :
    Spells sep (run ++ cs) (split sep (run ++ cs)) := by
  induction cs generalizing run with
  | nil =>
    rw [List.append_nil]
    by_cases hne : run = []
    · subst hne
      exact .nil
    · rw [split_word ⟨hne, hrun⟩]
      exact .last ⟨hne, hrun⟩
  | cons c cs ih =>
    by_cases hc : sep c = true
    · have hrest : Spells sep cs (split sep cs) := @ih [] (by simp)
      by_cases hne : run = []
      · subst hne
        rw [List.nil_append, split_sep hc]
        exact .sep hc hrest
      · rw [split_word_sep ⟨hne, hrun⟩ hc]
        exact .word ⟨hne, hrun⟩ hc hrest
    · rw [← List.singleton_append, ← List.append_assoc]
      apply ih
      simp only [List.mem_append, List.mem_singleton]
      rintro d (hd | rfl)
      · exact hrun d hd
      · exact Bool.eq_false_of_not_eq_true hc

theorem spells_iff {cs : List α} {words : List (List α)} :
    Spells sep cs words ↔ split sep cs = words := by
  constructor
  · intro h
    induction h with
    | nil => rfl
    | sep hc _ ih => rw [split_sep hc, ih]
    | last hword => exact split_word hword
    | word hword hc _ ih => rw [split_word_sep hword hc, ih]
  · rintro rfl
    exact @spells_split_append _ _ cs [] (by simp)

end SpacedWords
