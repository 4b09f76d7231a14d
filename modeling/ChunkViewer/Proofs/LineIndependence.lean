import ChunkViewer.Library.SpacedWords
import ChunkViewer.Model.Commands

/-!
# What a line takes from the lines before it

The word that the line loop reads into outlives the line. A line with a word of its own reads
that first, and nothing of an earlier line is left. A blank line runs the leftover word again.
-/

namespace ChunkViewer

open SpacedWords

/-! ## Sessions -/

/-- Runs lines one after the other and returns the word they leave. -/
def afterLines (world : LoaderState) : List (Environment × String) → String → Command String
  | [], word => pure word
  | (env, line) :: lines, word => do
    let word ← runLine env world (lineWords line) word
    afterLines world lines word

/-- Console output, or a change of a file. -/
def Event.isEffect : Event → Bool
  | .newArray => false
  | .readArray => false
  | .deleteArray => false
  | .lookup _ _ _ _ => false
  | _ => true

/-- The effects of a line, given the word that is left from the lines before. -/
def lineEffects (env : Environment) (world : LoaderState) (line word : String) : List Event :=
  (runLine env world (lineWords line) word).events.filter Event.isEffect

/-- The line has the same effects after any two sequences of lines. -/
def LineIndependent (env : Environment) (world : LoaderState) (line : String) : Prop :=
  ∀ before before' word word', (afterLines world before "").result = .ok word →
    (afterLines world before' "").result = .ok word' →
    lineEffects env world line word = lineEffects env world line word'

/-- A session is its first lines, and the rest run on the word they leave. -/
theorem session_append (world : LoaderState) (before lines : List (Environment × String))
    (word : String) :
    session world (before ++ lines) word =
      (afterLines world before word >>= fun word => session world lines word) := by
  induction before generalizing word with
  | nil => rfl
  | cons p before ih =>
    obtain ⟨env, line⟩ := p
    rw [List.cons_append, session, afterLines]
    obtain ⟨events, result⟩ := runLine env world (lineWords line) word
    cases result with
    | error e => rfl
    | ok word =>
      rw [Traced.ok_bind, Traced.ok_bind, ih, Traced.after_bind]

/-! ## Words of a line -/

lemma lineWords_eq (line : String) :
    lineWords line = (split isSpace line.toList).map String.ofList := by
  unfold lineWords split
  induction line.toList.splitOnP isSpace with
  | nil => rfl
  | cons run runs ih =>
    cases run with
    | nil => exact ih
    | cons c cs =>
      rw [List.filterMap_cons, if_neg (List.cons_ne_nil c cs), List.filter_cons_of_pos (by simp),
        List.map_cons, ← ih]

lemma lineWords_eq_nil_iff {line : String} :
    lineWords line = [] ↔ ∀ c ∈ line.toList, isSpace c = true := by
  rw [lineWords_eq, List.map_eq_nil_iff, ← spells_iff, spells_nil_iff]

/-! ## Lines -/

lemma runLine_word (env : Environment) (world : LoaderState) (token : String)
    (tokens : List String) (word word' : String) :
    runLine env world (token :: tokens) word = runLine env world (token :: tokens) word' := rfl

/-- A blank line repeats the word of the line before it, here one that is no command. -/
lemma not_independent_of_blank (env : Environment) (world : LoaderState) {line : String}
    (h : lineWords line = []) : ¬LineIndependent env world line := by
  intro hindep
  have hfoo : (afterLines world [(env, "foo")] "").result = .ok "foo" := by
    have hwords : lineWords "foo" = ["foo"] := by decide
    rw [afterLines, hwords]
    rfl
  have heffects := hindep [] [(env, "foo")] "" "foo" rfl hfoo
  unfold lineEffects at heffects
  rw [h] at heffects
  have hreports : [Event.report (.unknownCommand ""), .prompt] =
      [.report (.unknownCommand "foo"), .prompt] := heffects
  exact absurd hreports (by decide)

/-- A line is independent of the lines before it exactly when it holds a character that is no
white space. -/
theorem line_independent (env : Environment) (world : LoaderState) (line : String) :
    LineIndependent env world line ↔ ∃ c ∈ line.toList, isSpace c = false := by
  have hblank : (∃ c ∈ line.toList, isSpace c = false) ↔ lineWords line ≠ [] := by
    rw [ne_eq, lineWords_eq_nil_iff]
    push Not
    simp only [Bool.not_eq_true]
  rw [hblank]
  constructor
  · intro hindep hnil
    exact not_independent_of_blank env world hnil hindep
  · intro hwords before before' word word' _ _
    obtain ⟨token, tokens, hline⟩ := List.exists_cons_of_ne_nil hwords
    unfold lineEffects
    rw [hline, runLine_word env world token tokens word word']

/-- An empty line in a world without chunks. -/
theorem empty_line_repeats :
    ¬LineIndependent ⟨.insertion, fun _ => true, fun _ => true, id⟩ .init "" :=
  not_independent_of_blank _ _ (by decide)

end ChunkViewer
