import ChunkViewer.Model.Commands

/-!
# The settings that a list of flags stands for

Flags come in pairs of a flag and its value. The settings are read off the last pair of each
kind, whatever the order of the kinds.
-/

namespace ChunkViewer

/-- The words of a list of pairs. -/
def flagTokens (pairs : List (String × String)) : List String :=
  pairs.flatMap fun p => [p.1, p.2]

/-- A flag with a value that it takes. -/
def ValidPair (p : String × String) : Prop :=
  (p.1 = "-d" ∧ p.2 ∈ ["overworld", "nether", "end"]) ∨ (p.1 = "-f" ∧ p.2 ∈ ["n", "s", "e", "w"]) ∨
    (p.1 = "-ymin" ∧ (stoi p.2).isSome = true) ∨ (p.1 = "-ymax" ∧ (stoi p.2).isSome = true)

/-- The pairs of one kind. -/
def ofKind (flag : String) (pairs : List (String × String)) : List (String × String) :=
  pairs.filter fun p => p.1 = flag

def lastValue (flag : String) (pairs : List (String × String)) : Option String :=
  ((ofKind flag pairs).getLast?).map Prod.snd

def settle (defaults : Settings) (pairs : List (String × String)) : Settings where
  dim := ((lastValue "-d" pairs).bind dimensionOf).getD defaults.dim
  facing := (lastValue "-f" pairs).getD defaults.facing
  yMin := ((lastValue "-ymin" pairs).bind stoi).getD defaults.yMin
  yMax := (((lastValue "-ymax" pairs).bind stoi).map fun n => n + 1).getD defaults.yMax

lemma lastValue_append (flag : String) (pairs : List (String × String)) (p : String × String) :
    lastValue flag (pairs ++ [p]) = if p.1 = flag then some p.2 else lastValue flag pairs := by
  unfold lastValue ofKind
  rw [List.filter_append]
  by_cases h : p.1 = flag
  · rw [if_pos h, List.filter_cons_of_pos (by simp [h]), List.filter_nil, List.getLast?_concat,
      Option.map_some]
  · rw [if_neg h, List.filter_cons_of_neg (by simp [h]), List.filter_nil, List.append_nil]

lemma settle_congr (defaults : Settings) {pairs pairs' : List (String × String)}
    (h : ∀ flag, ofKind flag pairs = ofKind flag pairs') :
    settle defaults pairs = settle defaults pairs' := by
  unfold settle lastValue
  rw [h "-d", h "-f", h "-ymin", h "-ymax"]

end ChunkViewer
