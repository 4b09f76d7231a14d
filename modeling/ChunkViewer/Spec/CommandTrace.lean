import ChunkViewer.Model.Commands

/-!
# Traces of a command

What a command should leave behind: an array that is released once and not used afterwards,
and no trace of a lookup or a file where it was not carried out.
-/

namespace ChunkViewer

/-- The array is released exactly once and not read afterwards. -/
def ReleasedOnce (events : List Event) : Prop :=
  ∃ before after, events = before ++ .deleteArray :: after ∧ .deleteArray ∉ before ∧
    .deleteArray ∉ after ∧ .readArray ∉ after

/-- The command stopped at a bad dimension. -/
structure AbortsAtDimension (events : List Event) : Prop where
  reported : .report .badDimension ∈ events
  noLookup : ∀ x y z dim, .lookup x y z dim ∉ events
  noResult : ∀ text, .print text ∉ events
  released : ReleasedOnce events
  onePrompt : events.count .prompt = 1

/-- The event changes a file. -/
def Event.TouchesFile : Event → Prop
  | .removeFile _ => True
  | .openFile _ => True
  | .writeFile _ => True
  | _ => False

lemma ReleasedOnce.after {before after : List Event}
    (h : ReleasedOnce (before ++ .deleteArray :: after)) :
    .deleteArray ∉ after ∧ .readArray ∉ after := by
  obtain ⟨before', after', hsplit, hbefore, hafter, hread⟩ := h
  obtain ⟨-, -, rfl⟩ := (List.append_cons_inj_of_notMem hbefore hafter).mp hsplit.symm
  exact ⟨hafter, hread⟩

end ChunkViewer
