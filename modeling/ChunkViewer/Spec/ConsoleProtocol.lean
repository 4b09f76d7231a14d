import ChunkViewer.Library.Protocol
import ChunkViewer.Model.Commands

/-!
# The protocol of the console

What a session may do and in which order: a line is answered before the next prompt, the array
of coordinates is used only between `new` and `delete`, and a file is removed, opened, written
and closed while the array is held.
-/

namespace ChunkViewer

inductive Phase
  | ready
  | answered
  | holding
  | removed (fileName : String)
  | opening (fileName : String)
  | writing
deriving DecidableEq

/-- Where the console stands, and how many prompts it has printed. -/
structure Console where
  phase : Phase
  prompts : ℕ
deriving DecidableEq

/-- The events that a phase allows, and the phase after each. -/
def Phase.next : Phase → Event → Option Phase
  | .ready, .newArray => some .holding
  | .ready, .print _ => some .answered
  | .ready, .report _ => some .answered
  | .holding, .readArray => some .holding
  | .holding, .lookup _ _ _ _ => some .holding
  | .holding, .print _ => some .holding
  | .holding, .report _ => some .holding
  | .holding, .deleteArray => some .answered
  | .holding, .removeFile fileName => some (.removed fileName)
  | .removed fileName, .openFile fileName' =>
    if fileName' = fileName then some (.opening fileName) else none
  | .opening _, .writeFile _ => some .writing
  -- The file could not be created.
  | .opening fileName, .report r => if r = .cannotCreate fileName then some .holding else none
  | .writing, .writeFile _ => some .writing
  | .writing, .readArray => some .writing
  | .writing, .closeFile => some .holding
  | _, _ => none

def Console.step (s : Console) (e : Event) : Option Console :=
  if s.phase = .answered ∧ e = .prompt then some ⟨.ready, s.prompts + 1⟩
  else (s.phase.next e).map fun phase => ⟨phase, s.prompts⟩

/-- Every `-d` has a dimension after it. -/
def DimensionsGiven : List String → Prop
  | [] => True
  | [flag] => flag ≠ "-d"
  | flag :: word :: tokens =>
    if flag = "-d" then (dimensionOf word).isSome ∧ DimensionsGiven tokens
    else DimensionsGiven (word :: tokens)

/-- The line asks for a block with a dimension that is none. -/
def BadWhatLine (line : String) : Prop :=
  ∃ coords flags, lineWords line = "what" :: "block" :: coords :: flags ∧ ¬DimensionsGiven flags

end ChunkViewer
