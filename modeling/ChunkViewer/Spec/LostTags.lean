import ChunkViewer.Spec.SavedWorld

/-!
# Tags that are lost

`addInnerTag` replaces the pointer under a name that is there already, and nothing points to the
old tag then. So a compound loses each entry whose name occurs again later, with all below it.
-/

namespace ChunkViewer

/-! ## Counting -/

mutual

/-- The tags that a tree is made of. -/
def Tree.count : Tree → ℕ
  | .byte _ => 1
  | .short _ => 1
  | .int _ => 1
  | .string _ => 1
  | .compound entries => 1 + entries.count

def Entries.count : Entries → ℕ
  | .nil => 0
  | .cons _ tree rest => tree.count + rest.count

end

mutual

/-- Those of them that are lost when the tree is parsed. -/
def Tree.lost : Tree → ℕ
  | .byte _ => 0
  | .short _ => 0
  | .int _ => 0
  | .string _ => 0
  | .compound entries => entries.lost

def Entries.lost : Entries → ℕ
  | .nil => 0
  | .cons name tree rest =>
    (if rest.hasKey (textOf name) then tree.count else tree.lost) + rest.lost

end

/-! ## Distinct names -/

mutual

/-- In every compound of the tree the names are distinct. -/
def Tree.Distinct : Tree → Prop
  | .byte _ => True
  | .short _ => True
  | .int _ => True
  | .string _ => True
  | .compound entries => entries.Distinct

def Entries.Distinct : Entries → Prop
  | .nil => True
  | .cons name tree rest => rest.hasKey (textOf name) = false ∧ tree.Distinct ∧ rest.Distinct

end

/-! ## Saves -/

def paletteLost (palette : List (List UInt8 × Tree)) : ℕ :=
  (palette.map fun entry => entry.2.lost).sum

namespace SavedSubChunk

/-- The palettes of all storages, one behind the other. -/
def palettes (s : SavedSubChunk) : List (List UInt8 × Tree) :=
  (s.first :: s.further).flatMap PackedStorage.palette

def lost (s : SavedSubChunk) : ℕ := paletteLost s.palettes

def Distinct (s : SavedSubChunk) : Prop := ∀ entry ∈ s.palettes, entry.2.Distinct

end SavedSubChunk

end ChunkViewer
