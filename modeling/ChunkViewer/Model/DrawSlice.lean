import ChunkViewer.Library.Traced
import ChunkViewer.Model.TagLookup
import ChunkViewer.Model.WorldData

/-!
# Drawing a slice

`drawSlice` writes the jgraph commands for one slice of a chunk: 16 columns along x or z, and
in each the blocks from `yMin` up to `yMax`. What `stat` answers is a parameter.
-/

namespace ChunkViewer

/-- What is written to the file. A number stands for the decimal text of a `double` or an
`int`. -/
inductive Output
  | char (c : Char)
  | number (q : ℚ)
deriving DecidableEq

def puts (s : String) : List Output := s.toList.map Output.char

abbrev Drawing := Traced Output Failure

/-- A call that can stop as the loader can. -/
def orStop {α : Type} : Exec α → Except Failure α
  | .ok a => .ok a
  | .error s => .error (.stop s)

/-- A tag pointer that is dereferenced. -/
def derefTag : Option NBTTag → Except Failure NBTTag
  | some tag => .ok tag
  | none => .error .nullTag

/-- `s.substr(pos)`, which throws past the end. -/
def substr (s : String) (pos : ℕ) : Except Failure String :=
  if pos ≤ s.length then .ok (String.ofList (s.toList.drop pos)) else .error .outOfRange

def texturePath (name : String) : String := "./blocks-eps/" ++ name ++ ".eps"

/-- The base name is tried first, then the alternative name. -/
def putsTexture (stat : String → Bool) (name blockType : String) : List Output :=
  if blockType = "NULL" ∧ stat (texturePath name) then puts (texturePath name) ++ puts " "
  else if stat (texturePath blockType) then puts (texturePath blockType) ++ puts " "
  else puts "./blocks-eps/unknown.eps "

/-- The header of a valid block. Returns the name of the block. -/
def drawTexture (order : IterationOrder) (stat : String → Bool) (tag : NBTTag) :
    Drawing String := do
  let name ← Traced.lift (derefString (tag.findInnerTag order "name" []))
  let name ← Traced.lift (substr name 10)
  let blockType ← Traced.lift (tag.getBlockType order)
  -- Air is not printed on the graph.
  if name ≠ "air" ∨ blockType ≠ "NULL" then do
    Traced.emits (puts "newcurve eps ")
    Traced.emits (putsTexture stat name blockType)
    pure name
  else pure name

/-- The header of a block. A block that is not valid has no name. -/
def drawHeader (order : IterationOrder) (stat : String → Bool) (currBlock : Block) :
    Drawing String :=
  if 0 ≤ currBlock.state then do
    let tag ← Traced.lift (derefTag currBlock.stateTag)
    drawTexture order stat tag
  else if currBlock.state = -2 then do
    Traced.emits (puts "newcurve eps ./blocks-eps/barrier.eps ")
    pure ""
  else do
    Traced.emits (puts "newcurve eps ./blocks-eps/unknown.eps ")
    pure ""

/-- The position on the graph. -/
def putsPoint (index : ℕ) (y : ℤ) : List Output :=
  puts "marksize 1 1 pts " ++ [.number (0.52 + index)] ++ puts " " ++ [.number (0.52 + y)] ++
    puts "\n"

/-- A column of the slice: its place on the graph and its raw coordinates. -/
structure SliceColumn where
  index : ℕ
  rawX : ℤ
  rawZ : ℤ
deriving DecidableEq, Repr

def drawBlock (order : IterationOrder) (stat : String → Bool) (chunk : Chunk)
    (column : SliceColumn) (y : ℤ) : Drawing Unit := do
  let currBlock ← Traced.lift (orStop (chunk.getBlock column.rawX y column.rawZ))
  let name ← drawHeader order stat currBlock
  if name ≠ "air" then Traced.emits (putsPoint column.index y) else pure ()

/-- The values of `i` in `for (i = start; i >= 0 && i <= 15; i += inc)`, for so many rounds. -/
def sweep (inc : ℤ) : ℕ → ℤ → List ℤ
  | 0, _ => []
  | rounds + 1, i => if 0 ≤ i ∧ i ≤ 15 then i :: sweep inc rounds (i + inc) else []

/-- The direction blocks are printed in is flipped depending on the facing direction. The
sweep leaves the chunk after 16 rounds. -/
def facingSweep (facing : String) : List ℤ :=
  if facing = "n" ∨ facing = "e" then sweep 1 17 0 else sweep (-1) 17 15

/-- Travels along the x or z coordinates. -/
def sliceColumns (facing : String) (rawX rawZ : ℤ) : List SliceColumn :=
  (facingSweep facing).zipIdx.map fun (i, index) =>
    if facing = "n" ∨ facing = "s" then ⟨index, i, rawZ⟩ else ⟨index, rawX, i⟩

/-- The values of `y` between `yMin` and `yMax`. -/
def sliceRows (yMin yMax : ℤ) : List ℤ :=
  (List.range (yMax - yMin).toNat).map fun n : ℕ => yMin + (n : ℤ)

/-- The columns that are drawn for a target. -/
def Chunk.sliceColumns (chunk : Chunk) (x z : ℤ) (facing : String) : Exec (List SliceColumn) := do
  let rawX ← rawCoordinate x chunk.x
  let rawZ ← rawCoordinate z chunk.z
  .ok (ChunkViewer.sliceColumns facing rawX rawZ)

/-- Writes the jgraph eps commands for the chunk blocks. `x` and `z` are `xyz[0]` and
`xyz[2]`. -/
def drawSlice (order : IterationOrder) (stat : String → Bool) (chunk : Chunk) (x z : ℤ)
    (facing : String) (yMin yMax : ℤ) : Drawing Unit := do
  let columns ← Traced.lift (orStop (chunk.sliceColumns x z facing))
  Traced.forEach columns fun column =>
    Traced.forEach (sliceRows yMin yMax) fun y =>
      drawBlock order stat chunk column y

end ChunkViewer
