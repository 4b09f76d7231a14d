import ChunkViewer.Model.DrawSlice
import ChunkViewer.Proofs.ChunkBounds
import ChunkViewer.Proofs.TagSearch

/-!
# The picture of a slice

What a slice shows, without the order in which it is written: each place of the graph has a
texture or stays empty. The script of a picture has one record for each texture.
-/

namespace ChunkViewer

/-- The texture at each column index and height, `none` where nothing is drawn. -/
abbrev Picture := ℕ → ℤ → Option String

/-- A header and its own point. -/
def record (path : String) (index : ℕ) (y : ℤ) : List Output :=
  puts "newcurve eps " ++ (puts path ++ puts " ") ++ putsPoint index y

def recordOf : Option String → ℕ → ℤ → List Output
  | some path, index, y => record path index y
  | none, _, _ => []

def Picture.script (p : Picture) (yMin yMax : ℤ) : List Output :=
  (List.range 16).flatMap fun index =>
    (sliceRows yMin yMax).flatMap fun y => recordOf (p index y) index y

/-! ## The texture of a block -/

/-- The name of a block without its first 10 characters. -/
def NBTTag.strippedName (order : IterationOrder) (tag : NBTTag) : String :=
  match tag.findInnerTag order "name" [] with
  | some t => String.ofList (t.stringVal.toList.drop 10)
  | none => ""

/-- The textures that are looked for, in order. -/
def NBTTag.candidates (order : IterationOrder) (tag : NBTTag) : List String :=
  match tag.getBlockType order with
  | .ok blockType =>
    (if blockType = "NULL" then [texturePath (tag.strippedName order)] else []) ++
      [texturePath blockType]
  | .error _ => []

def NBTTag.texture (order : IterationOrder) (stat : String → Bool) (tag : NBTTag) :
    Option String :=
  if tag.strippedName order = "air" then none
  else some (((tag.candidates order).find? stat).getD "./blocks-eps/unknown.eps")

def Block.texture (order : IterationOrder) (stat : String → Bool) (b : Block) : Option String :=
  if 0 ≤ b.state then b.stateTag.bind (NBTTag.texture order stat)
  else if b.state = -2 then some "./blocks-eps/barrier.eps"
  else some "./blocks-eps/unknown.eps"

/-- What a block may show: air nothing, every other block a texture that was found or one of
the two that are not looked for. -/
inductive Block.Shows (order : IterationOrder) (stat : String → Bool) :
    Block → Option String → Prop
  | air {state : ℤ} {tag : NBTTag} : 0 ≤ state → tag.strippedName order = "air" →
    Shows order stat ⟨state, some tag⟩ none
  | found {state : ℤ} {tag : NBTTag} {path : String} : 0 ≤ state →
    tag.strippedName order ≠ "air" → path ∈ tag.candidates order → stat path = true →
    Shows order stat ⟨state, some tag⟩ (some path)
  | missing {state : ℤ} {tag : NBTTag} : 0 ≤ state → tag.strippedName order ≠ "air" →
    (∀ path ∈ tag.candidates order, stat path = false) →
    Shows order stat ⟨state, some tag⟩ (some "./blocks-eps/unknown.eps")
  | corrupt {b : Block} : b.state = -2 → Shows order stat b (some "./blocks-eps/barrier.eps")
  | unknown {b : Block} : b.state < 0 → b.state ≠ -2 →
    Shows order stat b (some "./blocks-eps/unknown.eps")

/-! ## The slice -/

/-- The raw x of column `index`. -/
def sliceX (facing : String) (rawX : ℤ) (index : ℕ) : ℤ :=
  if facing = "n" then index else if facing = "s" then 15 - index else rawX

/-- The raw z of column `index`. -/
def sliceZ (facing : String) (rawZ : ℤ) (index : ℕ) : ℤ :=
  if facing = "e" then index else if facing = "w" then 15 - index else rawZ

def Chunk.picture (order : IterationOrder) (stat : String → Bool) (c : Chunk) (facing : String)
    (rawX rawZ : ℤ) : Picture := fun index y =>
  match c.getBlock (sliceX facing rawX index) y (sliceZ facing rawZ index) with
  | .ok b => b.texture order stat
  | .error _ => none

/-! ## Tags that can be drawn -/

/-- The type tag of a block with this name is stored below its tag. -/
structure NBTTag.TypeStored (tag : NBTTag) (blockName : String) : Prop where
  stone : blockName = "minecraft:stone" → tag.stored "stone_type" ≠ []
  leaves : blockName = "minecraft:leaves" ∨ blockName = "minecraft:leaves2" →
    tag.stored "old_leaf_type" ≠ [] ∨ tag.stored "new_leaf_type" ≠ []
  log : blockName = "minecraft:log" →
    tag.stored "old_log_type" ≠ [] ∨ tag.stored "new_log_type" ≠ []
  sand : blockName = "minecraft:sand" → tag.stored "sand_type" ≠ []

/-- The name is long enough to be stripped and the type tag is there. -/
def NBTTag.Drawable (tag : NBTTag) (blockName : String) : Prop :=
  10 ≤ blockName.length ∧ tag.TypeStored blockName

/-- The slice shows a cell with this tag. -/
def Chunk.Meets (c : Chunk) (facing : String) (rawX rawZ yMin yMax : ℤ) (tag : NBTTag) : Prop :=
  ∃ index < 16, ∃ (i : Fin 16) (j : Fin 256) (k : Fin 16), sliceX facing rawX index = (i : ℕ) ∧
    sliceZ facing rawZ index = (k : ℕ) ∧ (yMin ≤ (j : ℕ) ∧ (j : ℕ) < yMax) ∧
    c.cellTag i j k = some tag

end ChunkViewer
