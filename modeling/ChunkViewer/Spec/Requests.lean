import ChunkViewer.Library.SpacedWords
import ChunkViewer.Spec.CoordinateText
import ChunkViewer.Spec.GraphSettings
import ChunkViewer.Spec.SavedWorld
import ChunkViewer.Spec.SlicePicture

/-!
# Requests

A request is a line that asks for a position of a dimension: `what` for the block there, `graph`
for a slice of its chunk. Its answer is read off the saved world.
-/

namespace ChunkViewer

open SpacedWords

/-- The coordinates are a word for `(x,y,z)`. A request with a file name is one for `graph`. -/
structure Request where
  env : Environment
  line : String
  coords : String
  x : ℤ
  y : Fin 256
  z : ℤ
  fileName : Option String
  flags : List (String × String)

namespace Request

def words (r : Request) : List String :=
  match r.fileName with
  | none => "what" :: "block" :: r.coords :: flagTokens r.flags
  | some fileName => "graph" :: "block" :: r.coords :: fileName :: flagTokens r.flags

/-- The last flag of each kind counts. Without flags the slice is that of the sub-chunk in the
Overworld, seen to the north. -/
def settings (r : Request) : Settings :=
  settle ⟨.OVERWORLD, "n", 16 * ((r.y : ℕ) / 16), 16 * ((r.y : ℕ) / 16) + 16⟩ r.flags

/-! ## Answers -/

def height {y : ℤ} (h : 0 ≤ y ∧ y ≤ 255) : Fin 256 := ⟨y.toNat, by omega⟩

/-- The slice through the saved blocks. -/
def picture (saves : List SavedSubChunk) (r : Request) : Picture := fun index y =>
  if h : 0 ≤ y ∧ y ≤ 255 then
    (savedBlock saves r.settings.dim
      (16 * (r.x / 16) + sliceX r.settings.facing (r.x % 16) index) (height h)
      (16 * (r.z / 16) + sliceZ r.settings.facing (r.z % 16) index)).texture r.env.order r.env.stat
  else none

/-- What is done for a slice, if there is a chunk. -/
def drawn (saves : List SavedSubChunk) (r : Request) (fileName : String) : List Event :=
  [.removeFile fileName, .openFile fileName] ++
    if r.env.opens fileName then
      (graphHeader r.settings).map .writeFile ++ [.readArray] ++
        ((r.picture saves).script r.settings.yMin r.settings.yMax).map .writeFile ++ [.closeFile]
    else [.report (.cannotCreate fileName)]

end Request

/-! ## Proper requests -/

/-- Each palette entry has a name that can be stripped, and the type tag that goes with it. -/
def SavedSubChunk.Drawable (order : IterationOrder) (s : SavedSubChunk) : Prop :=
  ∀ entry ∈ s.palette, ∃ t, (entry.2.decode entry.1).findInnerTag order "name" [] = some t ∧
    (entry.2.decode entry.1).Drawable t.stringVal

/-- The window is inside the world, and what it shows can be drawn. -/
structure Request.Drawable (saves : List SavedSubChunk) (r : Request) : Prop where
  window : 0 ≤ r.settings.yMin ∧ r.settings.yMin < r.settings.yMax ∧ r.settings.yMax ≤ 256
  palettes : ∀ s ∈ saves, s.Drawable r.env.order

/-- The line has the words of the request, with blanks anywhere around them. The flags are valid,
those of `what` dimensions, and no sum of an `int` and 1 overflows. -/
structure Request.Proper (saves : List SavedSubChunk) (r : Request) : Prop where
  line : Spells isSpace r.line.toList (r.words.map String.toList)
  coords : IsCoordinates r.coords r.x (r.y : ℕ) r.z
  flags : ∀ p ∈ r.flags, ValidPair p
  noOverflow : ∀ p ∈ r.flags, p.1 = "-ymax" → stoi p.2 ≠ some 2147483647
  dimensions : r.fileName = none → ∀ p ∈ r.flags, p.1 = "-d"
  drawable : r.fileName.isSome = true → r.Drawable saves

end ChunkViewer
