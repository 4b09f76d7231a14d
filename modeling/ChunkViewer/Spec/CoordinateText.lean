import ChunkViewer.Library.Decimal
import ChunkViewer.Model.Commands

/-!
# The text of coordinates

The words that stand for coordinates: three complete numerals in parentheses. A loose word has
a field that only starts with a numeral.
-/

namespace ChunkViewer

/-- A signed numeral of a number that an `int` can hold. -/
def Numeral (cs : List Char) (n : ℤ) : Prop :=
  Decimal.Signed cs n ∧ -2147483648 ≤ n ∧ n ≤ 2147483647

/-- The text starts with a numeral, behind any white space. -/
def StartsWithNumeral (cs : List Char) (n : ℤ) : Prop :=
  ∃ spaces numeral rest, cs = spaces ++ (numeral ++ rest) ∧ (∀ c ∈ spaces, isSpace c = true) ∧
    Numeral numeral n ∧ ∀ c ∈ rest.head?, c.isDigit = false

/-- The word is `(a,b,c)`. -/
def IsTriple (word : String) (a b c : List Char) : Prop :=
  word.toList = '(' :: (a ++ ',' :: (b ++ ',' :: (c ++ [')'])))

/-- The word is `(a,b,c)` with numerals of `x`, `y` and `z`. -/
def IsCoordinates (word : String) (x y z : ℤ) : Prop :=
  ∃ a b c, IsTriple word a b c ∧ Numeral a x ∧ Numeral b y ∧ Numeral c z

/-- The word is `(a,b,c)`, each field without a comma starts with a numeral, and they are not
all three complete numerals. -/
def IsLoose (word : String) : Prop :=
  ∃ a b c x y z, IsTriple word a b c ∧ (',' ∉ a ∧ ',' ∉ b ∧ ',' ∉ c) ∧
    (StartsWithNumeral a x ∧ StartsWithNumeral b y ∧ StartsWithNumeral c z) ∧
    ¬(Numeral a x ∧ Numeral b y ∧ Numeral c z)

/-- `parseCoords` returns the coordinates that the word is, or else a null pointer. -/
structure AcceptsCoordinates (word : String) : Prop where
  accepts : ∀ xyz, (parseCoords word).result = .ok (some xyz) →
    IsCoordinates word xyz.x xyz.y xyz.z
  rejects : (∀ x y z, ¬IsCoordinates word x y z) → (parseCoords word).result = .ok none

/-- Coordinates in the form in which `what` prints them. -/
def coordinateText (x y z : ℤ) : String :=
  "(" ++ toString x ++ "," ++ toString y ++ "," ++ toString z ++ ")"

end ChunkViewer
