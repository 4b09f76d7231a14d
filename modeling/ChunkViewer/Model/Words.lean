import Mathlib

/-!
# Words, numbers and coordinates

How the commands read their input: a line is split into words by `>>`, numbers are read by
`stoi`, and coordinates have the format `(x,y,z)`.
-/

namespace ChunkViewer

/-- `isspace` in the C locale. -/
def isSpace (c : Char) : Bool := c.toNat == 32 || (9 ≤ c.toNat && c.toNat ≤ 13)

/-- The words that `>>` reads from a line, one after the other. -/
def lineWords (line : String) : List String :=
  (line.toList.splitOnP isSpace).filterMap fun cs =>
    if cs = [] then none else some (String.ofList cs)

/-- `ss >> word`. The word keeps its value if there is none left. -/
def nextWord (tokens : List String) (word : String) : List String × String :=
  match tokens with
  | [] => ([], word)
  | token :: tokens => (tokens, token)

def digitsValue (digits : List Char) : ℕ :=
  digits.foldl (fun n c => 10 * n + (c.toNat - 48)) 0

/-- The sign in front of a number, and what follows it. -/
def splitSign (cs : List Char) : ℤ × List Char :=
  match cs with
  | [] => (1, [])
  | c :: cs => if c = '-' then (-1, cs) else if c = '+' then (1, cs) else (1, c :: cs)

/-- `stoi`: the number that a string starts with. It throws when there is none, and when it is
out of range. -/
def stoi (s : String) : Option ℤ :=
  let (sign, cs) := splitSign (s.toList.dropWhile isSpace)
  let digits := cs.takeWhile Char.isDigit
  let n := sign * digitsValue digits
  if digits = [] then none
  else if -2147483648 ≤ n ∧ n ≤ 2147483647 then some n
  else none

/-- The loop of `parseCoords` over the characters between the parentheses. `false` is a
character behind the third comma. -/
def coordLoop : List Char → ℕ → String → String → String →
    Bool × ℕ × String × String × String
  | [], currentPos, xString, yString, zString => (true, currentPos, xString, yString, zString)
  | c :: cs, currentPos, xString, yString, zString =>
    if c = ',' then coordLoop cs (currentPos + 1) xString yString zString
    else if currentPos = 0 then coordLoop cs currentPos (xString.push c) yString zString
    else if currentPos = 1 then coordLoop cs currentPos xString (yString.push c) zString
    else if currentPos = 2 then coordLoop cs currentPos xString yString (zString.push c)
    else (false, currentPos, xString, yString, zString)

/-- The coordinates in a word of the format `(x,y,z)`. -/
def coordinates (word : String) : Option (ℤ × ℤ × ℤ) :=
  if word.toList.head? ≠ some '(' ∨ word.toList.getLast? ≠ some ')' then none
  else
    let (valid, currentPos, xString, yString, zString) :=
      coordLoop word.toList.tail.dropLast 0 "" "" ""
    match stoi xString, stoi yString, stoi zString with
    | some x, some y, some z => if valid = true ∧ currentPos = 2 then some (x, y, z) else none
    | _, _, _ => none

end ChunkViewer
