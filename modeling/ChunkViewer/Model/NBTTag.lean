import ChunkViewer.Library.AssocList
import ChunkViewer.Model.Slice

/-!
# NBT tags and their parser

Strings are byte strings: a `String` here holds one character per byte. `parseNBTTag`
calls itself through `parseNBTPayload`; the `fuel` bounds the number of nested calls and
loop rounds.
-/

namespace ChunkViewer

/-- The tag kinds, and the values of the enumeration that are none: its enumerators need four
bits. -/
inductive NBTType
  | END
  | BYTE
  | SHORT
  | INT
  | LONG
  | STRING
  | LIST
  | COMPOUND
  | unknown (id : UInt8)
deriving DecidableEq, Repr

/-- `static_cast<NBTType>` of a byte, undefined outside the values of the enumeration. -/
def NBTType.ofByte (b : UInt8) : Exec NBTType :=
  if b = 0 then .ok .END
  else if b = 1 then .ok .BYTE
  else if b = 2 then .ok .SHORT
  else if b = 3 then .ok .INT
  else if b = 4 then .ok .LONG
  else if b = 8 then .ok .STRING
  else if b = 9 then .ok .LIST
  else if b = 10 then .ok .COMPOUND
  else if b < 16 then .ok (.unknown b)
  else .error (.undefined .tagType)

lemma NBTType.ofByte_cases (b : UInt8) :
    (b < 16 ∧ ∃ type, ofByte b = .ok type) ∨
      (¬b < 16 ∧ ofByte b = .error (.undefined .tagType)) := by
  by_cases hb : b < 16
  · left
    unfold ofByte
    split_ifs <;> exact ⟨hb, _, rfl⟩
  · right
    have hne : ∀ k < 16, b ≠ k := fun k hk h => hb (h ▸ hk)
    refine ⟨hb, ?_⟩
    rw [ofByte, if_neg (hne 0 (by decide)), if_neg (hne 1 (by decide)), if_neg (hne 2 (by decide)),
      if_neg (hne 3 (by decide)), if_neg (hne 4 (by decide)), if_neg (hne 8 (by decide)),
      if_neg (hne 9 (by decide)), if_neg (hne 10 (by decide)), if_neg hb]

/-- The numeric members are `none` until they are assigned: `new NBTTag` leaves them
indeterminate. -/
structure NBTTag where
  type : NBTType
  name : String
  intVal : Option (BitVec 32)
  shortVal : Option (BitVec 16)
  byteVal : Option (BitVec 8)
  longVal : Option (BitVec 64)
  stringVal : String
  innerTags : List (String × NBTTag)

/-- `new NBTTag`. Its type is indeterminate too, and always assigned before it is read. -/
def NBTTag.new : NBTTag :=
  ⟨.END, "", none, none, none, none, "", []⟩

def NBTTag.addInnerTag (t tag : NBTTag) : NBTTag :=
  { t with innerTags := AssocList.assign tag.name tag t.innerTags }

/-- `count` rounds of appending the byte at the cursor to a string. -/
def parseChars (s : Slice) : Nat → Nat → String → Exec (Nat × String)
  | 0, offset, text => .ok (offset, text)
  | count + 1, offset, text => do
    let c ← s.charAt offset
    parseChars s count (toUInt32 (offset + 1)) (text.push (Char.ofUInt8 c))

/-- The `STRING` payload. `stringLength` is a `uint32_t` while the loop counter is an `int`. -/
def parseString (s : Slice) (offset : Nat) : Exec (Nat × String) := do
  let length ← parseShort s offset
  let stringLength := toUInt32 length.toInt
  let (offset, text) ← parseChars s (min stringLength 2147483648) (toUInt32 (offset + 2)) ""
  if 2147483648 ≤ stringLength then .error (.undefined .loopCounter) else .ok (offset, text)

/-- List tags do not have a type byte. -/
def parseTypeByte (s : Slice) (offset : Nat) (type : NBTType) (parseType : Bool) :
    Exec (Nat × NBTType) :=
  if parseType then do
    let id ← s.charAt offset
    let type ← NBTType.ofByte id
    .ok (toUInt32 (offset + 1), type)
  else .ok (offset, type)

/-- The type and name that start a tag. The name length is signed: no byte is read for a
negative one. -/
def parseNBTHeader (s : Slice) (offset : Nat) (tag : NBTTag) (parseType : Bool) :
    Exec (Nat × NBTTag) := do
  let (offset, type) ← parseTypeByte s offset tag.type parseType
  let nameLength ← parseShort s offset
  let (offset, name) ← parseChars s nameLength.toInt.toNat (toUInt32 (offset + 2)) ""
  .ok (offset, { tag with type := type, name := name })

mutual

/-- Parses a payload and returns the new offset. -/
def parseNBTPayload (s : Slice) : Nat → Nat → NBTTag → Exec (Nat × NBTTag)
  | 0, _, _ => .error .outOfFuel
  | fuel + 1, offset, tag =>
    match tag.type with
    | .BYTE => do
      let b ← s.charAt offset
      .ok (toUInt32 (offset + 1), { tag with byteVal := some b.toBitVec })
    | .SHORT => do
      let n ← parseShort s offset
      .ok (toUInt32 (offset + 2), { tag with shortVal := some n })
    | .INT => do
      let n ← parseInt32 s offset
      .ok (toUInt32 (offset + 4), { tag with intVal := some n })
    | .LONG => do
      let n ← parseLong s offset
      .ok (toUInt32 (offset + 8), { tag with longVal := some n })
    | .STRING => do
      let (offset, text) ← parseString s offset
      .ok (offset, { tag with stringVal := text })
    | .LIST => do
      let id ← s.charAt offset
      let listType ← NBTType.ofByte id
      let length ← parseInt32 s (toUInt32 (offset + 1))
      let (offset, tag) ← listLoop s fuel listType (min length.toNat 2147483648)
        (toUInt32 (offset + 5)) tag
      if 2147483648 ≤ length.toNat then .error (.undefined .loopCounter) else .ok (offset, tag)
    | .COMPOUND => compoundLoop s fuel offset tag
    | .END => .ok (offset, tag)
    | .unknown _ => .ok (offset, tag)
termination_by structural fuel => fuel

/-- The elements of a `LIST`, read as tags without a type byte. -/
def listLoop (s : Slice) : Nat → NBTType → Nat → Nat → NBTTag → Exec (Nat × NBTTag)
  | 0, _, _, _, _ => .error .outOfFuel
  | _ + 1, _, 0, offset, tag => .ok (offset, tag)
  | fuel + 1, listType, count + 1, offset, tag => do
    let (offset, innerTag) ← parseNBTTag s fuel offset { NBTTag.new with type := listType } false
    listLoop s fuel listType count offset (tag.addInnerTag innerTag)
termination_by structural fuel => fuel

/-- The entries of a `COMPOUND`, up to a zero byte. -/
def compoundLoop (s : Slice) : Nat → Nat → NBTTag → Exec (Nat × NBTTag)
  | 0, _, _ => .error .outOfFuel
  | fuel + 1, offset, tag => do
    let b ← s.charAt offset
    if b ≠ 0 then do
      let (offset, innerTag) ← parseNBTTag s fuel offset NBTTag.new true
      compoundLoop s fuel offset (tag.addInnerTag innerTag)
    else .ok (toUInt32 (offset + 1), tag)
termination_by structural fuel => fuel

/-- Parses a tag and returns the new offset. -/
def parseNBTTag (s : Slice) : Nat → Nat → NBTTag → Bool → Exec (Nat × NBTTag)
  | 0, _, _, _ => .error .outOfFuel
  | fuel + 1, offset, tag, parseType => do
    let (offset, tag) ← parseNBTHeader s offset tag parseType
    parseNBTPayload s fuel offset tag
termination_by structural fuel => fuel

end

end ChunkViewer
