import ChunkViewer.Library.LittleEndian
import ChunkViewer.Model.NBTTag

/-!
# Encoded tag trees

The tags that block palettes are made of, their little-endian encoding, and the tag that
stands for a tree. A compound is decoded to a map, in which a name belongs to the last entry
that has it.
-/

namespace ChunkViewer

mutual

inductive Tree
  | byte (n : ℤ)
  | short (n : ℤ)
  | int (n : ℤ)
  | string (text : List UInt8)
  | compound (entries : Entries)

/-- The named entries of a compound. -/
inductive Entries
  | nil
  | cons (name : List UInt8) (tree : Tree) (rest : Entries)

end

namespace Tree

def type : Tree → NBTType
  | .byte _ => .BYTE
  | .short _ => .SHORT
  | .int _ => .INT
  | .string _ => .STRING
  | .compound _ => .COMPOUND

def typeId : Tree → UInt8
  | .byte _ => 1
  | .short _ => 2
  | .int _ => 3
  | .string _ => 8
  | .compound _ => 10

end Tree

/-! ## Encoding -/

/-- What stands before the payload: type byte, name length and name. -/
def encodeHeader (typeId : UInt8) (name : List UInt8) : Slice :=
  typeId :: (LittleEndian.bytes 2 name.length ++ name)

mutual

def Tree.payload : Tree → Slice
  | .byte n => LittleEndian.bytes 1 (BitVec.ofInt 8 n).toNat
  | .short n => LittleEndian.bytes 2 (BitVec.ofInt 16 n).toNat
  | .int n => LittleEndian.bytes 4 (BitVec.ofInt 32 n).toNat
  | .string text => LittleEndian.bytes 2 text.length ++ text
  | .compound entries => entries.encode ++ [0]

def Entries.encode : Entries → Slice
  | .nil => []
  | .cons name tree rest => encodeHeader tree.typeId name ++ tree.payload ++ rest.encode

end

def Tree.encode (name : List UInt8) (tree : Tree) : Slice :=
  encodeHeader tree.typeId name ++ tree.payload

/-! ## Decoding -/

/-- Bytes as the string that holds them. -/
def textOf (bytes : List UInt8) : String := String.ofList (bytes.map Char.ofUInt8)

/-- A tag of which only the type and the name are set. -/
def NBTTag.named (type : NBTType) (name : String) : NBTTag :=
  { NBTTag.new with type := type, name := name }

mutual

/-- The tag that stands for a tree. -/
def Tree.decode (name : List UInt8) : Tree → NBTTag
  | .byte n => { NBTTag.named .BYTE (textOf name) with byteVal := some (BitVec.ofInt 8 n) }
  | .short n => { NBTTag.named .SHORT (textOf name) with shortVal := some (BitVec.ofInt 16 n) }
  | .int n => { NBTTag.named .INT (textOf name) with intVal := some (BitVec.ofInt 32 n) }
  | .string text => { NBTTag.named .STRING (textOf name) with stringVal := textOf text }
  | .compound entries => entries.addTo (NBTTag.named .COMPOUND (textOf name))

/-- Adds the entries to the inner tags, in order. -/
def Entries.addTo : Entries → NBTTag → NBTTag
  | .nil, tag => tag
  | .cons name tree rest, tag => rest.addTo (tag.addInnerTag (tree.decode name))

end

def Entries.hasKey (key : String) : Entries → Bool
  | .nil => false
  | .cons name _ rest => textOf name == key || rest.hasKey key

mutual

/-- A tag with the type, name and value of a tree. -/
def Tree.Decodes (name : String) (tag : NBTTag) : Tree → Prop
  | .byte n => tag.type = .BYTE ∧ tag.name = name ∧ tag.byteVal = some (BitVec.ofInt 8 n)
  | .short n => tag.type = .SHORT ∧ tag.name = name ∧ tag.shortVal = some (BitVec.ofInt 16 n)
  | .int n => tag.type = .INT ∧ tag.name = name ∧ tag.intVal = some (BitVec.ofInt 32 n)
  | .string text => tag.type = .STRING ∧ tag.name = name ∧ tag.stringVal = textOf text
  | .compound entries => tag.type = .COMPOUND ∧ tag.name = name ∧
      ∀ key, entries.DecodesLast key (tag.innerTags.lookup key)

/-- What a key maps to: the decoding of the last entry with that name, if there is one. -/
def Entries.DecodesLast (key : String) (inner : Option NBTTag) : Entries → Prop
  | .nil => inner = none
  | .cons name tree rest =>
    if rest.hasKey key then rest.DecodesLast key inner
    else if textOf name = key then ∃ tag, inner = some tag ∧ tree.Decodes key tag
    else inner = none

end

end ChunkViewer
