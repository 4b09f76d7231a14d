import ChunkViewer.Spec.NBTTree

/-!
# Payloads

Payloads as the format has them, with lists: the elements of a list are bare payloads, with
neither type nor name. A tag holds a payload when every number, text, element and entry of it
is there, none of them in the place of two.
-/

namespace ChunkViewer

mutual

inductive Value
  | byte (n : BitVec 8)
  | short (n : BitVec 16)
  | int (n : BitVec 32)
  | long (n : BitVec 64)
  | string (text : List UInt8)
  | list (typeId : UInt8) (elements : Elements)
  | compound (entries : NamedValues)

inductive Elements
  | nil
  | cons (value : Value) (rest : Elements)

inductive NamedValues
  | nil
  | cons (name : List UInt8) (value : Value) (rest : NamedValues)

end

def Value.typeId : Value → UInt8
  | .byte _ => 1
  | .short _ => 2
  | .int _ => 3
  | .long _ => 4
  | .string _ => 8
  | .list _ _ => 9
  | .compound _ => 10

def Elements.count : Elements → ℕ
  | .nil => 0
  | .cons _ rest => rest.count + 1

/-! ## Encoding -/

mutual

def Value.encode : Value → Slice
  | .byte n => LittleEndian.bytes 1 n.toNat
  | .short n => LittleEndian.bytes 2 n.toNat
  | .int n => LittleEndian.bytes 4 n.toNat
  | .long n => LittleEndian.bytes 8 n.toNat
  | .string text => LittleEndian.bytes 2 text.length ++ text
  | .list typeId elements => typeId :: (LittleEndian.bytes 4 elements.count ++ elements.encode)
  | .compound entries => entries.encode ++ [0]

def Elements.encode : Elements → Slice
  | .nil => []
  | .cons value rest => value.encode ++ rest.encode

def NamedValues.encode : NamedValues → Slice
  | .nil => []
  | .cons name value rest => encodeHeader value.typeId name ++ value.encode ++ rest.encode

end

/-! ## Tags that hold a payload -/

mutual

def Value.HeldBy (tag : NBTTag) : Value → Prop
  | .byte n => tag.type = .BYTE ∧ tag.byteVal = some n
  | .short n => tag.type = .SHORT ∧ tag.shortVal = some n
  | .int n => tag.type = .INT ∧ tag.intVal = some n
  | .long n => tag.type = .LONG ∧ tag.longVal = some n
  | .string text => tag.type = .STRING ∧ tag.stringVal = textOf text
  | .list _ elements => tag.type = .LIST ∧ elements.HeldBy (tag.innerTags.map Prod.snd)
  | .compound entries => tag.type = .COMPOUND ∧ entries.HeldBy tag.innerTags

/-- Each element has a tag of its own, and there are no others. -/
def Elements.HeldBy (tags : List NBTTag) : Elements → Prop
  | .nil => tags = []
  | .cons value rest =>
    ∃ tag others, tags.Perm (tag :: others) ∧ value.HeldBy tag ∧ rest.HeldBy others

/-- Each entry has a tag of its own under its name, and there are no others. -/
def NamedValues.HeldBy (inner : List (String × NBTTag)) : NamedValues → Prop
  | .nil => inner = []
  | .cons name value rest =>
    ∃ tag others, inner.Perm ((textOf name, tag) :: others) ∧ value.HeldBy tag ∧
      rest.HeldBy others

end

/-- A `LIST` tag that is parsed where the list stands, between `p` and `q`, ends behind the
list and has a further inner tag for each element. -/
def DecodesList (typeId : UInt8) (elements : Elements) (p q : Slice) (tag : NBTTag) : Prop :=
  ∃ fuel tag' added,
    parseNBTPayload (p ++ (Value.list typeId elements).encode ++ q) fuel p.length tag =
      .ok (p.length + (Value.list typeId elements).encode.length, tag') ∧
    tag'.innerTags.Perm (tag.innerTags ++ added) ∧ elements.HeldBy (added.map Prod.snd)

end ChunkViewer
