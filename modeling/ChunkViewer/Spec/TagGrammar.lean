import ChunkViewer.Spec.NBTTree

/-!
# The words that the parser accepts

More than encoded trees: a type byte without a kind has no payload, a name of negative length
has no characters, and the elements of a list have names. No payload has the type `LONG`, and no
type byte is outside the enumeration.
-/

namespace ChunkViewer

/-- A byte that has a value in the enumeration. -/
structure TypeByte where
  id : UInt8
  type : NBTType
  htype : NBTType.ofByte id = .ok type

/-- A name behind its length. Behind a negative length nothing is read. -/
inductive NameWord
  | text (bytes : List UInt8) (hlen : bytes.length < 32768)
  | negative (length : BitVec 16) (hneg : length.toInt < 0)

namespace NameWord

def empty : NameWord := .text [] (by decide)

def encode : NameWord → Slice
  | text bytes _ => LittleEndian.bytes 2 bytes.length ++ bytes
  | negative length _ => LittleEndian.bytes 2 length.toNat

def decode : NameWord → String
  | text bytes _ => textOf bytes
  | negative _ _ => ""

end NameWord

mutual

/-- The payloads of a type. -/
inductive PayloadWord : NBTType → Type
  | ending : PayloadWord .END
  | unknown (id : UInt8) : PayloadWord (.unknown id)
  | byte (b : UInt8) : PayloadWord .BYTE
  | short (n : BitVec 16) : PayloadWord .SHORT
  | int (n : BitVec 32) : PayloadWord .INT
  | string (text : List UInt8) (hlen : text.length < 32768) : PayloadWord .STRING
  | list (head : TypeByte) (elements : ListWord head.type) : PayloadWord .LIST
  | compound (entries : CompoundWord) : PayloadWord .COMPOUND

/-- Named elements of one type. -/
inductive ListWord : NBTType → Type
  | nil (type : NBTType) : ListWord type
  | cons (type : NBTType) (name : NameWord) (payload : PayloadWord type) (rest : ListWord type) :
    ListWord type

/-- Entries up to a zero byte. -/
inductive CompoundWord : Type
  | nil : CompoundWord
  | cons (head : TypeByte) (hid : head.id ≠ 0) (name : NameWord) (payload : PayloadWord head.type)
    (rest : CompoundWord) : CompoundWord

end

def ListWord.count {type : NBTType} : ListWord type → ℕ
  | .nil _ => 0
  | .cons _ _ _ rest => rest.count + 1

/-! ## Encoding -/

mutual

def PayloadWord.encode {type : NBTType} : PayloadWord type → Slice
  | .ending => []
  | .unknown _ => []
  | .byte b => [b]
  | .short n => LittleEndian.bytes 2 n.toNat
  | .int n => LittleEndian.bytes 4 n.toNat
  | .string text _ => LittleEndian.bytes 2 text.length ++ text
  | .list head elements => head.id :: (LittleEndian.bytes 4 elements.count ++ elements.encode)
  | .compound entries => entries.encode

def ListWord.encode {type : NBTType} : ListWord type → Slice
  | .nil _ => []
  | .cons _ name payload rest => name.encode ++ payload.encode ++ rest.encode

def CompoundWord.encode : CompoundWord → Slice
  | .nil => [0]
  | .cons head _ name payload rest => head.id :: (name.encode ++ payload.encode) ++ rest.encode

end

/-! ## Decoding -/

mutual

/-- Sets what a tag of the type holds. -/
def PayloadWord.addTo {type : NBTType} (tag : NBTTag) : PayloadWord type → NBTTag
  | .ending => tag
  | .unknown _ => tag
  | .byte b => { tag with byteVal := some b.toBitVec }
  | .short n => { tag with shortVal := some n }
  | .int n => { tag with intVal := some n }
  | .string text _ => { tag with stringVal := textOf text }
  | .list _ elements => elements.addTo tag
  | .compound entries => entries.addTo tag

/-- Adds the elements to the inner tags, in order. -/
def ListWord.addTo {type : NBTType} (tag : NBTTag) : ListWord type → NBTTag
  | .nil _ => tag
  | .cons type name payload rest =>
    rest.addTo (tag.addInnerTag (payload.addTo (NBTTag.named type name.decode)))

def CompoundWord.addTo (tag : NBTTag) : CompoundWord → NBTTag
  | .nil => tag
  | .cons head _ name payload rest =>
    rest.addTo (tag.addInnerTag (payload.addTo (NBTTag.named head.type name.decode)))

end

/-! ## Tags -/

/-- A tag with its type byte. -/
structure TagWord where
  head : TypeByte
  name : NameWord
  payload : PayloadWord head.type

namespace TagWord

def encode (w : TagWord) : Slice := w.head.id :: (w.name.encode ++ w.payload.encode)

def decode (w : TagWord) : NBTTag :=
  w.payload.addTo (NBTTag.named w.head.type w.name.decode)

end TagWord

end ChunkViewer
