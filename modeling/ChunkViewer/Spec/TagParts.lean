import ChunkViewer.Model.NBTTag
import Mathlib.Logic.Relation

/-!
# The parts of a tag on the bytes of a slice

Where a part of a tag ends and which parts lie in it, by the bytes alone: nothing is built. Some
bytes have no meaning in C++: a fifth byte of a `LONG`, which is shifted out of its `int`, and a
type byte that is no value of the enumeration.
-/

namespace ChunkViewer

/-- A part of a tag at an offset. -/
inductive TagPart
  | payload (offset : ℕ) (type : NBTType)
  | list (listType : NBTType) (count offset : ℕ)
  | compound (offset : ℕ)
  | tag (offset : ℕ) (type : NBTType) (parseType : Bool)

/-- A name stands from `o` to `o'`. Behind a negative length there is none. -/
def NameAt (s : Slice) (o o' : ℕ) : Prop :=
  ∃ n, parseShort s o = .ok n ∧ (0 < n.toInt → o + 2 + n.toInt.toNat ≤ s.length) ∧
    o' = o + 2 + n.toInt.toNat

/-- A type byte, if there is one, and a name stand from `o` to `o'`. -/
inductive HeaderAt (s : Slice) : ℕ → NBTType → Bool → ℕ → NBTType → Prop
  | typed {o o' : ℕ} {id : UInt8} (type : NBTType) {type' : NBTType} : s[o]? = some id →
    NBTType.ofByte id = .ok type' → NameAt s (o + 1) o' → HeaderAt s o type true o' type'
  | untyped {o o' : ℕ} (type : NBTType) : NameAt s o o' → HeaderAt s o type false o' type

namespace TagPart

/-- All of the part is there, and it ends at the offset. -/
inductive Spans (s : Slice) : TagPart → ℕ → Prop
  | ending (o : ℕ) : Spans s (payload o .END) o
  | unknown (o : ℕ) (id : UInt8) : Spans s (payload o (.unknown id)) o
  | byte {o : ℕ} : o < s.length → Spans s (payload o .BYTE) (o + 1)
  | short {o : ℕ} {n : BitVec 16} : parseShort s o = .ok n → Spans s (payload o .SHORT) (o + 2)
  | int {o : ℕ} {n : BitVec 32} : parseInt32 s o = .ok n → Spans s (payload o .INT) (o + 4)
  | string {o o' : ℕ} {n : BitVec 16} : parseShort s o = .ok n → 0 ≤ n.toInt → NameAt s o o' →
    Spans s (payload o .STRING) o'
  | list {o o' : ℕ} {id : UInt8} {listType : NBTType} {n : BitVec 32} : s[o]? = some id →
    NBTType.ofByte id = .ok listType → parseInt32 s (o + 1) = .ok n → n.toNat < 2147483648 →
    Spans s (list listType n.toNat (o + 5)) o' → Spans s (payload o .LIST) o'
  | compound {o o' : ℕ} : Spans s (compound o) o' → Spans s (payload o .COMPOUND) o'
  | nil (listType : NBTType) (o : ℕ) : Spans s (list listType 0 o) o
  | cons {listType : NBTType} {count o o₁ o₂ : ℕ} : Spans s (tag o listType false) o₁ →
    Spans s (list listType count o₁) o₂ → Spans s (list listType (count + 1) o) o₂
  | close {o : ℕ} : s[o]? = some 0 → Spans s (compound o) (o + 1)
  | entry {o o₁ o₂ : ℕ} {b : UInt8} : s[o]? = some b → b ≠ 0 → Spans s (tag o .END true) o₁ →
    Spans s (compound o₁) o₂ → Spans s (compound o) o₂
  | tag {o o₁ o₂ : ℕ} {type type' : NBTType} {parseType : Bool} :
    HeaderAt s o type parseType o₁ type' → Spans s (payload o₁ type') o₂ →
    Spans s (tag o type parseType) o₂

/-- A part comes to the next one in it. -/
inductive LeadsTo (s : Slice) : TagPart → TagPart → Prop
  | list {o : ℕ} {id : UInt8} {listType : NBTType} {n : BitVec 32} : s[o]? = some id →
    NBTType.ofByte id = .ok listType → parseInt32 s (o + 1) = .ok n →
    LeadsTo s (payload o .LIST) (list listType (min n.toNat 2147483648) (o + 5))
  | compound (o : ℕ) : LeadsTo s (payload o .COMPOUND) (compound o)
  | element (listType : NBTType) (count o : ℕ) :
    LeadsTo s (list listType (count + 1) o) (tag o listType false)
  | elements {listType : NBTType} {o o' : ℕ} (count : ℕ) : Spans s (tag o listType false) o' →
    LeadsTo s (list listType (count + 1) o) (list listType count o')
  | entry {o : ℕ} {b : UInt8} : s[o]? = some b → b ≠ 0 → LeadsTo s (compound o) (tag o .END true)
  | entries {o o' : ℕ} {b : UInt8} : s[o]? = some b → b ≠ 0 → Spans s (tag o .END true) o' →
    LeadsTo s (compound o) (compound o')
  | payload {o o' : ℕ} {type type' : NBTType} {parseType : Bool} :
    HeaderAt s o type parseType o' type' → LeadsTo s (tag o type parseType) (payload o' type')

/-- The part starts with bytes that have no meaning. The offset of a `LONG` is narrowed to 16
bits. -/
def Undefined (s : Slice) : TagPart → Prop
  | payload o .LONG => o % 65536 < 32768 ∧ o % 65536 + 5 ≤ s.length
  | payload o .LIST => ∃ id, s[o]? = some id ∧ ¬id < 16
  | tag o _ true => ∃ id, s[o]? = some id ∧ ¬id < 16
  | _ => False

def ReachesUndefined (s : Slice) (part : TagPart) : Prop :=
  ∃ part', Relation.ReflTransGen (LeadsTo s) part part' ∧ part'.Undefined s

lemma ReachesUndefined.of_leadsTo {s : Slice} {part part' : TagPart}
    (h : part'.ReachesUndefined s) (hleads : part.LeadsTo s part') : part.ReachesUndefined s := by
  obtain ⟨last, hreach, hundefined⟩ := h
  exact ⟨last, hreach.head hleads, hundefined⟩

end TagPart

end ChunkViewer
