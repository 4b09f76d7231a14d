import ChunkViewer.Library.TreeHeap
import ChunkViewer.Model.NBTTag

/-!
# Tags in memory

The parser with the pointers of the source: a tag is made by `new NBTTag`, and the map of its
inner tags holds their addresses. A tag that another one replaces in such a map stays in
memory. `freeMemory` deletes the tags that can still be reached.
-/

namespace ChunkViewer

open TreeHeap

/-- Why a run over the memory does not return: a stop of the loader, or the use of a pointer to
nothing. -/
inductive MemoryError
  | stop (s : Stop)
  | deletedTag
  | deletedChunk
deriving DecidableEq, Repr

abbrev TagPointer := ℕ

/-- An `NBTTag` as it is stored. -/
structure TagCell where
  type : NBTType
  name : String
  intVal : Option (BitVec 32)
  shortVal : Option (BitVec 16)
  byteVal : Option (BitVec 8)
  longVal : Option (BitVec 64)
  stringVal : String
  innerTags : List (String × TagPointer)

/-- `new NBTTag`. -/
def TagCell.new : TagCell := ⟨.END, "", none, none, none, none, "", []⟩

/-- The members beside the inner tags. -/
def TagCell.members (c : TagCell) : NBTTag :=
  ⟨c.type, c.name, c.intVal, c.shortVal, c.byteVal, c.longVal, c.stringVal, []⟩

/-- Assigns the members beside the inner tags. -/
def TagCell.setMembers (c : TagCell) (t : NBTTag) : TagCell :=
  ⟨t.type, t.name, t.intVal, t.shortVal, t.byteVal, t.longVal, t.stringVal, c.innerTags⟩

abbrev TagHeap := Heap TagCell

def Memory.derefTag (h : TagHeap) (p : TagPointer) : Except MemoryError TagCell :=
  h.deref .deletedTag p

/-- Adds the tag at `q` to the inner tags of the tag at `p`. -/
def TagCell.addInnerTag (h : TagHeap) (p q : TagPointer) : Except MemoryError TagHeap := do
  let tag ← Memory.derefTag h q
  let owner ← Memory.derefTag h p
  .ok (h.write p { owner with innerTags := AssocList.assign tag.name q owner.innerTags })

/-! ## The parser -/

namespace Memory

/-- A part of the parser that reads and assigns only members of the tag at `p` that are no inner
tags. -/
def onMembers (f : NBTTag → Exec (ℕ × NBTTag)) (p : TagPointer) (h : TagHeap) :
    Except MemoryError (ℕ × TagHeap) := do
  let tag ← derefTag h p
  let (offset, t) ← (f tag.members).mapError .stop
  .ok (offset, h.write p (tag.setMembers t))

def parseNBTHeader (s : Slice) (offset : ℕ) (p : TagPointer) (parseType : Bool) (h : TagHeap) :
    Except MemoryError (ℕ × TagHeap) :=
  onMembers (fun tag => ChunkViewer.parseNBTHeader s offset tag parseType) p h

mutual

/-- Parses a payload into the tag at `p`. -/
def parseNBTPayload (s : Slice) : ℕ → ℕ → TagPointer → TagHeap → Except MemoryError (ℕ × TagHeap)
  | 0, _, _, _ => .error (.stop .outOfFuel)
  | fuel + 1, offset, p, h => do
    let tag ← derefTag h p
    match tag.type with
    | .LIST => do
      let id ← (s.charAt offset).mapError .stop
      let listType ← (NBTType.ofByte id).mapError .stop
      let length ← (parseInt32 s (toUInt32 (offset + 1))).mapError .stop
      let (offset, h) ← listLoop s fuel listType (min length.toNat 2147483648)
        (toUInt32 (offset + 5)) p h
      if 2147483648 ≤ length.toNat then .error (.stop (.undefined .loopCounter))
      else .ok (offset, h)
    | .COMPOUND => compoundLoop s fuel offset p h
    | _ => onMembers (ChunkViewer.parseNBTPayload s (fuel + 1) offset) p h
termination_by structural fuel => fuel

/-- The elements of a `LIST`. -/
def listLoop (s : Slice) : ℕ → NBTType → ℕ → ℕ → TagPointer → TagHeap →
    Except MemoryError (ℕ × TagHeap)
  | 0, _, _, _, _, _ => .error (.stop .outOfFuel)
  | _ + 1, _, 0, offset, _, h => .ok (offset, h)
  | fuel + 1, listType, count + 1, offset, p, h => do
    let innerTag := h.size
    let (offset, h) ← parseNBTTag s fuel offset innerTag false
      (h.alloc { TagCell.new with type := listType })
    let h ← TagCell.addInnerTag h p innerTag
    listLoop s fuel listType count offset p h
termination_by structural fuel => fuel

/-- The entries of a `COMPOUND`. -/
def compoundLoop (s : Slice) : ℕ → ℕ → TagPointer → TagHeap → Except MemoryError (ℕ × TagHeap)
  | 0, _, _, _ => .error (.stop .outOfFuel)
  | fuel + 1, offset, p, h => do
    let b ← (s.charAt offset).mapError .stop
    if b ≠ 0 then do
      let innerTag := h.size
      let (offset, h) ← parseNBTTag s fuel offset innerTag true (h.alloc TagCell.new)
      let h ← TagCell.addInnerTag h p innerTag
      compoundLoop s fuel offset p h
    else .ok (toUInt32 (offset + 1), h)
termination_by structural fuel => fuel

/-- Parses into the tag at `p` and returns the new offset. -/
def parseNBTTag (s : Slice) : ℕ → ℕ → TagPointer → Bool → TagHeap →
    Except MemoryError (ℕ × TagHeap)
  | 0, _, _, _, _ => .error (.stop .outOfFuel)
  | fuel + 1, offset, p, parseType, h => do
    let (offset, h) ← parseNBTHeader s offset p parseType h
    parseNBTPayload s fuel offset p h
termination_by structural fuel => fuel

end

end Memory

/-! ## Release -/

/-- How the maps of the tags iterate; a map is named by the address of its tag. -/
structure TagOrder where
  iterate : TagPointer → List (String × TagPointer) → List (String × TagPointer)
  perm : ∀ p inner, (iterate p inner).Perm inner

/-- Recursively frees all memory associated with the tag at `p`. -/
def TagCell.freeMemory (order : TagOrder) : ℕ → TagPointer → TagHeap → Except MemoryError TagHeap
  | 0, _, _ => .error (.stop .outOfFuel)
  | fuel + 1, p, h => do
    let tag ← Memory.derefTag h p
    (order.iterate p tag.innerTags).foldlM (fun h it => do
      let h ← TagCell.freeMemory order fuel it.2 h
      h.free .deletedTag it.2) h

end ChunkViewer
