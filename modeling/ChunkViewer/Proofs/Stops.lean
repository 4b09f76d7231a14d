import ChunkViewer.Spec.SubChunk

/-!
# Where a stop can come from

The undefined expressions of the source fall into three groups: those of reading numbers and
tags, those of the storage header and the block words, and the vector subscripts. Each
function can only stop in the groups of the expressions it evaluates.
-/

namespace ChunkViewer

open ExceptRun

/-- Undefined expressions of the number and tag readers. -/
def Undefined.isRead : Undefined → Prop
  | .sliceOffset | .byteShift | .loopCounter | .tagType => True
  | _ => False

/-- Undefined arithmetic of the storage loop: `bitsPerBlock`, `blocksPerWord`, `numWords`,
the cursor, the palette bound and the index mask. -/
def Undefined.isStorage : Undefined → Prop
  | .blocksPerWord | .numWords | .cursorAdvance | .wordShift | .indexMask | .paletteBound => True
  | _ => False

/-- Subscripts into the arrays of a chunk. -/
def Undefined.isSubscript : Undefined → Prop
  | .blocksSubscript | .blockStatesSubscript => True
  | _ => False

def Stop.isStorage : Stop → Prop
  | .undefined what => what.isStorage
  | _ => False

def Stop.isSubscript : Stop → Prop
  | .undefined what => what.isSubscript
  | _ => False

/-- A stop inside the readers. -/
def Stop.isRead : Stop → Prop
  | .undefined what => what.isRead
  | _ => True

lemma Stop.isRead.not_isStorage {e : Stop} (h : e.isRead) : ¬e.isStorage := by
  rcases e with _ | what | _
  · exact id
  · cases what <;> first | exact id | exact h.elim
  · exact id

lemma Stop.isRead.not_isSubscript {e : Stop} (h : e.isRead) : ¬e.isSubscript := by
  rcases e with _ | what | _
  · exact id
  · cases what <;> first | exact id | exact h.elim
  · exact id

lemma Stop.isStorage.not_isSubscript {e : Stop} (h : e.isStorage) : ¬e.isSubscript := by
  rcases e with _ | what | _
  · exact h.elim
  · cases what <;> first | exact id | exact h.elim
  · exact h.elim

/-! ## The readers -/

lemma charAt_errors (s : Slice) (n : ℤ) : ErrorsIn Stop.isRead (s.charAt n) := by
  unfold Slice.charAt
  apply ErrorsIn.ite
  · cases s[n.toNat]? with
    | none => exact ErrorsIn.error trivial
    | some b => exact ErrorsIn.ok _ _
  · exact ErrorsIn.error trivial

lemma asInt_errors {P : Stop → Prop} {what : Undefined} (h : P (.undefined what)) (n : ℤ) :
    ErrorsIn P (asInt what n) :=
  ErrorsIn.ite (ErrorsIn.ok _ _) (ErrorsIn.error h)

lemma parseLittleEndian_errors {w : ℕ} (s : Slice) (offset : ℤ) (count i : ℕ) (r : BitVec w) :
    ErrorsIn Stop.isRead (parseLittleEndian w s offset count i r) := by
  induction count generalizing i r with
  | zero => exact ErrorsIn.ok _ _
  | succ count ih =>
    rw [parseLittleEndian]
    refine ErrorsIn.bind (asInt_errors trivial _) fun index => ?_
    refine ErrorsIn.bind (charAt_errors _ _) fun byte => ?_
    exact ErrorsIn.ite (ErrorsIn.error trivial) (ih _ _)

lemma parseChars_errors (s : Slice) (count offset : ℕ) (text : String) :
    ErrorsIn Stop.isRead (parseChars s count offset text) := by
  induction count generalizing offset text with
  | zero => exact ErrorsIn.ok _ _
  | succ count ih =>
    rw [parseChars]
    exact ErrorsIn.bind (charAt_errors _ _) fun c => ih _ _

lemma parseString_errors (s : Slice) (offset : ℕ) : ErrorsIn Stop.isRead (parseString s offset) := by
  unfold parseString
  refine ErrorsIn.bind (parseLittleEndian_errors _ _ _ _ _) fun length => ?_
  refine ErrorsIn.bind (parseChars_errors _ _ _ _) fun r => ?_
  exact ErrorsIn.ite (ErrorsIn.error trivial) (ErrorsIn.ok _ _)

lemma ofByte_errors (b : UInt8) : ErrorsIn Stop.isRead (NBTType.ofByte b) := by
  rcases NBTType.ofByte_cases b with ⟨-, type, h⟩ | ⟨-, h⟩
  · exact h ▸ ErrorsIn.ok _ _
  · exact h ▸ ErrorsIn.error trivial

lemma parseTypeByte_errors (s : Slice) (offset : ℕ) (type : NBTType) (parseType : Bool) :
    ErrorsIn Stop.isRead (parseTypeByte s offset type parseType) := by
  apply ErrorsIn.ite
  · refine ErrorsIn.bind (charAt_errors _ _) fun id => ?_
    exact ErrorsIn.bind (ofByte_errors _) fun type => ErrorsIn.ok _ _
  · exact ErrorsIn.ok _ _

lemma parseNBTHeader_errors (s : Slice) (offset : ℕ) (tag : NBTTag) (parseType : Bool) :
    ErrorsIn Stop.isRead (parseNBTHeader s offset tag parseType) := by
  unfold parseNBTHeader
  refine ErrorsIn.bind (parseTypeByte_errors _ _ _ _) fun r => ?_
  refine ErrorsIn.bind (parseLittleEndian_errors _ _ _ _ _) fun nameLength => ?_
  exact ErrorsIn.bind (parseChars_errors _ _ _ _) fun r => ErrorsIn.ok _ _

/-- By induction on the fuel, for the four functions of the tag parser at once. -/
lemma parseNBT_errors (s : Slice) (fuel : ℕ) :
    (∀ offset tag, ErrorsIn Stop.isRead (parseNBTPayload s fuel offset tag)) ∧
    (∀ listType count offset tag,
      ErrorsIn Stop.isRead (listLoop s fuel listType count offset tag)) ∧
    (∀ offset tag, ErrorsIn Stop.isRead (compoundLoop s fuel offset tag)) ∧
    (∀ offset tag parseType,
      ErrorsIn Stop.isRead (parseNBTTag s fuel offset tag parseType)) := by
  induction fuel with
  | zero =>
    have hfuel : Stop.isRead .outOfFuel := trivial
    refine ⟨fun _ _ => ?_, fun _ _ _ _ => ?_, fun _ _ => ?_, fun _ _ _ => ?_⟩
    · exact parseNBTPayload.eq_1 .. ▸ ErrorsIn.error hfuel
    · exact listLoop.eq_1 .. ▸ ErrorsIn.error hfuel
    · exact compoundLoop.eq_1 .. ▸ ErrorsIn.error hfuel
    · exact parseNBTTag.eq_1 .. ▸ ErrorsIn.error hfuel
  | succ fuel ih =>
    obtain ⟨ihPayload, ihList, ihCompound, ihTag⟩ := ih
    refine ⟨fun offset tag => ?_, fun listType count offset tag => ?_, fun offset tag => ?_,
      fun offset tag parseType => ?_⟩
    · rw [parseNBTPayload]
      cases tag.type with
      | BYTE => exact ErrorsIn.bind (charAt_errors _ _) fun b => ErrorsIn.ok _ _
      | SHORT => exact ErrorsIn.bind (parseLittleEndian_errors _ _ _ _ _) fun n => ErrorsIn.ok _ _
      | INT => exact ErrorsIn.bind (parseLittleEndian_errors _ _ _ _ _) fun n => ErrorsIn.ok _ _
      | LONG => exact ErrorsIn.bind (parseLittleEndian_errors _ _ _ _ _) fun n => ErrorsIn.ok _ _
      | STRING => exact ErrorsIn.bind (parseString_errors _ _) fun r => ErrorsIn.ok _ _
      | LIST =>
        refine ErrorsIn.bind (charAt_errors _ _) fun id => ?_
        refine ErrorsIn.bind (ofByte_errors _) fun listType => ?_
        refine ErrorsIn.bind (parseLittleEndian_errors _ _ _ _ _) fun length => ?_
        refine ErrorsIn.bind (ihList _ _ _ _) fun r => ?_
        exact ErrorsIn.ite (ErrorsIn.error trivial) (ErrorsIn.ok _ _)
      | COMPOUND => exact ihCompound _ _
      | END => exact ErrorsIn.ok _ _
      | unknown id => exact ErrorsIn.ok _ _
    · cases count with
      | zero =>
        rw [listLoop]
        exact ErrorsIn.ok _ _
      | succ count =>
        rw [listLoop]
        exact ErrorsIn.bind (ihTag _ _ _) fun r => ihList _ _ _ _
    · rw [compoundLoop]
      refine ErrorsIn.bind (charAt_errors _ _) fun b => ?_
      apply ErrorsIn.ite
      · exact ErrorsIn.bind (ihTag _ _ _) fun r => ihCompound _ _
      · exact ErrorsIn.ok _ _
    · rw [parseNBTTag]
      exact ErrorsIn.bind (parseNBTHeader_errors _ _ _ _) fun r => ihPayload _ _

lemma parseNBTTag_errors (s : Slice) (fuel offset : ℕ) (tag : NBTTag) (parseType : Bool) :
    ErrorsIn Stop.isRead (parseNBTTag s fuel offset tag parseType) :=
  (parseNBT_errors s fuel).2.2.2 offset tag parseType

lemma readPalette_errors (fuel : ℕ) (v : Slice) (p currOffset : ℕ) :
    ErrorsIn Stop.isRead (readPalette fuel v p currOffset) := by
  induction p generalizing currOffset with
  | zero => exact ErrorsIn.ok _ _
  | succ p ih =>
    rw [readPalette]
    refine ErrorsIn.bind (parseNBTTag_errors _ _ _ _ _) fun r => ?_
    exact ErrorsIn.bind (ih _) fun tags => ErrorsIn.ok _ _

/-! ## The storage arithmetic -/

lemma storageLayout_errors (sv : ℤ) : ErrorsIn Stop.isStorage (storageLayout sv) := by
  unfold storageLayout
  refine ErrorsIn.bind (ErrorsIn.ite (ErrorsIn.error trivial) (ErrorsIn.ok _ _)) fun k => ?_
  refine ErrorsIn.bind (ErrorsIn.ite (ErrorsIn.error trivial) (ErrorsIn.ok _ _)) fun n => ?_
  exact ErrorsIn.ok _ _

lemma blockState_errors (word : BitVec 32) (pos : ℕ) (b bpw n : ℤ) :
    ErrorsIn Stop.isStorage (blockState word pos b bpw n) := by
  unfold blockState
  refine ErrorsIn.bind (ErrorsIn.ite (ErrorsIn.ok _ _) (ErrorsIn.error trivial)) fun shifted => ?_
  refine ErrorsIn.bind (ErrorsIn.ite (asInt_errors trivial _) (ErrorsIn.error trivial)) fun mask => ?_
  exact ErrorsIn.bind (asInt_errors trivial _) fun last => ErrorsIn.ok _ _

end ChunkViewer
