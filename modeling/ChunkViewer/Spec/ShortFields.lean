import ChunkViewer.Model.NBTTag

/-!
# Where the 16-bit fields of a tag stand

A decode reads a 16-bit number for each name length, `SHORT` value and string length. The
scan walks over a tag as the parser does, builds nothing and returns the offsets of these
fields. A tag can be moved as long as they all fit the 16-bit offset of `parseShort`.
-/

namespace ChunkViewer

/-- The offset of the name length, the offset of the payload and the type. -/
def scanHeader (e : Slice) (offset : ℕ) (type : NBTType) (parseType : Bool) :
    Exec (ℕ × ℕ × NBTType) := do
  let (field, type) ← parseTypeByte e offset type parseType
  let nameLength ← parseShort e field
  .ok (field, field + 2 + nameLength.toInt.toNat, type)

mutual

/-- The end of a payload and the offsets of its 16-bit fields. -/
def scanPayload (e : Slice) : ℕ → ℕ → NBTType → Exec (ℕ × List ℕ)
  | 0, _, _ => .error .outOfFuel
  | fuel + 1, offset, type =>
    match type with
    | .BYTE => .ok (offset + 1, [])
    | .SHORT => .ok (offset + 2, [offset])
    | .INT => .ok (offset + 4, [])
    | .LONG => .ok (offset + 8, [offset])
    | .STRING => do
      let length ← parseShort e offset
      .ok (offset + 2 + length.toInt.toNat, [offset])
    | .LIST => do
      let id ← e.charAt offset
      let listType ← NBTType.ofByte id
      let length ← parseInt32 e (offset + 1)
      scanList e fuel listType length.toNat (offset + 5)
    | .COMPOUND => scanCompound e fuel offset
    | .END => .ok (offset, [])
    | .unknown _ => .ok (offset, [])
termination_by structural fuel => fuel

def scanList (e : Slice) : ℕ → NBTType → ℕ → ℕ → Exec (ℕ × List ℕ)
  | 0, _, _, _ => .error .outOfFuel
  | _ + 1, _, 0, offset => .ok (offset, [])
  | fuel + 1, listType, count + 1, offset => do
    let (offset, fields) ← scanTag e fuel offset listType false
    let (offset, rest) ← scanList e fuel listType count offset
    .ok (offset, fields ++ rest)
termination_by structural fuel => fuel

def scanCompound (e : Slice) : ℕ → ℕ → Exec (ℕ × List ℕ)
  | 0, _ => .error .outOfFuel
  | fuel + 1, offset => do
    let b ← e.charAt offset
    if b ≠ 0 then do
      let (offset, fields) ← scanTag e fuel offset .END true
      let (offset, rest) ← scanCompound e fuel offset
      .ok (offset, fields ++ rest)
    else .ok (offset + 1, [])
termination_by structural fuel => fuel

/-- The end of a tag and the offsets of its 16-bit fields. -/
def scanTag (e : Slice) : ℕ → ℕ → NBTType → Bool → Exec (ℕ × List ℕ)
  | 0, _, _, _ => .error .outOfFuel
  | fuel + 1, offset, type, parseType => do
    let (field, offset, type) ← scanHeader e offset type parseType
    let (offset, fields) ← scanPayload e fuel offset type
    .ok (offset, field :: fields)
termination_by structural fuel => fuel

end

/-- The offsets of the 16-bit fields of the tag that starts the slice. -/
def shortFields (e : Slice) (fuel : ℕ) : List ℕ :=
  match scanTag e fuel 0 .END true with
  | .ok (_, fields) => fields
  | .error _ => []

/-- Moved up by `n`, every field stands where a 16-bit signed offset reaches it. -/
def Fits (n : ℕ) (fields : List ℕ) : Prop := ∀ field ∈ fields, n + field % 65536 < 32768

instance (n : ℕ) (fields : List ℕ) : Decidable (Fits n fields) :=
  inferInstanceAs (Decidable (∀ field ∈ fields, n + field % 65536 < 32768))

lemma fits_nil (n : ℕ) : Fits n [] := by
  intro field h
  exact absurd h List.not_mem_nil

lemma fits_cons {n field : ℕ} {fields : List ℕ} :
    Fits n (field :: fields) ↔ n + field % 65536 < 32768 ∧ Fits n fields :=
  List.forall_mem_cons

lemma fits_append {n : ℕ} {fields rest : List ℕ} :
    Fits n (fields ++ rest) ↔ Fits n fields ∧ Fits n rest :=
  List.forall_mem_append

end ChunkViewer
