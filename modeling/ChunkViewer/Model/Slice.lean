import ChunkViewer.Library.ExceptRun

/-!
# Slices and machine integers

The loader reads bytes through `leveldb::Slice`, whose subscript asserts its bound, and
computes with `int`, `uint32_t` and `int16_t` values. A run either returns, or stops at a
failed assertion, or reaches an expression that C++ leaves undefined.
-/

namespace ChunkViewer

/-- The expressions of the source that C++ leaves undefined on some operands. -/
inductive Undefined
  | sliceOffset
  | byteShift
  | loopCounter
  | tagType
  | blocksPerWord
  | numWords
  | cursorAdvance
  | wordShift
  | indexMask
  | paletteBound
  | blocksSubscript
  | blockStatesSubscript
  | chunkPointer
  | rawCoordinate
deriving DecidableEq, Repr

/-- Why a run does not return. `outOfFuel` is a run longer than the model follows it. -/
inductive Stop
  | assertion
  | undefined (what : Undefined)
  | outOfFuel
deriving DecidableEq, Repr

abbrev Exec := Except Stop

/-- The value of an `int` expression, undefined when it is out of range. -/
def asInt (what : Undefined) (n : Int) : Exec Int :=
  if -2147483648 ≤ n ∧ n ≤ 2147483647 then .ok n else .error (.undefined what)

/-- Conversion to `uint32_t`. -/
def toUInt32 (n : Int) : Nat := (n % 4294967296).toNat

/-- Conversion of a `uint32_t` to `int32_t`. -/
def toInt32 (n : Nat) : Int := (BitVec.ofNat 32 n).toInt

/-- Conversion of a `uint32_t` to `int16_t`. -/
def toInt16 (n : Nat) : Int := (BitVec.ofNat 16 n).toInt

/-- A byte read as the `char` that the slice holds. -/
def toChar (b : UInt8) : Int := b.toBitVec.toInt

abbrev Slice := List UInt8

/-- `operator[]`: the subscript is converted to `size_t`, so a negative one is past the
end of every slice. -/
def Slice.charAt (s : Slice) (n : Int) : Exec UInt8 :=
  if 0 ≤ n then
    match s[n.toNat]? with
    | some b => .ok b
    | none => .error .assertion
  else .error .assertion

/-- The loop of `parseInt32`, `parseShort` and `parseLong`: `count` more bytes are or-ed
into a `w`-bit result. The byte is promoted to `int` before it is shifted. -/
def parseLittleEndian (w : Nat) (s : Slice) (offset : Int) : Nat → Nat → BitVec w → Exec (BitVec w)
  | 0, _, result => .ok result
  | count + 1, i, result => do
    let index ← asInt .sliceOffset (offset + i)
    let byte ← s.charAt index
    if 32 ≤ i * 8 then
      .error (.undefined .byteShift)
    else
      parseLittleEndian w s offset count (i + 1)
        (result ||| (byte.toBitVec.setWidth 32 <<< (i * 8)).signExtend w)

/-- The parameter is an `int32_t`; callers pass a `uint32_t`. -/
def parseInt32 (s : Slice) (offset : Nat) : Exec (BitVec 32) :=
  parseLittleEndian 32 s (toInt32 offset) 4 0 0

/-- The parameter is an `int16_t`; callers pass a `uint32_t`. -/
def parseShort (s : Slice) (offset : Nat) : Exec (BitVec 16) :=
  parseLittleEndian 16 s (toInt16 offset) 2 0 0

/-- The parameter is an `int16_t`; callers pass a `uint32_t`. -/
def parseLong (s : Slice) (offset : Nat) : Exec (BitVec 64) :=
  parseLittleEndian 64 s (toInt16 offset) 8 0 0

end ChunkViewer
