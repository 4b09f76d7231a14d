import ChunkViewer.Spec.NBTTree

/-!
# Encoded block storages

A format-8 value is its format byte and storage count, followed by its storages. A storage is
a header byte, the block words, the palette size and the named trees of the palette.
-/

namespace ChunkViewer

def wordBytes (words : List (BitVec 32)) : Slice :=
  words.flatMap fun word => LittleEndian.bytes 4 word.toNat

def paletteBytes (palette : List (List UInt8 × Tree)) : Slice :=
  palette.flatMap fun entry => entry.2.encode entry.1

structure PackedStorage where
  bits : ℕ
  words : List (BitVec 32)
  palette : List (List UInt8 × Tree)

namespace PackedStorage

/-- The header is the width above a clear runtime bit. -/
def encode (s : PackedStorage) : Slice :=
  UInt8.ofNat (2 * s.bits) :: (wordBytes s.words ++
    (LittleEndian.bytes 4 s.palette.length ++ paletteBytes s.palette))

/-- The tags that the palette stands for. -/
def tags (s : PackedStorage) : List NBTTag := s.palette.map fun entry => entry.2.decode entry.1

/-- A width that is in use, and as many words as 4096 indices of that width need. -/
structure WellFormed (s : PackedStorage) : Prop where
  bits : s.bits ∈ [1, 2, 3, 4, 5, 6, 8, 16]
  words : (s.words.length : ℤ) = ⌈(4096 : ℚ) / (32 / s.bits : ℕ)⌉

end PackedStorage

/-- The value of format 8 with these storages. -/
def encodeValue (storages : List PackedStorage) : Slice :=
  [8, UInt8.ofNat storages.length] ++ storages.flatMap PackedStorage.encode

end ChunkViewer
