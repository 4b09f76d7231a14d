import ChunkViewer.Proofs.WorldRefines
import ChunkViewer.Spec.EncodedStorages
import ChunkViewer.Spec.WorldOps

/-!
# Saved worlds

The other direction of the loader: a sub-chunk of a save, the database entry that holds it,
and the block that a set of saved sub-chunks has at a position of the world.
-/

namespace ChunkViewer

/-- The region bytes of a key. Keys of the Overworld have none. -/
def ChunkDimension.region : ChunkDimension → List UInt8
  | .OVERWORLD => []
  | .NETHER => LittleEndian.bytes 4 1
  | .ENDWORLD => LittleEndian.bytes 4 2

def coordinateBytes (n : ℤ) : List UInt8 := LittleEndian.bytes 4 (BitVec.ofInt 32 n).toNat

/-- The indices are in XZY order. The words of the first storage may have slots past the
4096th; what they hold is the `padding`. The `further` storages hold alternates. -/
structure SavedSubChunk where
  dimension : ChunkDimension
  chunkX : ℤ
  chunkZ : ℤ
  chunkY : Fin 16
  bits : ℕ
  indices : Fin 4096 → ℕ
  padding : ℕ → ℕ
  palette : List (List UInt8 × Tree)
  further : List PackedStorage

namespace SavedSubChunk

def slot (s : SavedSubChunk) : Slot := ⟨s.dimension, s.chunkX, s.chunkZ, (s.chunkY : ℕ)⟩

/-! ## Encoding -/

def key (s : SavedSubChunk) : Slice :=
  coordinateBytes s.chunkX ++ coordinateBytes s.chunkZ ++ s.dimension.region ++
    [0x2F, UInt8.ofNat s.chunkY]

/-- What slot number `pos` of the words holds. -/
def held (s : SavedSubChunk) (pos : ℕ) : ℕ :=
  if h : pos < 4096 then s.indices ⟨pos, h⟩ else s.padding (pos - 4096)

/-- The slots of a word lie side by side, the first in the lowest bits. -/
def word (s : SavedSubChunk) (w : ℕ) : BitVec 32 :=
  BitVec.ofNat 32 (Nat.ofDigits (2 ^ s.bits)
    ((List.range (32 / s.bits)).map fun k => s.held (w * (32 / s.bits) + k)))

/-- As many words as 4096 slots need. -/
def wordCount (s : SavedSubChunk) : ℕ := (4096 + (32 / s.bits - 1)) / (32 / s.bits)

def first (s : SavedSubChunk) : PackedStorage where
  bits := s.bits
  words := (List.range s.wordCount).map s.word
  palette := s.palette

def entry (s : SavedSubChunk) : Entry := ⟨s.key, encodeValue (s.first :: s.further)⟩

/-- Coordinates of 32 bits, indices of the width, and a value whose offsets have 15 bits. -/
structure Valid (s : SavedSubChunk) : Prop where
  chunkX : -2147483648 ≤ s.chunkX ∧ s.chunkX ≤ 2147483647
  chunkZ : -2147483648 ≤ s.chunkZ ∧ s.chunkZ ≤ 2147483647
  bits : s.bits ∈ [1, 2, 3, 4, 5, 6, 8, 16]
  indices : ∀ q, s.indices q < 2 ^ s.bits
  padding : ∀ n, s.padding n < 2 ^ s.bits
  further : ∀ t ∈ s.further, t.WellFormed
  count : s.further.length ≤ 126
  size : s.entry.value.length ≤ 32768

/-! ## Blocks -/

/-- The block of an index: its palette entry, -2 for an index outside the palette. -/
def indexBlock (s : SavedSubChunk) (index : ℕ) : Block :=
  match s.palette[index]? with
  | some entry => ⟨index, some (entry.2.decode entry.1)⟩
  | none => ⟨-2, none⟩

def block (s : SavedSubChunk) (q : Fin 4096) : Block := s.indexBlock (s.indices q)

/-- If the words have a slot 4096 behind that of a cell, it names the block of the cell. -/
def PaddingAgreesAt (s : SavedSubChunk) (q : Fin 4096) : Prop :=
  4096 + q.val < s.wordCount * (32 / s.bits) → s.padding q = s.indices q ∨
    (s.palette.length ≤ s.padding q ∧ s.palette.length ≤ s.indices q)

def PaddingAgrees (s : SavedSubChunk) : Prop := ∀ q, s.PaddingAgreesAt q

end SavedSubChunk

/-- The block at a position of the world, -1 where no sub-chunk is saved. -/
def savedBlock (saves : List SavedSubChunk) (d : ChunkDimension) (x : ℤ) (y : Fin 256) (z : ℤ) :
    Block :=
  match saves.find? fun s => s.slot = ⟨d, x / 16, z / 16, (subOf y : ℕ)⟩ with
  | some s => s.block (cellPos (column x) y (column z))
  | none => ⟨-1, none⟩

/-! ## Chunks -/

def Slot.site (slot : Slot) : Site := ⟨slot.dimension, slot.chunkX, slot.chunkZ⟩

/-- The positions that the entries are stored at. -/
def storedSites (es : List Entry) : Finset Site :=
  (es.filterMap fun e => e.slot?.map Slot.site).toFinset

/-- The positions of the chunks that have a saved sub-chunk. -/
def savedSites (saves : List SavedSubChunk) : Finset Site :=
  (saves.map fun s => s.slot.site).toFinset

end ChunkViewer
