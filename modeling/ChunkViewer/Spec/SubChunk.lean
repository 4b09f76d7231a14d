import ChunkViewer.Library.RingFill
import ChunkViewer.Model.ParseBedrock

/-!
# What a sub-chunk value stands for

The abstract side of the loader: a value is read to a list of block storages without
touching a chunk, and a sub-chunk is 4096 cells with a palette. Loading a storage fills the
cells in storage order, going round if there are more than 4096 states, and appends the
palette.
-/

namespace ChunkViewer

open RingFill

structure SubChunk where
  cells : Fin 4096 → ℤ
  palette : List NBTTag

def SubChunk.empty : SubChunk := ⟨fun _ => -1, []⟩

/-- The contents of one block storage. Only storage 0 has states. -/
structure Storage where
  paletteSize : ℤ
  palette : List NBTTag
  states : List ℤ

def SubChunk.load (s : SubChunk) (storage : Storage) : SubChunk :=
  ⟨ringFill s.cells 0 storage.states, s.palette ++ storage.palette⟩

def SubChunk.loadAll (s : SubChunk) (storages : List Storage) : SubChunk :=
  storages.foldl SubChunk.load s

def readPalette (fuel : ℕ) (v : Slice) : ℕ → ℕ → Exec (ℕ × List NBTTag)
  | 0, currOffset => .ok (currOffset, [])
  | p + 1, currOffset => do
    let (currOffset, tag) ← parseNBTTag v fuel currOffset NBTTag.new true
    let (currOffset, tags) ← readPalette fuel v p currOffset
    .ok (currOffset, tag :: tags)

def readStates (bitsPerBlock blocksPerWord paletteSize : ℤ) (word : BitVec 32) :
    ℕ → ℕ → Exec (List ℤ)
  | 0, _ => .ok []
  | block + 1, pos => do
    let state ← blockState word pos bitsPerBlock blocksPerWord paletteSize
    let states ← readStates bitsPerBlock blocksPerWord paletteSize word block (pos + 1)
    .ok (state :: states)

def readBlocks (i : ℕ) (bitsPerBlock blocksPerWord paletteSize : ℤ) (word : BitVec 32) (pos : ℕ) :
    Exec (List ℤ) :=
  if i = 0 then
    readStates bitsPerBlock blocksPerWord paletteSize word blocksPerWord.toNat pos
  else .ok []

def readWords (v : Slice) (i : ℕ) (bitsPerBlock blocksPerWord paletteSize : ℤ) :
    ℕ → ℕ → ℕ → Exec (List ℤ)
  | 0, _, _ => .ok []
  | w + 1, currOffset, pos => do
    let word ← parseInt32 v currOffset
    let states ← readBlocks i bitsPerBlock blocksPerWord paletteSize word pos
    let rest ← readWords v i bitsPerBlock blocksPerWord paletteSize w (toUInt32 (currOffset + 4))
      (pos + blocksPerWord.toNat)
    .ok (states ++ rest)

/-- Storage number `i` of a value and the offset after it; `none` if it is serialized for
runtime. -/
def readStorage (fuel : ℕ) (v : Slice) (i currOffset : ℕ) : Exec (Option (Storage × ℕ)) := do
  let storageVersion ← v.charAt currOffset
  let blockDataOffset := toUInt32 (currOffset + 1)
  if storageVersion &&& 1 = 1 then
    .ok none
  else do
    let layout ← storageLayout (toChar storageVersion)
    let advance ← asInt .cursorAdvance (layout.numWords * 4)
    let paletteStart := toUInt32 (blockDataOffset + advance)
    let paletteSize ← parseInt32 v paletteStart
    let (paletteOffset, palette) ←
      readPalette fuel v paletteSize.toInt.toNat (toUInt32 (paletteStart + 4))
    let states ← readWords v i layout.bitsPerBlock layout.blocksPerWord paletteSize.toInt
      layout.numWords.toNat blockDataOffset 0
    .ok (some (⟨paletteSize.toInt, palette, states⟩, paletteOffset))

/-- The storages from number `i` on, up to one that is serialized for runtime. -/
def readStorages (fuel : ℕ) (v : Slice) : ℕ → ℕ → ℕ → Exec (Bool × List Storage)
  | 0, _, _ => .ok (true, [])
  | n + 1, i, currOffset => do
    match ← readStorage fuel v i currOffset with
    | none => .ok (false, [])
    | some (storage, currOffset) => do
      let (ok, storages) ← readStorages fuel v n (i + 1) currOffset
      .ok (ok, storage :: storages)

/-- The storages of a format-8 value. -/
def readValue (fuel : ℕ) (v : Slice) : Exec (Bool × List Storage) := do
  let storageNum ← v.charAt 1
  readStorages fuel v (toChar storageNum).toNat 0 2

end ChunkViewer
