import ChunkViewer.Model.ParseBedrock
import ChunkViewer.Model.TagMemory

/-!
# The world in memory

The loader with the pointers of the source: the palettes of a chunk and the maps of the world
hold addresses, of tags and of chunks. `freeMemory` deletes what they lead to.
-/

namespace ChunkViewer

open TreeHeap

/-- A `Chunk` as it is stored. -/
structure ChunkCell where
  x : ℤ
  z : ℤ
  blocks : Vector (Vector (Vector ℤ 256) 16) 16
  blockStates : Vector (List TagPointer) 16

def ChunkCell.new (x z : ℤ) : ChunkCell where
  x := x
  z := z
  blocks := Vector.replicate 16 (Vector.replicate 16 (Vector.replicate 256 (-1)))
  blockStates := Vector.replicate 16 []

/-- The chunk without its palettes. -/
def ChunkCell.cells (c : ChunkCell) : Chunk := ⟨c.x, c.z, c.blocks, Vector.replicate 16 []⟩

structure Memory where
  tags : TagHeap
  chunks : Heap ChunkCell
  world : WorldData
  totalChunks : ℕ

def Memory.init : Memory := ⟨Heap.empty, Heap.empty, WorldData.empty, 0⟩

def ChunkCell.pushState (c : ChunkCell) : Fin 16 → TagPointer → ChunkCell
  | ⟨y, hy⟩, state =>
    { c with blockStates := c.blockStates.set y (c.blockStates.get ⟨y, hy⟩ ++ [state]) hy }

/-- Adds the tag at `state` to the palette of sub-chunk `y`. -/
def ChunkCell.addBlockState (c : ChunkCell) (y : ℤ) (state : TagPointer) : Exec ChunkCell := do
  let y ← subscript .blockStatesSubscript 16 y
  .ok (c.pushState y state)

namespace Memory

def derefChunk (m : Memory) (p : ChunkPointer) : Except MemoryError ChunkCell :=
  m.chunks.deref .deletedChunk p

def writeChunk (m : Memory) (p : ChunkPointer) (c : ChunkCell) : Memory :=
  { m with chunks := m.chunks.write p c }

/-! ## The loader -/

/-- Palette data, for the chunk at `p`. -/
def paletteLoop (fuel : ℕ) (v : Slice) (chunkY : ℤ) (p : ChunkPointer) :
    ℕ → ℕ → Memory → Except MemoryError (ℕ × Memory)
  | 0, currOffset, m => .ok (currOffset, m)
  | count + 1, currOffset, m => do
    let rootTag := m.tags.size
    let (currOffset, tags) ←
      parseNBTTag v fuel currOffset rootTag true (m.tags.alloc TagCell.new)
    let currChunk ← m.derefChunk p
    let currChunk ← (currChunk.addBlockState chunkY rootTag).mapError .stop
    paletteLoop fuel v chunkY p count currOffset ({ m with tags := tags }.writeChunk p currChunk)

/-- Block position data. It changes the cells of the chunk at `p` only. -/
def wordLoop (v : Slice) (i : ℕ) (layout : StorageLayout) (paletteSize chunkY : ℤ)
    (p : ChunkPointer) (blockDataOffset : ℕ) (m : Memory) : Except MemoryError Memory := do
  let currChunk ← m.derefChunk p
  let cells ← (ChunkViewer.wordLoop v i layout.bitsPerBlock layout.blocksPerWord paletteSize chunkY
    layout.numWords.toNat blockDataOffset 0 currChunk.cells).mapError .stop
  .ok (m.writeChunk p { currChunk with blocks := cells.blocks })

/-- One block storage of the chunk at `p`. -/
def loadStorage (fuel : ℕ) (v : Slice) (chunkY : ℤ) (p : ChunkPointer) (i currOffset : ℕ)
    (m : Memory) : Except MemoryError (Option ℕ × Memory) := do
  let storageVersion ← (v.charAt currOffset).mapError .stop
  let blockDataOffset := toUInt32 (currOffset + 1)
  if storageVersion &&& 1 = 1 then
    .ok (none, m)
  else do
    let layout ← (storageLayout (toChar storageVersion)).mapError .stop
    let advance ← (asInt .cursorAdvance (layout.numWords * 4)).mapError .stop
    let paletteStart := toUInt32 (blockDataOffset + advance)
    let paletteSize ← (parseInt32 v paletteStart).mapError .stop
    let (paletteOffset, m) ←
      paletteLoop fuel v chunkY p paletteSize.toInt.toNat (toUInt32 (paletteStart + 4)) m
    let m ← wordLoop v i layout paletteSize.toInt chunkY p blockDataOffset m
    .ok (some paletteOffset, m)

/-- The block storages from number `i` on. -/
def storageLoop (fuel : ℕ) (v : Slice) (chunkY : ℤ) (p : ChunkPointer) :
    ℕ → ℕ → ℕ → Memory → Except MemoryError (Bool × Memory)
  | 0, _, _, m => .ok (true, m)
  | n + 1, i, currOffset, m => do
    match ← loadStorage fuel v chunkY p i currOffset m with
    | (none, m) => .ok (false, m)
    | (some currOffset, m) => storageLoop fuel v chunkY p n (i + 1) currOffset m

/-- Makes a chunk and adds it to the world. -/
def newChunk (m : Memory) (chunkX chunkZ : ℤ) (dimension : ChunkDimension) : Memory where
  tags := m.tags
  chunks := m.chunks.alloc (ChunkCell.new chunkX chunkZ)
  world := m.world.addChunk (ChunkCell.new chunkX chunkZ).cells m.chunks.size dimension
  totalChunks := m.totalChunks + 1

/-- The chunk at a position, made if it has not been visited. -/
def visit (m : Memory) (slot : Slot) : ChunkPointer × Memory :=
  match m.world.findChunk (chunkID slot.chunkX slot.chunkZ) slot.dimension with
  | some p => (p, m)
  | none => (m.chunks.size, m.newChunk slot.chunkX slot.chunkZ slot.dimension)

/-- One entry of the database. -/
def loadEntry (fuel : ℕ) (e : Entry) (m : Memory) : Except MemoryError (Bool × Memory) :=
  if isSubChunkKey e.key then do
    let slot ← (decodeKey e.key).mapError .stop
    let chunkFormat ← (e.value.charAt 0).mapError .stop
    if toChar chunkFormat ≠ 8 then
      .ok (true, m)
    else do
      let (p, m) := m.visit slot
      let storageNum ← (e.value.charAt 1).mapError .stop
      storageLoop fuel e.value slot.chunkY p (toChar storageNum).toNat 0 2 m
  else .ok (true, m)

def loadEntries (fuel : ℕ) : List Entry → Memory → Except MemoryError (Bool × Memory)
  | [], m => .ok (true, m)
  | e :: es, m => do
    let (ok, m) ← loadEntry fuel e m
    if ok then loadEntries fuel es m else .ok (false, m)

def parseBedrock (fuel : ℕ) (entries : List Entry) : Except MemoryError (Bool × Memory) :=
  loadEntries fuel entries Memory.init

/-! ## Release -/

/-- How the maps of the world and of its tags iterate. -/
structure Order where
  tags : TagOrder
  iterate : ChunkDimension → List (Sigma fun _ : String => ChunkPointer) →
    List (Sigma fun _ : String => ChunkPointer)
  perm : ∀ d entries, (iterate d entries).Perm entries

end Memory

/-- Frees the tags of the palettes, sub-chunk by sub-chunk. -/
def ChunkCell.freeMemory (order : TagOrder) (fuel : ℕ) (c : ChunkCell) (h : TagHeap) :
    Except MemoryError TagHeap :=
  c.blockStates.toList.foldlM (fun h states => states.foldlM (fun h q => do
    let h ← TagCell.freeMemory order fuel q h
    h.free .deletedTag q) h) h

namespace Memory

/-- Frees the chunks of one map. -/
def freeChunks (order : TagOrder) (fuel : ℕ) (entries : List (Sigma fun _ : String => ChunkPointer))
    (m : Memory) : Except MemoryError Memory :=
  entries.foldlM (fun m it => do
    let chunk ← m.derefChunk it.2
    let tags ← chunk.freeMemory order fuel m.tags
    let chunks ← m.chunks.free .deletedChunk it.2
    .ok { m with tags := tags, chunks := chunks }) m

/-- Frees all memory associated with the world. -/
def freeMemory (order : Order) (fuel : ℕ) (m : Memory) : Except MemoryError Memory := do
  let m ← freeChunks order.tags fuel (order.iterate .OVERWORLD m.world.chunks.entries) m
  let m ← freeChunks order.tags fuel (order.iterate .NETHER m.world.netherChunks.entries) m
  freeChunks order.tags fuel (order.iterate .ENDWORLD m.world.endChunks.entries) m

end Memory

end ChunkViewer
