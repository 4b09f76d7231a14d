import ChunkViewer.Model.WorldData

/-!
# The loader

`parseBedrock` goes through the entries of the database. An entry whose key names a
sub-chunk and whose value has format 8 is loaded into the chunk of its position: the
palette of every block storage is appended to the palette of the sub-chunk, and the block
words of the first storage are written to its cells.
-/

namespace ChunkViewer

structure Entry where
  key : Slice
  value : Slice

/-- Where a sub-chunk goes. -/
structure Slot where
  dimension : ChunkDimension
  chunkX : Int
  chunkZ : Int
  chunkY : Int
deriving DecidableEq, Repr

/-- Keys of 10 and 14 bytes ending in '/' and a sub-chunk index. -/
def isSubChunkKey (k : Slice) : Bool :=
  (k.length == 10 && k[8]? == some 0x2F) || (k.length == 14 && k[12]? == some 0x2F)

/-- Extra bytes describe the Nether and End regions. -/
def keyDimension (k : Slice) : Exec ChunkDimension :=
  if k.length = 13 ∨ k.length = 14 then do
    let regionID ← parseInt32 k 8
    .ok (if regionID.toInt = 1 then .NETHER else .ENDWORLD)
  else .ok .OVERWORLD

/-- Position and dimension of a sub-chunk key. -/
def decodeKey (k : Slice) : Exec Slot := do
  let chunkX ← parseInt32 k 0
  let chunkY ← k.charAt ((k.length : Int) - 1)
  let chunkZ ← parseInt32 k 4
  let dimension ← keyDimension k
  .ok ⟨dimension, chunkX.toInt, chunkZ.toInt, toChar chunkY⟩

/-- `32 / bitsPerBlock`. -/
def blocksPerWordOf (bitsPerBlock : Int) : Exec Int :=
  if bitsPerBlock = 0 then .error (.undefined .blocksPerWord) else .ok (Int.tdiv 32 bitsPerBlock)

/-- `ceil(4096.0 / blocksPerWord)` as an `int`. The quotient is infinite for zero; else its
rounding to a double does not move it past an integer. -/
def numWordsOf (blocksPerWord : Int) : Exec Int :=
  if blocksPerWord = 0 then .error (.undefined .numWords) else .ok ⌈(4096 : ℚ) / blocksPerWord⌉

/-- `(1 << bitsPerBlock) - 1`. -/
def indexMask (bitsPerBlock : Int) : Exec Int :=
  if 0 ≤ bitsPerBlock ∧ bitsPerBlock < 32 then
    asInt .indexMask ((1#32 <<< bitsPerBlock.toNat).toInt - 1)
  else .error (.undefined .indexMask)

/-- `word >> ((pos % blocksPerWord) * bitsPerBlock)`. -/
def shiftWord (word : BitVec 32) (pos : Nat) (bitsPerBlock blocksPerWord : Int) :
    Exec (BitVec 32) :=
  let shift := (pos : Int).tmod blocksPerWord * bitsPerBlock
  if 0 ≤ shift ∧ shift < 32 then .ok (word.sshiftRight shift.toNat)
  else .error (.undefined .wordShift)

/-- The state of the block at position `pos`, -2 when it is outside the palette. -/
def blockState (word : BitVec 32) (pos : Nat) (bitsPerBlock blocksPerWord paletteSize : Int) :
    Exec Int := do
  let shifted ← shiftWord word pos bitsPerBlock blocksPerWord
  let mask ← indexMask bitsPerBlock
  let state := (shifted &&& BitVec.ofInt 32 mask).toInt
  let last ← asInt .paletteBound (paletteSize - 1)
  .ok (if state > last then -2 else state)

/-- Writes the block at position `pos`. Only storage 0 is kept; the others hold alternates. -/
def placeBlock (i : Nat) (bitsPerBlock blocksPerWord paletteSize chunkY : Int) (word : BitVec 32)
    (pos : Nat) (currChunk : Chunk) : Exec Chunk :=
  if i = 0 then do
    let state ← blockState word pos bitsPerBlock blocksPerWord paletteSize
    let rawX := (pos >>> 8) &&& 0xF
    let rawY := pos &&& 0xF
    let rawZ := (pos >>> 4) &&& 0xF
    currChunk.addBlock state (rawX : Nat) ((rawY : Nat) + 16 * chunkY) (rawZ : Nat)
  else .ok currChunk

/-- The blocks of one word. -/
def blockLoop (i : Nat) (bitsPerBlock blocksPerWord paletteSize chunkY : Int) (word : BitVec 32) :
    Nat → Nat → Chunk → Exec (Nat × Chunk)
  | 0, pos, currChunk => .ok (pos, currChunk)
  | block + 1, pos, currChunk => do
    let currChunk ←
      placeBlock i bitsPerBlock blocksPerWord paletteSize chunkY word pos currChunk
    blockLoop i bitsPerBlock blocksPerWord paletteSize chunkY word block (pos + 1) currChunk

/-- Block position data. -/
def wordLoop (v : Slice) (i : Nat) (bitsPerBlock blocksPerWord paletteSize chunkY : Int) :
    Nat → Nat → Nat → Chunk → Exec Chunk
  | 0, _, _, currChunk => .ok currChunk
  | w + 1, currOffset, pos, currChunk => do
    let word ← parseInt32 v currOffset
    let (pos, currChunk) ←
      blockLoop i bitsPerBlock blocksPerWord paletteSize chunkY word blocksPerWord.toNat pos currChunk
    wordLoop v i bitsPerBlock blocksPerWord paletteSize chunkY w (toUInt32 (currOffset + 4)) pos
      currChunk

/-- Palette data: block names and state data. -/
def paletteLoop (fuel : Nat) (v : Slice) (chunkY : Int) :
    Nat → Nat → Chunk → Exec (Nat × Chunk)
  | 0, currOffset, currChunk => .ok (currOffset, currChunk)
  | p + 1, currOffset, currChunk => do
    let (currOffset, rootTag) ← parseNBTTag v fuel currOffset NBTTag.new true
    let currChunk ← currChunk.addBlockState chunkY rootTag
    paletteLoop fuel v chunkY p currOffset currChunk

/-- The sizes that the header byte of a block storage stands for. -/
structure StorageLayout where
  bitsPerBlock : Int
  blocksPerWord : Int
  numWords : Int
deriving DecidableEq, Repr

def storageLayout (storageVersion : Int) : Exec StorageLayout := do
  let bitsPerBlock := storageVersion >>> 1
  let blocksPerWord ← blocksPerWordOf bitsPerBlock
  let numWords ← numWordsOf blocksPerWord
  .ok ⟨bitsPerBlock, blocksPerWord, numWords⟩

/-- One block storage. `none` is a storage serialized for runtime; otherwise the cursor is
left at the start of the next storage. -/
def loadStorage (fuel : Nat) (v : Slice) (chunkY : Int) (i currOffset : Nat) (currChunk : Chunk) :
    Exec (Option (Nat × Chunk)) := do
  let storageVersion ← v.charAt currOffset
  let blockDataOffset := toUInt32 (currOffset + 1)
  if storageVersion &&& 1 = 1 then
    .ok none
  else do
    let layout ← storageLayout (toChar storageVersion)
    let advance ← asInt .cursorAdvance (layout.numWords * 4)
    let paletteStart := toUInt32 (blockDataOffset + advance)
    let paletteSize ← parseInt32 v paletteStart
    let (paletteOffset, currChunk) ←
      paletteLoop fuel v chunkY paletteSize.toInt.toNat (toUInt32 (paletteStart + 4)) currChunk
    let currChunk ← wordLoop v i layout.bitsPerBlock layout.blocksPerWord paletteSize.toInt chunkY
      layout.numWords.toNat blockDataOffset 0 currChunk
    .ok (some (paletteOffset, currChunk))

/-- The block storages from number `i` on; `false` where the loader gives up. -/
def storageLoop (fuel : Nat) (v : Slice) (chunkY : Int) :
    Nat → Nat → Nat → Chunk → Exec (Bool × Chunk)
  | 0, _, _, currChunk => .ok (true, currChunk)
  | n + 1, i, currOffset, currChunk => do
    match ← loadStorage fuel v chunkY i currOffset currChunk with
    | none => .ok (false, currChunk)
    | some (currOffset, currChunk) => storageLoop fuel v chunkY n (i + 1) currOffset currChunk

/-- Makes a chunk and adds it to the world. -/
def LoaderState.newChunk (st : LoaderState) (chunkX chunkZ : Int) (dimension : ChunkDimension) :
    LoaderState where
  heap := st.heap ++ [Chunk.new chunkX chunkZ]
  world := st.world.addChunk (Chunk.new chunkX chunkZ) st.heap.length dimension
  totalChunks := st.totalChunks + 1

/-- The chunk at a position, made if it has not been visited. -/
def LoaderState.visit (st : LoaderState) (slot : Slot) : ChunkPointer × LoaderState :=
  match st.world.findChunk (chunkID slot.chunkX slot.chunkZ) slot.dimension with
  | some p => (p, st)
  | none => (st.heap.length, st.newChunk slot.chunkX slot.chunkZ slot.dimension)

/-- One entry of the database. `false` is a load that ends with an error. -/
def loadEntry (fuel : Nat) (e : Entry) (st : LoaderState) : Exec (Bool × LoaderState) :=
  if isSubChunkKey e.key then do
    let slot ← decodeKey e.key
    let chunkFormat ← e.value.charAt 0
    if toChar chunkFormat ≠ 8 then
      .ok (true, st)
    else do
      let (p, st) := st.visit slot
      let currChunk ← st.deref p
      let storageNum ← e.value.charAt 1
      let (ok, currChunk) ←
        storageLoop fuel e.value slot.chunkY (toChar storageNum).toNat 0 2 currChunk
      .ok (ok, st.write p currChunk)
  else .ok (true, st)

/-- The entries in the order of the iterator, up to the first that ends the load. -/
def loadEntries (fuel : Nat) : List Entry → LoaderState → Exec (Bool × LoaderState)
  | [], st => .ok (true, st)
  | e :: es, st => do
    let (ok, st) ← loadEntry fuel e st
    if ok then loadEntries fuel es st else .ok (false, st)

def parseBedrock (fuel : Nat) (entries : List Entry) : Exec (Bool × LoaderState) :=
  loadEntries fuel entries LoaderState.init

end ChunkViewer
