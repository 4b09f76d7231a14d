import ChunkViewer.Model.Chunk

/-!
# The chunk store

Three maps, one per dimension, from the id `"x|z"` of a chunk to its address. The chunks
made by `new Chunk` live in a heap whose addresses are positions.
-/

namespace ChunkViewer

inductive ChunkDimension
  | OVERWORLD
  | NETHER
  | ENDWORLD
deriving DecidableEq, Repr

abbrev ChunkPointer := Nat

abbrev ChunkMap := AList (fun _ : String => ChunkPointer)

structure WorldData where
  chunks : ChunkMap
  netherChunks : ChunkMap
  endChunks : ChunkMap

def WorldData.empty : WorldData := ⟨∅, ∅, ∅⟩

/-- The id `"chunkX|chunkZ"`. -/
def chunkID (chunkX chunkZ : Int) : String :=
  toString chunkX ++ "|" ++ toString chunkZ

def WorldData.addChunk (w : WorldData) (chunk : Chunk) (p : ChunkPointer)
    (dimension : ChunkDimension) : WorldData :=
  match dimension with
  | .OVERWORLD => { w with chunks := w.chunks.insert (chunkID chunk.x chunk.z) p }
  | .NETHER => { w with netherChunks := w.netherChunks.insert (chunkID chunk.x chunk.z) p }
  | .ENDWORLD => { w with endChunks := w.endChunks.insert (chunkID chunk.x chunk.z) p }

def WorldData.findChunk (w : WorldData) (id : String) (dimension : ChunkDimension) :
    Option ChunkPointer :=
  match dimension with
  | .OVERWORLD => w.chunks.lookup id
  | .NETHER => w.netherChunks.lookup id
  | .ENDWORLD => w.endChunks.lookup id

/-- What the loader builds: the heap, the store and the number of chunks made. -/
structure LoaderState where
  heap : List Chunk
  world : WorldData
  totalChunks : Nat

def LoaderState.init : LoaderState := ⟨[], WorldData.empty, 0⟩

/-- The chunk a pointer points to. -/
def LoaderState.deref (st : LoaderState) (p : ChunkPointer) : Exec Chunk :=
  match st.heap[p]? with
  | some c => .ok c
  | none => .error (.undefined .chunkPointer)

/-- Stores back a chunk that was changed through a pointer. -/
def LoaderState.write (st : LoaderState) (p : ChunkPointer) (c : Chunk) : LoaderState :=
  { st with heap := st.heap.set p c }

/-- The chunk coordinate of a block coordinate. `x / 16.0` is exact for every `int`. -/
def chunkCoordinate (x : Int) : Int := ⌊(x : ℚ) / 16⌋

/-- `x - 16 * chunkX`. -/
def rawCoordinate (x chunkX : Int) : Exec Int := do
  let base ← asInt .rawCoordinate (16 * chunkX)
  asInt .rawCoordinate (x - base)

/-- Returns a block with state < 0 on failure. -/
def LoaderState.getBlock (st : LoaderState) (x y z : Int) (dimension : ChunkDimension) :
    Exec Block := do
  let chunkX := chunkCoordinate x
  let chunkZ := chunkCoordinate z
  let rawX ← rawCoordinate x chunkX
  let rawZ ← rawCoordinate z chunkZ
  match st.world.findChunk (chunkID chunkX chunkZ) dimension with
  | none => .ok ⟨-1, none⟩
  | some p => do
    let blockChunk ← st.deref p
    blockChunk.getBlock rawX y rawZ

/-- The chunk that a block resides in. -/
def LoaderState.getBlockChunk (st : LoaderState) (x z : Int) (dimension : ChunkDimension) :
    Exec (Option ChunkPointer) := do
  let chunkX := chunkCoordinate x
  let chunkZ := chunkCoordinate z
  let _ ← rawCoordinate x chunkX
  let _ ← rawCoordinate z chunkZ
  .ok (st.world.findChunk (chunkID chunkX chunkZ) dimension)

end ChunkViewer
