import ChunkViewer.Model.WorldMemory
import ChunkViewer.Spec.TagLayout

/-!
# Which world the memory stands for

The memory of the loader stands for a state of its model: the same maps and counter, and at
each address a chunk whose palettes point to the tags of the model. Each palette owns its tags
and all that stands below them, and no tag has two owners.
-/

namespace ChunkViewer

open TreeHeap

/-- The chunk in a cell. Sub-chunk `y` owns the tags `owned y`. -/
structure ChunkCell.StandsFor (tags : TagHeap) (cell : ChunkCell) (c : Chunk)
    (owned : Fin 16 → List TagPointer) : Prop where
  x : cell.x = c.x
  z : cell.z = c.z
  blocks : cell.blocks = c.blocks
  palette : ∀ y : Fin 16, Represents tagLayout tags (cell.blockStates.get y) (c.palette y) (owned y)

/-- The tags that the sub-chunks of each chunk own. -/
abbrev Owners := ChunkPointer → Fin 16 → List TagPointer

structure Memory.RefinesBy (owned : Owners) (m : Memory) (st : LoaderState) : Prop where
  world : m.world = st.world
  totalChunks : m.totalChunks = st.totalChunks
  size : m.chunks.size = st.heap.length
  chunk : ∀ p c, st.heap[p]? = some c →
    ∃ cell, m.chunks.read p = some cell ∧ cell.StandsFor m.tags c (owned p)
  nodup : ∀ p y, (owned p y).Nodup
  unshared : ∀ a p y p' y', a ∈ owned p y → a ∈ owned p' y' → p = p' ∧ y = y'
  noOthers : ∀ p y, st.heap.length ≤ p → owned p y = []
  live : ∀ a < m.tags.size, (m.tags.read a).isSome

def Memory.Refines (m : Memory) (st : LoaderState) : Prop := ∃ owned, m.RefinesBy owned st

/-- Pointers lead from the maps of the world to the tag at an address. -/
inductive Memory.Reaches (m : Memory) : TagPointer → Prop
  | palette {id : String} {d : ChunkDimension} {p : ChunkPointer} {cell : ChunkCell} {y : Fin 16}
    {q : TagPointer} : m.world.findChunk id d = some p → m.chunks.read p = some cell →
    q ∈ cell.blockStates.get y → Reaches m q
  | inner {p q : TagPointer} {tag : TagCell} : Reaches m p → m.tags.read p = some tag →
    q ∈ tag.innerTags.map Prod.snd → Reaches m q

end ChunkViewer
