import ChunkViewer.Spec.World

/-!
# Histories of a world

The loader builds a world by three calls: it makes a chunk where there is none, stores a
block in a chunk, or appends to the palette of a sub-chunk. A history is the list of these
calls; what a position holds is read off the history.
-/

namespace ChunkViewer

/-- The position of a chunk. -/
structure Site where
  dimension : ChunkDimension
  chunkX : ℤ
  chunkZ : ℤ
deriving DecidableEq

inductive WorldOp
  | create (site : Site)
  | addBlock (site : Site) (state rawX y rawZ : ℤ)
  | addBlockState (site : Site) (y : ℤ) (tag : NBTTag)

/-- `Built ops st`: the calls `ops` from an empty world end in `st`. -/
inductive Built : List WorldOp → LoaderState → Prop
  | start : Built [] LoaderState.init
  | create {ops : List WorldOp} {st : LoaderState} (site : Site) : Built ops st →
    -2147483648 ≤ site.chunkX → site.chunkX ≤ 2147483647 →
    -2147483648 ≤ site.chunkZ → site.chunkZ ≤ 2147483647 →
    st.world.findChunk (chunkID site.chunkX site.chunkZ) site.dimension = none →
    Built (ops ++ [.create site]) (st.newChunk site.chunkX site.chunkZ site.dimension)
  | addBlock {ops : List WorldOp} {st : LoaderState} (site : Site) {p : ChunkPointer} {c c' : Chunk}
    {state rawX y rawZ : ℤ} : Built ops st →
    st.world.findChunk (chunkID site.chunkX site.chunkZ) site.dimension = some p →
    st.deref p = .ok c → 0 ≤ rawX ∧ rawX ≤ 15 → 0 ≤ y ∧ y ≤ 255 → 0 ≤ rawZ ∧ rawZ ≤ 15 →
    c.addBlock state rawX y rawZ = .ok c' →
    Built (ops ++ [.addBlock site state rawX y rawZ]) (st.write p c')
  | addBlockState {ops : List WorldOp} {st : LoaderState} (site : Site) {p : ChunkPointer}
    {c c' : Chunk} {y : ℤ} {tag : NBTTag} : Built ops st →
    st.world.findChunk (chunkID site.chunkX site.chunkZ) site.dimension = some p →
    st.deref p = .ok c → c.addBlockState y tag = .ok c' →
    Built (ops ++ [.addBlockState site y tag]) (st.write p c')

/-! ## Reading a history -/

/-- What a call leaves as the state of a cell that held `last`. -/
def WorldOp.record (site : Site) (rawX y rawZ last : ℤ) : WorldOp → ℤ
  | .create _ => last
  | .addBlock site' state rawX' y' rawZ' =>
    if site' = site ∧ rawX' = rawX ∧ y' = y ∧ rawZ' = rawZ then state else last
  | .addBlockState _ _ _ => last

/-- The state of the last `addBlock` at a cell, -1 if there was none. -/
def lastState (ops : List WorldOp) (site : Site) (rawX y rawZ : ℤ) : ℤ :=
  ops.foldl (WorldOp.record site rawX y rawZ) (-1)

/-- The palette tag a call appends to a sub-chunk. -/
def WorldOp.tag? (site : Site) (y : ℤ) : WorldOp → Option NBTTag
  | .create _ => none
  | .addBlock _ _ _ _ _ => none
  | .addBlockState site' y' tag => if site' = site ∧ y' = y then some tag else none

/-- The palette of a sub-chunk. -/
def tagsAt (ops : List WorldOp) (site : Site) (y : ℤ) : List NBTTag :=
  ops.filterMap (WorldOp.tag? site y)

lemma lastState_append (ops : List WorldOp) (op : WorldOp) (site : Site) (rawX y rawZ : ℤ) :
    lastState (ops ++ [op]) site rawX y rawZ =
      op.record site rawX y rawZ (lastState ops site rawX y rawZ) := by
  unfold lastState
  rw [List.foldl_append, List.foldl_cons, List.foldl_nil]

lemma tagsAt_append (ops : List WorldOp) (op : WorldOp) (site : Site) (y : ℤ) :
    tagsAt (ops ++ [op]) site y = tagsAt ops site y ++ (op.tag? site y).toList := by
  unfold tagsAt
  rw [List.filterMap_append]
  cases h : op.tag? site y <;> simp [h]

end ChunkViewer
