import ChunkViewer.Model.NBTTag

/-!
# Chunks

A chunk is a column of 16 sub-chunks. Its block vectors are sized once, by the
constructor, so their sizes are part of the types here.
-/

namespace ChunkViewer

/-- The tag pointer is `none` where the source leaves it indeterminate. -/
structure Block where
  state : Int
  stateTag : Option NBTTag

structure Chunk where
  x : Int
  z : Int
  blocks : Vector (Vector (Vector Int 256) 16) 16
  blockStates : Vector (List NBTTag) 16

/-- `new Chunk` followed by the assignment of its coordinates. -/
def Chunk.new (x z : Int) : Chunk where
  x := x
  z := z
  blocks := Vector.replicate 16 (Vector.replicate 16 (Vector.replicate 256 (-1)))
  blockStates := Vector.replicate 16 []

def Chunk.cell (c : Chunk) (x : Fin 16) (y : Fin 256) (z : Fin 16) : Int :=
  ((c.blocks[x])[z])[y]

def Chunk.setCell (c : Chunk) (state : Int) (x : Fin 16) (y : Fin 256) (z : Fin 16) : Chunk :=
  { c with blocks := c.blocks.set x ((c.blocks[x]).set z (((c.blocks[x])[z]).set y state)) }

def Chunk.palette (c : Chunk) (y : Fin 16) : List NBTTag :=
  c.blockStates[y]

def Chunk.pushState (c : Chunk) (y : Fin 16) (state : NBTTag) : Chunk :=
  { c with blockStates := c.blockStates.set y ((c.blockStates[y]) ++ [state]) }

/-- A vector subscript: undefined unless it is below the size. -/
def subscript (what : Undefined) (size : Nat) (n : Int) : Exec (Fin size) :=
  if h : 0 ≤ n ∧ n < size then .ok ⟨n.toNat, by omega⟩ else .error (.undefined what)

def Chunk.addBlock (c : Chunk) (state rawX y rawZ : Int) : Exec Chunk := do
  let x ← subscript .blocksSubscript 16 rawX
  let z ← subscript .blocksSubscript 16 rawZ
  let y ← subscript .blocksSubscript 256 y
  .ok (c.setCell state x y z)

/-- Returns a block with state < 0 on failure. The bound check lets `y = 256` through. -/
def Chunk.getBlock (c : Chunk) (rawX y rawZ : Int) : Exec Block :=
  if rawX < 0 ∨ 16 ≤ rawX ∨ rawZ < 0 ∨ 16 ≤ rawZ ∨ y < 0 ∨ 256 < y then
    .ok ⟨-1, none⟩
  else do
    let x ← subscript .blocksSubscript 16 rawX
    let z ← subscript .blocksSubscript 16 rawZ
    let yIndex ← subscript .blocksSubscript 256 y
    let state := c.cell x yIndex z
    if 0 ≤ state then do
      let subY ← subscript .blockStatesSubscript 16 (y.tdiv 16)
      let index ← subscript .blockStatesSubscript (c.palette subY).length state
      .ok ⟨state, some (c.palette subY)[index]⟩
    else .ok ⟨state, none⟩

/-- Adds a block state to the vector of sub-chunk `y`. -/
def Chunk.addBlockState (c : Chunk) (y : Int) (state : NBTTag) : Exec Chunk := do
  let y ← subscript .blockStatesSubscript 16 y
  .ok (c.pushState y state)

end ChunkViewer
