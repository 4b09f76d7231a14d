import ChunkViewer.Spec.SubChunk

/-!
# Cells and palettes of a chunk

Reads after writes, and the view of a chunk as 16 sub-chunks.
-/

namespace ChunkViewer

open ExceptRun RingFill

/-! ## Reads after writes -/

lemma Chunk.cell_setCell (c : Chunk) (state : ℤ) (x x' : Fin 16) (y y' : Fin 256) (z z' : Fin 16) :
    (c.setCell state x y z).cell x' y' z' =
      if x' = x ∧ y' = y ∧ z' = z then state else c.cell x' y' z' := by
  unfold Chunk.cell Chunk.setCell
  by_cases hx : x' = x
  · subst hx
    by_cases hz : z' = z
    · subst hz
      by_cases hy : y' = y
      · subst hy
        simp
      · have hval : y.val ≠ y'.val := fun h => hy (Fin.ext h.symm)
        simp [hy, hval]
    · have hval : z.val ≠ z'.val := fun h => hz (Fin.ext h.symm)
      simp [hz, hval]
  · have hval : x.val ≠ x'.val := fun h => hx (Fin.ext h.symm)
    simp [hx, hval]

@[simp] lemma Chunk.palette_setCell (c : Chunk) (state : ℤ) (x : Fin 16) (y : Fin 256)
    (z y' : Fin 16) : (c.setCell state x y z).palette y' = c.palette y' := rfl

@[simp] lemma Chunk.cell_pushState (c : Chunk) (y' : Fin 16) (tag : NBTTag) (x : Fin 16)
    (y : Fin 256) (z : Fin 16) : (c.pushState y' tag).cell x y z = c.cell x y z := rfl

lemma Chunk.palette_pushState (c : Chunk) (y y' : Fin 16) (tag : NBTTag) :
    (c.pushState y tag).palette y' = if y' = y then c.palette y ++ [tag] else c.palette y' := by
  unfold Chunk.palette Chunk.pushState
  by_cases h : y' = y
  · subst h
    simp
  · have hval : y.val ≠ y'.val := fun e => h (Fin.ext e.symm)
    simp [h, hval]

lemma Chunk.cell_new (cx cz : ℤ) (x : Fin 16) (y : Fin 256) (z : Fin 16) :
    (Chunk.new cx cz).cell x y z = -1 := by
  simp [Chunk.cell, Chunk.new]

lemma Chunk.palette_new (cx cz : ℤ) (y : Fin 16) : (Chunk.new cx cz).palette y = [] := by
  simp [Chunk.palette, Chunk.new]

/-! ## The view as sub-chunks -/

/-- The coordinates at which the loader writes position `pos` of sub-chunk `y`. -/
def posX (pos : ℕ) : Fin 16 := ⟨pos / 256 % 16, by omega⟩

def posZ (pos : ℕ) : Fin 16 := ⟨pos / 16 % 16, by omega⟩

def posY (y : Fin 16) (pos : ℕ) : Fin 256 := ⟨16 * y + pos % 16, by omega⟩

/-- The position of a cell in its sub-chunk. -/
def cellPos (x : Fin 16) (y : Fin 256) (z : Fin 16) : Fin 4096 :=
  ⟨x * 256 + z * 16 + y % 16, by omega⟩

def subOf (y : Fin 256) : Fin 16 := ⟨y / 16, by omega⟩

def Chunk.subChunk (c : Chunk) (y : Fin 16) : SubChunk where
  cells q := c.cell (posX q) (posY y q) (posZ q)
  palette := c.palette y

lemma Chunk.cell_eq_subChunk (c : Chunk) (x : Fin 16) (y : Fin 256) (z : Fin 16) :
    c.cell x y z = (c.subChunk (subOf y)).cells (cellPos x y z) := by
  have hx : posX (cellPos x y z) = x := Fin.ext (by simp only [posX, cellPos]; omega)
  have hy : posY (subOf y) (cellPos x y z) = y := Fin.ext (by simp only [posY, subOf, cellPos]; omega)
  have hz : posZ (cellPos x y z) = z := Fin.ext (by simp only [posZ, cellPos]; omega)
  simp only [Chunk.subChunk, hx, hy, hz]

lemma pos_eq_iff (y y' : Fin 16) (pos pos' : ℕ) :
    (posX pos' = posX pos ∧ posY y' pos' = posY y pos ∧ posZ pos' = posZ pos) ↔
      y' = y ∧ pos' % 4096 = pos % 4096 := by
  simp only [posX, posY, posZ, Fin.ext_iff]
  omega

lemma Chunk.subChunk_setCell (c : Chunk) (state : ℤ) (y y' : Fin 16) (pos : ℕ) :
    (c.setCell state (posX pos) (posY y pos) (posZ pos)).subChunk y' =
      if y' = y then
        { c.subChunk y with cells := Function.update (c.subChunk y).cells (Fin.ofNat 4096 pos) state }
      else c.subChunk y' := by
  by_cases hy : y' = y
  · subst hy
    rw [if_pos rfl]
    unfold Chunk.subChunk
    congr 1
    funext q
    rw [Chunk.cell_setCell, Function.update_apply]
    simp only [pos_eq_iff, true_and]
    have hq : q.val % 4096 = q.val := Nat.mod_eq_of_lt q.isLt
    have hiff : q = Fin.ofNat 4096 pos ↔ q.val % 4096 = pos % 4096 := by
      rw [hq, Fin.ext_iff, Fin.val_ofNat]
    simp only [hiff]
  · rw [if_neg hy]
    unfold Chunk.subChunk
    congr 1
    funext q
    rw [Chunk.cell_setCell, if_neg]
    rw [pos_eq_iff]
    tauto

lemma Chunk.subChunk_pushState (c : Chunk) (y y' : Fin 16) (tag : NBTTag) :
    (c.pushState y tag).subChunk y' =
      if y' = y then { c.subChunk y with palette := (c.subChunk y).palette ++ [tag] }
      else c.subChunk y' := by
  unfold Chunk.subChunk
  rw [Chunk.palette_pushState]
  by_cases hy : y' = y
  · subst hy
    simp
  · simp [hy]

lemma Chunk.subChunk_new (cx cz : ℤ) (y : Fin 16) : (Chunk.new cx cz).subChunk y = SubChunk.empty := by
  simp only [Chunk.subChunk, SubChunk.empty, Chunk.cell_new, Chunk.palette_new]

/-! ## Several writes -/

/-- Appends tags to the palette of sub-chunk `y`. -/
def Chunk.pushAll (c : Chunk) (y : Fin 16) : List NBTTag → Chunk
  | [] => c
  | tag :: tags => (c.pushState y tag).pushAll y tags

/-- Writes states to sub-chunk `y` from position `pos` on. -/
def Chunk.fill (c : Chunk) (y : Fin 16) : ℕ → List ℤ → Chunk
  | _, [] => c
  | pos, state :: states =>
    (c.setCell state (posX pos) (posY y pos) (posZ pos)).fill y (pos + 1) states

lemma Chunk.fill_append (c : Chunk) (y : Fin 16) (pos : ℕ) (as bs : List ℤ) :
    c.fill y pos (as ++ bs) = (c.fill y pos as).fill y (pos + as.length) bs := by
  induction as generalizing c pos with
  | nil => rfl
  | cons a as ih =>
    rw [List.cons_append, Chunk.fill, ih, Chunk.fill, List.length_cons, Nat.add_right_comm,
      Nat.add_assoc]

lemma Chunk.subChunk_fill (c : Chunk) (y y' : Fin 16) (pos : ℕ) (states : List ℤ) :
    (c.fill y pos states).subChunk y' =
      if y' = y then { c.subChunk y with cells := ringFill (c.subChunk y).cells pos states }
      else c.subChunk y' := by
  induction states generalizing c pos with
  | nil => by_cases h : y' = y <;> simp [Chunk.fill, ringFill, h]
  | cons a as ih =>
    rw [Chunk.fill, ih, Chunk.subChunk_setCell, Chunk.subChunk_setCell, if_pos rfl]
    by_cases h : y' = y
    · simp only [if_pos h, ringFill]
    · simp only [if_neg h]

lemma Chunk.subChunk_pushAll (c : Chunk) (y y' : Fin 16) (tags : List NBTTag) :
    (c.pushAll y tags).subChunk y' =
      if y' = y then { c.subChunk y with palette := (c.subChunk y).palette ++ tags }
      else c.subChunk y' := by
  induction tags generalizing c with
  | nil => by_cases h : y' = y <;> simp [Chunk.pushAll, h]
  | cons a as ih =>
    rw [Chunk.pushAll, ih, Chunk.subChunk_pushState, Chunk.subChunk_pushState, if_pos rfl]
    by_cases h : y' = y
    · simp only [if_pos h, List.append_assoc, List.singleton_append]
    · simp only [if_neg h]

/-- Loads a storage into sub-chunk `y`. -/
def Chunk.load (c : Chunk) (y : Fin 16) (storage : Storage) : Chunk :=
  (c.pushAll y storage.palette).fill y 0 storage.states

def Chunk.loadAll (c : Chunk) (y : Fin 16) (storages : List Storage) : Chunk :=
  storages.foldl (fun c storage => c.load y storage) c

lemma Chunk.subChunk_load (c : Chunk) (y y' : Fin 16) (storage : Storage) :
    (c.load y storage).subChunk y' =
      if y' = y then (c.subChunk y).load storage else c.subChunk y' := by
  unfold Chunk.load SubChunk.load
  rw [Chunk.subChunk_fill, Chunk.subChunk_pushAll, Chunk.subChunk_pushAll, if_pos rfl]
  by_cases h : y' = y <;> simp [h]

lemma Chunk.subChunk_loadAll (c : Chunk) (y y' : Fin 16) (storages : List Storage) :
    (c.loadAll y storages).subChunk y' =
      if y' = y then (c.subChunk y).loadAll storages else c.subChunk y' := by
  unfold Chunk.loadAll SubChunk.loadAll
  induction storages generalizing c with
  | nil => by_cases h : y' = y <;> simp [h]
  | cons s storages ih =>
    rw [List.foldl_cons, ih, Chunk.subChunk_load, Chunk.subChunk_load, if_pos rfl, List.foldl_cons]
    by_cases h : y' = y <;> simp [h]

lemma Chunk.pushAll_position (c : Chunk) (y : Fin 16) (tags : List NBTTag) :
    (c.pushAll y tags).x = c.x ∧ (c.pushAll y tags).z = c.z := by
  induction tags generalizing c with
  | nil => exact ⟨rfl, rfl⟩
  | cons a as ih => exact ih _

lemma Chunk.fill_position (c : Chunk) (y : Fin 16) (pos : ℕ) (states : List ℤ) :
    (c.fill y pos states).x = c.x ∧ (c.fill y pos states).z = c.z := by
  induction states generalizing c pos with
  | nil => exact ⟨rfl, rfl⟩
  | cons a as ih => exact ih _ _

lemma Chunk.loadAll_position (c : Chunk) (y : Fin 16) (storages : List Storage) :
    (c.loadAll y storages).x = c.x ∧ (c.loadAll y storages).z = c.z := by
  unfold Chunk.loadAll
  induction storages generalizing c with
  | nil => exact ⟨rfl, rfl⟩
  | cons s storages ih =>
    have hfill := (c.pushAll y s.palette).fill_position y 0 s.states
    have hpush := c.pushAll_position y s.palette
    have hload : (c.load y s).x = c.x ∧ (c.load y s).z = c.z :=
      ⟨hfill.1.trans hpush.1, hfill.2.trans hpush.2⟩
    exact ⟨(ih _).1.trans hload.1, (ih _).2.trans hload.2⟩

end ChunkViewer
