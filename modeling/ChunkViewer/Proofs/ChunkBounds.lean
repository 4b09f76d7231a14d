import ChunkViewer.Proofs.BlockLookup
import ChunkViewer.Proofs.ReadStorages

/-!
# The bounds of a chunk

`getBlock` checks its three coordinates before it subscripts the block vectors, but lets
`y = 256` through. Everywhere else it is total as long as the states of a chunk lie in their
palettes.
-/

namespace ChunkViewer

open ExceptRun RingFill

/-- Every nonnegative state of a cell names an entry of the palette of its sub-chunk. -/
def Chunk.StatesInPalette (c : Chunk) : Prop :=
  ∀ x y z, 0 ≤ c.cell x y z → c.cell x y z < (c.palette (subOf y)).length

/-- The coordinates of a cell. -/
def InChunk (rawX y rawZ : ℤ) : Prop :=
  (0 ≤ rawX ∧ rawX ≤ 15) ∧ (0 ≤ y ∧ y ≤ 255) ∧ 0 ≤ rawZ ∧ rawZ ≤ 15

lemma InChunk.fin {rawX y rawZ : ℤ} (h : InChunk rawX y rawZ) :
    ∃ (i : Fin 16) (j : Fin 256) (k : Fin 16), rawX = (i : ℕ) ∧ y = (j : ℕ) ∧ rawZ = (k : ℕ) := by
  obtain ⟨hx, hy, hz⟩ := h
  refine ⟨⟨rawX.toNat, by omega⟩, ⟨y.toNat, by omega⟩, ⟨rawZ.toNat, by omega⟩, ?_, ?_, ?_⟩
  · exact (Int.toNat_of_nonneg hx.1).symm
  · exact (Int.toNat_of_nonneg hy.1).symm
  · exact (Int.toNat_of_nonneg hz.1).symm

/-- The palette entry that the state of a cell names. -/
def Chunk.cellTag (c : Chunk) (i : Fin 16) (j : Fin 256) (k : Fin 16) : Option NBTTag :=
  if 0 ≤ c.cell i j k then (c.palette (subOf j))[(c.cell i j k).toNat]? else none

lemma Chunk.cellTag_nonneg {c : Chunk} (hc : c.StatesInPalette) {i : Fin 16} {j : Fin 256}
    {k : Fin 16} (h : 0 ≤ c.cell i j k) :
    ∃ tag ∈ c.palette (subOf j), c.cellTag i j k = some tag := by
  have hlt : (c.cell i j k).toNat < (c.palette (subOf j)).length := by
    have := hc i j k h
    omega
  refine ⟨_, List.getElem_mem hlt, ?_⟩
  rw [Chunk.cellTag, if_pos h, List.getElem?_eq_getElem hlt]

lemma Chunk.cellTag_eq_some {c : Chunk} {i : Fin 16} {j : Fin 256} {k : Fin 16} {tag : NBTTag}
    (h : c.cellTag i j k = some tag) : 0 ≤ c.cell i j k ∧ tag ∈ c.palette (subOf j) := by
  unfold Chunk.cellTag at h
  by_cases hpos : 0 ≤ c.cell i j k
  · rw [if_pos hpos] at h
    exact ⟨hpos, List.mem_of_getElem? h⟩
  · rw [if_neg hpos] at h
    exact absurd h (by simp)

lemma Chunk.getBlock_cell {c : Chunk} (hc : c.StatesInPalette) (i : Fin 16) (j : Fin 256)
    (k : Fin 16) :
    c.getBlock (i : ℕ) (j : ℕ) (k : ℕ) = .ok ⟨c.cell i j k, c.cellTag i j k⟩ := by
  have hblock : c.getBlock (i : ℕ) (j : ℕ) (k : ℕ) =
      blockOf (c.cell i j k) (c.palette (subOf j)) := by
    rw [Chunk.getBlock_eq, SubChunk.block, ← Chunk.cell_eq_subChunk]
    rfl
  rw [hblock]
  by_cases hpos : 0 ≤ c.cell i j k
  · obtain ⟨tag, -, htag⟩ := Chunk.cellTag_nonneg hc hpos
    rw [htag]
    rw [Chunk.cellTag, if_pos hpos] at htag
    exact blockOf_tag hpos htag
  · rw [Chunk.cellTag, if_neg hpos]
    exact blockOf_neg (by omega) _

lemma Chunk.getBlock_outside (c : Chunk) {rawX y rawZ : ℤ} (h : ¬InChunk rawX y rawZ)
    (hy : ¬((0 ≤ rawX ∧ rawX ≤ 15) ∧ (0 ≤ rawZ ∧ rawZ ≤ 15) ∧ y = 256)) :
    c.getBlock rawX y rawZ = .ok ⟨-1, none⟩ := by
  unfold Chunk.getBlock
  unfold InChunk at h
  rw [if_pos (by omega)]

/-- The one layer above the chunk that the bound check lets through. -/
lemma Chunk.getBlock_top (c : Chunk) {rawX rawZ : ℤ} (hx : 0 ≤ rawX ∧ rawX ≤ 15)
    (hz : 0 ≤ rawZ ∧ rawZ ≤ 15) :
    c.getBlock rawX 256 rawZ = .error (.undefined .blocksSubscript) := by
  obtain ⟨i, -, k, rfl, -, rfl⟩ := InChunk.fin ⟨hx, ⟨le_rfl, by norm_num⟩, hz⟩
  unfold Chunk.getBlock
  rw [if_neg (by omega), subscript_natCast i.isLt, ok_bind, subscript_natCast k.isLt, ok_bind,
    @subscript_eq_error .blocksSubscript 256 256 (Or.inr (by norm_num)), error_bind]

/-! ## Loaded chunks -/

/-- Every nonnegative cell is an index into the palette. -/
def SubChunk.InPalette (s : SubChunk) : Prop :=
  ∀ q, 0 ≤ s.cells q → s.cells q < s.palette.length

lemma SubChunk.InPalette.append {s : SubChunk} (hs : s.InPalette) (tags : List NBTTag) :
    SubChunk.InPalette ⟨s.cells, s.palette ++ tags⟩ := by
  intro q hq
  have := hs q hq
  simp only [List.length_append]
  omega

lemma SubChunk.InPalette.load {s : SubChunk} (hs : s.InPalette) {i : ℕ} {storage : Storage}
    (hstorage : storage.WellRead i) : (s.load storage).InPalette := by
  intro q hq
  have hpalette := hstorage.palette
  unfold SubChunk.load at hq ⊢
  simp only [List.length_append] at hq ⊢
  rcases ringFill_mem s.cells 0 storage.states q with hold | hnew
  · rw [hold] at hq ⊢
    have := hs q hq
    omega
  · rcases hstorage.states _ hnew with hclip | ⟨-, hlt⟩
    · omega
    · omega

lemma SubChunk.InPalette.loadAll_storages {s : SubChunk} (hs : s.InPalette) (fuel : ℕ) (e : Entry) :
    (s.loadAll (e.storages fuel)).InPalette := by
  cases hread : readValue fuel e.value with
  | error err =>
    rw [Entry.storages, hread]
    exact hs
  | ok r =>
    obtain ⟨ok, storages⟩ := r
    rw [Entry.storages, hread]
    rcases storages_cases fuel e.value hread with rfl | ⟨t, rest, next, rfl, -, hwell, hrest⟩
    · exact hs
    · change ((s.load t).loadAll rest).InPalette
      rw [SubChunk.loadAll_stateless _ hrest]
      exact (hs.load hwell).append _

lemma SubChunk.InPalette.loadAll_entries {s : SubChunk} (hs : s.InPalette) (fuel : ℕ)
    (es : List Entry) : (s.loadAll (es.flatMap fun e => e.storages fuel)).InPalette := by
  induction es generalizing s with
  | nil => exact hs
  | cons e es ih =>
    rw [List.flatMap_cons, SubChunk.loadAll, List.foldl_append]
    exact ih (hs.loadAll_storages fuel e)

lemma Loads.inPalette {fuel : ℕ} {seen : List Entry} {ok : Bool} {st : LoaderState}
    (hrun : Loads fuel seen ok st) {d : ChunkDimension} {x z : ℤ} {c : Chunk}
    (hc : st.at? d x z = some c) (y : Fin 16) : (c.subChunk y).InPalette := by
  have hempty : SubChunk.empty.InPalette := fun q hq => absurd hq (by simp [SubChunk.empty])
  rw [hrun.subChunk_eq hc]
  exact hempty.loadAll_entries fuel _

/-- The loader leaves every state inside its palette. -/
theorem Loads.statesInPalette {fuel : ℕ} {seen : List Entry} {ok : Bool} {st : LoaderState}
    (hrun : Loads fuel seen ok st) {d : ChunkDimension} {x z : ℤ} {c : Chunk}
    (hc : st.at? d x z = some c) : c.StatesInPalette := by
  intro i j k hpos
  rw [Chunk.cell_eq_subChunk] at hpos ⊢
  exact hrun.inPalette hc _ _ hpos

/-! ## Lookups at every coordinate -/

/-- A lookup is defined, -1 outside the chunk and the stored state inside, exactly off the
layer `y = 256`. -/
theorem chunk_get_block_total {c : Chunk} (hc : c.StatesInPalette) (rawX y rawZ : ℤ) :
    (∃ b, c.getBlock rawX y rawZ = .ok b ∧ (¬InChunk rawX y rawZ → b.state = -1) ∧
      ∀ (i : Fin 16) (j : Fin 256) (k : Fin 16), rawX = (i : ℕ) → y = (j : ℕ) → rawZ = (k : ℕ) →
        b.state = c.cell i j k) ↔
      ¬((0 ≤ rawX ∧ rawX ≤ 15) ∧ (0 ≤ rawZ ∧ rawZ ≤ 15) ∧ y = 256) := by
  constructor
  · rintro ⟨b, hb, -⟩ ⟨hx, hz, rfl⟩
    rw [c.getBlock_top hx hz] at hb
    exact absurd hb (by simp)
  · intro htop
    by_cases hin : InChunk rawX y rawZ
    · obtain ⟨i, j, k, rfl, rfl, rfl⟩ := hin.fin
      refine ⟨_, Chunk.getBlock_cell hc i j k, fun hout => absurd hin hout, ?_⟩
      intro i' j' k' hi hj hk
      rw [Fin.ext (Nat.cast_inj.mp hi), Fin.ext (Nat.cast_inj.mp hj), Fin.ext (Nat.cast_inj.mp hk)]
    · refine ⟨_, c.getBlock_outside hin htop, fun _ => rfl, ?_⟩
      rintro i j k rfl rfl rfl
      exact absurd ⟨⟨by omega, by omega⟩, ⟨by omega, by omega⟩, by omega, by omega⟩ hin

lemma Chunk.new_statesInPalette (cx cz : ℤ) : (Chunk.new cx cz).StatesInPalette := by
  intro x y z h
  rw [Chunk.cell_new] at h
  exact absurd h (by norm_num)

lemma Chunk.oneBlock_statesInPalette (cx cz : ℤ) (tag : NBTTag) (i : Fin 16) (j : Fin 256)
    (k : Fin 16) : (((Chunk.new cx cz).pushState (subOf j) tag).setCell 0 i j k).StatesInPalette := by
  intro x y z h
  rw [Chunk.cell_setCell] at h ⊢
  by_cases hcell : x = i ∧ y = j ∧ z = k
  · obtain ⟨rfl, rfl, rfl⟩ := hcell
    rw [if_pos ⟨rfl, rfl, rfl⟩, Chunk.palette_setCell, Chunk.palette_pushState, if_pos rfl,
      Chunk.palette_new]
    exact Int.one_pos
  · rw [if_neg hcell, Chunk.cell_pushState, Chunk.cell_new] at h
    exact absurd h (by norm_num)

/-- A block in the highest layer. -/
theorem chunk_get_block_total_top :
    ∃ b, (((Chunk.new 3 (-2)).pushState 15 NBTTag.new).setCell 0 15 255 0).getBlock 15 255 0 =
        .ok b ∧ b.state = 0 := by
  have hstates := Chunk.oneBlock_statesInPalette 3 (-2) NBTTag.new 15 255 0
  obtain ⟨b, hb, -, hcell⟩ := (chunk_get_block_total hstates 15 255 0).mpr (by decide)
  refine ⟨b, hb, ?_⟩
  rw [hcell 15 255 0 rfl rfl rfl, Chunk.cell_setCell, if_pos ⟨rfl, rfl, rfl⟩]

/-- A new chunk one layer above. -/
theorem chunk_get_block_above_top :
    (Chunk.new 3 (-2)).StatesInPalette ∧
      (Chunk.new 3 (-2)).getBlock 15 256 0 = .error (.undefined .blocksSubscript) :=
  ⟨Chunk.new_statesInPalette 3 (-2),
    Chunk.getBlock_top _ ⟨by norm_num, by norm_num⟩ ⟨by norm_num, by norm_num⟩⟩

end ChunkViewer
