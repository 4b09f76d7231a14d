import ChunkViewer.Proofs.WorldRefines
import ChunkViewer.Spec.WorldOps

/-!
# Looking up what was placed

A world always holds what its history says: in each chunk the last state stored in each
cell and the palettes in the order they were appended. A block is found by the chunk that
covers its position, of which there is at most one.
-/

namespace ChunkViewer

open ExceptRun

/-! ## One call -/

lemma subscript_eq_ok {what : Undefined} {size : ℕ} {n : ℤ} {q : Fin size}
    (h : subscript what size n = .ok q) : n = (q : ℕ) := by
  unfold subscript at h
  by_cases hn : 0 ≤ n ∧ n < size
  · rw [dif_pos hn] at h
    rw [← Except.ok.inj h]
    simp only
    omega
  · rw [dif_neg hn] at h
    exact absurd h (by simp)

lemma Chunk.addBlock_eq_ok {c c' : Chunk} {state rawX y rawZ : ℤ}
    (h : c.addBlock state rawX y rawZ = .ok c') :
    ∃ (i : Fin 16) (j : Fin 256) (k : Fin 16), rawX = (i : ℕ) ∧ y = (j : ℕ) ∧ rawZ = (k : ℕ) ∧
      c' = c.setCell state i j k := by
  unfold Chunk.addBlock at h
  obtain ⟨i, hi, h1⟩ := bind_eq_ok.mp h
  obtain ⟨k, hk, h2⟩ := bind_eq_ok.mp h1
  obtain ⟨j, hj, h3⟩ := bind_eq_ok.mp h2
  exact ⟨i, j, k, subscript_eq_ok hi, subscript_eq_ok hj, subscript_eq_ok hk, (Except.ok.inj h3).symm⟩

lemma Chunk.addBlockState_eq_ok {c c' : Chunk} {y : ℤ} {tag : NBTTag}
    (h : c.addBlockState y tag = .ok c') : ∃ j : Fin 16, y = (j : ℕ) ∧ c' = c.pushState j tag := by
  unfold Chunk.addBlockState at h
  obtain ⟨j, hj, h1⟩ := bind_eq_ok.mp h
  exact ⟨j, subscript_eq_ok hj, (Except.ok.inj h1).symm⟩

/-! ## The history of a world -/

/-- The chunk at a site, a new one if there is none. -/
def LoaderState.chunkAt (st : LoaderState) (site : Site) : Chunk :=
  (st.at? site.dimension site.chunkX site.chunkZ).getD (Chunk.new site.chunkX site.chunkZ)

/-- The state holds what the history says. -/
structure Records (ops : List WorldOp) (st : LoaderState) : Prop where
  store : st.StoreInv
  cells : ∀ (site : Site) (x : Fin 16) (y : Fin 256) (z : Fin 16),
    (st.chunkAt site).cell x y z = lastState ops site (x : ℕ) (y : ℕ) (z : ℕ)
  palettes : ∀ (site : Site) (y : Fin 16), (st.chunkAt site).palette y = tagsAt ops site (y : ℕ)

lemma Records.start : Records [] LoaderState.init := by
  have hnone : ∀ site : Site,
      LoaderState.init.at? site.dimension site.chunkX site.chunkZ = none := by
    intro site
    rw [LoaderState.at?, LoaderState.findChunk_init]
    rfl
  refine ⟨LoaderState.StoreInv.init, ?_, ?_⟩
  · intro site x y z
    rw [LoaderState.chunkAt, hnone, Option.getD_none, Chunk.cell_new]
    rfl
  · intro site y
    rw [LoaderState.chunkAt, hnone, Option.getD_none, Chunk.palette_new]
    rfl

lemma Records.create {ops : List WorldOp} {st : LoaderState} (hst : Records ops st) {site : Site}
    (hfree : st.world.findChunk (chunkID site.chunkX site.chunkZ) site.dimension = none) :
    Records (ops ++ [.create site]) (st.newChunk site.chunkX site.chunkZ site.dimension) := by
  have hnone : st.at? site.dimension site.chunkX site.chunkZ = none := by
    rw [LoaderState.at?, hfree]
    rfl
  -- A new chunk holds what a missing one stands for.
  have hsame : ∀ site' : Site,
      (st.newChunk site.chunkX site.chunkZ site.dimension).chunkAt site' = st.chunkAt site' := by
    intro site'
    unfold LoaderState.chunkAt
    rw [hst.store.at?_newChunk]
    split
    · next h =>
      obtain ⟨hd, hx, hz⟩ := h
      rw [hd, hx, hz, hnone]
      rfl
    · rfl
  refine ⟨hst.store.newChunk hfree, ?_, ?_⟩
  · intro site' x y z
    rw [hsame, hst.cells, lastState_append]
    rfl
  · intro site' y
    rw [hsame, hst.palettes, tagsAt_append]
    exact (List.append_nil _).symm

section

variable {ops : List WorldOp} {st : LoaderState} {site : Site} {p : ChunkPointer} {c : Chunk}

lemma chunkAt_of_find (hp : st.world.findChunk (chunkID site.chunkX site.chunkZ) site.dimension = some p)
    (hc : st.heap[p]? = some c) : st.chunkAt site = c := by
  rw [LoaderState.chunkAt, LoaderState.at?, hp, Option.bind_some, hc, Option.getD_some]

lemma chunkAt_write (hst : st.StoreInv)
    (hp : st.world.findChunk (chunkID site.chunkX site.chunkZ) site.dimension = some p)
    (hc : st.heap[p]? = some c) (c' : Chunk) (site' : Site) :
    (st.write p c').chunkAt site' = if site = site' then c' else st.chunkAt site' := by
  unfold LoaderState.chunkAt
  rw [hst.at?_write hp hc]
  by_cases h : site = site'
  · subst h
    rw [if_pos ⟨rfl, rfl, rfl⟩, if_pos rfl, Option.getD_some]
  · have hne : ¬(site'.dimension = site.dimension ∧ site'.chunkX = site.chunkX ∧
        site'.chunkZ = site.chunkZ) := by
      rintro ⟨h1, h2, h3⟩
      exact h (by cases site; cases site'; simp_all)
    rw [if_neg hne, if_neg h]

lemma Records.addBlock (hst : Records ops st)
    (hp : st.world.findChunk (chunkID site.chunkX site.chunkZ) site.dimension = some p)
    (hc : st.heap[p]? = some c) (state : ℤ) (i : Fin 16) (j : Fin 256) (k : Fin 16) :
    Records (ops ++ [.addBlock site state (i : ℕ) (j : ℕ) (k : ℕ)])
      (st.write p (c.setCell state i j k)) := by
  have hold := chunkAt_of_find hp hc
  refine ⟨hst.store.write hc ⟨rfl, rfl⟩, ?_, ?_⟩
  · intro site' x y z
    rw [chunkAt_write hst.store hp hc, lastState_append, WorldOp.record, ← hst.cells]
    by_cases hsite : site = site'
    · subst hsite
      rw [if_pos rfl, Chunk.cell_setCell, hold]
      simp only [true_and, Nat.cast_inj, Fin.val_inj, eq_comm]
    · rw [if_neg hsite, if_neg (fun h => hsite h.1)]
  · intro site' y
    rw [chunkAt_write hst.store hp hc, tagsAt_append, WorldOp.tag?, Option.toList_none,
      List.append_nil, ← hst.palettes]
    by_cases hsite : site = site'
    · subst hsite
      rw [if_pos rfl, Chunk.palette_setCell, hold]
    · rw [if_neg hsite]

lemma Records.addBlockState (hst : Records ops st)
    (hp : st.world.findChunk (chunkID site.chunkX site.chunkZ) site.dimension = some p)
    (hc : st.heap[p]? = some c) (j : Fin 16) (tag : NBTTag) :
    Records (ops ++ [.addBlockState site (j : ℕ) tag]) (st.write p (c.pushState j tag)) := by
  have hold := chunkAt_of_find hp hc
  refine ⟨hst.store.write hc ⟨rfl, rfl⟩, ?_, ?_⟩
  · intro site' x y z
    rw [chunkAt_write hst.store hp hc, lastState_append, WorldOp.record, ← hst.cells]
    by_cases hsite : site = site'
    · subst hsite
      rw [if_pos rfl, Chunk.cell_pushState, hold]
    · rw [if_neg hsite]
  · intro site' y
    rw [chunkAt_write hst.store hp hc, tagsAt_append, WorldOp.tag?, ← hst.palettes]
    by_cases hsite : site = site'
    · subst hsite
      rw [if_pos rfl, Chunk.palette_pushState, hold]
      by_cases hy : y = j
      · subst hy
        rw [if_pos rfl, if_pos ⟨rfl, rfl⟩, Option.toList_some]
      · rw [if_neg hy, if_neg (fun h => hy (Fin.ext (Nat.cast_inj.mp h.2).symm)), Option.toList_none,
          List.append_nil]
    · rw [if_neg hsite, if_neg (fun h => hsite h.1), Option.toList_none, List.append_nil]

end

/-- Every world holds what its history says. -/
theorem Built.records {ops : List WorldOp} {st : LoaderState} (h : Built ops st) : Records ops st := by
  induction h with
  | start => exact Records.start
  | create site _ _ _ _ _ hfree ih => exact ih.create hfree
  | addBlock site _ hp hc _ _ _ hadd ih =>
    obtain ⟨i, j, k, rfl, rfl, rfl, rfl⟩ := Chunk.addBlock_eq_ok hadd
    exact ih.addBlock hp (LoaderState.deref_eq_ok.mp hc) _ i j k
  | addBlockState site _ hp hc hadd ih =>
    obtain ⟨j, rfl, rfl⟩ := Chunk.addBlockState_eq_ok hadd
    exact ih.addBlockState hp (LoaderState.deref_eq_ok.mp hc) j _

/-! ## Lookups -/

/-- The blocks of a chunk reach over 16 columns in each direction. -/
def Chunk.Covers (c : Chunk) (x z : ℤ) : Prop :=
  (16 * c.x ≤ x ∧ x ≤ 16 * c.x + 15) ∧ 16 * c.z ≤ z ∧ z ≤ 16 * c.z + 15

lemma Chunk.covers_iff (c : Chunk) (x z : ℤ) :
    c.Covers x z ↔ chunkCoordinate x = c.x ∧ chunkCoordinate z = c.z := by
  unfold Chunk.Covers
  rw [chunkCoordinate_eq, chunkCoordinate_eq]
  omega

lemma blockOf_neg {state : ℤ} (h : state < 0) (palette : List NBTTag) :
    blockOf state palette = .ok ⟨state, none⟩ := by
  unfold blockOf
  rw [if_neg (by omega)]

lemma blockOf_tag {state : ℤ} {palette : List NBTTag} {tag : NBTTag} (h : 0 ≤ state)
    (htag : palette[state.toNat]? = some tag) : blockOf state palette = .ok ⟨state, some tag⟩ := by
  obtain ⟨hlt, hget⟩ := List.getElem?_eq_some_iff.mp htag
  have hindex : subscript .blockStatesSubscript palette.length state = .ok ⟨state.toNat, hlt⟩ := by
    conv_lhs => rw [← Int.toNat_of_nonneg h]
    exact subscript_natCast hlt
  unfold blockOf
  rw [if_pos h, hindex, ok_bind, ← hget]
  rfl

lemma blockOf_outside {state : ℤ} {palette : List NBTTag} (h : 0 ≤ state)
    (hlen : palette.length ≤ state) :
    blockOf state palette = .error (.undefined .blockStatesSubscript) := by
  unfold blockOf
  rw [if_pos h, subscript_eq_error (Or.inr hlen), error_bind]

lemma Records.getBlock_covered {ops : List WorldOp} {st : LoaderState} (hst : Records ops st)
    {id : String} {d : ChunkDimension} {p : ChunkPointer} {c : Chunk}
    (hp : st.world.findChunk id d = some p) (hc : st.heap[p]? = some c) {x y z : ℤ}
    (hx : -2147483648 ≤ x ∧ x ≤ 2147483647) (hz : -2147483648 ≤ z ∧ z ≤ 2147483647)
    (hy : 0 ≤ y ∧ y ≤ 255) (hcov : c.Covers x z) :
    st.getBlock x y z d =
      blockOf (lastState ops ⟨d, c.x, c.z⟩ (x - 16 * c.x) y (z - 16 * c.z))
        (tagsAt ops ⟨d, c.x, c.z⟩ (y / 16)) := by
  obtain ⟨hcx, hcz⟩ := (c.covers_iff x z).mp hcov
  obtain ⟨⟨hx1, hx2⟩, hz1, hz2⟩ := hcov
  obtain ⟨j, rfl⟩ : ∃ j : Fin 256, y = (j : ℕ) := ⟨⟨y.toNat, by omega⟩, by simp only; omega⟩
  have hid : id = chunkID c.x c.z := by
    obtain ⟨c', hc', hid⟩ := hst.store.owned id d p hp
    rw [hc] at hc'
    rw [hid, Option.some.inj hc']
  subst hid
  have hchunk := @chunkAt_of_find st ⟨d, c.x, c.z⟩ p c hp hc
  have hcell := hst.cells ⟨d, c.x, c.z⟩ (column x) j (column z)
  have hpalette := hst.palettes ⟨d, c.x, c.z⟩ (subOf j)
  have hrx : x - 16 * c.x = ((column x : ℕ) : ℤ) := by
    simp only [column]
    omega
  have hrz : z - 16 * c.z = ((column z : ℕ) : ℤ) := by
    simp only [column]
    omega
  have hsub : ((j : ℕ) : ℤ) / 16 = ((subOf j : ℕ) : ℤ) := by
    simp only [subOf]
    omega
  rw [LoaderState.getBlock_eq hst.store, rawCoordinate_int hx.1 hx.2, ok_bind, rawCoordinate_int hz.1 hz.2,
    ok_bind, hcx, hcz, LoaderState.view, LoaderState.at?, hp, Option.bind_some, hc, hrx, hrz, hsub,
    ← hcell, ← hpalette, hchunk, Chunk.cell_eq_subChunk]
  rfl

lemma Records.getBlock_uncovered {ops : List WorldOp} {st : LoaderState} (hst : Records ops st)
    {d : ChunkDimension} {x y z : ℤ} (hx : -2147483648 ≤ x ∧ x ≤ 2147483647)
    (hz : -2147483648 ≤ z ∧ z ≤ 2147483647) (hy : 0 ≤ y ∧ y ≤ 255)
    (hnone : ∀ id p c, st.world.findChunk id d = some p → st.heap[p]? = some c → ¬c.Covers x z) :
    st.getBlock x y z d = .ok ⟨-1, none⟩ := by
  obtain ⟨j, rfl⟩ : ∃ j : Fin 256, y = (j : ℕ) := ⟨⟨y.toNat, by omega⟩, by simp only; omega⟩
  rw [LoaderState.getBlock_eq hst.store, rawCoordinate_int hx.1 hx.2, ok_bind,
    rawCoordinate_int hz.1 hz.2, ok_bind, LoaderState.view]
  rcases hst.store.at?_eq d (chunkCoordinate x) (chunkCoordinate z) with ⟨-, hat⟩ | ⟨p, c, hp, hc, -⟩
  · rw [hat]
    rfl
  · exfalso
    obtain ⟨c', hc', hid⟩ := hst.store.owned _ _ _ hp
    rw [hc] at hc'
    obtain rfl := Option.some.inj hc'
    exact hnone _ p c hp hc ((c.covers_iff x z).mpr (chunkID_inj.mp hid))

/-- Block lookup finds what was placed last. -/
theorem get_block_finds_last {ops : List WorldOp} {st : LoaderState} (hbuilt : Built ops st)
    (d : ChunkDimension) {x y z : ℤ} (hx : -2147483648 ≤ x ∧ x ≤ 2147483647)
    (hz : -2147483648 ≤ z ∧ z ≤ 2147483647) (hy : 0 ≤ y ∧ y ≤ 255) :
    ((∀ id p c, st.world.findChunk id d = some p → st.heap[p]? = some c → ¬c.Covers x z) →
      st.getBlock x y z d = .ok ⟨-1, none⟩) ∧
    ∀ id p c, st.world.findChunk id d = some p → st.heap[p]? = some c → c.Covers x z →
      (∀ id' p' c', st.world.findChunk id' d = some p' → st.heap[p']? = some c' →
        c'.Covers x z → p' = p) ∧
      (rawCoordinate x (chunkCoordinate x) = .ok (x - 16 * c.x) ∧ 0 ≤ x - 16 * c.x ∧
        x - 16 * c.x ≤ 15) ∧
      (rawCoordinate z (chunkCoordinate z) = .ok (z - 16 * c.z) ∧ 0 ≤ z - 16 * c.z ∧
        z - 16 * c.z ≤ 15) ∧
      (lastState ops ⟨d, c.x, c.z⟩ (x - 16 * c.x) y (z - 16 * c.z) < 0 →
        st.getBlock x y z d =
          .ok ⟨lastState ops ⟨d, c.x, c.z⟩ (x - 16 * c.x) y (z - 16 * c.z), none⟩) ∧
      (∀ tag, 0 ≤ lastState ops ⟨d, c.x, c.z⟩ (x - 16 * c.x) y (z - 16 * c.z) →
        (tagsAt ops ⟨d, c.x, c.z⟩ (y / 16))[(lastState ops ⟨d, c.x, c.z⟩ (x - 16 * c.x) y
          (z - 16 * c.z)).toNat]? = some tag →
        st.getBlock x y z d =
          .ok ⟨lastState ops ⟨d, c.x, c.z⟩ (x - 16 * c.x) y (z - 16 * c.z), some tag⟩) ∧
      (0 ≤ lastState ops ⟨d, c.x, c.z⟩ (x - 16 * c.x) y (z - 16 * c.z) →
        (tagsAt ops ⟨d, c.x, c.z⟩ (y / 16)).length ≤
          lastState ops ⟨d, c.x, c.z⟩ (x - 16 * c.x) y (z - 16 * c.z) →
        st.getBlock x y z d = .error (.undefined .blockStatesSubscript)) := by
  have hst := hbuilt.records
  refine ⟨hst.getBlock_uncovered hx hz hy, ?_⟩
  intro id p c hp hc hcov
  have hblock := hst.getBlock_covered hp hc hx hz hy hcov
  obtain ⟨hcx, hcz⟩ := (c.covers_iff x z).mp hcov
  obtain ⟨⟨hx1, hx2⟩, hz1, hz2⟩ := hcov
  rw [rawCoordinate_int hx.1 hx.2, rawCoordinate_int hz.1 hz.2, hblock]
  refine ⟨?_, ⟨by congr 1; omega, by omega, by omega⟩, ⟨by congr 1; omega, by omega, by omega⟩,
    fun hneg => blockOf_neg hneg _, fun tag hpos htag => blockOf_tag hpos htag,
    fun hpos hlen => blockOf_outside hpos hlen⟩
  intro id' p' c' hp' hc' hcov'
  obtain ⟨hcx', hcz'⟩ := (c'.covers_iff x z).mp hcov'
  obtain ⟨c₁, hc₁, hid⟩ := hst.store.owned _ _ _ hp
  obtain ⟨c₂, hc₂, hid'⟩ := hst.store.owned _ _ _ hp'
  rw [hc] at hc₁
  rw [hc'] at hc₂
  obtain rfl := Option.some.inj hc₁
  obtain rfl := Option.some.inj hc₂
  rw [hid', ← hcx', ← hcz', hcx, hcz, ← hid, hp] at hp'
  exact (Option.some.inj hp').symm

/-! ## A small world -/

/-- One Nether chunk at `(-1, 0)`, with one palette entry if `tagged`, and its state 0 at
`(15, 7, 0)`. -/
def smallOps (tagged : Bool) : List WorldOp :=
  [.create ⟨.NETHER, -1, 0⟩] ++
    (if tagged then [.addBlockState ⟨.NETHER, -1, 0⟩ 0 NBTTag.new] else []) ++
    [.addBlock ⟨.NETHER, -1, 0⟩ 0 15 7 0]

lemma built_smallOps (tagged : Bool) :
    ∃ st c, Built (smallOps tagged) st ∧ st.world.findChunk (chunkID (-1) 0) .NETHER = some 0 ∧
      st.heap[0]? = some c ∧ c.x = -1 ∧ c.z = 0 := by
  have hcreate := Built.create ⟨.NETHER, -1, 0⟩ Built.start (by decide) (by decide) (by decide)
    (by decide) (LoaderState.findChunk_init _ _)
  have hfind : (LoaderState.init.newChunk (-1) 0 .NETHER).world.findChunk (chunkID (-1) 0) .NETHER =
      some 0 := by
    rw [findChunk_newChunk, if_pos ⟨rfl, rfl⟩]
    rfl
  cases tagged with
  | false =>
    exact ⟨_, _, Built.addBlock _ hcreate hfind rfl (by decide) (by decide) (by decide)
      (Chunk.addBlock_eq _ 0 15 7 0), hfind, rfl, rfl, rfl⟩
  | true =>
    have htag := Built.addBlockState ⟨.NETHER, -1, 0⟩ hcreate hfind rfl
      (Chunk.addBlockState_eq _ 0 NBTTag.new)
    exact ⟨_, _, Built.addBlock _ htag hfind rfl (by decide) (by decide) (by decide)
      (Chunk.addBlock_eq _ 0 15 7 0), hfind, rfl, rfl, rfl⟩

theorem get_block_finds_last_smallOps :
    ∃ st, Built (smallOps true) st ∧ st.getBlock (-1) 7 0 .NETHER = .ok ⟨0, some NBTTag.new⟩ := by
  obtain ⟨st, c, hbuilt, hp, hc, hx, hz⟩ := built_smallOps true
  have hcov : c.Covers (-1) 0 := by
    unfold Chunk.Covers
    rw [hx, hz]
    decide
  obtain ⟨-, hfound⟩ := get_block_finds_last (x := -1) (y := 7) (z := 0) hbuilt .NETHER (by decide)
    (by decide) (by decide)
  obtain ⟨-, -, -, -, htag, -⟩ := hfound _ 0 c hp hc hcov
  rw [hx, hz] at htag
  exact ⟨st, hbuilt, htag NBTTag.new (by decide) rfl⟩

/-- A state stored without a palette cannot be looked up. -/
theorem get_block_without_palette :
    ¬∀ (ops : List WorldOp) (st : LoaderState) (d : ChunkDimension) (x y z : ℤ) (id : String)
      (p : ChunkPointer) (c : Chunk), Built ops st →
      (∀ site y tag, .addBlockState site y tag ∉ ops) →
      -2147483648 ≤ x ∧ x ≤ 2147483647 → -2147483648 ≤ z ∧ z ≤ 2147483647 → 0 ≤ y ∧ y ≤ 255 →
      st.world.findChunk id d = some p → st.heap[p]? = some c → c.Covers x z →
      ∃ b, st.getBlock x y z d = .ok b ∧
        b.state = lastState ops ⟨d, c.x, c.z⟩ (x - 16 * c.x) y (z - 16 * c.z) := by
  intro hclaim
  obtain ⟨st, c, hbuilt, hp, hc, hx, hz⟩ := built_smallOps false
  have hcov : c.Covers (-1) 0 := by
    unfold Chunk.Covers
    rw [hx, hz]
    decide
  obtain ⟨b, hb, -⟩ := hclaim _ st .NETHER (-1) 7 0 _ 0 c hbuilt (by simp [smallOps]) (by decide)
    (by decide) (by decide) hp hc hcov
  rw [hbuilt.records.getBlock_covered hp hc (by decide) (by decide) (by decide) hcov, hx, hz,
    blockOf_outside (by decide) (by decide)] at hb
  exact absurd hb (by simp)

end ChunkViewer
