import ChunkViewer.Model.Commands
import ChunkViewer.Proofs.BlockLookup
import ChunkViewer.Proofs.DrawSlice

/-!
# Where a block is

`what` finds a block from its world coordinates, `graph` through the chunk and its own
coordinates. Both read the same cell.
-/

namespace ChunkViewer

open ExceptRun

lemma LoaderState.getBlockChunk_eq (st : LoaderState) {x z : ℤ}
    (hx : -2147483648 ≤ x ∧ x ≤ 2147483647) (hz : -2147483648 ≤ z ∧ z ≤ 2147483647)
    (d : ChunkDimension) :
    st.getBlockChunk x z d =
      .ok (st.world.findChunk (chunkID (chunkCoordinate x) (chunkCoordinate z)) d) := by
  unfold LoaderState.getBlockChunk
  dsimp only
  rw [rawCoordinate_int hx.1 hx.2, ok_bind, rawCoordinate_int hz.1 hz.2, ok_bind]

lemma LoaderState.StoreInv.covers_of_find {st : LoaderState} (hst : st.StoreInv) {x z : ℤ}
    {d : ChunkDimension} {p : ChunkPointer} {c : Chunk}
    (hp : st.world.findChunk (chunkID (chunkCoordinate x) (chunkCoordinate z)) d = some p)
    (hc : st.heap[p]? = some c) : c.Covers x z := by
  obtain ⟨c', hc', hid⟩ := hst.owned _ _ _ hp
  rw [hc] at hc'
  obtain rfl := Option.some.inj hc'
  exact (c.covers_iff x z).mpr (chunkID_inj.mp hid)

lemma LoaderState.StoreInv.find_eq_none_iff {st : LoaderState} (hst : st.StoreInv) {x z : ℤ}
    {d : ChunkDimension} :
    st.world.findChunk (chunkID (chunkCoordinate x) (chunkCoordinate z)) d = none ↔
      ∀ id p c, st.world.findChunk id d = some p → st.heap[p]? = some c → ¬c.Covers x z := by
  constructor
  · intro hnone id p c hp hc hcov
    obtain ⟨c', hc', hid⟩ := hst.owned _ _ _ hp
    rw [hc] at hc'
    obtain rfl := Option.some.inj hc'
    obtain ⟨hcx, hcz⟩ := (c.covers_iff x z).mp hcov
    rw [hcx, hcz, ← hid, hp] at hnone
    exact absurd hnone (by simp)
  · intro hall
    cases hp : st.world.findChunk (chunkID (chunkCoordinate x) (chunkCoordinate z)) d with
    | none => rfl
    | some p =>
      obtain ⟨c, hc, -⟩ := hst.owned _ _ _ hp
      exact absurd (hst.covers_of_find hp hc) (hall _ p c hp hc)

lemma sliceColumns_place {facing : String} (hfacing : facing ∈ ["n", "s", "e", "w"])
    {rawX rawZ : ℤ} (hX : 0 ≤ rawX ∧ rawX ≤ 15) (hZ : 0 ≤ rawZ ∧ rawZ ≤ 15) :
    ∃ k : Fin 16, ∀ index < 16,
      (sliceX facing rawX index = rawX ∧ sliceZ facing rawZ index = rawZ) ↔ index = (k : ℕ) := by
  simp only [List.mem_cons, List.not_mem_nil, or_false] at hfacing
  unfold sliceX sliceZ
  rcases hfacing with rfl | rfl | rfl | rfl
  · refine ⟨⟨rawX.toNat, by omega⟩, fun index hindex => ?_⟩
    simp
    omega
  · refine ⟨⟨(15 - rawX).toNat, by omega⟩, fun index hindex => ?_⟩
    simp
    omega
  · refine ⟨⟨rawZ.toNat, by omega⟩, fun index hindex => ?_⟩
    simp
    omega
  · refine ⟨⟨(15 - rawZ).toNat, by omega⟩, fun index hindex => ?_⟩
    simp
    omega

lemma range_filter_eq (k : Fin 16) : (List.range 16).filter (fun index => index = (k : ℕ)) = [(k : ℕ)] := by
  revert k
  decide

lemma sliceColumns_target {facing : String} (hfacing : facing ∈ ["n", "s", "e", "w"])
    {rawX rawZ : ℤ} (hX : 0 ≤ rawX ∧ rawX ≤ 15) (hZ : 0 ≤ rawZ ∧ rawZ ≤ 15) :
    ∃ column, (sliceColumns facing rawX rawZ).filter
      (fun column => column.rawX = rawX ∧ column.rawZ = rawZ) = [column] := by
  obtain ⟨k, hk⟩ := sliceColumns_place hfacing hX hZ
  refine ⟨⟨k, sliceX facing rawX k, sliceZ facing rawZ k⟩, ?_⟩
  have hplace : ∀ index ∈ List.range 16,
      decide (sliceX facing rawX index = rawX ∧ sliceZ facing rawZ index = rawZ) =
        decide (index = (k : ℕ)) := by
    intro index hindex
    rw [decide_eq_decide]
    exact hk index (List.mem_range.mp hindex)
  rw [sliceColumns_eq hfacing, List.filter_map]
  unfold Function.comp
  rw [List.filter_congr hplace, range_filter_eq, List.map_singleton]

lemma Environment.defaults_window (env : Environment) {y : ℤ} (hy : 0 ≤ y ∧ y ≤ 255) :
    (env.defaults y).yMin ≤ y ∧ y < (env.defaults y).yMax ∧
      (env.defaults y).yMax = (env.defaults y).yMin + 16 := by
  have hfloor : ⌊(y : ℚ) / 16⌋ = y / 16 := by
    have h := chunkCoordinate_eq y
    exact h
  unfold Environment.defaults Environment.int
  dsimp only
  rw [hfloor, if_pos (by omega)]
  omega

lemma drawBlock_reads (order : IterationOrder) (stat : String → Bool) {c : Chunk}
    {column : SliceColumn} {y : ℤ} {b : Exec Block}
    (hread : c.getBlock column.rawX y column.rawZ = b) :
    drawBlock order stat c column y = (do
      let currBlock ← Traced.lift (orStop b)
      let name ← drawHeader order stat currBlock
      if name ≠ "air" then Traced.emits (putsPoint column.index y) else pure ()) := by
  rw [← hread]
  rfl

/-- `what` and `graph` agree on where a block is: there is a chunk for one exactly if there is
for the other, and the drawing visits the cell that `getBlock` reads, inside its window. -/
theorem what_graph_agree {ops : List WorldOp} {st : LoaderState} (hbuilt : Built ops st)
    (d : ChunkDimension) {x y z : ℤ} (hx : -2147483648 ≤ x ∧ x ≤ 2147483647)
    (hz : -2147483648 ≤ z ∧ z ≤ 2147483647) (hy : 0 ≤ y ∧ y ≤ 255) {facing : String}
    (hfacing : facing ∈ ["n", "s", "e", "w"]) (env : Environment) :
    (st.getBlockChunk x z d = .ok none ↔
      ∀ id p c, st.world.findChunk id d = some p → st.heap[p]? = some c → ¬c.Covers x z) ∧
    (st.getBlockChunk x z d = .ok none → st.getBlock x y z d = .ok ⟨-1, none⟩) ∧
    (st.getBlockChunk x z d ≠ .ok none → ∃ p c columns rawX rawZ column,
      st.getBlockChunk x z d = .ok (some p) ∧ st.deref p = .ok c ∧
      c.sliceColumns x z facing = .ok columns ∧
      rawCoordinate x (chunkCoordinate x) = .ok rawX ∧
      rawCoordinate z (chunkCoordinate z) = .ok rawZ ∧
      columns.filter (fun column => column.rawX = rawX ∧ column.rawZ = rawZ) = [column] ∧
      c.getBlock column.rawX y column.rawZ = st.getBlock x y z d ∧
      y ∈ sliceRows (env.defaults y).yMin (env.defaults y).yMax ∧
      ∀ order stat, (∀ yMin yMax, drawSlice order stat c x z facing yMin yMax =
          Traced.forEach columns fun column =>
            Traced.forEach (sliceRows yMin yMax) fun y => drawBlock order stat c column y) ∧
        drawBlock order stat c column y = do
          let currBlock ← Traced.lift (orStop (st.getBlock x y z d))
          let name ← drawHeader order stat currBlock
          if name ≠ "air" then Traced.emits (putsPoint column.index y) else pure ()) ∧
    (env.defaults y).yMin ≤ y ∧ y < (env.defaults y).yMax ∧
      (env.defaults y).yMax = (env.defaults y).yMin + 16 := by
  have hst := hbuilt.records
  rw [st.getBlockChunk_eq hx hz]
  refine ⟨?_, ?_, ?_, env.defaults_window hy⟩
  · rw [Except.ok.injEq]
    exact hst.store.find_eq_none_iff
  · intro hnone
    exact hst.getBlock_uncovered hx hz hy (hst.store.find_eq_none_iff.mp (Except.ok.inj hnone))
  · intro hsome
    cases hp : st.world.findChunk (chunkID (chunkCoordinate x) (chunkCoordinate z)) d with
    | none => exact absurd (by rw [hp]) hsome
    | some p =>
      obtain ⟨c, hc, -⟩ := hst.store.owned _ _ _ hp
      have hcov := hst.store.covers_of_find hp hc
      obtain ⟨hcx, hcz⟩ := (c.covers_iff x z).mp hcov
      obtain ⟨hrawX, hrawZ⟩ := hcov.rawCoordinate hx hz
      obtain ⟨hX, hZ⟩ := hcov.raw
      obtain ⟨column, hcolumn⟩ := sliceColumns_target hfacing hX hZ
      have hderef := LoaderState.deref_eq_ok.mpr hc
      have hcolumns : c.sliceColumns x z facing =
          .ok (sliceColumns facing (x - 16 * c.x) (z - 16 * c.z)) := by
        unfold Chunk.sliceColumns
        rw [hrawX, ok_bind, hrawZ, ok_bind]
      have hread : c.getBlock column.rawX y column.rawZ = st.getBlock x y z d := by
        have hmem : column ∈ [column] := List.mem_singleton_self column
        rw [← hcolumn, List.mem_filter, decide_eq_true_eq] at hmem
        obtain ⟨-, hcolumnX, hcolumnZ⟩ := hmem
        unfold LoaderState.getBlock
        dsimp only
        rw [hp, hcx, hcz, hrawX, ok_bind, hrawZ, ok_bind, hcolumnX, hcolumnZ]
        dsimp only
        rw [hderef, ok_bind]
      have hrow : y ∈ sliceRows (env.defaults y).yMin (env.defaults y).yMax := by
        obtain ⟨hmin, hmax, -⟩ := env.defaults_window hy
        exact mem_sliceRows.mpr ⟨hmin, hmax⟩
      refine ⟨p, c, _, _, _, column, rfl, hderef, hcolumns, by rw [hcx, hrawX], by rw [hcz, hrawZ],
        hcolumn, hread, hrow,
        fun order stat => ⟨fun yMin yMax => ?_, drawBlock_reads order stat hread⟩⟩
      unfold drawSlice
      rw [hcolumns, orStop, Traced.lift_ok_bind]

/-- The block of the small world, drawn facing west. -/
theorem what_graph_agree_smallOps :
    ∃ (st : LoaderState) (c : Chunk) (columns : List SliceColumn) (column : SliceColumn),
      Built (smallOps true) st ∧ c.sliceColumns (-1) 0 "w" = .ok columns ∧
      columns.filter (fun column => column.rawX = 15 ∧ column.rawZ = 0) = [column] ∧
      c.getBlock column.rawX 7 column.rawZ = st.getBlock (-1) 7 0 .NETHER ∧
      drawBlock .insertion (fun _ => true) c column 7 = (do
        let currBlock ← Traced.lift (orStop (st.getBlock (-1) 7 0 .NETHER))
        let name ← drawHeader .insertion (fun _ => true) currBlock
        if name ≠ "air" then Traced.emits (putsPoint column.index 7) else pure ()) := by
  obtain ⟨st, c, hbuilt, hp, -, -, -⟩ := built_smallOps true
  obtain ⟨-, -, hfound, -⟩ := @what_graph_agree _ _ hbuilt .NETHER (-1) 7 0 (by decide) (by decide)
    (by decide) "w" (by decide) ⟨.insertion, fun _ => false, fun _ => true, fun n => n⟩
  have hsome : st.getBlockChunk (-1) 0 .NETHER ≠ .ok none := by
    rw [st.getBlockChunk_eq (by decide) (by decide), chunkCoordinate_eq, chunkCoordinate_eq,
      show (-1 : ℤ) / 16 = -1 from rfl, show (0 : ℤ) / 16 = 0 from rfl, hp]
    simp
  obtain ⟨p, c, columns, rawX, rawZ, column, -, -, hcolumns, hrawX, hrawZ, hcolumn, hblock, -,
    hdraw⟩ := hfound hsome
  rw [chunkCoordinate_eq] at hrawX hrawZ
  obtain rfl := Except.ok.inj hrawX
  obtain rfl := Except.ok.inj hrawZ
  exact ⟨st, c, columns, column, hbuilt, hcolumns, hcolumn, hblock,
    (hdraw .insertion fun _ => true).2⟩

end ChunkViewer
