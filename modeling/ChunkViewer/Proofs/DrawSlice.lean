import ChunkViewer.Proofs.DrawBlock

/-!
# What is drawn

A slice is drawn exactly as its picture: one record for each texture, in the order of the
columns and heights. The run ends early at a block whose name is too short or whose type tag
is missing.
-/

namespace ChunkViewer

open ExceptRun

variable {order : IterationOrder} {stat : String → Bool}

/-! ## The slice -/

lemma mem_sliceRows {yMin yMax y : ℤ} : y ∈ sliceRows yMin yMax ↔ yMin ≤ y ∧ y < yMax := by
  unfold sliceRows
  rw [List.mem_map]
  constructor
  · rintro ⟨n, hn, rfl⟩
    rw [List.mem_range] at hn
    omega
  · intro h
    refine ⟨(y - yMin).toNat, ?_, by omega⟩
    rw [List.mem_range]
    omega

/-- The sweep shows column `index` of the picture. -/
lemma sliceColumns_eq {facing : String} (h : facing ∈ ["n", "s", "e", "w"]) (rawX rawZ : ℤ) :
    sliceColumns facing rawX rawZ = (List.range 16).map fun index =>
      ⟨index, sliceX facing rawX index, sliceZ facing rawZ index⟩ := by
  simp only [List.mem_cons, List.not_mem_nil, or_false] at h
  rcases h with rfl | rfl | rfl | rfl
  · rfl
  · rfl
  · rfl
  · rfl

lemma Chunk.Covers.rawCoordinate {c : Chunk} {x z : ℤ} (h : c.Covers x z)
    (hx : -2147483648 ≤ x ∧ x ≤ 2147483647) (hz : -2147483648 ≤ z ∧ z ≤ 2147483647) :
    ChunkViewer.rawCoordinate x c.x = .ok (x - 16 * c.x) ∧
      ChunkViewer.rawCoordinate z c.z = .ok (z - 16 * c.z) := by
  obtain ⟨hcx, hcz⟩ := (c.covers_iff x z).mp h
  obtain ⟨⟨hx1, hx2⟩, hz1, hz2⟩ := h
  rw [← hcx, ← hcz, rawCoordinate_int hx.1 hx.2, rawCoordinate_int hz.1 hz.2, hcx, hcz]
  exact ⟨by congr 1; omega, by congr 1; omega⟩

lemma Chunk.Covers.raw {c : Chunk} {x z : ℤ} (h : c.Covers x z) :
    (0 ≤ x - 16 * c.x ∧ x - 16 * c.x ≤ 15) ∧ 0 ≤ z - 16 * c.z ∧ z - 16 * c.z ≤ 15 := by
  obtain ⟨⟨hx1, hx2⟩, hz1, hz2⟩ := h
  omega

lemma Chunk.sliceColumns_covers {c : Chunk} {x z : ℤ} (h : c.Covers x z)
    (hx : -2147483648 ≤ x ∧ x ≤ 2147483647) (hz : -2147483648 ≤ z ∧ z ≤ 2147483647)
    {facing : String} (hfacing : facing ∈ ["n", "s", "e", "w"]) :
    c.sliceColumns x z facing = .ok ((List.range 16).map fun index =>
      ⟨index, sliceX facing (x - 16 * c.x) index, sliceZ facing (z - 16 * c.z) index⟩) := by
  obtain ⟨hrawX, hrawZ⟩ := h.rawCoordinate hx hz
  unfold Chunk.sliceColumns
  rw [hrawX, ok_bind, hrawZ, ok_bind, sliceColumns_eq hfacing]

lemma slice_inChunk {facing : String} {rawX rawZ : ℤ} (hX : 0 ≤ rawX ∧ rawX ≤ 15)
    (hZ : 0 ≤ rawZ ∧ rawZ ≤ 15) {yMin yMax : ℤ} (hmin : 0 ≤ yMin) (hmax : yMax ≤ 256)
    {index : ℕ} (hindex : index < 16) {y : ℤ} (hy : y ∈ sliceRows yMin yMax) :
    InChunk (sliceX facing rawX index) y (sliceZ facing rawZ index) := by
  rw [mem_sliceRows] at hy
  unfold InChunk sliceX sliceZ
  split_ifs <;> omega

lemma Chunk.getBlock_slice {c : Chunk} (hc : c.StatesInPalette) {facing : String} {rawX rawZ : ℤ}
    (hX : 0 ≤ rawX ∧ rawX ≤ 15) (hZ : 0 ≤ rawZ ∧ rawZ ≤ 15) {yMin yMax : ℤ} (hmin : 0 ≤ yMin)
    (hmax : yMax ≤ 256) {index : ℕ} (hindex : index < 16) {y : ℤ} (hy : y ∈ sliceRows yMin yMax) :
    ∃ state stateTag, c.getBlock (sliceX facing rawX index) y (sliceZ facing rawZ index) =
        .ok ⟨state, stateTag⟩ ∧
      (0 ≤ state → ∃ tag, stateTag = some tag ∧ c.Meets facing rawX rawZ yMin yMax tag) := by
  obtain ⟨i, j, k, hi, rfl, hk⟩ := (@slice_inChunk facing _ _ hX hZ _ _ hmin hmax _ hindex _ hy).fin
  rw [mem_sliceRows] at hy
  refine ⟨c.cell i j k, c.cellTag i j k, by rw [hi, hk, Chunk.getBlock_cell hc], ?_⟩
  intro hpos
  obtain ⟨tag, -, htag⟩ := Chunk.cellTag_nonneg hc hpos
  exact ⟨tag, htag, index, hindex, i, j, k, hi, hk, hy, htag⟩

lemma Block.texture_shows (b : Block) (htag : 0 ≤ b.state → ∃ tag, b.stateTag = some tag) :
    b.Shows order stat (b.texture order stat) := by
  obtain ⟨state, stateTag⟩ := b
  unfold Block.texture
  by_cases hpos : 0 ≤ state
  · obtain ⟨tag, rfl⟩ := htag hpos
    rw [if_pos hpos, Option.bind_some, NBTTag.texture]
    by_cases hair : tag.strippedName order = "air"
    · rw [if_pos hair]
      exact .air hpos hair
    · rw [if_neg hair]
      cases hfind : (tag.candidates order).find? stat with
      | some path => exact .found hpos hair (List.mem_of_find?_eq_some hfind) (List.find?_some hfind)
      | none =>
        rw [List.find?_eq_none] at hfind
        exact .missing hpos hair fun path hpath => by simpa using hfind path hpath
  · rw [if_neg hpos]
    by_cases hcorrupt : state = -2
    · rw [if_pos hcorrupt]
      exact .corrupt hcorrupt
    · rw [if_neg hcorrupt]
      exact .unknown (not_le.mp hpos) hcorrupt

section

variable {c : Chunk} (hc : c.StatesInPalette) {x z : ℤ} (hx : -2147483648 ≤ x ∧ x ≤ 2147483647)
  (hz : -2147483648 ≤ z ∧ z ≤ 2147483647) (hcov : c.Covers x z) {facing : String}
  (hfacing : facing ∈ ["n", "s", "e", "w"]) {yMin yMax : ℤ} (hmin : 0 ≤ yMin) (hmax : yMax ≤ 256)

include hx hz hcov hfacing in
lemma drawSlice_columns : drawSlice order stat c x z facing yMin yMax =
    Traced.forEach ((List.range 16).map fun index =>
      ⟨index, sliceX facing (x - 16 * c.x) index, sliceZ facing (z - 16 * c.z) index⟩) fun column =>
      Traced.forEach (sliceRows yMin yMax) fun y => drawBlock order stat c column y := by
  unfold drawSlice
  rw [Chunk.sliceColumns_covers hcov hx hz hfacing, orStop, Traced.lift_ok_bind]

include hc hx hz hcov hfacing hmin hmax in
lemma drawSlice_eq (hmet : ∀ tag, c.Meets facing (x - 16 * c.x) (z - 16 * c.z) yMin yMax tag →
      ∃ t, tag.findInnerTag order "name" [] = some t ∧ tag.Drawable t.stringVal) :
    drawSlice order stat c x z facing yMin yMax =
      ⟨(c.picture order stat facing (x - 16 * c.x) (z - 16 * c.z)).script yMin yMax, .ok ()⟩ := by
  obtain ⟨hX, hZ⟩ := hcov.raw
  have hblock : ∀ index < 16, ∀ y ∈ sliceRows yMin yMax,
      drawBlock order stat c ⟨index, sliceX facing (x - 16 * c.x) index,
          sliceZ facing (z - 16 * c.z) index⟩ y =
        ⟨recordOf (c.picture order stat facing (x - 16 * c.x) (z - 16 * c.z) index y) index y,
          .ok ()⟩ := by
    intro index hindex y hy
    obtain ⟨state, stateTag, hb, htag⟩ := Chunk.getBlock_slice hc hX hZ hmin hmax hindex hy
    rw [drawBlock_eq hb, Chunk.picture, hb]
    intro hpos
    obtain ⟨tag, rfl, hmeets⟩ := htag hpos
    obtain ⟨t, hname, hdraw⟩ := hmet tag hmeets
    exact ⟨tag, t, rfl, hname, hdraw⟩
  rw [drawSlice_columns hx hz hcov hfacing, Picture.script,
    @Traced.forEach_eq _ _ _ _ _ fun column => (sliceRows yMin yMax).flatMap fun y =>
      recordOf (c.picture order stat facing (x - 16 * c.x) (z - 16 * c.z) column.index y)
        column.index y, List.flatMap_map]
  intro column hcolumn
  obtain ⟨index, hindex, rfl⟩ := List.mem_map.mp hcolumn
  exact Traced.forEach_eq (hblock index (List.mem_range.mp hindex))

include hc hx hz hcov hfacing hmin hmax in
lemma drawSlice_result_ok (hnamed : ∀ tag, c.Meets facing (x - 16 * c.x) (z - 16 * c.z) yMin yMax
      tag → ∃ t, tag.findInnerTag order "name" [] = some t) :
    (drawSlice order stat c x z facing yMin yMax).result = .ok () ↔
      ∀ tag t, c.Meets facing (x - 16 * c.x) (z - 16 * c.z) yMin yMax tag →
        tag.findInnerTag order "name" [] = some t → tag.Drawable t.stringVal := by
  obtain ⟨hX, hZ⟩ := hcov.raw
  constructor
  · intro h tag t hmeets hname
    obtain ⟨index, hindex, i, j, k, hi, hk, hj, htag⟩ := hmeets
    rw [drawSlice_columns hx hz hcov hfacing, Traced.forEach_result_ok] at h
    have hcolumn := h _ (List.mem_map.mpr ⟨index, List.mem_range.mpr hindex, rfl⟩)
    have hblock := Traced.forEach_result_ok.mp hcolumn (j : ℕ) (mem_sliceRows.mpr hj)
    have hb : c.getBlock (sliceX facing (x - 16 * c.x) index) (j : ℕ)
        (sliceZ facing (z - 16 * c.z) index) = .ok ⟨c.cell i j k, some tag⟩ := by
      rw [hi, hk, Chunk.getBlock_cell hc, htag]
    have hpos := (Chunk.cellTag_eq_some htag).1
    exact (drawBlock_result_ok hb fun _ => ⟨tag, t, rfl, hname⟩).mp hblock tag t hpos rfl hname
  · intro h
    rw [drawSlice_eq hc hx hz hcov hfacing hmin hmax]
    intro tag hmeets
    obtain ⟨t, hname⟩ := hnamed tag hmeets
    exact ⟨t, hname, h tag t hmeets hname⟩

end

/-! ## A chunk with one block -/

def namedTag (name : String) : NBTTag :=
  { NBTTag.new with type := .COMPOUND, innerTags := [("name",
    { NBTTag.new with type := .STRING, name := "name", stringVal := name })] }

/-- The chunk at the origin with one block, of this name. -/
def oneBlock (name : String) : Chunk :=
  ((Chunk.new 0 0).pushState 0 (namedTag name)).setCell 0 0 0 0

lemma oneBlock_palette {name : String} {y : Fin 16} {tag : NBTTag}
    (h : tag ∈ (oneBlock name).palette y) : tag = namedTag name := by
  rw [oneBlock, Chunk.palette_setCell, Chunk.palette_pushState, Chunk.palette_new,
    Chunk.palette_new] at h
  by_cases hy : y = 0
  · rw [if_pos hy, List.nil_append, List.mem_singleton] at h
    exact h
  · rw [if_neg hy] at h
    exact absurd h (by simp)

lemma oneBlock_statesInPalette (name : String) : (oneBlock name).StatesInPalette :=
  Chunk.oneBlock_statesInPalette 0 0 (namedTag name) 0 0 0

lemma oneBlock_meets (name : String) : (oneBlock name).Meets "n" 0 0 0 1 (namedTag name) := by
  refine ⟨0, by norm_num, 0, 0, 0, rfl, rfl, ⟨le_rfl, by norm_num⟩, ?_⟩
  have hcell : (oneBlock name).cell 0 0 0 = 0 := by
    rw [oneBlock, Chunk.cell_setCell, if_pos ⟨rfl, rfl, rfl⟩]
  have hpalette : (oneBlock name).palette (subOf 0) = [namedTag name] := by
    rw [oneBlock, Chunk.palette_setCell, Chunk.palette_pushState,
      if_pos (show subOf 0 = 0 from rfl), Chunk.palette_new, List.nil_append]
  rw [Chunk.cellTag, hcell, if_pos le_rfl, hpalette]
  rfl

lemma namedTag_find (name : String) : (namedTag name).innerTags.lookup "name" =
    some { NBTTag.new with type := .STRING, name := "name", stringVal := name } := rfl

lemma namedTag_stored {name key : String} (h : "name" ≠ key) : (namedTag name).stored key = [] := by
  rw [NBTTag.stored_eq, namedTag]
  dsimp only
  rw [List.flatMap_singleton, if_neg h, NBTTag.stored_eq]
  rfl

lemma Chunk.covers_origin {c : Chunk} (hx : c.x = 0) (hz : c.z = 0) : c.Covers 0 0 := by
  unfold Chunk.Covers
  omega

lemma oneBlock_covers (name : String) : (oneBlock name).Covers 0 0 :=
  Chunk.covers_origin rfl rfl

lemma Picture.script_first {p : Picture} {path : String} (h : p 0 0 = some path) :
    ∃ rest, p.script 0 1 = record path 0 0 ++ rest := by
  refine ⟨(List.range' 1 15).flatMap fun index =>
    (sliceRows 0 1).flatMap fun y => recordOf (p index y) index y, ?_⟩
  rw [Picture.script, show List.range 16 = 0 :: List.range' 1 15 from rfl, List.flatMap_cons,
    show sliceRows 0 1 = [0] from rfl, List.flatMap_singleton, h]
  rfl

/-- A slice is drawn as its picture: one record for each block that shows a texture, none for
air, in the order of the columns and heights; facing south and west mirrors north and east. -/
theorem draw_slice_picture (order : IterationOrder) (stat : String → Bool) {c : Chunk}
    (hc : c.StatesInPalette) {x z : ℤ} (hx : -2147483648 ≤ x ∧ x ≤ 2147483647)
    (hz : -2147483648 ≤ z ∧ z ≤ 2147483647) (hcov : c.Covers x z) {facing : String}
    (hfacing : facing ∈ ["n", "s", "e", "w"]) {yMin yMax : ℤ} (hmin : 0 ≤ yMin)
    (hmax : yMax ≤ 256)
    (hmet : ∀ tag, c.Meets facing (x - 16 * c.x) (z - 16 * c.z) yMin yMax tag →
      ∃ t, tag.findInnerTag order "name" [] = some t ∧ tag.Drawable t.stringVal) :
    drawSlice order stat c x z facing yMin yMax =
        ⟨(c.picture order stat facing (x - 16 * c.x) (z - 16 * c.z)).script yMin yMax, .ok ()⟩ ∧
      (∀ index < 16, ∀ y, yMin ≤ y → y < yMax →
        ∃ b, c.getBlock (sliceX facing (x - 16 * c.x) index) y
            (sliceZ facing (z - 16 * c.z) index) = .ok b ∧
          b.Shows order stat (c.picture order stat facing (x - 16 * c.x) (z - 16 * c.z) index y)) ∧
      ∀ index ≤ 15, ∀ y,
        c.picture order stat "s" (x - 16 * c.x) (z - 16 * c.z) index y =
            c.picture order stat "n" (x - 16 * c.x) (z - 16 * c.z) (15 - index) y ∧
          c.picture order stat "w" (x - 16 * c.x) (z - 16 * c.z) index y =
            c.picture order stat "e" (x - 16 * c.x) (z - 16 * c.z) (15 - index) y := by
  obtain ⟨hX, hZ⟩ := hcov.raw
  refine ⟨drawSlice_eq hc hx hz hcov hfacing hmin hmax hmet, ?_, ?_⟩
  · intro index hindex y hy1 hy2
    obtain ⟨state, stateTag, hb, htag⟩ :=
      Chunk.getBlock_slice hc hX hZ hmin hmax hindex (mem_sliceRows.mpr ⟨hy1, hy2⟩)
    refine ⟨_, hb, ?_⟩
    rw [Chunk.picture, hb]
    apply Block.texture_shows
    intro hpos
    obtain ⟨tag, h, -⟩ := htag hpos
    exact ⟨tag, h⟩
  · intro index hindex y
    have hmirror : ((15 - index : ℕ) : ℤ) = 15 - index := by omega
    unfold Chunk.picture sliceX sliceZ
    rw [hmirror]
    exact ⟨rfl, rfl⟩

/-- One wool block, drawn without any texture. -/
theorem draw_slice_picture_wool :
    drawSlice .insertion (fun _ => false) (oneBlock "minecraft:wool") 0 0 "n" 0 1 =
      ⟨((oneBlock "minecraft:wool").picture .insertion (fun _ => false) "n" 0 0).script 0 1,
        .ok ()⟩ := by
  refine (draw_slice_picture .insertion (fun _ => false) (oneBlock_statesInPalette _) (by decide)
    (by decide) (oneBlock_covers _) (by decide) le_rfl (by norm_num) ?_).1
  rintro tag ⟨-, -, i, j, k, -, -, -, htag⟩
  obtain rfl := oneBlock_palette (Chunk.cellTag_eq_some htag).2
  refine ⟨_, NBTTag.find_of_lookup (namedTag_find _) _ _, by decide, ?_⟩
  exact ⟨by decide, by decide, by decide, by decide⟩

/-- A place without a block is drawn with a texture that `stat` does not find. -/
theorem draw_slice_unchecked_texture :
    (Chunk.new 0 0).StatesInPalette ∧ (Chunk.new 0 0).Covers 0 0 ∧
      (Chunk.new 0 0).getBlock 0 0 0 = .ok ⟨-1, none⟩ ∧
      ∃ rest, drawSlice .insertion (fun _ => false) (Chunk.new 0 0) 0 0 "n" 0 1 =
        ⟨puts "newcurve eps ./blocks-eps/unknown.eps " ++ rest, .ok ()⟩ := by
  have hc := Chunk.new_statesInPalette 0 0
  have hcov : (Chunk.new 0 0).Covers 0 0 := Chunk.covers_origin rfl rfl
  have hcell : ∀ i j k, (Chunk.new 0 0).cellTag i j k = none := by
    intro i j k
    rw [Chunk.cellTag, Chunk.cell_new, if_neg (by norm_num)]
  have hblock : (Chunk.new 0 0).getBlock 0 0 0 = .ok ⟨-1, none⟩ := by
    have h := Chunk.getBlock_cell hc 0 0 0
    rw [hcell, Chunk.cell_new] at h
    exact h
  refine ⟨hc, hcov, hblock, ?_⟩
  have hdrawn := @drawSlice_eq .insertion (fun _ => false) _ hc 0 0 (by decide) (by decide) hcov "n"
    (by decide) 0 1 le_rfl (by norm_num) (by
      rintro tag ⟨-, -, i, j, k, -, -, -, htag⟩
      rw [hcell] at htag
      exact absurd htag (by simp))
  have hplace : (Chunk.new 0 0).picture .insertion (fun _ => false) "n" 0 0 0 0 =
      some "./blocks-eps/unknown.eps" := by
    unfold Chunk.picture
    rw [show sliceX "n" 0 0 = 0 from rfl, show sliceZ "n" 0 0 = 0 from rfl, hblock]
    rfl
  obtain ⟨rest, hscript⟩ := Picture.script_first hplace
  refine ⟨putsPoint 0 0 ++ rest, hdrawn.trans ?_⟩
  rw [show (0 : ℤ) - 16 * (Chunk.new 0 0).x = 0 from rfl,
    show (0 : ℤ) - 16 * (Chunk.new 0 0).z = 0 from rfl, hscript, record,
    ← @puts_header "./blocks-eps/unknown.eps" "newcurve eps ./blocks-eps/unknown.eps " rfl,
    List.append_assoc]

/-- Drawing a slice of named tags completes exactly if every name that is met has 10 characters
and every type tag that is looked for is stored. -/
theorem draw_slice_completes (order : IterationOrder) (stat : String → Bool) {c : Chunk}
    (hc : c.StatesInPalette) {x z : ℤ} (hx : -2147483648 ≤ x ∧ x ≤ 2147483647)
    (hz : -2147483648 ≤ z ∧ z ≤ 2147483647) (hcov : c.Covers x z) {facing : String}
    (hfacing : facing ∈ ["n", "s", "e", "w"]) {yMin yMax : ℤ} (hmin : 0 ≤ yMin)
    (hmax : yMax ≤ 256)
    (hnamed : ∀ y, ∀ tag ∈ c.palette y, tag.type = .COMPOUND ∧
      ∃ t, tag.innerTags.lookup "name" = some t ∧ t.type = .STRING) :
    (drawSlice order stat c x z facing yMin yMax).result = .ok () ↔
      ∀ tag t, c.Meets facing (x - 16 * c.x) (z - 16 * c.z) yMin yMax tag →
        tag.innerTags.lookup "name" = some t → tag.Drawable t.stringVal := by
  have hfind : ∀ tag, c.Meets facing (x - 16 * c.x) (z - 16 * c.z) yMin yMax tag →
      ∃ t, tag.innerTags.lookup "name" = some t ∧ tag.findInnerTag order "name" [] = some t := by
    rintro tag ⟨index, -, i, j, k, -, -, -, htag⟩
    obtain ⟨-, t, hname, -⟩ := hnamed _ tag (Chunk.cellTag_eq_some htag).2
    exact ⟨t, hname, NBTTag.find_of_lookup hname order []⟩
  rw [drawSlice_result_ok hc hx hz hcov hfacing hmin hmax fun tag hmeets =>
    (hfind tag hmeets).imp fun _ h => h.2]
  constructor
  · intro h tag t hmeets hname
    exact h tag t hmeets (NBTTag.find_of_lookup hname order [])
  · intro h tag t hmeets hname
    obtain ⟨t', hlookup, hfound⟩ := hfind tag hmeets
    rw [hname] at hfound
    obtain rfl := Option.some.inj hfound
    exact h tag t hmeets hlookup

lemma oneBlock_named (name : String) : ∀ y, ∀ tag ∈ (oneBlock name).palette y,
    tag.type = .COMPOUND ∧ ∃ t, tag.innerTags.lookup "name" = some t ∧ t.type = .STRING := by
  intro y tag htag
  rw [oneBlock_palette htag]
  exact ⟨rfl, _, namedTag_find name, rfl⟩

/-- Wool has no type tag to look for. -/
theorem draw_slice_completes_wool :
    (drawSlice .insertion (fun _ => false) (oneBlock "minecraft:wool") 0 0 "n" 0 1).result =
      .ok () := by
  refine (draw_slice_completes .insertion (fun _ => false) (oneBlock_statesInPalette _) (by decide)
    (by decide) (oneBlock_covers _) (by decide) le_rfl (by norm_num) (oneBlock_named _)).mpr ?_
  rintro tag t ⟨-, -, i, j, k, -, -, -, htag⟩ hname
  obtain rfl := oneBlock_palette (Chunk.cellTag_eq_some htag).2
  rw [namedTag_find] at hname
  obtain rfl := Option.some.inj hname
  exact ⟨by decide, by decide, by decide, by decide, by decide⟩

/-- Stone without its type tag, and a name without a namespace. -/
theorem draw_slice_fails :
    ((oneBlock "minecraft:stone").StatesInPalette ∧ (oneBlock "minecraft:stone").Covers 0 0 ∧
      ∀ y, ∀ tag ∈ (oneBlock "minecraft:stone").palette y, tag.type = .COMPOUND ∧
        ∃ t, tag.innerTags.lookup "name" = some t ∧ t.type = .STRING) ∧
      (drawSlice .insertion (fun _ => true) (oneBlock "minecraft:stone") 0 0 "n" 0 1).result ≠
        .ok () ∧
      ((oneBlock "stone").StatesInPalette ∧ (oneBlock "stone").Covers 0 0 ∧
        ∀ y, ∀ tag ∈ (oneBlock "stone").palette y, tag.type = .COMPOUND ∧
          ∃ t, tag.innerTags.lookup "name" = some t ∧ t.type = .STRING) ∧
      (drawSlice .insertion (fun _ => true) (oneBlock "stone") 0 0 "n" 0 1).result ≠ .ok () := by
  have hdrawable : ∀ name,
      (drawSlice .insertion (fun _ => true) (oneBlock name) 0 0 "n" 0 1).result = .ok () →
        (namedTag name).Drawable name := by
    intro name h
    refine (@drawSlice_result_ok .insertion (fun _ => true) _ (oneBlock_statesInPalette name) 0 0
      (by decide) (by decide) (oneBlock_covers name) "n" (by decide) 0 1 le_rfl (by norm_num)
      ?_).mp h _ _ (oneBlock_meets name) (NBTTag.find_of_lookup (namedTag_find name) _ _)
    rintro tag ⟨-, -, i, j, k, -, -, -, htag⟩
    obtain rfl := oneBlock_palette (Chunk.cellTag_eq_some htag).2
    exact ⟨_, NBTTag.find_of_lookup (namedTag_find name) _ _⟩
  refine ⟨⟨oneBlock_statesInPalette _, oneBlock_covers _, oneBlock_named _⟩, ?_,
    ⟨oneBlock_statesInPalette _, oneBlock_covers _, oneBlock_named _⟩, ?_⟩
  · intro h
    exact (hdrawable _ h).2.stone rfl (namedTag_stored (by decide))
  · intro h
    exact absurd (hdrawable _ h).1 (by decide)

end ChunkViewer
