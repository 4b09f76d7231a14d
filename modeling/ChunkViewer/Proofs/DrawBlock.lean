import ChunkViewer.Spec.SlicePicture

/-!
# What one block draws

A block draws the header, the path and the point of its texture, or nothing if it is air. The
run ends early at a name that is too short and at a type tag that is not stored.
-/

namespace ChunkViewer

open ExceptRun

variable {order : IterationOrder} {stat : String → Bool}

/-! ## The type of a block -/

lemma derefString_find_ok {key : String} {tag : NBTTag} :
    (∃ s, derefString (tag.findInnerTag order key []) = .ok s) ↔ tag.stored key ≠ [] := by
  rw [← @NBTTag.find_isSome_iff order key []]
  cases tag.findInnerTag order key [] with
  | none => simp [derefString]
  | some d => simp [derefString]

lemma derefString_find_bind_ok {key : String} {tag : NBTTag} {f : String → Except Failure String}
    (hf : ∀ s, ∃ s', f s = .ok s') :
    (∃ s, (derefString (tag.findInnerTag order key []) >>= f) = .ok s) ↔ tag.stored key ≠ [] := by
  rw [← @derefString_find_ok order]
  constructor
  · rintro ⟨s, hs⟩
    obtain ⟨s', hs', -⟩ := bind_eq_ok.mp hs
    exact ⟨s', hs'⟩
  · rintro ⟨s, hs⟩
    rw [hs, ok_bind]
    exact hf s

lemma derefString_find_or_ok {key key' : String} {tag : NBTTag} {f : NBTTag → String}
    {g : String → Except Failure String} (hg : ∀ s, ∃ s', g s = .ok s') :
    (∃ s, (match tag.findInnerTag order key [] with
      | some t => Except.ok (f t)
      | none => derefString (tag.findInnerTag order key' []) >>= g) = .ok s) ↔
      tag.stored key ≠ [] ∨ tag.stored key' ≠ [] := by
  cases hfind : tag.findInnerTag order key [] with
  | none =>
    have hnot : ¬tag.stored key ≠ [] := by
      rw [← @NBTTag.find_isSome_iff order key [], hfind]
      simp
    rw [derefString_find_bind_ok hg, or_iff_right hnot]
  | some t =>
    have hstored : tag.stored key ≠ [] := by
      rw [← @NBTTag.find_isSome_iff order key [], hfind]
      rfl
    exact ⟨fun _ => Or.inl hstored, fun _ => ⟨f t, rfl⟩⟩

lemma NBTTag.getBlockType_ok {tag t : NBTTag} (hname : tag.findInnerTag order "name" [] = some t) :
    (∃ s, tag.getBlockType order = .ok s) ↔ tag.TypeStored t.stringVal := by
  unfold NBTTag.getBlockType
  dsimp only
  rw [hname, derefString, ok_bind]
  by_cases hstone : t.stringVal = "minecraft:stone"
  · rw [if_pos hstone, derefString_find_bind_ok (by intro s; split <;> exact ⟨_, rfl⟩), hstone]
    exact ⟨fun h => ⟨fun _ => h, by simp, by simp, by simp⟩, fun h => h.stone rfl⟩
  rw [if_neg hstone]
  by_cases hleaves : t.stringVal = "minecraft:leaves" ∨ t.stringVal = "minecraft:leaves2"
  · rw [if_pos hleaves]
    refine (derefString_find_or_ok fun s => ⟨_, rfl⟩).trans ?_
    refine ⟨fun h => ⟨fun h' => absurd h' hstone, fun _ => h, ?_, ?_⟩, fun h => h.leaves hleaves⟩
    · rcases hleaves with h | h <;> simp [h]
    · rcases hleaves with h | h <;> simp [h]
  rw [if_neg hleaves]
  by_cases hlog : t.stringVal = "minecraft:log"
  · rw [if_pos hlog, hlog]
    refine (derefString_find_or_ok fun s => ⟨_, rfl⟩).trans ?_
    exact ⟨fun h => ⟨by simp, by simp, fun _ => h, by simp⟩, fun h => h.log rfl⟩
  rw [if_neg hlog]
  by_cases hsand : t.stringVal = "minecraft:sand"
  · rw [if_pos hsand, derefString_find_bind_ok (by intro s; split <;> exact ⟨_, rfl⟩), hsand]
    exact ⟨fun h => ⟨by simp, by simp, by simp, fun _ => h⟩, fun h => h.sand rfl⟩
  rw [if_neg hsand]
  -- The names that are left have a fixed type.
  refine ⟨fun _ => ⟨fun h => absurd h hstone, fun h => absurd h hleaves, fun h => absurd h hlog,
    fun h => absurd h hsand⟩, fun _ => ?_⟩
  split_ifs <;> exact ⟨_, rfl⟩

/-! ## One block -/

lemma puts_append (s s' : String) : puts (s ++ s') = puts s ++ puts s' := by
  unfold puts
  rw [String.toList_append, List.map_append]

lemma NBTTag.strippedName_eq {tag t : NBTTag} (hname : tag.findInnerTag order "name" [] = some t) :
    tag.strippedName order = String.ofList (t.stringVal.toList.drop 10) := by
  rw [NBTTag.strippedName, hname]

lemma NBTTag.getBlockType_air {tag t : NBTTag} (hname : tag.findInnerTag order "name" [] = some t)
    (hair : tag.strippedName order = "air") : tag.getBlockType order = .ok "NULL" := by
  rw [NBTTag.strippedName_eq hname] at hair
  have hne : ∀ s : String, String.ofList (s.toList.drop 10) ≠ "air" → t.stringVal ≠ s := by
    rintro s hs rfl
    exact hs hair
  unfold NBTTag.getBlockType
  dsimp only
  rw [hname, derefString, ok_bind, if_neg (hne _ (by decide)),
    if_neg (not_or.mpr ⟨hne _ (by decide), hne _ (by decide)⟩), if_neg (hne _ (by decide)),
    if_neg (hne _ (by decide)), if_neg (hne _ (by decide)), if_neg (hne _ (by decide)),
    if_neg (hne _ (by decide)), if_neg (hne _ (by decide))]

lemma putsTexture_eq {tag : NBTTag} {blockType : String}
    (htype : tag.getBlockType order = .ok blockType) :
    putsTexture stat (tag.strippedName order) blockType =
      puts (((tag.candidates order).find? stat).getD "./blocks-eps/unknown.eps") ++ puts " " := by
  have hunknown : puts "./blocks-eps/unknown.eps " =
      puts "./blocks-eps/unknown.eps" ++ puts " " := by
    rw [← puts_append]
    rfl
  unfold putsTexture NBTTag.candidates
  rw [htype, hunknown]
  dsimp only
  by_cases hnull : blockType = "NULL"
  · rw [if_pos hnull]
    cases hname : stat (texturePath (tag.strippedName order)) with
    | true => simp [hname, hnull]
    | false => cases halt : stat (texturePath blockType) <;> simp_all
  · rw [if_neg hnull]
    cases halt : stat (texturePath blockType) <;> simp [hnull, halt]

lemma drawTexture_eq {tag t : NBTTag} (hname : tag.findInnerTag order "name" [] = some t)
    (hdraw : tag.Drawable t.stringVal) :
    drawTexture order stat tag =
      ⟨if tag.strippedName order = "air" then [] else puts "newcurve eps " ++
        (puts (((tag.candidates order).find? stat).getD "./blocks-eps/unknown.eps") ++ puts " "),
        .ok (tag.strippedName order)⟩ := by
  obtain ⟨hlen, htyped⟩ := hdraw
  obtain ⟨blockType, htype⟩ := (NBTTag.getBlockType_ok hname).mpr htyped
  unfold drawTexture
  rw [hname, derefString, Traced.lift_ok_bind, substr, if_pos hlen, Traced.lift_ok_bind, htype,
    Traced.lift_ok_bind, ← NBTTag.strippedName_eq hname, putsTexture_eq htype]
  by_cases hair : tag.strippedName order = "air"
  · rw [NBTTag.getBlockType_air hname hair] at htype
    have hnull := Except.ok.inj htype
    rw [if_pos hair, if_neg (by simp [hair, ← hnull]), Traced.pure_eq]
  · rw [if_neg hair, if_pos (Or.inl hair), Traced.emits_bind, Traced.emits_bind, Traced.pure_eq]
    simp

lemma drawTexture_result_ok {tag t : NBTTag} (hname : tag.findInnerTag order "name" [] = some t) :
    (∃ name, (drawTexture order stat tag).result = .ok name) ↔ tag.Drawable t.stringVal := by
  constructor
  · rintro ⟨name, h⟩
    unfold drawTexture at h
    rw [hname, derefString, Traced.lift_ok_bind] at h
    obtain ⟨stripped, hsubstr, h⟩ := Traced.result_bind_eq_ok.mp h
    obtain ⟨blockType, htype, -⟩ := Traced.result_bind_eq_ok.mp h
    refine ⟨?_, (NBTTag.getBlockType_ok hname).mp ⟨blockType, htype⟩⟩
    by_contra hlen
    rw [Traced.lift, substr, if_neg hlen] at hsubstr
    exact absurd hsubstr (by simp)
  · intro hdraw
    rw [drawTexture_eq hname hdraw]
    exact ⟨_, rfl⟩

lemma puts_header {path header : String} (h : header = "newcurve eps " ++ path ++ " ") :
    puts header = puts "newcurve eps " ++ (puts path ++ puts " ") := by
  rw [h, puts_append, puts_append, List.append_assoc]

section

variable {c : Chunk} {column : SliceColumn} {y : ℤ} {b : Block}

lemma drawBlock_eq (hb : c.getBlock column.rawX y column.rawZ = .ok b)
    (htag : 0 ≤ b.state → ∃ tag t, b.stateTag = some tag ∧
      tag.findInnerTag order "name" [] = some t ∧ tag.Drawable t.stringVal) :
    drawBlock order stat c column y =
      ⟨recordOf (b.texture order stat) column.index y, .ok ()⟩ := by
  unfold drawBlock drawHeader Block.texture
  rw [hb, orStop, Traced.lift_ok_bind]
  by_cases hpos : 0 ≤ b.state
  · obtain ⟨tag, t, htag, hname, hdraw⟩ := htag hpos
    rw [if_pos hpos, if_pos hpos, htag, derefTag, Traced.lift_ok_bind, drawTexture_eq hname hdraw,
      Traced.ok_bind, Option.bind_some, NBTTag.texture]
    by_cases hair : tag.strippedName order = "air"
    · rw [if_pos hair, if_pos hair, if_neg (not_not.mpr hair)]
      rfl
    · rw [if_neg hair, if_neg hair, if_pos hair]
      rfl
  · rw [if_neg hpos, if_neg hpos]
    by_cases hcorrupt : b.state = -2
    · rw [if_pos hcorrupt, if_pos hcorrupt,
        @puts_header "./blocks-eps/barrier.eps" "newcurve eps ./blocks-eps/barrier.eps " rfl,
        Traced.emits_bind, Traced.pure_eq, Traced.after_mk, Traced.ok_bind, if_pos (by decide),
        List.append_nil]
      rfl
    · rw [if_neg hcorrupt, if_neg hcorrupt,
        @puts_header "./blocks-eps/unknown.eps" "newcurve eps ./blocks-eps/unknown.eps " rfl,
        Traced.emits_bind, Traced.pure_eq, Traced.after_mk, Traced.ok_bind, if_pos (by decide),
        List.append_nil]
      rfl

lemma drawBlock_result_ok (hb : c.getBlock column.rawX y column.rawZ = .ok b)
    (hnamed : 0 ≤ b.state → ∃ tag t, b.stateTag = some tag ∧
      tag.findInnerTag order "name" [] = some t) :
    (drawBlock order stat c column y).result = .ok () ↔
      ∀ tag t, 0 ≤ b.state → b.stateTag = some tag →
        tag.findInnerTag order "name" [] = some t → tag.Drawable t.stringVal := by
  constructor
  · intro h tag t hpos htag hname
    unfold drawBlock drawHeader at h
    rw [hb, orStop, Traced.lift_ok_bind, if_pos hpos, htag, derefTag, Traced.lift_ok_bind] at h
    obtain ⟨name, hresult, -⟩ := Traced.result_bind_eq_ok.mp h
    exact (drawTexture_result_ok hname).mp ⟨name, hresult⟩
  · intro h
    rw [drawBlock_eq hb]
    intro hpos
    obtain ⟨tag, t, htag, hname⟩ := hnamed hpos
    exact ⟨tag, t, htag, hname, h tag t hpos htag hname⟩

end

end ChunkViewer
