import ChunkViewer.Proofs.SavedWorld
import ChunkViewer.Proofs.WhatAndGraph
import ChunkViewer.Spec.Requests

/-!
# Pictures of a saved world

After a saved world is loaded, a slice of one of its chunks is drawn to its end, and shows the
saved blocks.
-/

namespace ChunkViewer

open ExceptRun

/-! ## Saved blocks -/

lemma savedBlock_cases (saves : List SavedSubChunk) (d : ChunkDimension) (x : ℤ) (y : Fin 256)
    (z : ℤ) :
    ((savedBlock saves d x y z).stateTag = none ∧ (savedBlock saves d x y z).state < 0) ∨
      ∃ s ∈ saves, ∃ entry ∈ s.palette,
        (savedBlock saves d x y z).stateTag = some (entry.2.decode entry.1) ∧
          0 ≤ (savedBlock saves d x y z).state := by
  unfold savedBlock
  cases hfind : saves.find? fun s => s.slot = ⟨d, x / 16, z / 16, (subOf y : ℕ)⟩ with
  | none => exact Or.inl ⟨rfl, neg_one_lt_zero⟩
  | some s =>
    dsimp only
    unfold SavedSubChunk.block SavedSubChunk.indexBlock
    split
    · next entry hentry =>
      exact Or.inr ⟨s, List.mem_of_find?_eq_some hfind, entry, List.mem_of_getElem? hentry, rfl,
        Int.natCast_nonneg _⟩
    · exact Or.inl ⟨rfl, by norm_num⟩

/-! ## Loaded chunks -/

/-- The chunk is that of the saved blocks around `(x, z)`. -/
structure Chunk.Shows (c : Chunk) (saves : List SavedSubChunk) (d : ChunkDimension) (x z : ℤ) :
    Prop where
  covers : c.Covers x z
  statesInPalette : c.StatesInPalette
  getBlock : ∀ (i : Fin 16) (y : Fin 256) (k : Fin 16), c.getBlock (i : ℕ) (y : ℕ) (k : ℕ) =
    .ok (savedBlock saves d (16 * (x / 16) + (i : ℕ)) y (16 * (z / 16) + (k : ℕ)))

lemma Picture.script_congr {p q : Picture} {yMin yMax : ℤ}
    (h : ∀ index < 16, ∀ y ∈ sliceRows yMin yMax, p index y = q index y) :
    p.script yMin yMax = q.script yMin yMax := by
  unfold Picture.script
  apply List.flatMap_congr
  intro index hindex
  apply List.flatMap_congr
  intro y hy
  rw [h index (List.mem_range.mp hindex) y hy]

section

variable {saves : List SavedSubChunk} {c : Chunk} {d : ChunkDimension} {x z : ℤ}

lemma Chunk.Shows.raw (hc : c.Shows saves d x z) : x - 16 * c.x = x % 16 ∧ z - 16 * c.z = z % 16 := by
  obtain ⟨⟨hx1, hx2⟩, hz1, hz2⟩ := hc.covers
  omega

lemma Chunk.Shows.meets (hc : c.Shows saves d x z) {facing : String} {yMin yMax : ℤ} {tag : NBTTag}
    (hmeets : c.Meets facing (x % 16) (z % 16) yMin yMax tag) :
    ∃ s ∈ saves, ∃ entry ∈ s.palette, tag = entry.2.decode entry.1 := by
  obtain ⟨index, -, i, j, k, -, -, -, htag⟩ := hmeets
  have hblock := hc.getBlock i j k
  rw [Chunk.getBlock_cell hc.statesInPalette, htag] at hblock
  rcases savedBlock_cases saves d (16 * (x / 16) + (i : ℕ)) j (16 * (z / 16) + (k : ℕ)) with
    ⟨hnone, -⟩ | ⟨s, hs, entry, hentry, hsome, -⟩
  · rw [← Except.ok.inj hblock] at hnone
    exact absurd hnone (by simp)
  · rw [← Except.ok.inj hblock] at hsome
    exact ⟨s, hs, entry, hentry, Option.some.inj hsome⟩

end

section

variable {saves : List SavedSubChunk} {c : Chunk} {r : Request}
  (hc : c.Shows saves r.settings.dim r.x r.z)
include hc

lemma Chunk.Shows.picture_eq {yMin yMax : ℤ} (hmin : 0 ≤ yMin) (hmax : yMax ≤ 256) {index : ℕ}
    (hindex : index < 16) {y : ℤ} (hy : y ∈ sliceRows yMin yMax) :
    c.picture r.env.order r.env.stat r.settings.facing (r.x % 16) (r.z % 16) index y =
      r.picture saves index y := by
  obtain ⟨i, j, k, hi, hj, hk⟩ := (@slice_inChunk r.settings.facing (r.x % 16) (r.z % 16)
    (by omega) (by omega) _ _ hmin hmax _ hindex _ hy).fin
  have hlt := j.isLt
  have hheight : 0 ≤ y ∧ y ≤ 255 := by omega
  have hj' : Request.height hheight = j := by
    apply Fin.ext
    unfold Request.height
    dsimp only
    omega
  unfold Chunk.picture Request.picture
  rw [dif_pos hheight, hj', hi, hj, hk, hc.getBlock]

lemma Chunk.Shows.drawSlice_eq (hx : -2147483648 ≤ r.x ∧ r.x ≤ 2147483647)
    (hz : -2147483648 ≤ r.z ∧ r.z ≤ 2147483647) (hfacing : r.settings.facing ∈ ["n", "s", "e", "w"])
    (hr : r.Drawable saves) :
    drawSlice r.env.order r.env.stat c r.x r.z r.settings.facing r.settings.yMin r.settings.yMax =
      ⟨(r.picture saves).script r.settings.yMin r.settings.yMax, .ok ()⟩ := by
  obtain ⟨hmin, -, hmax⟩ := hr.window
  obtain ⟨hX, hZ⟩ := hc.raw
  rw [ChunkViewer.drawSlice_eq hc.statesInPalette hx hz hc.covers hfacing hmin hmax, hX, hZ]
  · rw [Picture.script_congr fun index hindex y hy => hc.picture_eq hmin hmax hindex hy]
  · intro tag hmeets
    rw [hX, hZ] at hmeets
    obtain ⟨s, hs, entry, hentry, rfl⟩ := hc.meets hmeets
    exact hr.palettes s hs entry hentry

end

end ChunkViewer
