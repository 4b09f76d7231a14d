import ChunkViewer.Proofs.NBTRoundTrip
import ChunkViewer.Proofs.PrintedTags
import ChunkViewer.Spec.LostTags

/-!
# Counting lost tags

A decoded tree has as many tags as the tree, less those that are lost. None is lost exactly when
the names in each compound are distinct.
-/

namespace ChunkViewer

/-! ## The tags of a tag -/

/-- The tag itself and those below it. -/
def NBTTag.count (t : NBTTag) : ℕ := 1 + t.descendants.length

lemma NBTTag.count_eq (t : NBTTag) : t.count = 1 + ((t.innerTags.map Prod.snd).map NBTTag.count).sum := by
  rw [NBTTag.count, NBTTag.descendants_eq, List.length_flatMap, List.map_map]
  congr 2
  apply List.map_congr_left
  intro p _
  rw [List.length_cons, Function.comp_apply, NBTTag.count, Nat.add_comm]

/-- The tags that an assignment takes the pointer from. -/
def replaced (key : String) (inner : List (String × NBTTag)) : ℕ :=
  ((inner.lookup key).map NBTTag.count).getD 0

lemma replaced_assign (key key' : String) (tag : NBTTag) (inner : List (String × NBTTag)) :
    replaced key' (AssocList.assign key tag inner) =
      if key' = key then tag.count else replaced key' inner := by
  unfold replaced
  rw [AssocList.lookup_assign]
  by_cases h : key' = key
  · rw [if_pos h, if_pos h]
    rfl
  · rw [if_neg h, if_neg h]

lemma sum_assign (key : String) (tag : NBTTag) (inner : List (String × NBTTag)) :
    (((AssocList.assign key tag inner).map Prod.snd).map NBTTag.count).sum + replaced key inner =
      ((inner.map Prod.snd).map NBTTag.count).sum + tag.count := by
  induction inner with
  | nil => simp [AssocList.assign, replaced]
  | cons p inner ih =>
    obtain ⟨key', tag'⟩ := p
    unfold replaced at ih ⊢
    rw [AssocList.assign, AssocList.lookup_cons_eq_ite]
    by_cases h : key = key'
    · rw [if_pos h, if_pos h]
      simp only [List.map_cons, List.sum_cons, Option.map_some, Option.getD_some]
      omega
    · rw [if_neg h, if_neg h]
      simp only [List.map_cons, List.sum_cons]
      omega

lemma NBTTag.count_addInnerTag (t tag : NBTTag) :
    (t.addInnerTag tag).count + replaced tag.name t.innerTags = t.count + tag.count := by
  have hsum := sum_assign tag.name tag t.innerTags
  rw [NBTTag.count_eq, NBTTag.count_eq t, NBTTag.addInnerTag]
  dsimp only
  omega

/-! ## Decoded trees -/

/-- The tags that the entries take the pointers from: those under their names. -/
def Entries.replaces (inner : List (String × NBTTag)) : Entries → ℕ
  | .nil => 0
  | .cons name _ rest =>
    (if rest.hasKey (textOf name) then 0 else replaced (textOf name) inner) + rest.replaces inner

lemma Entries.replaces_nil (es : Entries) : es.replaces [] = 0 := by
  cases es with
  | nil => rfl
  | cons name t rest =>
    rw [Entries.replaces, Entries.replaces_nil rest, replaced, List.lookup_nil]
    simp

lemma Entries.replaces_assign (es : Entries) (key : String) (tag : NBTTag)
    (inner : List (String × NBTTag)) :
    es.replaces (AssocList.assign key tag inner) + (if es.hasKey key then replaced key inner else 0) =
      es.replaces inner + if es.hasKey key then tag.count else 0 := by
  cases es with
  | nil => rfl
  | cons name t rest =>
    have ih := Entries.replaces_assign rest key tag inner
    rw [Entries.replaces, Entries.replaces, Entries.hasKey, replaced_assign]
    by_cases hname : textOf name = key
    · rw [hname, if_pos rfl, beq_self_eq_true, Bool.true_or, if_pos rfl, if_pos rfl]
      by_cases hrest : rest.hasKey key = true
      · rw [if_pos hrest, if_pos hrest] at ih
        rw [if_pos hrest, if_pos hrest]
        omega
      · rw [if_neg hrest, if_neg hrest] at ih
        rw [if_neg hrest, if_neg hrest]
        omega
    · rw [if_neg hname, beq_eq_false_iff_ne.mpr hname, Bool.false_or]
      omega

mutual

lemma Tree.count_decode (t : Tree) (name : List UInt8) : (t.decode name).count + t.lost = t.count := by
  have hleaf : ∀ tag : NBTTag, tag.innerTags = [] → tag.count = 1 := by
    intro tag htag
    rw [NBTTag.count_eq, htag]
    rfl
  cases t with
  | byte n => exact hleaf _ rfl
  | short n => exact hleaf _ rfl
  | int n => exact hleaf _ rfl
  | string text => exact hleaf _ rfl
  | compound es =>
    have h := Entries.count_addTo es (NBTTag.named .COMPOUND (textOf name))
    rw [hleaf (NBTTag.named .COMPOUND (textOf name)) rfl,
      show (NBTTag.named .COMPOUND (textOf name)).innerTags = [] from rfl, es.replaces_nil] at h
    rw [Tree.decode, Tree.lost, Tree.count]
    omega

lemma Entries.count_addTo (es : Entries) (tag : NBTTag) :
    (es.addTo tag).count + es.lost + es.replaces tag.innerTags = tag.count + es.count := by
  cases es with
  | nil => rfl
  | cons name t rest =>
    have htree := Tree.count_decode t name
    have hrest := Entries.count_addTo rest (tag.addInnerTag (t.decode name))
    have hadd := tag.count_addInnerTag (t.decode name)
    have hassign := rest.replaces_assign (t.decode name).name (t.decode name) tag.innerTags
    rw [Tree.name_decode] at hadd hassign
    have hinner : (tag.addInnerTag (t.decode name)).innerTags =
        AssocList.assign (textOf name) (t.decode name) tag.innerTags := by
      rw [NBTTag.addInnerTag, Tree.name_decode]
    rw [hinner] at hrest
    rw [Entries.addTo, Entries.lost, Entries.count, Entries.replaces]
    by_cases hkey : rest.hasKey (textOf name) = true
    · rw [if_pos hkey, if_pos hkey] at hassign
      rw [if_pos hkey, if_pos hkey]
      omega
    · rw [if_neg hkey, if_neg hkey] at hassign
      rw [if_neg hkey, if_neg hkey]
      omega

end

lemma Tree.count_pos (t : Tree) : 0 < t.count := by
  cases t <;> simp [Tree.count]

mutual

lemma Tree.lost_eq_zero (t : Tree) : t.lost = 0 ↔ t.Distinct := by
  cases t with
  | byte n => exact iff_of_true rfl trivial
  | short n => exact iff_of_true rfl trivial
  | int n => exact iff_of_true rfl trivial
  | string text => exact iff_of_true rfl trivial
  | compound es =>
    rw [Tree.lost, Tree.Distinct]
    exact Entries.lost_eq_zero es

lemma Entries.lost_eq_zero (es : Entries) : es.lost = 0 ↔ es.Distinct := by
  cases es with
  | nil => exact iff_of_true rfl trivial
  | cons name t rest =>
    have htree := Tree.lost_eq_zero t
    have hrest := Entries.lost_eq_zero rest
    have hpos := t.count_pos
    rw [Entries.lost, Entries.Distinct, Nat.add_eq_zero_iff, hrest, ← and_assoc]
    apply and_congr_left'
    by_cases hkey : rest.hasKey (textOf name) = true
    · rw [if_pos hkey, hkey]
      simp
      omega
    · rw [if_neg hkey, htree]
      simp [hkey]

end

lemma SavedSubChunk.lost_eq_zero (s : SavedSubChunk) : s.lost = 0 ↔ s.Distinct := by
  rw [SavedSubChunk.lost, paletteLost, List.sum_eq_zero_iff, SavedSubChunk.Distinct,
    List.forall_mem_map]
  simp only [Tree.lost_eq_zero]

end ChunkViewer
