import ChunkViewer.Model.TagLookup

/-!
# What a search finds

A search returns a tag exactly when one is stored below under the key. The order in which
the maps iterate can only matter if there are several.
-/

namespace ChunkViewer

/-- The tags stored below a tag under a key. -/
def NBTTag.stored (key : String) (t : NBTTag) : List NBTTag :=
  t.innerTags.attach.flatMap fun p =>
    (if p.1.1 = key then [p.1.2] else []) ++ p.1.2.stored key
termination_by sizeOf t
decreasing_by exact @IterationOrder.sizeOf_lt .insertion [] t p.1 p.2

lemma NBTTag.stored_eq (key : String) (t : NBTTag) :
    t.stored key = t.innerTags.flatMap fun p =>
      (if p.1 = key then [p.2] else []) ++ p.2.stored key := by
  rw [NBTTag.stored, List.flatMap_subtype (g := fun p : String × NBTTag =>
    (if p.1 = key then [p.2] else []) ++ p.2.stored key) (fun _ _ => rfl), List.unattach_attach]

lemma NBTTag.findInnerTag_eq (order : IterationOrder) (key : String) (path : List String)
    (t : NBTTag) : t.findInnerTag order key path =
      match t.innerTags.lookup key with
      | some tag => some tag
      | none => (order.iterate path t.innerTags).findSome? fun p =>
          p.2.findInnerTag order key (path ++ [p.1]) := by
  cases hfind : t.innerTags.lookup key with
  | none =>
    rw [NBTTag.findInnerTag, hfind]
    dsimp only
    rw [List.findSome?_subtype (g := fun p : String × NBTTag =>
      p.2.findInnerTag order key (path ++ [p.1])) (fun _ _ => rfl), List.unattach_attach]
  | some tag => rw [NBTTag.findInnerTag, hfind]

lemma NBTTag.inner_induction {P : NBTTag → Prop} (h : ∀ t, (∀ p ∈ t.innerTags, P p.2) → P t)
    (t : NBTTag) : P t := by
  induction hn : sizeOf t using Nat.strong_induction_on generalizing t with
  | _ n ih =>
    apply h
    intro p hp
    exact ih _ (hn ▸ @IterationOrder.sizeOf_lt .insertion [] t p hp) _ rfl

lemma NBTTag.mem_stored {key : String} {t d : NBTTag} :
    d ∈ t.stored key ↔ ∃ p ∈ t.innerTags, (p.1 = key ∧ p.2 = d) ∨ d ∈ p.2.stored key := by
  rw [NBTTag.stored_eq, List.mem_flatMap]
  apply exists_congr
  intro p
  by_cases hkey : p.1 = key
  · simp [hkey, eq_comm]
  · simp [hkey]

lemma NBTTag.mem_stored_of_find {order : IterationOrder} {key : String} {t d : NBTTag}
    {path : List String} (h : t.findInnerTag order key path = some d) : d ∈ t.stored key := by
  induction t using NBTTag.inner_induction generalizing path with
  | h t ih =>
    rw [NBTTag.findInnerTag_eq] at h
    cases hlookup : t.innerTags.lookup key with
    | some tag =>
      rw [hlookup] at h
      obtain rfl := Option.some.inj h
      obtain ⟨before, after, hsplit, -⟩ := List.lookup_eq_some_iff.mp hlookup
      have hmem : (key, tag) ∈ t.innerTags := by
        rw [hsplit]
        exact List.mem_append_right _ List.mem_cons_self
      exact NBTTag.mem_stored.mpr ⟨(key, tag), hmem, Or.inl ⟨rfl, rfl⟩⟩
    | none =>
      rw [hlookup] at h
      obtain ⟨p, hp, hfind⟩ := List.exists_of_findSome?_eq_some h
      have hmem := (order.perm path t.innerTags).mem_iff.mp hp
      exact NBTTag.mem_stored.mpr ⟨p, hmem, Or.inr (ih p hmem hfind)⟩

lemma NBTTag.stored_of_find_none {order : IterationOrder} {key : String} {t : NBTTag}
    {path : List String} (h : t.findInnerTag order key path = none) : t.stored key = [] := by
  induction t using NBTTag.inner_induction generalizing path with
  | h t ih =>
    rw [NBTTag.findInnerTag_eq] at h
    cases hlookup : t.innerTags.lookup key with
    | some tag =>
      rw [hlookup] at h
      exact absurd h (by simp)
    | none =>
      rw [hlookup] at h
      rw [List.eq_nil_iff_forall_not_mem]
      intro d hd
      obtain ⟨p, hp, hcase⟩ := NBTTag.mem_stored.mp hd
      rcases hcase with ⟨hkey, -⟩ | hdeep
      · rw [List.lookup_eq_none_iff] at hlookup
        exact absurd (hlookup p hp) (by simp [hkey])
      · have hmem := (order.perm path t.innerTags).mem_iff.mpr hp
        rw [ih p hp (List.findSome?_eq_none_iff.mp h p hmem)] at hdeep
        exact absurd hdeep (by simp)

lemma NBTTag.find_isSome_iff {order : IterationOrder} {key : String} {path : List String}
    {t : NBTTag} : (t.findInnerTag order key path).isSome = true ↔ t.stored key ≠ [] := by
  cases hfind : t.findInnerTag order key path with
  | none => simp [NBTTag.stored_of_find_none hfind]
  | some d => simp [List.ne_nil_of_mem (NBTTag.mem_stored_of_find hfind)]

lemma NBTTag.find_of_lookup {key : String} {t d : NBTTag} (h : t.innerTags.lookup key = some d)
    (order : IterationOrder) (path : List String) : t.findInnerTag order key path = some d := by
  rw [NBTTag.findInnerTag_eq, h]

/-- Whatever the maps iterate in, a search finds a tag exactly when one is stored below
under the key; one at the surface is found first, and one that is alone is found. -/
theorem find_inner_tag (order : IterationOrder) (key : String) (path : List String) (t : NBTTag) :
    ((t.findInnerTag order key path).isSome = true ↔ t.stored key ≠ []) ∧
      (∀ d, t.innerTags.lookup key = some d → t.findInnerTag order key path = some d) ∧
      ∀ d, t.stored key = [d] → t.findInnerTag order key path = some d := by
  refine ⟨NBTTag.find_isSome_iff, fun d hd => NBTTag.find_of_lookup hd order path, ?_⟩
  intro d hd
  have hstored : t.stored key ≠ [] := by
    rw [hd]
    simp
  obtain ⟨d', hfind⟩ := Option.isSome_iff_exists.mp (NBTTag.find_isSome_iff.mpr hstored)
  have hmem := NBTTag.mem_stored_of_find hfind
  rw [hd, List.mem_singleton] at hmem
  rw [hfind, hmem]

end ChunkViewer
