import ChunkViewer.Proofs.TagSearch

/-!
# What is printed for a tag

`printInnerTags` visits every tag below once, in an order that the maps choose. The text is made
of one piece for each string tag, and only the order of the pieces is left open.
-/

namespace ChunkViewer

/-- The tags below a tag, each before those below it. -/
def NBTTag.descendants (t : NBTTag) : List NBTTag :=
  t.innerTags.attach.flatMap fun p => p.1.2 :: p.1.2.descendants
termination_by sizeOf t
decreasing_by exact @IterationOrder.sizeOf_lt .insertion [] t p.1 p.2

lemma NBTTag.descendants_eq (t : NBTTag) : t.descendants = t.innerTags.flatMap fun p => p.2 :: p.2.descendants := by
  rw [NBTTag.descendants, List.flatMap_subtype (g := fun p : String × NBTTag => p.2 :: p.2.descendants)
    (fun _ _ => rfl), List.unattach_attach]

/-- The string tags below a tag. -/
def NBTTag.strings (t : NBTTag) : List NBTTag := t.descendants.filter fun d => d.type = .STRING

lemma NBTTag.strings_eq (t : NBTTag) :
    t.strings = t.innerTags.flatMap fun p =>
      (if p.2.type = .STRING then [p.2] else []) ++ p.2.strings := by
  unfold NBTTag.strings
  rw [NBTTag.descendants_eq, List.filter_flatMap]
  apply List.flatMap_congr
  intro p _
  by_cases hp : p.2.type = .STRING
  · rw [if_pos hp, List.filter_cons_of_pos (by simpa using hp)]
    rfl
  · rw [if_neg hp, List.filter_cons_of_neg (by simpa using hp)]
    rfl

/-- What is printed for one string tag. -/
def NBTTag.piece (t : NBTTag) : String := t.name ++ ":" ++ t.stringVal ++ " "

def pieces (tags : List NBTTag) : String := String.join (tags.map NBTTag.piece)

lemma pieces_append (tags tags' : List NBTTag) :
    pieces (tags ++ tags') = pieces tags ++ pieces tags' := by
  rw [pieces, List.map_append, String.join_append]
  rfl

/-! ## One round after the other -/

lemma foldl_appends {β : Type} (f : β → String) (bs : List β) (text : String) :
    bs.foldl (fun text b => text ++ f b) text = text ++ String.join (bs.map f) := by
  induction bs generalizing text with
  | nil => rw [List.foldl_nil, List.map_nil, String.join_nil, String.append_empty]
  | cons b bs ih => rw [List.foldl_cons, ih, List.map_cons, String.join_cons, String.append_assoc]

lemma NBTTag.printInnerTags_eq (order : IterationOrder) (path : List String) (t : NBTTag) :
    t.printInnerTags order path =
      String.join ((order.iterate path t.innerTags).map fun p =>
        pieces (if p.2.type = .STRING then [p.2] else []) ++
          p.2.printInnerTags order (path ++ [p.1])) := by
  rw [NBTTag.printInnerTags]
  dsimp only
  rw [List.foldl_attach (f := fun toPrint (p : String × NBTTag) =>
    (if p.2.type = .STRING then toPrint ++ p.2.name ++ ":" ++ p.2.stringVal ++ " " else toPrint) ++
      p.2.printInnerTags order (path ++ [p.1]))]
  rw [← String.empty_append (s := String.join _), ← foldl_appends]
  congr 1
  funext text p
  by_cases hp : p.2.type = .STRING
  · rw [if_pos hp, if_pos hp, pieces, List.map_singleton, String.join_cons, String.join_nil,
      String.append_empty, NBTTag.piece]
    simp only [String.append_assoc]
  · rw [if_neg hp, if_neg hp, pieces, List.map_nil, String.join_nil, String.empty_append]

/-- Whatever the maps iterate in, the printed text is one piece for each string tag below. -/
theorem print_inner_tags_pieces (order : IterationOrder) (path : List String) (t : NBTTag) :
    ∃ tags, tags.Perm t.strings ∧ t.printInnerTags order path = pieces tags := by
  induction t using NBTTag.inner_induction generalizing path with
  | h t ih =>
    have hrounds : ∀ rounds : List (String × NBTTag), (∀ p ∈ rounds, p ∈ t.innerTags) →
        ∃ tags, tags.Perm (rounds.flatMap fun p =>
            (if p.2.type = .STRING then [p.2] else []) ++ p.2.strings) ∧
          String.join (rounds.map fun p => pieces (if p.2.type = .STRING then [p.2] else []) ++
            p.2.printInnerTags order (path ++ [p.1])) = pieces tags := by
      intro rounds
      induction rounds with
      | nil => exact fun _ => ⟨[], List.Perm.rfl, rfl⟩
      | cons p rounds ihrounds =>
        intro hmem
        rw [List.forall_mem_cons] at hmem
        obtain ⟨below, hbelow, hprint⟩ := ih p hmem.1 (path ++ [p.1])
        obtain ⟨tags, htags, hjoin⟩ := ihrounds hmem.2
        refine ⟨((if p.2.type = .STRING then [p.2] else []) ++ below) ++ tags, ?_, ?_⟩
        · rw [List.flatMap_cons]
          exact (hbelow.append_left _).append htags
        · rw [List.map_cons, String.join_cons, hjoin, hprint, pieces_append, pieces_append]
    obtain ⟨tags, htags, hjoin⟩ := hrounds (order.iterate path t.innerTags)
      fun p hp => (order.perm path t.innerTags).mem_iff.mp hp
    refine ⟨tags, ?_, by rw [NBTTag.printInnerTags_eq, hjoin]⟩
    rw [NBTTag.strings_eq]
    exact htags.trans ((order.perm path t.innerTags).flatMap_right _)

end ChunkViewer
