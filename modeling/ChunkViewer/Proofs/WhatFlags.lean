import ChunkViewer.Spec.CommandTrace

/-!
# A bad dimension in `what`

The `continue` after a bad dimension stays in the loop over the words of the line. So the
command goes on with a released array: it is read by the lookup, unless another bad dimension
releases it again.
-/

namespace ChunkViewer

variable {word flag : String} {tokens : List String} {xyz : CoordArray} {dim : ChunkDimension}

/-! ## One flag -/

lemma whatDimension_ok {dim' : ChunkDimension} (h : dimensionOf word = some dim') :
    whatDimension word xyz dim = ⟨[], .ok (xyz, dim')⟩ := by
  rw [whatDimension, h]
  rfl

lemma whatDimension_live (h : dimensionOf word = none) (hlive : xyz.live = true) :
    whatDimension word xyz dim = ⟨[.report .badDimension, .deleteArray, .prompt],
      .ok ({ xyz with live := false }, dim)⟩ := by
  unfold whatDimension CoordArray.delete
  rw [h, hlive]
  rfl

lemma whatDimension_released (h : dimensionOf word = none) (hlive : xyz.live = false) :
    whatDimension word xyz dim =
      ⟨[.report .badDimension, .deleteArray], .error .releasedArray⟩ := by
  unfold whatDimension CoordArray.delete
  rw [h, hlive]
  rfl

lemma whatLoop_skip (h : flag ≠ "-d") :
    whatLoop (flag :: tokens) word xyz dim = whatLoop tokens flag xyz dim := by
  rw [whatLoop.eq_def]
  dsimp only
  rw [if_neg h]

lemma whatLoop_last : whatLoop ["-d"] word xyz dim =
    (whatDimension "-d" xyz dim >>= fun p => pure ("-d", p.1, p.2)) := by
  rw [whatLoop, if_pos rfl]

lemma whatLoop_pair {last : String} : whatLoop ("-d" :: word :: tokens) last xyz dim =
    (whatDimension word xyz dim >>= fun p => whatLoop tokens word p.1 p.2) := by
  rw [whatLoop, if_pos rfl]

/-! ## The loop -/

lemma whatLoop_released (tokens : List String) (word : String) (xyz : CoordArray)
    (dim : ChunkDimension) (hlive : xyz.live = false) :
    (.deleteArray ∈ (whatLoop tokens word xyz dim).events ∧
      (whatLoop tokens word xyz dim).result = .error .releasedArray) ∨
    ∃ word' xyz' dim', (whatLoop tokens word xyz dim).result = .ok (word', xyz', dim') ∧
      xyz'.live = false := by
  induction tokens using List.twoStepInduction generalizing word dim with
  | nil => exact Or.inr ⟨word, xyz, dim, rfl, hlive⟩
  | singleton flag =>
    by_cases hflag : flag = "-d"
    · subst hflag
      left
      rw [whatLoop_last, whatDimension_released (by decide) hlive]
      exact ⟨by simp, rfl⟩
    · rw [whatLoop_skip hflag]
      exact Or.inr ⟨flag, xyz, dim, rfl, hlive⟩
  | cons_cons flag value rest ih ih' =>
    by_cases hflag : flag = "-d"
    · subst hflag
      rw [whatLoop_pair]
      cases hvalue : dimensionOf value with
      | some dim' =>
        rw [whatDimension_ok hvalue]
        exact ih value dim'
      | none =>
        left
        rw [whatDimension_released hvalue hlive]
        exact ⟨by simp, rfl⟩
    · rw [whatLoop_skip hflag]
      exact ih' value flag dim

/-- Some word after a `-d` is no dimension. -/
def HasBadDimension (tokens : List String) : Prop :=
  ∃ word, ["-d", word] <:+: tokens ∧ dimensionOf word = none

lemma hasBadDimension_skip (h : flag ≠ "-d") (hbad : HasBadDimension (flag :: tokens)) :
    HasBadDimension tokens := by
  obtain ⟨word, hinfix, hword⟩ := hbad
  rcases List.infix_cons_iff.mp hinfix with hprefix | hinfix
  · exact absurd (List.cons_prefix_cons.mp hprefix).1.symm h
  · exact ⟨word, hinfix, hword⟩

lemma hasBadDimension_pair {dim : ChunkDimension} (h : dimensionOf word = some dim)
    (hbad : HasBadDimension ("-d" :: word :: tokens)) : HasBadDimension tokens := by
  have hword : word ≠ "-d" := by
    rintro rfl
    rw [show dimensionOf "-d" = none by decide] at h
    exact absurd h (by simp)
  apply hasBadDimension_skip hword
  obtain ⟨word', hinfix, hword'⟩ := hbad
  rcases List.infix_cons_iff.mp hinfix with hprefix | hinfix
  · obtain ⟨-, hprefix⟩ := List.cons_prefix_cons.mp hprefix
    rw [(List.cons_prefix_cons.mp hprefix).1, h] at hword'
    exact absurd hword' (by simp)
  · exact ⟨word', hinfix, hword'⟩

/-- With a bad dimension the loop releases the array, and again or leaves it released. -/
lemma whatLoop_bad (tokens : List String) (word : String) (xyz : CoordArray)
    (dim : ChunkDimension) (hlive : xyz.live = true) (hbad : HasBadDimension tokens) :
    ∃ before after, (whatLoop tokens word xyz dim).events = before ++ .deleteArray :: after ∧
      ((.deleteArray ∈ after ∧ (whatLoop tokens word xyz dim).result = .error .releasedArray) ∨
      ∃ word' xyz' dim', (whatLoop tokens word xyz dim).result = .ok (word', xyz', dim') ∧
        xyz'.live = false) := by
  induction tokens using List.twoStepInduction generalizing word dim with
  | nil =>
    obtain ⟨word', hinfix, -⟩ := hbad
    exact absurd (List.infix_nil.mp hinfix) (by simp)
  | singleton flag =>
    obtain ⟨word', hinfix, -⟩ := hbad
    exact absurd hinfix.length_le (by simp)
  | cons_cons flag value rest ih ih' =>
    by_cases hflag : flag = "-d"
    · subst hflag
      rw [whatLoop_pair]
      cases hvalue : dimensionOf value with
      | some dim' =>
        rw [whatDimension_ok hvalue]
        exact ih value dim' (hasBadDimension_pair hvalue hbad)
      | none =>
        rw [whatDimension_live hvalue hlive, Traced.ok_bind]
        refine ⟨[.report .badDimension],
          .prompt :: (whatLoop rest value { xyz with live := false } dim).events, rfl, ?_⟩
        rcases whatLoop_released rest value { xyz with live := false } dim rfl with h | h
        · exact Or.inl ⟨List.mem_cons_of_mem _ h.1, h.2⟩
        · exact Or.inr h
    · rw [whatLoop_skip hflag]
      exact ih' value flag dim (hasBadDimension_skip hflag hbad)

/-! ## The command -/

lemma runLine_what {env : Environment} {world : LoaderState} {coords last : String}
    {x y z : ℤ} (hcoords : coordinates coords = some (x, y, z)) :
    runLine env world ("what" :: "block" :: coords :: tokens) last =
      ((⟨[.newArray], .ok ()⟩ : Command Unit) >>= fun _ =>
        whatLoop tokens coords ⟨x, y, z, true⟩ .OVERWORLD >>= fun p => do
          printBlock env world p.2.1 p.2.2
          let _ ← p.2.1.delete
          emit .prompt
          pure p.1) := by
  unfold runLine withBlock whatBlock parseCoords
  simp only [nextWord, if_true, hcoords]
  rfl

/-- Whatever follows, a bad dimension never aborts `what`. -/
theorem what_bad_dimension (env : Environment) (world : LoaderState) {coords : String} {x y z : ℤ}
    (hcoords : coordinates coords = some (x, y, z)) {tokens before after : List String}
    {word : String} (htokens : tokens = before ++ "-d" :: word :: after)
    (hword : word ≠ "overworld" ∧ word ≠ "nether" ∧ word ≠ "end") (last : String) :
    ¬AbortsAtDimension (runLine env world ("what" :: "block" :: coords :: tokens) last).events := by
  have hnone : dimensionOf word = none := by
    rw [dimensionOf, if_neg hword.1, if_neg hword.2.1, if_neg hword.2.2]
  have hbad : HasBadDimension tokens := ⟨word, ⟨before, after, by simp [htokens]⟩, hnone⟩
  obtain ⟨l₁, l₂, hevents, hcase⟩ :=
    whatLoop_bad tokens coords ⟨x, y, z, true⟩ .OVERWORLD rfl hbad
  intro habort
  have hreleased := habort.released
  rw [runLine_what hcoords, Traced.ok_bind, Traced.after_events] at hreleased
  rcases hcase with ⟨hagain, hresult⟩ | ⟨word', xyz', dim', hresult, hlive⟩
  · rw [Traced.events_bind_of_error hresult, hevents, ← List.append_assoc] at hreleased
    exact hreleased.after.1 hagain
  · have hread : printBlock env world xyz' dim' = ⟨[.readArray], .error .releasedArray⟩ := by
      unfold printBlock CoordArray.read
      rw [hlive]
      rfl
    rw [Traced.events_bind_of_ok hresult, hevents, hread] at hreleased
    have hsplit : ReleasedOnce ((.newArray :: l₁) ++ .deleteArray :: (l₂ ++ [.readArray])) := by
      simpa using hreleased
    exact hsplit.after.2 (List.mem_append_right _ (List.mem_singleton_self _))

/-- One bad dimension. -/
theorem what_bad_dimension_one :
    ¬AbortsAtDimension (runLine ⟨.insertion, fun _ => false, fun _ => true, fun n => n⟩
      LoaderState.init ["what", "block", "(1,2,3)", "-d", "moon"] "").events :=
  what_bad_dimension _ _ (show coordinates "(1,2,3)" = some (1, 2, 3) by decide)
    (show ["-d", "moon"] = [] ++ "-d" :: "moon" :: [] from rfl) (by decide) ""

/-- Its trace: the array is read after the release. -/
theorem what_bad_dimension_reads :
    (runLine ⟨.insertion, fun _ => false, fun _ => true, fun n => n⟩
      LoaderState.init ["what", "block", "(1,2,3)", "-d", "moon"] "").events =
        [.newArray, .report .badDimension, .deleteArray, .prompt, .readArray] ∧
      ¬AbortsAtDimension
        [.newArray, .report .badDimension, .deleteArray, .prompt, .readArray] := by
  constructor
  · rw [runLine_what (show coordinates "(1,2,3)" = some (1, 2, 3) by decide)]
    rfl
  · intro habort
    have hsplit : ReleasedOnce
        ([.newArray, .report .badDimension] ++ .deleteArray :: [.prompt, .readArray]) :=
      habort.released
    exact hsplit.after.2 (by decide)

end ChunkViewer
