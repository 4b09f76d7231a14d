import ChunkViewer.Proofs.GraphFiles
import ChunkViewer.Proofs.WhatFlags
import ChunkViewer.Spec.ConsoleProtocol

/-!
# Sessions keep the protocol

Every command takes the console from a prompt to the next one, or stops in the middle. The
protocol is broken only where the released array is used, after a bad dimension in `what`.
-/

namespace ChunkViewer

open ExceptRun Protocol

/-- How a session can stop: with the use of the released array exactly where the protocol is
broken, and that only under `bad`. -/
def StopsIn (bad : Prop) (e : Failure) (s : Option Console) : Prop :=
  (e = .releasedArray ↔ s = none) ∧ (e = .releasedArray → bad)

lemma stopsIn_other {bad : Prop} {e : Failure} (he : e ≠ .releasedArray) (s : Console) :
    StopsIn bad e (some s) :=
  ⟨iff_of_false he (by simp), fun h => absurd h he⟩

lemma stopsIn_released {bad : Prop} (hbad : bad) : StopsIn bad .releasedArray none :=
  ⟨iff_of_true rfl rfl, fun _ => hbad⟩

/-! ## Errors of a drawing -/

lemma orStop_errors {α : Type} (x : Exec α) : ErrorsIn (· ≠ .releasedArray) (orStop x) := by
  cases x with
  | ok a => exact ErrorsIn.ok _ _
  | error e => exact ErrorsIn.error (by simp)

lemma derefTag_errors (tag : Option NBTTag) : ErrorsIn (· ≠ .releasedArray) (derefTag tag) := by
  cases tag with
  | some tag => exact ErrorsIn.ok _ _
  | none => exact ErrorsIn.error (by simp)

lemma derefString_errors (tag : Option NBTTag) :
    ErrorsIn (· ≠ .releasedArray) (derefString tag) := by
  cases tag with
  | some tag => exact ErrorsIn.ok _ _
  | none => exact ErrorsIn.error (by simp)

lemma getBlockType_errors (order : IterationOrder) (tag : NBTTag) :
    ErrorsIn (· ≠ .releasedArray) (tag.getBlockType order) := by
  unfold NBTTag.getBlockType
  refine ErrorsIn.bind (derefString_errors _) fun blockName => ?_
  refine ErrorsIn.ite ?_ (ErrorsIn.ite ?_ (ErrorsIn.ite ?_ (ErrorsIn.ite ?_ ?_)))
  · exact ErrorsIn.bind (derefString_errors _) fun stoneType =>
      ErrorsIn.ite (ErrorsIn.ok _ _) (ErrorsIn.ok _ _)
  · dsimp only
    cases tag.findInnerTag order "old_leaf_type" [] with
    | some t => exact ErrorsIn.ok _ _
    | none => exact ErrorsIn.bind (derefString_errors _) fun leafType => ErrorsIn.ok _ _
  · dsimp only
    cases tag.findInnerTag order "old_log_type" [] with
    | some t => exact ErrorsIn.ok _ _
    | none => exact ErrorsIn.bind (derefString_errors _) fun logType => ErrorsIn.ok _ _
  · exact ErrorsIn.bind (derefString_errors _) fun sandType =>
      ErrorsIn.ite (ErrorsIn.ok _ _) (ErrorsIn.ok _ _)
  · repeat' apply ErrorsIn.ite
    all_goals exact ErrorsIn.ok _ _

lemma drawHeader_errors (order : IterationOrder) (stat : String → Bool) (b : Block) :
    ErrorsIn (· ≠ .releasedArray) (drawHeader order stat b).result := by
  unfold drawHeader
  by_cases hvalid : 0 ≤ b.state
  · rw [if_pos hvalid, Traced.result_bind]
    refine ErrorsIn.bind (derefTag_errors _) fun tag => ?_
    unfold drawTexture
    rw [Traced.result_bind]
    refine ErrorsIn.bind (derefString_errors _) fun name => ?_
    rw [Traced.result_bind]
    refine ErrorsIn.bind (ErrorsIn.ite (ErrorsIn.ok _ _) (ErrorsIn.error (by simp))) fun name => ?_
    rw [Traced.result_bind]
    refine ErrorsIn.bind (getBlockType_errors _ _) fun blockType => ?_
    by_cases hdrawn : name ≠ "air" ∨ blockType ≠ "NULL"
    · rw [if_pos hdrawn]
      exact ErrorsIn.ok _ _
    · rw [if_neg hdrawn]
      exact ErrorsIn.ok _ _
  · rw [if_neg hvalid]
    by_cases hcorrupt : b.state = -2
    · rw [if_pos hcorrupt]
      exact ErrorsIn.ok _ _
    · rw [if_neg hcorrupt]
      exact ErrorsIn.ok _ _

lemma drawSlice_errors (order : IterationOrder) (stat : String → Bool) (chunk : Chunk) (x z : ℤ)
    (facing : String) (yMin yMax : ℤ) :
    ErrorsIn (· ≠ .releasedArray) (drawSlice order stat chunk x z facing yMin yMax).result := by
  unfold drawSlice
  rw [Traced.result_bind]
  refine ErrorsIn.bind (orStop_errors _) fun columns => ?_
  refine Traced.forEach_errors fun column _ => Traced.forEach_errors fun y _ => ?_
  unfold drawBlock
  rw [Traced.result_bind]
  refine ErrorsIn.bind (orStop_errors _) fun currBlock => ?_
  rw [Traced.result_bind]
  refine ErrorsIn.bind (drawHeader_errors _ _ _) fun name => ?_
  by_cases hair : name ≠ "air"
  · rw [if_pos hair]
    exact ErrorsIn.ok _ _
  · rw [if_neg hair]
    exact ErrorsIn.ok _ _

/-! ## what -/

section

variable {env : Environment} {world : LoaderState} {bad : Prop} {n : ℕ} {xyz : CoordArray}
  {s : Console}

/-- The array is held, or it was released after a bad dimension and the prompt was printed. -/
def Matches (bad : Prop) (n : ℕ) (xyz : CoordArray) (s : Console) : Prop :=
  (xyz.live = true ∧ s = ⟨.holding, n⟩) ∨ (xyz.live = false ∧ s = ⟨.ready, n + 1⟩ ∧ bad)

lemma whatDimension_obeys (hs : Matches bad n xyz s) {word : String} (dim : ChunkDimension)
    (hword : dimensionOf word = none → bad) :
    Obeys Console.step s (whatDimension word xyz dim) (fun p s' => Matches bad n p.1 s')
      (StopsIn bad) := by
  cases hdim : dimensionOf word with
  | some dim' =>
    rw [whatDimension_ok hdim]
    exact Obeys.pure hs
  | none =>
    rcases hs with ⟨hlive, rfl⟩ | ⟨hlive, rfl, hbad⟩
    · rw [whatDimension_live hdim hlive]
      exact ⟨⟨.ready, n + 1⟩, rfl, Or.inr ⟨rfl, rfl, hword hdim⟩⟩
    · -- The second release.
      rw [whatDimension_released hdim hlive]
      exact stopsIn_released hbad

lemma whatLoop_obeys (hs : Matches bad n xyz s) {tokens : List String} (word : String)
    (dim : ChunkDimension) (htokens : ¬DimensionsGiven tokens → bad) :
    Obeys Console.step s (whatLoop tokens word xyz dim) (fun p s' => Matches bad n p.2.1 s')
      (StopsIn bad) := by
  induction tokens using List.twoStepInduction generalizing word xyz dim s with
  | nil => exact Obeys.pure hs
  | singleton flag =>
    by_cases hflag : flag = "-d"
    · subst hflag
      rw [whatLoop_last]
      refine Obeys.bind (whatDimension_obeys hs dim fun _ => htokens ?_) fun p s' hp => Obeys.pure hp
      exact fun hgiven => hgiven rfl
    · rw [whatLoop_skip hflag]
      exact Obeys.pure hs
  | cons_cons flag word' tokens ih ih' =>
    rw [DimensionsGiven] at htokens
    by_cases hflag : flag = "-d"
    · subst hflag
      rw [if_pos rfl, not_and_or] at htokens
      rw [whatLoop_pair]
      refine Obeys.bind (whatDimension_obeys hs dim fun hnone => htokens (Or.inl ?_)) fun p s' hp => ?_
      · simp [hnone]
      · exact ih hp word' p.2 fun hgiven => htokens (Or.inr hgiven)
    · rw [if_neg hflag] at htokens
      rw [whatLoop_skip hflag]
      exact ih' word' hs flag dim htokens

lemma printBlock_obeys (hs : Matches bad n xyz s) (dim : ChunkDimension) :
    Obeys Console.step s (printBlock env world xyz dim)
      (fun _ s' => xyz.live = true ∧ s' = ⟨.holding, n⟩) (StopsIn bad) := by
  obtain ⟨x, y, z, live⟩ := xyz
  rcases hs with ⟨rfl, rfl⟩ | ⟨rfl, rfl, hbad⟩
  · unfold printBlock
    rw [CoordArray.read_live, Traced.ok_bind]
    refine Obeys.after ⟨.holding, n⟩ rfl (Obeys.emits_bind ⟨.holding, n⟩ rfl ?_)
    refine Obeys.lift_bind (fun e he => stopsIn_other (orStop_errors _ e he) _) fun b _ => ?_
    by_cases hstate : b.state < 0
    · rw [if_pos hstate]
      exact Obeys.emits rfl ⟨rfl, rfl⟩
    · rw [if_neg hstate, Traced.ok_bind]
      refine Obeys.after ⟨.holding, n⟩ rfl (Obeys.emits_bind ⟨.holding, n⟩ rfl ?_)
      refine Obeys.lift_bind (fun e he => stopsIn_other (derefTag_errors _ e he) _) fun tag _ => ?_
      exact Obeys.emits rfl ⟨rfl, rfl⟩
  · -- The array is read after its release.
    exact stopsIn_released hbad

lemma emit_prompt_obeys (word : String) :
    Obeys Console.step ⟨.answered, n⟩ (emit .prompt >>= fun _ => pure word)
      (fun _ s' => s' = ⟨.ready, n + 1⟩) (StopsIn bad) :=
  Obeys.emits_bind ⟨.ready, n + 1⟩ rfl (Obeys.pure rfl)

lemma whatBlock_obeys {tokens : List String} (word : String)
    (htokens : ∀ coords flags, tokens = coords :: flags → ¬DimensionsGiven flags → bad) :
    Obeys Console.step ⟨.ready, n⟩ (whatBlock env world tokens word)
      (fun _ s' => s' = ⟨.ready, n + 1⟩) (StopsIn bad) := by
  have hflags : ¬DimensionsGiven (nextWord tokens word).1 → bad := by
    cases tokens with
    | nil => exact fun h => absurd trivial h
    | cons coords flags => exact htokens coords flags rfl
  unfold whatBlock
  generalize nextWord tokens word = next at hflags ⊢
  obtain ⟨tokens, word⟩ := next
  dsimp only at hflags ⊢
  cases hcoords : coordinates word with
  | none =>
    rw [parseCoords_none hcoords, Traced.ok_bind]
    exact Obeys.after ⟨.answered, n⟩ rfl (emit_prompt_obeys word)
  | some coords =>
    obtain ⟨x, y, z⟩ := coords
    rw [parseCoords_some hcoords, Traced.ok_bind]
    refine Obeys.after ⟨.holding, n⟩ rfl ?_
    have hheld : Matches bad n ⟨x, y, z, true⟩ ⟨.holding, n⟩ := Or.inl ⟨rfl, rfl⟩
    refine Obeys.bind (whatLoop_obeys hheld word .OVERWORLD hflags) fun p s hs => ?_
    obtain ⟨word', ⟨x', y', z', live⟩, dim⟩ := p
    refine Obeys.bind (printBlock_obeys hs dim) fun _ s' hs' => ?_
    obtain ⟨rfl, rfl⟩ := hs'
    rw [CoordArray.delete_live, Traced.ok_bind]
    exact Obeys.after ⟨.answered, n⟩ rfl (emit_prompt_obeys word')

/-! ## graph -/

lemma abandon_obeys {phase : Phase} (x y z : ℤ) {r : Report}
    (hr : phase.next (.report r) = some .holding) :
    Obeys Console.step ⟨phase, n⟩ (abandon ⟨x, y, z, true⟩ r) (fun _ s' => s' = ⟨.ready, n + 1⟩)
      (StopsIn bad) := by
  have hreport : Console.step ⟨phase, n⟩ (.report r) = some ⟨.holding, n⟩ := by
    rw [Console.step, if_neg (by simp), hr]
    rfl
  have hfollow : follow Console.step ⟨phase, n⟩ [.report r, .deleteArray, .prompt] =
      some ⟨.ready, n + 1⟩ := by
    rw [follow_cons, hreport]
    rfl
  rw [abandon_live]
  exact ⟨_, hfollow, rfl⟩

lemma follow_writes {outputs : List Output} :
    follow Console.step ⟨.writing, n⟩ (outputs.map Event.writeFile) = some ⟨.writing, n⟩ := by
  apply follow_of_forall
  intro e he
  obtain ⟨output, -, rfl⟩ := List.mem_map.mp he
  rfl

lemma follow_header (fileName : String) (settings : Settings) :
    follow Console.step ⟨.opening fileName, n⟩ ((graphHeader settings).map Event.writeFile) =
      some ⟨.writing, n⟩ := by
  cases hheader : graphHeader settings with
  | nil => exact absurd (congrArg List.length hheader) (by simp [graphHeader, puts])
  | cons output outputs =>
    rw [List.map_cons, follow_cons]
    exact follow_writes

lemma graphChunk_obeys (x y z : ℤ) (fileName : String) (settings : Settings) :
    Obeys Console.step ⟨.holding, n⟩ (graphChunk env world ⟨x, y, z, true⟩ fileName settings)
      (fun _ s' => s' = ⟨.ready, n + 1⟩) (StopsIn bad) := by
  unfold graphChunk
  rw [CoordArray.read_live, Traced.ok_bind]
  refine Obeys.after ⟨.holding, n⟩ rfl (Obeys.emits_bind ⟨.holding, n⟩ rfl ?_)
  refine Obeys.lift_bind (fun e he => stopsIn_other (orStop_errors _ e he) _) fun chunk _ => ?_
  cases chunk with
  | none => exact abandon_obeys x y z rfl
  | some p =>
    have hopen : follow Console.step ⟨.removed fileName, n⟩ [.openFile fileName] =
        some ⟨.opening fileName, n⟩ := by
      simp [follow, Console.step, Phase.next]
    refine Obeys.emits_bind ⟨.removed fileName, n⟩ rfl (Obeys.emits_bind _ hopen ?_)
    by_cases hopens : env.opens fileName = true
    · rw [if_pos hopens]
      refine Obeys.emits_bind _ (follow_header fileName settings) ?_
      rw [Traced.ok_bind]
      refine Obeys.after ⟨.writing, n⟩ rfl ?_
      refine Obeys.lift_bind (fun e he => stopsIn_other (orStop_errors _ e he) _) fun chunk _ => ?_
      have hdraw : Obeys Console.step ⟨.writing, n⟩ ((drawSlice env.order env.stat chunk x z
          settings.facing settings.yMin settings.yMax).mapEvents Event.writeFile)
          (fun _ s' => s' = ⟨.writing, n⟩) (StopsIn bad) :=
        Obeys.mapEvents (fun _ => rfl) (fun _ _ => rfl)
          fun e he => stopsIn_other (drawSlice_errors _ _ _ _ _ _ _ _ e he) _
      refine hdraw.bind fun _ s' hs' => ?_
      subst hs'
      refine Obeys.emits_bind ⟨.holding, n⟩ rfl ?_
      rw [CoordArray.delete_live, Traced.ok_bind]
      exact Obeys.after ⟨.answered, n⟩ rfl (Obeys.emits rfl rfl)
    · rw [if_neg hopens]
      exact abandon_obeys x y z (if_pos rfl)

lemma graphBlock_obeys (tokens : List String) (word : String) :
    Obeys Console.step ⟨.ready, n⟩ (graphBlock env world tokens word)
      (fun _ s' => s' = ⟨.ready, n + 1⟩) (StopsIn bad) := by
  have hword : ∀ {x : Command Unit} (word : String),
      Obeys Console.step ⟨.holding, n⟩ x (fun _ s' => s' = ⟨.ready, n + 1⟩) (StopsIn bad) →
        Obeys Console.step ⟨.holding, n⟩ (x >>= fun _ => pure word)
          (fun _ s' => s' = ⟨.ready, n + 1⟩) (StopsIn bad) :=
    fun word hx => hx.bind fun _ _ hs => Obeys.pure hs
  unfold graphBlock
  obtain ⟨tokens, word⟩ := nextWord tokens word
  dsimp only
  cases hcoords : coordinates word with
  | none =>
    rw [parseCoords_none hcoords, Traced.ok_bind]
    exact Obeys.after ⟨.answered, n⟩ rfl (emit_prompt_obeys word)
  | some coords =>
    obtain ⟨x, y, z⟩ := coords
    rw [parseCoords_some hcoords, Traced.ok_bind]
    dsimp only
    rw [CoordArray.read_live, Traced.ok_bind, Traced.after_after]
    refine Obeys.after ⟨.holding, n⟩ rfl ?_
    dsimp only
    obtain ⟨tokens, fileName⟩ := nextWord tokens ""
    dsimp only
    by_cases hname : fileName.toList.all (· = ' ') = true
    · rw [if_pos hname]
      exact hword word (abandon_obeys x y z rfl)
    · rw [if_neg hname]
      obtain ⟨last, result⟩ := graphLoop env tokens word (env.defaults y)
      cases result with
      | error r => exact hword last (abandon_obeys x y z rfl)
      | ok settings =>
        dsimp only
        by_cases hbounds : settings.yMax < 0 ∨ settings.yMax ≤ settings.yMin ∨ settings.yMin < 0
        · rw [if_pos hbounds]
          exact hword last (abandon_obeys x y z rfl)
        · rw [if_neg hbounds]
          exact hword last (graphChunk_obeys x y z fileName settings)

/-! ## Lines -/

lemma emit_obeys {e : Event} (he : Console.step ⟨.ready, n⟩ e = some ⟨.answered, n⟩)
    (word : String) :
    Obeys Console.step ⟨.ready, n⟩ (emit e >>= fun _ => emit .prompt >>= fun _ => pure word)
      (fun _ s' => s' = ⟨.ready, n + 1⟩) (StopsIn bad) := by
  have hfollow : follow Console.step ⟨.ready, n⟩ [e] = some ⟨.answered, n⟩ := by
    rw [follow_cons, he]
    rfl
  exact Obeys.emits_bind _ hfollow (emit_prompt_obeys word)

lemma withBlock_obeys {command word : String} (hword : word ≠ "block")
    {run : List String → String → Command String} {tokens : List String}
    (hrun : ∀ rest, tokens = "block" :: rest →
      Obeys Console.step ⟨.ready, n⟩ (run rest "block") (fun _ s' => s' = ⟨.ready, n + 1⟩)
        (StopsIn bad)) :
    Obeys Console.step ⟨.ready, n⟩ (withBlock command run tokens word)
      (fun _ s' => s' = ⟨.ready, n + 1⟩) (StopsIn bad) := by
  unfold withBlock
  cases tokens with
  | nil =>
    dsimp only [nextWord]
    rw [if_neg hword]
    exact emit_obeys rfl word
  | cons token rest =>
    dsimp only [nextWord]
    by_cases htoken : token = "block"
    · subst htoken
      rw [if_pos rfl]
      exact hrun rest rfl
    · rw [if_neg htoken]
      exact emit_obeys rfl token

lemma runLine_obeys {tokens : List String} (word : String)
    (htokens : ∀ coords flags, tokens = "what" :: "block" :: coords :: flags →
      ¬DimensionsGiven flags → bad) :
    Obeys Console.step ⟨.ready, n⟩ (runLine env world tokens word)
      (fun _ s' => s' = ⟨.ready, n + 1⟩) (StopsIn bad) := by
  -- A word that is left from the lines before has no words after it.
  have hnext : ∀ rest, (nextWord tokens word).1 = "block" :: rest →
      tokens = (nextWord tokens word).2 :: "block" :: rest := by
    intro rest hrest
    cases tokens with
    | nil => exact absurd hrest (by simp [nextWord])
    | cons token tokens => exact congrArg _ hrest
  unfold runLine
  generalize nextWord tokens word = next at hnext ⊢
  obtain ⟨rest, word⟩ := next
  dsimp only at hnext ⊢
  by_cases hwhat : word = "what"
  · subst hwhat
    rw [if_pos rfl]
    refine withBlock_obeys (by decide) fun rest' hrest' => ?_
    refine whatBlock_obeys "block" fun coords flags hflags => htokens coords flags ?_
    rw [hnext rest' hrest', hflags]
  · rw [if_neg hwhat]
    by_cases hgraph : word = "graph"
    · subst hgraph
      rw [if_pos rfl]
      exact withBlock_obeys (by decide) fun rest' _ => graphBlock_obeys rest' "block"
    · rw [if_neg hgraph]
      by_cases hhelp : word = "help"
      · rw [if_pos hhelp]
        refine emit_obeys ?_ _
        unfold usage
        split_ifs <;> rfl
      · rw [if_neg hhelp]
        exact emit_obeys rfl word

end

/-! ## Sessions -/

/-- Every session keeps the protocol and prints one prompt for each line, or stops in a line. It
breaks the protocol exactly where it uses the released array, and only after a `what` line with
a bad dimension. -/
theorem session_keeps_protocol (world : LoaderState) (lines : List (Environment × String))
    (word : String) (n : ℕ) :
    Obeys Console.step ⟨.ready, n⟩ (session world lines word)
      (fun _ s => s = ⟨.answered, n + lines.length⟩)
      (fun e s => (e = .releasedArray ↔ s = none) ∧
        (e = .releasedArray → ∃ p ∈ lines, BadWhatLine p.2)) := by
  induction lines generalizing word n with
  | nil => exact Obeys.emits rfl rfl
  | cons p lines ih =>
    obtain ⟨env, line⟩ := p
    have hline : Obeys Console.step ⟨.ready, n⟩ (runLine env world (lineWords line) word)
        (fun _ s' => s' = ⟨.ready, n + 1⟩) (StopsIn (BadWhatLine line)) :=
      runLine_obeys word fun coords flags hwords hflags => ⟨coords, flags, hwords, hflags⟩
    rw [session]
    refine Obeys.bind (hline.mono (fun _ _ hs => hs) fun e s hs => ⟨hs.1, fun he => ?_⟩) ?_
    · exact ⟨(env, line), List.mem_cons_self, hs.2 he⟩
    · intro word s hs
      subst hs
      refine (ih word (n + 1)).mono (fun _ s hs => ?_) fun e s hs => ⟨hs.1, fun he => ?_⟩
      · rw [hs, List.length_cons, Nat.add_assoc, Nat.add_comm 1]
      · obtain ⟨p, hp, hbad⟩ := hs.2 he
        exact ⟨p, List.mem_cons_of_mem _ hp, hbad⟩

end ChunkViewer
