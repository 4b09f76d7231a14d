import ChunkViewer.Proofs.WhatAndGraph
import ChunkViewer.Spec.CommandTrace

/-!
# The exits of `graph`

A `graph` line ends in one of a few ways: an error before anything is touched, a file that
cannot be created, or a drawing. In each of them the array is released once, at the end.
-/

namespace ChunkViewer

variable {env : Environment} {world : LoaderState}

/-! ## Numbers and flags -/

lemma stoi_int {s : String} {n : ℤ} (h : stoi s = some n) : -2147483648 ≤ n ∧ n ≤ 2147483647 := by
  unfold stoi at h
  dsimp only at h
  split_ifs at h with _ hn
  rw [← Option.some.inj h]
  exact hn

example : stoi " -12abc" = some (-12) ∧ stoi "-d" = none ∧ stoi "2147483648" = none := by decide

lemma coordinates_int {word : String} {x y z : ℤ} (h : coordinates word = some (x, y, z)) :
    (-2147483648 ≤ x ∧ x ≤ 2147483647) ∧ (-2147483648 ≤ y ∧ y ≤ 2147483647) ∧
      -2147483648 ≤ z ∧ z ≤ 2147483647 := by
  unfold coordinates at h
  split_ifs at h
  dsimp only at h
  split at h
  · next x' y' z' hx hy hz =>
    split_ifs at h
    obtain ⟨rfl, hrest⟩ := Prod.mk.inj (Option.some.inj h)
    obtain ⟨rfl, rfl⟩ := Prod.mk.inj hrest
    exact ⟨stoi_int hx, stoi_int hy, stoi_int hz⟩
  · exact absurd h (by simp)

example : coordinates "(1,-2,3)" = some (1, -2, 3) ∧ coordinates "(1,2,3,)" = none := by decide

lemma graphFlag_error {flag word : String} {s : Settings} {r : Report}
    (h : graphFlag env flag word s = .error r) (fileName : String) : r ≠ .cannotCreate fileName := by
  unfold graphFlag at h
  rintro rfl
  split_ifs at h
  · cases hdim : dimensionOf word with
    | none => rw [hdim] at h; cases h
    | some dim => rw [hdim] at h; cases h
  · cases h
  · cases hn : stoi word with
    | none => rw [hn] at h; cases h
    | some n => rw [hn] at h; cases h
  · cases hn : stoi word with
    | none => rw [hn] at h; cases h
    | some n => rw [hn] at h; cases h

lemma graphLoop_error {tokens : List String} {word : String} {s : Settings} {r : Report}
    (h : (graphLoop env tokens word s).2 = .error r) (fileName : String) :
    r ≠ .cannotCreate fileName := by
  induction tokens using List.twoStepInduction generalizing word s with
  | nil => cases h
  | singleton flag =>
    unfold graphLoop at h
    split_ifs at h
    · exact graphFlag_error h fileName
    · rintro rfl
      cases h
  | cons_cons flag value rest ih _ =>
    unfold graphLoop at h
    split_ifs at h
    · dsimp only at h
      cases hflag : graphFlag env flag value s with
      | ok s' =>
        rw [hflag] at h
        exact ih h
      | error r' =>
        rw [hflag] at h
        obtain rfl := Except.error.inj h
        exact graphFlag_error hflag fileName
    · rintro rfl
      cases h

/-! ## The array -/

lemma CoordArray.read_live (x y z : ℤ) :
    (⟨x, y, z, true⟩ : CoordArray).read = ⟨[.readArray], .ok (x, y, z)⟩ := rfl

lemma CoordArray.delete_live (x y z : ℤ) :
    (⟨x, y, z, true⟩ : CoordArray).delete = ⟨[.deleteArray], .ok ⟨x, y, z, false⟩⟩ := rfl

lemma abandon_live (x y z : ℤ) (r : Report) :
    abandon ⟨x, y, z, true⟩ r = ⟨[.report r, .deleteArray, .prompt], .ok ()⟩ := rfl

/-! ## The ways a line can go -/

/-- What happens before a drawing is written. -/
def graphOpening (fileName : String) (x y z : ℤ) (s : Settings) : List Event :=
  [.newArray, .readArray, .readArray, .lookup x y z s.dim, .removeFile fileName,
    .openFile fileName] ++ (graphHeader s).map Event.writeFile ++ [.readArray]

/-- The runs of a `graph` line. -/
inductive GraphRun (env : Environment) (world : LoaderState) : Command String → Prop
  | badArgument (word : String) :
    GraphRun env world ⟨[.report (.badArgument "graph" word), .prompt], .ok word⟩
  | badCoords (word : String) :
    GraphRun env world ⟨[.newArray, .report .badCoords, .deleteArray, .prompt], .ok word⟩
  | abandoned {before : List Event} {r : Report} (word : String) :
    (∀ e ∈ before, e = .readArray ∨ ∃ x y z dim, e = .lookup x y z dim) →
    (∀ fileName, r ≠ .cannotCreate fileName) →
    GraphRun env world ⟨.newArray :: before ++ [.report r, .deleteArray, .prompt], .ok word⟩
  | notCreated (fileName word : String) (x y z : ℤ) (dim : ChunkDimension) :
    GraphRun env world ⟨[.newArray, .readArray, .readArray, .lookup x y z dim,
      .removeFile fileName, .openFile fileName, .report (.cannotCreate fileName), .deleteArray,
      .prompt], .ok word⟩
  | drawn (fileName word : String) (x y z : ℤ) (s : Settings) (outputs : List Output) :
    GraphRun env world ⟨graphOpening fileName x y z s ++ outputs.map Event.writeFile ++
      [.closeFile, .deleteArray, .prompt], .ok word⟩
  | dangling {id : String} {p : ChunkPointer} {e : Failure} (fileName : String) (x y z : ℤ)
    (s : Settings) : world.world.findChunk id s.dim = some p → orStop (world.deref p) = .error e →
    GraphRun env world ⟨graphOpening fileName x y z s, .error e⟩
  | notDrawn {p : ChunkPointer} {chunk : Chunk} {e : Failure} {outputs : List Output}
    (fileName : String) (x y z : ℤ) (s : Settings) :
    world.getBlockChunk x z s.dim = .ok (some p) → world.deref p = .ok chunk →
    drawSlice env.order env.stat chunk x z s.facing s.yMin s.yMax = ⟨outputs, .error e⟩ →
    GraphRun env world ⟨graphOpening fileName x y z s ++ outputs.map Event.writeFile, .error e⟩

lemma graphChunk_run {fileName : String} {x y z : ℤ} (hx : -2147483648 ≤ x ∧ x ≤ 2147483647)
    (hz : -2147483648 ≤ z ∧ z ≤ 2147483647) (s : Settings) (word : String) :
    GraphRun env world ((graphChunk env world ⟨x, y, z, true⟩ fileName s >>= fun _ =>
      pure word).after [.newArray, .readArray]) := by
  unfold graphChunk
  rw [CoordArray.read_live, Traced.ok_bind]
  dsimp only
  rw [emit, Traced.emits_bind, world.getBlockChunk_eq hx hz, orStop, Traced.lift_ok_bind]
  cases hp : world.world.findChunk (chunkID (chunkCoordinate x) (chunkCoordinate z)) s.dim with
  | none =>
    dsimp only
    rw [abandon_live]
    have h : ∀ e ∈ [Event.readArray, .readArray, .lookup x y z s.dim],
        e = .readArray ∨ ∃ x y z dim, e = .lookup x y z dim := by simp
    exact GraphRun.abandoned word h (by simp)
  | some p =>
    dsimp only
    rw [emit, Traced.emits_bind, emit, Traced.emits_bind]
    by_cases hopens : env.opens fileName = true
    · rw [if_pos hopens, Traced.emits_bind, Traced.ok_bind]
      dsimp only
      cases hc : world.deref p with
      | error e =>
        rw [orStop, Traced.lift_error_bind]
        exact GraphRun.dangling fileName x y z s hp (by rw [hc, orStop])
      | ok chunk =>
        rw [orStop, Traced.lift_ok_bind]
        obtain ⟨outputs, result, hdraw⟩ : ∃ outputs result, drawSlice env.order env.stat chunk x z
          s.facing s.yMin s.yMax = ⟨outputs, result⟩ := ⟨_, _, rfl⟩
        rw [hdraw, Traced.mapEvents]
        cases result with
        | error e =>
          rw [Traced.error_bind]
          have hfound : world.getBlockChunk x z s.dim = .ok (some p) := by
            rw [world.getBlockChunk_eq hx hz, hp]
          have h := @GraphRun.notDrawn env world _ _ _ _ fileName x y z s hfound hc hdraw
          simpa [graphOpening] using h
        | ok _ =>
          rw [Traced.ok_bind, emit, Traced.emits_bind, CoordArray.delete_live, Traced.ok_bind, emit]
          have h := @GraphRun.drawn env world fileName word x y z s outputs
          simpa [graphOpening, Traced.emits] using h
    · rw [if_neg hopens, abandon_live]
      exact GraphRun.notCreated fileName word x y z s.dim

lemma parseCoords_some {word : String} {x y z : ℤ} (h : coordinates word = some (x, y, z)) :
    parseCoords word = ⟨[.newArray], .ok (some ⟨x, y, z, true⟩)⟩ := by
  unfold parseCoords
  rw [h]
  rfl

lemma parseCoords_none {word : String} (h : coordinates word = none) :
    parseCoords word = ⟨[.newArray, .report .badCoords, .deleteArray], .ok none⟩ := by
  unfold parseCoords
  rw [h]
  rfl

lemma GraphRun.exit (x y z : ℤ) {r : Report} (hr : ∀ fileName, r ≠ .cannotCreate fileName)
    (word : String) : GraphRun env world ((abandon ⟨x, y, z, true⟩ r >>= fun _ =>
      pure word).after [.newArray, .readArray]) := by
  rw [abandon_live]
  have h : ∀ e ∈ [Event.readArray], e = .readArray ∨ ∃ x y z dim, e = .lookup x y z dim := by simp
  exact GraphRun.abandoned word h hr

lemma graphBlock_run (tokens : List String) (last : String) :
    GraphRun env world (graphBlock env world tokens last) := by
  unfold graphBlock
  obtain ⟨tokens, word⟩ := nextWord tokens last
  dsimp only
  cases hcoords : coordinates word with
  | none =>
    rw [parseCoords_none hcoords, Traced.ok_bind]
    exact GraphRun.badCoords word
  | some coords =>
    obtain ⟨x, y, z⟩ := coords
    obtain ⟨hx, -, hz⟩ := coordinates_int hcoords
    rw [parseCoords_some hcoords, Traced.ok_bind]
    dsimp only
    rw [CoordArray.read_live, Traced.ok_bind, Traced.after_after]
    dsimp only
    obtain ⟨tokens, fileName⟩ := nextWord tokens ""
    dsimp only
    by_cases hname : fileName.toList.all (· = ' ') = true
    · rw [if_pos hname]
      exact GraphRun.exit x y z (by simp) word
    · rw [if_neg hname]
      obtain ⟨last, settings, hloop⟩ : ∃ last settings,
        graphLoop env tokens word (env.defaults y) = (last, settings) := ⟨_, _, rfl⟩
      rw [hloop]
      cases settings with
      | error r => exact GraphRun.exit x y z (graphLoop_error (congrArg Prod.snd hloop)) last
      | ok s =>
        dsimp only
        by_cases hbounds : s.yMax < 0 ∨ s.yMax ≤ s.yMin ∨ s.yMin < 0
        · rw [if_pos hbounds]
          exact GraphRun.exit x y z (by simp) last
        · rw [if_neg hbounds]
          exact graphChunk_run hx hz s last

lemma runLine_graph (env : Environment) (world : LoaderState) (tokens : List String)
    (last : String) : runLine env world ("graph" :: tokens) last =
      withBlock "graph" (graphBlock env world) tokens "graph" := by
  unfold runLine nextWord
  dsimp only
  rw [if_neg (by decide), if_pos rfl]

/-- Every line that starts with `graph` runs in one of these ways. -/
lemma runLine_graph_run (env : Environment) (world : LoaderState) (tokens : List String)
    (last : String) : GraphRun env world (runLine env world ("graph" :: tokens) last) := by
  rw [runLine_graph]
  unfold withBlock
  obtain ⟨tokens, word⟩ := nextWord tokens "graph"
  dsimp only
  by_cases hword : word = "block"
  · rw [if_pos hword]
    exact graphBlock_run tokens word
  · rw [if_neg hword]
    exact GraphRun.badArgument word

/-! ## What the runs leave -/

lemma mem_drawing {fileName : String} {x y z : ℤ} {s : Settings} {outputs : List Output} {e : Event}
    (h : e ∈ graphOpening fileName x y z s ++ outputs.map Event.writeFile) :
    e ≠ .deleteArray ∧ ∀ r, e ≠ .report r := by
  simp only [graphOpening, List.mem_append, List.mem_cons, List.mem_map, List.not_mem_nil,
    or_false] at h
  rcases h with (((rfl | rfl | rfl | rfl | rfl | rfl) | ⟨o, -, rfl⟩) | rfl) | ⟨o, -, rfl⟩ <;> simp

lemma GraphRun.untouched {run : Command String} (h : GraphRun env world run) {r : Report}
    (hr : .report r ∈ run.events) (hcreate : ∀ fileName, r ≠ .cannotCreate fileName) :
    ∀ e ∈ run.events, ¬e.TouchesFile := by
  cases h with
  | badArgument word => simp [Event.TouchesFile]
  | badCoords word => simp [Event.TouchesFile]
  | abandoned word hbefore hr' =>
    intro e he
    rcases List.mem_append.mp he with he | he
    · rcases List.mem_cons.mp he with rfl | he
      · simp [Event.TouchesFile]
      · rcases hbefore e he with rfl | ⟨x, y, z, dim, rfl⟩ <;> simp [Event.TouchesFile]
    · simp only [List.mem_cons, List.not_mem_nil, or_false] at he
      rcases he with rfl | rfl | rfl <;> simp [Event.TouchesFile]
  | notCreated fileName word x y z dim =>
    simp only [List.mem_cons, reduceCtorEq, Event.report.injEq, false_or, List.not_mem_nil,
      or_false] at hr
    exact absurd hr (hcreate fileName)
  | drawn fileName word x y z s outputs =>
    rcases List.mem_append.mp hr with hr | hr
    · exact absurd rfl ((mem_drawing hr).2 r)
    · simp at hr
  | dangling fileName x y z s hp hderef =>
    exact absurd rfl ((@mem_drawing fileName x y z s [] _ (by simpa using hr)).2 r)
  | notDrawn fileName x y z s hfound hderef hdraw => exact absurd rfl ((mem_drawing hr).2 r)

lemma GraphRun.releasedOnce {run : Command String} (h : GraphRun env world run) {word : String}
    (hok : run.result = .ok word) (hnew : .newArray ∈ run.events) : ReleasedOnce run.events := by
  cases h with
  | badArgument word => simp at hnew
  | badCoords word => exact ⟨[.newArray, .report .badCoords], [.prompt], rfl, by simp⟩
  | @abandoned before r word hbefore hr =>
    have hdelete : .deleteArray ∉ before := by
      intro hmem
      rcases hbefore _ hmem with h | ⟨x, y, z, dim, h⟩ <;> cases h
    exact ⟨.newArray :: before ++ [.report r], [.prompt], by simp, by simp [hdelete]⟩
  | notCreated fileName word x y z dim =>
    exact ⟨[.newArray, .readArray, .readArray, .lookup x y z dim, .removeFile fileName,
      .openFile fileName, .report (.cannotCreate fileName)], [.prompt], rfl, by simp⟩
  | drawn fileName word x y z s outputs =>
    refine ⟨graphOpening fileName x y z s ++ outputs.map Event.writeFile ++ [.closeFile], [.prompt],
      by simp, ?_, by simp, by simp⟩
    intro hmem
    rcases List.mem_append.mp hmem with hmem | hmem
    · exact absurd rfl (mem_drawing hmem).1
    · simp at hmem
  | dangling fileName x y z s hp hderef => cases hok
  | notDrawn fileName x y z s hfound hderef hdraw => cases hok

/-- A `graph` line that reports anything but a file that cannot be created has not touched a
file. One that ends has released its array once, after the last use; only the drawing of the slice
that it found keeps it from ending. -/
theorem graph_touches_files_last (env : Environment) (world : LoaderState) (tokens : List String)
    (last : String) :
    (∀ r, .report r ∈ (runLine env world ("graph" :: tokens) last).events →
      (∀ fileName, r ≠ .cannotCreate fileName) →
      ∀ e ∈ (runLine env world ("graph" :: tokens) last).events, ¬e.TouchesFile) ∧
    (∀ word, (runLine env world ("graph" :: tokens) last).result = .ok word →
      .newArray ∈ (runLine env world ("graph" :: tokens) last).events →
      ReleasedOnce (runLine env world ("graph" :: tokens) last).events) ∧
    ∀ e, (runLine env world ("graph" :: tokens) last).result = .error e → world.StoreInv →
      ∃ fileName x y z s p chunk outputs, world.getBlockChunk x z s.dim = .ok (some p) ∧
        world.deref p = .ok chunk ∧
        drawSlice env.order env.stat chunk x z s.facing s.yMin s.yMax = ⟨outputs, .error e⟩ ∧
        (runLine env world ("graph" :: tokens) last).events =
          graphOpening fileName x y z s ++ outputs.map .writeFile := by
  have hrun := runLine_graph_run env world tokens last
  refine ⟨fun r hr hcreate => hrun.untouched hr hcreate,
    fun word hok hnew => hrun.releasedOnce hok hnew, ?_⟩
  intro e he hworld
  generalize runLine env world ("graph" :: tokens) last = run at hrun he
  cases hrun with
  | @dangling id p e fileName x y z s hp hderef =>
    obtain ⟨c, hc, -⟩ := hworld.owned _ _ _ hp
    rw [LoaderState.deref_eq_ok.mpr hc] at hderef
    cases hderef
  | @notDrawn p chunk e outputs fileName x y z s hfound hderef hdraw =>
    obtain rfl := Except.error.inj he
    exact ⟨fileName, x, y, z, s, p, chunk, outputs, hfound, hderef, hdraw, rfl⟩
  | _ => cases he

end ChunkViewer
