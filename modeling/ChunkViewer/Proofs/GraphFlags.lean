import ChunkViewer.Proofs.GraphFiles
import ChunkViewer.Spec.GraphSettings

/-!
# The flags of `graph`

The loop over the flags takes exactly lists of pairs, and its settings are those of the last
pair of each kind.
-/

namespace ChunkViewer

open ExceptRun

variable {env : Environment} {flag word : String} {s s' : Settings} {tokens : List String}
  {pairs : List (String × String)}

/-! ## One flag -/

lemma dimensionOf_isSome : (dimensionOf word).isSome = true ↔ word ∈ ["overworld", "nether", "end"] := by
  unfold dimensionOf
  split_ifs with h1 h2 h3 <;> simp [*]

lemma graphFlag_ok (h : graphFlag env flag word s = .ok s') (hflag : isGraphFlag flag = true) :
    ValidPair (flag, word) := by
  unfold graphFlag at h
  unfold ValidPair
  by_cases hd : flag = "-d"
  · rw [if_pos hd] at h
    refine Or.inl ⟨hd, dimensionOf_isSome.mp ?_⟩
    cases hdim : dimensionOf word with
    | none => rw [hdim] at h; cases h
    | some dim => rfl
  rw [if_neg hd] at h
  by_cases hf : flag = "-f"
  · rw [if_pos hf] at h
    refine Or.inr (Or.inl ⟨hf, ?_⟩)
    by_contra hnot
    simp only [List.mem_cons, List.not_mem_nil, or_false, not_or] at hnot
    rw [if_pos hnot] at h
    cases h
  rw [if_neg hf] at h
  by_cases hmin : flag = "-ymin"
  · rw [if_pos hmin] at h
    refine Or.inr (Or.inr (Or.inl ⟨hmin, ?_⟩))
    cases hn : stoi word with
    | none => rw [hn] at h; cases h
    | some n => rfl
  rw [if_neg hmin] at h
  have hmax : flag = "-ymax" := by simpa [isGraphFlag, hd, hf, hmin] using hflag
  refine Or.inr (Or.inr (Or.inr ⟨hmax, ?_⟩))
  cases hn : stoi word with
  | none => rw [hn] at h; cases h
  | some n => rfl

lemma graphFlag_valid {p : String × String} (h : ValidPair p) (s : Settings) :
    ∃ s', graphFlag env p.1 p.2 s = .ok s' := by
  obtain ⟨flag, value⟩ := p
  rcases h with ⟨rfl, h⟩ | ⟨rfl, h⟩ | ⟨rfl, h⟩ | ⟨rfl, h⟩
  · obtain ⟨dim, hdim⟩ := Option.isSome_iff_exists.mp (dimensionOf_isSome.mpr h)
    exact ⟨{ s with dim := dim }, by simp [graphFlag, hdim]⟩
  · simp only [List.mem_cons, List.not_mem_nil, or_false] at h
    have hnot : ¬(value ≠ "n" ∧ value ≠ "s" ∧ value ≠ "e" ∧ value ≠ "w") := by tauto
    exact ⟨{ s with facing := value }, by simp [graphFlag, hnot]⟩
  · obtain ⟨n, hn⟩ := Option.isSome_iff_exists.mp h
    exact ⟨{ s with yMin := n }, by simp [graphFlag, hn]⟩
  · obtain ⟨n, hn⟩ := Option.isSome_iff_exists.mp h
    exact ⟨{ s with yMax := env.int (n + 1) }, by simp [graphFlag, hn]⟩

lemma not_validPair_self (flag : String) : ¬ValidPair (flag, flag) := by
  rintro (⟨rfl, h⟩ | ⟨rfl, h⟩ | ⟨rfl, h⟩ | ⟨rfl, h⟩) <;> revert h <;> decide

/-! ## The loop -/

lemma graphLoop_pair (hflag : isGraphFlag flag = true) (last : String) :
    (graphLoop env (flag :: word :: tokens) last s).2 =
      (graphFlag env flag word s >>= fun s => (graphLoop env tokens word s).2) := by
  rw [graphLoop, if_pos hflag]
  cases graphFlag env flag word s with
  | ok s' => rfl
  | error r => rfl

lemma graphLoop_accepts {last : String} (h : (graphLoop env tokens last s).2 = .ok s') :
    ∃ pairs, tokens = flagTokens pairs ∧ ∀ p ∈ pairs, ValidPair p := by
  induction tokens using List.twoStepInduction generalizing last s with
  | nil => exact ⟨[], rfl, by simp⟩
  | singleton flag =>
    unfold graphLoop at h
    split_ifs at h with hflag
    exact absurd (graphFlag_ok h hflag) (not_validPair_self flag)
  | cons_cons flag value rest ih _ =>
    by_cases hflag : isGraphFlag flag = true
    · rw [graphLoop_pair hflag] at h
      obtain ⟨s₁, hs₁, hrest⟩ := bind_eq_ok.mp h
      obtain ⟨pairs, rfl, hvalid⟩ := ih hrest
      refine ⟨(flag, value) :: pairs, rfl, ?_⟩
      rw [List.forall_mem_cons]
      exact ⟨graphFlag_ok hs₁ hflag, hvalid⟩
    · unfold graphLoop at h
      rw [if_neg hflag] at h
      cases h

lemma ValidPair.isGraphFlag {p : String × String} (h : ValidPair p) :
    ChunkViewer.isGraphFlag p.1 = true := by
  unfold ChunkViewer.isGraphFlag
  rcases h with ⟨h, -⟩ | ⟨h, -⟩ | ⟨h, -⟩ | ⟨h, -⟩ <;> simp [h]

lemma graphLoop_flagTokens (h : ∀ p ∈ pairs, ValidPair p) (last : String) (s : Settings) :
    (graphLoop env (flagTokens pairs) last s).2 =
      pairs.foldlM (fun s p => graphFlag env p.1 p.2 s) s := by
  induction pairs generalizing last s with
  | nil => rfl
  | cons p pairs ih =>
    rw [List.forall_mem_cons] at h
    rw [flagTokens, List.flatMap_cons, List.cons_append, List.cons_append, List.nil_append,
      graphLoop_pair h.1.isGraphFlag, List.foldlM_cons]
    congr 1
    funext s'
    exact ih h.2 p.2 s'

lemma graphFlag_settle {p : String × String} (h : ValidPair p)
    (hmax : p.1 = "-ymax" → stoi p.2 ≠ some 2147483647) (defaults : Settings) :
    graphFlag env p.1 p.2 (settle defaults pairs) = .ok (settle defaults (pairs ++ [p])) := by
  obtain ⟨flag, value⟩ := p
  unfold settle
  simp only [lastValue_append]
  rcases h with ⟨rfl, h⟩ | ⟨rfl, h⟩ | ⟨rfl, h⟩ | ⟨rfl, h⟩
  · obtain ⟨dim, hdim⟩ := Option.isSome_iff_exists.mp (dimensionOf_isSome.mpr h)
    dsimp only at hdim
    simp [graphFlag, hdim]
  · simp only [List.mem_cons, List.not_mem_nil, or_false] at h
    have hnot : ¬(value ≠ "n" ∧ value ≠ "s" ∧ value ≠ "e" ∧ value ≠ "w") := by tauto
    simp [graphFlag, hnot]
  · obtain ⟨n, hn⟩ := Option.isSome_iff_exists.mp h
    dsimp only at hn
    simp [graphFlag, hn]
  · obtain ⟨n, hn⟩ := Option.isSome_iff_exists.mp h
    dsimp only at hn
    have hne : n ≠ 2147483647 := fun hn' => hmax rfl (hn' ▸ hn)
    have hint : env.int (n + 1) = n + 1 := by
      have := stoi_int hn
      unfold Environment.int
      rw [if_pos (by omega)]
    simp [graphFlag, hn, hint]

lemma graphLoop_settles (h : ∀ p ∈ pairs, ValidPair p)
    (hmax : ∀ p ∈ pairs, p.1 = "-ymax" → stoi p.2 ≠ some 2147483647) (last : String)
    (defaults : Settings) :
    (graphLoop env (flagTokens pairs) last defaults).2 = .ok (settle defaults pairs) := by
  rw [graphLoop_flagTokens h]
  induction pairs using List.reverseRecOn with
  | nil => rfl
  | append_singleton pairs p ih =>
    rw [List.foldlM_append, ih (fun q hq => h q (List.mem_append_left _ hq))
      (fun q hq => hmax q (List.mem_append_left _ hq)), ok_bind, List.foldlM_cons,
      graphFlag_settle (h p (by simp)) (hmax p (by simp)), ok_bind]
    rfl

lemma graphLoop_finishes (h : ∀ p ∈ pairs, ValidPair p) (last : String) (s : Settings) :
    ∃ s', (graphLoop env (flagTokens pairs) last s).2 = .ok s' := by
  rw [graphLoop_flagTokens h]
  induction pairs generalizing s with
  | nil => exact ⟨s, rfl⟩
  | cons p pairs ih =>
    rw [List.forall_mem_cons] at h
    obtain ⟨s', hs'⟩ : ∃ s', graphFlag env p.1 p.2 s = .ok s' := graphFlag_valid h.1 s
    rw [List.foldlM_cons, hs', ok_bind]
    exact ih h.2 s'

/-! ## The command -/

/-- What a line with coordinates does once its flags are read. -/
def graphBody (env : Environment) (world : LoaderState) (xyz : CoordArray) (fileName : String)
    (settings : Except Report Settings) : Command Unit :=
  if fileName.toList.all (· = ' ') then abandon xyz (.badFileName fileName)
  else
    match settings with
    | .error r => abandon xyz r
    | .ok s =>
      if s.yMax < 0 ∨ s.yMax ≤ s.yMin ∨ s.yMin < 0 then abandon xyz .badBounds
      else graphChunk env world xyz fileName s

lemma runLine_graph_events (env : Environment) (world : LoaderState) {coords : String} {x y z : ℤ}
    (hcoords : coordinates coords = some (x, y, z)) (fileName : String) (tokens : List String)
    (last : String) :
    (runLine env world ("graph" :: "block" :: coords :: fileName :: tokens) last).events =
      [.newArray, .readArray] ++ (graphBody env world ⟨x, y, z, true⟩ fileName
        (graphLoop env tokens coords (env.defaults y)).2).events := by
  rw [runLine_graph]
  unfold withBlock graphBlock graphBody nextWord
  dsimp only
  rw [if_pos rfl, parseCoords_some hcoords, Traced.ok_bind]
  dsimp only
  rw [CoordArray.read_live, Traced.ok_bind, Traced.after_after, Traced.after_events]
  dsimp only
  obtain ⟨word, settings⟩ := graphLoop env tokens coords (env.defaults y)
  congr 1
  by_cases hname : fileName.toList.all (· = ' ') = true
  · rw [if_pos hname, if_pos hname, Traced.events_bind_pure]
  · rw [if_neg hname, if_neg hname]
    cases settings with
    | error r => exact Traced.events_bind_pure _ word
    | ok s =>
      dsimp only
      by_cases hbounds : s.yMax < 0 ∨ s.yMax ≤ s.yMin ∨ s.yMin < 0
      · rw [if_pos hbounds, if_pos hbounds, Traced.events_bind_pure]
      · rw [if_neg hbounds, if_neg hbounds, Traced.events_bind_pure]

lemma Environment.defaults_eq (env : Environment) {y : ℤ} (hmin : -2147483648 ≤ y)
    (hmax : y < 2147483648 - 16) :
    env.defaults y = ⟨.OVERWORLD, "n", ⌊(y : ℚ) / 16⌋ * 16, ⌊(y : ℚ) / 16⌋ * 16 + 16⟩ := by
  have hfloor : ⌊(y : ℚ) / 16⌋ = y / 16 := chunkCoordinate_eq y
  unfold Environment.defaults Environment.int
  dsimp only
  rw [hfloor, if_pos (by omega)]

lemma mem_of_ofKind {pairs' : List (String × String)}
    (h : ∀ flag, ofKind flag pairs' = ofKind flag pairs) {p : String × String} (hp : p ∈ pairs') :
    p ∈ pairs := by
  have hmem : p ∈ ofKind p.1 pairs' := List.mem_filter.mpr ⟨hp, by simp⟩
  rw [h] at hmem
  exact (List.mem_filter.mp hmem).1

/-- The flags of `graph`: accepted are the lists of valid pairs, and the last pair of each kind
counts, so that only the order within each kind matters. -/
theorem graph_flags_last_win (env : Environment) (world : LoaderState) {coords : String}
    {x y z : ℤ} (hcoords : coordinates coords = some (x, y, z)) (hy : y < 2147483648 - 16)
    (fileName word last : String) (tokens : List String) :
    env.defaults y = ⟨.OVERWORLD, "n", ⌊(y : ℚ) / 16⌋ * 16, ⌊(y : ℚ) / 16⌋ * 16 + 16⟩ ∧
    ((∃ s, (graphLoop env tokens word (env.defaults y)).2 = .ok s) ↔
      ∃ pairs, tokens = flagTokens pairs ∧ ∀ p ∈ pairs, ValidPair p) ∧
    ∀ pairs, (∀ p ∈ pairs, ValidPair p) →
      (∀ p ∈ pairs, p.1 = "-ymax" → stoi p.2 ≠ some 2147483647) →
      (graphLoop env (flagTokens pairs) word (env.defaults y)).2 =
        .ok (settle (env.defaults y) pairs) ∧
      ∀ pairs', (∀ flag, ofKind flag pairs' = ofKind flag pairs) →
        (graphLoop env (flagTokens pairs') word (env.defaults y)).2 =
          .ok (settle (env.defaults y) pairs) ∧
        (runLine env world
            ("graph" :: "block" :: coords :: fileName :: flagTokens pairs') last).events =
          (runLine env world
            ("graph" :: "block" :: coords :: fileName :: flagTokens pairs) last).events := by
  obtain ⟨-, ⟨hmin, -⟩, -⟩ := coordinates_int hcoords
  refine ⟨env.defaults_eq hmin hy, ?_, ?_⟩
  · constructor
    · rintro ⟨s, hs⟩
      exact graphLoop_accepts hs
    · rintro ⟨pairs, rfl, hvalid⟩
      exact graphLoop_finishes hvalid word _
  · intro pairs hvalid hmax
    refine ⟨graphLoop_settles hvalid hmax word _, ?_⟩
    intro pairs' hkind
    have hsettled : ∀ last, (graphLoop env (flagTokens pairs') last (env.defaults y)).2 =
        .ok (settle (env.defaults y) pairs) := by
      intro last
      rw [graphLoop_settles (fun p hp => hvalid p (mem_of_ofKind hkind hp))
        (fun p hp => hmax p (mem_of_ofKind hkind hp)), settle_congr _ hkind]
    refine ⟨hsettled word, ?_⟩
    rw [runLine_graph_events env world hcoords, runLine_graph_events env world hcoords, hsettled,
      graphLoop_settles hvalid hmax]

/-- The End with one chunk, at the origin. -/
def endWorld : LoaderState := LoaderState.init.newChunk 0 0 .ENDWORLD

/-- Two lower bounds around a dimension, in two orders, for a slice of the one chunk. -/
theorem graph_flags_last_win_swapped :
    endWorld.getBlockChunk 1 3 .ENDWORLD = .ok (some 0) ∧
    (runLine ⟨.insertion, fun _ => false, fun _ => true, fun n => n⟩ endWorld ["graph", "block",
        "(1,2,3)", "out.jgr", "-d", "end", "-ymin", "0", "-ymin", "5"] "").events =
      (runLine ⟨.insertion, fun _ => false, fun _ => true, fun n => n⟩ endWorld ["graph", "block",
        "(1,2,3)", "out.jgr", "-ymin", "0", "-d", "end", "-ymin", "5"] "").events := by
  have hvalid : ∀ p ∈ [("-ymin", "0"), ("-d", "end"), ("-ymin", "5")], ValidPair p := by
    unfold ValidPair
    decide
  obtain ⟨-, -, hlast⟩ := graph_flags_last_win
    ⟨.insertion, fun _ => false, fun _ => true, fun n => n⟩ endWorld (show coordinates "(1,2,3)" = some (1, 2, 3) by decide) (by decide) "out.jgr" "" "" []
  constructor
  · rw [endWorld.getBlockChunk_eq (by decide) (by decide), chunkCoordinate_eq, chunkCoordinate_eq,
      show (1 : ℤ) / 16 = 0 from rfl, show (3 : ℤ) / 16 = 0 from rfl, endWorld, findChunk_newChunk,
      if_pos ⟨rfl, rfl⟩]
    rfl
  refine ((hlast _ hvalid (by decide)).2 [("-d", "end"), ("-ymin", "0"), ("-ymin", "5")] ?_).2
  intro flag
  unfold ofKind
  by_cases hd : "-d" = flag
  · subst hd
    decide
  · by_cases hmin : "-ymin" = flag
    · subst hmin
      decide
    · simp [hd, hmin]

end ChunkViewer
