import ChunkViewer.Proofs.Keys
import ChunkViewer.Proofs.PaletteAssociation

/-!
# The order of the entries

Entries that are stored into different sub-chunks commute, and skipped entries do nothing.
So two databases with the same stored entries, in any order, load to the same world.
-/

namespace ChunkViewer

open ExceptRun

/-! ## The abstract world -/

/-- An entry whose key and format the loader accepts. -/
def Entry.stored (e : Entry) : Bool := e.slot?.isSome

lemma entriesAt_stored (es : List Entry) (slot : Slot) :
    entriesAt (es.filter Entry.stored) slot = entriesAt es slot := by
  unfold entriesAt
  rw [List.filter_filter]
  apply List.filter_congr
  intro e _
  by_cases h : e.slot? = some slot <;> simp [Entry.stored, h]

lemma visited_stored (es : List Entry) (d : ChunkDimension) (x z : ℤ) :
    Visited (es.filter Entry.stored) d x z ↔ Visited es d x z := by
  unfold Visited
  constructor
  · rintro ⟨e, he, hslot⟩
    exact ⟨e, (List.mem_filter.mp he).1, hslot⟩
  · rintro ⟨e, he, slot, hslot, hsite⟩
    exact ⟨e, List.mem_filter.mpr ⟨he, by rw [Entry.stored, hslot]; rfl⟩, slot, hslot, hsite⟩

lemma visited_perm {es es' : List Entry} (h : es.Perm es') (d : ChunkDimension) (x z : ℤ) :
    Visited es d x z ↔ Visited es' d x z := by
  unfold Visited
  simp only [h.mem_iff]

lemma entriesAt_perm {es es' : List Entry} (hslots : DistinctSlots es) (h : es.Perm es')
    (slot : Slot) : entriesAt es slot = entriesAt es' slot := by
  have hperm : (entriesAt es slot).Perm (entriesAt es' slot) := h.filter _
  rcases entriesAt_distinct hslots slot with hnil | ⟨e, -, -, hone⟩
  · rw [hnil] at hperm ⊢
    exact hperm.nil_eq
  · rw [hone] at hperm ⊢
    exact (List.perm_singleton.mp hperm.symm).symm

lemma World.ext_subChunks {w w' : World}
    (hsome : ∀ d x z, (w d x z).isSome = true ↔ (w' d x z).isSome = true)
    (hsub : ∀ d x z y, (w d x z).getD SubChunk.none16 y = (w' d x z).getD SubChunk.none16 y) :
    w = w' := by
  funext d x z
  have hiff := hsome d x z
  have hget := hsub d x z
  cases hw : w d x z with
  | none =>
    cases hw' : w' d x z with
    | none => rfl
    | some subs =>
      rw [hw, hw'] at hiff
      exact absurd (hiff.mpr rfl) (by simp)
  | some subs =>
    cases hw' : w' d x z with
    | none =>
      rw [hw, hw'] at hiff
      exact absurd (hiff.mp rfl) (by simp)
    | some subs' =>
      rw [hw, hw'] at hget
      congr 1
      funext y
      exact hget y

theorem World.loadEntries_perm {fuel : ℕ} {es es' : List Entry} (hslots : DistinctSlots es)
    (h : (es.filter Entry.stored).Perm (es'.filter Entry.stored)) :
    World.loadEntries fuel es = World.loadEntries fuel es' := by
  apply World.ext_subChunks
  · intro d x z
    rw [World.loadEntries_isSome, World.loadEntries_isSome, ← visited_stored es, visited_perm h,
      visited_stored]
  · intro d x z y
    rw [World.loadEntries_subChunk, World.loadEntries_subChunk, ← entriesAt_stored es,
      entriesAt_perm (List.Pairwise.filter _ hslots) h, entriesAt_stored]

/-! ## Loads that finish -/

/-- What is asked of an entry: a value, a sub-chunk index of the chunk, a region the loader
knows, and a value of format 8 must load to its end. -/
structure Entry.Loadable (fuel : ℕ) (e : Entry) : Prop where
  value_ne : e.value ≠ []
  region : isSubChunkKey e.key = true → KnownRegion e.key
  height : isSubChunkKey e.key = true → ∀ slot, decodeKey e.key = .ok slot →
    0 ≤ slot.chunkY ∧ slot.chunkY ≤ 15
  completes : ∀ slot, e.slot? = some slot → ∃ st, loadEntry fuel e LoaderState.init = .ok (true, st)

lemma Entry.Loadable.loadEntry_ok {fuel : ℕ} {e : Entry} (he : e.Loadable fuel) {st : LoaderState}
    (hst : st.StoreInv) : ∃ st', loadEntry fuel e st = .ok (true, st') := by
  cases hslot : e.slot? with
  | none =>
    rcases loadEntry_of_no_slot fuel hslot st with h | ⟨-, hnil, -⟩
    · exact ⟨st, h⟩
    · exact absurd hnil he.value_ne
  | some slot =>
    obtain ⟨hkey, -, hdecode⟩ := slot?_eq_some.mp hslot
    obtain ⟨hy0, hy15⟩ := he.height hkey slot hdecode
    obtain ⟨y, hy⟩ : ∃ y : Fin 16, slot.chunkY = (y : ℕ) :=
      ⟨⟨slot.chunkY.toNat, by omega⟩, by simp only; omega⟩
    obtain ⟨st₀, h₀⟩ := he.completes slot hslot
    rcases loadEntry_cases h₀ with ⟨hnone, -, -⟩ | ⟨slot', c₀, c', n, -, -, hn, hloop, -⟩
    · rw [hslot] at hnone
      exact absurd hnone (by simp)
    · obtain ⟨storages, hread, -⟩ := storageLoop_refines hloop
      obtain ⟨c, hc⟩ := hst.deref_visit slot
      rw [loadEntry_of_slot hslot, hc, ok_bind, hn, ok_bind, hy, storageLoop_eq, hread]
      exact ⟨_, rfl⟩

lemma loadEntries_ok {fuel : ℕ} {es : List Entry} (hes : ∀ e ∈ es, e.Loadable fuel)
    {st : LoaderState} (hst : st.StoreInv) : ∃ st', loadEntries fuel es st = .ok (true, st') := by
  induction es generalizing st with
  | nil => exact ⟨st, rfl⟩
  | cons e es ih =>
    rw [List.forall_mem_cons] at hes
    obtain ⟨st₁, h₁⟩ := hes.1.loadEntry_ok hst
    obtain ⟨st', h'⟩ := ih hes.2 (loadEntry_storeInv hst h₁)
    refine ⟨st', ?_⟩
    rw [loadEntries, h₁, ok_bind]
    exact h'

lemma parseBedrock_ok {fuel : ℕ} {es : List Entry} (hes : ∀ e ∈ es, e.Loadable fuel) :
    ∃ st, parseBedrock fuel es = .ok (true, st) ∧ Loads fuel es true st := by
  obtain ⟨st, h⟩ := loadEntries_ok hes LoaderState.StoreInv.init
  obtain ⟨done, rest, hsplit, hrun, hrest⟩ := parseBedrock_loads h
  rw [hrest rfl, List.append_nil] at hsplit
  exact ⟨st, h, hsplit ▸ hrun⟩

lemma distinctSlots_of_keys {fuel : ℕ} {es : List Entry} (hkeys : (es.map Entry.key).Nodup)
    (hes : ∀ e ∈ es, e.Loadable fuel) : DistinctSlots es := by
  have hne : es.Pairwise fun e e' => e.key ≠ e'.key := List.pairwise_map.mp hkeys
  apply hne.imp_of_mem
  intro e e' he he' hkey slot hslot hslot'
  obtain ⟨hk, -, -⟩ := slot?_eq_some.mp hslot
  obtain ⟨hk', -, -⟩ := slot?_eq_some.mp hslot'
  exact hkey (slot?_inj ((hes e he).region hk) ((hes e' he').region hk') hslot hslot')

/-! ## Counting chunks -/

lemma length_eq_of_lookup {m m' : ChunkMap}
    (h : ∀ id, (m.lookup id).isSome = true ↔ (m'.lookup id).isSome = true) :
    m.entries.length = m'.entries.length := by
  have hkeys : m.keys.Perm m'.keys := by
    rw [List.perm_ext_iff_of_nodup m.keys_nodup m'.keys_nodup]
    intro id
    rw [← AList.mem_keys, ← AList.mem_keys, ← AList.lookup_isSome, ← AList.lookup_isSome]
    exact h id
  have hlength := hkeys.length_eq
  unfold AList.keys List.keys at hlength
  rwa [List.length_map, List.length_map] at hlength

/-- The counter is determined by the positions at which there is a chunk. -/
lemma totalChunks_eq_of_view {st st' : LoaderState} (hst : st.StoreInv) (hst' : st'.StoreInv)
    (hview : st.view = st'.view) : st.totalChunks = st'.totalChunks := by
  have hsome : ∀ {s : LoaderState}, s.StoreInv → ∀ d x z,
      (s.world.findChunk (chunkID x z) d).isSome = (s.view d x z).isSome := by
    intro s hs d x z
    rw [LoaderState.view]
    rcases hs.at?_eq d x z with ⟨hfind, hat⟩ | ⟨p, c, hfind, -, hat⟩ <;> rw [hfind, hat] <;> rfl
  have hkeep : ∀ {s s' : LoaderState}, s.StoreInv → s'.StoreInv → s.view = s'.view → ∀ id d,
      (s.world.findChunk id d).isSome = true → (s'.world.findChunk id d).isSome = true := by
    intro s s' hs hs' hv id d h
    obtain ⟨p, hp⟩ := Option.isSome_iff_exists.mp h
    obtain ⟨c, -, rfl⟩ := hs.owned id d p hp
    rwa [hsome hs', ← hv, ← hsome hs]
  have hiff : ∀ id d, (st.world.findChunk id d).isSome = true ↔
      (st'.world.findChunk id d).isSome = true :=
    fun id d => ⟨hkeep hst hst' hview id d, hkeep hst' hst hview.symm id d⟩
  rw [hst.counted, hst'.counted]
  unfold WorldData.size
  rw [length_eq_of_lookup fun id => hiff id .OVERWORLD, length_eq_of_lookup fun id => hiff id .NETHER,
    length_eq_of_lookup fun id => hiff id .ENDWORLD]

/-! ## The loaded world -/

lemma Loads.getBlock_ok {fuel : ℕ} {seen : List Entry} {ok : Bool} {st : LoaderState}
    (hrun : Loads fuel seen ok st) (hslots : DistinctSlots seen) {x z : ℤ}
    (hx : -2147483648 ≤ x ∧ x ≤ 2147483647) (hz : -2147483648 ≤ z ∧ z ≤ 2147483647) (y : Fin 256)
    (d : ChunkDimension) : ∃ b, st.getBlock x (y : ℕ) z d = .ok b := by
  rw [LoaderState.getBlock_eq hrun.storeInv, rawCoordinate_int hx.1 hx.2, ok_bind,
    rawCoordinate_int hz.1 hz.2, ok_bind]
  cases hv : st.view d (chunkCoordinate x) (chunkCoordinate z) with
  | none => exact ⟨_, rfl⟩
  | some subs =>
    have hsub := World.loadEntries_subChunk fuel seen d (chunkCoordinate x) (chunkCoordinate z) (subOf y)
    rw [← hrun.view_eq, hv, Option.getD_some] at hsub
    simp only [hsub]
    rcases entriesAt_distinct hslots ⟨d, chunkCoordinate x, chunkCoordinate z, (subOf y : ℕ)⟩ with
      hnil | ⟨e, -, -, hone⟩
    · rw [hnil]
      exact ⟨⟨-1, none⟩, rfl⟩
    · rw [hone, List.flatMap_singleton]
      rcases loadAll_cell fuel e (cellPos (column x) y (column z)) with h | h | h
      · exact ⟨_, blockOf_neg (by rw [h]; norm_num) _⟩
      · exact ⟨_, blockOf_neg (by rw [h]; norm_num) _⟩
      · obtain ⟨s, next, tag, -, -, -, -, hblock⟩ := h
        exact ⟨_, hblock⟩

/-- The loaded world does not depend on the order of the entries, nor on the skipped ones. -/
theorem load_order_independent {fuel : ℕ} {es es' : List Entry}
    (hkeys : (es.map Entry.key).Nodup) (hes : ∀ e ∈ es, e.Loadable fuel)
    (hes' : ∀ e ∈ es', e.Loadable fuel)
    (hperm : (es.filter Entry.stored).Perm (es'.filter Entry.stored)) :
    ∃ st st', parseBedrock fuel es = .ok (true, st) ∧ parseBedrock fuel es' = .ok (true, st') ∧
      st.totalChunks = st'.totalChunks ∧
      (∀ d x z, (st.world.findChunk (chunkID x z) d).isSome =
        (st'.world.findChunk (chunkID x z) d).isSome) ∧
      (∀ d x y z, 0 ≤ y ∧ y ≤ 255 → st.getBlock x y z d = st'.getBlock x y z d) ∧
      ∀ d x y z, 0 ≤ y ∧ y ≤ 255 → -2147483648 ≤ x ∧ x ≤ 2147483647 →
        -2147483648 ≤ z ∧ z ≤ 2147483647 → ∃ b, st.getBlock x y z d = .ok b := by
  obtain ⟨st, hload, hrun⟩ := parseBedrock_ok hes
  obtain ⟨st', hload', hrun'⟩ := parseBedrock_ok hes'
  have hslots := distinctSlots_of_keys hkeys hes
  have hview : st.view = st'.view := by
    rw [hrun.view_eq, hrun'.view_eq, World.loadEntries_perm hslots hperm]
  refine ⟨st, st', hload, hload', totalChunks_eq_of_view hrun.storeInv hrun'.storeInv hview, ?_, ?_, ?_⟩
  · intro d x z
    rw [Bool.eq_iff_iff, hrun.findChunk_isSome, hrun'.findChunk_isSome, ← visited_stored es,
      visited_perm hperm, visited_stored]
  · intro d x y z hy
    obtain ⟨j, rfl⟩ : ∃ j : Fin 256, y = (j : ℕ) := ⟨⟨y.toNat, by omega⟩, by simp only; omega⟩
    rw [LoaderState.getBlock_eq hrun.storeInv, LoaderState.getBlock_eq hrun'.storeInv, hview]
  · intro d x y z hy hx hz
    obtain ⟨j, rfl⟩ : ∃ j : Fin 256, y = (j : ℕ) := ⟨⟨y.toNat, by omega⟩, by simp only; omega⟩
    exact hrun.getBlock_ok hslots hx hz j d

/-- A key without region bytes, and a value that loads. -/
lemma loadable_of_slot {fuel : ℕ} {e : Entry} {slot : Slot} (hlen : e.key.length = 10)
    (hslot : e.slot? = some slot) (hy : 0 ≤ slot.chunkY ∧ slot.chunkY ≤ 15)
    (hload : ∃ st, loadEntry fuel e LoaderState.init = .ok (true, st)) : e.Loadable fuel := by
  obtain ⟨-, hformat, hdecode⟩ := slot?_eq_some.mp hslot
  refine ⟨?_, ?_, ?_, fun _ _ => hload⟩
  · intro hnil
    rw [hnil] at hformat
    exact absurd hformat (by simp)
  · intro _ h14
    omega
  · intro _ slot' hdecode'
    rw [hdecode] at hdecode'
    rwa [← Except.ok.inj hdecode']

/-- Two sub-chunks of one chunk, the other way round and after a skipped entry. -/
theorem load_order_independent_two :
    ∃ st st',
      parseBedrock 2 [packedEntry 1 (List.replicate 128 0) 1 [0, 0, 0], emptyEntry 4] =
        .ok (true, st) ∧
      parseBedrock 2 [⟨[], [0]⟩, emptyEntry 4, packedEntry 1 (List.replicate 128 0) 1 [0, 0, 0]] =
        .ok (true, st') ∧
      st.totalChunks = st'.totalChunks := by
  have hpacked : (packedEntry 1 (List.replicate 128 0) 1 [0, 0, 0]).Loadable 2 :=
    loadable_of_slot rfl (packedEntry_slot? 1 _ 1 _) (by decide)
      (packedValue_one.loadEntry_ok (packedEntry_slot? 1 _ 1 _) rfl (by decide) 3 rfl
        LoaderState.StoreInv.init)
  have hempty : (emptyEntry 4).Loadable 2 :=
    loadable_of_slot rfl (show (emptyEntry 4).slot? = some ⟨.OVERWORLD, -1, 2, 4⟩ by decide)
      (by decide) ⟨_, rfl⟩
  have hskip : Entry.Loadable 2 ⟨[], [0]⟩ :=
    ⟨by decide, fun h => absurd h (by decide), fun h => absurd h (by decide),
      fun slot h => absurd (show none = some slot from h) (by simp)⟩
  obtain ⟨st, st', hload, hload', htotal, -⟩ := @load_order_independent 2
    [packedEntry 1 (List.replicate 128 0) 1 [0, 0, 0], emptyEntry 4]
    [⟨[], [0]⟩, emptyEntry 4, packedEntry 1 (List.replicate 128 0) 1 [0, 0, 0]]
    (by decide)
    (by
      intro e he
      simp only [List.mem_cons, List.not_mem_nil, or_false] at he
      rcases he with rfl | rfl
      · exact hpacked
      · exact hempty)
    (by
      intro e he
      simp only [List.mem_cons, List.not_mem_nil, or_false] at he
      rcases he with rfl | rfl | rfl
      · exact hskip
      · exact hempty
      · exact hpacked)
    (List.Perm.swap _ _ _)
  exact ⟨st, st', hload, hload', htotal⟩

/-! ## One sub-chunk -/

lemma LoaderState.getBlock_subChunk {st : LoaderState} (hst : st.StoreInv) (x z : ℤ) (y : Fin 256)
    (d : ChunkDimension) :
    st.getBlock x (y : ℕ) z d =
      rawCoordinate x (chunkCoordinate x) >>= fun _ =>
        rawCoordinate z (chunkCoordinate z) >>= fun _ =>
          ((st.view d (x / 16) (z / 16)).getD SubChunk.none16 (subOf y)).block
            (cellPos (column x) y (column z)) := by
  rw [LoaderState.getBlock_eq hst, chunkCoordinate_eq, chunkCoordinate_eq]
  cases st.view d (x / 16) (z / 16) with
  | none =>
    have hneg : SubChunk.empty.cells (cellPos (column x) y (column z)) < 0 := neg_one_lt_zero
    have hempty : (SubChunk.none16 (subOf y)).block (cellPos (column x) y (column z)) =
        .ok ⟨-1, none⟩ := blockOf_neg hneg _
    dsimp only [Option.getD_none]
    rw [hempty]
  | some subs => rfl

/-- What a load shows at a position depends only on the entries stored into the sub-chunk there,
in their order. Every other entry of the database may differ, or end the load. -/
theorem block_depends_on_entries {fuel : ℕ} {es es' : List Entry} {ok ok' : Bool}
    {st st' : LoaderState} (h : Loads fuel es ok st) (h' : Loads fuel es' ok' st')
    (d : ChunkDimension) (x z : ℤ) (y : Fin 256)
    (hsame : entriesAt es ⟨d, x / 16, z / 16, (subOf y : ℕ)⟩ =
      entriesAt es' ⟨d, x / 16, z / 16, (subOf y : ℕ)⟩) :
    st.getBlock x (y : ℕ) z d = st'.getBlock x (y : ℕ) z d := by
  rw [LoaderState.getBlock_subChunk h.storeInv, LoaderState.getBlock_subChunk h'.storeInv,
    h.view_eq, h'.view_eq, World.loadEntries_subChunk, World.loadEntries_subChunk, hsame]

/-- With and without an entry for the sub-chunk above. -/
theorem block_depends_on_entries_above :
    ∃ st st', Loads 2 [packedEntry 1 (List.replicate 128 0) 1 [0, 0, 0]] true st ∧
      Loads 2 [emptyEntry 4, packedEntry 1 (List.replicate 128 0) 1 [0, 0, 0]] true st' ∧
      st.getBlock (-16) 48 32 .OVERWORLD = st'.getBlock (-16) 48 32 .OVERWORLD := by
  have hslot := packedEntry_slot? 1 (List.replicate 128 0) 1 [0, 0, 0]
  have habove : (emptyEntry 4).slot? = some ⟨.OVERWORLD, -1, 2, 4⟩ := by decide
  obtain ⟨st, hst⟩ := packedValue_one.loadEntry_ok hslot rfl (by decide) 3 rfl
    LoaderState.StoreInv.init
  have hempty : loadEntry 2 (emptyEntry 4) LoaderState.init =
      .ok (true, LoaderState.init.newChunk (-1) 2 .OVERWORLD) := rfl
  obtain ⟨st', hst'⟩ := packedValue_one.loadEntry_ok hslot rfl (by decide) 3 rfl
    (loadEntry_storeInv LoaderState.StoreInv.init hempty)
  have hrun := Loads.step Loads.start hst
  have hrun' := Loads.step (Loads.step Loads.start hempty) hst'
  refine ⟨st, st', hrun, hrun', block_depends_on_entries hrun hrun' .OVERWORLD (-16) 32
    ⟨48, by decide⟩ ?_⟩
  simp only [List.nil_append, List.cons_append, entriesAt_cons, hslot, habove]
  rfl

end ChunkViewer
