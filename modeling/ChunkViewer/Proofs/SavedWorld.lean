import ChunkViewer.Proofs.LoadOrder
import ChunkViewer.Proofs.SavedSubChunk

/-!
# Loading undoes saving

A database that holds a set of sub-chunks, in any order and among other entries, is loaded
to a world that has one chunk for each position. It shows exactly their blocks, where the padding
of their words agrees.
-/

namespace ChunkViewer

open ExceptRun

/-! ## Databases -/

/-- The entries that are stored are those of the saves. Others are skipped, not read. -/
structure Saves (saves : List SavedSubChunk) (entries : List Entry) : Prop where
  valid : ∀ s ∈ saves, s.Valid
  distinct : (saves.map SavedSubChunk.slot).Nodup
  stored : (entries.filter Entry.stored).Perm (saves.map SavedSubChunk.entry)
  value_ne : ∀ e ∈ entries, isSubChunkKey e.key = true → e.value ≠ []

namespace Saves

variable {saves : List SavedSubChunk} {entries : List Entry} (h : Saves saves entries)
include h

lemma mem_stored {e : Entry} (he : e ∈ entries) {slot : Slot} (hslot : e.slot? = some slot) :
    ∃ s ∈ saves, s.entry = e := by
  have hmem : e ∈ entries.filter Entry.stored :=
    List.mem_filter.mpr ⟨he, by rw [Entry.stored, hslot]; rfl⟩
  exact List.mem_map.mp (h.stored.mem_iff.mp hmem)

lemma loadEntries_ok {fuel : ℕ} (hfuel : 32768 ≤ fuel) {es : List Entry} (hes : es ⊆ entries)
    {st : LoaderState} (hst : st.StoreInv) : ∃ st', loadEntries fuel es st = .ok (true, st') := by
  induction es generalizing st with
  | nil => exact ⟨st, rfl⟩
  | cons e es ih =>
    obtain ⟨he, hrest⟩ := List.cons_subset.mp hes
    have hone : ∃ st₁, loadEntry fuel e st = .ok (true, st₁) := by
      cases hslot : e.slot? with
      | none =>
        rcases loadEntry_of_no_slot fuel hslot st with hskip | ⟨hkey, hnil, -⟩
        · exact ⟨st, hskip⟩
        · exact absurd hnil (h.value_ne e he hkey)
      | some slot =>
        obtain ⟨s, hs, rfl⟩ := h.mem_stored he hslot
        have hvalid := h.valid s hs
        obtain ⟨c, hc⟩ := hst.deref_visit s.slot
        have hcount := hvalid.count
        obtain ⟨st₁, hload, -⟩ := loadEntry_encodeValue hvalid.wellFormed
          (by rw [List.length_cons]; omega) hvalid.size (hvalid.size.trans hfuel) (y := s.chunkY) rfl
          hvalid.entry_slot? hst hc
        exact ⟨st₁, hload⟩
    obtain ⟨st₁, hone⟩ := hone
    obtain ⟨st', hall⟩ := ih hrest (loadEntry_storeInv hst hone)
    refine ⟨st', ?_⟩
    rw [loadEntries, hone, ok_bind]
    exact hall

/-- A sub-chunk has the entry of the one save at its slot. -/
lemma entriesAt_eq (slot : Slot) :
    entriesAt entries slot =
      ((saves.find? fun s => s.slot = slot).map SavedSubChunk.entry).toList := by
  have hsaves : ∀ l : List SavedSubChunk, (∀ s ∈ l, s.Valid) → (l.map SavedSubChunk.slot).Nodup →
      entriesAt (l.map SavedSubChunk.entry) slot =
        ((l.find? fun s => s.slot = slot).map SavedSubChunk.entry).toList := by
    intro l hvalid hnodup
    induction l with
    | nil => rfl
    | cons s l ih =>
      rw [List.forall_mem_cons] at hvalid
      rw [List.map_cons, List.nodup_cons] at hnodup
      rw [List.map_cons, entriesAt_cons, hvalid.1.entry_slot?, ih hvalid.2 hnodup.2]
      by_cases hs : s.slot = slot
      · have hnone : (l.find? fun t => t.slot = slot) = none := by
          rw [List.find?_eq_none]
          intro t ht heq
          exact hnodup.1 (List.mem_map.mpr ⟨t, ht, (of_decide_eq_true heq).trans hs.symm⟩)
        rw [if_pos (congrArg some hs), hnone, List.find?_cons, decide_eq_true hs]
        rfl
      · rw [if_neg (fun e => hs (Option.some.inj e)), List.find?_cons, decide_eq_false hs]
  have hperm : (entriesAt (entries.filter Entry.stored) slot).Perm
      (entriesAt (saves.map SavedSubChunk.entry) slot) := h.stored.filter _
  rw [entriesAt_stored, hsaves saves h.valid h.distinct] at hperm
  cases hfind : saves.find? fun s => s.slot = slot with
  | none =>
    rw [hfind] at hperm
    exact hperm.eq_nil
  | some s =>
    rw [hfind] at hperm
    exact List.perm_singleton.mp hperm

lemma storedSites_eq : storedSites entries = savedSites saves := by
  ext site
  rw [storedSites, savedSites, List.mem_toFinset, List.mem_toFinset, List.mem_filterMap, List.mem_map]
  constructor
  · rintro ⟨e, he, hsite⟩
    obtain ⟨slot, hslot, rfl⟩ := Option.map_eq_some_iff.mp hsite
    obtain ⟨s, hs, rfl⟩ := h.mem_stored he hslot
    rw [(h.valid s hs).entry_slot?] at hslot
    exact ⟨s, hs, by rw [Option.some.inj hslot]⟩
  · rintro ⟨s, hs, rfl⟩
    have hmem := h.stored.mem_iff.mpr (List.mem_map_of_mem hs)
    exact ⟨s.entry, (List.mem_filter.mp hmem).1, by rw [(h.valid s hs).entry_slot?]; rfl⟩

end Saves

/-! ## Counting chunks -/

lemma visited_iff (es : List Entry) (d : ChunkDimension) (x z : ℤ) :
    Visited es d x z ↔ ⟨d, x, z⟩ ∈ storedSites es := by
  rw [storedSites, List.mem_toFinset, List.mem_filterMap]
  apply exists_congr
  intro e
  apply and_congr_right'
  rw [Option.map_eq_some_iff]
  apply exists_congr
  intro slot
  rw [Slot.site, Site.mk.injEq]

/-- The block that a position is loaded with. -/
def loadedBlock (saves : List SavedSubChunk) (d : ChunkDimension) (x : ℤ) (y : Fin 256) (z : ℤ) :
    Block :=
  match saves.find? fun s => s.slot = ⟨d, x / 16, z / 16, (subOf y : ℕ)⟩ with
  | some s => s.indexBlock (s.held (s.lastSlot (cellPos (column x) y (column z))))
  | none => ⟨-1, none⟩

lemma Saves.block_eq {saves : List SavedSubChunk} {entries : List Entry} (h : Saves saves entries)
    {fuel : ℕ} (hfuel : 32768 ≤ fuel) (d : ChunkDimension) (x : ℤ) (y : Fin 256) (z : ℤ) :
    (match World.loadEntries fuel entries d (x / 16) (z / 16) with
      | none => .ok ⟨-1, none⟩
      | some subs => (subs (subOf y)).block (cellPos (column x) y (column z))) =
        (.ok (loadedBlock saves d x y z) : Exec Block) := by
  have hsub := World.loadEntries_subChunk fuel entries d (x / 16) (z / 16) (subOf y)
  rw [h.entriesAt_eq] at hsub
  unfold loadedBlock
  cases hfind : saves.find? fun s => s.slot = ⟨d, x / 16, z / 16, (subOf y : ℕ)⟩ with
  | none =>
    -- No save of this sub-chunk, though there may be one of another sub-chunk of the chunk.
    rw [hfind] at hsub
    cases hw : World.loadEntries fuel entries d (x / 16) (z / 16) with
    | none => rfl
    | some subs =>
      rw [hw] at hsub
      change subs (subOf y) = SubChunk.empty at hsub
      dsimp only
      have hneg : SubChunk.empty.cells (cellPos (column x) y (column z)) < 0 := neg_one_lt_zero
      rw [hsub]
      exact blockOf_neg hneg _
  | some s =>
    rw [hfind] at hsub
    have hs := List.mem_of_find?_eq_some hfind
    have hslot : s.slot = ⟨d, x / 16, z / 16, (subOf y : ℕ)⟩ := by simpa using List.find?_some hfind
    have hvisited : Visited entries d (x / 16) (z / 16) := by
      rw [visited_iff, h.storedSites_eq, savedSites, List.mem_toFinset]
      exact List.mem_map.mpr ⟨s, hs, by rw [hslot]; rfl⟩
    obtain ⟨subs, hw⟩ :=
      Option.isSome_iff_exists.mp ((World.loadEntries_isSome fuel entries d _ _).mpr hvisited)
    rw [hw] at hsub
    change subs (subOf y) = SubChunk.empty.loadAll ([s.entry].flatMap fun e => e.storages fuel) at hsub
    rw [hw]
    dsimp only
    rw [hsub, List.flatMap_singleton]
    exact (h.valid s hs).block_entry hfuel _

lemma Saves.loadedBlock_eq_iff {saves : List SavedSubChunk} {entries : List Entry}
    (h : Saves saves entries) (d : ChunkDimension) (x : ℤ) (y : Fin 256) (z : ℤ) :
    loadedBlock saves d x y z = savedBlock saves d x y z ↔
      ∀ s ∈ saves, s.slot = ⟨d, x / 16, z / 16, (subOf y : ℕ)⟩ →
        s.PaddingAgreesAt (cellPos (column x) y (column z)) := by
  unfold loadedBlock savedBlock
  cases hfind : saves.find? fun s => s.slot = ⟨d, x / 16, z / 16, (subOf y : ℕ)⟩ with
  | none =>
    rw [List.find?_eq_none] at hfind
    exact iff_of_true rfl fun s hs hslot => absurd hslot (by simpa using hfind s hs)
  | some s =>
    have hs := List.mem_of_find?_eq_some hfind
    have hslot : s.slot = ⟨d, x / 16, z / 16, (subOf y : ℕ)⟩ := by simpa using List.find?_some hfind
    dsimp only
    rw [SavedSubChunk.lastSlot_block_iff]
    constructor
    · -- Slots are distinct, so there is no other save of this one.
      intro hagree t ht htslot
      rwa [List.inj_on_of_nodup_map h.distinct ht hs (htslot.trans hslot.symm)]
    · exact fun hall => hall s hs hslot

lemma Saves.exists_run {saves : List SavedSubChunk} {entries : List Entry} (h : Saves saves entries)
    {fuel : ℕ} (hfuel : 32768 ≤ fuel) :
    ∃ st, parseBedrock fuel entries = .ok (true, st) ∧ Loads fuel entries true st := by
  obtain ⟨st, hload⟩ := h.loadEntries_ok hfuel (List.Subset.refl _) LoaderState.StoreInv.init
  obtain ⟨done, rest, hsplit, hrun, hrest⟩ := parseBedrock_loads hload
  rw [hrest rfl, List.append_nil] at hsplit
  exact ⟨st, hload, hsplit ▸ hrun⟩

lemma Saves.getBlock_loaded {saves : List SavedSubChunk} {entries : List Entry}
    (h : Saves saves entries) {fuel : ℕ} (hfuel : 32768 ≤ fuel) {st : LoaderState}
    (hrun : Loads fuel entries true st) (d : ChunkDimension) {x z : ℤ} (y : Fin 256)
    (hx : -2147483648 ≤ x ∧ x ≤ 2147483647) (hz : -2147483648 ≤ z ∧ z ≤ 2147483647) :
    st.getBlock x (y : ℕ) z d = .ok (loadedBlock saves d x y z) := by
  rw [LoaderState.getBlock_eq hrun.storeInv, rawCoordinate_int hx.1 hx.2, ok_bind,
    rawCoordinate_int hz.1 hz.2, ok_bind, chunkCoordinate_eq, chunkCoordinate_eq, hrun.view_eq]
  exact h.block_eq hfuel d x y z

lemma Saves.getBlock_eq {saves : List SavedSubChunk} {entries : List Entry} (h : Saves saves entries)
    (hpadding : ∀ s ∈ saves, s.PaddingAgrees) {fuel : ℕ} (hfuel : 32768 ≤ fuel) {st : LoaderState}
    (hrun : Loads fuel entries true st) (d : ChunkDimension) {x z : ℤ} (y : Fin 256)
    (hx : -2147483648 ≤ x ∧ x ≤ 2147483647) (hz : -2147483648 ≤ z ∧ z ≤ 2147483647) :
    st.getBlock x (y : ℕ) z d = .ok (savedBlock saves d x y z) := by
  rw [h.getBlock_loaded hfuel hrun d y hx hz,
    (h.loadedBlock_eq_iff d x y z).mpr fun s hs _ => hpadding s hs _]

def bytesOf (text : String) : List UInt8 := text.toList.map fun c => UInt8.ofNat c.toNat

/-- The palette entry of a block without states. -/
def namedTree (name : String) : Tree :=
  .compound (.cons (bytesOf "name") (.string (bytesOf name)) .nil)

/-- Stripes of air and wool, in indices of three bits. The last word has padding. -/
def stripes : SavedSubChunk where
  dimension := .NETHER
  chunkX := -1
  chunkZ := 2
  chunkY := ⟨3, by decide⟩
  bits := 3
  indices q := q % 2
  padding n := n % 2
  palette := [([], namedTree "minecraft:air"), ([], namedTree "minecraft:wool")]
  further := []

lemma stripes_valid : stripes.Valid where
  chunkX := by decide
  chunkZ := by decide
  bits := by decide
  indices q := (Nat.mod_lt _ two_pos).trans (by decide)
  padding n := (Nat.mod_lt _ two_pos).trans (by decide)
  further := by simp [stripes]
  count := by decide
  size := by
    simp only [SavedSubChunk.entry_value, storageValue, List.length_append, length_wordBytes,
      LittleEndian.length_bytes, SavedSubChunk.first, List.length_map, List.length_range]
    decide

/-- Between two entries that are not sub-chunks. -/
lemma stripes_saves : Saves [stripes] [⟨[], []⟩, stripes.entry, ⟨[126], [0]⟩] := by
  have hslot : stripes.entry.stored = true := by
    rw [Entry.stored, stripes_valid.entry_slot?]
    rfl
  have hstored : ([⟨[], []⟩, stripes.entry, ⟨[126], [0]⟩] : List Entry).filter Entry.stored =
      [stripes].map SavedSubChunk.entry := by
    rw [List.filter_cons_of_neg (by decide), List.filter_cons_of_pos hslot,
      List.filter_cons_of_neg (by decide)]
    rfl
  refine ⟨?_, by simp, by rw [hstored], ?_⟩
  · intro s hs
    rw [List.mem_singleton.mp hs]
    exact stripes_valid
  · simp [isSubChunkKey, SavedSubChunk.entry, encodeValue]

end ChunkViewer
