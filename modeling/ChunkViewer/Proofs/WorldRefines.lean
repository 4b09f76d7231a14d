import ChunkViewer.Proofs.StoreInvariant

/-!
# The loader refines the abstract world

A state of the loader is viewed as a world: follow the id to the chunk and take its 16
sub-chunks. Every run shows the world its entries stand for, and a block looked up in the
state is the one of its view.
-/

namespace ChunkViewer

open ExceptRun

namespace LoaderState

/-- The chunk stored for a position. -/
def at? (st : LoaderState) (d : ChunkDimension) (x z : ℤ) : Option Chunk :=
  (st.world.findChunk (chunkID x z) d).bind fun p => st.heap[p]?

def view (st : LoaderState) : World := fun d x z => (st.at? d x z).map Chunk.subChunk

lemma StoreInv.at?_eq {st : LoaderState} (hst : st.StoreInv) (d : ChunkDimension) (x z : ℤ) :
    (st.world.findChunk (chunkID x z) d = none ∧ st.at? d x z = none) ∨
      ∃ p c, st.world.findChunk (chunkID x z) d = some p ∧ st.heap[p]? = some c ∧
        st.at? d x z = some c := by
  unfold at?
  cases h : st.world.findChunk (chunkID x z) d with
  | none => exact Or.inl ⟨rfl, rfl⟩
  | some p =>
    obtain ⟨c, hc, -⟩ := hst.owned _ _ _ h
    exact Or.inr ⟨p, c, rfl, hc, hc⟩

lemma StoreInv.at?_newChunk {st : LoaderState} (hst : st.StoreInv) (d d' : ChunkDimension)
    (x x' z z' : ℤ) :
    (st.newChunk x z d).at? d' x' z' =
      if d' = d ∧ x' = x ∧ z' = z then some (Chunk.new x z) else st.at? d' x' z' := by
  unfold at?
  simp only [findChunk_newChunk, heap_newChunk, chunkID_inj]
  by_cases hsite : d' = d ∧ x' = x ∧ z' = z
  · rw [if_pos hsite, if_pos hsite]
    simp
  · rw [if_neg hsite, if_neg hsite]
    cases h : st.world.findChunk (chunkID x' z') d' with
    | none => rfl
    | some q => simp [Nat.ne_of_lt (hst.lt_length h)]

lemma StoreInv.at?_visit {st : LoaderState} (hst : st.StoreInv) (slot : Slot) (d : ChunkDimension)
    (x z : ℤ) :
    (st.visit slot).2.at? d x z =
      if d = slot.dimension ∧ x = slot.chunkX ∧ z = slot.chunkZ then
        some ((st.at? d x z).getD (Chunk.new x z))
      else st.at? d x z := by
  rcases st.visit_cases slot with ⟨p, hfind, hvisit⟩ | ⟨hfree, hvisit⟩
  · rw [hvisit]
    by_cases hsite : d = slot.dimension ∧ x = slot.chunkX ∧ z = slot.chunkZ
    · obtain ⟨rfl, rfl, rfl⟩ := hsite
      rw [if_pos ⟨rfl, rfl, rfl⟩]
      rcases hst.at?_eq slot.dimension slot.chunkX slot.chunkZ with ⟨hnone, -⟩ | ⟨q, c, -, -, hc⟩
      · rw [hfind] at hnone
        exact absurd hnone (by simp)
      · rw [hc, Option.getD_some]
    · rw [if_neg hsite]
  · rw [hvisit, hst.at?_newChunk]
    by_cases hsite : d = slot.dimension ∧ x = slot.chunkX ∧ z = slot.chunkZ
    · obtain ⟨rfl, rfl, rfl⟩ := hsite
      rw [if_pos ⟨rfl, rfl, rfl⟩, if_pos ⟨rfl, rfl, rfl⟩, at?, hfree]
      rfl
    · rw [if_neg hsite, if_neg hsite]

lemma StoreInv.at?_write {st : LoaderState} (hst : st.StoreInv) {d : ChunkDimension} {x z : ℤ}
    {p : ChunkPointer} {c c' : Chunk} (hp : st.world.findChunk (chunkID x z) d = some p)
    (hc : st.heap[p]? = some c) (d' : ChunkDimension) (x' z' : ℤ) :
    (st.write p c').at? d' x' z' = if d' = d ∧ x' = x ∧ z' = z then some c' else st.at? d' x' z' := by
  unfold at?
  rw [world_write]
  by_cases hsite : d' = d ∧ x' = x ∧ z' = z
  · obtain ⟨rfl, rfl, rfl⟩ := hsite
    rw [if_pos ⟨rfl, rfl, rfl⟩, hp, Option.bind_some, st.heap_write p p hc, if_pos rfl]
  · rw [if_neg hsite]
    cases h : st.world.findChunk (chunkID x' z') d' with
    | none => rfl
    | some q =>
      have hq : q ≠ p := by
        rintro rfl
        obtain ⟨hid, hd⟩ := hst.single _ _ _ _ _ h hp
        obtain ⟨hx, hz⟩ := chunkID_inj.mp hid
        exact hsite ⟨hd, hx, hz⟩
      rw [Option.bind_some, Option.bind_some, st.heap_write p q hc, if_neg hq]

end LoaderState

/-! ## The storage loop, for any sub-chunk index -/

lemma loadStorage_eq_none {fuel : ℕ} {v : Slice} {chunkY : ℤ} {i currOffset : ℕ} {c : Chunk}
    (h : loadStorage fuel v chunkY i currOffset c = .ok none) :
    readStorage fuel v i currOffset = .ok none := by
  unfold loadStorage at h
  unfold readStorage
  obtain ⟨sv, hsv, hrest⟩ := bind_eq_ok.mp h
  rw [hsv, ok_bind]
  by_cases hrt : sv &&& 1 = 1
  · rw [if_pos hrt]
  · rw [if_neg hrt] at hrest
    obtain ⟨layout, -, h1⟩ := bind_eq_ok.mp hrest
    obtain ⟨advance, -, h2⟩ := bind_eq_ok.mp h1
    obtain ⟨n, -, h3⟩ := bind_eq_ok.mp h2
    obtain ⟨q, -, h4⟩ := bind_eq_ok.mp h3
    obtain ⟨c', -, h5⟩ := bind_eq_ok.mp h4
    exact absurd h5 (by simp)

/-- A finished storage loop has read its storages and loaded them into one sub-chunk. -/
theorem storageLoop_refines {fuel : ℕ} {v : Slice} {chunkY : ℤ} {n : ℕ} {c c' : Chunk} {ok : Bool}
    (h : storageLoop fuel v chunkY n 0 2 c = .ok (ok, c')) :
    ∃ storages, readStorages fuel v n 0 2 = .ok (ok, storages) ∧
      ∀ y : Fin 16, c'.subChunk y =
        if ((y : ℕ) : ℤ) = chunkY then (c.subChunk y).loadAll storages else c.subChunk y := by
  rcases inside_or_outside chunkY with ⟨y, rfl⟩ | hy
  · rw [storageLoop_eq] at h
    obtain ⟨r, hr, hload⟩ := bind_eq_ok.mp h
    obtain ⟨hok, hc⟩ := Prod.mk.inj (Except.ok.inj hload)
    refine ⟨r.2, by rw [hr, ← hok], ?_⟩
    intro y'
    rw [← hc, Chunk.subChunk_loadAll]
    simp only [Fin.ext_iff, Nat.cast_inj]
    by_cases hyy : y'.val = y.val
    · rw [if_pos hyy, if_pos hyy, Fin.ext hyy]
    · rw [if_neg hyy, if_neg hyy]
  · have hsame := storageLoop_outside hy h
    have hne : ∀ y' : Fin 16, ((y' : ℕ) : ℤ) ≠ chunkY := by
      rintro y' rfl
      exact not_outside y' hy
    refine ⟨[], ?_, fun y' => by rw [if_neg (hne y'), hsame]⟩
    cases n with
    | zero => rw [(Prod.mk.inj (Except.ok.inj h)).1.symm, readStorages]
    | succ n =>
      rw [storageLoop] at h
      obtain ⟨r, hr, hrest⟩ := bind_eq_ok.mp h
      cases r with
      | some r => exact absurd hr (loadStorage_outside hy fuel v c r)
      | none =>
        rw [readStorages, loadStorage_eq_none hr, ok_bind, ← (Prod.mk.inj (Except.ok.inj hrest)).1]

/-! ## Runs -/

/-- One entry. -/
theorem loadEntry_refines {fuel : ℕ} {e : Entry} {st st' : LoaderState} {ok : Bool}
    (hst : st.StoreInv) (h : loadEntry fuel e st = .ok (ok, st')) :
    st'.view = st.view.loadEntry fuel e := by
  rcases loadEntry_cases h with ⟨hslot, -, rfl⟩ | ⟨slot, c, c', n, hslot, hc, hn, hloop, rfl⟩
  · rw [World.loadEntry, hslot]
  · obtain ⟨storages, hread, hsub⟩ := storageLoop_refines hloop
    have hstorages : e.storages fuel = storages := by
      rw [Entry.storages, readValue, hn, ok_bind, hread]
    have hfind : (st.visit slot).2.world.findChunk (chunkID slot.chunkX slot.chunkZ) slot.dimension =
        some (st.visit slot).1 := by
      rw [LoaderState.findChunk_visit, if_pos ⟨rfl, rfl⟩]
    have hheap := LoaderState.deref_eq_ok.mp hc
    -- The chunk before the loop is the one of the visit.
    have hbefore : (st.visit slot).2.at? slot.dimension slot.chunkX slot.chunkZ = some c := by
      rw [LoaderState.at?, hfind, Option.bind_some, hheap]
    rw [hst.at?_visit, if_pos ⟨rfl, rfl, rfl⟩] at hbefore
    rw [World.loadEntry, hslot]
    simp only [hstorages]
    funext d x z
    rw [LoaderState.view, World.load, (hst.visit slot).at?_write hfind hheap, hst.at?_visit]
    by_cases hsite : d = slot.dimension ∧ x = slot.chunkX ∧ z = slot.chunkZ
    · rw [if_pos hsite, if_pos hsite, Option.map_some]
      obtain ⟨rfl, rfl, rfl⟩ := hsite
      congr 1
      funext y
      have hold : c.subChunk y =
          (st.view slot.dimension slot.chunkX slot.chunkZ).getD SubChunk.none16 y := by
        rw [← Option.some.inj hbefore, LoaderState.view]
        cases st.at? slot.dimension slot.chunkX slot.chunkZ with
        | none => exact Chunk.subChunk_new _ _ y
        | some c₀ => rfl
      rw [hsub, hold]
    · rw [if_neg hsite, if_neg hsite, if_neg hsite]
      rfl

/-- Every run shows the world its entries stand for. -/
theorem Loads.view_eq {fuel : ℕ} {seen : List Entry} {ok : Bool} {st : LoaderState}
    (h : Loads fuel seen ok st) : st.view = World.loadEntries fuel seen := by
  induction h with
  | start =>
    funext d x z
    rw [LoaderState.view, LoaderState.at?, LoaderState.findChunk_init]
    rfl
  | step hrun he ih => rw [loadEntry_refines hrun.storeInv he, ih, World.loadEntries_append]

/-- The sub-chunk at a slot holds the storages of the entries stored there. -/
theorem Loads.subChunk_eq {fuel : ℕ} {seen : List Entry} {ok : Bool} {st : LoaderState}
    (h : Loads fuel seen ok st) {d : ChunkDimension} {x z : ℤ} {c : Chunk}
    (hc : st.at? d x z = some c) (y : Fin 16) :
    c.subChunk y = SubChunk.empty.loadAll
      ((entriesAt seen ⟨d, x, z, (y : ℕ)⟩).flatMap fun e => e.storages fuel) := by
  rw [← World.loadEntries_subChunk, ← h.view_eq, LoaderState.view, hc]
  rfl

/-! ## Blocks -/

lemma chunkCoordinate_eq (x : ℤ) : chunkCoordinate x = x / 16 := by
  unfold chunkCoordinate
  exact_mod_cast Rat.floor_intCast_div_natCast x 16

lemma rawCoordinate_chunk (x : ℤ) :
    rawCoordinate x (chunkCoordinate x) = asInt .rawCoordinate (16 * (x / 16)) >>= fun _ =>
      .ok (x % 16) := by
  unfold rawCoordinate
  rw [chunkCoordinate_eq]
  have hmod := Int.emod_nonneg x (show (16 : ℤ) ≠ 0 by norm_num)
  have hlt := Int.emod_lt_of_pos x (show (0 : ℤ) < 16 by norm_num)
  cases h : asInt .rawCoordinate (16 * (x / 16)) with
  | error e => rfl
  | ok base =>
    have hbase : base = 16 * (x / 16) := by
      unfold asInt at h
      split at h
      · exact (Except.ok.inj h).symm
      · exact absurd h (by simp)
    rw [ok_bind, ok_bind, hbase, asInt_ok (by omega) (by omega)]
    congr 1
    omega

lemma rawCoordinate_int {x : ℤ} (h1 : -2147483648 ≤ x) (h2 : x ≤ 2147483647) :
    rawCoordinate x (chunkCoordinate x) = .ok (x % 16) := by
  rw [rawCoordinate_chunk, asInt_ok (by omega) (by omega), ok_bind]

/-- The column of a block coordinate. -/
def column (x : ℤ) : Fin 16 := ⟨(x % 16).toNat, by omega⟩

lemma Chunk.getBlock_eq (c : Chunk) (x : Fin 16) (y : Fin 256) (z : Fin 16) :
    c.getBlock (x : ℕ) (y : ℕ) (z : ℕ) = (c.subChunk (subOf y)).block (cellPos x y z) := by
  have hy : (((y : ℕ) : ℤ)).tdiv 16 = ((subOf y : ℕ) : ℤ) := rfl
  unfold Chunk.getBlock SubChunk.block blockOf
  rw [if_neg (by omega), subscript_natCast x.isLt, ok_bind, subscript_natCast z.isLt, ok_bind,
    subscript_natCast y.isLt, ok_bind, ← Chunk.cell_eq_subChunk, hy,
    subscript_natCast (subOf y).isLt]
  rfl

/-- A block looked up in a state is the one of its view. -/
theorem LoaderState.getBlock_eq {st : LoaderState} (hst : st.StoreInv) (x z : ℤ) (y : Fin 256)
    (d : ChunkDimension) :
    st.getBlock x (y : ℕ) z d =
      rawCoordinate x (chunkCoordinate x) >>= fun _ =>
        rawCoordinate z (chunkCoordinate z) >>= fun _ =>
          match st.view d (chunkCoordinate x) (chunkCoordinate z) with
          | none => .ok ⟨-1, none⟩
          | some subs => (subs (subOf y)).block (cellPos (column x) y (column z)) := by
  unfold LoaderState.getBlock
  have hcolumn : ∀ n : ℤ, n % 16 = ((column n : ℕ) : ℤ) := by
    intro n
    simp only [column]
    omega
  dsimp only
  rw [rawCoordinate_chunk, rawCoordinate_chunk]
  cases asInt .rawCoordinate (16 * (x / 16)) with
  | error e => rfl
  | ok base =>
    rw [ok_bind, ok_bind]
    cases asInt .rawCoordinate (16 * (z / 16)) with
    | error e => rfl
    | ok base' =>
      rw [ok_bind, ok_bind, LoaderState.view]
      rcases hst.at?_eq d (chunkCoordinate x) (chunkCoordinate z) with ⟨hfind, hat⟩ | ⟨p, c, hfind, hc, hat⟩
      · rw [hfind, hat]
        rfl
      · rw [hfind, hat]
        simp only [Option.map_some, LoaderState.deref_eq_ok.mpr hc, ok_bind]
        rw [hcolumn x, hcolumn z, Chunk.getBlock_eq]

end ChunkViewer
