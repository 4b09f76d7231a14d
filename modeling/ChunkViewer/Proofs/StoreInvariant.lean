import ChunkViewer.Proofs.ChunkStore

/-!
# The store invariant

Ids belong to the chunks stored under them, no chunk is stored twice, and the counter is the
number of stored chunks. It holds of every state that a run of the loader reaches.
-/

namespace ChunkViewer

open ExceptRun

/-- What every state reached by the loader satisfies. -/
structure LoaderState.StoreInv (st : LoaderState) : Prop where
  /-- A stored pointer leads to a chunk whose own coordinates make its id. -/
  owned : ∀ id d p, st.world.findChunk id d = some p →
    ∃ c, st.heap[p]? = some c ∧ id = chunkID c.x c.z
  /-- A chunk is stored under one id of one dimension. -/
  single : ∀ id d id' d' p, st.world.findChunk id d = some p →
    st.world.findChunk id' d' = some p → id = id' ∧ d = d'
  counted : st.totalChunks = st.world.size

namespace LoaderState

lemma deref_eq_ok {st : LoaderState} {p : ChunkPointer} {c : Chunk} :
    st.deref p = .ok c ↔ st.heap[p]? = some c := by
  unfold deref
  cases st.heap[p]? with
  | none => simp
  | some c' => simp

@[simp] lemma world_write (st : LoaderState) (p : ChunkPointer) (c : Chunk) :
    (st.write p c).world = st.world := rfl

lemma heap_write (st : LoaderState) (p q : ChunkPointer) {c c' : Chunk} (h : st.heap[p]? = some c) :
    (st.write p c').heap[q]? = if q = p then some c' else st.heap[q]? := by
  obtain ⟨hp, -⟩ := List.getElem?_eq_some_iff.mp h
  unfold write
  by_cases hq : q = p
  · subst hq
    rw [if_pos rfl, List.getElem?_set_self hp]
  · rw [if_neg hq, List.getElem?_set_ne (fun e => hq e.symm)]

lemma heap_newChunk (st : LoaderState) (x z : ℤ) (d : ChunkDimension) (p : ℕ) :
    (st.newChunk x z d).heap[p]? =
      if p = st.heap.length then some (Chunk.new x z) else st.heap[p]? := by
  unfold newChunk
  by_cases hp : p = st.heap.length
  · subst hp
    rw [if_pos rfl, List.getElem?_concat_length]
  · rw [if_neg hp]
    by_cases hlt : p < st.heap.length
    · rw [List.getElem?_append_left hlt]
    · rw [List.getElem?_eq_none (by simp only [List.length_append, List.length_singleton]; omega),
        List.getElem?_eq_none (by omega)]

lemma visit_cases (st : LoaderState) (slot : Slot) :
    (∃ p, st.world.findChunk (chunkID slot.chunkX slot.chunkZ) slot.dimension = some p ∧
      st.visit slot = (p, st)) ∨
    (st.world.findChunk (chunkID slot.chunkX slot.chunkZ) slot.dimension = none ∧
      st.visit slot = (st.heap.length, st.newChunk slot.chunkX slot.chunkZ slot.dimension)) := by
  unfold visit
  cases h : st.world.findChunk (chunkID slot.chunkX slot.chunkZ) slot.dimension with
  | none => exact Or.inr ⟨rfl, rfl⟩
  | some p => exact Or.inl ⟨p, rfl, rfl⟩

lemma findChunk_visit (st : LoaderState) (slot : Slot) (id : String) (d : ChunkDimension) :
    (st.visit slot).2.world.findChunk id d =
      if d = slot.dimension ∧ id = chunkID slot.chunkX slot.chunkZ then some (st.visit slot).1
      else st.world.findChunk id d := by
  rcases st.visit_cases slot with ⟨p, hfind, hvisit⟩ | ⟨-, hvisit⟩
  · rw [hvisit]
    by_cases h : d = slot.dimension ∧ id = chunkID slot.chunkX slot.chunkZ
    · rw [if_pos h, h.1, h.2, hfind]
    · rw [if_neg h]
  · rw [hvisit, findChunk_newChunk]

/-! ## Preservation -/

lemma findChunk_init (id : String) (d : ChunkDimension) : init.world.findChunk id d = none := by
  cases d <;> rfl

lemma StoreInv.init : LoaderState.init.StoreInv := by
  refine ⟨?_, ?_, rfl⟩
  · intro id d p h
    rw [findChunk_init] at h
    exact absurd h (by simp)
  · intro id d id' d' p h
    rw [findChunk_init] at h
    exact absurd h (by simp)

lemma StoreInv.lt_length {st : LoaderState} (hst : st.StoreInv) {id : String} {d : ChunkDimension}
    {p : ChunkPointer} (h : st.world.findChunk id d = some p) : p < st.heap.length := by
  obtain ⟨c, hc, -⟩ := hst.owned id d p h
  exact (List.getElem?_eq_some_iff.mp hc).1

lemma StoreInv.newChunk {st : LoaderState} (hst : st.StoreInv) {x z : ℤ} {d : ChunkDimension}
    (hfree : st.world.findChunk (chunkID x z) d = none) : (st.newChunk x z d).StoreInv := by
  refine ⟨?_, ?_, ?_⟩
  · intro id d' p h
    rw [findChunk_newChunk] at h
    rw [heap_newChunk]
    split at h
    · next hid =>
      rw [← Option.some.inj h, if_pos rfl]
      exact ⟨_, rfl, hid.2⟩
    · obtain ⟨c, hc, hown⟩ := hst.owned id d' p h
      rw [if_neg (Nat.ne_of_lt (hst.lt_length h))]
      exact ⟨c, hc, hown⟩
  · -- The new pointer is past every old one.
    intro id d' id' d'' p h h'
    rw [findChunk_newChunk] at h h'
    split at h
    · next hid =>
      split at h'
      · next hid' => exact ⟨hid.2.trans hid'.2.symm, hid.1.trans hid'.1.symm⟩
      · have := hst.lt_length h'
        rw [← Option.some.inj h] at this
        exact absurd this (Nat.lt_irrefl _)
    · split at h'
      · have := hst.lt_length h
        rw [← Option.some.inj h'] at this
        exact absurd this (Nat.lt_irrefl _)
      · exact hst.single id d' id' d'' p h h'
  · have hsize := size_addChunk (c := Chunk.new x z) hfree st.heap.length
    change st.totalChunks + 1 = (st.world.addChunk (Chunk.new x z) st.heap.length d).size
    rw [hsize, hst.counted]

lemma StoreInv.visit {st : LoaderState} (hst : st.StoreInv) (slot : Slot) :
    (st.visit slot).2.StoreInv := by
  rcases st.visit_cases slot with ⟨p, -, hvisit⟩ | ⟨hfree, hvisit⟩
  · rw [hvisit]
    exact hst
  · rw [hvisit]
    exact hst.newChunk hfree

lemma StoreInv.deref_visit {st : LoaderState} (hst : st.StoreInv) (slot : Slot) :
    ∃ c, (st.visit slot).2.deref (st.visit slot).1 = .ok c := by
  have hfind := st.findChunk_visit slot (chunkID slot.chunkX slot.chunkZ) slot.dimension
  rw [if_pos ⟨rfl, rfl⟩] at hfind
  obtain ⟨c, hc, -⟩ := (hst.visit slot).owned _ _ _ hfind
  exact ⟨c, deref_eq_ok.mpr hc⟩

lemma StoreInv.write {st : LoaderState} (hst : st.StoreInv) {p : ChunkPointer} {c c' : Chunk}
    (hc : st.heap[p]? = some c) (hpos : c'.x = c.x ∧ c'.z = c.z) : (st.write p c').StoreInv := by
  refine ⟨?_, hst.single, hst.counted⟩
  intro id d q h
  obtain ⟨c₁, hc₁, hown⟩ := hst.owned id d q h
  rw [st.heap_write p q hc]
  by_cases hq : q = p
  · subst hq
    rw [hc] at hc₁
    obtain rfl := Option.some.inj hc₁
    rw [if_pos rfl]
    exact ⟨c', rfl, by rw [hpos.1, hpos.2]; exact hown⟩
  · rw [if_neg hq]
    exact ⟨c₁, hc₁, hown⟩

end LoaderState

lemma loadEntry_storeInv {fuel : ℕ} {e : Entry} {st st' : LoaderState} {ok : Bool}
    (hst : st.StoreInv) (h : loadEntry fuel e st = .ok (ok, st')) : st'.StoreInv := by
  rcases loadEntry_cases h with ⟨-, -, rfl⟩ | ⟨slot, c, c', n, -, hc, -, hloop, rfl⟩
  · exact hst
  · exact (hst.visit slot).write (LoaderState.deref_eq_ok.mp hc) (storageLoop_position hloop)

/-- The invariant holds along every run. -/
theorem Loads.storeInv {fuel : ℕ} {seen : List Entry} {ok : Bool} {st : LoaderState}
    (h : Loads fuel seen ok st) : st.StoreInv := by
  induction h with
  | start => exact LoaderState.StoreInv.init
  | step _ he ih => exact loadEntry_storeInv ih he

/-! ## Which chunks are there -/

lemma Loads.findChunk_isSome {fuel : ℕ} {seen : List Entry} {ok : Bool} {st : LoaderState}
    (h : Loads fuel seen ok st) (d : ChunkDimension) (x z : ℤ) :
    (st.world.findChunk (chunkID x z) d).isSome = true ↔ Visited seen d x z := by
  induction h with
  | start =>
    constructor
    · intro h
      rw [LoaderState.findChunk_init] at h
      exact absurd h (by simp)
    · intro h
      exact absurd h (not_visited_nil d x z)
  | step _ he ih =>
    rw [visited_append]
    rcases loadEntry_cases he with ⟨hslot, -, rfl⟩ | ⟨slot, c, c', n, hslot, -, -, -, rfl⟩
    · rw [ih, hslot]
      simp
    · rw [LoaderState.world_write, LoaderState.findChunk_visit, hslot]
      by_cases hsite : d = slot.dimension ∧ chunkID x z = chunkID slot.chunkX slot.chunkZ
      · obtain ⟨hx, hz⟩ := chunkID_inj.mp hsite.2
        rw [if_pos hsite]
        exact ⟨fun _ => Or.inr ⟨slot, rfl, hsite.1.symm, hx.symm, hz.symm⟩, fun _ => rfl⟩
      · rw [if_neg hsite, ih]
        constructor
        · exact Or.inl
        · rintro (hseen | ⟨slot', hs, hd, hx, hz⟩)
          · exact hseen
          · obtain rfl := Option.some.inj hs
            exact absurd ⟨hd.symm, by rw [hx, hz]⟩ hsite

lemma loadEntry_world {fuel : ℕ} {e : Entry} {st st' : LoaderState} {ok : Bool}
    (h : loadEntry fuel e st = .ok (ok, st')) :
    st'.world = st.world ∨
      ∃ c p d, st.world.findChunk (chunkID c.x c.z) d = none ∧ st'.world = st.world.addChunk c p d := by
  rcases loadEntry_cases h with ⟨-, -, rfl⟩ | ⟨slot, c, c', n, -, -, -, -, rfl⟩
  · exact Or.inl rfl
  · rw [LoaderState.world_write]
    rcases st.visit_cases slot with ⟨p, -, hvisit⟩ | ⟨hfree, hvisit⟩
    · rw [hvisit]
      exact Or.inl rfl
    · rw [hvisit]
      exact Or.inr ⟨Chunk.new slot.chunkX slot.chunkZ, st.heap.length, slot.dimension, hfree, rfl⟩

/-- The chunk store over whole loads. -/
theorem chunk_store_invariant {fuel : ℕ} {seen : List Entry} {ok : Bool} {st : LoaderState}
    (hrun : Loads fuel seen ok st) :
    (∀ id d p, st.world.findChunk id d = some p →
      ∃ c, st.heap[p]? = some c ∧ id = chunkID c.x c.z) ∧
    (∀ d x z,
      (Visited seen d x z → ∃ p c, st.world.findChunk (chunkID x z) d = some p ∧
        st.heap[p]? = some c ∧ c.x = x ∧ c.z = z ∧
        ∀ id' q c', st.world.findChunk id' d = some q → st.heap[q]? = some c' →
          c'.x = x → c'.z = z → q = p) ∧
      (¬Visited seen d x z → st.world.findChunk (chunkID x z) d = none)) ∧
    (ok = true → ∀ e ok' st', loadEntry fuel e st = .ok (ok', st') →
      st'.world = st.world ∨
        ∃ c p d, st.world.findChunk (chunkID c.x c.z) d = none ∧
          st'.world = st.world.addChunk c p d) ∧
    (∀ id d id' d' p, st.world.findChunk id d = some p → st.world.findChunk id' d' = some p →
      id = id' ∧ d = d') ∧
    st.totalChunks = st.world.chunks.entries.length + st.world.netherChunks.entries.length +
      st.world.endChunks.entries.length := by
  have hinv := hrun.storeInv
  refine ⟨hinv.owned, ?_, fun _ e ok' st' he => loadEntry_world he, hinv.single, hinv.counted⟩
  intro d x z
  constructor
  · intro hvisited
    obtain ⟨p, hp⟩ := Option.isSome_iff_exists.mp ((hrun.findChunk_isSome d x z).mpr hvisited)
    obtain ⟨c, hc, hid⟩ := hinv.owned _ _ _ hp
    obtain ⟨hx, hz⟩ := chunkID_inj.mp hid
    refine ⟨p, c, hp, hc, hx.symm, hz.symm, ?_⟩
    intro id' q c' hq hc' hx' hz'
    obtain ⟨c₁, hc₁, hid'⟩ := hinv.owned _ _ _ hq
    rw [hc'] at hc₁
    obtain rfl := Option.some.inj hc₁
    rw [hid', hx', hz', hp] at hq
    exact (Option.some.inj hq).symm
  · intro hnot
    rw [← Option.not_isSome_iff_eq_none]
    exact fun h => hnot ((hrun.findChunk_isSome d x z).mp h)

/-- An Overworld entry at `(-1, 2)` whose value has no storages. -/
def emptyEntry (y : UInt8) : Entry := ⟨[255, 255, 255, 255, 2, 0, 0, 0, 0x2F, y], [8, 0]⟩

theorem chunk_store_invariant_emptyEntry :
    (LoaderState.init.newChunk (-1) 2 .OVERWORLD).totalChunks = 1 ∧
      ∃ p c, (LoaderState.init.newChunk (-1) 2 .OVERWORLD).world.findChunk (chunkID (-1) 2)
        .OVERWORLD = some p ∧
        (LoaderState.init.newChunk (-1) 2 .OVERWORLD).heap[p]? = some c ∧ c.x = -1 ∧ c.z = 2 := by
  have hrun : Loads 0 [emptyEntry 3] true (LoaderState.init.newChunk (-1) 2 .OVERWORLD) :=
    Loads.step Loads.start rfl
  obtain ⟨-, hsites, -, -, hcount⟩ := chunk_store_invariant hrun
  have hvisited : Visited [emptyEntry 3] .OVERWORLD (-1) 2 :=
    ⟨emptyEntry 3, List.mem_singleton_self _, ⟨.OVERWORLD, -1, 2, 3⟩, by decide, rfl, rfl, rfl⟩
  obtain ⟨p, c, hp, hc, hx, hz, -⟩ := (hsites .OVERWORLD (-1) 2).1 hvisited
  exact ⟨hcount, p, c, hp, hc, hx, hz⟩

end ChunkViewer
