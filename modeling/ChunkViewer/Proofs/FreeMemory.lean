import ChunkViewer.Proofs.SavedWorld
import ChunkViewer.Proofs.WorldMemory

/-!
# Giving the memory back

After any load `freeMemory` comes to its end, whatever the order in which the maps iterate: it
follows no pointer to a deleted tag or chunk and deletes nothing twice. It deletes every chunk
and exactly the tags that can be reached from the world.
-/

namespace ChunkViewer

open ExceptRun TreeHeap

/-! ## The whole load -/

namespace Memory

theorem loadEntries_simulates {fuel : ℕ} {es : List Entry} {st : LoaderState} {m : Memory}
    (hst : st.StoreInv) (hm : m.Refines st) :
    Simulates .stop (fun r r' => r'.1 = r.1 ∧ r'.2.Refines r.2)
      (ChunkViewer.loadEntries fuel es st) (loadEntries fuel es m) := by
  induction es generalizing st m with
  | nil => exact Simulates.ok ⟨rfl, hm⟩
  | cons e es ih =>
    refine (loadEntry_simulates hst hm e).run.bind fun r r' hr => ?_
    obtain ⟨ok, st'⟩ := r
    obtain ⟨ok', m'⟩ := r'
    obtain ⟨he, hok, hm'⟩ := hr
    obtain rfl : ok' = ok := hok
    cases ok' with
    | true => exact ih (loadEntry_storeInv hst he) hm'
    | false => exact Simulates.ok ⟨rfl, hm'⟩

lemma parseBedrock_simulates (fuel : ℕ) (entries : List Entry) :
    Simulates .stop (fun r r' => r'.1 = r.1 ∧ r'.2.Refines r.2)
      (ChunkViewer.parseBedrock fuel entries) (parseBedrock fuel entries) :=
  loadEntries_simulates LoaderState.StoreInv.init Refines.init

/-- The loader with pointers does what the loader of values does: it stops for the same reason,
or ends in memory that stands for the same world, in which no tag has two owners. -/
theorem memory_load_refines (fuel : ℕ) (entries : List Entry) :
    (∀ e, ChunkViewer.parseBedrock fuel entries = .error e →
      parseBedrock fuel entries = .error (.stop e)) ∧
    ∀ ok st, ChunkViewer.parseBedrock fuel entries = .ok (ok, st) →
      ∃ m, parseBedrock fuel entries = .ok (ok, m) ∧ m.Refines st := by
  have hload := parseBedrock_simulates fuel entries
  constructor
  · intro e he
    rw [he] at hload
    exact hload
  · intro ok st hok
    rw [hok] at hload
    obtain ⟨⟨ok', m⟩, hrun, heq, hm⟩ := hload
    obtain rfl : ok' = ok := heq
    exact ⟨m, hrun, hm⟩

end Memory

/-! ## Releasing tags -/

/-- The inner tags of a tag, in the order in which its map iterates. -/
def TagOrder.kids (order : TagOrder) (p : TagPointer) (c : TagCell) : List TagPointer :=
  (order.iterate p c.innerTags).map Prod.snd

lemma kids_perm (order : TagOrder) (p : TagPointer) (c : TagCell) :
    (order.kids p c).Perm (tagLayout.cellKids c) :=
  (order.perm p c.innerTags).map Prod.snd

lemma tag_freeMemory_eq (order : TagOrder) (fuel : ℕ) (p : TagPointer) (h : TagHeap) :
    TagCell.freeMemory order fuel p h =
      releaseBelow order.kids .deletedTag (.stop .outOfFuel) fuel p h := by
  induction fuel generalizing p h with
  | zero => rfl
  | succ fuel ih =>
    rw [TagCell.freeMemory, releaseBelow_succ]
    congr 1
    funext tag
    rw [releaseAll, TagOrder.kids, List.foldlM_map]
    simp only [ih]

lemma chunk_freeMemory_eq (order : TagOrder) (fuel : ℕ) (c : ChunkCell) (h : TagHeap) :
    c.freeMemory order fuel h =
      releaseAll order.kids .deletedTag (.stop .outOfFuel) fuel c.blockStates.toList.flatten h := by
  unfold ChunkCell.freeMemory
  simp only [tag_freeMemory_eq]
  exact foldlM_releaseAll fuel c.blockStates.toList h

/-! ## Releasing chunks -/

lemma toList_eq_map_finRange {α : Type} (v : Vector α 16) :
    v.toList = (List.finRange 16).map v.get := by
  refine List.ext_getElem (by simp) fun i hi hi' => ?_
  simp [Vector.get_eq_getElem]

/-- The tags that a chunk owns, in all its sub-chunks. -/
def Owners.ofChunk (owned : Owners) (p : ChunkPointer) : List TagPointer :=
  (List.finRange 16).flatMap (owned p)

lemma ChunkCell.StandsFor.represents {tags : TagHeap} {cell : ChunkCell} {c : Chunk}
    {own : Fin 16 → List TagPointer} (h : cell.StandsFor tags c own) :
    Represents tagLayout tags cell.blockStates.toList.flatten c.blockStates.toList.flatten
      ((List.finRange 16).flatMap own) := by
  rw [toList_eq_map_finRange, toList_eq_map_finRange, ← List.flatMap_def, ← List.flatMap_def]
  exact Represents.flatMap _ fun y _ => h.palette y

namespace Memory

variable {owned : Owners} {m : Memory} {st : LoaderState} {p : ChunkPointer} {a : TagPointer}

lemma RefinesBy.ofChunk_nodup (hm : m.RefinesBy owned st) (p : ChunkPointer) :
    (owned.ofChunk p).Nodup := by
  refine List.nodup_flatMap.mpr ⟨fun y _ => hm.nodup p y, ?_⟩
  refine (List.nodup_finRange 16).imp fun {y y'} hne a ha ha' => ?_
  exact hne (hm.unshared a p y p y' ha ha').2

lemma RefinesBy.ofChunk_unshared (hm : m.RefinesBy owned st) {p' : ChunkPointer}
    (ha : a ∈ owned.ofChunk p) (ha' : a ∈ owned.ofChunk p') : p = p' := by
  obtain ⟨y, -, hy⟩ := List.mem_flatMap.mp ha
  obtain ⟨y', -, hy'⟩ := List.mem_flatMap.mp ha'
  exact (hm.unshared a p y p' y' hy hy').1

lemma RefinesBy.ofChunk_lt_size (hm : m.RefinesBy owned st) (ha : a ∈ owned.ofChunk p) :
    a < m.tags.size := by
  obtain ⟨y, -, hy⟩ := List.mem_flatMap.mp ha
  exact hm.lt_size hy

lemma RefinesBy.ofChunk_length_le (hm : m.RefinesBy owned st) (p : ChunkPointer) :
    (owned.ofChunk p).length ≤ m.tags.size := by
  have hsubset : (owned.ofChunk p) ⊆ List.range m.tags.size :=
    fun a ha => List.mem_range.mpr (hm.ofChunk_lt_size ha)
  have hle := (hm.ofChunk_nodup p).length_le_of_subset hsubset
  rwa [List.length_range] at hle

lemma freeChunks_spec (order : TagOrder) {fuel : ℕ} (hm : m.RefinesBy owned st)
    (hfuel : m.tags.size ≤ fuel) {entries : List (Sigma fun _ : String => ChunkPointer)}
    (hnodup : (entries.map Sigma.snd).Nodup) (hlt : ∀ it ∈ entries, it.2 < st.heap.length)
    {m' : Memory} (hchunks : ∀ it ∈ entries, m'.chunks.read it.2 = m.chunks.read it.2)
    (htags : ∀ it ∈ entries, ∀ a ∈ owned.ofChunk it.2, m'.tags.read a = m.tags.read a) :
    ∃ m'', freeChunks order fuel entries m' = .ok m'' ∧ m''.world = m'.world ∧
      Deletes m'.chunks m''.chunks (entries.map Sigma.snd) ∧
      Deletes m'.tags m''.tags (entries.flatMap fun it => owned.ofChunk it.2) := by
  induction entries generalizing m' with
  | nil => exact ⟨m', rfl, rfl, Deletes.nil _, Deletes.nil _⟩
  | cons it entries ih =>
    obtain ⟨id, p⟩ := it
    rw [List.map_cons, List.nodup_cons] at hnodup
    have hp : p < st.heap.length := hlt ⟨id, p⟩ List.mem_cons_self
    obtain ⟨cell, hcell, hstands⟩ := hm.chunk p _ (List.getElem?_eq_getElem hp)
    have hcell' : m'.chunks.read p = some cell := by
      rw [hchunks ⟨id, p⟩ List.mem_cons_self, hcell]
    have hrep := hstands.represents.frame fun a ha => htags ⟨id, p⟩ List.mem_cons_self a ha
    obtain ⟨tags, hrun, hdel⟩ := hrep.releaseAll_eq MemoryError.deletedTag (.stop .outOfFuel)
      (kids_perm order) (hm.ofChunk_nodup p) ((hm.ofChunk_length_le p).trans hfuel)
    set m₁ : Memory := { m' with tags := tags, chunks := m'.chunks.delete p } with hm₁
    have hother : ∀ it ∈ entries, it.2 ≠ p := by
      intro it hit heq
      exact hnodup.1 (heq ▸ List.mem_map_of_mem (f := Sigma.snd) hit)
    have hchunks' : ∀ it ∈ entries, m₁.chunks.read it.2 = m.chunks.read it.2 := by
      intro it hit
      rw [hm₁, Heap.read_delete, if_neg (hother it hit), hchunks it (List.mem_cons_of_mem _ hit)]
    have htags' : ∀ it ∈ entries, ∀ a ∈ owned.ofChunk it.2, m₁.tags.read a = m.tags.read a := by
      intro it hit a ha
      rw [hm₁, hdel.read_of_notMem fun ha' => hother it hit (hm.ofChunk_unshared ha ha'),
        htags it (List.mem_cons_of_mem _ hit) a ha]
    obtain ⟨m'', hrest, hworld, hdelChunks, hdelTags⟩ :=
      ih hnodup.2 (fun it hit => hlt it (List.mem_cons_of_mem _ hit)) hchunks' htags'
    refine ⟨m'', ?_, hworld, (Deletes.single _ p).trans hdelChunks, hdel.trans hdelTags⟩
    rw [freeChunks, List.foldlM_cons, derefChunk, Heap.deref_of_read hcell', ok_bind,
      chunk_freeMemory_eq, hrun, ok_bind, Heap.free_of_read hcell', ok_bind, ok_bind]
    exact hrest

end Memory

/-! ## The stored chunks -/

def WorldData.entriesOf (w : WorldData) : ChunkDimension → List (Sigma fun _ : String => ChunkPointer)
  | .OVERWORLD => w.chunks.entries
  | .NETHER => w.netherChunks.entries
  | .ENDWORLD => w.endChunks.entries

lemma WorldData.mem_entriesOf {w : WorldData} {d : ChunkDimension}
    {it : Sigma fun _ : String => ChunkPointer} :
    it ∈ w.entriesOf d ↔ w.findChunk it.1 d = some it.2 := by
  cases d <;> exact AList.mem_lookup_iff.symm

/-- The stored chunks, in the order in which they are freed. -/
def Memory.Order.stored (order : Memory.Order) (w : WorldData) :
    List (Sigma fun _ : String => ChunkPointer) :=
  [ChunkDimension.OVERWORLD, .NETHER, .ENDWORLD].flatMap fun d => order.iterate d (w.entriesOf d)

lemma Memory.Order.mem_stored {order : Memory.Order} {w : WorldData}
    {it : Sigma fun _ : String => ChunkPointer} :
    it ∈ order.stored w ↔ ∃ d, w.findChunk it.1 d = some it.2 := by
  simp only [stored, List.mem_flatMap, (order.perm _ _).mem_iff, WorldData.mem_entriesOf]
  constructor
  · rintro ⟨d, -, hd⟩
    exact ⟨d, hd⟩
  · rintro ⟨d, hd⟩
    exact ⟨d, by cases d <;> simp, hd⟩

namespace LoaderState

lemma StoreInv.nodup_stored {st : LoaderState} (hst : st.StoreInv) (order : Memory.Order) :
    ((order.stored st.world).map Sigma.snd).Nodup := by
  rw [Memory.Order.stored, List.map_flatMap]
  refine List.nodup_flatMap.mpr ⟨fun d _ => ?_, ?_⟩
  · have hentries : (st.world.entriesOf d).Nodup := by
      cases d
      · exact st.world.chunks.nodupKeys.nodup
      · exact st.world.netherChunks.nodupKeys.nodup
      · exact st.world.endChunks.nodupKeys.nodup
    refine (((order.perm d _).nodup_iff.mpr hentries).map_on) fun it hit it' hit' heq => ?_
    have hfind := WorldData.mem_entriesOf.mp ((order.perm d _).mem_iff.mp hit)
    have hfind' := WorldData.mem_entriesOf.mp ((order.perm d _).mem_iff.mp hit')
    rw [← heq] at hfind'
    exact Sigma.ext (hst.single _ _ _ _ _ hfind hfind').1 (heq_of_eq heq)
  · have hne : [ChunkDimension.OVERWORLD, .NETHER, .ENDWORLD].Pairwise (· ≠ ·) := by decide
    refine hne.imp fun {d d'} hd p hp hp' => ?_
    obtain ⟨it, hit, rfl⟩ := List.mem_map.mp hp
    obtain ⟨it', hit', heq⟩ := List.mem_map.mp hp'
    have hfind := WorldData.mem_entriesOf.mp ((order.perm d _).mem_iff.mp hit)
    have hfind' := WorldData.mem_entriesOf.mp ((order.perm d' _).mem_iff.mp hit')
    rw [heq] at hfind'
    exact hd (hst.single _ _ _ _ _ hfind hfind').2

end LoaderState

lemma Loads.exists_stored {fuel : ℕ} {seen : List Entry} {ok : Bool} {st : LoaderState}
    (h : Loads fuel seen ok st) {p : ChunkPointer} (hp : p < st.heap.length) :
    ∃ id d, st.world.findChunk id d = some p := by
  induction h with
  | start => exact absurd hp (by simp [LoaderState.init])
  | @step _ st _ _ _ _ he ih =>
    rcases loadEntry_cases he with ⟨-, -, rfl⟩ | ⟨slot, c, c', n, -, -, -, -, rfl⟩
    · exact ih hp
    · rw [LoaderState.write, List.length_set] at hp
      rw [LoaderState.world_write]
      rcases st.visit_cases slot with ⟨q, -, hvisit⟩ | ⟨hfree, hvisit⟩
      · rw [hvisit] at hp ⊢
        exact ih hp
      · rw [hvisit, LoaderState.newChunk, List.length_append, List.length_singleton] at hp
        rw [hvisit]
        rcases Nat.lt_succ_iff_lt_or_eq.mp hp with hlt | rfl
        · obtain ⟨id, d, hfind⟩ := ih hlt
          refine ⟨id, d, ?_⟩
          rw [findChunk_newChunk, if_neg, hfind]
          rintro ⟨rfl, rfl⟩
          rw [hfree] at hfind
          exact absurd hfind (by simp)
        · refine ⟨chunkID slot.chunkX slot.chunkZ, slot.dimension, ?_⟩
          rw [findChunk_newChunk, if_pos ⟨rfl, rfl⟩]

/-! ## Which tags are reached -/

namespace Memory

lemma RefinesBy.reaches_iff {owned : Owners} {m : Memory} {st : LoaderState}
    (hm : m.RefinesBy owned st) (hst : st.StoreInv) (a : TagPointer) :
    m.Reaches a ↔ ∃ id d p, m.world.findChunk id d = some p ∧ a ∈ owned.ofChunk p := by
  have hstored : ∀ {id d p}, m.world.findChunk id d = some p →
      ∃ c cell, m.chunks.read p = some cell ∧ cell.StandsFor m.tags c (owned p) := by
    intro id d p hfind
    rw [hm.world] at hfind
    obtain ⟨cell, hcell, hstands⟩ := hm.chunk p _ (List.getElem?_eq_getElem (hst.lt_length hfind))
    exact ⟨_, cell, hcell, hstands⟩
  constructor
  · intro ha
    induction ha with
    | @palette id d p cell y q hfind hread hmem =>
      obtain ⟨c, cell', hcell', hstands⟩ := hstored hfind
      rw [hread, Option.some.injEq] at hcell'
      subst hcell'
      exact ⟨id, d, p, hfind, List.mem_flatMap.mpr
        ⟨y, List.mem_finRange y, (hstands.palette y).roots_subset hmem⟩⟩
    | inner _ hread hmem ih =>
      obtain ⟨id, d, p, hfind, hown⟩ := ih
      obtain ⟨y, hy, hown⟩ := List.mem_flatMap.mp hown
      obtain ⟨c, cell, -, hstands⟩ := hstored hfind
      exact ⟨id, d, p, hfind, List.mem_flatMap.mpr
        ⟨y, hy, (hstands.palette y).kids_subset hown hread hmem⟩⟩
  · rintro ⟨id, d, p, hfind, hown⟩
    obtain ⟨y, -, hy⟩ := List.mem_flatMap.mp hown
    obtain ⟨c, cell, hcell, hstands⟩ := hstored hfind
    have hreach := ((hstands.palette y).mem_owned_iff a).mp hy
    clear hown hy
    induction hreach with
    | root hmem => exact .palette hfind hcell hmem
    | kid _ hread hmem ih => exact .inner ih hread hmem

lemma freeChunks_world {order : TagOrder} {fuel : ℕ}
    {entries : List (Sigma fun _ : String => ChunkPointer)} {m m' : Memory}
    (h : freeChunks order fuel entries m = .ok m') : m'.world = m.world := by
  induction entries generalizing m with
  | nil => rw [← Except.ok.inj h]
  | cons it entries ih =>
    rw [freeChunks, List.foldlM_cons] at h
    obtain ⟨m₁, hstep, hrest⟩ := bind_eq_ok.mp h
    obtain ⟨chunk, -, hstep⟩ := bind_eq_ok.mp hstep
    obtain ⟨tags, -, hstep⟩ := bind_eq_ok.mp hstep
    obtain ⟨chunks, -, hstep⟩ := bind_eq_ok.mp hstep
    rw [ih hrest, ← Except.ok.inj hstep]

lemma freeChunks_append (order : TagOrder) (fuel : ℕ)
    (entries entries' : List (Sigma fun _ : String => ChunkPointer)) (m : Memory) :
    freeChunks order fuel (entries ++ entries') m =
      freeChunks order fuel entries m >>= freeChunks order fuel entries' :=
  List.foldlM_append

/-- The three maps are freed one after the other. -/
lemma freeMemory_eq {order : Order} {fuel : ℕ} {m m' : Memory}
    (h : freeChunks order.tags fuel (order.stored m.world) m = .ok m') :
    m.freeMemory order fuel = .ok m' := by
  rw [Order.stored, List.flatMap_cons, List.flatMap_cons, List.flatMap_cons, List.flatMap_nil,
    List.append_nil, freeChunks_append] at h
  obtain ⟨m₁, h₁, h⟩ := bind_eq_ok.mp h
  rw [freeChunks_append] at h
  obtain ⟨m₂, h₂, h₃⟩ := bind_eq_ok.mp h
  have hworld₁ := freeChunks_world h₁
  have hworld₂ := freeChunks_world h₂
  rw [freeMemory, show m.world.chunks.entries = m.world.entriesOf .OVERWORLD from rfl, h₁, ok_bind,
    hworld₁, show m.world.netherChunks.entries = m.world.entriesOf .NETHER from rfl, h₂, ok_bind,
    hworld₂, hworld₁]
  exact h₃

lemma RefinesBy.freeMemory_deletes {owned : Owners} {m : Memory} {st : LoaderState}
    (hm : m.RefinesBy owned st) (hst : st.StoreInv) (order : Order) {fuel : ℕ}
    (hfuel : m.tags.size ≤ fuel) :
    ∃ m', m.freeMemory order fuel = .ok m' ∧
      Deletes m.chunks m'.chunks ((order.stored st.world).map Sigma.snd) ∧
      Deletes m.tags m'.tags ((order.stored st.world).flatMap fun it => owned.ofChunk it.2) := by
  have hlt : ∀ it ∈ order.stored st.world, it.2 < st.heap.length := by
    intro it hit
    obtain ⟨d, hfind⟩ := Order.mem_stored.mp hit
    exact hst.lt_length hfind
  obtain ⟨m', hfree, -, hchunks, htags⟩ := freeChunks_spec order.tags hm hfuel
    (hst.nodup_stored order) hlt (fun _ _ => rfl) (fun _ _ _ _ => rfl)
  rw [← hm.world] at hfree
  exact ⟨m', freeMemory_eq hfree, hchunks, htags⟩

lemma RefinesBy.mem_freed {owned : Owners} {m : Memory} {st : LoaderState}
    (hm : m.RefinesBy owned st) (hst : st.StoreInv) (order : Order) (a : TagPointer) :
    a ∈ ((order.stored st.world).flatMap fun it => owned.ofChunk it.2) ↔ m.Reaches a := by
  rw [hm.reaches_iff hst, List.mem_flatMap, hm.world]
  constructor
  · rintro ⟨it, hit, ha⟩
    obtain ⟨d, hfind⟩ := Order.mem_stored.mp hit
    exact ⟨it.1, d, it.2, hfind, ha⟩
  · rintro ⟨id, d, p, hfind, ha⟩
    exact ⟨⟨id, p⟩, Order.mem_stored.mpr ⟨d, hfind⟩, ha⟩

/-- After any load, whether it came to its end or not, the world is freed without an error. Every
chunk is deleted, and of the tags exactly those that could be reached. -/
theorem free_memory_exact {fuel : ℕ} {entries : List Entry} {ok : Bool} {m : Memory}
    (h : parseBedrock fuel entries = .ok (ok, m)) (order : Order) {fuel' : ℕ}
    (hfuel : m.tags.size ≤ fuel') :
    ∃ m', m.freeMemory order fuel' = .ok m' ∧ (∀ p, m'.chunks.read p = none) ∧
      (∀ a, m.Reaches a → (m.tags.read a).isSome ∧ m'.tags.read a = none) ∧
      ∀ a < m.tags.size, ¬m.Reaches a → (m'.tags.read a).isSome := by
  have hload := parseBedrock_simulates fuel entries
  rw [h] at hload
  obtain ⟨⟨ok', st⟩, hrun, hok, owned, hm⟩ := hload.of_ok
  obtain ⟨done, rest, -, hloads, -⟩ := parseBedrock_loads hrun
  replace hm : m.RefinesBy owned st := hm
  have hst := hloads.storeInv
  have hsize : m.chunks.size = st.heap.length := hm.size
  obtain ⟨m', hfree, hchunks, htags⟩ := hm.freeMemory_deletes hst order hfuel
  have hfreed := hm.mem_freed hst order
  refine ⟨m', hfree, fun p => ?_, fun a ha => ⟨?_, ?_⟩, fun a ha hnot => ?_⟩
  · rw [hchunks.read]
    by_cases hp : p < st.heap.length
    · obtain ⟨id, d, hfind⟩ := hloads.exists_stored hp
      rw [if_pos]
      exact List.mem_map.mpr ⟨⟨id, p⟩, Order.mem_stored.mpr ⟨d, hfind⟩, rfl⟩
    · rw [Heap.read_eq_none (by omega), ite_self]
  · obtain ⟨it, -, hown⟩ := List.mem_flatMap.mp ((hfreed a).mpr ha)
    exact hm.live a (hm.ofChunk_lt_size hown)
  · rw [htags.read, if_pos ((hfreed a).mpr ha)]
  · rw [htags.read, if_neg fun hmem => hnot ((hfreed a).mp hmem)]
    exact hm.live a ha

/-- The maps iterate as they are listed. -/
def Order.listed : Order where
  tags := ⟨fun _ inner => inner, fun _ _ => List.Perm.rfl⟩
  iterate _ entries := entries
  perm _ _ := List.Perm.rfl

theorem free_memory_exact_stripes :
    ∃ m m', parseBedrock 32768 [⟨[], []⟩, stripes.entry, ⟨[126], [0]⟩] = .ok (true, m) ∧
      m.freeMemory Order.listed m.tags.size = .ok m' ∧ (∀ p, m'.chunks.read p = none) ∧
      ∀ a, m.Reaches a → m'.tags.read a = none := by
  obtain ⟨st, hrun, -⟩ := stripes_saves.exists_run (le_refl 32768)
  have hload := parseBedrock_simulates 32768 [⟨[], []⟩, stripes.entry, ⟨[126], [0]⟩]
  rw [hrun] at hload
  obtain ⟨⟨ok, m⟩, hmemory, hok, -⟩ := hload
  obtain rfl : ok = true := hok
  obtain ⟨m', hfree, hchunks, htags, -⟩ := free_memory_exact hmemory Order.listed le_rfl
  exact ⟨m, m', hmemory, hfree, hchunks, fun a ha => (htags a ha).2⟩

end Memory

end ChunkViewer
