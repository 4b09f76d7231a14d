import ChunkViewer.Spec.LoadRun

/-!
# The world a set of entries stands for

The abstract side of the store: a world gives for each dimension and chunk position the 16
sub-chunks of the chunk there, if there is one. An entry loads its storages into one of
them. No ids, pointers or counters are left.
-/

namespace ChunkViewer

def World := ChunkDimension → ℤ → ℤ → Option (Fin 16 → SubChunk)

/-- The sub-chunks of a new chunk. -/
def SubChunk.none16 : Fin 16 → SubChunk := fun _ => SubChunk.empty

namespace World

def empty : World := fun _ _ _ => none

def load (w : World) (slot : Slot) (storages : List Storage) : World := fun d x z =>
  if d = slot.dimension ∧ x = slot.chunkX ∧ z = slot.chunkZ then
    some fun y =>
      let s := (w d x z).getD SubChunk.none16 y
      if ((y : ℕ) : ℤ) = slot.chunkY then s.loadAll storages else s
  else w d x z

end World

/-- The storages an entry holds, up to one serialized for runtime. -/
def Entry.storages (fuel : ℕ) (e : Entry) : List Storage :=
  match readValue fuel e.value with
  | .ok r => r.2
  | .error _ => []

def World.loadEntry (fuel : ℕ) (w : World) (e : Entry) : World :=
  match e.slot? with
  | none => w
  | some slot => w.load slot (e.storages fuel)

def World.loadEntries (fuel : ℕ) (es : List Entry) : World :=
  es.foldl (World.loadEntry fuel) World.empty

/-! ## Looking up a block -/

/-- The block with a state: its tag is the palette entry the state names. -/
def blockOf (state : ℤ) (palette : List NBTTag) : Exec Block :=
  if 0 ≤ state then do
    let index ← subscript .blockStatesSubscript palette.length state
    .ok ⟨state, some palette[index]⟩
  else .ok ⟨state, none⟩

def SubChunk.block (s : SubChunk) (q : Fin 4096) : Exec Block := blockOf (s.cells q) s.palette

/-! ## The entries of a sub-chunk -/

/-- An entry of `es` is stored into the chunk at `(x, z)` of dimension `d`. -/
def Visited (es : List Entry) (d : ChunkDimension) (x z : ℤ) : Prop :=
  ∃ e ∈ es, ∃ slot, e.slot? = some slot ∧ slot.dimension = d ∧ slot.chunkX = x ∧ slot.chunkZ = z

/-- The entries stored into one sub-chunk, in order. -/
def entriesAt (es : List Entry) (slot : Slot) : List Entry :=
  es.filter fun e => e.slot? = some slot

lemma visited_append (es : List Entry) (e : Entry) (d : ChunkDimension) (x z : ℤ) :
    Visited (es ++ [e]) d x z ↔ Visited es d x z ∨
      ∃ slot, e.slot? = some slot ∧ slot.dimension = d ∧ slot.chunkX = x ∧ slot.chunkZ = z := by
  unfold Visited
  constructor
  · rintro ⟨e', he, hslot⟩
    rcases List.mem_append.mp he with he | he
    · exact Or.inl ⟨e', he, hslot⟩
    · rw [List.mem_singleton] at he
      exact Or.inr (he ▸ hslot)
  · rintro (⟨e', he, hslot⟩ | hslot)
    · exact ⟨e', List.mem_append_left _ he, hslot⟩
    · exact ⟨e, List.mem_append_right _ (List.mem_singleton_self e), hslot⟩

lemma not_visited_nil (d : ChunkDimension) (x z : ℤ) : ¬Visited [] d x z := by
  rintro ⟨e, he, -⟩
  exact absurd he (by simp)

lemma World.loadEntries_append (fuel : ℕ) (es : List Entry) (e : Entry) :
    World.loadEntries fuel (es ++ [e]) = (World.loadEntries fuel es).loadEntry fuel e := by
  unfold World.loadEntries
  rw [List.foldl_append, List.foldl_cons, List.foldl_nil]

lemma entriesAt_cons (e : Entry) (es : List Entry) (slot : Slot) :
    entriesAt (e :: es) slot =
      if e.slot? = some slot then e :: entriesAt es slot else entriesAt es slot := by
  unfold entriesAt
  rw [List.filter_cons]
  by_cases h : e.slot? = some slot <;> simp [h]

lemma entriesAt_append (es : List Entry) (e : Entry) (slot : Slot) :
    entriesAt (es ++ [e]) slot =
      if e.slot? = some slot then entriesAt es slot ++ [e] else entriesAt es slot := by
  unfold entriesAt
  rw [List.filter_append]
  by_cases h : e.slot? = some slot <;> simp [h]

lemma World.loadEntries_isSome (fuel : ℕ) (es : List Entry) (d : ChunkDimension) (x z : ℤ) :
    (World.loadEntries fuel es d x z).isSome = true ↔ Visited es d x z := by
  induction es using List.reverseRecOn with
  | nil => exact ⟨fun h => absurd h (by simp [World.loadEntries, World.empty]),
      fun h => absurd h (not_visited_nil d x z)⟩
  | append_singleton es e ih =>
    rw [World.loadEntries_append, visited_append, World.loadEntry]
    cases hs : e.slot? with
    | none => simp [ih]
    | some slot =>
      simp only [World.load, Option.some.injEq, exists_eq_left']
      by_cases hsite : d = slot.dimension ∧ x = slot.chunkX ∧ z = slot.chunkZ
      · rw [if_pos hsite]
        exact ⟨fun _ => Or.inr ⟨hsite.1.symm, hsite.2.1.symm, hsite.2.2.symm⟩, fun _ => rfl⟩
      · rw [if_neg hsite, ih]
        constructor
        · exact Or.inl
        · rintro (h | ⟨hd, hx, hz⟩)
          · exact h
          · exact absurd ⟨hd.symm, hx.symm, hz.symm⟩ hsite

/-- A sub-chunk holds the storages of its entries, loaded in order. -/
theorem World.loadEntries_subChunk (fuel : ℕ) (es : List Entry) (d : ChunkDimension) (x z : ℤ)
    (y : Fin 16) :
    (World.loadEntries fuel es d x z).getD SubChunk.none16 y =
      SubChunk.empty.loadAll
        ((entriesAt es ⟨d, x, z, (y : ℕ)⟩).flatMap fun e => e.storages fuel) := by
  induction es using List.reverseRecOn with
  | nil => rfl
  | append_singleton es e ih =>
    rw [World.loadEntries_append, entriesAt_append, World.loadEntry]
    cases hs : e.slot? with
    | none => simpa using ih
    | some slot =>
      obtain ⟨d', x', z', y'⟩ := slot
      simp only [World.load, Option.some.injEq, Slot.mk.injEq]
      by_cases hsite : d = d' ∧ x = x' ∧ z = z'
      · obtain ⟨rfl, rfl, rfl⟩ := hsite
        simp only [and_self, if_true, true_and, Option.getD_some, ih]
        by_cases hy : ((y : ℕ) : ℤ) = y'
        · rw [if_pos hy, if_pos hy.symm, List.flatMap_append, List.flatMap_singleton]
          unfold SubChunk.loadAll
          rw [List.foldl_append]
        · rw [if_neg hy, if_neg (fun h => hy h.symm)]
      · rw [if_neg hsite, if_neg (fun h => hsite ⟨h.1.symm, h.2.1.symm, h.2.2.1.symm⟩), ih]

end ChunkViewer
