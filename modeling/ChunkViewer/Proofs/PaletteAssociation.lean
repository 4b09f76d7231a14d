import ChunkViewer.Proofs.BlockLookup
import ChunkViewer.Proofs.Unpacking

/-!
# States and palettes

All palettes of a sub-chunk are kept in one list while its cells hold indices into the
palette of storage 0. That palette comes first in the list, so an index keeps its tag
whatever is loaded later.
-/

namespace ChunkViewer

open ExceptRun RingFill

/-- Entries whose slots differ pairwise. -/
def DistinctSlots (es : List Entry) : Prop :=
  es.Pairwise fun e e' => ∀ slot, e.slot? = some slot → e'.slot? ≠ some slot

lemma entriesAt_distinct {es : List Entry} (h : DistinctSlots es) (slot : Slot) :
    entriesAt es slot = [] ∨ ∃ e ∈ es, e.slot? = some slot ∧ entriesAt es slot = [e] := by
  induction es with
  | nil => exact Or.inl rfl
  | cons e es ih =>
    obtain ⟨hhead, htail⟩ := List.pairwise_cons.mp h
    rw [entriesAt_cons]
    by_cases he : e.slot? = some slot
    · have hnil : entriesAt es slot = [] := by
        unfold entriesAt
        rw [List.filter_eq_nil_iff]
        intro e' he' hsame
        exact hhead e' he' slot he (of_decide_eq_true hsame)
      rw [if_pos he, hnil]
      exact Or.inr ⟨e, List.mem_cons_self, he, rfl⟩
    · rw [if_neg he]
      rcases ih htail with hnil | ⟨e', he', hslot, hone⟩
      · exact Or.inl hnil
      · exact Or.inr ⟨e', List.mem_cons_of_mem _ he', hslot, hone⟩

/-- A cell loaded from the storages of one value: untouched, outside the palette, or an index
whose tag is the one of storage 0. -/
lemma loadAll_cell (fuel : ℕ) (e : Entry) (q : Fin 4096) :
    let s := SubChunk.empty.loadAll (e.storages fuel)
    s.cells q = -1 ∨ s.cells q = -2 ∨
      ∃ storage next tag, readStorage fuel e.value 0 2 = .ok (some (storage, next)) ∧
        0 ≤ s.cells q ∧ s.cells q < storage.paletteSize ∧
        storage.palette[(s.cells q).toNat]? = some tag ∧ s.block q = .ok ⟨s.cells q, some tag⟩ := by
  dsimp only
  cases hread : readValue fuel e.value with
  | error err =>
    left
    rw [Entry.storages, hread]
    rfl
  | ok r =>
    obtain ⟨ok, storages⟩ := r
    have hstorages : e.storages fuel = storages := by rw [Entry.storages, hread]
    rw [hstorages]
    rcases storages_cases fuel e.value hread with rfl | ⟨s, rest, next, rfl, hs, hwell, hrest⟩
    · exact Or.inl rfl
    · have hload : SubChunk.empty.loadAll (s :: rest) =
          ⟨ringFill (fun _ => -1) 0 s.states, s.palette ++ rest.flatMap Storage.palette⟩ := by
        rw [SubChunk.loadAll, List.foldl_cons]
        exact SubChunk.loadAll_stateless _ hrest
      rw [hload]
      rcases ringFill_mem (fun _ => -1) 0 s.states q with hq | hq
      · exact Or.inl hq
      · rcases hwell.states _ hq with hclip | ⟨hpos, hlt⟩
        · exact Or.inr (Or.inl hclip)
        · have hindex : (ringFill (fun _ => -1) 0 s.states q).toNat < s.palette.length := by
            rw [hwell.palette]
            omega
          have htag := List.getElem?_eq_getElem hindex
          refine Or.inr (Or.inr ⟨s, next, _, hs, hpos, hlt, htag, blockOf_tag hpos ?_⟩)
          rw [List.getElem?_append_left hindex]
          exact htag

/-- Palette association, at every point of a load. -/
theorem palette_association {fuel : ℕ} {seen : List Entry} {ok : Bool} {st : LoaderState}
    (hrun : Loads fuel seen ok st) (hslots : DistinctSlots seen) {id : String} {d : ChunkDimension}
    {p : ChunkPointer} {c : Chunk} (hp : st.world.findChunk id d = some p)
    (hc : st.heap[p]? = some c) (x : Fin 16) (y : Fin 256) (z : Fin 16) :
    c.cell x y z = -1 ∨ c.cell x y z = -2 ∨
      ∃ e ∈ seen, ∃ storage next tag,
        e.slot? = some ⟨d, c.x, c.z, (y / 16 : ℕ)⟩ ∧
        readStorage fuel e.value 0 2 = .ok (some (storage, next)) ∧
        0 ≤ c.cell x y z ∧ c.cell x y z < storage.paletteSize ∧
        storage.palette[(c.cell x y z).toNat]? = some tag ∧
        c.getBlock (x : ℕ) (y : ℕ) (z : ℕ) = .ok ⟨c.cell x y z, some tag⟩ := by
  have hat : st.at? d c.x c.z = some c := by
    obtain ⟨c', hc', hid⟩ := hrun.storeInv.owned id d p hp
    rw [hc] at hc'
    obtain rfl := Option.some.inj hc'
    rw [LoaderState.at?, ← hid, hp, Option.bind_some, hc]
  have hsub := hrun.subChunk_eq hat (subOf y)
  rw [Chunk.getBlock_eq, Chunk.cell_eq_subChunk, hsub]
  rcases entriesAt_distinct hslots ⟨d, c.x, c.z, (subOf y : ℕ)⟩ with hnil | ⟨e, he, hslot, hone⟩
  · rw [hnil]
    exact Or.inl rfl
  · rw [hone, List.flatMap_singleton]
    rcases loadAll_cell fuel e (cellPos x y z) with h | h | ⟨s, next, tag, h⟩
    · exact Or.inl h
    · exact Or.inr (Or.inl h)
    · exact Or.inr (Or.inr ⟨e, he, s, next, tag, hslot, h⟩)

theorem palette_association_one :
    ∃ st c tag, Loads 2 [packedEntry 1 (List.replicate 128 0) 1 [0, 0, 0]] true st ∧
      st.at? .OVERWORLD (-1) 2 = some c ∧ c.getBlock 0 48 0 = .ok ⟨0, some tag⟩ := by
  have hslot := packedEntry_slot? 1 (List.replicate 128 0) 1 [0, 0, 0]
  obtain ⟨st, hload⟩ := packedValue_one.loadEntry_ok hslot rfl (by decide) 3 rfl
    LoaderState.StoreInv.init
  have hrun : Loads 2 [packedEntry 1 (List.replicate 128 0) 1 [0, 0, 0]] true st :=
    Loads.step Loads.start hload
  obtain ⟨c, hat, hcells⟩ := packedValue_one.cells_eq hslot rfl (by decide) 3 rfl
    LoaderState.StoreInv.init hload
  have hcell : c.cell 0 48 0 = 0 := by
    rw [Chunk.cell_eq_subChunk, show subOf 48 = 3 from rfl, hcells, List.length_replicate]
    unfold slotIndex
    norm_num [BitField.field, cellPos]
    decide
  rcases hrun.storeInv.at?_eq .OVERWORLD (-1) 2 with ⟨-, hnone⟩ | ⟨p, c', hp, hc, hat'⟩
  · rw [hat] at hnone
    exact absurd hnone (by simp)
  · rw [hat] at hat'
    obtain rfl := Option.some.inj hat'
    rcases palette_association hrun (List.pairwise_singleton _ _) hp hc 0 48 0 with h | h | h
    · rw [hcell] at h
      exact absurd h (by decide)
    · rw [hcell] at h
      exact absurd h (by decide)
    · obtain ⟨e, -, s, next, tag, -, -, -, -, -, hblock⟩ := h
      rw [hcell] at hblock
      exact ⟨st, c, tag, hrun, hat, hblock⟩

end ChunkViewer
