import ChunkViewer.Spec.SubChunk

/-!
# Runs of the loader

`Loads fuel seen ok st`: processing exactly the entries `seen` from an empty world ends in
`st`, with `ok = false` if the last of them ended the load. Invariants of the loader are
proved along it, one entry at a time.
-/

namespace ChunkViewer

open ExceptRun

/-- The slot of an entry that the loader stores: its key is accepted and its value has
format 8. -/
def Entry.slot? (e : Entry) : Option Slot :=
  if isSubChunkKey e.key = true ∧ e.value[0]? = some 8 then (decodeKey e.key).toOption else none

inductive Loads (fuel : ℕ) : List Entry → Bool → LoaderState → Prop
  | start : Loads fuel [] true LoaderState.init
  | step {seen : List Entry} {st st' : LoaderState} {e : Entry} {ok : Bool} :
    Loads fuel seen true st → loadEntry fuel e st = .ok (ok, st') → Loads fuel (seen ++ [e]) ok st'

lemma loadEntries_loads {fuel : ℕ} {seen es : List Entry} {st st' : LoaderState} {ok : Bool}
    (hrun : Loads fuel seen true st) (h : loadEntries fuel es st = .ok (ok, st')) :
    ∃ done rest, es = done ++ rest ∧ Loads fuel (seen ++ done) ok st' ∧ (ok = true → rest = []) := by
  induction es generalizing seen st with
  | nil =>
    obtain ⟨rfl, rfl⟩ := Prod.mk.inj (Except.ok.inj h)
    exact ⟨[], [], rfl, by simpa using hrun, fun _ => rfl⟩
  | cons e es ih =>
    rw [loadEntries] at h
    obtain ⟨⟨ok₁, st₁⟩, he, hrest⟩ := bind_eq_ok.mp h
    have hstep := Loads.step hrun he
    cases ok₁ with
    | true =>
      obtain ⟨done, rest, rfl, hdone, hall⟩ := ih hstep hrest
      exact ⟨e :: done, rest, rfl, by simpa using hdone, hall⟩
    | false =>
      obtain ⟨rfl, rfl⟩ := Prod.mk.inj (Except.ok.inj hrest)
      exact ⟨[e], es, rfl, hstep, by simp⟩

/-- `parseBedrock` is a run over the entries it gets to. -/
theorem parseBedrock_loads {fuel : ℕ} {es : List Entry} {st : LoaderState} {ok : Bool}
    (h : parseBedrock fuel es = .ok (ok, st)) :
    ∃ done rest, es = done ++ rest ∧ Loads fuel done ok st ∧ (ok = true → rest = []) := by
  simpa using loadEntries_loads Loads.start h

end ChunkViewer
