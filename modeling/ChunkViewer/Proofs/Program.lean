import ChunkViewer.Proofs.ConsoleProtocol
import ChunkViewer.Proofs.Requests

/-!
# The program

`main` loads the world, runs the session and returns 0, or returns -1 without a prompt. On a
saved world it answers every request as the save says.
-/

namespace ChunkViewer

open ExceptRun Protocol SpacedWords

/-- From the start to the exit the console protocol is kept, with one prompt more than there are
lines. No prompt is printed if no world is loaded. -/
theorem main_keeps_protocol (fuel : ℕ) (database : Option (List Entry))
    (lines : List (Environment × String)) :
    Obeys Console.step ⟨.answered, 0⟩ (main fuel database lines)
      (fun code s => (code = 0 ∧ s = ⟨.answered, lines.length + 1⟩) ∨
        (code = -1 ∧ s = ⟨.answered, 0⟩))
      (fun e s => (e = .releasedArray ↔ s = none) ∧
        (e = .releasedArray → ∃ p ∈ lines, BadWhatLine p.2)) := by
  cases database with
  | none => exact Obeys.pure (Or.inr ⟨rfl, rfl⟩)
  | some entries =>
    unfold main
    refine Obeys.lift_bind (fun e he => ?_) fun r _ => ?_
    · have hne := orStop_errors _ e he
      exact ⟨iff_of_false hne (by simp), fun h => absurd h hne⟩
    · obtain ⟨loaded, world⟩ := r
      cases loaded with
      | false => exact Obeys.pure (Or.inr ⟨rfl, rfl⟩)
      | true =>
        refine Obeys.emits_bind ⟨.ready, 1⟩ rfl ?_
        refine (session_keeps_protocol world lines "" 1).bind fun _ s hs => Obeys.pure (Or.inl ⟨rfl, ?_⟩)
        rw [hs, Nat.add_comm]

end ChunkViewer
