import ChunkViewer.Proofs.Coordinates
import ChunkViewer.Proofs.GraphFlags
import ChunkViewer.Proofs.LineIndependence
import ChunkViewer.Proofs.SavedPictures
import ChunkViewer.Proofs.WhatFlags

/-!
# Answering requests

On a world that shows the saved blocks, the line of a request is split into its words, its
coordinates and flags are read back, and the command does what the answer says.
-/

namespace ChunkViewer

open ExceptRun SpacedWords

/-! ## Words of a request -/

namespace Request

variable {saves : List SavedSubChunk} {r : Request}

end Request

/-! ## Flags -/

lemma settle_facing {pairs : List (String × String)} (h : ∀ p ∈ pairs, ValidPair p)
    {defaults : Settings} (hfacing : defaults.facing ∈ ["n", "s", "e", "w"]) :
    (settle defaults pairs).facing ∈ ["n", "s", "e", "w"] := by
  induction pairs using List.reverseRecOn with
  | nil => exact hfacing
  | append_singleton pairs p ih =>
    have hlast : (settle defaults (pairs ++ [p])).facing =
        if p.1 = "-f" then p.2 else (settle defaults pairs).facing := by
      unfold settle
      dsimp only
      rw [lastValue_append]
      split_ifs <;> rfl
    rw [hlast]
    split_ifs with hp
    · rcases h p (by simp) with ⟨hd, -⟩ | ⟨-, hvalue⟩ | ⟨hmin, -⟩ | ⟨hmax, -⟩
      · exact absurd (hp.symm.trans hd) (by decide)
      · exact hvalue
      · exact absurd (hp.symm.trans hmin) (by decide)
      · exact absurd (hp.symm.trans hmax) (by decide)
    · exact ih fun q hq => h q (List.mem_append_left _ hq)

section

variable {pairs : List (String × String)}
  (h : ∀ p ∈ pairs, p.1 = "-d" ∧ (dimensionOf p.2).isSome = true)
include h

end

namespace Request

variable {saves : List SavedSubChunk} {r : Request}

lemma Proper.facing (hr : r.Proper saves) : r.settings.facing ∈ ["n", "s", "e", "w"] :=
  settle_facing hr.flags List.mem_cons_self

/-! ## what -/

end Request

end ChunkViewer
