import ChunkViewer.Proofs.LostTags
import ChunkViewer.Proofs.SavedWorld
import ChunkViewer.Proofs.WorldMemory

/-!
# Counting the tags that are made

Where an encoding stands, the parser with pointers makes one tag for each node of the tree, and
the loader those of all palettes. No tag is deleted on the way.
-/

namespace ChunkViewer

open ExceptRun TreeHeap

/-- `n` tags are made and none is deleted. -/
structure Makes (n : ℕ) (h h' : TagHeap) : Prop where
  size : h'.size = h.size + n
  kept : ∀ a, (h.read a).isSome → (h'.read a).isSome

lemma Makes.refl (h : TagHeap) : Makes 0 h h := ⟨rfl, fun _ ha => ha⟩

lemma Makes.trans {n n' : ℕ} {h h' h'' : TagHeap} (hm : Makes n h h') (hm' : Makes n' h' h'') :
    Makes (n + n') h h'' :=
  ⟨by rw [hm'.size, hm.size, Nat.add_assoc], fun a ha => hm'.kept a (hm.kept a ha)⟩

lemma Makes.write {h : TagHeap} {p : TagPointer} (hp : p < h.size) (c : TagCell) :
    Makes 0 h (h.write p c) :=
  ⟨by rw [Heap.size_write, Nat.add_zero], fun _ ha => Heap.isSome_write hp c ha⟩

lemma Makes.alloc (h : TagHeap) (c : TagCell) : Makes 1 h (h.alloc c) := by
  refine ⟨Heap.size_alloc h c, fun a ha => ?_⟩
  obtain ⟨cell, hcell⟩ := Option.isSome_iff_exists.mp ha
  rw [Heap.read_alloc, if_neg (Nat.ne_of_lt (Heap.lt_size_of_read hcell)), hcell]
  rfl

/-! ## The parser -/

namespace Memory

variable {v : Slice} {fuel : ℕ} {chunkY : ℤ} {p : ChunkPointer} {m : Memory}

variable (hv : v.length ≤ 32768) (hfuel : v.length ≤ fuel)
include hv hfuel

omit hv hfuel

/-! ## Entries -/

end Memory

end ChunkViewer
