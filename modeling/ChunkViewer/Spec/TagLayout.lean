import ChunkViewer.Model.TagMemory

/-!
# Which tag a pointer stands for

A tag in memory stands for the tree that the pointers of its maps lead to: the members of the
cell are those of the tree, and its maps have the same keys.
-/

namespace ChunkViewer

open TreeHeap

/-- The members beside the inner tags. -/
def NBTTag.members (t : NBTTag) : NBTTag := { t with innerTags := [] }

def tagLayout : Layout TagCell NBTTag (NBTTag × List String) where
  cellLabel c := (c.members, c.innerTags.map Prod.fst)
  cellKids c := c.innerTags.map Prod.snd
  treeLabel t := (t.members, t.innerTags.map Prod.fst)
  treeKids t := t.innerTags.map Prod.snd

/-- The tag at `p` stands for `t`, and the tags below it are the cells `inner`. -/
structure Holds (h : TagHeap) (p : TagPointer) (t : NBTTag) (inner : List TagPointer) : Prop where
  rep : Represents tagLayout h [p] [t] (p :: inner)
  nodup : (p :: inner).Nodup

/-- Only the tag at `p` was changed, new tags were made and none was deleted. Of the tags made and the tags that
stood below `p`, those of `inner'` stand below `p` now, and no pointer is left to those of
`lost`. -/
structure Grows (h h' : TagHeap) (p : TagPointer) (inner inner' lost : List TagPointer) : Prop where
  size : h.size ≤ h'.size
  same : ∀ a < h.size, a ≠ p → h'.read a = h.read a
  kept : ∀ a, (h.read a).isSome → (h'.read a).isSome
  made : ∀ a, h.size ≤ a → a < h'.size → (h'.read a).isSome
  accounted : (inner' ++ lost).Perm (inner ++ List.range' h.size (h'.size - h.size))

/-- The tag at `p` has become the tag that was parsed. -/
def ParsedInto (h : TagHeap) (p : TagPointer) (inner : List TagPointer) (r : ℕ × NBTTag)
    (r' : ℕ × TagHeap) : Prop :=
  r'.1 = r.1 ∧ ∃ inner' lost, Holds r'.2 p r.2 inner' ∧ Grows h r'.2 p inner inner' lost

end ChunkViewer
