import ChunkViewer.Spec.LoadRun
import ChunkViewer.Spec.TagGrammar

/-!
# The entries that the loader accepts

An entry whose key is not that of a sub-chunk is accepted, and so is a value of another format
than 8. A value of format 8 holds as many storages as its second byte says. A storage is a header,
its words, the size of its palette and the palette.
-/

namespace ChunkViewer

/-- Storage `i` at an offset, and the offset of the next. The palette stands behind as many words
as the header says: in front of the header if their number is negative. A size below zero has no
palette. In storage 0 the states are unpacked, which is not defined for every width and size. -/
inductive StorageAt (v : Slice) (i off : ℕ) : ℕ → Prop
  | read {header : UInt8} {layout : StorageLayout} {start : ℕ} {size : BitVec 32}
    {palette : List TagWord} :
    v[off]? = some header → header &&& 1 ≠ 1 → storageLayout (toChar header) = .ok layout →
    (start : ℤ) = off + 1 + layout.numWords * 4 → palette.length = size.toInt.toNat →
    LittleEndian.bytes 4 size.toNat ++ palette.flatMap TagWord.encode <+: v.drop start →
    (i = 0 → layout.bitsPerBlock ≤ 30 ∧ size.toInt ≠ -2147483648) →
    StorageAt v i off (start + 4 + (palette.flatMap TagWord.encode).length)

/-- As many storages as the count says, from number `i` on. -/
inductive StoragesAt (v : Slice) : ℕ → ℕ → ℕ → Prop
  | nil (i off : ℕ) : StoragesAt v 0 i off
  | cons {count i off next : ℕ} : StorageAt v i off next → StoragesAt v count (i + 1) next →
    StoragesAt v (count + 1) i off

/-- If the key is that of a sub-chunk there is a value. If that is of format 8 all its storages are
there, and if there are any the sub-chunk lies in a chunk. -/
structure Entry.Accepted (e : Entry) : Prop where
  value : isSubChunkKey e.key = true → e.value ≠ []
  storages : ∀ slot, e.slot? = some slot → ∃ count, e.value[1]? = some count ∧
    StoragesAt e.value (toChar count).toNat 0 2 ∧
    (0 < toChar count → 0 ≤ slot.chunkY ∧ slot.chunkY ≤ 15)

end ChunkViewer
