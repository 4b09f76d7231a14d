import ChunkViewer.Proofs.StoreInvariant
import ChunkViewer.Proofs.TagMemory
import ChunkViewer.Spec.MemoryRefinement

/-!
# The loader in memory

Every step of the loader with pointers does what the step of the model does, or stops where it
stops. It follows no pointer to nothing, and each tag stays with one owner.
-/

namespace ChunkViewer

open ExceptRun TreeHeap

/-! ## Chunks without their palettes -/

/-- The same cells, whatever the palettes. -/
structure SameCells (c c' : Chunk) : Prop where
  x : c.x = c'.x
  z : c.z = c'.z
  blocks : c.blocks = c'.blocks

/-- Nothing but the cells has changed. -/
structure OnlyCells (c d : Chunk) : Prop where
  x : d.x = c.x
  z : d.z = c.z
  states : d.blockStates = c.blockStates

lemma OnlyCells.refl (c : Chunk) : OnlyCells c c := ⟨rfl, rfl, rfl⟩

lemma OnlyCells.trans {c d e : Chunk} (hd : OnlyCells c d) (he : OnlyCells d e) : OnlyCells c e :=
  ⟨he.x.trans hd.x, he.z.trans hd.z, he.states.trans hd.states⟩

lemma addBlock_sameCells {c c' : Chunk} (h : SameCells c c') (state rawX y rawZ : ℤ) :
    Simulates id (fun d d' => SameCells d d' ∧ OnlyCells c d)
      (c.addBlock state rawX y rawZ) (c'.addBlock state rawX y rawZ) := by
  unfold Chunk.addBlock
  refine Simulates.bind_same _ fun i => ?_
  refine Simulates.bind_same _ fun k => ?_
  refine Simulates.bind_same _ fun j => ?_
  refine Simulates.ok ⟨⟨h.x, h.z, ?_⟩, ⟨rfl, rfl, rfl⟩⟩
  unfold Chunk.setCell
  rw [h.blocks]

lemma placeBlock_sameCells {c c' : Chunk} (h : SameCells c c') (i : ℕ) (b k n chunkY : ℤ)
    (word : BitVec 32) (pos : ℕ) :
    Simulates id (fun d d' => SameCells d d' ∧ OnlyCells c d)
      (placeBlock i b k n chunkY word pos c) (placeBlock i b k n chunkY word pos c') := by
  unfold placeBlock
  by_cases hi : i = 0
  · rw [if_pos hi, if_pos hi]
    refine Simulates.bind_same _ fun state => ?_
    exact addBlock_sameCells h _ _ _ _
  · rw [if_neg hi, if_neg hi]
    exact Simulates.ok ⟨h, OnlyCells.refl c⟩

lemma blockLoop_sameCells {c c' : Chunk} (h : SameCells c c') (i : ℕ) (b k n chunkY : ℤ)
    (word : BitVec 32) (count pos : ℕ) :
    Simulates id (fun r r' => r.1 = r'.1 ∧ SameCells r.2 r'.2 ∧ OnlyCells c r.2)
      (blockLoop i b k n chunkY word count pos c) (blockLoop i b k n chunkY word count pos c') := by
  induction count generalizing pos c c' with
  | zero => exact Simulates.ok ⟨rfl, h, OnlyCells.refl c⟩
  | succ count ih =>
    refine (placeBlock_sameCells h i b k n chunkY word pos).bind fun d d' hd => ?_
    refine (ih hd.1 (pos + 1)).mono fun r r' hr => ⟨hr.1, hr.2.1, hd.2.trans hr.2.2⟩

lemma wordLoop_sameCells {c c' : Chunk} (h : SameCells c c') (v : Slice) (i : ℕ)
    (b k n chunkY : ℤ) (count off pos : ℕ) :
    Simulates id (fun d d' => SameCells d d' ∧ OnlyCells c d)
      (wordLoop v i b k n chunkY count off pos c) (wordLoop v i b k n chunkY count off pos c') := by
  induction count generalizing off pos c c' with
  | zero => exact Simulates.ok ⟨h, OnlyCells.refl c⟩
  | succ count ih =>
    refine Simulates.bind_same _ fun word => ?_
    refine (blockLoop_sameCells h i b k n chunkY word _ pos).bind fun r r' hr => ?_
    obtain ⟨pos', d⟩ := r
    obtain ⟨pos'', d'⟩ := r'
    obtain ⟨hpos, hcells, honly⟩ := hr
    obtain rfl : pos' = pos'' := hpos
    exact (ih hcells _ _).mono fun e e' he => ⟨he.1, honly.trans he.2⟩

/-! ## Changing one chunk -/

lemma ChunkCell.StandsFor.frame {tags tags' : TagHeap} {cell : ChunkCell} {c : Chunk}
    {owned : Fin 16 → List TagPointer} (h : cell.StandsFor tags c owned)
    (hsame : ∀ y, ∀ a ∈ owned y, tags'.read a = tags.read a) : cell.StandsFor tags' c owned :=
  ⟨h.x, h.z, h.blocks, fun y => (h.palette y).frame (hsame y)⟩

namespace Memory

variable {owned : Owners} {m : Memory} {st : LoaderState} {p : ChunkPointer} {c : Chunk}

lemma RefinesBy.derefChunk (hm : m.RefinesBy owned st) (hc : st.heap[p]? = some c) :
    ∃ cell, m.derefChunk p = .ok cell ∧ m.chunks.read p = some cell ∧
      cell.StandsFor m.tags c (owned p) := by
  obtain ⟨cell, hcell, hstands⟩ := hm.chunk p c hc
  exact ⟨cell, Heap.deref_of_read hcell, hcell, hstands⟩

lemma RefinesBy.lt_size (hm : m.RefinesBy owned st) {y : Fin 16} {a : TagPointer}
    (ha : a ∈ owned p y) : a < m.tags.size := by
  cases hc : st.heap[p]? with
  | none =>
    rw [hm.noOthers p y (List.getElem?_eq_none_iff.mp hc)] at ha
    exact absurd ha List.not_mem_nil
  | some c =>
    obtain ⟨cell, -, hstands⟩ := hm.chunk p c hc
    exact (hstands.palette y).lt_size ha

lemma RefinesBy.update (hm : m.RefinesBy owned st) (hc : st.heap[p]? = some c) {tags : TagHeap}
    (hsame : ∀ a < m.tags.size, tags.read a = m.tags.read a)
    (hlive : ∀ a < tags.size, (tags.read a).isSome) {cell : ChunkCell} {c' : Chunk}
    {own : Fin 16 → List TagPointer} (hstands : cell.StandsFor tags c' own)
    (hnodup : ∀ y, (own y).Nodup) (hunshared : ∀ a y y', a ∈ own y → a ∈ own y' → y = y')
    (hown : ∀ y, ∀ a ∈ own y, a ∈ owned p y ∨ m.tags.size ≤ a) :
    (({ m with tags := tags } : Memory).writeChunk p cell).Refines (st.write p c') := by
  obtain ⟨hp, -⟩ := List.getElem?_eq_some_iff.mp hc
  have hlt : p < m.chunks.size := hm.size ▸ hp
  refine ⟨Function.update owned p own, hm.world, hm.totalChunks, ?_, ?_, ?_, ?_, ?_, hlive⟩
  · simp [writeChunk, LoaderState.write, hm.size]
  · intro q d hd
    rw [st.heap_write p q hc] at hd
    rw [writeChunk, Heap.read_write hlt]
    by_cases hq : q = p
    · subst hq
      rw [if_pos rfl, Option.some.injEq] at hd
      subst hd
      rw [if_pos rfl, Function.update_self]
      exact ⟨cell, rfl, hstands⟩
    · rw [if_neg hq] at hd
      obtain ⟨cell', hcell', hstands'⟩ := hm.chunk q d hd
      rw [if_neg hq, Function.update_of_ne hq]
      exact ⟨cell', hcell', hstands'.frame fun y a ha => hsame a (hm.lt_size ha)⟩
  · intro q y
    by_cases hq : q = p
    · rw [hq, Function.update_self]
      exact hnodup y
    · rw [Function.update_of_ne hq]
      exact hm.nodup q y
  · -- A tag of the changed chunk was its own before, or it is new.
    have hother : ∀ a q y y', q ≠ p → a ∈ own y → a ∉ owned q y' := by
      intro a q y y' hq ha ha'
      rcases hown y a ha with ha | ha
      · exact hq (hm.unshared a p y q y' ha ha').1.symm
      · exact absurd (hm.lt_size ha') (Nat.not_lt.mpr ha)
    intro a q y q' y' ha ha'
    by_cases hq : q = p <;> by_cases hq' : q' = p
    · rw [hq, Function.update_self] at ha
      rw [hq', Function.update_self] at ha'
      exact ⟨hq.trans hq'.symm, hunshared a y y' ha ha'⟩
    · rw [hq, Function.update_self] at ha
      rw [Function.update_of_ne hq'] at ha'
      exact absurd ha' (hother a q' y y' hq' ha)
    · rw [Function.update_of_ne hq] at ha
      rw [hq', Function.update_self] at ha'
      exact absurd ha (hother a q y' y hq ha')
    · rw [Function.update_of_ne hq] at ha
      rw [Function.update_of_ne hq'] at ha'
      exact hm.unshared a q y q' y' ha ha'
  · intro q y hq
    rw [LoaderState.write, List.length_set] at hq
    rw [Function.update_of_ne (by omega : q ≠ p)]
    exact hm.noOthers q y hq

lemma get_pushState (cell : ChunkCell) (y y' : Fin 16) (q : TagPointer) :
    (cell.pushState y q).blockStates.get y' =
      if y' = y then cell.blockStates.get y ++ [q] else cell.blockStates.get y' := by
  rw [ChunkCell.pushState, Vector.get_eq_getElem]
  by_cases h : y' = y
  · rw [if_pos h, h, Vector.getElem_set_self]
  · have hval : y.val ≠ y'.val := fun e => h (Fin.ext e.symm)
    rw [if_neg h, Vector.getElem_set_ne _ _ hval, Vector.get_eq_getElem]

lemma RefinesBy.push (hm : m.RefinesBy owned st) (hc : st.heap[p]? = some c) {cell : ChunkCell}
    (hstands : cell.StandsFor m.tags c (owned p)) (y : Fin 16) {r : ℕ × NBTTag}
    {r' : ℕ × TagHeap} (hparsed : ParsedInto (m.tags.alloc TagCell.new) m.tags.size [] r r') :
    (({ m with tags := r'.2 } : Memory).writeChunk p (cell.pushState y m.tags.size)).Refines
      (st.write p (c.pushState y r.2)) := by
  obtain ⟨-, inner, lost, hholds, hgrows⟩ := hparsed
  obtain ⟨hnew, hsame, hmade⟩ := hgrows.new
  have hlive : ∀ a < r'.2.size, (r'.2.read a).isSome := by
    intro a ha
    by_cases hlt : a < m.tags.size
    · rw [hsame a hlt]
      exact hm.live a hlt
    · exact hmade a (Nat.le_of_not_lt hlt) ha
  have hold : ∀ y', ∀ a ∈ owned p y', a < m.tags.size := fun y' a ha => hm.lt_size ha
  have hframe := hstands.frame fun y' a ha => hsame a (hold y' a ha)
  have hstands' : (cell.pushState y m.tags.size).StandsFor r'.2 (c.pushState y r.2)
      (Function.update (owned p) y (owned p y ++ (m.tags.size :: inner))) := by
    refine ⟨hframe.x, hframe.z, hframe.blocks, fun y' => ?_⟩
    rw [get_pushState, Chunk.palette_pushState]
    by_cases hy : y' = y
    · rw [if_pos hy, if_pos hy, hy, Function.update_self]
      exact (hframe.palette y).append hholds.rep
    · rw [if_neg hy, if_neg hy, Function.update_of_ne hy]
      exact hframe.palette y'
  refine hm.update hc hsame hlive hstands' (fun y' => ?_) (fun a y₁ y₂ h₁ h₂ => ?_)
    fun y' a ha => ?_
  · by_cases hy : y' = y
    · rw [hy, Function.update_self]
      refine List.nodup_append'.mpr ⟨hm.nodup p y, hholds.nodup, fun a ha ha' => ?_⟩
      exact absurd (hold y a ha) (Nat.not_lt.mpr (hnew a ha'))
    · rw [Function.update_of_ne hy]
      exact hm.nodup p y'
  · have hcases : ∀ y', a ∈ Function.update (owned p) y (owned p y ++ (m.tags.size :: inner)) y' →
        a ∈ owned p y' ∨ (y' = y ∧ m.tags.size ≤ a) := by
      intro y' ha
      by_cases hy : y' = y
      · subst hy
        rw [Function.update_self] at ha
        rcases List.mem_append.mp ha with ha | ha
        · exact Or.inl ha
        · exact Or.inr ⟨rfl, hnew a ha⟩
      · rw [Function.update_of_ne hy] at ha
        exact Or.inl ha
    rcases hcases y₁ h₁ with hold₁ | ⟨hy₁, hnew₁⟩ <;> rcases hcases y₂ h₂ with hold₂ | ⟨hy₂, hnew₂⟩
    · exact (hm.unshared a p y₁ p y₂ hold₁ hold₂).2
    · exact absurd (hold y₁ a hold₁) (Nat.not_lt.mpr hnew₂)
    · exact absurd (hold y₂ a hold₂) (Nat.not_lt.mpr hnew₁)
    · exact hy₁.trans hy₂.symm
  · by_cases hy : y' = y
    · subst hy
      rw [Function.update_self] at ha
      rcases List.mem_append.mp ha with ha | ha
      · exact Or.inl ha
      · exact Or.inr (hnew a ha)
    · rw [Function.update_of_ne hy] at ha
      exact Or.inl ha

/-! ## The loops -/

lemma write_write (st : LoaderState) (p : ChunkPointer) (c c' : Chunk) :
    (st.write p c).write p c' = st.write p c' := by
  unfold LoaderState.write
  rw [List.set_set]

lemma read_write (st : LoaderState) (hp : p < st.heap.length) (c : Chunk) :
    (st.write p c).heap[p]? = some c :=
  List.getElem?_set_self hp

variable {fuel : ℕ} {v : Slice} {chunkY : ℤ}

lemma paletteLoop_simulates (hp : p < st.heap.length) (count off : ℕ)
    (hm : m.Refines (st.write p c)) :
    Simulates .stop (fun r r' => r'.1 = r.1 ∧ r'.2.Refines (st.write p r.2))
      (ChunkViewer.paletteLoop fuel v chunkY count off c)
      (paletteLoop fuel v chunkY p count off m) := by
  induction count generalizing off c m with
  | zero => exact Simulates.ok ⟨rfl, hm⟩
  | succ count ih =>
    obtain ⟨owned, hm⟩ := hm
    refine ((parse_simulates v fuel).2.2.2 (holds_alloc m.tags (c := TagCell.new) rfl) off
      true).bind fun r r' hparsed => ?_
    obtain ⟨cell, hderef, -, hstands⟩ := hm.derefChunk (read_write st hp c)
    have hpush := fun y => hm.push (read_write st hp c) hstands y hparsed
    obtain ⟨offset, tag⟩ := r
    obtain ⟨offset', tags⟩ := r'
    obtain rfl : offset' = offset := hparsed.1
    dsimp only
    rw [hderef, ok_bind, Chunk.addBlockState, ChunkCell.addBlockState]
    unfold subscript
    by_cases hy : 0 ≤ chunkY ∧ chunkY < (16 : ℕ)
    · simp only [dif_pos hy, ok_bind]
      have hrefines := hpush ⟨chunkY.toNat, by omega⟩
      rw [write_write] at hrefines
      exact ih _ hrefines
    · simp only [dif_neg hy, error_bind]
      exact Simulates.error _

lemma wordLoop_simulates (hp : p < st.heap.length) (i : ℕ) (layout : StorageLayout) (n : ℤ)
    (off : ℕ) (hm : m.Refines (st.write p c)) :
    Simulates .stop (fun c' m' => m'.Refines (st.write p c'))
      (ChunkViewer.wordLoop v i layout.bitsPerBlock layout.blocksPerWord n chunkY
        layout.numWords.toNat off 0 c)
      (wordLoop v i layout n chunkY p off m) := by
  obtain ⟨owned, hm⟩ := hm
  have hc := read_write st hp c
  obtain ⟨cell, hderef, hcell, hstands⟩ := hm.derefChunk hc
  have hsame : SameCells c cell.cells := ⟨hstands.x.symm, hstands.z.symm, hstands.blocks.symm⟩
  rw [wordLoop, hderef, ok_bind]
  rw [← bind_pure (ChunkViewer.wordLoop v i layout.bitsPerBlock layout.blocksPerWord n chunkY
    layout.numWords.toNat off 0 c)]
  refine (wordLoop_sameCells hsame v i _ _ n chunkY _ off 0).mapError_right.bind
    fun c' cells hcells => Simulates.ok ?_
  obtain ⟨⟨-, -, hblocks⟩, honly⟩ := hcells
  have hstands' : ({ cell with blocks := cells.blocks } : ChunkCell).StandsFor m.tags c' (owned p) := by
    refine ⟨hstands.x.trans honly.x.symm, hstands.z.trans honly.z.symm, hblocks.symm, fun y => ?_⟩
    rw [Chunk.palette, honly.states]
    exact hstands.palette y
  have hrefines := hm.update hc (fun _ _ => rfl) hm.live hstands' (hm.nodup p)
    (fun a y y' hy hy' => (hm.unshared a p y p y' hy hy').2) fun y a ha => Or.inl ha
  rwa [write_write] at hrefines

lemma loadStorage_simulates (hp : p < st.heap.length) (i off : ℕ)
    (hm : m.Refines (st.write p c)) :
    Simulates .stop (fun r r' => r'.1 = r.map Prod.fst ∧
        r'.2.Refines (st.write p ((r.map Prod.snd).getD c)))
      (ChunkViewer.loadStorage fuel v chunkY i off c) (loadStorage fuel v chunkY p i off m) := by
  rw [ChunkViewer.loadStorage, loadStorage]
  refine Simulates.bind_mapError _ fun storageVersion _ => ?_
  dsimp only
  by_cases hruntime : storageVersion &&& 1 = 1
  · rw [if_pos hruntime, if_pos hruntime]
    exact Simulates.ok ⟨rfl, hm⟩
  · rw [if_neg hruntime, if_neg hruntime]
    refine Simulates.bind_mapError _ fun layout _ => ?_
    refine Simulates.bind_mapError _ fun advance _ => ?_
    refine Simulates.bind_mapError _ fun paletteSize _ => ?_
    refine (paletteLoop_simulates hp _ _ hm).bind fun r r' hr => ?_
    obtain ⟨paletteOffset, c'⟩ := r
    obtain ⟨paletteOffset', m'⟩ := r'
    obtain ⟨hoffset, hm'⟩ := hr
    obtain rfl : paletteOffset' = paletteOffset := hoffset
    exact (wordLoop_simulates hp i layout _ _ hm').bind fun d m'' hd => Simulates.ok ⟨rfl, hd⟩

lemma storageLoop_simulates (hp : p < st.heap.length) (n i off : ℕ)
    (hm : m.Refines (st.write p c)) :
    Simulates .stop (fun r r' => r'.1 = r.1 ∧ r'.2.Refines (st.write p r.2))
      (ChunkViewer.storageLoop fuel v chunkY n i off c)
      (storageLoop fuel v chunkY p n i off m) := by
  induction n generalizing i off c m with
  | zero => exact Simulates.ok ⟨rfl, hm⟩
  | succ n ih =>
    refine (loadStorage_simulates hp i off hm).bind fun r r' hr => ?_
    obtain ⟨next, m'⟩ := r'
    obtain ⟨hnext, hm'⟩ := hr
    cases r with
    | none =>
      obtain rfl : next = none := hnext
      exact Simulates.ok ⟨rfl, hm'⟩
    | some r =>
      obtain rfl : next = some r.1 := hnext
      exact ih _ _ hm'

/-! ## Entries -/

lemma Refines.init : Memory.init.Refines LoaderState.init := by
  refine ⟨fun _ _ => [], rfl, rfl, rfl, ?_, ?_, ?_, fun _ _ _ => rfl, ?_⟩
  · intro p c hc
    exact absurd hc (by simp [LoaderState.init])
  · intro p y
    exact List.nodup_nil
  · intro a p y p' y' ha
    exact absurd ha List.not_mem_nil
  · intro a ha
    exact absurd ha (Nat.not_lt_zero a)

lemma Refines.newChunk (hm : m.Refines st) (x z : ℤ) (d : ChunkDimension) :
    (m.newChunk x z d).Refines (st.newChunk x z d) := by
  obtain ⟨owned, hm⟩ := hm
  refine ⟨owned, ?_, ?_, ?_, ?_, hm.nodup, hm.unshared, ?_, hm.live⟩
  · rw [Memory.newChunk, LoaderState.newChunk, hm.world, hm.size]
    rfl
  · rw [Memory.newChunk, LoaderState.newChunk, hm.totalChunks]
  · simp [Memory.newChunk, LoaderState.newChunk, hm.size]
  · intro p c hc
    rw [st.heap_newChunk] at hc
    rw [Memory.newChunk, Heap.read_alloc, hm.size]
    by_cases hp : p = st.heap.length
    · rw [if_pos hp, Option.some.injEq] at hc
      subst hc
      rw [if_pos hp]
      refine ⟨_, rfl, rfl, rfl, rfl, fun y => ?_⟩
      rw [hm.noOthers p y hp.ge]
      simpa [ChunkCell.new, Chunk.palette_new] using Represents.nil
    · rw [if_neg hp] at hc ⊢
      exact hm.chunk p c hc
  · intro p y hp
    rw [LoaderState.newChunk, List.length_append] at hp
    exact hm.noOthers p y (by omega)

lemma Refines.visit (hm : m.Refines st) (slot : Slot) :
    (m.visit slot).1 = (st.visit slot).1 ∧ (m.visit slot).2.Refines (st.visit slot).2 := by
  obtain ⟨owned, hby⟩ := hm
  unfold Memory.visit LoaderState.visit
  rw [hby.world]
  cases st.world.findChunk (chunkID slot.chunkX slot.chunkZ) slot.dimension with
  | some p => exact ⟨rfl, owned, hby⟩
  | none => exact ⟨hby.size, Refines.newChunk ⟨owned, hby⟩ _ _ _⟩

lemma write_self (st : LoaderState) (hc : st.heap[p]? = some c) : st.write p c = st := by
  obtain ⟨hp, hget⟩ := List.getElem?_eq_some_iff.mp hc
  unfold LoaderState.write
  rw [← hget, List.set_getElem_self]

theorem loadEntry_simulates (hst : st.StoreInv) (hm : m.Refines st) (e : Entry) :
    Simulates .stop (fun r r' => r'.1 = r.1 ∧ r'.2.Refines r.2)
      (ChunkViewer.loadEntry fuel e st) (loadEntry fuel e m) := by
  unfold ChunkViewer.loadEntry loadEntry
  by_cases hkey : isSubChunkKey e.key = true
  · rw [if_pos hkey, if_pos hkey]
    refine Simulates.bind_mapError _ fun slot _ => ?_
    refine Simulates.bind_mapError _ fun chunkFormat _ => ?_
    by_cases hformat : toChar chunkFormat ≠ 8
    · rw [if_pos hformat, if_pos hformat]
      exact Simulates.ok ⟨rfl, hm⟩
    · rw [if_neg hformat, if_neg hformat]
      obtain ⟨hp, hvisit⟩ := hm.visit slot
      obtain ⟨c, hderef⟩ := hst.deref_visit slot
      have hc := LoaderState.deref_eq_ok.mp hderef
      obtain ⟨hlt, -⟩ := List.getElem?_eq_some_iff.mp hc
      rw [← write_self _ hc] at hvisit
      dsimp only
      rw [hderef, ok_bind, hp]
      refine Simulates.bind_mapError _ fun storageNum _ => ?_
      rw [← bind_pure (storageLoop fuel e.value slot.chunkY _ _ 0 2 _)]
      exact (storageLoop_simulates hlt _ 0 2 hvisit).bind fun r r' hr => Simulates.ok hr
  · rw [if_neg hkey, if_neg hkey]
    exact Simulates.ok ⟨rfl, hm⟩

end Memory

end ChunkViewer
