import ChunkViewer.Proofs.ChunkBounds
import ChunkViewer.Proofs.NBTRoundTrip
import ChunkViewer.Proofs.StorageArithmetic
import ChunkViewer.Proofs.Unpacking

/-!
# Further storages

The loop reads the storages of an encoded value one behind the other and ends at the end of
the value. Storages after the first only append their tags to the palette, behind all that
the cells refer to, so no block shows them.
-/

namespace ChunkViewer

open ExceptRun RingFill

/-! ## The parts of a storage -/

lemma Tree.encode_ne_nil (name : List UInt8) (t : Tree) : t.encode name ≠ [] := by
  simp [Tree.encode, encodeHeader]

lemma readPalette_at {v : Slice} (hv : v.length ≤ 32768) {fuel : ℕ} (hfuel : v.length ≤ fuel)
    {palette : List (List UInt8 × Tree)} {off : ℕ} (h : v.At off (paletteBytes palette)) :
    readPalette fuel v palette.length off = .ok (off + (paletteBytes palette).length,
      palette.map fun entry => entry.2.decode entry.1) := by
  induction palette generalizing off with
  | nil => rfl
  | cons entry palette ih =>
    unfold paletteBytes at h ih ⊢
    rw [List.flatMap_cons] at h ⊢
    obtain ⟨htag, hrest⟩ := Slice.at_append.mp h
    have hlen := htag.le_length (entry.2.encode_ne_nil entry.1)
    rw [List.length_cons, readPalette, (parse_at hv fuel).2.2 _ _ _ htag (by omega), ok_bind]
    dsimp only
    rw [ih hrest, ok_bind, List.map_cons, List.length_append, Nat.add_assoc]

lemma readWords_further {v : Slice} {i : ℕ} (hi : i ≠ 0) {b k n : ℤ} {start : ℕ}
    {word : ℕ → BitVec 32} {w w₀ pos : ℕ}
    (hword : ∀ j, w₀ ≤ j → j < w₀ + w → parseInt32 v (start + 4 * j) = .ok (word j))
    (hmax : start + 4 * (w₀ + w) < 4294967296) :
    readWords v i b k n w (start + 4 * w₀) pos = .ok [] := by
  induction w generalizing w₀ pos with
  | zero => rfl
  | succ w ih =>
    rw [readWords, hword w₀ le_rfl (by omega), ok_bind, readBlocks, if_neg hi, ok_bind,
      toUInt32_nextWord (by omega), ih (fun j h1 h2 => hword j (by omega) (by omega)) (by omega),
      ok_bind, List.nil_append]

/-! ## A storage -/

namespace PackedStorage

/-- The contents of the storage as number `i` of a value. -/
def storage (s : PackedStorage) (i : ℕ) : Storage :=
  ⟨s.palette.length, s.tags, if i = 0 then slotStates s.bits s.words s.palette.length else []⟩

lemma WellFormed.bits_bounds {s : PackedStorage} (hs : s.WellFormed) :
    1 ≤ s.bits ∧ s.bits ≤ 30 := by
  have hmem := hs.bits
  simp only [List.mem_cons, List.not_mem_nil, or_false] at hmem
  omega

lemma length_le_paletteBytes (palette : List (List UInt8 × Tree)) :
    palette.length ≤ (paletteBytes palette).length := by
  induction palette with
  | nil => exact le_rfl
  | cons entry palette ih =>
    have hpos := List.length_pos_iff.mpr (entry.2.encode_ne_nil entry.1)
    unfold paletteBytes at ih ⊢
    rw [List.flatMap_cons, List.length_append, List.length_cons]
    omega

lemma encode_ne_nil (s : PackedStorage) : s.encode ≠ [] := by
  simp [encode]

variable {v : Slice} (hv : v.length ≤ 32768) {fuel : ℕ} (hfuel : v.length ≤ fuel)

lemma readWords_at {s : PackedStorage} {off : ℕ} (h : v.At off (wordBytes s.words))
    {l : StorageLayout} (hf : l.Forward) (hbits : l.bitsPerBlock = s.bits)
    (hk : l.blocksPerWord = (32 / s.bits : ℕ)) (hbits_le : s.bits ≤ 30)
    (hmax : off + 4 * s.words.length ≤ 32768) (hsize : s.palette.length ≤ 32768) (i : ℕ) :
    readWords v i l.bitsPerBlock l.blocksPerWord s.palette.length s.words.length off 0 =
      .ok (s.storage i).states := by
  have hword : ∀ j, 0 ≤ j → j < 0 + s.words.length →
      parseInt32 v (off + 4 * j) = .ok (s.words.getD j 0) := by
    intro j _ hj
    exact parseInt32_wordBytes h hmax (by omega)
  unfold storage
  by_cases hi : i = 0
  · subst hi
    have hwords := readWords_eq hf.bits_pos (by omega) hf.blocks_pos hf.fits
      (show (-2147483648 : ℤ) < (s.palette.length : ℕ) by omega) (by omega) hword (by omega)
    rw [Nat.zero_mul, Nat.mul_zero, Nat.add_zero] at hwords
    rw [hwords, hbits, hk, if_pos rfl]
    rfl
  · have hwords : readWords v i l.bitsPerBlock l.blocksPerWord s.palette.length s.words.length
        (off + 4 * 0) 0 = .ok [] := readWords_further hi hword (by omega)
    rw [Nat.mul_zero, Nat.add_zero] at hwords
    rw [hwords, if_neg hi]

include hv hfuel

/-- Wherever the encoding stands, the storage is read and the cursor left behind it. -/
lemma WellFormed.readStorage_at {s : PackedStorage} (hs : s.WellFormed) {off : ℕ}
    (h : v.At off s.encode) (i : ℕ) :
    readStorage fuel v i off = .ok (some (s.storage i, off + s.encode.length)) := by
  obtain ⟨hbits1, hbits2⟩ := hs.bits_bounds
  obtain ⟨l, hl, hf, hbits, hk, hN⟩ := storageLayout_ofNat hbits1 hbits2
  have hlen := h.le_length s.encode_ne_nil
  have hheader := h.charAt
  unfold encode at h hlen ⊢
  obtain ⟨-, hbody⟩ := Slice.at_cons.mp h
  obtain ⟨hwords, hbehind⟩ := Slice.at_append.mp hbody
  obtain ⟨hsize, hpalette⟩ := Slice.at_append.mp hbehind
  rw [length_wordBytes] at hsize hpalette
  rw [LittleEndian.length_bytes] at hpalette
  simp only [List.length_cons, List.length_append, length_wordBytes, LittleEndian.length_bytes]
    at hlen ⊢
  have hN' : l.numWords = (s.words.length : ℕ) := hN.trans hs.words.symm
  have hstart : toUInt32 (((off + 1 : ℕ) : ℤ) + l.numWords * 4) = off + 1 + 4 * s.words.length := by
    rw [show ((off + 1 : ℕ) : ℤ) + l.numWords * 4 = ((off + 1 + 4 * s.words.length : ℕ) : ℤ) by
      rw [hN']; push_cast; ring]
    exact toUInt32_natCast (by omega)
  have hcount := length_le_paletteBytes s.palette
  have hpaletteSize : (BitVec.ofNat 32 s.palette.length).toInt = s.palette.length :=
    toInt_ofNat_of_lt (by omega)
  unfold readStorage
  dsimp only
  rw [hheader, ok_bind, if_neg (header_even hbits2), hl, ok_bind,
    asInt_ok (by omega) (by omega), ok_bind, (toUInt32_add (by omega)).1, hstart,
    parseInt32_at hsize (by omega), ok_bind, hpaletteSize, Int.toNat_natCast,
    (toUInt32_add (by omega)).2.2.1, readPalette_at hv hfuel hpalette, ok_bind]
  dsimp only
  rw [hN', Int.toNat_natCast,
    readWords_at hwords hf hbits hk hbits2 (by omega) (by omega), ok_bind]
  congr 3
  omega

/-! ## The storages of a value -/

omit hv hfuel

/-- The contents of storages that begin with number `i` of a value. -/
def storagesFrom : ℕ → List PackedStorage → List Storage
  | _, [] => []
  | i, s :: rest => s.storage i :: storagesFrom (i + 1) rest

lemma storagesFrom_stateless {i : ℕ} (hi : i ≠ 0) (storages : List PackedStorage) :
    ∀ t ∈ storagesFrom i storages, t.states = [] := by
  induction storages generalizing i with
  | nil => simp [storagesFrom]
  | cons s rest ih =>
    rw [storagesFrom, List.forall_mem_cons]
    exact ⟨if_neg hi, ih (by omega)⟩

include hv hfuel in
lemma reaches_at {storages : List PackedStorage} (hs : ∀ s ∈ storages, s.WellFormed) {off : ℕ}
    (h : v.At off (storages.flatMap encode)) (y : Fin 16) (i : ℕ) (c : Chunk) :
    Reaches fuel v (y : ℕ) i off c (i + storages.length) (off + (storages.flatMap encode).length)
      (c.loadAll y (storagesFrom i storages)) := by
  induction storages generalizing i off c with
  | nil => exact Reaches.here i off c
  | cons s rest ih =>
    rw [List.forall_mem_cons] at hs
    rw [List.flatMap_cons] at h ⊢
    obtain ⟨hfirst, hrest⟩ := Slice.at_append.mp h
    have hload : loadStorage fuel v (y : ℕ) i off c =
        .ok (some (off + s.encode.length, c.load y (s.storage i))) := by
      rw [loadStorage_eq, hs.1.readStorage_at hv hfuel hfirst, ok_bind]
      rfl
    have hreach := ih hs.2 hrest (i + 1) (c.load y (s.storage i))
    rw [List.length_append, List.length_cons, ← Nat.add_assoc off, Nat.add_comm rest.length 1,
      ← Nat.add_assoc i]
    exact Reaches.next hload hreach

end PackedStorage

/-! ## Loading an encoded value -/

section

variable {storages : List PackedStorage} (hwell : ∀ s ∈ storages, s.WellFormed)
  (hcount : storages.length ≤ 127) (hsize : (encodeValue storages).length ≤ 32768) {fuel : ℕ}
  (hfuel : (encodeValue storages).length ≤ fuel)

include hwell hsize hfuel in
lemma encodeValue_reaches (y : Fin 16) (c : Chunk) :
    Reaches fuel (encodeValue storages) (y : ℕ) 0 2 c storages.length (encodeValue storages).length
      (c.loadAll y (PackedStorage.storagesFrom 0 storages)) := by
  have hat : (encodeValue storages).At 2 (storages.flatMap PackedStorage.encode) := by
    unfold Slice.At encodeValue
    exact List.prefix_rfl
  have hreach := PackedStorage.reaches_at hsize hfuel hwell hat y 0 c
  have hlen : (encodeValue storages).length =
      2 + (storages.flatMap PackedStorage.encode).length := by
    unfold encodeValue
    rw [List.length_append]
    rfl
  rw [Nat.zero_add, ← hlen] at hreach
  exact hreach

include hwell hcount hsize hfuel in
lemma loadEntry_encodeValue {key : Slice} {slot : Slot} {y : Fin 16} (hy : slot.chunkY = (y : ℕ))
    (hslot : (⟨key, encodeValue storages⟩ : Entry).slot? = some slot) {st : LoaderState}
    (hst : st.StoreInv) {c : Chunk} (hc : (st.visit slot).2.deref (st.visit slot).1 = .ok c) :
    ∃ st', loadEntry fuel ⟨key, encodeValue storages⟩ st = .ok (true, st') ∧
      st'.at? slot.dimension slot.chunkX slot.chunkZ =
        some (c.loadAll y (PackedStorage.storagesFrom 0 storages)) := by
  have hnum : (encodeValue storages).charAt 1 = .ok (UInt8.ofNat storages.length) := rfl
  have hchar : ∀ n < 128, (toChar (UInt8.ofNat n)).toNat = n := by decide
  have hfind : (st.visit slot).2.world.findChunk (chunkID slot.chunkX slot.chunkZ) slot.dimension =
      some (st.visit slot).1 := by
    rw [LoaderState.findChunk_visit, if_pos ⟨rfl, rfl⟩]
  have hloop := (encodeValue_reaches hwell hsize hfuel y c).storageLoop_eq (Nat.zero_add _).symm
  refine ⟨(st.visit slot).2.write (st.visit slot).1
    (c.loadAll y (PackedStorage.storagesFrom 0 storages)), ?_, ?_⟩
  · rw [loadEntry_of_slot hslot, hc, ok_bind]
    dsimp only
    rw [hnum, ok_bind, hchar _ (by omega), hy, hloop, ok_bind]
  · rw [(hst.visit slot).at?_write hfind (LoaderState.deref_eq_ok.mp hc), if_pos ⟨rfl, rfl, rfl⟩]

end

/-! ## What is seen of it -/

lemma SubChunk.InPalette.block_append {s : SubChunk} (hs : s.InPalette) (tags : List NBTTag)
    (q : Fin 4096) :
    ∃ b, SubChunk.block ⟨s.cells, s.palette ++ tags⟩ q = .ok b ∧ s.block q = .ok b := by
  unfold SubChunk.block
  by_cases hpos : 0 ≤ s.cells q
  · have hlt : (s.cells q).toNat < s.palette.length := by
      have := hs q hpos
      omega
    have htag := List.getElem?_eq_getElem hlt
    refine ⟨_, blockOf_tag hpos ?_, blockOf_tag hpos htag⟩
    rw [List.getElem?_append_left hlt]
    exact htag
  · have hneg : s.cells q < 0 := by omega
    exact ⟨_, blockOf_neg hneg _, blockOf_neg hneg _⟩

lemma Loads.inPalette_visit {fuel : ℕ} {seen : List Entry} {ok : Bool} {st : LoaderState}
    (hrun : Loads fuel seen ok st) {slot : Slot} {c : Chunk}
    (hc : (st.visit slot).2.deref (st.visit slot).1 = .ok c) (y : Fin 16) :
    (c.subChunk y).InPalette := by
  have hat : (st.visit slot).2.at? slot.dimension slot.chunkX slot.chunkZ = some c := by
    rw [LoaderState.at?, LoaderState.findChunk_visit, if_pos ⟨rfl, rfl⟩, Option.bind_some]
    exact LoaderState.deref_eq_ok.mp hc
  rw [hrun.storeInv.at?_visit, if_pos ⟨rfl, rfl, rfl⟩] at hat
  cases hold : st.at? slot.dimension slot.chunkX slot.chunkZ with
  | none =>
    rw [hold, Option.getD_none] at hat
    rw [← Option.some.inj hat, Chunk.subChunk_new]
    exact fun q hq => absurd hq (by simp [SubChunk.empty])
  | some c₀ =>
    rw [hold, Option.getD_some] at hat
    rw [← Option.some.inj hat]
    exact hrun.inPalette hold y

lemma Chunk.getBlock_further {c : Chunk} (hc : ∀ y, (c.subChunk y).InPalette) {y : Fin 16}
    {first : Storage} {further : List Storage} (hfirst : first.WellRead 0)
    (hfurther : ∀ t ∈ further, t.states = []) (i : Fin 16) (j : Fin 256) (k : Fin 16) :
    ∃ b, (c.loadAll y (first :: further)).getBlock (i : ℕ) (j : ℕ) (k : ℕ) = .ok b ∧
      (c.loadAll y [first]).getBlock (i : ℕ) (j : ℕ) (k : ℕ) = .ok b := by
  rw [Chunk.getBlock_eq, Chunk.getBlock_eq, Chunk.subChunk_loadAll, Chunk.subChunk_loadAll]
  by_cases hy : subOf j = y
  · rw [if_pos hy, if_pos hy]
    change ∃ b, (((c.subChunk y).load first).loadAll further).block (cellPos i j k) = .ok b ∧
      ((c.subChunk y).load first).block (cellPos i j k) = .ok b
    rw [SubChunk.loadAll_stateless _ hfurther]
    exact ((hc y).load hfirst).block_append _ _
  · rw [if_neg hy, if_neg hy]
    obtain ⟨b, hb⟩ := (hc (subOf j)).block_append [] (cellPos i j k)
    exact ⟨b, hb.2, hb.2⟩

/-- The storages of a value are passed over exactly, and only the first is seen. -/
theorem further_storages_invisible {first : PackedStorage} {rest : List PackedStorage}
    (hwell : ∀ s ∈ first :: rest, s.WellFormed) (hcount : rest.length + 1 ≤ 127)
    (hsize : (encodeValue (first :: rest)).length ≤ 32768) {fuel : ℕ}
    (hfuel : (encodeValue (first :: rest)).length ≤ fuel) {key : Slice} {d : ChunkDimension}
    {x z : ℤ} {y : Fin 16}
    (hslot : (⟨key, encodeValue (first :: rest)⟩ : Entry).slot? = some ⟨d, x, z, (y : ℕ)⟩)
    {fuel' : ℕ} {seen : List Entry} {st : LoaderState} (hrun : Loads fuel' seen true st) :
    ∃ c st' c' st₁ c₁,
      (st.visit ⟨d, x, z, (y : ℕ)⟩).2.deref (st.visit ⟨d, x, z, (y : ℕ)⟩).1 = .ok c ∧
      Reaches fuel (encodeValue (first :: rest)) (y : ℕ) 0 2 c (rest.length + 1)
        (encodeValue (first :: rest)).length c' ∧
      loadEntry fuel ⟨key, encodeValue (first :: rest)⟩ st = .ok (true, st') ∧
      st'.at? d x z = some c' ∧
      loadEntry fuel ⟨key, encodeValue [first]⟩ st = .ok (true, st₁) ∧
      st₁.at? d x z = some c₁ ∧
      ∀ (i : Fin 16) (j : Fin 256) (k : Fin 16), ∃ b,
        c'.getBlock (i : ℕ) (j : ℕ) (k : ℕ) = .ok b ∧
        c₁.getBlock (i : ℕ) (j : ℕ) (k : ℕ) = .ok b := by
  have hst := hrun.storeInv
  obtain ⟨c, hc⟩ := hst.deref_visit ⟨d, x, z, (y : ℕ)⟩
  have hwell₁ : ∀ s ∈ [first], s.WellFormed := by
    intro s hs
    rw [List.mem_singleton] at hs
    exact hwell s (hs ▸ List.mem_cons_self)
  have hcut : (encodeValue [first]).length ≤ (encodeValue (first :: rest)).length := by
    simp only [encodeValue, List.flatMap_cons, List.flatMap_nil, List.length_append,
      List.length_cons, List.length_nil]
    omega
  have hslot₁ : (⟨key, encodeValue [first]⟩ : Entry).slot? = some ⟨d, x, z, (y : ℕ)⟩ := by
    obtain ⟨hkey, -, hdecode⟩ := slot?_eq_some.mp hslot
    exact slot?_eq_some.mpr ⟨hkey, rfl, hdecode⟩
  obtain ⟨st', hload, hat⟩ := loadEntry_encodeValue hwell hcount hsize hfuel rfl hslot hst hc
  obtain ⟨st₁, hload₁, hat₁⟩ := loadEntry_encodeValue hwell₁ (by simp) (hcut.trans hsize)
    (hcut.trans hfuel) rfl hslot₁ hst hc
  have hfirst : (first.storage 0).WellRead 0 := by
    have hstands : (encodeValue [first]).At 2 (first.encode ++ []) := List.prefix_rfl
    exact readStorage_wellRead ((hwell first List.mem_cons_self).readStorage_at (hcut.trans hsize)
      (hcut.trans hfuel) (Slice.at_append.mp hstands).1 0)
  refine ⟨c, st', _, st₁, _, hc, encodeValue_reaches hwell hsize hfuel y c, hload, hat, hload₁,
    hat₁, ?_⟩
  intro i j k
  exact Chunk.getBlock_further (hrun.inPalette_visit hc) hfirst
    (PackedStorage.storagesFrom_stateless one_ne_zero rest) i j k

/-- One-bit blocks, all 0, and a palette. -/
def zeroStorage (palette : List (List UInt8 × Tree)) : PackedStorage :=
  ⟨1, List.replicate 128 0, palette⟩

lemma zeroStorage_wellFormed (palette : List (List UInt8 × Tree)) :
    (zeroStorage palette).WellFormed where
  bits := by simp [zeroStorage]
  words := by
    rw [zeroStorage, List.length_replicate, eq_comm, Int.ceil_eq_iff]
    norm_num

/-- A byte tag in the first palette, a compound and a string in the second. -/
theorem further_storages_invisible_two :
    ∃ st' c' st₁ c₁, loadEntry 2000 ⟨[255, 255, 255, 255, 2, 0, 0, 0, 0x2F, 3],
        encodeValue [zeroStorage [([], .byte 7)],
          zeroStorage [([97], .compound (.cons [] (.int 5) .nil)), ([], .string [98])]]⟩
          LoaderState.init = .ok (true, st') ∧
      st'.at? .OVERWORLD (-1) 2 = some c' ∧
      loadEntry 2000 ⟨[255, 255, 255, 255, 2, 0, 0, 0, 0x2F, 3],
        encodeValue [zeroStorage [([], .byte 7)]]⟩ LoaderState.init = .ok (true, st₁) ∧
      st₁.at? .OVERWORLD (-1) 2 = some c₁ ∧
      ∃ b, c'.getBlock 0 48 0 = .ok b ∧ c₁.getBlock 0 48 0 = .ok b := by
  have hrun : Loads 2000 [] true LoaderState.init := Loads.start
  have hlen : (encodeValue [zeroStorage [([], .byte 7)],
      zeroStorage [([97], .compound (.cons [] (.int 5) .nil)),
        ([], .string [98])]]).length = 1058 := by
    simp [encodeValue, PackedStorage.encode, zeroStorage, length_wordBytes, paletteBytes,
      Tree.encode, encodeHeader, Tree.payload, Entries.encode]
  obtain ⟨c, st', c', st₁, c₁, -, -, hload, hat, hload₁, hat₁, hblocks⟩ :=
    @further_storages_invisible (zeroStorage [([], .byte 7)])
      [zeroStorage [([97], .compound (.cons [] (.int 5) .nil)), ([], .string [98])]]
      (by simp [zeroStorage_wellFormed]) (by decide) (by omega) 2000 (by omega)
      [255, 255, 255, 255, 2, 0, 0, 0, 0x2F, 3] .OVERWORLD (-1) 2 3
      (slot?_eq_some.mpr ⟨rfl, rfl, rfl⟩) 2000 [] LoaderState.init hrun
  exact ⟨st', c', st₁, c₁, hload, hat, hload₁, hat₁, hblocks 0 48 0⟩

end ChunkViewer
