import ChunkViewer.Proofs.NBTRoundTrip
import ChunkViewer.Proofs.ReadStorages
import ChunkViewer.Proofs.WorldRefines
import ChunkViewer.Spec.EncodedStorages

/-!
# Unpacking a sub-chunk

A value packs 4096 indices into words, as many as fit each word. The loader unpacks all the
slots of the words, also those of the last word that are past the 4096th: these go round to
the first cells. So the cells hold the indices exactly when the slots past the end hold what
the first cells hold.
-/

namespace ChunkViewer

open ExceptRun RingFill

/-! ## Packed values -/

/-- A format-8 value up to the palette of storage 0: the bytes of format, storage count and
header, the words, the palette size; then the palette and what follows. -/
def storageValue (count : UInt8) (bits : ℕ) (words : List (BitVec 32)) (paletteSize : ℕ)
    (rest : Slice) : Slice :=
  [8, count, UInt8.ofNat (2 * bits)] ++ wordBytes words ++ LittleEndian.bytes 4 paletteSize ++ rest

/-- The index in slot `pos` of the words. -/
def slotIndex (bits : ℕ) (words : List (BitVec 32)) (pos : ℕ) : ℕ :=
  BitField.field (words.getD (pos / (32 / bits)) 0).toNat (pos % (32 / bits) * bits) bits

/-- The words hold the indices in their first 4096 slots. -/
def Packs (bits : ℕ) (words : List (BitVec 32)) (idx : Fin 4096 → ℕ) : Prop :=
  ∀ pos : Fin 4096, slotIndex bits words pos = idx pos

/-- A slot past the 4096th resolves to what the cell it goes round to should hold. -/
def PaddingAgrees (bits : ℕ) (words : List (BitVec 32)) (paletteSize : ℕ) : Prop :=
  ∀ pos, 4096 ≤ pos → pos < words.length * (32 / bits) →
    clip paletteSize (slotIndex bits words pos) = clip paletteSize (slotIndex bits words (pos - 4096))

lemma length_wordBytes (words : List (BitVec 32)) : (wordBytes words).length = 4 * words.length := by
  induction words with
  | nil => rfl
  | cons word words ih =>
    unfold wordBytes at *
    rw [List.flatMap_cons, List.length_append, LittleEndian.length_bytes, ih, List.length_cons]
    omega

lemma parseInt32_wordBytes {v : Slice} {words : List (BitVec 32)} {off j : ℕ}
    (h : v.At off (wordBytes words)) (hmax : off + 4 * words.length ≤ 32768)
    (hj : j < words.length) : parseInt32 v (off + 4 * j) = .ok (words.getD j 0) := by
  induction words generalizing off j with
  | nil => exact absurd hj (by simp)
  | cons word words ih =>
    unfold wordBytes at h ih
    rw [List.flatMap_cons] at h
    rw [List.length_cons] at hmax
    obtain ⟨hword, hrest⟩ := Slice.at_append.mp h
    cases j with
    | zero =>
      rw [Nat.mul_zero, Nat.add_zero, parseInt32_at hword (by omega), BitVec.ofNat_toNat,
        BitVec.setWidth_eq]
      rfl
    | succ j =>
      rw [LittleEndian.length_bytes] at hrest
      have hnext := ih hrest (by omega) (Nat.lt_of_succ_lt_succ hj)
      rw [show off + 4 * (j + 1) = off + 4 + 4 * j by omega, hnext]
      rfl

section

variable {count : UInt8} {bits : ℕ} {words : List (BitVec 32)} {paletteSize : ℕ} {rest : Slice}

lemma storageValue_at :
    (storageValue count bits words paletteSize rest).At 3
      (wordBytes words ++ LittleEndian.bytes 4 paletteSize) := by
  unfold Slice.At storageValue
  exact ⟨rest, by simp⟩

lemma parseInt32_word (hlen : words.length ≤ 4096) {j : ℕ} (hj : j < words.length) :
    parseInt32 (storageValue count bits words paletteSize rest) (3 + 4 * j) =
      .ok (words.getD j 0) :=
  parseInt32_wordBytes (Slice.at_append.mp storageValue_at).1 (by omega) hj

lemma parseInt32_paletteSize (hlen : words.length ≤ 4096) :
    parseInt32 (storageValue count bits words paletteSize rest) (3 + 4 * words.length) =
      .ok (BitVec.ofNat 32 paletteSize) := by
  rw [← length_wordBytes]
  refine parseInt32_at (Slice.at_append.mp storageValue_at).2 ?_
  rw [length_wordBytes]
  omega

end

lemma header_even {bits : ℕ} (h : bits ≤ 30) : UInt8.ofNat (2 * bits) &&& 1 ≠ 1 := by
  have heven : ∀ bits < 31, UInt8.ofNat (2 * bits) &&& 1 ≠ 1 := by decide
  exact heven bits (by omega)

lemma storageLayout_ofNat {bits : ℕ} (h1 : 1 ≤ bits) (h2 : bits ≤ 30) :
    ∃ l, storageLayout (toChar (UInt8.ofNat (2 * bits))) = .ok l ∧ l.Forward ∧
      l.bitsPerBlock = bits ∧ l.blocksPerWord = (32 / bits : ℕ) ∧
      l.numWords = ⌈(4096 : ℚ) / (32 / bits : ℕ)⌉ := by
  have hheader : ∀ bits < 31, toChar (UInt8.ofNat (2 * bits)) >>> 1 = (bits : ℕ) := by decide
  have hshift := hheader bits (by omega)
  obtain ⟨l, hl, hbits, hf⟩ := @storageLayout_forward (toChar (UInt8.ofNat (2 * bits)))
    (by omega) (by omega)
  have hl' := hl
  rw [storageLayout_eq, hshift, blocksPerWordOf, if_neg (by omega), ok_bind] at hl'
  obtain ⟨n, hn, hlayout⟩ := bind_eq_ok.mp hl'
  have hk : (32 : ℤ).tdiv (bits : ℕ) = (32 / bits : ℕ) := rfl
  rw [hk] at hn hlayout
  have hne : ((32 / bits : ℕ) : ℤ) ≠ 0 := by
    have : 1 ≤ 32 / bits := (Nat.one_le_div_iff (by omega)).mpr (by omega)
    omega
  rw [numWordsOf, if_neg hne] at hn
  obtain rfl := Except.ok.inj hn
  obtain rfl := Except.ok.inj hlayout
  exact ⟨_, hl, hf, rfl, rfl, by push_cast; rfl⟩

/-! ## The storage that is read -/

/-- A packed value with as many words as the width needs, and a palette that is parsed to its
end. -/
structure PackedValue (fuel : ℕ) (count : UInt8) (bits : ℕ) (words : List (BitVec 32))
    (paletteSize : ℕ) (rest : Slice) (tags : List NBTTag) (next : ℕ) : Prop where
  bits_pos : 1 ≤ bits
  bits_le : bits ≤ 30
  words_length : (words.length : ℤ) = ⌈(4096 : ℚ) / (32 / bits : ℕ)⌉
  paletteSize_lt : paletteSize < 2147483648
  palette : readPalette fuel (storageValue count bits words paletteSize rest) paletteSize
    (7 + 4 * words.length) = .ok (next, tags)

/-- The states of all the slots. -/
def slotStates (bits : ℕ) (words : List (BitVec 32)) (paletteSize : ℕ) : List ℤ :=
  (List.range' 0 (words.length * (32 / bits))).map fun pos =>
    clip paletteSize (slotIndex bits words pos)

section

variable {fuel : ℕ} {count : UInt8} {bits : ℕ} {words : List (BitVec 32)} {paletteSize : ℕ}
  {rest : Slice} {tags : List NBTTag} {next : ℕ}

lemma PackedValue.slots (h : PackedValue fuel count bits words paletteSize rest tags next) :
    words.length ≤ 4096 ∧ 4096 ≤ words.length * (32 / bits) ∧
      words.length * (32 / bits) ≤ 4096 + 4096 := by
  obtain ⟨l, -, hf, -, hk, hN⟩ := storageLayout_ofNat h.bits_pos h.bits_le
  have hwords := hf.words_le
  have hcovers := hf.covers
  have htight := hf.tight
  have hblocks := hf.blocks_le
  rw [hN, ← h.words_length] at hwords hcovers htight
  rw [hk] at hcovers htight hblocks
  refine ⟨by exact_mod_cast hwords, by exact_mod_cast hcovers, ?_⟩
  have : ((words.length * (32 / bits) : ℕ) : ℤ) ≤ ((4096 + 4096 : ℕ) : ℤ) := by
    push_cast at htight hblocks ⊢
    omega
  exact_mod_cast this

lemma PackedValue.readStorage_eq
    (h : PackedValue fuel count bits words paletteSize rest tags next) :
    readStorage fuel (storageValue count bits words paletteSize rest) 0 2 =
      .ok (some (⟨paletteSize, tags, slotStates bits words paletteSize⟩, next)) := by
  obtain ⟨l, hl, hf, hbits, hk, hN⟩ := storageLayout_ofNat h.bits_pos h.bits_le
  obtain ⟨hlen, -, -⟩ := h.slots
  have hN' : l.numWords.toNat = words.length := by
    rw [hN, ← h.words_length]
    exact Int.toNat_natCast _
  have hlt := h.paletteSize_lt
  have hsize : (BitVec.ofNat 32 paletteSize).toInt = paletteSize :=
    toInt_ofNat_of_lt (by omega)
  have hbits_pos := hf.bits_pos
  have hbits_le := h.bits_le
  have hword : ∀ j, 0 ≤ j → j < 0 + words.length →
      parseInt32 (storageValue count bits words paletteSize rest) (3 + 4 * j) =
        .ok (words.getD j 0) := by
    intro j _ hj
    exact parseInt32_word hlen (by omega)
  have hwords := readWords_eq hf.bits_pos (by omega) hf.blocks_pos hf.fits
    (show (-2147483648 : ℤ) < (paletteSize : ℕ) by omega) (by omega) hword (by omega)
  rw [readStorage_first rfl (header_even hbits_le) hl hf, hN', parseInt32_paletteSize hlen, ok_bind,
    hsize, Int.toNat_natCast, h.palette, ok_bind]
  rw [hbits, hk, Nat.zero_mul, Nat.mul_zero, Nat.add_zero] at hwords
  rw [hbits, hk, hwords]
  rfl

/-- Round the cells: a slot past the end wins over the slot of the cell itself. -/
lemma PackedValue.ringFill_slotStates
    (h : PackedValue fuel count bits words paletteSize rest tags next) (cells : Fin 4096 → ℤ)
    (q : Fin 4096) :
    ringFill cells 0 (slotStates bits words paletteSize) q =
      clip paletteSize (slotIndex bits words
        (if 4096 + q.val < words.length * (32 / bits) then 4096 + q else q)) := by
  obtain ⟨-, hcovers, hmax⟩ := h.slots
  have hlength : (slotStates bits words paletteSize).length = words.length * (32 / bits) := by
    rw [slotStates, List.length_map, List.length_range']
  have hget : ∀ pos, pos < words.length * (32 / bits) → ∀ d,
      (slotStates bits words paletteSize).getD pos d = clip paletteSize (slotIndex bits words pos) := by
    intro pos hpos d
    rw [List.getD_eq_getElem _ _ (by omega)]
    simp [slotStates]
  rw [ringFill_two_turns (by omega)]
  by_cases hq : 4096 + q.val < words.length * (32 / bits)
  · rw [if_pos hq, hget _ hq]
  · rw [if_neg hq, List.getD_eq_default _ _ (by omega), hget _ (by omega)]

/-! ## The loaded chunk -/

variable {e : Entry} {slot : Slot} {st st' : LoaderState} {ok : Bool}

lemma PackedValue.loadEntry_ok (h : PackedValue fuel count bits words paletteSize rest tags next)
    (hslot : e.slot? = some slot)
    (hvalue : e.value = storageValue count bits words paletteSize rest) (hcount : toChar count = 1)
    (y : Fin 16) (hy : slot.chunkY = (y : ℕ)) (hst : st.StoreInv) :
    ∃ st', loadEntry fuel e st = .ok (true, st') := by
  obtain ⟨c, hc⟩ := hst.deref_visit slot
  have hread : readStorages fuel e.value 1 0 2 =
      .ok (true, [⟨paletteSize, tags, slotStates bits words paletteSize⟩]) := by
    rw [hvalue, readStorages, h.readStorage_eq]
    rfl
  have hn : e.value.charAt 1 = .ok count := by
    rw [hvalue]
    rfl
  rw [loadEntry_of_slot hslot, hc, ok_bind, hn, ok_bind, hcount, hy,
    show (1 : ℤ).toNat = 1 from rfl, storageLoop_eq, hread]
  exact ⟨_, rfl⟩

lemma PackedValue.cells_eq (h : PackedValue fuel count bits words paletteSize rest tags next)
    (hslot : e.slot? = some slot)
    (hvalue : e.value = storageValue count bits words paletteSize rest) (hcount : 1 ≤ toChar count)
    (y : Fin 16) (hy : slot.chunkY = (y : ℕ)) (hst : st.StoreInv)
    (hload : loadEntry fuel e st = .ok (ok, st')) :
    ∃ c, st'.at? slot.dimension slot.chunkX slot.chunkZ = some c ∧ ∀ q : Fin 4096,
      (c.subChunk y).cells q = clip paletteSize (slotIndex bits words
        (if 4096 + q.val < words.length * (32 / bits) then 4096 + q else q)) := by
  have hview := loadEntry_refines hst hload
  have hstorages : ∃ rest', e.storages fuel =
      ⟨paletteSize, tags, slotStates bits words paletteSize⟩ :: rest' ∧
        ∀ t ∈ rest', t.states = [] := by
    rcases loadEntry_cases hload with ⟨hnone, -⟩ | ⟨slot', c, c', n, -, -, hn, hloop, -⟩
    · rw [hslot] at hnone
      exact absurd hnone (by simp)
    · obtain ⟨storages, hread, -⟩ := storageLoop_refines hloop
      obtain rfl : n = count := by
        rw [hvalue] at hn
        exact (Except.ok.inj hn).symm
      obtain ⟨m, hm⟩ : ∃ m, (toChar n).toNat = m + 1 := ⟨(toChar n).toNat - 1, by omega⟩
      rw [hm, hvalue] at hread
      obtain ⟨rest', hcons, hrest⟩ := readStorages_cons h.readStorage_eq hread
      refine ⟨rest', ?_, readStorages_wellRead hrest (by omega)⟩
      rw [Entry.storages, readValue, hn, ok_bind, hm, hvalue, hread, hcons]
  obtain ⟨rest', hcons, hrest⟩ := hstorages
  have hat := congrFun (congrFun (congrFun hview slot.dimension) slot.chunkX) slot.chunkZ
  rw [World.loadEntry, hslot] at hat
  simp only [World.load, and_self, if_true, LoaderState.view] at hat
  obtain ⟨c, hc, hsub⟩ := Option.map_eq_some_iff.mp hat
  refine ⟨c, hc, ?_⟩
  intro q
  rw [congrFun hsub y, if_pos hy.symm, hcons, SubChunk.loadAll, List.foldl_cons]
  rw [show ∀ s : SubChunk, List.foldl SubChunk.load s rest' = s.loadAll rest' from fun s => rfl,
    SubChunk.loadAll_stateless _ hrest]
  exact h.ringFill_slotStates _ q

end

/-! ## Exactness -/

/-- Sub-chunk `y` of the chunk holds the indices, -2 for those outside the palette. -/
def Unpacked (c : Chunk) (y : Fin 16) (paletteSize : ℕ) (idx : Fin 4096 → ℕ) : Prop :=
  ∀ x y' z : Fin 16, c.cell x ⟨16 * y + y', by omega⟩ z =
    clip paletteSize (idx ⟨x * 256 + z * 16 + y', by omega⟩)

lemma unpacked_iff (c : Chunk) (y : Fin 16) (paletteSize : ℕ) (idx : Fin 4096 → ℕ) :
    Unpacked c y paletteSize idx ↔ ∀ q, (c.subChunk y).cells q = clip paletteSize (idx q) := by
  have hcell : ∀ x y' z : Fin 16, c.cell x ⟨16 * y + y', by omega⟩ z =
      (c.subChunk y).cells ⟨x * 256 + z * 16 + y', by omega⟩ := by
    intro x y' z
    have hsub : subOf ⟨16 * y + y', by omega⟩ = y := Fin.ext (by simp only [subOf]; omega)
    rw [Chunk.cell_eq_subChunk, hsub]
    congr 1
    exact Fin.ext (by simp only [cellPos]; omega)
  constructor
  · intro h q
    have hq := h (posX q) ⟨q % 16, by omega⟩ (posZ q)
    have hpos : (⟨(posX q : ℕ) * 256 + (posZ q : ℕ) * 16 + q.val % 16, by omega⟩ : Fin 4096) = q :=
      Fin.ext (by simp only [posX, posZ]; omega)
    rw [hcell] at hq
    simp only [hpos] at hq
    exact hq
  · intro h x y' z
    rw [hcell, h]

lemma paddingAgrees_of_dvd {fuel : ℕ} {count : UInt8} {bits : ℕ} {words : List (BitVec 32)}
    {paletteSize : ℕ} {rest : Slice} {tags : List NBTTag} {next : ℕ}
    (h : PackedValue fuel count bits words paletteSize rest tags next) (hdvd : 32 / bits ∣ 4096) :
    PaddingAgrees bits words paletteSize := by
  obtain ⟨k, hk⟩ := hdvd
  have hlen := h.words_length
  have hpos : 0 < 32 / bits := by
    rcases Nat.eq_zero_or_pos (32 / bits) with h0 | h0
    · rw [h0, Nat.zero_mul] at hk
      exact absurd hk (by norm_num)
    · exact h0
  have hquot : (4096 : ℚ) / (32 / bits : ℕ) = (k : ℤ) := by
    have hcast : ((4096 : ℕ) : ℚ) = ((32 / bits * k : ℕ) : ℚ) := congrArg Nat.cast hk
    rw [Nat.cast_mul] at hcast
    rw [div_eq_iff (Nat.cast_ne_zero.mpr hpos.ne'), Int.cast_natCast, mul_comm]
    exact hcast
  rw [hquot, Int.ceil_intCast] at hlen
  intro pos h1 h2
  rw [Nat.cast_inj.mp hlen, Nat.mul_comm, ← hk] at h2
  omega

/-- Unpacking is exact if and only if the padding of the last word agrees with the first
cells. -/
theorem sub_chunk_unpacking {fuel fuel' : ℕ} {count : UInt8} {bits : ℕ} {words : List (BitVec 32)}
    {paletteSize : ℕ} {rest : Slice} {tags : List NBTTag} {next : ℕ}
    (hvalue : PackedValue fuel count bits words paletteSize rest tags next)
    (hcount : 1 ≤ toChar count) {idx : Fin 4096 → ℕ} (hpacks : Packs bits words idx)
    {e : Entry} {slot : Slot} (hslot : e.slot? = some slot)
    (he : e.value = storageValue count bits words paletteSize rest) (y : Fin 16)
    (hy : slot.chunkY = (y : ℕ)) {seen : List Entry} {st : LoaderState}
    (hrun : Loads fuel' seen true st) :
    (toChar count = 1 → ∃ st', loadEntry fuel e st = .ok (true, st')) ∧
    ∀ ok st', loadEntry fuel e st = .ok (ok, st') →
      ((∃ c, st'.at? slot.dimension slot.chunkX slot.chunkZ = some c ∧
          Unpacked c y paletteSize idx) ↔
        PaddingAgrees bits words paletteSize) := by
  refine ⟨fun hone => hvalue.loadEntry_ok hslot he hone y hy hrun.storeInv, ?_⟩
  intro ok st' hload
  obtain ⟨c, hc, hcells⟩ := hvalue.cells_eq hslot he hcount y hy hrun.storeInv hload
  obtain ⟨-, hcovers, hmax⟩ := hvalue.slots
  constructor
  · rintro ⟨c', hc', hunpacked⟩ pos h1 h2
    rw [hc] at hc'
    obtain rfl := Option.some.inj hc'
    have hq := (unpacked_iff c y paletteSize idx).mp hunpacked ⟨pos - 4096, by omega⟩
    have hpos : 4096 + (pos - 4096) = pos := by omega
    rw [hcells, ← hpacks, if_pos (by simp only [hpos]; exact h2)] at hq
    simp only [hpos] at hq
    exact hq
  · intro hpadding
    refine ⟨c, hc, (unpacked_iff c y paletteSize idx).mpr ?_⟩
    intro q
    rw [hcells, ← hpacks]
    by_cases hq : 4096 + q.val < words.length * (32 / bits)
    · rw [if_pos hq, hpadding _ (by omega) hq, Nat.add_sub_cancel_left]
    · rw [if_neg hq]

/-! ## A width with padding and one without -/

/-- An Overworld entry at `(-1, 2)` for sub-chunk 3, with one storage. -/
def packedEntry (bits : ℕ) (words : List (BitVec 32)) (paletteSize : ℕ) (rest : Slice) : Entry :=
  ⟨[255, 255, 255, 255, 2, 0, 0, 0, 0x2F, 3], storageValue 1 bits words paletteSize rest⟩

lemma packedEntry_slot? (bits : ℕ) (words : List (BitVec 32)) (paletteSize : ℕ) (rest : Slice) :
    (packedEntry bits words paletteSize rest).slot? = some ⟨.OVERWORLD, -1, 2, 3⟩ :=
  slot?_eq_some.mpr ⟨rfl, rfl, rfl⟩

set_option maxRecDepth 4000 in
/-- One-bit blocks, all 0, and a palette of one tag of type 0. -/
lemma packedValue_one : PackedValue 2 1 1 (List.replicate 128 0) 1 [0, 0, 0] [NBTTag.new] 522 where
  bits_pos := by norm_num
  bits_le := by norm_num
  words_length := by
    rw [List.length_replicate, eq_comm, Int.ceil_eq_iff]
    norm_num
  paletteSize_lt := by norm_num
  palette := rfl

theorem sub_chunk_unpacking_one :
    ∃ st', loadEntry 2 (packedEntry 1 (List.replicate 128 0) 1 [0, 0, 0]) LoaderState.init =
        .ok (true, st') ∧
      ∃ c, st'.at? .OVERWORLD (-1) 2 = some c ∧
        Unpacked c 3 1 fun q => slotIndex 1 (List.replicate 128 0) q := by
  have hpacks : Packs 1 (List.replicate 128 0) fun q => slotIndex 1 (List.replicate 128 0) q :=
    fun _ => rfl
  have hrun : Loads 2 [] true LoaderState.init := Loads.start
  obtain ⟨hok, hiff⟩ := sub_chunk_unpacking packedValue_one (by decide) hpacks
    (packedEntry_slot? 1 (List.replicate 128 0) 1 [0, 0, 0]) rfl 3 rfl hrun
  obtain ⟨st', hload⟩ := hok (by decide)
  exact ⟨st', hload, (hiff true st' hload).mpr (paddingAgrees_of_dvd packedValue_one (by norm_num))⟩

/-- Ten 3-bit blocks a word, the first of them 1 and all others 0. -/
def wrapWords : List (BitVec 32) := 1 :: List.replicate 409 0

set_option maxRecDepth 10000 in
lemma packedValue_wrap :
    PackedValue 2 1 3 wrapWords 2 [0, 0, 0, 0, 0, 0] [NBTTag.new, NBTTag.new] 1653 where
  bits_pos := by norm_num
  bits_le := by norm_num
  words_length := by
    rw [wrapWords, List.length_cons, List.length_replicate, eq_comm, Int.ceil_eq_iff]
    norm_num
  paletteSize_lt := by norm_num
  palette := rfl

/-- The first padding slot holds 0, the slot of the first cell 1. -/
lemma slotIndex_wrapWords : slotIndex 3 wrapWords 4096 = 0 ∧ slotIndex 3 wrapWords 0 = 1 := by
  unfold slotIndex wrapWords
  norm_num [BitField.field]
  decide

/-- The first padding slot overwrites the first cell. -/
theorem sub_chunk_unpacking_wraps :
    ∃ st', loadEntry 2 (packedEntry 3 wrapWords 2 [0, 0, 0, 0, 0, 0]) LoaderState.init =
        .ok (true, st') ∧
      ∀ c, st'.at? .OVERWORLD (-1) 2 = some c →
        ¬Unpacked c 3 2 fun q => slotIndex 3 wrapWords q := by
  have hslot := packedEntry_slot? 3 wrapWords 2 [0, 0, 0, 0, 0, 0]
  obtain ⟨st', hload⟩ := packedValue_wrap.loadEntry_ok hslot rfl (by decide) 3 rfl
    LoaderState.StoreInv.init
  refine ⟨st', hload, ?_⟩
  intro c hc hunpacked
  obtain ⟨c', hc', hcells⟩ := packedValue_wrap.cells_eq hslot rfl (by decide) 3 rfl
    LoaderState.StoreInv.init hload
  rw [hc] at hc'
  obtain rfl := Option.some.inj hc'
  have hfirst := (unpacked_iff c 3 2 _).mp hunpacked 0
  have hlen : wrapWords.length = 410 := by rw [wrapWords, List.length_cons, List.length_replicate]
  rw [hcells 0, hlen] at hfirst
  have hwrap : clip (2 : ℕ) (slotIndex 3 wrapWords 4096) = clip (2 : ℕ) (slotIndex 3 wrapWords 0) :=
    hfirst
  rw [slotIndex_wrapWords.1, slotIndex_wrapWords.2] at hwrap
  exact absurd hwrap (by decide)

end ChunkViewer
