import ChunkViewer.Library.BitField
import ChunkViewer.Proofs.FurtherStorages
import ChunkViewer.Proofs.Keys
import ChunkViewer.Spec.SavedWorld

/-!
# A saved sub-chunk

The entry of a saved sub-chunk is stored where it was saved from, and its storages are read back.
Loaded, each cell has the block of the last slot that is written to it, which is the saved one
where the padding agrees.
-/

namespace ChunkViewer

open ExceptRun RingFill

/-! ## Keys -/

lemma wordOf_coordinateBytes {n : ℤ} (h : -2147483648 ≤ n ∧ n ≤ 2147483647) :
    (wordOf (coordinateBytes n)).toInt = n := by
  have hword : wordOf (coordinateBytes n) = BitVec.ofInt 32 n := by
    have hlt : (BitVec.ofInt 32 n).toNat < 256 ^ 4 := (BitVec.ofInt 32 n).isLt
    rw [wordOf, coordinateBytes, LittleEndian.toNat_bytes, Nat.mod_eq_of_lt hlt, BitVec.ofNat_toNat,
      BitVec.setWidth_eq]
  rw [hword, BitVec.toInt_ofInt]
  exact Int.bmod_eq_of_le (by omega) (by omega)

lemma toChar_subChunk (y : Fin 16) : toChar (UInt8.ofNat y) = (y : ℕ) := by
  have hchar : ∀ n < 16, toChar (UInt8.ofNat n) = (n : ℕ) := by decide
  exact hchar y y.isLt

namespace SavedSubChunk

variable {s : SavedSubChunk}

lemma Valid.decodeKey_key (hs : s.Valid) : decodeKey s.key = .ok s.slot := by
  have hx : (coordinateBytes s.chunkX).length = 4 := LittleEndian.length_bytes _ _
  have hz : (coordinateBytes s.chunkZ).length = 4 := LittleEndian.length_bytes _ _
  have hkey : s.key = keyBytes (coordinateBytes s.chunkX) (coordinateBytes s.chunkZ)
    s.dimension.region (UInt8.ofNat s.chunkY) := rfl
  rw [hkey, slot]
  cases s.dimension with
  | OVERWORLD =>
    rw [ChunkDimension.region, decodeKey_overworld hx hz, wordOf_coordinateBytes hs.chunkX,
      wordOf_coordinateBytes hs.chunkZ, toChar_subChunk]
  | NETHER =>
    have hregion : (wordOf (LittleEndian.bytes 4 1)).toInt = 1 := by decide
    rw [ChunkDimension.region, decodeKey_region hx hz (LittleEndian.length_bytes _ _), if_pos hregion,
      wordOf_coordinateBytes hs.chunkX, wordOf_coordinateBytes hs.chunkZ, toChar_subChunk]
  | ENDWORLD =>
    have hregion : ¬(wordOf (LittleEndian.bytes 4 2)).toInt = 1 := by decide
    rw [ChunkDimension.region, decodeKey_region hx hz (LittleEndian.length_bytes _ _), if_neg hregion,
      wordOf_coordinateBytes hs.chunkX, wordOf_coordinateBytes hs.chunkZ, toChar_subChunk]

lemma isSubChunkKey_key (s : SavedSubChunk) : isSubChunkKey s.key = true := by
  unfold isSubChunkKey key coordinateBytes
  cases s.dimension <;> rfl

lemma Valid.entry_slot? (hs : s.Valid) : s.entry.slot? = some s.slot :=
  slot?_eq_some.mpr ⟨s.isSubChunkKey_key, rfl, hs.decodeKey_key⟩

/-! ## Words -/

lemma Valid.held_lt (hs : s.Valid) (pos : ℕ) : s.held pos < 2 ^ s.bits := by
  unfold held
  split
  · exact hs.indices _
  · exact hs.padding _

lemma Valid.bits_bounds (hs : s.Valid) : 1 ≤ s.bits ∧ s.bits ≤ 30 ∧ 1 ≤ 32 / s.bits := by
  have hmem := hs.bits
  simp only [List.mem_cons, List.not_mem_nil, or_false] at hmem
  refine ⟨by omega, by omega, ?_⟩
  rw [Nat.le_div_iff_mul_le (by omega)]
  omega

lemma Valid.first_wellFormed (hs : s.Valid) : s.first.WellFormed := by
  have hmem := hs.bits
  simp only [List.mem_cons, List.not_mem_nil, or_false] at hmem
  refine ⟨hs.bits, ?_⟩
  rw [first, List.length_map, List.length_range, wordCount, eq_comm, Int.ceil_eq_iff]
  rcases hmem with h | h | h | h | h | h | h | h <;> rw [h] <;> norm_num

lemma Valid.slotIndex_first (hs : s.Valid) {pos : ℕ} (h : pos < s.wordCount * (32 / s.bits)) :
    ChunkViewer.slotIndex s.bits s.first.words pos = s.held pos := by
  obtain ⟨hbits, -, hslots⟩ := hs.bits_bounds
  have hword : pos / (32 / s.bits) < s.wordCount := Nat.div_lt_of_lt_mul (by rwa [Nat.mul_comm])
  have hmod : pos % (32 / s.bits) < 32 / s.bits := Nat.mod_lt _ hslots
  have hds : ∀ d ∈ (List.range (32 / s.bits)).map fun k =>
      s.held (pos / (32 / s.bits) * (32 / s.bits) + k), d < 2 ^ s.bits := by
    intro d hd
    obtain ⟨k, -, rfl⟩ := List.mem_map.mp hd
    exact hs.held_lt _
  have hfits : ((List.range (32 / s.bits)).map fun k =>
      s.held (pos / (32 / s.bits) * (32 / s.bits) + k)).length * s.bits ≤ 32 := by
    rw [List.length_map, List.length_range]
    exact Nat.div_mul_le_self _ _
  have hget : s.first.words.getD (pos / (32 / s.bits)) 0 = s.word (pos / (32 / s.bits)) := by
    rw [first, List.getD_eq_getElem _ _ (by simpa using hword), List.getElem_map, List.getElem_range]
  rw [ChunkViewer.slotIndex, hget, word, BitVec.toNat_ofNat,
    Nat.mod_eq_of_lt (BitField.ofDigits_lt hbits hds hfits),
    BitField.field_ofDigits hds (by simpa using hmod), List.getD_eq_getElem _ _ (by simpa using hmod),
    List.getElem_map, List.getElem_range, Nat.div_add_mod']

end SavedSubChunk

/-! ## Storages -/

lemma PackedStorage.readStorages_at {v : Slice} (hv : v.length ≤ 32768) {fuel : ℕ}
    (hfuel : v.length ≤ fuel) {storages : List PackedStorage} (hs : ∀ s ∈ storages, s.WellFormed)
    {off : ℕ} (h : v.At off (storages.flatMap encode)) (i : ℕ) :
    readStorages fuel v storages.length i off = .ok (true, storagesFrom i storages) := by
  induction storages generalizing i off with
  | nil => rfl
  | cons s rest ih =>
    rw [List.forall_mem_cons] at hs
    rw [List.flatMap_cons] at h
    obtain ⟨hfirst, hrest⟩ := Slice.at_append.mp h
    rw [List.length_cons, readStorages, hs.1.readStorage_at hv hfuel hfirst, ok_bind]
    dsimp only
    rw [ih hs.2 hrest, ok_bind, storagesFrom]

namespace SavedSubChunk

variable {s : SavedSubChunk} {fuel : ℕ}

lemma Valid.wellFormed (hs : s.Valid) : ∀ t ∈ s.first :: s.further, t.WellFormed :=
  List.forall_mem_cons.mpr ⟨hs.first_wellFormed, hs.further⟩

lemma Valid.readValue_entry (hs : s.Valid) (hfuel : 32768 ≤ fuel) :
    readValue fuel s.entry.value =
      .ok (true, PackedStorage.storagesFrom 0 (s.first :: s.further)) := by
  have hsize := hs.size
  have hcount := hs.count
  have hnum : s.entry.value.charAt 1 = .ok (UInt8.ofNat (s.first :: s.further).length) := rfl
  have hchar : ∀ n < 128, (toChar (UInt8.ofNat n)).toNat = n := by decide
  have hat : s.entry.value.At 2 ((s.first :: s.further).flatMap PackedStorage.encode) :=
    List.prefix_rfl
  rw [readValue, hnum, ok_bind, hchar _ (by rw [List.length_cons]; omega)]
  exact PackedStorage.readStorages_at hsize (hsize.trans hfuel) hs.wellFormed hat 0

lemma Valid.storages_entry (hs : s.Valid) (hfuel : 32768 ≤ fuel) :
    s.entry.storages fuel = PackedStorage.storagesFrom 0 (s.first :: s.further) := by
  rw [Entry.storages, hs.readValue_entry hfuel]

/-- The entry as a value whose first storage is packed. -/
lemma entry_value (s : SavedSubChunk) :
    s.entry.value = storageValue (UInt8.ofNat (s.further.length + 1)) s.bits s.first.words
      s.palette.length (paletteBytes s.palette ++ s.further.flatMap PackedStorage.encode) := by
  simp only [entry, encodeValue, storageValue, List.flatMap_cons, PackedStorage.encode,
    List.length_cons, List.append_assoc, List.cons_append, List.nil_append]
  rfl

lemma Valid.packedValue (hs : s.Valid) (hfuel : 32768 ≤ fuel) :
    ∃ next, PackedValue fuel (UInt8.ofNat (s.further.length + 1)) s.bits s.first.words
      s.palette.length (paletteBytes s.palette ++ s.further.flatMap PackedStorage.encode)
      s.first.tags next := by
  have hsize := hs.size
  have hcount := PackedStorage.length_le_paletteBytes s.palette
  rw [entry_value] at hsize
  have hat : (storageValue (UInt8.ofNat (s.further.length + 1)) s.bits s.first.words
      s.palette.length (paletteBytes s.palette ++ s.further.flatMap PackedStorage.encode)).At
        (7 + 4 * s.first.words.length) (paletteBytes s.palette) := by
    have hmiddle := Slice.at_middle ([8, UInt8.ofNat (s.further.length + 1), UInt8.ofNat (2 * s.bits)] ++
      wordBytes s.first.words ++ LittleEndian.bytes 4 s.palette.length) (paletteBytes s.palette)
      (s.further.flatMap PackedStorage.encode)
    simp only [List.length_append, length_wordBytes, LittleEndian.length_bytes, List.length_cons,
      List.length_nil] at hmiddle
    rw [show 7 + 4 * s.first.words.length = 0 + 1 + 1 + 1 + 4 * s.first.words.length + 4 by omega,
      storageValue, ← List.append_assoc]
    exact hmiddle
  have hlen : s.palette.length < 2147483648 := by
    simp only [storageValue, List.length_append] at hsize
    omega
  exact ⟨_, hs.bits_bounds.1, hs.bits_bounds.2.1, hs.first_wellFormed.words, hlen,
    readPalette_at hsize (hsize.trans hfuel) hat⟩

/-! ## Cells -/

/-- The last slot that is written to a cell. Slots past the last cell go round to the first. -/
def lastSlot (s : SavedSubChunk) (q : Fin 4096) : ℕ :=
  if 4096 + q.val < s.wordCount * (32 / s.bits) then 4096 + q.val else q.val

lemma Valid.ringFill_first (hs : s.Valid) (hfuel : 32768 ≤ fuel) (q : Fin 4096) :
    ringFill SubChunk.empty.cells 0 (slotStates s.bits s.first.words s.palette.length) q =
      clip s.palette.length (s.held (s.lastSlot q)) := by
  obtain ⟨next, hpacked⟩ := hs.packedValue hfuel
  have hlength : s.first.words.length = s.wordCount := by
    rw [first, List.length_map, List.length_range]
  have hslots := hpacked.slots
  rw [hpacked.ringFill_slotStates, hlength, lastSlot]
  rw [hlength] at hslots
  by_cases hq : 4096 + q.val < s.wordCount * (32 / s.bits)
  · rw [if_pos hq, hs.slotIndex_first hq]
  · rw [if_neg hq, hs.slotIndex_first (by omega)]

lemma Valid.block_entry (hs : s.Valid) (hfuel : 32768 ≤ fuel) (q : Fin 4096) :
    (SubChunk.empty.loadAll (s.entry.storages fuel)).block q =
      .ok (s.indexBlock (s.held (s.lastSlot q))) := by
  have hload : ∀ t rest, SubChunk.empty.loadAll (t :: rest) = (SubChunk.empty.load t).loadAll rest :=
    fun _ _ => rfl
  rw [hs.storages_entry hfuel, PackedStorage.storagesFrom, hload,
    SubChunk.loadAll_stateless _ (PackedStorage.storagesFrom_stateless (by omega) _)]
  have hcell : (SubChunk.empty.load (s.first.storage 0)).cells q =
      clip s.palette.length (s.held (s.lastSlot q)) := by
    rw [SubChunk.load, PackedStorage.storage, if_pos rfl]
    exact hs.ringFill_first hfuel q
  have htags : (SubChunk.empty.load (s.first.storage 0)).palette = s.first.tags :=
    List.nil_append _
  rw [SubChunk.block, hcell, htags, indexBlock, clip]
  generalize s.held (s.lastSlot q) = index
  cases hentry : s.palette[index]? with
  | none =>
    rw [List.getElem?_eq_none_iff] at hentry
    rw [if_neg (by omega)]
    exact blockOf_neg (by norm_num) _
  | some entry =>
    obtain ⟨hlt, -⟩ := List.getElem?_eq_some_iff.mp hentry
    have htag : s.first.tags[index]? = some (entry.2.decode entry.1) := by
      rw [PackedStorage.tags, List.getElem?_map]
      exact congrArg _ hentry
    have hlength : index < s.first.tags.length := by
      rw [PackedStorage.tags, List.length_map]
      exact hlt
    rw [if_pos (by omega)]
    apply blockOf_tag (Int.natCast_nonneg _)
    rw [Int.toNat_natCast, List.getElem?_append_left hlength, htag]

lemma indexBlock_state (s : SavedSubChunk) (index : ℕ) :
    (s.indexBlock index).state = if index < s.palette.length then (index : ℤ) else -2 := by
  unfold indexBlock
  by_cases h : index < s.palette.length
  · rw [List.getElem?_eq_getElem h, if_pos h]
  · rw [List.getElem?_eq_none (not_lt.mp h), if_neg h]

lemma indexBlock_eq_iff {i j : ℕ} : s.indexBlock i = s.indexBlock j ↔
    i = j ∨ (s.palette.length ≤ i ∧ s.palette.length ≤ j) := by
  constructor
  · intro h
    have hstate := congrArg Block.state h
    rw [indexBlock_state, indexBlock_state] at hstate
    split_ifs at hstate <;> omega
  · rintro (rfl | ⟨hi, hj⟩)
    · rfl
    · rw [indexBlock, indexBlock, List.getElem?_eq_none hi, List.getElem?_eq_none hj]

/-- The last slot of a cell names its block exactly where the padding agrees. -/
lemma lastSlot_block_iff (q : Fin 4096) :
    s.indexBlock (s.held (s.lastSlot q)) = s.block q ↔ s.PaddingAgreesAt q := by
  have hcell : s.held q = s.indices q := by rw [held, dif_pos q.isLt]
  unfold PaddingAgreesAt lastSlot block
  by_cases hq : 4096 + q.val < s.wordCount * (32 / s.bits)
  · have hpadding : s.held (4096 + q.val) = s.padding q := by
      rw [held, dif_neg (by omega), Nat.add_sub_cancel_left]
    rw [if_pos hq, hpadding, indexBlock_eq_iff]
    exact ⟨fun h _ => h, fun h => h hq⟩
  · rw [if_neg hq, hcell]
    exact iff_of_true rfl fun h => absurd h hq

end SavedSubChunk

end ChunkViewer
