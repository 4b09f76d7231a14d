import ChunkViewer.Proofs.NBTRoundTrip

/-!
# Text behind its length

A tag name and a `STRING` payload are both stored behind a 16-bit length, which is read as a
signed number. A name of negative length has no characters; as the `uint32_t` of a `STRING`
the length is sign extended and passes the end of the slice.
-/

namespace ChunkViewer

open ExceptRun

/-- The unsigned length that is stored at an offset. -/
def textLength (s : Slice) (offset : ℕ) : ℕ := LittleEndian.toNat (s.window offset 2)

/-- The text behind the length at an offset and the offset behind it. The slice bound stops a
text that is not all there. -/
def textField (s : Slice) (offset : ℕ) : Exec (ℕ × String) :=
  let n := textLength s offset
  if offset + 2 + n ≤ s.length then .ok (offset + 2 + n, textOf (s.window (offset + 2) n))
  else .error .assertion

/-- The name that is read behind a type byte or without one, and the new offset. -/
def readName (s : Slice) (offset : ℕ) (tag : NBTTag) (parseType : Bool) : Exec (ℕ × String) :=
  (parseNBTHeader s offset tag parseType).map fun p => (p.1, p.2.name)

/-- The string that the payload of a tag is read as, and the new offset. -/
def readString (s : Slice) (fuel offset : ℕ) (tag : NBTTag) : Exec (ℕ × String) :=
  (parseNBTPayload s fuel offset tag).map fun p => (p.1, p.2.stringVal)

/-- A tag name and a `STRING` payload at the offset are both read as the text there. -/
structure ReadsText (s : Slice) (offset : ℕ) : Prop where
  name : ∀ start tag parseType type, parseTypeByte s start tag.type parseType = .ok (offset, type) →
    readName s start tag parseType = textField s offset
  string : ∀ fuel tag, tag.type = .STRING → readString s (fuel + 1) offset tag = textField s offset

lemma textLength_lt (s : Slice) (offset : ℕ) : textLength s offset < 65536 := by
  have hlt := LittleEndian.toNat_lt (s.window offset 2)
  have hlen : (s.window offset 2).length ≤ 2 := List.length_take_le _ _
  exact hlt.trans_le (Nat.pow_le_pow_right (show 0 < 256 by norm_num) hlen)

/-! ## Characters -/

lemma parseChars_assertion {s : Slice} {count o : ℕ} (text : String) (ho : o ≤ s.length)
    (h : s.length < o + count) (hmax : o + count < 4294967280) :
    parseChars s count o text = .error .assertion := by
  induction count generalizing o text with
  | zero => omega
  | succ count ih =>
    rw [parseChars]
    by_cases hread : o < s.length
    · rw [charAt_natCast (List.getElem?_eq_getElem hread), ok_bind, (toUInt32_add (by omega)).1]
      exact ih _ (by omega) (by omega) (by omega)
    · rw [charAt_assertion (Or.inr (by omega)), error_bind]

lemma parseChars_field {s : Slice} {offset : ℕ} (hoffset : offset < 32767)
    (hlen : offset + 2 ≤ s.length) :
    parseChars s (textLength s offset) (offset + 2) "" = textField s offset := by
  have hlt := textLength_lt s offset
  unfold textField
  dsimp only
  by_cases hfits : offset + 2 + textLength s offset ≤ s.length
  · have hwindow := length_window hfits
    have hat : s.At (offset + 2) (s.window (offset + 2) (textLength s offset)) :=
      List.take_prefix _ _
    have hrun := parseChars_at hat (by omega) ""
    rw [hwindow, String.empty_append] at hrun
    rw [if_pos hfits, hrun]
  · rw [if_neg hfits]
    exact parseChars_assertion "" hlen (by omega) (by omega)

lemma parseShort_field {s : Slice} {offset : ℕ} (hoffset : offset < 32767)
    (hlen : offset + 2 ≤ s.length) :
    parseShort s offset = .ok (BitVec.ofNat 16 (textLength s offset)) :=
  parseShort_eq_of_lt (by omega) hlen

/-! ## Names and strings -/

lemma readName_eq {s : Slice} {start offset : ℕ} (tag : NBTTag) {parseType : Bool} {type : NBTType}
    (hstart : parseTypeByte s start tag.type parseType = .ok (offset, type)) (hoffset : offset < 32767)
    (hlen : offset + 2 ≤ s.length) : readName s start tag parseType =
      parseChars s (BitVec.ofNat 16 (textLength s offset)).toInt.toNat (offset + 2) "" := by
  unfold readName parseNBTHeader
  rw [hstart, ok_bind]
  dsimp only
  rw [parseShort_field hoffset hlen, ok_bind, (toUInt32_add (by omega)).2.1]
  cases parseChars s (BitVec.ofNat 16 (textLength s offset)).toInt.toNat (offset + 2) "" with
  | error e => rfl
  | ok p => rfl

lemma readString_eq {s : Slice} {offset : ℕ} (fuel : ℕ) {tag : NBTTag} (htype : tag.type = .STRING) :
    readString s (fuel + 1) offset tag = parseString s offset := by
  unfold readString
  rw [parseNBTPayload, htype]
  dsimp only
  cases parseString s offset with
  | error e => rfl
  | ok p => rfl

lemma parseString_eq {s : Slice} {offset n : ℕ} (hoffset : offset < 32767)
    (hlen : offset + 2 ≤ s.length)
    (hn : toUInt32 (BitVec.ofNat 16 (textLength s offset)).toInt = n) : parseString s offset =
      (parseChars s (min n 2147483648) (offset + 2) "" >>= fun p =>
        if 2147483648 ≤ n then .error (.undefined .loopCounter) else .ok p) := by
  unfold parseString
  rw [parseShort_field hoffset hlen, ok_bind, hn, (toUInt32_add (by omega)).2.1]

lemma parseString_field {s : Slice} {offset : ℕ} (hoffset : offset < 32767)
    (hlen : offset + 2 ≤ s.length) (hn : textLength s offset < 32768) :
    parseString s offset = textField s offset := by
  have hsigned : toUInt32 (BitVec.ofNat 16 (textLength s offset)).toInt = textLength s offset := by
    rw [toInt_ofNat_of_lt (by omega)]
    exact toUInt32_natCast (by omega)
  rw [parseString_eq hoffset hlen hsigned, Nat.min_eq_left (by omega), parseChars_field hoffset hlen]
  simp only [if_neg (show ¬2147483648 ≤ textLength s offset by omega)]
  cases textField s offset with
  | error e => rfl
  | ok p => rfl

lemma readName_negative {s : Slice} {offset : ℕ} (tag : NBTTag) (hoffset : offset < 32767)
    (hlen : offset + 2 ≤ s.length) (hn : 32768 ≤ textLength s offset) :
    readName s offset tag false = .ok (offset + 2, "") := by
  have hlt := textLength_lt s offset
  have hsigned : (BitVec.ofNat 16 (textLength s offset)).toInt ≤ 0 :=
    (toInt16_lt_zero_iff.mpr (by omega)).le
  have hstart : parseTypeByte s offset tag.type false = .ok (offset, tag.type) := rfl
  rw [readName_eq tag hstart hoffset hlen, Int.toNat_of_nonpos hsigned, parseChars]

/-- A string of negative length goes on to the slice bound. -/
theorem parse_string_negative {s : Slice} {offset : ℕ} (hoffset : offset < 32767)
    (hlen : offset + 2 ≤ s.length) (hn : 32768 ≤ textLength s offset)
    (hsize : s.length ≤ 2147483648) : parseString s offset = .error .assertion := by
  have hlt := textLength_lt s offset
  have hsigned : toUInt32 (BitVec.ofNat 16 (textLength s offset)).toInt =
      textLength s offset + 4294901760 := by
    have hmod : textLength s offset % 65536 = textLength s offset := Nat.mod_eq_of_lt hlt
    have hneg := toInt16_neg (show 32768 ≤ textLength s offset % 65536 by omega)
    unfold toInt16 at hneg
    rw [hneg, hmod]
    unfold toUInt32
    omega
  rw [parseString_eq hoffset hlen hsigned, Nat.min_eq_right (by omega),
    parseChars_assertion "" hlen (by omega) (by omega), error_bind]

/-- Names and strings are read alike, as their bytes, exactly up to 32767 of them. -/
theorem text_field_reads {s : Slice} {offset : ℕ} (hoffset : offset < 32767)
    (hlen : offset + 2 ≤ s.length) : ReadsText s offset ↔ textLength s offset < 32768 := by
  constructor
  · intro hreads
    by_contra hn
    have hfield := hreads.name offset NBTTag.new false .END rfl
    rw [readName_negative NBTTag.new hoffset hlen (by omega)] at hfield
    unfold textField at hfield
    dsimp only at hfield
    by_cases hfits : offset + 2 + textLength s offset ≤ s.length
    · rw [if_pos hfits] at hfield
      have hend := congrArg Prod.fst (Except.ok.inj hfield)
      dsimp only at hend
      omega
    · rw [if_neg hfits] at hfield
      exact absurd hfield (by simp)
  · intro hn
    refine ⟨?_, ?_⟩
    · intro start tag parseType type hstart
      rw [readName_eq tag hstart hoffset hlen, toInt_ofNat_of_lt (by omega), Int.toNat_natCast]
      exact parseChars_field hoffset hlen
    · intro fuel tag htype
      rw [readString_eq fuel htype]
      exact parseString_field hoffset hlen hn

/-- Two characters behind their length. -/
theorem text_field_reads_two : ReadsText [2, 0, 104, 105] 0 :=
  (text_field_reads (by decide) (by decide)).mpr (by decide)

/-- A length of 32768 with nothing behind it is no error in a name. -/
theorem text_field_of_negative_length : ¬ReadsText [0, 128] 0 := by
  intro hreads
  have hname := hreads.name 0 NBTTag.new false .END rfl
  have hempty : readName [0, 128] 0 NBTTag.new false = .ok (2, "") := rfl
  have hstop : textField [0, 128] 0 = .error .assertion := rfl
  rw [hempty, hstop] at hname
  exact absurd hname (by simp)

end ChunkViewer
