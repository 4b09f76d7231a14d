import ChunkViewer.Proofs.SliceReads
import ChunkViewer.Spec.NBTTree

/-!
# Decoding undoes encoding

Where the encoding of a tree stands in a slice of at most 32768 bytes, the parser reads the
tag of the tree and stops behind it. The bound keeps every offset below 32768 and every
length positive as a signed 16-bit number.
-/

namespace ChunkViewer

open ExceptRun

/-! ## Bytes at an offset -/

/-- The bytes stand in the slice at the offset. -/
def Slice.At (s : Slice) (off : ℕ) (bs : List UInt8) : Prop := bs <+: s.drop off

namespace Slice

lemma at_append {s : Slice} {off : ℕ} {as bs : List UInt8} :
    s.At off (as ++ bs) ↔ s.At off as ∧ s.At (off + as.length) bs := by
  unfold Slice.At
  rw [← List.drop_drop]
  constructor
  · rintro ⟨rest, h⟩
    rw [← h, List.append_assoc]
    exact ⟨List.prefix_append _ _, by rw [List.drop_left]; exact List.prefix_append _ _⟩
  · rintro ⟨⟨rest, h⟩, hbs⟩
    rw [← h, List.drop_left] at hbs
    rw [← h]
    exact (List.prefix_append_right_inj as).mpr hbs

lemma at_cons {s : Slice} {off : ℕ} {b : UInt8} {bs : List UInt8} :
    s.At off (b :: bs) ↔ s[off]? = some b ∧ s.At (off + 1) bs := by
  rw [← List.singleton_append, at_append, List.length_singleton]
  apply and_congr_left'
  unfold Slice.At
  rw [List.singleton_prefix_iff_head?_eq_some, List.head?_drop]

lemma at_middle (p bs q : Slice) : Slice.At (p ++ bs ++ q) p.length bs := by
  unfold Slice.At
  rw [List.append_assoc, List.drop_left]
  exact List.prefix_append _ _

lemma At.le_length {s : Slice} {off : ℕ} {bs : List UInt8} (h : s.At off bs) (hbs : bs ≠ []) :
    off + bs.length ≤ s.length := by
  have hlen := h.length_le
  have hpos := List.length_pos_iff.mpr hbs
  rw [List.length_drop] at hlen
  omega

lemma At.charAt {s : Slice} {off : ℕ} {b : UInt8} {bs : List UInt8} (h : s.At off (b :: bs)) :
    s.charAt off = .ok b :=
  charAt_natCast (at_cons.mp h).1

lemma At.window {s : Slice} {off : ℕ} {bs : List UInt8} (h : s.At off bs) :
    s.window off bs.length = bs :=
  (List.prefix_iff_eq_take.mp h).symm

end Slice

lemma parseShort_at {s : Slice} {off n : ℕ} (h : s.At off (LittleEndian.bytes 2 n))
    (hoff : off < 32768) : parseShort s off = .ok (BitVec.ofNat 16 n) := by
  have hwindow := h.window
  have hlen := h.le_length (by simp [LittleEndian.bytes])
  rw [LittleEndian.length_bytes] at hwindow hlen
  rw [parseShort_eq_of_lt hoff hlen, hwindow, LittleEndian.toNat_bytes]
  congr 1
  apply BitVec.eq_of_toNat_eq
  rw [BitVec.toNat_ofNat, BitVec.toNat_ofNat]
  exact Nat.mod_mod_of_dvd n (by norm_num)

lemma parseInt32_at {s : Slice} {off n : ℕ} (h : s.At off (LittleEndian.bytes 4 n))
    (hoff : off < 32768) : parseInt32 s off = .ok (BitVec.ofNat 32 n) := by
  have hwindow := h.window
  have hlen := h.le_length (by simp [LittleEndian.bytes])
  rw [LittleEndian.length_bytes] at hwindow hlen
  rw [parseInt32_eq hlen (by omega), hwindow, LittleEndian.toNat_bytes]
  congr 1
  apply BitVec.eq_of_toNat_eq
  rw [BitVec.toNat_ofNat, BitVec.toNat_ofNat]
  exact Nat.mod_mod_of_dvd n (by norm_num)

lemma parseChars_at {s : Slice} {off : ℕ} {bs : List UInt8} (h : s.At off bs)
    (hmax : off + bs.length < 4294967296) (text : String) :
    parseChars s bs.length off text = .ok (off + bs.length, text ++ textOf bs) := by
  induction bs generalizing off text with
  | nil =>
    rw [List.length_nil, parseChars, Nat.add_zero]
    congr 2
    exact (String.append_empty).symm
  | cons b bs ih =>
    rw [List.length_cons] at hmax ⊢
    have hnext : toUInt32 ((off : ℤ) + 1) = off + 1 := toUInt32_natCast (n := off + 1) (by omega)
    have hpush : text.push (Char.ofUInt8 b) ++ textOf bs = text ++ textOf (b :: bs) := by
      apply String.toList_inj.mp
      simp [textOf]
    rw [parseChars, h.charAt, ok_bind, hnext, ih (Slice.at_cons.mp h).2 (by omega), hpush,
      Nat.add_right_comm, Nat.add_assoc]

/-! ## Headers and payloads -/

lemma typeId_type (t : Tree) : NBTType.ofByte t.typeId = .ok t.type := by
  cases t <;> rfl

lemma typeId_ne_zero (t : Tree) : t.typeId ≠ 0 := by
  cases t <;> simp [Tree.typeId]

lemma parseNBTHeader_at {s : Slice} {off : ℕ} {t : Tree} {name : List UInt8}
    (h : s.At off (encodeHeader t.typeId name)) (hs : s.length ≤ 32768) :
    parseNBTHeader s off NBTTag.new true =
      .ok (off + (encodeHeader t.typeId name).length, NBTTag.named t.type (textOf name)) := by
  have hlen := h.le_length (by simp [encodeHeader])
  unfold encodeHeader at h hlen ⊢
  obtain ⟨-, hrest⟩ := Slice.at_cons.mp h
  obtain ⟨hlength, hname⟩ := Slice.at_append.mp hrest
  simp only [List.length_cons, List.length_append, LittleEndian.length_bytes] at hlen hname ⊢
  have hsigned : (BitVec.ofNat 16 name.length).toInt.toNat = name.length := by
    rw [toInt_ofNat_of_lt (by omega), Int.toNat_natCast]
  unfold parseNBTHeader parseTypeByte
  rw [if_pos rfl, h.charAt, ok_bind, typeId_type, ok_bind, ok_bind, (toUInt32_add (by omega)).1]
  simp only [parseShort_at hlength (by omega), ok_bind, hsigned,
    (@toUInt32_add (off + 1) (by omega)).2.1, parseChars_at hname (by omega),
    String.empty_append]
  unfold NBTTag.named
  congr 2
  omega

lemma parseString_at {s : Slice} {off : ℕ} {text : List UInt8}
    (h : s.At off (LittleEndian.bytes 2 text.length ++ text)) (hs : s.length ≤ 32768) :
    parseString s off = .ok (off + (2 + text.length), textOf text) := by
  have hlen := h.le_length (by simp [LittleEndian.bytes])
  obtain ⟨hlength, htext⟩ := Slice.at_append.mp h
  rw [LittleEndian.length_bytes] at htext
  rw [List.length_append, LittleEndian.length_bytes] at hlen
  have hsigned : toUInt32 (BitVec.ofNat 16 text.length).toInt = text.length := by
    rw [toInt_ofNat_of_lt (by omega)]
    exact toUInt32_natCast (by omega)
  unfold parseString
  rw [parseShort_at hlength (by omega), ok_bind, hsigned, (toUInt32_add (by omega)).2.1]
  dsimp only
  rw [Nat.min_eq_left (by omega), parseChars_at htext (by omega), ok_bind]
  simp only [if_neg (show ¬2147483648 ≤ text.length by omega), String.empty_append, Nat.add_assoc]

lemma parseNBTPayload_leaf {s : Slice} {fuel off : ℕ} {t : Tree} (name : List UInt8)
    (h : s.At off t.payload) (hs : s.length ≤ 32768) (hleaf : t.type ≠ .COMPOUND) :
    parseNBTPayload s (fuel + 1) off (NBTTag.named t.type (textOf name)) =
      .ok (off + t.payload.length, t.decode name) := by
  have hadd : ∀ k, off + k ≤ s.length → toUInt32 ((off : ℤ) + (k : ℕ)) = off + k := by
    intro k hk
    exact toUInt32_natCast (n := off + k) (by omega)
  cases t with
  | byte n =>
    have hlen := h.le_length (by simp [Tree.payload, LittleEndian.bytes])
    have hbyte : (UInt8.ofNat (BitVec.ofInt 8 n).toNat).toBitVec = BitVec.ofInt 8 n := by
      apply BitVec.eq_of_toNat_eq
      rw [UInt8.toNat_toBitVec, UInt8.toNat_ofNat']
      exact Nat.mod_eq_of_lt (BitVec.isLt _)
    simp only [Tree.payload, LittleEndian.length_bytes] at h hlen ⊢
    rw [parseNBTPayload]
    simp only [NBTTag.named, Tree.type, h.charAt, ok_bind, hbyte]
    rw [← hadd 1 hlen]
    rfl
  | short n =>
    have hlen := h.le_length (by simp [Tree.payload, LittleEndian.bytes])
    simp only [Tree.payload, LittleEndian.length_bytes] at h hlen ⊢
    rw [parseNBTPayload]
    simp only [NBTTag.named, Tree.type, parseShort_at h (by omega), ok_bind, BitVec.ofNat_toNat,
      BitVec.setWidth_eq]
    rw [← hadd 2 hlen]
    rfl
  | int n =>
    have hlen := h.le_length (by simp [Tree.payload, LittleEndian.bytes])
    simp only [Tree.payload, LittleEndian.length_bytes] at h hlen ⊢
    rw [parseNBTPayload]
    simp only [NBTTag.named, Tree.type, parseInt32_at h (by omega), ok_bind, BitVec.ofNat_toNat,
      BitVec.setWidth_eq]
    rw [← hadd 4 hlen]
    rfl
  | string text =>
    simp only [Tree.payload] at h ⊢
    rw [parseNBTPayload]
    simp only [NBTTag.named, Tree.type, parseString_at h hs, ok_bind, List.length_append,
      LittleEndian.length_bytes]
    rfl
  | compound es => exact absurd rfl hleaf

/-! ## Trees -/

/-- By induction on the fuel, of which a tree needs no more than its encoding is long. -/
lemma parse_at {s : Slice} (hs : s.length ≤ 32768) (fuel : ℕ) :
    (∀ (t : Tree) (name : List UInt8) (off : ℕ), s.At off t.payload →
      t.payload.length + 2 ≤ fuel →
      parseNBTPayload s fuel off (NBTTag.named t.type (textOf name)) =
        .ok (off + t.payload.length, t.decode name)) ∧
    (∀ (es : Entries) (tag : NBTTag) (off : ℕ), s.At off (es.encode ++ [0]) →
      es.encode.length + 2 ≤ fuel →
      compoundLoop s fuel off tag = .ok (off + (es.encode.length + 1), es.addTo tag)) ∧
    (∀ (t : Tree) (name : List UInt8) (off : ℕ), s.At off (t.encode name) →
      (t.encode name).length ≤ fuel →
      parseNBTTag s fuel off NBTTag.new true =
        .ok (off + (t.encode name).length, t.decode name)) := by
  induction fuel with
  | zero =>
    refine ⟨fun _ _ _ _ h => absurd h (by omega), fun _ _ _ _ h => absurd h (by omega), ?_⟩
    intro t name off _ h
    simp [Tree.encode, encodeHeader] at h
  | succ fuel ih =>
    obtain ⟨ihPayload, ihLoop, ihTag⟩ := ih
    refine ⟨?_, ?_, ?_⟩
    · intro t name off h hfuel
      by_cases hleaf : t.type = .COMPOUND
      · cases t with
        | compound es =>
          simp only [Tree.payload, List.length_append, List.length_singleton] at h hfuel ⊢
          rw [parseNBTPayload]
          exact ihLoop es _ off h (by omega)
        | byte n => exact absurd hleaf (by simp [Tree.type])
        | short n => exact absurd hleaf (by simp [Tree.type])
        | int n => exact absurd hleaf (by simp [Tree.type])
        | string text => exact absurd hleaf (by simp [Tree.type])
      · exact parseNBTPayload_leaf name h hs hleaf
    · intro es tag off h hfuel
      have hlen := h.le_length (by simp)
      rw [compoundLoop]
      cases es with
      | nil =>
        simp only [Entries.encode, List.nil_append, List.length_nil, List.length_singleton] at h hlen ⊢
        rw [h.charAt, ok_bind, if_neg (not_not.mpr rfl), (toUInt32_add (by omega)).1]
        rfl
      | cons name t rest =>
        rw [Entries.encode, List.append_assoc] at h
        change s.At off (t.encode name ++ (rest.encode ++ [0])) at h
        obtain ⟨htag, hrest⟩ := Slice.at_append.mp h
        have hsize : (Entries.cons name t rest).encode.length =
            (t.encode name).length + rest.encode.length := by
          rw [Entries.encode, List.length_append]
          rfl
        have hpos : 0 < (t.encode name).length := by simp [Tree.encode, encodeHeader]
        have hfirst : s.charAt off = .ok t.typeId := by
          have hbytes : s.At off
              (t.typeId :: (LittleEndian.bytes 2 name.length ++ name ++ t.payload)) := htag
          exact hbytes.charAt
        rw [hsize] at hfuel ⊢
        rw [hfirst, ok_bind, if_pos (typeId_ne_zero t), ihTag t name off htag (by omega), ok_bind]
        dsimp only
        rw [ihLoop rest _ _ hrest (by omega), Entries.addTo]
        congr 2
        omega
    · intro t name off h hfuel
      unfold Tree.encode at h hfuel ⊢
      obtain ⟨hheader, hpayload⟩ := Slice.at_append.mp h
      have hsize : 3 ≤ (encodeHeader t.typeId name).length := by
        simp only [encodeHeader, List.length_cons, List.length_append, LittleEndian.length_bytes]
        omega
      rw [List.length_append] at hfuel ⊢
      rw [parseNBTTag, parseNBTHeader_at hheader hs, ok_bind]
      dsimp only
      rw [ihPayload t name _ hpayload (by omega), Nat.add_assoc]

/-! ## The decoded tag -/

lemma Entries.addTo_type (es : Entries) (tag : NBTTag) :
    (es.addTo tag).type = tag.type ∧ (es.addTo tag).name = tag.name := by
  cases es with
  | nil => exact ⟨rfl, rfl⟩
  | cons name t rest =>
    rw [Entries.addTo]
    exact Entries.addTo_type rest _

lemma Tree.name_decode (t : Tree) (name : List UInt8) : (t.decode name).name = textOf name := by
  cases t with
  | byte n => rfl
  | short n => rfl
  | int n => rfl
  | string text => rfl
  | compound es =>
    rw [Tree.decode, (es.addTo_type _).2]
    rfl

lemma NBTTag.lookup_addInnerTag (tag inner : NBTTag) (key : String) :
    (tag.addInnerTag inner).innerTags.lookup key =
      if key = inner.name then some inner else tag.innerTags.lookup key :=
  AssocList.lookup_assign _ _ _ _

lemma Entries.lookup_addTo (es : Entries) (tag : NBTTag) {key : String} (h : es.hasKey key = false) :
    (es.addTo tag).innerTags.lookup key = tag.innerTags.lookup key := by
  cases es with
  | nil => rfl
  | cons name t rest =>
    rw [Entries.hasKey, Bool.or_eq_false_iff, beq_eq_false_iff_ne] at h
    rw [Entries.addTo, Entries.lookup_addTo rest _ h.2, NBTTag.lookup_addInnerTag, Tree.name_decode,
      if_neg (fun e => h.1 e.symm)]

lemma Entries.decodesLast_none (es : Entries) {key : String} (h : es.hasKey key = false) :
    es.DecodesLast key none := by
  cases es with
  | nil => rfl
  | cons name t rest =>
    rw [Entries.hasKey, Bool.or_eq_false_iff, beq_eq_false_iff_ne] at h
    rw [Entries.DecodesLast, if_neg (by rw [h.2]; simp), if_neg h.1]

mutual

lemma Tree.decode_decodes (t : Tree) (name : List UInt8) :
    t.Decodes (textOf name) (t.decode name) := by
  cases t with
  | byte n => exact ⟨rfl, rfl, rfl⟩
  | short n => exact ⟨rfl, rfl, rfl⟩
  | int n => exact ⟨rfl, rfl, rfl⟩
  | string text => exact ⟨rfl, rfl, rfl⟩
  | compound es =>
    obtain ⟨htype, hname⟩ := es.addTo_type (NBTTag.named .COMPOUND (textOf name))
    rw [Tree.Decodes, Tree.decode, htype, hname]
    refine ⟨rfl, rfl, ?_⟩
    intro key
    by_cases hkey : es.hasKey key = true
    · exact Entries.addTo_decodesLast es _ hkey
    · rw [Bool.not_eq_true] at hkey
      rw [Entries.lookup_addTo es _ hkey]
      exact Entries.decodesLast_none es hkey

lemma Entries.addTo_decodesLast (es : Entries) (tag : NBTTag) {key : String}
    (h : es.hasKey key = true) : es.DecodesLast key ((es.addTo tag).innerTags.lookup key) := by
  cases es with
  | nil => exact absurd h (by simp [Entries.hasKey])
  | cons name t rest =>
    rw [Entries.addTo, Entries.DecodesLast]
    by_cases hrest : rest.hasKey key = true
    · rw [if_pos hrest]
      exact Entries.addTo_decodesLast rest _ hrest
    · rw [if_neg hrest]
      rw [Bool.not_eq_true] at hrest
      rw [Entries.hasKey, hrest, Bool.or_false, beq_iff_eq] at h
      subst h
      rw [if_pos rfl, Entries.lookup_addTo rest _ hrest, NBTTag.lookup_addInnerTag,
        Tree.name_decode, if_pos rfl]
      exact ⟨_, rfl, Tree.decode_decodes t name⟩

end

/-- Decoding undoes encoding, wherever the encoding stands. -/
theorem nbt_decode_encode (t : Tree) (name : List UInt8) (p q : Slice)
    (hlen : (p ++ t.encode name ++ q).length ≤ 32768) {fuel : ℕ}
    (hfuel : (t.encode name).length ≤ fuel) :
    ∃ tag, parseNBTTag (p ++ t.encode name ++ q) fuel p.length NBTTag.new true =
        .ok (p.length + (t.encode name).length, tag) ∧
      t.Decodes (textOf name) tag := by
  have hat := Slice.at_middle p (t.encode name) q
  exact ⟨t.decode name, (parse_at hlen fuel).2.2 t name p.length hat hfuel, t.decode_decodes name⟩

/-- A compound in which a name occurs twice. -/
theorem nbt_decode_encode_twice :
    ∃ tag inner, parseNBTTag ([7] ++ (Tree.compound (.cons [97] (.byte 1) (.cons [97] (.short (-2))
        .nil))).encode [98] ++ [9]) 32 1 NBTTag.new true = .ok (17, tag) ∧
      tag.innerTags.lookup "a" = some inner ∧ inner.shortVal = some (BitVec.ofInt 16 (-2)) := by
  obtain ⟨tag, hparse, -, -, hinner⟩ := nbt_decode_encode
    (.compound (.cons [97] (.byte 1) (.cons [97] (.short (-2)) .nil))) [98] [7] [9] (by decide)
    (show _ ≤ 32 by decide)
  have ha := hinner "a"
  rw [Entries.DecodesLast, if_pos (by decide), Entries.DecodesLast, if_neg (by decide),
    if_pos (by decide)] at ha
  obtain ⟨inner, hlookup, -, -, hval⟩ := ha
  exact ⟨tag, inner, hparse, hlookup, hval⟩

end ChunkViewer
