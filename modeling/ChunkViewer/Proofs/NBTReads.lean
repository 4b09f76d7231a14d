import ChunkViewer.Proofs.NBTShift
import ChunkViewer.Spec.TagParts

/-!
# Reads of the tag parser

Each read of the parser outside its recursion returns, ends at the assertion of the slice or, for
a `LONG` and a type byte, comes to bytes without a meaning. Names and headers are read exactly
where the bytes say that they stand.
-/

namespace ChunkViewer

open ExceptRun

/-! ## Numbers and texts -/

lemma parseShort_cases (s : Slice) (o : ℕ) :
    (∃ v, parseShort s o = .ok v) ∨ parseShort s o = .error .assertion := by
  by_cases hmod : o % 65536 < 32768
  · by_cases hlen : o % 65536 + 2 ≤ s.length
    · exact Or.inl ⟨_, parseShort_eq hmod hlen⟩
    · right
      unfold parseShort
      rw [toInt16_of_lt hmod]
      exact parseLittleEndian_assertion s _ 2 0 0 (by norm_num) (by norm_num) (by omega) (by omega)
        (Or.inr (by omega))
  · exact Or.inr (parseShort_assertion (by omega))

lemma parseInt32_cases (s : Slice) {o : ℕ} (ho : o + 4 ≤ 2147483648) :
    (o + 4 ≤ s.length ∧ ∃ v, parseInt32 s o = .ok v) ∨ parseInt32 s o = .error .assertion := by
  by_cases hlen : o + 4 ≤ s.length
  · exact Or.inl ⟨hlen, _, parseInt32_eq hlen ho⟩
  · right
    unfold parseInt32
    rw [toInt32_of_lt (by omega)]
    exact parseLittleEndian_assertion s _ 4 0 0 (by norm_num) (by norm_num) (by omega) (by omega)
      (Or.inr (by omega))

/-- A number of more than four bytes is never read. -/
lemma parseLittleEndian_wide {w : ℕ} (s : Slice) (o count i : ℕ) (r : BitVec w) (hi : i ≤ 4)
    (hc : 4 < i + count) (hmax : o + 5 ≤ 2147483648) :
    parseLittleEndian w s o count i r =
      .error (if o + 5 ≤ s.length then .undefined .byteShift else .assertion) := by
  induction count generalizing i r with
  | zero => omega
  | succ count ih =>
    rw [parseLittleEndian, asInt_ok (by omega) (by omega), ok_bind]
    by_cases hlt : o + i < s.length
    · have hget : s[((o : ℤ) + i).toNat]? = some s[o + i] := by
        rw [show ((o : ℤ) + i).toNat = o + i by omega, List.getElem?_eq_getElem hlt]
      rw [charAt_eq_ok.mpr ⟨by omega, hget⟩, ok_bind]
      by_cases hshift : 32 ≤ i * 8
      · rw [if_pos hshift, if_pos (by omega)]
      · rw [if_neg hshift]
        exact ih (i + 1) _ (by omega) (by omega)
    · rw [charAt_assertion (Or.inr (by omega)), error_bind, if_neg (by omega)]

lemma parseLong_cases (s : Slice) (o : ℕ) :
    (o % 65536 < 32768 ∧ o % 65536 + 5 ≤ s.length ∧
      parseLong s o = .error (.undefined .byteShift)) ∨ parseLong s o = .error .assertion := by
  unfold parseLong
  by_cases hmod : o % 65536 < 32768
  · rw [toInt16_of_lt hmod, parseLittleEndian_wide s _ 8 0 0 (by omega) (by omega) (by omega)]
    by_cases hlen : o % 65536 + 5 ≤ s.length
    · exact Or.inl ⟨hmod, hlen, by rw [if_pos hlen]⟩
    · exact Or.inr (by rw [if_neg hlen])
  · right
    have hneg := toInt16_neg (show 32768 ≤ o % 65536 by omega)
    rw [parseLittleEndian, asInt_ok (by omega) (by omega), ok_bind,
      charAt_assertion (Or.inl (by omega)), error_bind]

lemma parseChars_cases {s : Slice} {count o : ℕ} (text : String) (ho : OnPage s o)
    (hsize : s.length < 1073741824) :
    (∃ text', parseChars s count o text = .ok (o + count, text') ∧ OnPage s (o + count) ∧
      (0 < count → o + count ≤ s.length)) ∨ parseChars s count o text = .error .assertion := by
  induction count generalizing o text with
  | zero => exact Or.inl ⟨text, rfl, ho, fun h => absurd h (lt_irrefl 0)⟩
  | succ count ih =>
    rw [parseChars]
    cases hc : s.charAt o with
    | error e =>
      rw [(charAt_error hc).1]
      exact Or.inr rfl
    | ok c =>
      have hlt := (@charAt_moved [] s [] o c hc).1
      rw [ok_bind, (toUInt32_add (by omega)).1]
      have hnext : OnPage s (o + 1) := onPage_of_le (by omega)
      rcases ih (text.push (Char.ofUInt8 c)) hnext with ⟨text', htext, hpage, hle⟩ | herr
      · have hadd : o + 1 + count = o + (count + 1) := by omega
        rw [hadd] at htext hpage hle
        refine Or.inl ⟨text', htext, hpage, fun _ => ?_⟩
        by_cases hz : 0 < count
        · exact hle hz
        · omega
      · exact Or.inr herr

lemma parseChars_ok {s : Slice} {count o : ℕ} (text : String)
    (h : 0 < count → o + count ≤ s.length) (hsize : s.length < 1073741824) :
    ∃ text', parseChars s count o text = .ok (o + count, text') := by
  induction count generalizing o text with
  | zero => exact ⟨text, rfl⟩
  | succ count ih =>
    have hend := h (Nat.succ_pos count)
    obtain ⟨text', htext⟩ := @ih (o + 1) (text.push (Char.ofUInt8 s[o])) fun _ => by omega
    refine ⟨text', ?_⟩
    rw [parseChars, charAt_natCast (List.getElem?_eq_getElem (by omega)), ok_bind,
      (toUInt32_add (by omega)).1, htext, Nat.add_assoc, Nat.add_comm 1]

lemma nameAt_cases {s : Slice} {o : ℕ} (ho : OnPage s o) (hsize : s.length < 1073741824) :
    (∃ n text, parseShort s o = .ok n ∧
      parseChars s n.toInt.toNat (o + 2) "" = .ok (o + 2 + n.toInt.toNat, text) ∧
      text.length = n.toInt.toNat ∧ NameAt s o (o + 2 + n.toInt.toNat) ∧
      OnPage s (o + 2 + n.toInt.toNat)) ∨
    parseShort s o = .error .assertion ∨
    ∃ n, parseShort s o = .ok n ∧
      parseChars s n.toInt.toNat (o + 2) "" = .error .assertion := by
  rcases parseShort_cases s o with ⟨n, hn⟩ | herr
  · have hpage := ho.add (parseShort_bytes hn).1 (show 2 ≤ 32768 by norm_num)
    rcases @parseChars_cases s n.toInt.toNat (o + 2) "" hpage hsize with
      ⟨text, htext, hend, hle⟩ | herr
    · have hlength := parseChars_length htext
      rw [String.length_empty, Nat.zero_add] at hlength
      exact Or.inl ⟨n, text, hn, htext, hlength, ⟨n, hn, fun hpos => hle (by omega), rfl⟩, hend⟩
    · exact Or.inr (Or.inr ⟨n, hn, herr⟩)
  · exact Or.inr (Or.inl herr)

lemma NameAt.read {s : Slice} {o o' : ℕ} (h : NameAt s o o') (ho : OnPage s o)
    (hsize : s.length < 1073741824) :
    OnPage s o' ∧ ∃ n text, parseShort s o = .ok n ∧ o' = o + 2 + n.toInt.toNat ∧
      parseChars s n.toInt.toNat (o + 2) "" = .ok (o', text) := by
  obtain ⟨n, hn, hle, rfl⟩ := h
  obtain ⟨text, htext⟩ :=
    @parseChars_ok s n.toInt.toNat (o + 2) "" (fun hpos => hle (by omega)) hsize
  have hlt := n.toInt_lt
  refine ⟨?_, n, text, hn, rfl, htext⟩
  rw [Nat.add_assoc]
  by_cases hpos : 0 < n.toInt
  · exact onPage_of_le (by have := hle hpos; omega)
  · exact ho.add (parseShort_bytes hn).1 (by omega)

lemma parseString_cases {s : Slice} {o : ℕ} (ho : OnPage s o) (hsize : s.length < 1073741824) :
    (∃ r, parseString s o = .ok r ∧ r.1 = o + 2 + r.2.length ∧ OnPage s r.1 ∧
      ∃ n, parseShort s o = .ok n ∧ 0 ≤ n.toInt ∧ NameAt s o r.1) ∨
      parseString s o = .error .assertion := by
  have hlt := ho.lt
  unfold parseString
  rcases parseShort_cases s o with ⟨n, hn⟩ | herr
  · have hpage := ho.add (parseShort_bytes hn).1 (show 2 ≤ 32768 by norm_num)
    rw [hn, ok_bind, (toUInt32_add (by omega)).2.1]
    dsimp only
    rcases @parseChars_cases s (min (toUInt32 n.toInt) 2147483648) (o + 2) "" hpage hsize with
      ⟨text, htext, hend, hle⟩ | herr
    · have hfew : ¬2147483648 ≤ toUInt32 n.toInt := by
        intro hmany
        rw [Nat.min_eq_right hmany] at hle
        have := hle (by norm_num)
        omega
      have hlow := n.le_toInt
      have hhigh := n.toInt_lt
      have hnat : toUInt32 n.toInt = n.toInt.toNat ∧ 0 ≤ n.toInt := by
        unfold toUInt32 at hfew ⊢
        omega
      rw [Nat.min_eq_left (by omega), hnat.1] at htext hend hle
      have hlength := parseChars_length htext
      rw [String.length_empty, Nat.zero_add] at hlength
      rw [Nat.min_eq_left (by omega), hnat.1, htext, ok_bind]
      dsimp only at hlength ⊢
      rw [if_neg (by omega)]
      exact Or.inl ⟨_, rfl, by dsimp only; omega, hend, n, rfl, hnat.2,
        n, hn, fun hpos => hle (by omega), rfl⟩
    · rw [herr]
      exact Or.inr rfl
  · rw [herr]
    exact Or.inr rfl

lemma NameAt.parseString {s : Slice} {o o' : ℕ} (h : NameAt s o o') {n : BitVec 16}
    (hn : parseShort s o = .ok n) (hpos : 0 ≤ n.toInt) (ho : OnPage s o)
    (hsize : s.length < 1073741824) :
    OnPage s o' ∧ ∃ text, ChunkViewer.parseString s o = .ok (o', text) := by
  have hlt := ho.lt
  obtain ⟨hpage, n', text, hn', -, htext⟩ := h.read ho hsize
  obtain rfl := Except.ok.inj (hn'.symm.trans hn)
  have hhigh := n'.toInt_lt
  have hnat : toUInt32 n'.toInt = n'.toInt.toNat := by
    unfold toUInt32
    omega
  refine ⟨hpage, text, ?_⟩
  unfold ChunkViewer.parseString
  rw [hn, ok_bind, hnat, (toUInt32_add (by omega)).2.1]
  dsimp only
  rw [Nat.min_eq_left (by omega), htext, ok_bind, if_neg (by omega)]

lemma parseNBTHeader_cases {s : Slice} {o : ℕ} (tag : NBTTag) (parseType : Bool) (ho : OnPage s o)
    (hsize : s.length < 1073741824) :
    (∃ r, parseNBTHeader s o tag parseType = .ok r ∧
      r.1 = o + (if parseType then 3 else 2) + r.2.name.length ∧ r.2.innerTags = tag.innerTags ∧
      OnPage s r.1 ∧ HeaderAt s o tag.type parseType r.1 r.2.type) ∨
    parseNBTHeader s o tag parseType = .error .assertion ∨
    (parseNBTHeader s o tag parseType = .error (.undefined .tagType) ∧
      (TagPart.tag o tag.type parseType).Undefined s) := by
  have hlt := ho.lt
  have hname : ∀ (field : ℕ) (type : NBTType), OnPage s field →
      (∃ r, (parseShort s field >>= fun length =>
        parseChars s length.toInt.toNat (toUInt32 (field + 2)) "" >>= fun p =>
          .ok (p.1, { tag with type := type, name := p.2 })) = .ok r ∧
        r.1 = field + 2 + r.2.name.length ∧ r.2.innerTags = tag.innerTags ∧ OnPage s r.1 ∧
        NameAt s field r.1 ∧ r.2.type = type) ∨
      (parseShort s field >>= fun length =>
        parseChars s length.toInt.toNat (toUInt32 (field + 2)) "" >>= fun p =>
          .ok (p.1, { tag with type := type, name := p.2 })) = .error .assertion := by
    intro field type hfield
    have hflt := hfield.lt
    rw [(toUInt32_add (by omega)).2.1]
    rcases nameAt_cases hfield hsize with
      ⟨n, text, hn, htext, hlength, hat, hend⟩ | herr | ⟨n, hn, herr⟩
    · rw [hn, ok_bind, htext, ok_bind]
      exact Or.inl ⟨_, rfl, by dsimp only; omega, rfl, hend, hat, rfl⟩
    · rw [herr]
      exact Or.inr rfl
    · rw [hn, ok_bind, herr]
      exact Or.inr rfl
  unfold parseNBTHeader parseTypeByte
  cases parseType with
  | false =>
    rw [if_neg (by decide), ok_bind]
    rcases hname o tag.type ho with ⟨r, hr, hnext, hinner, hpage, hat, htype⟩ | herr
    · exact Or.inl ⟨r, hr, hnext, hinner, hpage, htype ▸ HeaderAt.untyped tag.type hat⟩
    · exact Or.inr (Or.inl herr)
  | true =>
    rw [if_pos rfl]
    cases hid : s.charAt o with
    | error e =>
      rw [(charAt_error hid).1]
      exact Or.inr (Or.inl rfl)
    | ok id =>
      have hbyte := (@charAt_moved [] s [] o id hid).1
      have hget : s[o]? = some id := by simpa using (charAt_eq_ok.mp hid).2
      rcases NBTType.ofByte_cases id with ⟨-, type, hof⟩ | ⟨hlarge, hof⟩
      · rw [ok_bind, hof, ok_bind, ok_bind, (toUInt32_add (by omega)).1]
        rcases hname (o + 1) type (onPage_of_le (by omega)) with
          ⟨r, hr, hnext, hinner, hpage, hat, htype⟩ | herr
        · refine Or.inl ⟨r, hr, by rw [if_pos rfl]; omega, hinner, hpage, ?_⟩
          exact htype ▸ HeaderAt.typed tag.type hget hof hat
        · exact Or.inr (Or.inl herr)
      · rw [ok_bind, hof]
        exact Or.inr (Or.inr ⟨rfl, id, hget, hlarge⟩)

lemma HeaderAt.read {s : Slice} {o o' : ℕ} {type type' : NBTType} {parseType : Bool}
    (h : HeaderAt s o type parseType o' type') (ho : OnPage s o) (hsize : s.length < 1073741824)
    (tag : NBTTag) (htag : tag.type = type) :
    OnPage s o' ∧ ∃ tag', parseNBTHeader s o tag parseType = .ok (o', tag') ∧ tag'.type = type' := by
  have hlt := ho.lt
  unfold parseNBTHeader parseTypeByte
  cases h with
  | typed _ hget hof hat =>
    have hbyte := (List.getElem?_eq_some_iff.mp hget).1
    obtain ⟨hpage, n, text, hn, -, htext⟩ := hat.read (onPage_of_le (by omega)) hsize
    rw [if_pos rfl, charAt_natCast hget, ok_bind, hof, ok_bind, ok_bind, (toUInt32_add (by omega)).1]
    dsimp only
    rw [hn, ok_bind, (toUInt32_add (by omega)).2.1, htext, ok_bind]
    exact ⟨hpage, _, rfl, rfl⟩
  | untyped _ hat =>
    obtain ⟨hpage, n, text, hn, -, htext⟩ := hat.read ho hsize
    rw [if_neg (by decide), ok_bind]
    dsimp only
    rw [hn, ok_bind, (toUInt32_add (by omega)).2.1, htext, ok_bind]
    exact ⟨hpage, _, rfl, htag⟩

end ChunkViewer
