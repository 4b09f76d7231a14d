import ChunkViewer.Library.Recognizes
import ChunkViewer.Proofs.NBTRoundTrip
import ChunkViewer.Proofs.NBTShift
import ChunkViewer.Spec.TagGrammar

/-!
# What the parser accepts

In a slice of at most 32768 bytes the parser returns exactly if a word of the grammar stands at
its offset, and then the offset behind the word and the tag that the word decodes to.
-/

namespace ChunkViewer

open ExceptRun Recognizer

/-! ## Reading -/

lemma Slice.At.end_le {s : Slice} {o : ℕ} {bs : List UInt8} (h : s.At o bs) (ho : o ≤ s.length) :
    o + bs.length ≤ s.length := by
  have hlen := List.IsPrefix.length_le h
  rw [List.length_drop] at hlen
  omega

lemma Slice.at_window {s : Slice} {o k : ℕ} (h : o + k ≤ s.length) :
    s.At o (LittleEndian.bytes k (LittleEndian.toNat (s.window o k))) := by
  have hbytes := LittleEndian.bytes_toNat (s.window o k)
  rw [length_window h] at hbytes
  rw [hbytes]
  exact List.take_prefix _ _

lemma charAt_recognizes (s : Slice) (o : ℕ) :
    Recognizes s o (fun b => [b]) id (s.charAt o) := by
  intro b
  rw [charAt_eq_ok, Int.toNat_natCast]
  constructor
  · rintro ⟨-, hb⟩
    exact ⟨b, Slice.at_cons.mpr ⟨hb, List.nil_prefix⟩, rfl⟩
  · rintro ⟨b, hb, rfl⟩
    exact ⟨by omega, (Slice.at_cons.mp hb).1⟩

lemma typeByte_recognizes (s : Slice) (o : ℕ) :
    Recognizes s o (fun b : TypeByte => [b.id]) TypeByte.type (s.charAt o >>= NBTType.ofByte) := by
  intro type
  rw [bind_eq_ok]
  constructor
  · rintro ⟨b, hb, htype⟩
    have hget : s[o]? = some b := by simpa using (charAt_eq_ok.mp hb).2
    exact ⟨⟨b, type, htype⟩, Slice.at_cons.mpr ⟨hget, List.nil_prefix⟩, rfl⟩
  · rintro ⟨b, hat, rfl⟩
    exact ⟨b.id, (charAt_recognizes s o b.id).mpr ⟨b.id, hat, rfl⟩, b.htype⟩

section

variable {s : Slice} (hs : s.length ≤ 32768) {o : ℕ} (ho : o ≤ s.length)
include hs ho

lemma parseShort_recognizes :
    Recognizes s o (fun n => LittleEndian.bytes 2 n.toNat) id (parseShort s o) := by
  intro n
  constructor
  · intro h
    have hbytes := parseShort_bytes h
    have hread := @parseShort_eq_of_lt s o (by omega) (by omega)
    have hlt := LittleEndian.toNat_lt (s.window o 2)
    rw [length_window (by omega)] at hlt
    rw [h, Except.ok.injEq] at hread
    refine ⟨n, ?_, rfl⟩
    dsimp only
    rw [hread, BitVec.toNat_ofNat, Nat.mod_eq_of_lt (show _ < 2 ^ 16 from hlt)]
    exact Slice.at_window (by omega)
  · rintro ⟨n, hat, rfl⟩
    have hend := Slice.At.end_le hat ho
    rw [LittleEndian.length_bytes] at hend
    rw [parseShort_at hat (by omega), BitVec.ofNat_toNat, BitVec.setWidth_eq]

lemma parseInt32_recognizes :
    Recognizes s o (fun n => LittleEndian.bytes 4 n.toNat) id (parseInt32 s o) := by
  intro n
  constructor
  · intro h
    have hbytes := parseInt32_bytes h (by omega)
    have hread := parseInt32_eq hbytes (by omega)
    have hlt := LittleEndian.toNat_lt (s.window o 4)
    rw [length_window (by omega)] at hlt
    rw [h, Except.ok.injEq] at hread
    refine ⟨n, ?_, rfl⟩
    dsimp only
    rw [hread, BitVec.toNat_ofNat, Nat.mod_eq_of_lt (show _ < 2 ^ 32 from hlt)]
    exact Slice.at_window hbytes
  · rintro ⟨n, hat, rfl⟩
    have hend := Slice.At.end_le hat ho
    rw [LittleEndian.length_bytes] at hend
    rw [parseInt32_at hat (by omega), BitVec.ofNat_toNat, BitVec.setWidth_eq]

lemma parseChars_recognizes (count : ℕ) (text : String) :
    Recognizes s o (fun bs : { bs : List UInt8 // bs.length = count } => bs.val)
      (fun bs => (o + bs.val.length, text ++ textOf bs.val)) (parseChars s count o text) := by
  intro r
  constructor
  · intro h
    induction count generalizing o text with
    | zero =>
      refine ⟨⟨[], rfl⟩, List.nil_prefix, ?_⟩
      rw [← Except.ok.inj h]
      exact congrArg (Prod.mk o) String.append_empty.symm
    | succ count ih =>
      rw [parseChars] at h
      obtain ⟨b, hb, hrest⟩ := bind_eq_ok.mp h
      obtain ⟨b', hat, hval⟩ := (charAt_recognizes s o b).mp hb
      obtain rfl : b = b' := hval
      have hend := Slice.At.end_le hat ho
      rw [List.length_singleton] at hend
      rw [(toUInt32_add (by omega)).1] at hrest
      obtain ⟨⟨bs, hlen⟩, hbs, rfl⟩ := ih hend (text.push (Char.ofUInt8 b)) hrest
      refine ⟨⟨b :: bs, by rw [List.length_cons, hlen]⟩, Slice.at_append.mpr ⟨hat, hbs⟩, ?_⟩
      have hpush : text.push (Char.ofUInt8 b) ++ textOf bs = text ++ textOf (b :: bs) := by
        apply String.toList_inj.mp
        simp [textOf]
      dsimp only
      rw [hpush, List.length_cons, Nat.add_right_comm, Nat.add_assoc]
  · rintro ⟨⟨bs, rfl⟩, hat, rfl⟩
    have hend := Slice.At.end_le hat ho
    exact parseChars_at hat (by omega) text

/-! ## Headers -/

omit hs ho in
lemma NameWord.two_le_length (w : NameWord) : 2 ≤ w.encode.length := by
  cases w <;> simp [NameWord.encode]

lemma readName_recognizes :
    Recognizes s o NameWord.encode (fun w => (o + w.encode.length, w.decode))
      (parseShort s o >>= fun n => parseChars s n.toInt.toNat (toUInt32 (o + 2)) "") := by
  have hchars : ∀ n : BitVec 16, LittleEndian.bytes 2 n.toNat <+: s.drop o →
      Recognizes s (o + (LittleEndian.bytes 2 n.toNat).length)
        (fun bs : { bs : List UInt8 // bs.length = n.toInt.toNat } => bs.val)
        (fun bs => (o + 2 + bs.val.length, "" ++ textOf bs.val))
        (parseChars s n.toInt.toNat (toUInt32 (o + 2)) "") := by
    intro n hat
    have hend := Slice.At.end_le hat ho
    rw [LittleEndian.length_bytes] at hend ⊢
    rw [(toUInt32_add (by omega)).2.1]
    exact parseChars_recognizes hs hend _ _
  refine ((parseShort_recognizes hs ho).bind hchars).reword ?_ ?_
  · rintro ⟨n, bs, hlen⟩ -
    by_cases hneg : n.toInt < 0
    · obtain rfl : bs = [] := List.length_eq_zero_iff.mp (by omega)
      refine ⟨.negative n hneg, (List.append_nil _).symm, ?_⟩
      rw [NameWord.encode, LittleEndian.length_bytes]
      rfl
    · have hnat := BitVec.toInt_eq_toNat_cond n
      have hlt := n.isLt
      have hsize : n.toNat = bs.length ∧ bs.length < 32768 := by
        split at hnat <;> omega
      refine ⟨.text bs hsize.2, by rw [NameWord.encode, hsize.1], ?_⟩
      rw [NameWord.encode, NameWord.decode, List.length_append, LittleEndian.length_bytes,
        String.empty_append, Nat.add_assoc]
  · rintro (⟨bs, hlen⟩ | ⟨n, hneg⟩) -
    · have hsigned : (BitVec.ofNat 16 bs.length).toInt = bs.length := toInt_ofNat_of_lt (by omega)
      refine ⟨⟨BitVec.ofNat 16 bs.length, bs, by rw [hsigned, Int.toNat_natCast]⟩, ?_, ?_⟩
      · rw [NameWord.encode, BitVec.toNat_ofNat, Nat.mod_eq_of_lt (by omega)]
      · rw [NameWord.encode, NameWord.decode, List.length_append, LittleEndian.length_bytes,
          String.empty_append, Nat.add_assoc]
    · refine ⟨⟨n, [], by rw [Int.toNat_of_nonpos hneg.le]; rfl⟩, List.append_nil _, ?_⟩
      rw [NameWord.encode, LittleEndian.length_bytes]
      rfl

lemma elementHeader_recognizes (tag : NBTTag) :
    Recognizes s o NameWord.encode
      (fun w => (o + w.encode.length, { tag with name := w.decode }))
      (parseNBTHeader s o tag false) := by
  have hread := (readName_recognizes hs ho).map (ε := Stop)
    (f := fun r => .ok (r.1, { tag with name := r.2 })) fun w _ => rfl
  rw [bind_assoc] at hread
  exact hread

lemma tagHeader_recognizes (tag : NBTTag) :
    Recognizes s o (fun w : TypeByte × NameWord => w.1.id :: w.2.encode)
      (fun w => (o + (w.2.encode.length + 1),
        { tag with type := w.1.type, name := w.2.decode }))
      (parseNBTHeader s o tag true) := by
  have hread := (typeByte_recognizes s o).bind (ε := Stop) (f := fun type =>
    parseNBTHeader s (toUInt32 (o + 1)) { tag with type := type } false) fun head hid => by
      have hend := Slice.At.end_le hid ho
      rw [List.length_singleton] at hend ⊢
      rw [(toUInt32_add (by omega)).1]
      exact elementHeader_recognizes hs hend { tag with type := head.type }
  have hheader : parseNBTHeader s o tag true = (s.charAt o >>= NBTType.ofByte >>= fun type =>
      parseNBTHeader s (toUInt32 (o + 1)) { tag with type := type } false) := by
    unfold parseNBTHeader parseTypeByte
    rw [if_pos rfl, bind_assoc, bind_assoc]
    congr 1
    funext id
    rw [bind_assoc]
    rfl
  rw [hheader]
  refine hread.reword ?_ ?_
  · rintro ⟨head, name⟩ -
    exact ⟨(head, name), rfl, by rw [Nat.add_comm name.encode.length, ← Nat.add_assoc]⟩
  · rintro ⟨head, name⟩ -
    exact ⟨⟨head, name⟩, rfl, by rw [Nat.add_comm name.encode.length, ← Nat.add_assoc]⟩

/-! ## Strings -/

lemma parseString_recognizes :
    Recognizes s o
      (fun text : { text : List UInt8 // text.length < 32768 } =>
        LittleEndian.bytes 2 text.val.length ++ text.val)
      (fun text => (o + (2 + text.val.length), textOf text.val)) (parseString s o) := by
  have hchars : ∀ n : BitVec 16, LittleEndian.bytes 2 n.toNat <+: s.drop o →
      Recognizes s (o + (LittleEndian.bytes 2 n.toNat).length)
        (fun bs : { bs : List UInt8 // bs.length = min (toUInt32 n.toInt) 2147483648 } => bs.val)
        (fun bs => (o + 2 + bs.val.length, "" ++ textOf bs.val))
        (parseChars s (min (toUInt32 n.toInt) 2147483648) (toUInt32 (o + 2)) "" >>= fun r =>
          if 2147483648 ≤ toUInt32 n.toInt then .error (.undefined .loopCounter) else .ok r) := by
    intro n hat
    have hend := Slice.At.end_le hat ho
    rw [LittleEndian.length_bytes] at hend ⊢
    rw [(toUInt32_add (by omega)).2.1]
    refine (parseChars_recognizes hs hend _ _).map fun bs hbs => ?_
    have hfits := Slice.At.end_le hbs hend
    rw [bs.property] at hfits
    rw [if_neg (by omega)]
  refine ((parseShort_recognizes hs ho).bind hchars).reword ?_ ?_
  · rintro ⟨n, bs, hlen⟩ hat
    have hfits := Slice.At.end_le hat ho
    rw [List.length_append, LittleEndian.length_bytes] at hfits
    dsimp only at hfits
    have hnat := BitVec.toInt_eq_toNat_cond n
    have hlt := n.isLt
    obtain ⟨hnum, hsize⟩ : n.toNat = bs.length ∧ bs.length < 32768 := by
      unfold toUInt32 at hlen
      split at hnat <;> omega
    refine ⟨⟨bs, hsize⟩, by rw [hnum], ?_⟩
    rw [String.empty_append, Nat.add_assoc]
  · rintro ⟨bs, hlen⟩ -
    have hsigned : (BitVec.ofNat 16 bs.length).toInt = bs.length := toInt_ofNat_of_lt (by omega)
    have hcount : toUInt32 (BitVec.ofNat 16 bs.length).toInt = bs.length := by
      rw [hsigned]
      exact toUInt32_natCast (by omega)
    refine ⟨⟨BitVec.ofNat 16 bs.length, bs, by rw [hcount]; omega⟩, ?_, ?_⟩
    · rw [BitVec.toNat_ofNat, Nat.mod_eq_of_lt (by omega)]
    · rw [String.empty_append, Nat.add_assoc]

end

lemma ListWord.count_le : {type : NBTType} → (es : ListWord type) → es.count ≤ es.encode.length
  | _, .nil _ => le_rfl
  | _, .cons _ name payload rest => by
    have hrest := rest.count_le
    have hname := name.two_le_length
    rw [ListWord.count, ListWord.encode, List.length_append, List.length_append]
    omega

/-! ## Tags -/

/-- What each call of the parser recognizes, with fuel for all bytes behind its offset. -/
structure ParserRecognizes (s : Slice) (fuel : ℕ) : Prop where
  payload : ∀ {type : NBTType} {t : NBTTag} {o : ℕ}, t.type = type → o ≤ s.length →
    s.length + 3 ≤ fuel + o → Recognizes s o (fun p : PayloadWord type => p.encode)
      (fun p => (o + p.encode.length, p.addTo t)) (parseNBTPayload s fuel o t)
  list : ∀ {type : NBTType} {t : NBTTag} {o : ℕ} (count : ℕ), o ≤ s.length →
    s.length + 3 ≤ fuel + o → Recognizes s o
      (fun es : { es : ListWord type // es.count = count } => es.val.encode)
      (fun es => (o + es.val.encode.length, es.val.addTo t)) (listLoop s fuel type count o t)
  compound : ∀ {t : NBTTag} {o : ℕ}, o ≤ s.length → s.length + 2 ≤ fuel + o →
    Recognizes s o CompoundWord.encode (fun es => (o + es.encode.length, es.addTo t))
      (compoundLoop s fuel o t)
  element : ∀ {type : NBTType} {o : ℕ}, o ≤ s.length → s.length + 2 ≤ fuel + o →
    Recognizes s o (fun w : NameWord × PayloadWord type => w.1.encode ++ w.2.encode)
      (fun w => (o + (w.1.encode ++ w.2.encode).length,
        w.2.addTo (NBTTag.named type w.1.decode)))
      (parseNBTTag s fuel o { NBTTag.new with type := type } false)
  tag : ∀ {o : ℕ}, o ≤ s.length → s.length + 1 ≤ fuel + o →
    Recognizes s o TagWord.encode (fun w => (o + w.encode.length, w.decode))
      (parseNBTTag s fuel o NBTTag.new true)

namespace ParserRecognizes

variable {s : Slice} {fuel : ℕ}

lemma zero (s : Slice) : ParserRecognizes s 0 where
  payload _ ho h := by omega
  list _ ho h := by omega
  compound ho h := by omega
  element ho h := by omega
  tag ho h := by omega

section step

variable (hs : s.length ≤ 32768) (ih : ParserRecognizes s fuel) {o : ℕ} (ho : o ≤ s.length)
include hs ih ho

/-- The parser looks at the first byte before it reads an entry. -/
lemma compound_step {t : NBTTag} (hfuel : s.length + 2 ≤ fuel + 1 + o) :
    Recognizes s o CompoundWord.encode (fun es => (o + es.encode.length, es.addTo t))
      (compoundLoop s (fuel + 1) o t) := by
  have hentry := (ih.tag ho (by omega)).bind (ε := Stop)
    (f := fun r => compoundLoop s fuel r.1 (t.addInnerTag r.2)) fun w hw => by
      have hend := Slice.At.end_le hw ho
      have hlen : 0 < w.encode.length := by simp [TagWord.encode]
      exact ih.compound (t := t.addInnerTag w.decode) hend (by omega)
  have hnil : CompoundWord.nil.encode <+: s.drop o → s.charAt o = .ok 0 := fun h => Slice.At.charAt h
  have hcons : ∀ {id : UInt8} {bs : List UInt8}, id :: bs <+: s.drop o → s.charAt o = .ok id :=
    fun h => Slice.At.charAt h
  rw [compoundLoop]
  cases hb : s.charAt o with
  | error e =>
    intro r
    refine iff_of_false (by simp) ?_
    rintro ⟨_ | ⟨head, hid, name, payload, rest⟩, hw, -⟩
    · exact absurd (hb.symm.trans (hnil hw)) (by simp)
    · exact absurd (hb.symm.trans (hcons hw)) (by simp)
  | ok b =>
    rw [ok_bind]
    by_cases hzero : b = 0
    · subst hzero
      have hat : s.At o [0] := (Slice.at_cons.mpr ⟨(charAt_eq_ok.mp hb).2, List.nil_prefix⟩)
      have hend := hat.end_le ho
      rw [List.length_singleton] at hend
      rw [if_neg (not_not.mpr rfl), (toUInt32_add (by omega)).1]
      intro r
      constructor
      · intro hr
        exact ⟨.nil, hat, (Except.ok.inj hr).symm⟩
      · rintro ⟨_ | ⟨head, hid, name, payload, rest⟩, hw, rfl⟩
        · rfl
        · exact absurd (Except.ok.inj (hb.symm.trans (hcons hw))).symm hid
    · rw [if_pos hzero]
      refine hentry.reword ?_ ?_
      · rintro ⟨⟨head, name, payload⟩, rest⟩ hw
        obtain rfl : b = head.id := Except.ok.inj (hb.symm.trans (hcons hw))
        refine ⟨.cons head hzero name payload rest, rfl, ?_⟩
        rw [CompoundWord.encode, TagWord.encode, List.length_append, Nat.add_assoc]
        rfl
      · rintro (_ | ⟨head, hid, name, payload, rest⟩) hw
        · exact absurd (Except.ok.inj (hb.symm.trans (hnil hw))) hzero
        · refine ⟨⟨⟨head, name, payload⟩, rest⟩, rfl, ?_⟩
          rw [CompoundWord.encode, TagWord.encode, List.length_append, Nat.add_assoc]
          rfl

lemma element_step {type : NBTType} (hfuel : s.length + 2 ≤ fuel + 1 + o) :
    Recognizes s o (fun w : NameWord × PayloadWord type => w.1.encode ++ w.2.encode)
      (fun w => (o + (w.1.encode ++ w.2.encode).length,
        w.2.addTo (NBTTag.named type w.1.decode)))
      (parseNBTTag s (fuel + 1) o { NBTTag.new with type := type } false) := by
  have hrun := (elementHeader_recognizes hs ho { NBTTag.new with type := type }).bind (ε := Stop)
    (f := fun r => parseNBTPayload s fuel r.1 r.2) fun name hname => by
      have hend := Slice.At.end_le hname ho
      have hlen := name.two_le_length
      exact @ParserRecognizes.payload s fuel ih type _ _ rfl hend (by omega)
  rw [parseNBTTag]
  refine hrun.reword ?_ ?_
  · rintro ⟨name, payload⟩ -
    exact ⟨(name, payload), rfl, by rw [List.length_append, Nat.add_assoc]; rfl⟩
  · rintro ⟨name, payload⟩ -
    exact ⟨⟨name, payload⟩, rfl, by rw [List.length_append, Nat.add_assoc]; rfl⟩

lemma tag_step (hfuel : s.length + 1 ≤ fuel + 1 + o) :
    Recognizes s o TagWord.encode (fun w => (o + w.encode.length, w.decode))
      (parseNBTTag s (fuel + 1) o NBTTag.new true) := by
  have hrun := (tagHeader_recognizes hs ho NBTTag.new).bind (ε := Stop)
    (f := fun r => parseNBTPayload s fuel r.1 r.2) fun w hw => by
      have hend := Slice.At.end_le hw ho
      have hlen := w.2.two_le_length
      rw [List.length_cons] at hend ⊢
      exact @ParserRecognizes.payload s fuel ih w.1.type _ _ rfl hend (by omega)
  rw [parseNBTTag]
  refine hrun.reword ?_ ?_
  · rintro ⟨⟨head, name⟩, payload⟩ -
    refine ⟨⟨head, name, payload⟩, rfl, Prod.ext ?_ rfl⟩
    simp only [TagWord.encode, List.length_cons, List.length_append]
    omega
  · rintro ⟨head, name, payload⟩ -
    refine ⟨⟨⟨head, name⟩, payload⟩, rfl, Prod.ext ?_ rfl⟩
    simp only [TagWord.encode, List.length_cons, List.length_append]
    omega

omit hs in
lemma list_step {type : NBTType} {t : NBTTag} (count : ℕ) (hfuel : s.length + 3 ≤ fuel + 1 + o) :
    Recognizes s o (fun es : { es : ListWord type // es.count = count } => es.val.encode)
      (fun es => (o + es.val.encode.length, es.val.addTo t))
      (listLoop s (fuel + 1) type count o t) := by
  cases count with
  | zero =>
    rw [listLoop]
    refine (Recognizes.ok s o _).reword ?_ ?_
    · rintro - -
      exact ⟨⟨.nil type, rfl⟩, rfl, rfl⟩
    · rintro ⟨es, hes⟩ -
      cases es with
      | nil => exact ⟨(), rfl, rfl⟩
      | cons _ name payload rest => exact absurd hes (Nat.succ_ne_zero _)
  | succ count =>
    have hrun := (@ParserRecognizes.element s fuel ih type o ho (by omega)).bind (ε := Stop)
      (f := fun r => listLoop s fuel type count r.1 (t.addInnerTag r.2)) fun w hw => by
        have hend := Slice.At.end_le hw ho
        have hlen := w.1.two_le_length
        rw [List.length_append] at hend ⊢
        exact ih.list (t := t.addInnerTag (w.2.addTo (NBTTag.named type w.1.decode))) count hend
          (by omega)
    rw [listLoop]
    refine hrun.reword ?_ ?_
    · rintro ⟨⟨name, payload⟩, rest, hrest⟩ -
      refine ⟨⟨.cons type name payload rest, by rw [ListWord.count, hrest]⟩, rfl, Prod.ext ?_ rfl⟩
      simp only [ListWord.encode, List.length_append]
      omega
    · rintro ⟨es, hes⟩ -
      cases es with
      | nil => exact absurd hes.symm (Nat.succ_ne_zero _)
      | cons _ name payload rest =>
        refine ⟨⟨⟨name, payload⟩, rest, Nat.succ.inj hes⟩, rfl, Prod.ext ?_ rfl⟩
        simp only [ListWord.encode, List.length_append]
        omega

lemma listPayload_step {t : NBTTag} (htype : t.type = .LIST) (hfuel : s.length + 3 ≤ fuel + 1 + o) :
    Recognizes s o (fun p : PayloadWord .LIST => p.encode)
      (fun p => (o + p.encode.length, p.addTo t)) (parseNBTPayload s (fuel + 1) o t) := by
  have hloop : ∀ (type : NBTType), o + 1 ≤ s.length → ∀ n : BitVec 32,
      LittleEndian.bytes 4 n.toNat <+: s.drop (o + 1) →
      Recognizes s (o + 1 + (LittleEndian.bytes 4 n.toNat).length)
        (fun es : { es : ListWord type // es.count = min n.toNat 2147483648 } => es.val.encode)
        (fun es => (o + 5 + es.val.encode.length, es.val.addTo t))
        (listLoop s fuel type (min n.toNat 2147483648) (toUInt32 (o + 5)) t >>= fun r =>
          if 2147483648 ≤ n.toNat then .error (.undefined .loopCounter) else .ok r) := by
    intro type hid n hn
    have hend := Slice.At.end_le hn hid
    rw [LittleEndian.length_bytes] at hend ⊢
    rw [(toUInt32_add (by omega)).2.2.2]
    refine (ih.list _ hend (by omega)).map fun es hes => ?_
    have hfits := Slice.At.end_le hes hend
    have hcount := es.val.count_le
    rw [es.property] at hcount
    rw [if_neg (by omega)]
  have hread := (typeByte_recognizes s o).bind (ε := Stop) (f := fun type =>
    parseInt32 s (toUInt32 (o + 1)) >>= fun n =>
      listLoop s fuel type (min n.toNat 2147483648) (toUInt32 (o + 5)) t >>= fun r =>
        if 2147483648 ≤ n.toNat then .error (.undefined .loopCounter) else .ok r) fun head hid => by
    have hend := Slice.At.end_le hid ho
    rw [List.length_singleton] at hend ⊢
    rw [(toUInt32_add (by omega)).1]
    exact (parseInt32_recognizes hs hend).bind (hloop head.type hend)
  rw [bind_assoc] at hread
  rw [parseNBTPayload, htype]
  refine hread.reword ?_ ?_
  · rintro ⟨head, n, es, hes⟩ hw
    have hfits := Slice.At.end_le hw ho
    have hcount := es.count_le
    simp only [List.length_append, List.length_singleton, LittleEndian.length_bytes] at hfits
    have hn : n.toNat = es.count := by omega
    refine ⟨.list head es, by rw [PayloadWord.encode, ← hn]; rfl, Prod.ext ?_ rfl⟩
    simp only [PayloadWord.encode, List.length_cons, List.length_append, LittleEndian.length_bytes]
    omega
  · intro p hw
    cases p with
    | list head es =>
      have hfits := Slice.At.end_le hw ho
      have hcount := es.count_le
      simp only [PayloadWord.encode, List.length_cons, List.length_append,
        LittleEndian.length_bytes] at hfits
      have hn : (BitVec.ofNat 32 es.count).toNat = es.count := by
        rw [BitVec.toNat_ofNat]
        omega
      refine ⟨⟨head, BitVec.ofNat 32 es.count, es, by rw [hn]; omega⟩, ?_, Prod.ext ?_ rfl⟩
      · dsimp only
        rw [hn]
        rfl
      · simp only [PayloadWord.encode, List.length_cons, List.length_append,
          LittleEndian.length_bytes]
        omega

omit ih in
lemma leafPayload_step {type : NBTType} {t : NBTTag} (htype : t.type = type) (hlist : type ≠ .LIST)
    (hcompound : type ≠ .COMPOUND) :
    Recognizes s o (fun p : PayloadWord type => p.encode)
      (fun p => (o + p.encode.length, p.addTo t)) (parseNBTPayload s (fuel + 1) o t) := by
  rw [parseNBTPayload, htype]
  cases type with
  | LIST => exact absurd rfl hlist
  | COMPOUND => exact absurd rfl hcompound
  | END =>
    refine (Recognizes.ok s o _).reword ?_ ?_
    · rintro - -
      exact ⟨.ending, rfl, rfl⟩
    · rintro ⟨⟩ -
      exact ⟨(), rfl, rfl⟩
  | unknown id =>
    refine (Recognizes.ok s o _).reword ?_ ?_
    · rintro - -
      exact ⟨.unknown id, rfl, rfl⟩
    · rintro ⟨⟩ -
      exact ⟨(), rfl, rfl⟩
  | LONG =>
    intro r
    refine iff_of_false ?_ ?_
    · intro h
      obtain ⟨n, hn, -⟩ := bind_eq_ok.mp h
      exact absurd hn (parseLong_ne_ok s o n)
    · rintro ⟨⟨⟩, -⟩
  | BYTE =>
    have hnext : ∀ b, [b] <+: s.drop o → toUInt32 (o + 1) = o + 1 := by
      intro b hb
      have hend := Slice.At.end_le hb ho
      rw [List.length_singleton] at hend
      exact (toUInt32_add (by omega)).1
    refine ((charAt_recognizes s o).map (ε := Stop) fun b hb => by rw [hnext b hb]).reword ?_ ?_
    · rintro b -
      exact ⟨.byte b, rfl, by rw [PayloadWord.addTo, htype]; rfl⟩
    · rintro ⟨⟩ -
      exact ⟨_, rfl, by rw [PayloadWord.addTo, htype]; rfl⟩
  | SHORT =>
    have hnext : ∀ n : BitVec 16, LittleEndian.bytes 2 n.toNat <+: s.drop o →
        toUInt32 (o + 2) = o + 2 := by
      intro n hn
      have hend := Slice.At.end_le hn ho
      rw [LittleEndian.length_bytes] at hend
      exact (toUInt32_add (by omega)).2.1
    refine ((parseShort_recognizes hs ho).map (ε := Stop)
      fun n hn => by rw [hnext n hn]).reword ?_ ?_
    · rintro n -
      refine ⟨.short n, rfl, ?_⟩
      rw [PayloadWord.addTo, htype, PayloadWord.encode, LittleEndian.length_bytes]
      rfl
    · rintro ⟨⟩ -
      refine ⟨_, rfl, ?_⟩
      rw [PayloadWord.addTo, htype, PayloadWord.encode, LittleEndian.length_bytes]
      rfl
  | INT =>
    have hnext : ∀ n : BitVec 32, LittleEndian.bytes 4 n.toNat <+: s.drop o →
        toUInt32 (o + 4) = o + 4 := by
      intro n hn
      have hend := Slice.At.end_le hn ho
      rw [LittleEndian.length_bytes] at hend
      exact (toUInt32_add (by omega)).2.2.1
    refine ((parseInt32_recognizes hs ho).map (ε := Stop)
      fun n hn => by rw [hnext n hn]).reword ?_ ?_
    · rintro n -
      refine ⟨.int n, rfl, ?_⟩
      rw [PayloadWord.addTo, htype, PayloadWord.encode, LittleEndian.length_bytes]
      rfl
    · rintro ⟨⟩ -
      refine ⟨_, rfl, ?_⟩
      rw [PayloadWord.addTo, htype, PayloadWord.encode, LittleEndian.length_bytes]
      rfl
  | STRING =>
    have hread := (parseString_recognizes hs ho).map (ε := Stop)
      (f := fun r => .ok (r.1, { t with type := .STRING, stringVal := r.2 })) fun text _ => rfl
    refine hread.reword ?_ ?_
    · rintro ⟨text, hlen⟩ -
      refine ⟨.string text hlen, rfl, ?_⟩
      rw [PayloadWord.addTo, htype, PayloadWord.encode, List.length_append,
        LittleEndian.length_bytes]
    · rintro ⟨⟩ -
      refine ⟨⟨_, ‹_›⟩, rfl, ?_⟩
      rw [PayloadWord.addTo, htype, PayloadWord.encode, List.length_append,
        LittleEndian.length_bytes]

lemma payload_step {type : NBTType} {t : NBTTag} (htype : t.type = type)
    (hfuel : s.length + 3 ≤ fuel + 1 + o) :
    Recognizes s o (fun p : PayloadWord type => p.encode)
      (fun p => (o + p.encode.length, p.addTo t)) (parseNBTPayload s (fuel + 1) o t) := by
  by_cases hlist : type = .LIST
  · subst hlist
    exact listPayload_step hs ih ho htype hfuel
  · by_cases hcompound : type = .COMPOUND
    · subst hcompound
      rw [parseNBTPayload, htype]
      refine (ih.compound ho (by omega)).reword ?_ ?_
      · rintro entries -
        exact ⟨.compound entries, rfl, rfl⟩
      · rintro ⟨⟩ -
        exact ⟨_, rfl, rfl⟩
    · exact leafPayload_step hs ho htype hlist hcompound

end step

/-- By induction on the fuel, as each call is made with less of it. -/
lemma of_length_le {s : Slice} (hs : s.length ≤ 32768) (fuel : ℕ) : ParserRecognizes s fuel := by
  induction fuel with
  | zero => exact zero s
  | succ fuel ih => exact {
      payload := fun htype ho hfuel => payload_step hs ih ho htype hfuel
      list := fun count ho hfuel => list_step ih ho count hfuel
      compound := fun ho hfuel => compound_step hs ih ho hfuel
      element := fun ho hfuel => element_step hs ih ho hfuel
      tag := fun ho hfuel => tag_step hs ih ho hfuel }

end ParserRecognizes

/-- The parser accepts exactly the words of the grammar. -/
theorem parse_accepts_iff {s : Slice} (hs : s.length ≤ 32768) {fuel : ℕ} (hfuel : s.length < fuel)
    (o : ℕ) (r : ℕ × NBTTag) :
    parseNBTTag s fuel o NBTTag.new true = .ok r ↔
      ∃ w : TagWord, s.At o w.encode ∧ r = (o + w.encode.length, w.decode) := by
  by_cases ho : o ≤ s.length
  · exact (ParserRecognizes.of_length_le hs fuel).tag ho (by omega) r
  · refine iff_of_false ?_ ?_
    · intro h
      cases fuel with
      | zero => exact absurd h (by simp [parseNBTTag])
      | succ fuel =>
        rw [parseNBTTag, parseNBTHeader, parseTypeByte, if_pos rfl,
          charAt_assertion (Or.inr (by omega))] at h
        exact absurd h (by simp)
    · rintro ⟨w, hw, -⟩
      have hend := hw.le_length (by simp [TagWord.encode])
      omega

/-- One named element, in a list that has no name. -/
def namedElement : TagWord where
  head := ⟨9, .LIST, rfl⟩
  name := .empty
  payload := .list ⟨1, .BYTE, rfl⟩ (.cons .BYTE (.text [97] (by decide)) (.byte 5) (.nil .BYTE))

theorem parse_accepts_iff_namedElement :
    parseNBTTag [9, 0, 0, 1, 1, 0, 0, 0, 1, 0, 97, 5] 13 0 NBTTag.new true =
      .ok (12, (NBTTag.named .LIST "").addInnerTag
        { NBTTag.named .BYTE "a" with byteVal := some 5 }) :=
  (parse_accepts_iff (by decide) (by decide) 0 _).mpr ⟨namedElement, ⟨[], by decide⟩, rfl⟩

/-- No word is the beginning of a longer one. -/
theorem TagWord.eq_of_prefix {w w' : TagWord} (hlen : w'.encode.length ≤ 32768)
    (h : w.encode <+: w'.encode) : w.encode = w'.encode ∧ w.decode = w'.decode := by
  have hrun := (ParserRecognizes.of_length_le hlen (w'.encode.length + 1)).tag (o := 0)
    (Nat.zero_le _) (by omega)
  have heq := @Recognizes.unambiguous _ _ _ _ _ _ _ _ _ hrun w w' h List.prefix_rfl
  obtain ⟨hend, hdecode⟩ := Prod.mk.inj heq
  exact ⟨h.eq_of_length (Nat.add_left_cancel hend), hdecode⟩

end ChunkViewer
