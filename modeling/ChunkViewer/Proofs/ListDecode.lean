import ChunkViewer.Proofs.NBTCalls
import ChunkViewer.Proofs.NBTRoundTrip
import ChunkViewer.Proofs.TagSearch
import ChunkViewer.Spec.ListPayload

/-!
# Decoding lists

The elements of a list are read as tags with a name, which bare payloads do not have. A tag
weighs as many bytes as its payload is long, and a call that returns has come at least as far
as the tags it read weigh, and further by each name. So the offset behind a list with elements
is too far on for a tag that holds them.
-/

namespace ChunkViewer

open ExceptRun

/-! ## Weights -/

/-- How many bytes the payload of a tag takes. -/
def NBTTag.weight (t : NBTTag) : ℕ :=
  match t.type with
  | .BYTE => 1
  | .SHORT => 2
  | .INT => 4
  | .LONG => 8
  | .STRING => 2 + t.stringVal.length
  | .LIST => 5 + (t.innerTags.attach.map fun p => p.1.2.weight).sum
  | .COMPOUND => 1 + (t.innerTags.attach.map fun p => 3 + p.1.1.length + p.1.2.weight).sum
  | .END => 0
  | .unknown _ => 0
termination_by sizeOf t
decreasing_by all_goals exact @IterationOrder.sizeOf_lt .insertion [] t p.1 p.2

/-- The inner tags as the elements of a list. -/
def elementsWeight (inner : List (String × NBTTag)) : ℕ := (inner.map fun p => p.2.weight).sum

/-- The inner tags as the entries of a compound, with their types and names. -/
def entriesWeight (inner : List (String × NBTTag)) : ℕ :=
  (inner.map fun p => 3 + p.1.length + p.2.weight).sum

lemma NBTTag.weight_list {t : NBTTag} (h : t.type = .LIST) :
    t.weight = 5 + elementsWeight t.innerTags := by
  rw [NBTTag.weight, h]
  dsimp only
  rw [List.map_subtype (g := fun p : String × NBTTag => p.2.weight) (fun _ _ => rfl),
    List.unattach_attach, elementsWeight]

lemma NBTTag.weight_compound {t : NBTTag} (h : t.type = .COMPOUND) :
    t.weight = 1 + entriesWeight t.innerTags := by
  rw [NBTTag.weight, h]
  dsimp only
  rw [List.map_subtype (g := fun p : String × NBTTag => 3 + p.1.length + p.2.weight)
    (fun _ _ => rfl), List.unattach_attach, entriesWeight]

lemma elementsWeight_nil : elementsWeight [] = 0 := rfl

lemma entriesWeight_nil : entriesWeight [] = 0 := rfl

lemma elementsWeight_add_le (t inner : NBTTag) : elementsWeight (t.addInnerTag inner).innerTags ≤
    elementsWeight t.innerTags + inner.weight :=
  AssocList.sum_map_assign_le _ _ _ _

lemma entriesWeight_add_le (t inner : NBTTag) : entriesWeight (t.addInnerTag inner).innerTags ≤
    entriesWeight t.innerTags + (3 + inner.name.length + inner.weight) :=
  AssocList.sum_map_assign_le _ _ _ _

lemma length_textOf (text : List UInt8) : (textOf text).length = text.length := by
  rw [textOf, String.length_ofList, List.length_map]

mutual

lemma Value.weight_of_heldBy (v : Value) {tag : NBTTag} (h : v.HeldBy tag) :
    tag.weight = v.encode.length := by
  cases v with
  | byte n =>
    rw [NBTTag.weight, h.1, Value.encode, LittleEndian.length_bytes]
  | short n =>
    rw [NBTTag.weight, h.1, Value.encode, LittleEndian.length_bytes]
  | int n =>
    rw [NBTTag.weight, h.1, Value.encode, LittleEndian.length_bytes]
  | long n =>
    rw [NBTTag.weight, h.1, Value.encode, LittleEndian.length_bytes]
  | string text =>
    rw [NBTTag.weight, h.1, h.2, Value.encode, List.length_append, LittleEndian.length_bytes]
    dsimp only
    rw [length_textOf]
  | list typeId elements =>
    have helements := Elements.weight_of_heldBy elements h.2
    rw [List.map_map] at helements
    rw [NBTTag.weight_list h.1, Value.encode, List.length_cons, List.length_append,
      LittleEndian.length_bytes, ← helements, elementsWeight]
    simp only [Function.comp_def]
    omega
  | compound entries =>
    rw [NBTTag.weight_compound h.1, Value.encode, List.length_append, List.length_singleton,
      ← NamedValues.weight_of_heldBy entries h.2, Nat.add_comm]

lemma Elements.weight_of_heldBy (es : Elements) {tags : List NBTTag} (h : es.HeldBy tags) :
    (tags.map NBTTag.weight).sum = es.encode.length := by
  cases es with
  | nil =>
    rw [Elements.HeldBy] at h
    rw [h, Elements.encode, List.map_nil, List.sum_nil, List.length_nil]
  | cons v rest =>
    obtain ⟨tag, others, hperm, hv, hrest⟩ := h
    rw [(hperm.map NBTTag.weight).sum_eq, List.map_cons, List.sum_cons, Elements.encode,
      List.length_append, v.weight_of_heldBy hv, Elements.weight_of_heldBy rest hrest]

lemma NamedValues.weight_of_heldBy (es : NamedValues) {inner : List (String × NBTTag)}
    (h : es.HeldBy inner) : entriesWeight inner = es.encode.length := by
  cases es with
  | nil =>
    rw [NamedValues.HeldBy] at h
    rw [h, NamedValues.encode, entriesWeight, List.map_nil, List.sum_nil, List.length_nil]
  | cons name v rest =>
    obtain ⟨tag, others, hperm, hv, hrest⟩ := h
    have hothers := NamedValues.weight_of_heldBy rest hrest
    unfold entriesWeight at hothers ⊢
    rw [(hperm.map _).sum_eq, List.map_cons, List.sum_cons, hothers, NamedValues.encode,
      v.weight_of_heldBy hv]
    simp only [length_textOf, encodeHeader, List.length_append, List.length_cons,
      LittleEndian.length_bytes]
    omega

end

mutual

/-- Every payload has a tag that holds it. -/
theorem Value.exists_heldBy (v : Value) : ∃ tag, v.HeldBy tag := by
  cases v with
  | byte n => exact ⟨{ NBTTag.named .BYTE "" with byteVal := some n }, rfl, rfl⟩
  | short n => exact ⟨{ NBTTag.named .SHORT "" with shortVal := some n }, rfl, rfl⟩
  | int n => exact ⟨{ NBTTag.named .INT "" with intVal := some n }, rfl, rfl⟩
  | long n => exact ⟨{ NBTTag.named .LONG "" with longVal := some n }, rfl, rfl⟩
  | string text => exact ⟨{ NBTTag.named .STRING "" with stringVal := textOf text }, rfl, rfl⟩
  | list typeId elements =>
    obtain ⟨inner, hinner⟩ := Elements.exists_heldBy elements
    exact ⟨{ NBTTag.named .LIST "" with innerTags := inner }, rfl, hinner⟩
  | compound entries =>
    obtain ⟨inner, hinner⟩ := NamedValues.exists_heldBy entries
    exact ⟨{ NBTTag.named .COMPOUND "" with innerTags := inner }, rfl, hinner⟩

lemma Elements.exists_heldBy (es : Elements) :
    ∃ inner : List (String × NBTTag), es.HeldBy (inner.map Prod.snd) := by
  cases es with
  | nil => exact ⟨[], rfl⟩
  | cons v rest =>
    obtain ⟨tag, htag⟩ := Value.exists_heldBy v
    obtain ⟨inner, hinner⟩ := Elements.exists_heldBy rest
    exact ⟨("", tag) :: inner, tag, _, List.Perm.refl _, htag, hinner⟩

lemma NamedValues.exists_heldBy (es : NamedValues) : ∃ inner, es.HeldBy inner := by
  cases es with
  | nil => exact ⟨[], rfl⟩
  | cons name v rest =>
    obtain ⟨tag, htag⟩ := Value.exists_heldBy v
    obtain ⟨inner, hinner⟩ := NamedValues.exists_heldBy rest
    exact ⟨(textOf name, tag) :: inner, tag, _, List.Perm.refl _, htag, hinner⟩

end

/-! ## What a call consumes -/

lemma parseNBTPayload_leaf_consumes {s : Slice} {fuel o : ℕ} {t : NBTTag} {r : ℕ × NBTTag}
    (h : parseNBTPayload s (fuel + 1) o t = .ok r) (ho : OnPage s o)
    (hsize : s.length < 1073741824) (hlist : t.type ≠ .LIST) (hcompound : t.type ≠ .COMPOUND) :
    o + r.2.weight ≤ r.1 := by
  have hlt := ho.lt
  obtain ⟨h1, h2, h4, -⟩ := @toUInt32_add o (by omega)
  rw [parseNBTPayload] at h
  cases htype : t.type with
  | LIST => exact absurd htype hlist
  | COMPOUND => exact absurd htype hcompound
  | END =>
    rw [htype] at h
    rw [← Except.ok.inj h, NBTTag.weight, htype]
    exact le_rfl
  | unknown id =>
    rw [htype] at h
    rw [← Except.ok.inj h, NBTTag.weight, htype]
    exact le_rfl
  | BYTE =>
    rw [htype] at h
    obtain ⟨b, _, hend⟩ := bind_eq_ok.mp h
    rw [← Except.ok.inj hend, h1, NBTTag.weight]
  | SHORT =>
    rw [htype] at h
    obtain ⟨n, _, hend⟩ := bind_eq_ok.mp h
    rw [← Except.ok.inj hend, h2, NBTTag.weight]
  | INT =>
    rw [htype] at h
    obtain ⟨n, _, hend⟩ := bind_eq_ok.mp h
    rw [← Except.ok.inj hend, h4, NBTTag.weight]
  | LONG =>
    rw [htype] at h
    obtain ⟨n, hn, _⟩ := bind_eq_ok.mp h
    exact absurd hn (parseLong_ne_ok s o n)
  | STRING =>
    rw [htype] at h
    obtain ⟨p, hp, hend⟩ := bind_eq_ok.mp h
    rcases parseString_cases ho hsize with ⟨p', hp', hnext, -, -⟩ | herr
    · obtain rfl := Except.ok.inj (hp.symm.trans hp')
      rw [← Except.ok.inj hend, NBTTag.weight]
      dsimp only
      omega
    · exact absurd (hp.symm.trans herr) (by simp)

namespace ParseCall

/-- How much a call that returned has read, by the tags that it returns. -/
def Consumes : ParseCall → ℕ × NBTTag → Prop
  | payload offset t, r => t.innerTags = [] → offset + r.2.weight ≤ r.1
  | list _ count offset t, r => r.2.type = t.type ∧
      offset + 2 * count + elementsWeight r.2.innerTags ≤ r.1 + elementsWeight t.innerTags
  | compound offset t, r => r.2.type = t.type ∧
      offset + 1 + entriesWeight r.2.innerTags ≤ r.1 + entriesWeight t.innerTags
  | tag offset t parseType, r => t.innerTags = [] →
      offset + (if parseType then 3 else 2) + r.2.name.length + r.2.weight ≤ r.1

variable {s : Slice} {c : ParseCall} {r : ℕ × NBTTag} {fuel : ℕ}

lemma onPage_of_run (hsize : s.length < 1073741824) (hpage : OnPage s c.start)
    (h : c.run s fuel = .ok r) : OnPage s r.1 := by
  have hout := outcome hsize fuel c hpage
  rw [h] at hout
  exact hout.2.1

section step

variable (hsize : s.length < 1073741824)
  (ih : ∀ {c : ParseCall} {r : ℕ × NBTTag}, OnPage s c.start → c.run s fuel = .ok r → c.Consumes r)
include hsize ih

lemma consumes_payload {o : ℕ} {t : NBTTag} (hpage : OnPage s o)
    (h : parseNBTPayload s (fuel + 1) o t = .ok r) : (payload o t).Consumes r := by
  intro hinner
  by_cases hcompound : t.type = .COMPOUND
  · rw [parseNBTPayload, hcompound] at h
    obtain ⟨htype, hle⟩ := @ih (compound o t) r hpage h
    rw [NBTTag.weight_compound (htype.trans hcompound)]
    rw [hinner, entriesWeight_nil] at hle
    omega
  · by_cases hlist : t.type = .LIST
    · obtain ⟨id, listType, length, -, -, -, hbytes, -, hloop⟩ := parseNBTPayload_list h hlist hsize
      have hstart : OnPage s (o + 5) := onPage_of_le (by omega)
      obtain ⟨htype, hle⟩ := @ih (list listType length.toNat (o + 5) t) r hstart hloop
      rw [NBTTag.weight_list (htype.trans hlist)]
      rw [hinner, elementsWeight_nil] at hle
      omega
    · exact parseNBTPayload_leaf_consumes h hpage hsize hlist hcompound

lemma consumes_list {listType : NBTType} {count o : ℕ} {t : NBTTag} (hpage : OnPage s o)
    (h : listLoop s (fuel + 1) listType count o t = .ok r) :
    (list listType count o t).Consumes r := by
  cases count with
  | zero =>
    rw [listLoop] at h
    rw [← Except.ok.inj h]
    exact ⟨rfl, le_rfl⟩
  | succ count =>
    rw [listLoop] at h
    obtain ⟨p, helement, hrest⟩ := bind_eq_ok.mp h
    have hle := @ih (tag o { NBTTag.new with type := listType } false) p hpage helement rfl
    have hnext := @onPage_of_run s (tag o { NBTTag.new with type := listType } false) p fuel
      hsize hpage helement
    obtain ⟨htype, hrestLe⟩ := @ih (list listType count p.1 (t.addInnerTag p.2)) r hnext hrest
    have hadd := elementsWeight_add_le t p.2
    refine ⟨htype, ?_⟩
    simp only [Bool.false_eq_true, if_false] at hle
    omega

lemma consumes_compound {o : ℕ} {t : NBTTag} (hpage : OnPage s o)
    (h : compoundLoop s (fuel + 1) o t = .ok r) : (compound o t).Consumes r := by
  rw [compoundLoop] at h
  obtain ⟨b, hb, hrest⟩ := bind_eq_ok.mp h
  have hbyte := (@charAt_moved [] s [] o b hb).1
  by_cases hzero : b ≠ 0
  · rw [if_pos hzero] at hrest
    obtain ⟨p, hentry, hrest⟩ := bind_eq_ok.mp hrest
    have hle := @ih (tag o NBTTag.new true) p hpage hentry rfl
    have hnext := @onPage_of_run s (tag o NBTTag.new true) p fuel hsize hpage hentry
    obtain ⟨htype, hrestLe⟩ := @ih (compound p.1 (t.addInnerTag p.2)) r hnext hrest
    have hadd := entriesWeight_add_le t p.2
    refine ⟨htype, ?_⟩
    simp only [if_true] at hle
    omega
  · rw [if_neg hzero, (toUInt32_add (by omega)).1] at hrest
    rw [← Except.ok.inj hrest]
    exact ⟨rfl, le_rfl⟩

lemma consumes_tag {o : ℕ} {t : NBTTag} {parseType : Bool} (hpage : OnPage s o)
    (h : parseNBTTag s (fuel + 1) o t parseType = .ok r) : (tag o t parseType).Consumes r := by
  intro hinner
  rw [parseNBTTag] at h
  obtain ⟨p, hheader, hpayload⟩ := bind_eq_ok.mp h
  rcases parseNBTHeader_cases t parseType hpage hsize with
    ⟨p', hp', hend, hinner', hnext, -⟩ | herr | ⟨herr, -⟩
  · obtain rfl := Except.ok.inj (hheader.symm.trans hp')
    have hle := @ih (payload p.1 p.2) r hnext hpayload (hinner'.trans hinner)
    rw [(parse_name s fuel).1 _ _ _ hpayload]
    omega
  · exact absurd (hheader.symm.trans herr) (by simp)
  · exact absurd (hheader.symm.trans herr) (by simp)

end step

/-- By induction on the fuel, as each call is made with less of it. -/
theorem consumes (hsize : s.length < 1073741824) (hpage : OnPage s c.start)
    (h : c.run s fuel = .ok r) : c.Consumes r := by
  induction fuel generalizing c r with
  | zero =>
    cases c with
    | payload o t => exact absurd h (by simp [run, parseNBTPayload])
    | list listType count o t => exact absurd h (by simp [run, listLoop])
    | compound o t => exact absurd h (by simp [run, compoundLoop])
    | tag o t parseType => exact absurd h (by simp [run, parseNBTTag])
  | succ fuel ih =>
    cases c with
    | payload o t => exact consumes_payload hsize ih hpage h
    | list listType count o t => exact consumes_list hsize ih hpage h
    | compound o t => exact consumes_compound hsize ih hpage h
    | tag o t parseType => exact consumes_tag hsize ih hpage h

end ParseCall

/-! ## Lists -/

lemma Elements.count_le (es : Elements) : es.count ≤ es.encode.length := by
  cases es with
  | nil => exact le_rfl
  | cons v rest =>
    have hrest := rest.count_le
    have hv : 0 < v.encode.length := by
      cases v <;> simp [Value.encode]
    rw [Elements.count, Elements.encode, List.length_append]
    omega

lemma Elements.count_eq_zero {es : Elements} (h : es.count = 0) : es = .nil := by
  cases es with
  | nil => rfl
  | cons v rest => exact absurd h (Nat.succ_ne_zero _)

lemma elementsWeight_append (inner added : List (String × NBTTag)) :
    elementsWeight (inner ++ added) = elementsWeight inner + elementsWeight added := by
  unfold elementsWeight
  rw [List.map_append, List.sum_append]

lemma Elements.elementsWeight_of_heldBy {es : Elements} {added : List (String × NBTTag)}
    (h : es.HeldBy (added.map Prod.snd)) : elementsWeight added = es.encode.length := by
  have hweight := es.weight_of_heldBy h
  rwa [List.map_map] at hweight

/-- A list is decoded exactly if its type byte is one and it has no elements: each element costs two
bytes more than it weighs. -/
theorem list_decodes_iff (typeId : UInt8) (elements : Elements) (p q : Slice) {tag : NBTTag}
    (htype : tag.type = .LIST)
    (hlen : (p ++ (Value.list typeId elements).encode ++ q).length ≤ 32768) :
    DecodesList typeId elements p q tag ↔ typeId < 16 ∧ elements.count = 0 := by
  have hat := Slice.at_middle p (Value.list typeId elements).encode q
  unfold DecodesList
  generalize p ++ (Value.list typeId elements).encode ++ q = s at hlen hat ⊢
  have hcount := elements.count_le
  have hbytes := hat.le_length (by simp [Value.encode])
  rw [Value.encode] at hat hbytes ⊢
  obtain ⟨hlength, -⟩ := Slice.at_append.mp (Slice.at_cons.mp hat).2
  simp only [List.length_cons, List.length_append, LittleEndian.length_bytes] at hbytes ⊢
  have hread := parseInt32_at hlength (by omega)
  constructor
  · rintro ⟨fuel, tag', added, hrun, hperm, hheld⟩
    cases fuel with
    | zero => exact absurd hrun (by simp [parseNBTPayload])
    | succ fuel =>
      obtain ⟨id, listType, length, hid, hof, hlength', -, -, hloop⟩ :=
        parseNBTPayload_list hrun htype (by omega)
      obtain rfl := Except.ok.inj (hid.symm.trans hat.charAt)
      have hsmall : id < 16 := by
        rcases NBTType.ofByte_cases id with ⟨hsmall, -⟩ | ⟨-, hlarge⟩
        · exact hsmall
        · exact absurd (hof.symm.trans hlarge) (by simp)
      have hcountEq : length.toNat = elements.count := by
        rw [hread] at hlength'
        rw [← Except.ok.inj hlength', BitVec.toNat_ofNat, Nat.mod_eq_of_lt (by omega)]
      have hstart : OnPage s (p.length + 5) := onPage_of_le (by omega)
      obtain ⟨-, hle⟩ := @ParseCall.consumes s
        (.list listType length.toNat (p.length + 5) tag) _ fuel
        (by omega) hstart hloop
      have hadded := (hperm.map fun p => p.2.weight).sum_eq
      change elementsWeight tag'.innerTags = elementsWeight (tag.innerTags ++ added) at hadded
      rw [elementsWeight_append, Elements.elementsWeight_of_heldBy hheld] at hadded
      dsimp only at hle
      exact ⟨hsmall, by omega⟩
  · rintro ⟨hsmall, hzero⟩
    obtain rfl := Elements.count_eq_zero hzero
    obtain ⟨-, listType, hof⟩ := (NBTType.ofByte_cases typeId).resolve_right fun h => h.1 hsmall
    refine ⟨2, tag, [], ?_, by rw [List.append_nil], rfl⟩
    rw [parseNBTPayload, htype]
    dsimp only
    rw [hat.charAt, ok_bind, hof, ok_bind, (toUInt32_add (by omega)).1,
      (toUInt32_add (by omega)).2.2.2, hread]
    rfl

/-- No elements, in a list behind another byte. -/
theorem list_decodes_empty : DecodesList 1 .nil [0] [] (NBTTag.named .LIST "") :=
  (list_decodes_iff 1 .nil [0] [] rfl (by decide)).mpr ⟨by decide, rfl⟩

/-- One `BYTE` element: the length of its name is read from the element and past the slice. -/
theorem list_decodes_one_byte :
    ¬DecodesList 1 (.cons (.byte 5) .nil) [] [] (NBTTag.named .LIST "") := by
  rintro ⟨fuel, tag', added, hrun, -, -⟩
  have hstop : (ParseCall.payload 0 (NBTTag.named .LIST "")).run [1, 1, 0, 0, 0, 5] 4 =
      .error .assertion := rfl
  exact absurd (ParseCall.run_unique hstop hrun (by simp) (by simp)) (by simp)

end ChunkViewer
