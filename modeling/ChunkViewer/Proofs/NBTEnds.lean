import ChunkViewer.Proofs.NBTCalls

/-!
# Decoding ends

A part that is all there is read by every call for it, and where the bytes of a part lead to
bytes without a meaning, so does every call. So a call ends, with a return or at the assertion of
the slice, exactly where its bytes lead to none.
-/

namespace ChunkViewer

open ExceptRun

namespace ParseCall

variable {s : Slice} {fuel : ℕ} {c : ParseCall}

/-! ## From the bytes to the calls -/

lemma part_eq_payload {o : ℕ} {type : NBTType} (h : c.part = .payload o type) :
    ∃ t, c = payload o t ∧ t.type = type := by
  cases c with
  | payload o' t =>
    simp only [part, TagPart.payload.injEq] at h
    obtain ⟨rfl, htype⟩ := h
    exact ⟨t, rfl, htype⟩
  | _ => exact absurd h (by simp [part])

lemma part_eq_list {listType : NBTType} {count o : ℕ} (h : c.part = .list listType count o) :
    ∃ t, c = list listType count o t := by
  cases c with
  | list listType' count' o' t =>
    simp only [part, TagPart.list.injEq] at h
    obtain ⟨rfl, rfl, rfl⟩ := h
    exact ⟨t, rfl⟩
  | _ => exact absurd h (by simp [part])

lemma part_eq_compound {o : ℕ} (h : c.part = .compound o) : ∃ t, c = compound o t := by
  cases c with
  | compound o' t =>
    simp only [part, TagPart.compound.injEq] at h
    obtain rfl := h
    exact ⟨t, rfl⟩
  | _ => exact absurd h (by simp [part])

lemma part_eq_tag {o : ℕ} {type : NBTType} {parseType : Bool} (h : c.part = .tag o type parseType) :
    ∃ t, c = tag o t parseType ∧ t.type = type := by
  cases c with
  | tag o' t parseType' =>
    simp only [part, TagPart.tag.injEq] at h
    obtain ⟨rfl, htype, rfl⟩ := h
    exact ⟨t, rfl, htype⟩
  | _ => exact absurd h (by simp [part])

/-- Every call that reads the part returns at the offset. -/
def Returns (s : Slice) (part : TagPart) (o : ℕ) : Prop :=
  ∀ c : ParseCall, c.part = part → ∃ fuel t, c.run s fuel = .ok (o, t)

/-- Every call that reads the part gets to an undefined expression. -/
def Breaks (s : Slice) (part : TagPart) : Prop :=
  ∀ c : ParseCall, c.part = part → ∃ fuel what, c.run s fuel = .error (.undefined what)

lemma returns_of_spans (hsize : s.length < 1073741824) {part : TagPart} {o' : ℕ}
    (h : part.Spans s o') (hpage : OnPage s part.start) : OnPage s o' ∧ Returns s part o' := by
  induction h with
  | ending o =>
    refine ⟨hpage, fun c hc => ?_⟩
    obtain ⟨t, rfl, htype⟩ := part_eq_payload hc
    exact ⟨1, t, by simp only [run]; rw [parseNBTPayload, htype]⟩
  | unknown o id =>
    refine ⟨hpage, fun c hc => ?_⟩
    obtain ⟨t, rfl, htype⟩ := part_eq_payload hc
    exact ⟨1, t, by simp only [run]; rw [parseNBTPayload, htype]⟩
  | @byte o hbyte =>
    refine ⟨onPage_of_le (by omega), fun c hc => ?_⟩
    obtain ⟨t, rfl, htype⟩ := part_eq_payload hc
    refine ⟨1, { t with byteVal := some s[o].toBitVec }, ?_⟩
    simp only [run]
    rw [parseNBTPayload, htype]
    dsimp only
    rw [charAt_natCast (List.getElem?_eq_getElem hbyte), ok_bind, (toUInt32_add (by omega)).1]
  | @short o n hn =>
    have hlt := hpage.lt
    refine ⟨hpage.add (parseShort_bytes hn).1 (by norm_num), fun c hc => ?_⟩
    obtain ⟨t, rfl, htype⟩ := part_eq_payload hc
    refine ⟨1, { t with shortVal := some n }, ?_⟩
    simp only [run, TagPart.start] at hlt ⊢
    rw [parseNBTPayload, htype]
    dsimp only
    rw [hn, ok_bind, (toUInt32_add (by omega)).2.1]
  | @int o n hn =>
    have hlt := hpage.lt
    simp only [TagPart.start] at hlt
    have hbytes := parseInt32_bytes hn (by omega)
    refine ⟨onPage_of_le (by omega), fun c hc => ?_⟩
    obtain ⟨t, rfl, htype⟩ := part_eq_payload hc
    refine ⟨1, { t with intVal := some n }, ?_⟩
    simp only [run]
    rw [parseNBTPayload, htype]
    dsimp only
    rw [hn, ok_bind, (toUInt32_add (by omega)).2.2.1]
  | @string o o' n hn hpos hat =>
    obtain ⟨hend, text, htext⟩ := hat.parseString hn hpos hpage hsize
    refine ⟨hend, fun c hc => ?_⟩
    obtain ⟨t, rfl, htype⟩ := part_eq_payload hc
    refine ⟨1, { t with stringVal := text }, ?_⟩
    simp only [run]
    rw [parseNBTPayload, htype]
    dsimp only
    rw [htext, ok_bind]
  | @list o o' id listType n hget hof hn hfew _ ih =>
    have hlt := hpage.lt
    simp only [TagPart.start] at hlt ih
    have hbyte := (List.getElem?_eq_some_iff.mp hget).1
    have hbytes := parseInt32_bytes hn (by omega)
    obtain ⟨hend, hreturns⟩ := ih (onPage_of_le (by omega))
    refine ⟨hend, fun c hc => ?_⟩
    obtain ⟨t, rfl, htype⟩ := part_eq_payload hc
    obtain ⟨f, t', hloop⟩ := hreturns (list listType n.toNat (o + 5) t) rfl
    refine ⟨f + 1, t', ?_⟩
    rw [run_payload_list htype hget hof (by omega) hn, Nat.min_eq_left (by omega), hloop, ok_bind,
      if_neg (by omega)]
  | compound _ ih =>
    obtain ⟨hend, hreturns⟩ := ih hpage
    refine ⟨hend, fun c hc => ?_⟩
    obtain ⟨t, rfl, htype⟩ := part_eq_payload hc
    obtain ⟨f, t', hloop⟩ := hreturns (compound _ t) rfl
    exact ⟨f + 1, t', (run_payload_compound htype).trans hloop⟩
  | nil listType o =>
    refine ⟨hpage, fun c hc => ?_⟩
    obtain ⟨t, rfl⟩ := part_eq_list hc
    exact ⟨1, t, rfl⟩
  | @cons listType count o o₁ o₂ _ _ ihTag ihList =>
    obtain ⟨hmid, htag⟩ := ihTag hpage
    obtain ⟨hend, hlist⟩ := ihList hmid
    refine ⟨hend, fun c hc => ?_⟩
    obtain ⟨t, rfl⟩ := part_eq_list hc
    obtain ⟨f, inner, hinner⟩ := htag (tag o { NBTTag.new with type := listType } false) rfl
    obtain ⟨g, t', hrest⟩ := hlist (list listType count o₁ (t.addInnerTag inner)) rfl
    exact ⟨max f g + 1, t',
      run_seq (fun _ => run_list_succ listType count o t) hinner hrest (by simp)⟩
  | @close o hget =>
    have hbyte := (List.getElem?_eq_some_iff.mp hget).1
    refine ⟨onPage_of_le (by omega), fun c hc => ?_⟩
    obtain ⟨t, rfl⟩ := part_eq_compound hc
    refine ⟨1, t, ?_⟩
    simp only [run]
    rw [compoundLoop, charAt_natCast hget, ok_bind, if_neg (not_not.mpr rfl),
      (toUInt32_add (by omega)).1]
  | @entry o o₁ o₂ b hget hzero _ _ ihTag ihCompound =>
    obtain ⟨hmid, htag⟩ := ihTag hpage
    obtain ⟨hend, hcompound⟩ := ihCompound hmid
    refine ⟨hend, fun c hc => ?_⟩
    obtain ⟨t, rfl⟩ := part_eq_compound hc
    obtain ⟨f, inner, hinner⟩ := htag (tag o NBTTag.new true) rfl
    obtain ⟨g, t', hrest⟩ := hcompound (compound o₁ (t.addInnerTag inner)) rfl
    exact ⟨max f g + 1, t',
      run_seq (fun _ => run_compound_entry hget hzero t) hinner hrest (by simp)⟩
  | @tag o o₁ o₂ type type' parseType hat _ ih =>
    obtain ⟨hmid, -⟩ := hat.read hpage hsize { NBTTag.new with type := type } rfl
    obtain ⟨hend, hpayload⟩ := ih hmid
    refine ⟨hend, fun c hc => ?_⟩
    obtain ⟨t, rfl, htype⟩ := part_eq_tag hc
    obtain ⟨-, t₁, hheader, htype'⟩ := hat.read hpage hsize t htype
    obtain ⟨f, t', hrest⟩ := hpayload (payload o₁ t₁) (congrArg (TagPart.payload o₁) htype')
    exact ⟨f + 1, t', (run_tag hheader).trans hrest⟩

/-- The next part is on the page too, and if every call that reads it breaks so does every call
that reads the part it lies in. -/
lemma breaks_of_leadsTo (hsize : s.length < 1073741824) {part part' : TagPart}
    (h : part.LeadsTo s part') (hpage : OnPage s part.start) :
    OnPage s part'.start ∧ (Breaks s part' → Breaks s part) := by
  cases h with
  | @list o id listType n hget hof hn =>
    have hlt := hpage.lt
    simp only [TagPart.start] at hlt
    have hbyte := (List.getElem?_eq_some_iff.mp hget).1
    have hbytes := parseInt32_bytes hn (by omega)
    refine ⟨onPage_of_le (by simp only [TagPart.start]; omega), fun hbreaks c hc => ?_⟩
    obtain ⟨t, rfl, htype⟩ := part_eq_payload hc
    obtain ⟨f, what, hloop⟩ := hbreaks (list listType (min n.toNat 2147483648) (o + 5) t) rfl
    refine ⟨f + 1, what, ?_⟩
    rw [run_payload_list htype hget hof (by omega) hn, hloop, error_bind]
  | compound o =>
    refine ⟨hpage, fun hbreaks c hc => ?_⟩
    obtain ⟨t, rfl, htype⟩ := part_eq_payload hc
    obtain ⟨f, what, hloop⟩ := hbreaks (compound o t) rfl
    exact ⟨f + 1, what, (run_payload_compound htype).trans hloop⟩
  | element listType count o =>
    refine ⟨hpage, fun hbreaks c hc => ?_⟩
    obtain ⟨t, rfl⟩ := part_eq_list hc
    obtain ⟨f, what, hinner⟩ := hbreaks (tag o { NBTTag.new with type := listType } false) rfl
    exact ⟨f + 1, what, by rw [run_list_succ, hinner, error_bind]⟩
  | @elements listType o o' count hspans =>
    obtain ⟨hend, htag⟩ := returns_of_spans hsize hspans hpage
    refine ⟨hend, fun hbreaks c hc => ?_⟩
    obtain ⟨t, rfl⟩ := part_eq_list hc
    obtain ⟨f, inner, hinner⟩ := htag (tag o { NBTTag.new with type := listType } false) rfl
    obtain ⟨g, what, hrest⟩ := hbreaks (list listType count o' (t.addInnerTag inner)) rfl
    exact ⟨max f g + 1, what,
      run_seq (fun _ => run_list_succ listType count o t) hinner hrest (by simp)⟩
  | @entry o b hget hzero =>
    refine ⟨hpage, fun hbreaks c hc => ?_⟩
    obtain ⟨t, rfl⟩ := part_eq_compound hc
    obtain ⟨f, what, hinner⟩ := hbreaks (tag o NBTTag.new true) rfl
    exact ⟨f + 1, what, by rw [run_compound_entry hget hzero, hinner, error_bind]⟩
  | @entries o o' b hget hzero hspans =>
    obtain ⟨hend, htag⟩ := returns_of_spans hsize hspans hpage
    refine ⟨hend, fun hbreaks c hc => ?_⟩
    obtain ⟨t, rfl⟩ := part_eq_compound hc
    obtain ⟨f, inner, hinner⟩ := htag (tag o NBTTag.new true) rfl
    obtain ⟨g, what, hrest⟩ := hbreaks (compound o' (t.addInnerTag inner)) rfl
    exact ⟨max f g + 1, what,
      run_seq (fun _ => run_compound_entry hget hzero t) hinner hrest (by simp)⟩
  | @payload o o' type type' parseType hat =>
    obtain ⟨hmid, -⟩ := hat.read hpage hsize { NBTTag.new with type := type } rfl
    refine ⟨hmid, fun hbreaks c hc => ?_⟩
    obtain ⟨t, rfl, htype⟩ := part_eq_tag hc
    obtain ⟨-, t₁, hheader, htype'⟩ := hat.read hpage hsize t htype
    obtain ⟨f, what, hrest⟩ := hbreaks (payload o' t₁) (congrArg (TagPart.payload o') htype')
    exact ⟨f + 1, what, (run_tag hheader).trans hrest⟩

lemma breaks_of_undefined {part : TagPart} (h : part.Undefined s) : Breaks s part := by
  intro c hc
  cases part with
  | payload o type =>
    obtain ⟨t, rfl, htype⟩ := part_eq_payload hc
    cases type with
    | LONG =>
      obtain ⟨hmod, hbytes⟩ := h
      refine ⟨1, .byteShift, ?_⟩
      simp only [run]
      rw [parseNBTPayload, htype]
      dsimp only
      unfold parseLong
      rw [toInt16_of_lt hmod, parseLittleEndian_wide s _ 8 0 0 (by omega) (by omega) (by omega),
        if_pos hbytes]
      rfl
    | LIST =>
      obtain ⟨id, hget, hlarge⟩ := h
      have hof := (NBTType.ofByte_cases id).resolve_left fun hsmall => hlarge hsmall.1
      refine ⟨1, .tagType, ?_⟩
      simp only [run]
      rw [parseNBTPayload, htype]
      dsimp only
      rw [charAt_natCast hget, ok_bind, hof.2]
      rfl
    | _ => exact h.elim
  | tag o type parseType =>
    obtain ⟨t, rfl, -⟩ := part_eq_tag hc
    cases parseType with
    | true =>
      obtain ⟨id, hget, hlarge⟩ := h
      have hof := (NBTType.ofByte_cases id).resolve_left fun hsmall => hlarge hsmall.1
      refine ⟨1, .tagType, ?_⟩
      simp only [run]
      rw [parseNBTTag, parseNBTHeader, parseTypeByte, if_pos rfl, charAt_natCast hget, ok_bind,
        hof.2]
      rfl
    | false => exact h.elim
  | _ => exact h.elim

lemma breaks_of_reachesUndefined (hsize : s.length < 1073741824) {part : TagPart}
    (hpage : OnPage s part.start) (h : part.ReachesUndefined s) : Breaks s part := by
  obtain ⟨last, hreach, hundefined⟩ := h
  induction hreach using Relation.ReflTransGen.head_induction_on with
  | refl => exact breaks_of_undefined hundefined
  | head hleads _ ih =>
    obtain ⟨hnext, hbreaks⟩ := breaks_of_leadsTo hsize hleads hpage
    exact hbreaks (ih hnext)

/-- The call returns or ends at the assertion of the slice. -/
def Ends (s : Slice) (c : ParseCall) : Prop :=
  ∃ fuel, (∃ r, c.run s fuel = .ok r) ∨ c.run s fuel = .error .assertion

lemma not_ends_of_undefined {what : Undefined} (h : c.run s fuel = .error (.undefined what)) :
    ¬c.Ends s := by
  rintro ⟨fuel', ⟨r, hr⟩ | herr⟩
  · exact absurd (run_unique h hr (by simp) (by simp)) (by simp)
  · exact absurd (run_unique h herr (by simp) (by simp)) (by simp)

lemma ends_iff (hsize : s.length < 1073741824) (hpage : OnPage s c.start) :
    c.Ends s ↔ ¬c.part.ReachesUndefined s := by
  constructor
  · intro hends hundefined
    obtain ⟨fuel, what, hbreak⟩ := breaks_of_reachesUndefined hsize hpage hundefined c rfl
    exact not_ends_of_undefined hbreak hends
  · intro hdefined
    have hout := outcome hsize (c.need s) c hpage
    refine ⟨c.need s, ?_⟩
    cases hrun : c.run s (c.need s) with
    | ok r => exact Or.inl ⟨r, rfl⟩
    | error e =>
      rw [hrun] at hout
      cases e with
      | assertion => exact Or.inr rfl
      | undefined what => exact absurd hout hdefined
      | outOfFuel => exact absurd hout (lt_irrefl _)

end ParseCall

/-- Decoding ends and advances, exactly where the bytes lead to no part that starts with bytes
without a meaning. -/
theorem nbt_parse_ends {s : Slice} (hsize : s.length < 1073741824) {offset : ℕ}
    (hoffset : offset ≤ s.length) :
    (∀ t, (ParseCall.payload offset t).Ends s ↔
      ¬(TagPart.payload offset t.type).ReachesUndefined s) ∧
      ∀ t parseType, ((ParseCall.tag offset t parseType).Ends s ∧
        ∀ fuel r, parseNBTTag s fuel offset t parseType = .ok r →
          offset + (if parseType then 3 else 2) ≤ r.1) ↔
        ¬(TagPart.tag offset t.type parseType).ReachesUndefined s := by
  have hpage : OnPage s offset := onPage_of_le (by omega)
  refine ⟨fun t => @ParseCall.ends_iff s (.payload offset t) hsize hpage, ?_⟩
  intro t parseType
  rw [@ParseCall.ends_iff s (.tag offset t parseType) hsize hpage]
  refine and_iff_left ?_
  intro fuel r hr
  have hout := ParseCall.outcome hsize fuel (.tag offset t parseType) hpage
  simp only [ParseCall.run] at hout
  rw [hr] at hout
  exact hout.1

/-- A compound with a list of two named elements. -/
def listInCompound : Slice :=
  [10, 0, 0, 9, 1, 0, 97, 1, 2, 0, 0, 0, 1, 0, 98, 5, 1, 0, 99, 6, 0]

theorem nbt_parse_ends_listInCompound :
    ¬(TagPart.tag 0 .END true).ReachesUndefined listInCompound ∧
      ∀ fuel r, parseNBTTag listInCompound fuel 0 NBTTag.new true = .ok r → 3 ≤ r.1 := by
  have hends : (ParseCall.tag 0 NBTTag.new true).Ends listInCompound := ⟨10, Or.inl ⟨_, rfl⟩⟩
  have hdefined := (ParseCall.ends_iff (by decide) (onPage_of_le (Nat.zero_le _))).mp hends
  exact ⟨hdefined, fun fuel r hr => by
    simpa using (((nbt_parse_ends (s := listInCompound) (by decide) (Nat.zero_le _)).2 NBTTag.new
      true).mpr hdefined).2 fuel r hr⟩

/-- A long tag without a name: eight bytes follow, and the fifth is shifted by 32. A type byte that
is no value of the enumeration. -/
theorem nbt_parse_long_shifts :
    (¬(ParseCall.tag 0 NBTTag.new true).Ends [4, 0, 0, 1, 0, 0, 0, 0, 0, 0, 0] ∧
      parseNBTTag [4, 0, 0, 1, 0, 0, 0, 0, 0, 0, 0] 2 0 NBTTag.new true =
        .error (.undefined .byteShift)) ∧
    ¬(ParseCall.tag 0 NBTTag.new true).Ends [32, 0, 0] ∧
      parseNBTTag [32, 0, 0] 2 0 NBTTag.new true = .error (.undefined .tagType) := by
  have hshift : (ParseCall.tag 0 NBTTag.new true).run [4, 0, 0, 1, 0, 0, 0, 0, 0, 0, 0] 2 =
      .error (.undefined .byteShift) := rfl
  have htype : (ParseCall.tag 0 NBTTag.new true).run [32, 0, 0] 2 =
      .error (.undefined .tagType) := rfl
  exact ⟨⟨ParseCall.not_ends_of_undefined hshift, hshift⟩, ParseCall.not_ends_of_undefined htype, htype⟩

end ChunkViewer
