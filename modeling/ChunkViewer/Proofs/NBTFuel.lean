import ChunkViewer.Proofs.SliceReads
import ChunkViewer.Model.NBTTag

/-!
# Fuel and names of a decode

More fuel does not change a decode that ends, and a payload leaves the name alone that the
header gave to the tag.
-/

namespace ChunkViewer

open ExceptRun

/-! ## Fuel -/

/-- By induction on the fuel, for the four functions together. -/
lemma parse_agrees (s : Slice) (fuel : ℕ) :
    (∀ offset tag, AgreesUnless .outOfFuel (parseNBTPayload s fuel offset tag)
      (parseNBTPayload s (fuel + 1) offset tag)) ∧
    (∀ type count offset tag, AgreesUnless .outOfFuel (listLoop s fuel type count offset tag)
      (listLoop s (fuel + 1) type count offset tag)) ∧
    (∀ offset tag, AgreesUnless .outOfFuel (compoundLoop s fuel offset tag)
      (compoundLoop s (fuel + 1) offset tag)) ∧
    (∀ offset tag typed, AgreesUnless .outOfFuel (parseNBTTag s fuel offset tag typed)
      (parseNBTTag s (fuel + 1) offset tag typed)) := by
  induction fuel with
  | zero =>
    refine ⟨?_, ?_, ?_, ?_⟩
    · intro offset tag
      exact AgreesUnless.error _ _
    · intro type count offset tag
      exact AgreesUnless.error _ _
    · intro offset tag
      exact AgreesUnless.error _ _
    · intro offset tag typed
      exact AgreesUnless.error _ _
  | succ fuel ih =>
    obtain ⟨ihPayload, ihList, ihCompound, ihTag⟩ := ih
    refine ⟨?_, ?_, ?_, ?_⟩
    · intro offset tag
      rw [parseNBTPayload, parseNBTPayload]
      cases tag.type with
      | LIST =>
        apply (AgreesUnless.refl _ _).bind
        intro id
        apply (AgreesUnless.refl _ _).bind
        intro listType
        apply (AgreesUnless.refl _ _).bind
        intro length
        apply (ihList _ _ _ _).bind
        intro r
        exact AgreesUnless.refl _ _
      | COMPOUND => exact ihCompound offset tag
      | _ => exact AgreesUnless.refl _ _
    · intro type count offset tag
      cases count with
      | zero => exact AgreesUnless.refl _ _
      | succ count =>
        rw [listLoop, listLoop]
        apply (ihTag _ _ _).bind
        intro r
        exact ihList type count _ _
    · intro offset tag
      rw [compoundLoop, compoundLoop]
      apply (AgreesUnless.refl _ _).bind
      intro b
      by_cases hb : b ≠ 0
      · rw [if_pos hb, if_pos hb]
        apply (ihTag _ _ _).bind
        intro r
        exact ihCompound _ _
      · rw [if_neg hb, if_neg hb]
        exact AgreesUnless.refl _ _
    · intro offset tag typed
      rw [parseNBTTag, parseNBTTag]
      apply (AgreesUnless.refl _ _).bind
      intro r
      exact ihPayload _ _

lemma parseNBTTag_agrees (s : Slice) (offset : ℕ) (tag : NBTTag) (typed : Bool) {fuel fuel' : ℕ}
    (h : fuel ≤ fuel') : AgreesUnless .outOfFuel (parseNBTTag s fuel offset tag typed)
      (parseNBTTag s fuel' offset tag typed) :=
  AgreesUnless.of_le (fun fuel => (parse_agrees s fuel).2.2.2 offset tag typed) h

/-- The tag starts at the offset: some amount of fuel decodes it. -/
def DecodesTo (s : Slice) (offset : ℕ) (r : ℕ × NBTTag) : Prop :=
  ∃ fuel, parseNBTTag s fuel offset NBTTag.new true = .ok r

lemma not_decodesTo_of_error {s : Slice} {offset fuel : ℕ} {stop : Stop} {r : ℕ × NBTTag}
    (h : parseNBTTag s fuel offset NBTTag.new true = .error stop) (hstop : stop ≠ .outOfFuel) :
    ¬DecodesTo s offset r := by
  rintro ⟨fuel', h'⟩
  have herror := parseNBTTag_agrees s offset NBTTag.new true (Nat.le_max_left fuel fuel')
    (by rw [h]; simpa using hstop)
  have hok := parseNBTTag_agrees s offset NBTTag.new true (Nat.le_max_right fuel fuel')
    (by rw [h']; simp)
  rw [hok, h', h] at herror
  exact absurd herror (by simp)

/-! ## Names -/

lemma parseChars_length {s : Slice} {count offset : ℕ} {text : String} {r : ℕ × String}
    (h : parseChars s count offset text = .ok r) : r.2.length = text.length + count := by
  induction count generalizing offset text with
  | zero =>
    rw [parseChars] at h
    rw [← Except.ok.inj h]
    rfl
  | succ count ih =>
    rw [parseChars] at h
    obtain ⟨c, _, hrest⟩ := bind_eq_ok.mp h
    rw [ih hrest, String.length_push]
    omega

lemma NBTTag.name_addInnerTag (t tag : NBTTag) : (t.addInnerTag tag).name = t.name := rfl

lemma parse_name (s : Slice) (fuel : ℕ) :
    (∀ offset tag r, parseNBTPayload s fuel offset tag = .ok r → r.2.name = tag.name) ∧
    (∀ type count offset tag r, listLoop s fuel type count offset tag = .ok r →
      r.2.name = tag.name) ∧
    (∀ offset tag r, compoundLoop s fuel offset tag = .ok r → r.2.name = tag.name) := by
  induction fuel with
  | zero =>
    refine ⟨?_, ?_, ?_⟩
    · intro offset tag r h
      exact absurd h (by simp [parseNBTPayload])
    · intro type count offset tag r h
      exact absurd h (by simp [listLoop])
    · intro offset tag r h
      exact absurd h (by simp [compoundLoop])
  | succ fuel ih =>
    obtain ⟨ihPayload, ihList, ihCompound⟩ := ih
    refine ⟨?_, ?_, ?_⟩
    · intro offset tag r h
      rw [parseNBTPayload] at h
      cases htype : tag.type with
      | LIST =>
        simp only [htype] at h
        obtain ⟨id, _, hid⟩ := bind_eq_ok.mp h
        obtain ⟨listType, _, hlist⟩ := bind_eq_ok.mp hid
        obtain ⟨length, _, hlength⟩ := bind_eq_ok.mp hlist
        obtain ⟨r', hloop, hend⟩ := bind_eq_ok.mp hlength
        by_cases hmany : 2147483648 ≤ length.toNat
        · rw [if_pos hmany] at hend
          exact absurd hend (by simp)
        · rw [if_neg hmany] at hend
          rw [← Except.ok.inj hend]
          exact ihList _ _ _ _ _ hloop
      | COMPOUND =>
        simp only [htype] at h
        exact ihCompound _ _ _ h
      | END =>
        simp only [htype] at h
        rw [← Except.ok.inj h]
      | unknown id =>
        simp only [htype] at h
        rw [← Except.ok.inj h]
      | _ =>
        simp only [htype] at h
        obtain ⟨v, _, hv⟩ := bind_eq_ok.mp h
        rw [← Except.ok.inj hv]
    · intro type count offset tag r h
      cases count with
      | zero =>
        rw [listLoop] at h
        rw [← Except.ok.inj h]
      | succ count =>
        rw [listLoop] at h
        obtain ⟨r', _, hrest⟩ := bind_eq_ok.mp h
        rw [ihList _ _ _ _ _ hrest, NBTTag.name_addInnerTag]
    · intro offset tag r h
      rw [compoundLoop] at h
      obtain ⟨b, _, hb⟩ := bind_eq_ok.mp h
      by_cases hzero : b ≠ 0
      · rw [if_pos hzero] at hb
        obtain ⟨r', _, hrest⟩ := bind_eq_ok.mp hb
        rw [ihCompound _ _ _ hrest, NBTTag.name_addInnerTag]
      · rw [if_neg hzero] at hb
        rw [← Except.ok.inj hb]

lemma parseNBTTag_name {s : Slice} {fuel offset : ℕ} {tag : NBTTag} {r : ℕ × NBTTag}
    (h : parseNBTTag s fuel offset tag true = .ok r) :
    ∃ length, parseShort s (toUInt32 (offset + 1)) = .ok length ∧
      r.2.name.length = length.toInt.toNat := by
  cases fuel with
  | zero => exact absurd h (by simp [parseNBTTag])
  | succ fuel =>
    rw [parseNBTTag] at h
    obtain ⟨r', hheader, hpayload⟩ := bind_eq_ok.mp h
    rw [(parse_name s fuel).1 _ _ _ hpayload]
    unfold parseNBTHeader parseTypeByte at hheader
    rw [if_pos rfl] at hheader
    obtain ⟨typed, htyped, hname⟩ := bind_eq_ok.mp hheader
    obtain ⟨id, _, hid⟩ := bind_eq_ok.mp htyped
    obtain ⟨type, _, htype⟩ := bind_eq_ok.mp hid
    rw [← Except.ok.inj htype] at hname
    obtain ⟨length, hlength, hchars⟩ := bind_eq_ok.mp hname
    obtain ⟨text, htext, hend⟩ := bind_eq_ok.mp hchars
    refine ⟨length, hlength, ?_⟩
    rw [← Except.ok.inj hend, parseChars_length htext]
    exact Nat.zero_add _

end ChunkViewer
