import ChunkViewer.Proofs.NBTFuel
import ChunkViewer.Spec.ShortFields

/-!
# Moving a tag

The same tag at another offset of a longer slice. Every read but that of a 16-bit number
moves with the tag; a 16-bit read moves with it as long as its offset, narrowed to 16 bits,
stays nonnegative. Past that the decode ends at the assertion of the slice.
-/

namespace ChunkViewer

open ExceptRun

variable {p e t : Slice} {α β : Type}

/-! ## Single reads -/

lemma charAt_moved {o : ℕ} {b : UInt8} (h : e.charAt o = .ok b) :
    o < e.length ∧ Slice.charAt (p ++ e ++ t) (p.length + o : ℕ) = .ok b := by
  obtain ⟨_, hget⟩ := charAt_eq_ok.mp h
  rw [Int.toNat_natCast] at hget
  have ho := (List.getElem?_eq_some_iff.mp hget).1
  refine ⟨ho, charAt_natCast ?_⟩
  rw [List.append_assoc, List.getElem?_append_right (by omega), Nat.add_sub_cancel_left,
    List.getElem?_append_left ho, hget]

lemma parseInt32_moved {o : ℕ} {v : BitVec 32} (h : parseInt32 e o = .ok v)
    (hsize : p.length + e.length < 1073741824) (ho : o < 2147483648) :
    o + 4 ≤ e.length ∧ parseInt32 (p ++ e ++ t) (p.length + o) = .ok v := by
  have hbytes := parseInt32_bytes h ho
  refine ⟨hbytes, ?_⟩
  rw [parseInt32_eq hbytes (by omega)] at h
  rw [parseInt32_eq (by simp only [List.length_append]; omega) (by omega), window_append hbytes, h]

lemma parseShort_moved {o : ℕ} {v : BitVec 16} (h : parseShort e o = .ok v)
    (hp : p.length < 32768) : parseShort (p ++ e ++ t) (p.length + o) =
      if p.length + o % 65536 < 32768 then .ok v else .error .assertion := by
  obtain ⟨hmod, hbytes⟩ := parseShort_bytes h
  have hnarrow : (p.length + o) % 65536 = p.length + o % 65536 := by omega
  by_cases hfit : p.length + o % 65536 < 32768
  · rw [parseShort_eq hmod hbytes] at h
    rw [if_pos hfit, parseShort_eq (by omega) (by simp only [List.length_append]; omega), hnarrow,
      window_append hbytes, h]
  · rw [if_neg hfit]
    exact parseShort_assertion (by omega)

lemma parseLittleEndian_ne_ok {w : ℕ} (s : Slice) (offset : ℤ) (count i : ℕ) (r r' : BitVec w)
    (hi : 32 < (i + count) * 8) (hc : 0 < count) :
    parseLittleEndian w s offset count i r ≠ .ok r' := by
  intro h
  induction count generalizing i r with
  | zero => omega
  | succ count ih =>
    rw [parseLittleEndian] at h
    obtain ⟨index, _, hindex⟩ := bind_eq_ok.mp h
    obtain ⟨byte, _, hrest⟩ := bind_eq_ok.mp hindex
    by_cases hshift : 32 ≤ i * 8
    · rw [if_pos hshift] at hrest
      exact absurd hrest (by simp)
    · rw [if_neg hshift] at hrest
      exact ih (i + 1) _ (by omega) (by omega) hrest

/-- The fifth byte of a 64-bit number is shifted out of its `int`. -/
lemma parseLong_ne_ok (s : Slice) (o : ℕ) (v : BitVec 64) : parseLong s o ≠ .ok v :=
  parseLittleEndian_ne_ok s _ 8 0 0 v (by omega) (by omega)

/-! ## Offsets

A name length read behind the end of the slice comes from its start, so that an offset can
pass the end, but it stays on the page of 65536 bytes that it is on there. -/

def OnPage (e : Slice) (o : ℕ) : Prop := o - o % 65536 ≤ e.length + 4

lemma OnPage.lt {o : ℕ} (h : OnPage e o) : o < e.length + 65540 := by
  unfold OnPage at h
  omega

lemma onPage_of_le {o : ℕ} (h : o ≤ e.length + 4) : OnPage e o := by
  unfold OnPage
  omega

lemma OnPage.add {o k : ℕ} (h : OnPage e o) (ho : o % 65536 < 32768) (hk : k ≤ 32768) :
    OnPage e (o + k) := by
  unfold OnPage at *
  omega

lemma parseChars_moved {count o : ℕ} {text : String} {r : ℕ × String}
    (h : parseChars e count o text = .ok r) (ho : OnPage e o)
    (hsize : p.length + e.length < 1073741824) :
    r.1 = o + count ∧ OnPage e r.1 ∧
      parseChars (p ++ e ++ t) count (p.length + o) text = .ok (p.length + r.1, r.2) := by
  induction count generalizing o text with
  | zero =>
    rw [parseChars] at h
    rw [← Except.ok.inj h]
    exact ⟨rfl, ho, rfl⟩
  | succ count ih =>
    rw [parseChars] at h
    obtain ⟨c, hc, hrest⟩ := bind_eq_ok.mp h
    obtain ⟨hlt, hmoved⟩ := @charAt_moved p e t o c hc
    rw [(toUInt32_add (by omega)).1] at hrest
    obtain ⟨hend, hpage, hrun⟩ := ih hrest (onPage_of_le (by omega))
    refine ⟨by omega, hpage, ?_⟩
    rw [parseChars, hmoved, ok_bind, (toUInt32_add (by omega)).1, Nat.add_assoc, hrun]

lemma parseNBTPayload_list {s : Slice} {fuel o : ℕ} {tag : NBTTag} {r : ℕ × NBTTag}
    (h : parseNBTPayload s (fuel + 1) o tag = .ok r) (hlist : tag.type = .LIST)
    (hsize : s.length < 1073741824) :
    ∃ id listType length, s.charAt o = .ok id ∧ NBTType.ofByte id = .ok listType ∧
      parseInt32 s (o + 1) = .ok length ∧ o + 5 ≤ s.length ∧ length.toNat < 2147483648 ∧
      listLoop s fuel listType length.toNat (o + 5) tag = .ok r := by
  rw [parseNBTPayload, hlist] at h
  obtain ⟨id, hid, hrest⟩ := bind_eq_ok.mp h
  obtain ⟨listType, htype, hrest⟩ := bind_eq_ok.mp hrest
  have hbyte := (@charAt_moved [] s [] o id hid).1
  rw [(toUInt32_add (by omega)).1, (toUInt32_add (by omega)).2.2.2] at hrest
  obtain ⟨length, hlength, hrest⟩ := bind_eq_ok.mp hrest
  obtain ⟨p, hloop, hend⟩ := bind_eq_ok.mp hrest
  have hbytes := parseInt32_bytes hlength (by omega)
  dsimp only at hend
  split_ifs at hend with hmany
  rw [Nat.min_eq_left (by omega)] at hloop
  obtain rfl := Except.ok.inj hend
  exact ⟨id, listType, length, hid, htype, hlength, by omega, by omega, hloop⟩

/-! ## Runs with fields -/

/-- What is left of a run with the result `r` after the move: it ends at the assertion when
a field does not fit. -/
def moved (n : ℕ) (fields : List ℕ) (r : ℕ × α) : Exec (ℕ × α) :=
  if Fits n fields then .ok (n + r.1, r.2) else .error .assertion

lemma moved_nil (n : ℕ) (r : ℕ × α) : moved n [] r = .ok (n + r.1, r.2) := if_pos (fits_nil n)

lemma moved_bind {n : ℕ} {fields rest : List ℕ} {r : ℕ × α} {r' : ℕ × β}
    {k : ℕ × α → Exec (ℕ × β)} (h : k (n + r.1, r.2) = moved n rest r') :
    (moved n fields r >>= k) = moved n (fields ++ rest) r' := by
  unfold moved at *
  by_cases hfields : Fits n fields
  · rw [if_pos hfields, ok_bind, h]
    exact if_congr (by rw [fits_append, and_iff_right hfields]) rfl rfl
  · rw [if_neg hfields, error_bind, if_neg (fun hall => hfields (fits_append.mp hall).1)]

lemma moved_bind_nil {n : ℕ} {fields : List ℕ} {r : ℕ × α} {r' : ℕ × β}
    {k : ℕ × α → Exec (ℕ × β)} (h : k (n + r.1, r.2) = .ok (n + r'.1, r'.2)) :
    (moved n fields r >>= k) = moved n fields r' := by
  have hbind := @moved_bind α β n fields [] r r' k (h.trans (moved_nil n r').symm)
  rwa [List.append_nil] at hbind

lemma moved_short_bind {o : ℕ} {rest : List ℕ} {r : ℕ × α} {v : BitVec 16}
    {k : BitVec 16 → Exec (ℕ × α)} (hv : parseShort e o = .ok v) (hp : p.length < 32768)
    (h : k v = moved p.length rest r) :
    (parseShort (p ++ e ++ t) (p.length + o) >>= k) = moved p.length (o :: rest) r := by
  rw [parseShort_moved hv hp]
  unfold moved at *
  by_cases hfit : p.length + o % 65536 < 32768
  · rw [if_pos hfit, ok_bind, h]
    exact if_congr (by rw [fits_cons, and_iff_right hfit]) rfl rfl
  · rw [if_neg hfit, error_bind, if_neg (fun hall => hfit (fits_cons.mp hall).1)]

/-- The scan finds the end and the fields of a run with the result `r`, and the moved run
is what the fields leave of it. -/
def Moves (e : Slice) (n : ℕ) (scan : Exec (ℕ × List ℕ)) (run : Exec (ℕ × α)) (r : ℕ × α) : Prop :=
  ∃ fields, scan = .ok (r.1, fields) ∧ OnPage e r.1 ∧ run = moved n fields r

lemma Moves.bind {n : ℕ} {scan : Exec (ℕ × List ℕ)} {scan' : ℕ → Exec (ℕ × List ℕ)}
    {run : Exec (ℕ × α)} {k : ℕ × α → Exec (ℕ × β)} {r : ℕ × α} {r' : ℕ × β}
    (h : Moves e n scan run r) (h' : Moves e n (scan' r.1) (k (n + r.1, r.2)) r') :
    Moves e n (do
      let (offset, fields) ← scan
      let (offset, rest) ← scan' offset
      .ok (offset, fields ++ rest)) (run >>= k) r' := by
  obtain ⟨fields, hscan, _, hrun⟩ := h
  obtain ⟨rest, hscan', hpage, hrun'⟩ := h'
  refine ⟨fields ++ rest, ?_, hpage, ?_⟩
  · rw [hscan, ok_bind]
    dsimp only
    rw [hscan', ok_bind]
  · rw [hrun]
    exact moved_bind hrun'

/-! ## The parts of a tag -/

section parts

variable (hp : p.length < 32768) (hsize : p.length + e.length < 1073741824)
include hp hsize

omit hp in
lemma parseTypeByte_moved {o : ℕ} {type : NBTType} {typed : Bool} {r : ℕ × NBTType}
    (h : parseTypeByte e o type typed = .ok r) (ho : OnPage e o) :
    OnPage e r.1 ∧ r.1 < 1073741824 + 65540 ∧
      parseTypeByte (p ++ e ++ t) (p.length + o) type typed = .ok (p.length + r.1, r.2) := by
  unfold parseTypeByte at *
  have hlt := ho.lt
  by_cases htyped : typed = true
  · rw [if_pos htyped] at h ⊢
    obtain ⟨id, hid, htype⟩ := bind_eq_ok.mp h
    obtain ⟨type', hof, hend⟩ := bind_eq_ok.mp htype
    obtain ⟨hbyte, hmoved⟩ := @charAt_moved p e t o id hid
    rw [(toUInt32_add (by omega)).1] at hend
    rw [← Except.ok.inj hend, hmoved, ok_bind, hof, ok_bind, (toUInt32_add (by omega)).1,
      Nat.add_assoc]
    exact ⟨onPage_of_le (by omega), by dsimp only; omega, rfl⟩
  · rw [if_neg htyped] at h ⊢
    rw [← Except.ok.inj h]
    exact ⟨ho, by dsimp only; omega, rfl⟩

lemma parseNBTHeader_moved {o : ℕ} {tag : NBTTag} {typed : Bool} {r : ℕ × NBTTag}
    (h : parseNBTHeader e o tag typed = .ok r) (ho : OnPage e o) :
    ∃ field, scanHeader e o tag.type typed = .ok (field, r.1, r.2.type) ∧ OnPage e r.1 ∧
      parseNBTHeader (p ++ e ++ t) (p.length + o) tag typed = moved p.length [field] r := by
  unfold parseNBTHeader at h
  obtain ⟨⟨field, type⟩, htype, hname⟩ := bind_eq_ok.mp h
  obtain ⟨length, hlength, hchars⟩ := bind_eq_ok.mp hname
  obtain ⟨text, htext, hend⟩ := bind_eq_ok.mp hchars
  obtain ⟨hpage, hlt, htypeMoved⟩ := @parseTypeByte_moved p e t hsize _ _ _ _ htype ho
  rw [(toUInt32_add (by omega)).2.1] at htext
  obtain ⟨hafter, hpageAfter, htextMoved⟩ := @parseChars_moved p e t _ _ _ _ htext
    (hpage.add (parseShort_bytes hlength).1 (by omega)) hsize
  rw [← Except.ok.inj hend]
  refine ⟨field, ?_, hpageAfter, ?_⟩
  · unfold scanHeader
    rw [htype, ok_bind]
    dsimp only
    rw [hlength, ok_bind, hafter]
  · unfold parseNBTHeader
    rw [htypeMoved, ok_bind]
    apply moved_short_bind hlength hp
    dsimp only
    rw [(toUInt32_add (by omega)).2.1, Nat.add_assoc, htextMoved, ok_bind, moved_nil]

omit hp in
lemma parseString_parts {o : ℕ} {r : ℕ × String} (h : parseString e o = .ok r) (ho : OnPage e o) :
    ∃ length, parseShort e o = .ok length ∧ r.1 = o + 2 + length.toInt.toNat ∧ OnPage e r.1 ∧
      toUInt32 length.toInt < 2147483648 ∧ toUInt32 length.toInt = length.toInt.toNat ∧
      parseChars (p ++ e ++ t) length.toInt.toNat (p.length + (o + 2)) "" =
        .ok (p.length + r.1, r.2) := by
  unfold parseString at h
  have hlt := ho.lt
  obtain ⟨length, hlength, hchars⟩ := bind_eq_ok.mp h
  obtain ⟨⟨o', text⟩, htext, hend⟩ := bind_eq_ok.mp hchars
  dsimp only at hend
  by_cases hmany : 2147483648 ≤ toUInt32 length.toInt
  · rw [if_pos hmany] at hend
    exact absurd hend (by simp)
  · rw [if_neg hmany] at hend
    have hlo := length.le_toInt
    have hhi := length.toInt_lt
    have hnat : toUInt32 length.toInt = length.toInt.toNat := by
      unfold toUInt32 at hmany ⊢
      omega
    rw [Nat.min_eq_left (by omega), hnat, (toUInt32_add (by omega)).2.1] at htext
    obtain ⟨hafter, hpage, hmoved⟩ := @parseChars_moved p e t _ _ _ _ htext
      (ho.add (parseShort_bytes hlength).1 (by omega)) hsize
    rw [← Except.ok.inj hend]
    exact ⟨length, hlength, hafter, hpage, by omega, hnat, hmoved⟩

lemma parseNBTPayload_leaf_moved {o fuel : ℕ} {tag : NBTTag} {r : ℕ × NBTTag}
    (h : parseNBTPayload e (fuel + 1) o tag = .ok r) (ho : OnPage e o)
    (hlist : tag.type ≠ .LIST) (hcompound : tag.type ≠ .COMPOUND) :
    Moves e p.length (scanPayload e (fuel + 1) o tag.type)
      (parseNBTPayload (p ++ e ++ t) (fuel + 1) (p.length + o) tag) r := by
  have hlt := ho.lt
  obtain ⟨h1, h2, h4, h5⟩ := @toUInt32_add o (by omega)
  obtain ⟨h1', h2', h4', h5'⟩ := @toUInt32_add (p.length + o) (by omega)
  unfold Moves
  rw [parseNBTPayload] at h ⊢
  cases htype : tag.type with
  | END =>
    simp only [htype, scanPayload] at h ⊢
    rw [← Except.ok.inj h]
    exact ⟨[], rfl, ho, (moved_nil _ (o, tag)).symm⟩
  | unknown id =>
    simp only [htype, scanPayload] at h ⊢
    rw [← Except.ok.inj h]
    exact ⟨[], rfl, ho, (moved_nil _ (o, tag)).symm⟩
  | BYTE =>
    simp only [htype, scanPayload] at h ⊢
    obtain ⟨b, hb, hend⟩ := bind_eq_ok.mp h
    obtain ⟨hbyte, hmoved⟩ := @charAt_moved p e t o b hb
    rw [h1] at hend
    rw [← Except.ok.inj hend]
    refine ⟨[], rfl, onPage_of_le (by omega), ?_⟩
    rw [hmoved, ok_bind, h1', moved_nil, Nat.add_assoc]
  | SHORT =>
    simp only [htype, scanPayload] at h ⊢
    obtain ⟨v, hv, hend⟩ := bind_eq_ok.mp h
    rw [h2] at hend
    rw [← Except.ok.inj hend]
    refine ⟨[o], rfl, ho.add (parseShort_bytes hv).1 (by omega), ?_⟩
    apply moved_short_bind hv hp
    rw [h2', moved_nil, Nat.add_assoc]
  | INT =>
    simp only [htype, scanPayload] at h ⊢
    obtain ⟨v, hv, hend⟩ := bind_eq_ok.mp h
    obtain ⟨hbytes, hmoved⟩ := @parseInt32_moved p e t o v hv hsize (by omega)
    rw [h4] at hend
    rw [← Except.ok.inj hend]
    refine ⟨[], rfl, onPage_of_le (by omega), ?_⟩
    rw [hmoved, ok_bind, h4', moved_nil, Nat.add_assoc]
  | LONG =>
    simp only [htype] at h
    obtain ⟨v, hv, _⟩ := bind_eq_ok.mp h
    exact absurd hv (parseLong_ne_ok e o v)
  | STRING =>
    simp only [htype, scanPayload] at h ⊢
    obtain ⟨r', hr', hend⟩ := bind_eq_ok.mp h
    obtain ⟨length, hlength, hafter, hpage, hfew, hnat, hmoved⟩ :=
      @parseString_parts p e t hsize o r' hr' ho
    rw [← Except.ok.inj hend]
    refine ⟨[o], ?_, hpage, ?_⟩
    · rw [hlength, ok_bind, hafter]
    · unfold parseString
      rw [bind_assoc]
      apply moved_short_bind hlength hp
      rw [hnat] at hfew ⊢
      rw [bind_assoc, Nat.min_eq_left (by omega), h2', Nat.add_assoc, hmoved, ok_bind]
      dsimp only
      rw [if_neg (by omega), ok_bind, moved_nil]
  | LIST => exact absurd htype hlist
  | COMPOUND => exact absurd htype hcompound

omit hp in
lemma parseNBTPayload_list_moved {o fuel : ℕ} {tag : NBTTag} {r : ℕ × NBTTag}
    (h : parseNBTPayload e (fuel + 1) o tag = .ok r) (hlist : tag.type = .LIST)
    (ih : ∀ type count o r, OnPage e o → listLoop e fuel type count o tag = .ok r →
      Moves e p.length (scanList e fuel type count o)
        (listLoop (p ++ e ++ t) fuel type count (p.length + o) tag) r) :
    Moves e p.length (scanPayload e (fuel + 1) o tag.type)
      (parseNBTPayload (p ++ e ++ t) (fuel + 1) (p.length + o) tag) r := by
  obtain ⟨id, listType, length, hid, htype, hlength, hbytes, hfew, hloop⟩ :=
    parseNBTPayload_list h hlist (by omega)
  obtain ⟨-, hidMoved⟩ := @charAt_moved p e t o id hid
  obtain ⟨-, hlengthMoved⟩ := @parseInt32_moved p e t _ _ hlength hsize (by omega)
  obtain ⟨fields, hscan, hpage, hrun⟩ := ih _ _ _ r (onPage_of_le (by omega)) hloop
  rw [parseNBTPayload, hlist, scanPayload]
  dsimp only
  refine ⟨fields, ?_, hpage, ?_⟩
  · rw [hid, ok_bind, htype, ok_bind, hlength, ok_bind, hscan]
  · rw [hidMoved, ok_bind, htype, ok_bind, (toUInt32_add (by omega)).1, Nat.add_assoc, hlengthMoved, ok_bind,
      (toUInt32_add (by omega)).2.2.2, Nat.add_assoc, Nat.min_eq_left (by omega), hrun]
    apply moved_bind_nil
    rw [if_neg (by omega)]

/-- By induction on the fuel, for the four functions together. -/
lemma parse_moved (fuel : ℕ) :
    (∀ o tag r, OnPage e o → parseNBTPayload e fuel o tag = .ok r →
      Moves e p.length (scanPayload e fuel o tag.type)
        (parseNBTPayload (p ++ e ++ t) fuel (p.length + o) tag) r) ∧
    (∀ type count o tag r, OnPage e o → listLoop e fuel type count o tag = .ok r →
      Moves e p.length (scanList e fuel type count o)
        (listLoop (p ++ e ++ t) fuel type count (p.length + o) tag) r) ∧
    (∀ o tag r, OnPage e o → compoundLoop e fuel o tag = .ok r →
      Moves e p.length (scanCompound e fuel o)
        (compoundLoop (p ++ e ++ t) fuel (p.length + o) tag) r) ∧
    (∀ o tag typed r, OnPage e o → parseNBTTag e fuel o tag typed = .ok r →
      Moves e p.length (scanTag e fuel o tag.type typed)
        (parseNBTTag (p ++ e ++ t) fuel (p.length + o) tag typed) r) := by
  induction fuel with
  | zero =>
    refine ⟨?_, ?_, ?_, ?_⟩
    · intro o tag r _ h
      exact absurd h (by simp [parseNBTPayload])
    · intro type count o tag r _ h
      exact absurd h (by simp [listLoop])
    · intro o tag r _ h
      exact absurd h (by simp [compoundLoop])
    · intro o tag typed r _ h
      exact absurd h (by simp [parseNBTTag])
  | succ fuel ih =>
    obtain ⟨ihPayload, ihList, ihCompound, ihTag⟩ := ih
    refine ⟨?_, ?_, ?_, ?_⟩
    · intro o tag r ho h
      by_cases hcompound : tag.type = .COMPOUND
      · rw [parseNBTPayload, hcompound] at h
        rw [parseNBTPayload, hcompound, scanPayload]
        exact ihCompound o tag r ho h
      · by_cases hlist : tag.type = .LIST
        · exact parseNBTPayload_list_moved hsize h hlist
            fun type count o r => ihList type count o tag r
        · exact parseNBTPayload_leaf_moved hp hsize h ho hlist hcompound
    · intro type count o tag r ho h
      cases count with
      | zero =>
        rw [listLoop] at h
        rw [← Except.ok.inj h]
        refine ⟨[], rfl, ho, ?_⟩
        rw [listLoop, moved_nil]
      | succ count =>
        rw [listLoop] at h
        obtain ⟨⟨o', inner⟩, hinner, hrest⟩ := bind_eq_ok.mp h
        have htag := ihTag _ _ _ _ ho hinner
        obtain ⟨_, _, hpage, _⟩ := id htag
        rw [listLoop, scanList]
        exact htag.bind (ihList type count o' _ r hpage hrest)
    · intro o tag r ho h
      rw [compoundLoop] at h
      obtain ⟨b, hb, hloop⟩ := bind_eq_ok.mp h
      obtain ⟨hbyte, hmoved⟩ := @charAt_moved p e t o b hb
      rw [compoundLoop, scanCompound, hmoved, hb, ok_bind, ok_bind]
      by_cases hzero : b ≠ 0
      · rw [if_pos hzero] at hloop ⊢
        rw [if_pos hzero]
        obtain ⟨⟨o', inner⟩, hinner, hrest⟩ := bind_eq_ok.mp hloop
        have htag := ihTag _ _ _ _ ho hinner
        obtain ⟨_, _, hpage, _⟩ := id htag
        exact htag.bind (ihCompound o' _ r hpage hrest)
      · rw [if_neg hzero] at hloop ⊢
        rw [if_neg hzero]
        rw [(toUInt32_add (by omega)).1] at hloop ⊢
        rw [← Except.ok.inj hloop]
        refine ⟨[], rfl, onPage_of_le (by omega), ?_⟩
        rw [moved_nil, Nat.add_assoc]
    · intro o tag typed r ho h
      rw [parseNBTTag] at h
      obtain ⟨⟨o', tag'⟩, hheader, hpayload⟩ := bind_eq_ok.mp h
      obtain ⟨field, hscan, hpage, hheaderMoved⟩ :=
        @parseNBTHeader_moved p e t hp hsize _ _ _ _ hheader ho
      obtain ⟨fields, hscan', hpage', hpayloadMoved⟩ := ihPayload _ _ _ hpage hpayload
      refine ⟨field :: fields, ?_, hpage', ?_⟩
      · rw [scanTag, hscan, ok_bind]
        dsimp only
        rw [hscan', ok_bind]
      · rw [parseNBTTag, hheaderMoved]
        exact moved_bind hpayloadMoved

end parts

/-! ## Whole tags -/

section tags

variable {fuel c : ℕ} {tag : NBTTag} (h : parseNBTTag e fuel 0 NBTTag.new true = .ok (c, tag))
include h

lemma scanTag_decode (hsize : e.length < 1073741824) :
    scanTag e fuel 0 .END true = .ok (c, shortFields e fuel) := by
  obtain ⟨fields, hscan, _, _⟩ := (@parse_moved [] e [] (by simp) (by simpa using hsize) fuel).2.2.2
    0 _ _ _ (onPage_of_le (Nat.zero_le _)) h
  change scanTag e fuel 0 .END true = .ok (c, fields) at hscan
  unfold shortFields
  rw [hscan]

lemma decode_moved (hp : p.length < 32768) (hsize : p.length + e.length < 1073741824) :
    parseNBTTag (p ++ e ++ t) fuel p.length NBTTag.new true =
      moved p.length (shortFields e fuel) (c, tag) := by
  obtain ⟨fields, hscan, _, hrun⟩ :=
    (@parse_moved p e t hp hsize fuel).2.2.2 0 _ _ _ (onPage_of_le (Nat.zero_le _)) h
  have hsame := hscan.symm.trans (scanTag_decode h (by omega))
  have hfields : fields = shortFields e fuel := congrArg Prod.snd (Except.ok.inj hsame)
  rw [← hfields, ← hrun, Nat.add_zero]

lemma one_mem_shortFields (hsize : e.length < 1073741824) : 1 ∈ shortFields e fuel := by
  have hscan := scanTag_decode h hsize
  cases fuel with
  | zero => exact absurd h (by simp [parseNBTTag])
  | succ fuel =>
    rw [scanTag] at hscan
    obtain ⟨⟨field, offset, type⟩, hheader, hrest⟩ := bind_eq_ok.mp hscan
    obtain ⟨r, _, hend⟩ := bind_eq_ok.mp hrest
    unfold scanHeader parseTypeByte at hheader
    rw [if_pos rfl] at hheader
    obtain ⟨⟨field', type'⟩, htype, hlength⟩ := bind_eq_ok.mp hheader
    obtain ⟨length, _, hfield⟩ := bind_eq_ok.mp hlength
    obtain ⟨id, _, hid⟩ := bind_eq_ok.mp htype
    obtain ⟨type'', _, hend'⟩ := bind_eq_ok.mp hid
    have hone : field' = 1 := (congrArg Prod.fst (Except.ok.inj hend')).symm
    have hsame : field' = field := congrArg Prod.fst (Except.ok.inj hfield)
    have hcons : field :: r.2 = shortFields e (fuel + 1) := congrArg Prod.snd (Except.ok.inj hend)
    rw [← hcons, ← hsame, hone]
    exact List.mem_cons_self

lemma Fits.lt {n : ℕ} (hsize : e.length < 1073741824) (hfits : Fits n (shortFields e fuel)) :
    n < 32767 := by
  have := hfits 1 (one_mem_shortFields h hsize)
  omega

lemma decode_assertion (hlo : 32767 ≤ p.length) (hhi : p.length < 65535) :
    parseNBTTag (p ++ e ++ t) fuel p.length NBTTag.new true = .error .assertion := by
  cases fuel with
  | zero => exact absurd h (by simp [parseNBTTag])
  | succ fuel =>
    rw [parseNBTTag] at h ⊢
    obtain ⟨r, hheader, _⟩ := bind_eq_ok.mp h
    unfold parseNBTHeader parseTypeByte at hheader ⊢
    rw [if_pos rfl] at hheader ⊢
    obtain ⟨r', htype, _⟩ := bind_eq_ok.mp hheader
    obtain ⟨id, hid, hof⟩ := bind_eq_ok.mp htype
    obtain ⟨type, hof, _⟩ := bind_eq_ok.mp hof
    have hmoved := (@charAt_moved p e t 0 id hid).2
    rw [Nat.add_zero] at hmoved
    rw [hmoved, ok_bind, hof, ok_bind, ok_bind]
    dsimp only
    rw [(toUInt32_add (by omega)).1, parseShort_assertion (by omega)]
    rfl

lemma exists_prefix_not_decodesTo {n : ℕ} (hn : 65535 ≤ n) (hmax : n < 1073741824) :
    ∃ p : Slice, p.length = n ∧
      ∀ t, ¬DecodesTo (p ++ e ++ t) p.length (p.length + c, tag) := by
  obtain ⟨length, _, hname⟩ := parseNBTTag_name h
  -- A byte whose repetition is no length of this name.
  have hbyte : ∃ b : UInt8, b.toNat < 128 ∧ b.toNat * 257 ≠ tag.name.length := by
    by_cases hempty : tag.name.length = 0
    · exact ⟨1, by decide, by rw [hempty]; decide⟩
    · exact ⟨0, by decide, fun h0 => hempty h0.symm⟩
  obtain ⟨b, hsmall, hother⟩ := hbyte
  refine ⟨List.replicate n b, List.length_replicate, ?_⟩
  rintro t ⟨fuel', hrun⟩
  obtain ⟨length', hlength', hname'⟩ := parseNBTTag_name hrun
  rw [List.length_replicate, (toUInt32_add (by omega)).1] at hlength'
  obtain ⟨hmod, hbytes⟩ := parseShort_bytes hlength'
  have hwindow : Slice.window (List.replicate n b ++ e ++ t) ((n + 1) % 65536) 2 = [b, b] := by
    unfold Slice.window
    rw [List.append_assoc, List.drop_append_of_le_length (by rw [List.length_replicate]; omega),
      List.drop_replicate, List.take_append_of_le_length (by rw [List.length_replicate]; omega),
      List.take_replicate, Nat.min_eq_left (by omega)]
    rfl
  rw [parseShort_eq hmod hbytes, hwindow] at hlength'
  rw [← Except.ok.inj hlength'] at hname'
  apply hother
  have hval : LittleEndian.toNat [b, b] = b.toNat * 257 := by
    simp only [LittleEndian.toNat]
    omega
  have hnat : (BitVec.ofNat 16 (LittleEndian.toNat [b, b])).toNat = b.toNat * 257 := by
    rw [hval, BitVec.toNat_ofNat]
    omega
  rw [hname', BitVec.toInt_eq_toNat_of_lt (by omega), hnat, Int.toNat_natCast]

/-- A tag decodes the same behind every prefix of a length exactly when all its 16-bit fields
stay below offset 32768. Up to 65534 bytes this holds of each single prefix. -/
theorem nbt_decode_anywhere {n : ℕ} (hsize : n + e.length < 1073741824) :
    ((∀ p t : Slice, p.length = n → p.length + e.length + t.length < 1073741824 →
        DecodesTo (p ++ e ++ t) p.length (p.length + c, tag)) ↔ Fits n (shortFields e fuel)) ∧
      ∀ p t : Slice, p.length = n → p.length + e.length + t.length < 1073741824 → n < 65535 →
        (DecodesTo (p ++ e ++ t) p.length (p.length + c, tag) ↔ Fits n (shortFields e fuel)) := by
  have hmoves : ∀ p t : Slice, p.length = n → Fits n (shortFields e fuel) →
      DecodesTo (p ++ e ++ t) p.length (p.length + c, tag) := by
    intro p t hn hfits
    have hlt := Fits.lt h (by omega) hfits
    refine ⟨fuel, ?_⟩
    rw [decode_moved h (by omega) (by omega), moved, if_pos (hn ▸ hfits)]
  have hsingle : ∀ p t : Slice, p.length = n → n < 65535 →
      DecodesTo (p ++ e ++ t) p.length (p.length + c, tag) → Fits n (shortFields e fuel) := by
    intro p t hn hlt hdecodes
    by_contra hfits
    by_cases hfar : 32767 ≤ p.length
    · exact not_decodesTo_of_error (decode_assertion h hfar (by omega)) (by simp) hdecodes
    · have hrun := @decode_moved p e t fuel c tag h (by omega) (by omega)
      rw [moved, if_neg (hn ▸ hfits)] at hrun
      exact not_decodesTo_of_error hrun (by simp) hdecodes
  refine ⟨⟨?_, ?_⟩, ?_⟩
  · intro hall
    by_cases hlt : n < 65535
    · have hlen : (List.replicate n (0 : UInt8)).length = n := List.length_replicate
      apply hsingle _ [] hlen hlt
      exact hall _ [] hlen (by rw [hlen]; simpa using hsize)
    · obtain ⟨p, hp, hnot⟩ := exists_prefix_not_decodesTo h (show 65535 ≤ n by omega) (by omega)
      exact absurd (hall p [] hp (by rw [hp]; simpa using hsize)) (hnot [])
  · intro hfits p t hn _
    exact hmoves p t hn hfits
  · intro p t hn _ hlt
    exact ⟨hsingle p t hn hlt, hmoves p t hn⟩

end tags

/-- A byte tag without a name, behind three bytes. -/
theorem nbt_decode_anywhere_byte :
    DecodesTo ([7, 7, 7] ++ [1, 0, 0, 5] ++ [9]) 3
      (7, { NBTTag.new with type := .BYTE, byteVal := some 5 }) :=
  (@nbt_decode_anywhere [1, 0, 0, 5] 2 4 { NBTTag.new with type := .BYTE, byteVal := some 5 } rfl 3
    (by decide)).1.mpr (by decide) [7, 7, 7] [9] rfl (by decide)

/-- The same tag behind 32767 bytes: its name length has the 16-bit offset -32768. -/
theorem nbt_decode_anywhere_fails :
    parseNBTTag [1, 0, 0, 5] 2 0 NBTTag.new true =
        .ok (4, { NBTTag.new with type := .BYTE, byteVal := some 5 }) ∧
      ∀ r, ¬DecodesTo (List.replicate 32767 0 ++ [1, 0, 0, 5] ++ []) 32767 r := by
  have hdecode : parseNBTTag [1, 0, 0, 5] 2 0 NBTTag.new true =
      .ok (4, { NBTTag.new with type := .BYTE, byteVal := some 5 }) := rfl
  have hlen : (List.replicate 32767 (0 : UInt8)).length = 32767 := List.length_replicate
  have hrun := @decode_assertion (List.replicate 32767 0) [1, 0, 0, 5] [] 2 4 _ hdecode
    (by rw [hlen]) (by rw [hlen]; norm_num)
  rw [hlen] at hrun
  exact ⟨hdecode, fun r => not_decodesTo_of_error hrun (by simp)⟩

end ChunkViewer
