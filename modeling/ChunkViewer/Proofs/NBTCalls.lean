import ChunkViewer.Proofs.NBTReads

/-!
# Outcomes of the tag parser

Every call of the tag parser makes at most as many nested calls as there are bytes in front
of it and on the page of 65536 bytes behind the slice. A call that returns has read its part,
and one that comes to an undefined expression has a part that leads there.
-/

namespace ChunkViewer

open ExceptRun

/-! ## Calls -/

inductive ParseCall
  | payload (offset : ℕ) (t : NBTTag)
  | list (listType : NBTType) (count offset : ℕ) (t : NBTTag)
  | compound (offset : ℕ) (t : NBTTag)
  | tag (offset : ℕ) (t : NBTTag) (parseType : Bool)

def TagPart.start : TagPart → ℕ
  | payload offset _ => offset
  | list _ _ offset => offset
  | compound offset => offset
  | tag offset _ _ => offset

namespace ParseCall

def run (s : Slice) (fuel : ℕ) : ParseCall → Exec (ℕ × NBTTag)
  | payload offset t => parseNBTPayload s fuel offset t
  | list listType count offset t => listLoop s fuel listType count offset t
  | compound offset t => compoundLoop s fuel offset t
  | tag offset t parseType => parseNBTTag s fuel offset t parseType

/-- The part of the tag that a call reads. -/
def part : ParseCall → TagPart
  | payload offset t => .payload offset t.type
  | list listType count offset _ => .list listType count offset
  | compound offset _ => .compound offset
  | tag offset t parseType => .tag offset t.type parseType

def start (c : ParseCall) : ℕ := c.part.start

/-- How far a call that returns has come at least. -/
def advance : ParseCall → ℕ
  | payload _ _ => 0
  | list _ count _ _ => 2 * count
  | compound _ _ => 1
  | tag _ _ parseType => if parseType then 3 else 2

/-- The fuel that is enough for a call. -/
def need (s : Slice) : ParseCall → ℕ
  | payload offset _ => 3 * (s.length + 65540 - offset) + 2
  | list _ _ offset _ => 3 * (s.length + 65540 - offset) + 1
  | compound offset _ => 3 * (s.length + 65540 - offset) + 1
  | tag offset _ _ => 3 * (s.length + 65540 - offset)

/-- What a call may end with. -/
def Outcome (s : Slice) (c : ParseCall) (fuel : ℕ) : Exec (ℕ × NBTTag) → Prop
  | .ok r => c.start + c.advance ≤ r.1 ∧ OnPage s r.1 ∧ c.part.Spans s r.1
  | .error .assertion => True
  | .error (.undefined _) => c.part.ReachesUndefined s
  | .error .outOfFuel => fuel < c.need s

variable {s : Slice} {fuel : ℕ} {c c' : ParseCall}

/-! ## The calls that a call makes -/

lemma run_payload_list {o : ℕ} {t : NBTTag} (htype : t.type = .LIST) {id : UInt8}
    (hget : s[o]? = some id) {listType : NBTType} (hof : NBTType.ofByte id = .ok listType)
    {n : BitVec 32} (hlt : o < 2147483648) (hn : parseInt32 s (o + 1) = .ok n) :
    (payload o t).run s (fuel + 1) =
      (list listType (min n.toNat 2147483648) (o + 5) t).run s fuel >>= fun r =>
        if 2147483648 ≤ n.toNat then .error (.undefined .loopCounter) else .ok r := by
  simp only [run]
  rw [parseNBTPayload, htype]
  dsimp only
  rw [charAt_natCast hget, ok_bind, hof, ok_bind, (toUInt32_add (by omega)).1, hn, ok_bind,
    (toUInt32_add (by omega)).2.2.2]

lemma run_payload_compound {o : ℕ} {t : NBTTag} (htype : t.type = .COMPOUND) :
    (payload o t).run s (fuel + 1) = (compound o t).run s fuel := by
  simp only [run]
  rw [parseNBTPayload, htype]

lemma run_list_succ (listType : NBTType) (count o : ℕ) (t : NBTTag) :
    (list listType (count + 1) o t).run s (fuel + 1) =
      (tag o { NBTTag.new with type := listType } false).run s fuel >>= fun r =>
        (list listType count r.1 (t.addInnerTag r.2)).run s fuel := by
  simp only [run]
  rw [listLoop]

lemma run_compound_entry {o : ℕ} {b : UInt8} (hget : s[o]? = some b) (hzero : b ≠ 0) (t : NBTTag) :
    (compound o t).run s (fuel + 1) = (tag o NBTTag.new true).run s fuel >>= fun r =>
      (compound r.1 (t.addInnerTag r.2)).run s fuel := by
  simp only [run]
  rw [compoundLoop, charAt_natCast hget, ok_bind, if_pos hzero]

lemma run_tag {o o' : ℕ} {t t' : NBTTag} {parseType : Bool}
    (hheader : parseNBTHeader s o t parseType = .ok (o', t')) :
    (tag o t parseType).run s (fuel + 1) = (payload o' t').run s fuel := by
  simp only [run]
  rw [parseNBTTag, hheader, ok_bind]

/-! ## More fuel -/

lemma run_agrees (s : Slice) (c : ParseCall) {fuel fuel' : ℕ} (h : fuel ≤ fuel') :
    AgreesUnless .outOfFuel (c.run s fuel) (c.run s fuel') := by
  refine @AgreesUnless.of_le _ _ _ (fun n => c.run s n) (fun n => ?_) fuel fuel' h
  obtain ⟨hpayload, hlist, hcompound, htag⟩ := parse_agrees s n
  cases c with
  | payload o t => exact hpayload o t
  | list listType count o t => exact hlist listType count o t
  | compound o t => exact hcompound o t
  | tag o t parseType => exact htag o t parseType

lemma run_unique {x y : Exec (ℕ × NBTTag)} {fuel' : ℕ} (hx : c.run s fuel = x)
    (hy : c.run s fuel' = y) (hx' : x ≠ .error .outOfFuel) (hy' : y ≠ .error .outOfFuel) : x = y := by
  have h := run_agrees s c (Nat.le_max_left fuel fuel') (hx ▸ hx')
  have h' := run_agrees s c (Nat.le_max_right fuel fuel') (hy ▸ hy')
  rw [← hx, ← hy, ← h, h']

lemma run_of_le {x : Exec (ℕ × NBTTag)} {fuel' : ℕ} (h : c.run s fuel = x)
    (hx : x ≠ .error .outOfFuel) (hle : fuel ≤ fuel') : c.run s fuel' = x :=
  (run_agrees s c hle (h ▸ hx)).trans h

/-- A call that makes two, each with fuel of its own. -/
lemma run_seq {c₀ : ParseCall} {next : ℕ × NBTTag → ParseCall}
    (hcalls : ∀ fuel, c₀.run s (fuel + 1) = c.run s fuel >>= fun r => (next r).run s fuel)
    {f g : ℕ} {r : ℕ × NBTTag} {x : Exec (ℕ × NBTTag)} (hfirst : c.run s f = .ok r)
    (hrest : (next r).run s g = x) (hx : x ≠ .error .outOfFuel) :
    c₀.run s (max f g + 1) = x := by
  rw [hcalls, run_of_le hfirst (by simp) (Nat.le_max_left f g), ok_bind]
  exact run_of_le hrest hx (Nat.le_max_right f g)

/-! ## Outcomes -/

lemma Outcome.of_error {e : Stop} (h : Outcome s c' fuel (.error e))
    (hleads : c.part.LeadsTo s c'.part) (hneed : c'.need s < c.need s) :
    Outcome s c (fuel + 1) (.error e) := by
  cases e with
  | assertion => trivial
  | undefined what => exact TagPart.ReachesUndefined.of_leadsTo h hleads
  | outOfFuel => exact Nat.lt_of_le_of_lt (Nat.succ_le_of_lt h) hneed

/-- The last call that a call makes. -/
lemma Outcome.call (h : Outcome s c' fuel (c'.run s fuel)) (hleads : c.part.LeadsTo s c'.part)
    (hneed : c'.need s < c.need s) (hadv : c.start + c.advance ≤ c'.start + c'.advance)
    (hspans : ∀ o, c'.part.Spans s o → c.part.Spans s o) :
    Outcome s c (fuel + 1) (c'.run s fuel) := by
  cases hrun : c'.run s fuel with
  | error e => exact Outcome.of_error (hrun ▸ h) hleads hneed
  | ok r =>
    rw [hrun] at h
    exact ⟨hadv.trans h.1, h.2.1, hspans r.1 h.2.2⟩

/-- A call followed by another. -/
lemma Outcome.seq {next : ℕ × NBTTag → ParseCall} (h : Outcome s c' fuel (c'.run s fuel))
    (hleads : c.part.LeadsTo s c'.part) (hneed : c'.need s < c.need s)
    (hnext : ∀ r, c'.part.Spans s r.1 → c'.start + c'.advance ≤ r.1 → OnPage s r.1 →
      Outcome s c (fuel + 1) ((next r).run s fuel)) :
    Outcome s c (fuel + 1) (c'.run s fuel >>= fun r => (next r).run s fuel) := by
  cases hrun : c'.run s fuel with
  | error e => exact Outcome.of_error (hrun ▸ h) hleads hneed
  | ok r =>
    rw [hrun] at h
    exact hnext r h.2.2 h.1 h.2.1

lemma Outcome.of_undefined {what : Undefined} (h : c.part.Undefined s) :
    Outcome s c fuel (.error (.undefined what)) :=
  ⟨c.part, Relation.ReflTransGen.refl, h⟩

lemma outcome_leaf (hsize : s.length < 1073741824) {o : ℕ} (t : NBTTag) (ho : OnPage s o)
    (hlist : t.type ≠ .LIST) (hcompound : t.type ≠ .COMPOUND) :
    Outcome s (payload o t) (fuel + 1) (parseNBTPayload s (fuel + 1) o t) := by
  have hlt := ho.lt
  obtain ⟨h1, h2, h4, -⟩ := @toUInt32_add o (by omega)
  have hok : ∀ {o' : ℕ} {t' : NBTTag}, o ≤ o' → OnPage s o' →
      TagPart.Spans s (.payload o t.type) o' →
      Outcome s (payload o t) (fuel + 1) (.ok (o', t')) :=
    fun hle hpage hspans => ⟨hle, hpage, hspans⟩
  rw [parseNBTPayload]
  cases htype : t.type with
  | END => exact hok le_rfl ho (htype ▸ .ending o)
  | unknown id => exact hok le_rfl ho (htype ▸ .unknown o id)
  | BYTE =>
    dsimp only
    cases hb : s.charAt o with
    | error e =>
      rw [(charAt_error hb).1]
      trivial
    | ok b =>
      have hbyte := (@charAt_moved [] s [] o b hb).1
      rw [ok_bind, h1]
      exact hok (Nat.le_succ o) (onPage_of_le (by omega)) (htype ▸ .byte hbyte)
  | SHORT =>
    dsimp only
    rcases parseShort_cases s o with ⟨v, hv⟩ | herr
    · rw [hv, ok_bind, h2]
      exact hok (Nat.le_add_right o 2) (ho.add (parseShort_bytes hv).1 (by norm_num))
        (htype ▸ .short hv)
    · rw [herr]
      trivial
  | INT =>
    dsimp only
    rcases parseInt32_cases s (show o + 4 ≤ 2147483648 by omega) with ⟨hbytes, v, hv⟩ | herr
    · rw [hv, ok_bind, h4]
      exact hok (Nat.le_add_right o 4) (onPage_of_le (by omega)) (htype ▸ .int hv)
    · rw [herr]
      trivial
  | LONG =>
    dsimp only
    rcases parseLong_cases s o with ⟨hmod, hbytes, herr⟩ | herr
    · rw [herr]
      exact Outcome.of_undefined (by rw [part, htype]; exact ⟨hmod, hbytes⟩)
    · rw [herr]
      trivial
  | STRING =>
    dsimp only
    rcases parseString_cases ho hsize with ⟨r, hr, hnext, hpage, n, hn, hpos, hat⟩ | herr
    · rw [hr]
      exact hok (by omega) hpage (htype ▸ .string hn hpos hat)
    · rw [herr]
      trivial
  | LIST => exact absurd htype hlist
  | COMPOUND => exact absurd htype hcompound

/-! Each kind of call, when the calls that it makes have outcomes. -/

section step

variable (hsize : s.length < 1073741824)
  (ih : ∀ c : ParseCall, OnPage s c.start → Outcome s c fuel (c.run s fuel))
include hsize ih

lemma outcome_payload_list {o : ℕ} {t : NBTTag} (hpage : OnPage s o) (hlist : t.type = .LIST) :
    Outcome s (payload o t) (fuel + 1) ((payload o t).run s (fuel + 1)) := by
  have hlt := hpage.lt
  have hpart : (payload o t).part = .payload o .LIST := by rw [part, hlist]
  cases hid : s.charAt o with
  | error e =>
    simp only [run]
    rw [parseNBTPayload, hlist]
    dsimp only
    rw [hid, (charAt_error hid).1]
    trivial
  | ok id =>
    have hbyte := (@charAt_moved [] s [] o id hid).1
    have hget : s[o]? = some id := by simpa using (charAt_eq_ok.mp hid).2
    rcases NBTType.ofByte_cases id with ⟨-, listType, hof⟩ | ⟨hlarge, hof⟩
    · rcases parseInt32_cases s (show o + 1 + 4 ≤ 2147483648 by omega) with
        ⟨hbytes, length, hlength⟩ | herr
      · have hleads : (payload o t).part.LeadsTo s
            (list listType (min length.toNat 2147483648) (o + 5) t).part :=
          hpart ▸ .list hget hof hlength
        have hloop := ih (list listType (min length.toNat 2147483648) (o + 5) t)
          (onPage_of_le (by simp only [start, part, TagPart.start]; omega))
        rw [run_payload_list hlist hget hof (by omega) hlength]
        cases hrun : (list listType (min length.toNat 2147483648) (o + 5) t).run s fuel with
        | error e => exact Outcome.of_error (hrun ▸ hloop) hleads (by simp only [need]; omega)
        | ok r =>
          rw [hrun] at hloop
          obtain ⟨hadv, hend, hspans⟩ := hloop
          have hend' := hend.lt
          simp only [start, part, TagPart.start, advance] at hadv
          rw [part, Nat.min_eq_left (by omega)] at hspans
          rw [ok_bind, if_neg (by omega)]
          exact ⟨by simp only [start, part, TagPart.start, advance]; omega, hend,
            hpart ▸ .list hget hof hlength (by omega) hspans⟩
      · simp only [run]
        rw [parseNBTPayload, hlist]
        dsimp only
        rw [hid, ok_bind, hof, ok_bind, (toUInt32_add (by omega)).1, herr]
        trivial
    · simp only [run]
      rw [parseNBTPayload, hlist]
      dsimp only
      rw [hid, ok_bind, hof]
      exact Outcome.of_undefined (by rw [hpart]; exact ⟨id, hget, hlarge⟩)

lemma outcome_payload {o : ℕ} {t : NBTTag} (hpage : OnPage s o) :
    Outcome s (payload o t) (fuel + 1) ((payload o t).run s (fuel + 1)) := by
  by_cases hcompound : t.type = .COMPOUND
  · have hpart : (payload o t).part = .payload o .COMPOUND := by rw [part, hcompound]
    have hlt := hpage.lt
    rw [run_payload_compound hcompound]
    exact (ih (compound o t) hpage).call (hpart ▸ .compound o) (by simp only [need]; omega)
      (by simp only [start, part, TagPart.start, advance]; omega)
      fun o' hspans => hpart ▸ .compound hspans
  · by_cases hlist : t.type = .LIST
    · exact outcome_payload_list hsize ih hpage hlist
    · exact outcome_leaf hsize t hpage hlist hcompound

omit hsize in
lemma outcome_list {listType : NBTType} {count o : ℕ} {t : NBTTag} (hpage : OnPage s o) :
    Outcome s (list listType count o t) (fuel + 1) ((list listType count o t).run s (fuel + 1)) := by
  have hlt := hpage.lt
  cases count with
  | zero =>
    simp only [run]
    rw [listLoop]
    exact ⟨le_rfl, hpage, .nil listType o⟩
  | succ count =>
    rw [run_list_succ]
    refine (ih (tag o { NBTTag.new with type := listType } false) hpage).seq
      (.element listType count o) (by simp only [need]; omega) ?_
    intro r hr hadv hend
    have hlt' := hend.lt
    simp only [start, part, TagPart.start, advance, Bool.false_eq_true, if_false] at hadv
    exact (ih (list listType count r.1 (t.addInnerTag r.2)) hend).call (.elements count hr)
      (by simp only [need]; omega) (by simp only [start, part, TagPart.start, advance]; omega)
      fun o' hspans => .cons hr hspans

lemma outcome_compound {o : ℕ} {t : NBTTag} (hpage : OnPage s o) :
    Outcome s (compound o t) (fuel + 1) ((compound o t).run s (fuel + 1)) := by
  have hlt := hpage.lt
  cases hb : s.charAt o with
  | error e =>
    simp only [run]
    rw [compoundLoop, hb, (charAt_error hb).1]
    trivial
  | ok b =>
    have hbyte := (@charAt_moved [] s [] o b hb).1
    have hget : s[o]? = some b := by simpa using (charAt_eq_ok.mp hb).2
    by_cases hzero : b ≠ 0
    · rw [run_compound_entry hget hzero]
      refine @Outcome.seq s fuel (compound o t) (tag o NBTTag.new true)
        (fun r => compound r.1 (t.addInnerTag r.2)) (ih _ hpage) (.entry hget hzero)
        (by simp only [need]; omega) ?_
      intro r hr hadv hend
      have hlt' := hend.lt
      simp only [start, part, TagPart.start, advance, if_true] at hadv
      exact (ih (compound r.1 (t.addInnerTag r.2)) hend).call (.entries hget hzero hr)
        (by simp only [need]; omega) (by simp only [start, part, TagPart.start, advance]; omega)
        fun o' hspans => .entry hget hzero hr hspans
    · simp only [run]
      rw [compoundLoop, hb, ok_bind, if_neg hzero, (toUInt32_add (by omega)).1]
      exact ⟨le_rfl, onPage_of_le (by omega), .close (not_not.mp hzero ▸ hget)⟩

lemma outcome_tag {o : ℕ} {t : NBTTag} {parseType : Bool} (hpage : OnPage s o) :
    Outcome s (tag o t parseType) (fuel + 1) ((tag o t parseType).run s (fuel + 1)) := by
  have hlt := hpage.lt
  rcases parseNBTHeader_cases t parseType hpage hsize with
    ⟨r, hr, hnext, -, hend, hat⟩ | herr | ⟨herr, hundefined⟩
  · have hlt' := hend.lt
    have hle : o + (if parseType then 3 else 2) ≤ r.1 := by omega
    have hpos : 2 ≤ if parseType then 3 else 2 := by cases parseType <;> decide
    rw [run_tag hr]
    exact (ih (payload r.1 r.2) hend).call (.payload hat) (by simp only [need]; omega)
      (by simpa only [start, part, TagPart.start, advance, Nat.add_zero] using hle)
      fun o' hspans => .tag hat hspans
  · simp only [run]
    rw [parseNBTTag, herr]
    trivial
  · simp only [run]
    rw [parseNBTTag, herr]
    exact Outcome.of_undefined hundefined

end step

/-- By induction on the fuel, over all calls on a page of the slice. -/
theorem outcome (hsize : s.length < 1073741824) (fuel : ℕ) (c : ParseCall)
    (hpage : OnPage s c.start) : Outcome s c fuel (c.run s fuel) := by
  induction fuel generalizing c with
  | zero =>
    have hlt := hpage.lt
    cases c with
    | payload o t => exact Nat.succ_pos _
    | list listType count o t => exact Nat.succ_pos _
    | compound o t => exact Nat.succ_pos _
    | tag o t parseType =>
      change 0 < 3 * (s.length + 65540 - o)
      simp only [start, part, TagPart.start] at hlt
      omega
  | succ fuel ih =>
    cases c with
    | payload o t => exact outcome_payload hsize ih hpage
    | list listType count o t => exact outcome_list ih hpage
    | compound o t => exact outcome_compound hsize ih hpage
    | tag o t parseType => exact outcome_tag hsize ih hpage

end ParseCall

end ChunkViewer
