import ChunkViewer.Proofs.SliceReads
import ChunkViewer.Spec.TagLayout

/-!
# The parser in memory

The parser with pointers builds the tag that the parser of values returns, or stops where that
one stops. It makes new tags and changes no tag but the one it is given.
-/

namespace ChunkViewer

open ExceptRun TreeHeap

/-! ## Growing -/

lemma Grows.refl (h : TagHeap) (p : TagPointer) (inner : List TagPointer) :
    Grows h h p inner inner [] :=
  ⟨le_rfl, fun _ _ _ => rfl, fun _ ha => ha, fun _ ha ha' => absurd ha' (Nat.not_lt.mpr ha),
    by simp⟩

lemma range'_trans {i j k : ℕ} (hij : i ≤ j) (hjk : j ≤ k) :
    List.range' i (j - i) ++ List.range' j (k - j) = List.range' i (k - i) := by
  obtain ⟨m, rfl⟩ := Nat.exists_eq_add_of_le hij
  obtain ⟨n, rfl⟩ := Nat.exists_eq_add_of_le hjk
  rw [Nat.add_sub_cancel_left, Nat.add_sub_cancel_left, Nat.add_assoc, Nat.add_sub_cancel_left,
    List.range'_append_1]

lemma Grows.trans {h h' h'' : TagHeap} {p : TagPointer}
    {inner inner' inner'' lost lost' : List TagPointer} (hg : Grows h h' p inner inner' lost)
    (hg' : Grows h' h'' p inner' inner'' lost') : Grows h h'' p inner inner'' (lost' ++ lost) := by
  refine ⟨hg.size.trans hg'.size, fun a ha hp => ?_, fun a ha => hg'.kept a (hg.kept a ha),
    fun a ha ha' => ?_, ?_⟩
  · rw [hg'.same a (ha.trans_le hg.size) hp, hg.same a ha hp]
  · rcases Nat.lt_or_ge a h'.size with hlt | hge
    · exact hg'.kept a (hg.made a ha hlt)
    · exact hg'.made a hge ha'
  · have hrange := range'_trans hg.size hg'.size
    rw [List.perm_iff_count]
    intro a
    have hcount := hg.accounted.count_eq a
    have hcount' := hg'.accounted.count_eq a
    rw [← hrange]
    simp only [List.count_append] at hcount hcount' ⊢
    omega

/-! ## One tag -/

lemma Holds.read {h : TagHeap} {p : TagPointer} {t : NBTTag} {inner : List TagPointer}
    (hp : Holds h p t inner) :
    ∃ c, h.read p = some c ∧ c.members = t.members ∧
      c.innerTags.map Prod.fst = t.innerTags.map Prod.fst ∧
      Represents tagLayout h (c.innerTags.map Prod.snd) (t.innerTags.map Prod.snd) inner := by
  obtain ⟨c, inner', heq, hr, hl, hk⟩ := hp.rep.single_inv
  obtain rfl := (List.cons_eq_cons.mp heq).2
  exact ⟨c, hr, congrArg Prod.fst hl, congrArg Prod.snd hl, hk⟩

lemma Holds.lt_size {h : TagHeap} {p : TagPointer} {t : NBTTag} {inner : List TagPointer}
    (hp : Holds h p t inner) {a : TagPointer} (ha : a = p ∨ a ∈ inner) : a < h.size :=
  hp.rep.lt_size (List.mem_cons.mpr ha)

lemma Holds.frame {h h' : TagHeap} {p : TagPointer} {t : NBTTag} {inner : List TagPointer}
    (hp : Holds h p t inner) (hsame : ∀ a, a = p ∨ a ∈ inner → h'.read a = h.read a) :
    Holds h' p t inner :=
  ⟨hp.rep.frame fun a ha => hsame a (List.mem_cons.mp ha), hp.nodup⟩

lemma Holds.setMembers {h : TagHeap} {p : TagPointer} {t : NBTTag} {inner : List TagPointer}
    (hp : Holds h p t inner) {c : TagCell} (hr : h.read p = some c) (t' : NBTTag) :
    Holds (h.write p (c.setMembers t')) p { t' with innerTags := t.innerTags } inner ∧
      Grows h (h.write p (c.setMembers t')) p inner inner [] := by
  obtain ⟨c', hr', -, hkeys, hk⟩ := hp.read
  rw [hr, Option.some.injEq] at hr'
  subst hr'
  have hlt := Heap.lt_size_of_read hr
  have hread := Heap.read_write hlt (c.setMembers t')
  have hpnot := (List.nodup_cons.mp hp.nodup).1
  refine ⟨⟨Represents.single (c := c.setMembers t') ?_ ?_ ?_, hp.nodup⟩, ?_, ?_,
    fun a ha => Heap.isSome_write hlt _ ha, ?_, ?_⟩
  · rw [hread, if_pos rfl]
  · exact Prod.ext rfl hkeys
  · refine hk.frame fun a ha => ?_
    rw [hread, if_neg fun hap : a = p => hpnot (hap ▸ ha)]
  · rw [Heap.size_write]
  · intro a _ hap
    rw [hread, if_neg hap]
  · intro a ha ha'
    rw [Heap.size_write] at ha'
    exact absurd ha' (Nat.not_lt.mpr ha)
  · simp

/-! ## Members -/

lemma parseNBTHeader_members (s : Slice) (offset : ℕ) (tag : NBTTag) (parseType : Bool) :
    parseNBTHeader s offset tag parseType =
      parseNBTHeader s offset tag.members parseType >>= fun r =>
        .ok (r.1, { r.2 with innerTags := tag.innerTags }) := by
  unfold parseNBTHeader
  simp only [bind_assoc, ok_bind]
  rfl

lemma parseNBTPayload_members (s : Slice) (fuel offset : ℕ) (tag : NBTTag)
    (hlist : tag.type ≠ .LIST) (hcompound : tag.type ≠ .COMPOUND) :
    parseNBTPayload s (fuel + 1) offset tag =
      parseNBTPayload s (fuel + 1) offset tag.members >>= fun r =>
        .ok (r.1, { r.2 with innerTags := tag.innerTags }) := by
  obtain ⟨type, name, intVal, shortVal, byteVal, longVal, stringVal, innerTags⟩ := tag
  rw [parseNBTPayload, parseNBTPayload, NBTTag.members]
  cases hcase : type with
  | LIST => exact absurd hcase hlist
  | COMPOUND => exact absurd hcase hcompound
  | _ => simp only [bind_assoc, ok_bind]

/-- A part of the parser that keeps to the members does the same in memory. -/
lemma onMembers_simulates {h : TagHeap} {p : TagPointer} {t : NBTTag} {inner : List TagPointer}
    (hp : Holds h p t inner) {f : NBTTag → Exec (ℕ × NBTTag)}
    (hf : f t = f t.members >>= fun r => .ok (r.1, { r.2 with innerTags := t.innerTags })) :
    Simulates .stop (ParsedInto h p inner) (f t) (Memory.onMembers f p h) := by
  obtain ⟨c, hr, hmembers, -, -⟩ := hp.read
  rw [hf, Memory.onMembers, Memory.derefTag, Heap.deref_of_read hr, ok_bind, hmembers]
  refine Simulates.bind_mapError _ fun r _ => Simulates.ok ?_
  obtain ⟨hholds, hgrows⟩ := hp.setMembers hr r.2
  exact ⟨rfl, inner, [], hholds, hgrows⟩

/-! ## Adding an inner tag -/

lemma represents_assign {h : TagHeap} {ps : List (String × TagPointer)}
    {ts : List (String × NBTTag)} {owned owned' : List TagPointer} {q : TagPointer} {tag : NBTTag}
    (key : String) (hkeys : ps.map Prod.fst = ts.map Prod.fst)
    (hrep : Represents tagLayout h (ps.map Prod.snd) (ts.map Prod.snd) owned)
    (hq : Represents tagLayout h [q] [tag] owned') :
    (AssocList.assign key q ps).map Prod.fst = (AssocList.assign key tag ts).map Prod.fst ∧
      ∃ kept lost, Represents tagLayout h ((AssocList.assign key q ps).map Prod.snd)
        ((AssocList.assign key tag ts).map Prod.snd) kept ∧
        (kept ++ lost).Perm (owned ++ owned') := by
  induction ps generalizing ts owned with
  | nil =>
    obtain rfl : ts = [] := List.map_eq_nil_iff.mp hkeys.symm
    cases hrep
    exact ⟨rfl, owned', [], hq, by simp⟩
  | cons pair ps ih =>
    obtain ⟨k, a⟩ := pair
    cases ts with
    | nil => exact absurd hkeys (by simp)
    | cons pair' ts =>
      obtain ⟨k', t⟩ := pair'
      rw [List.map_cons, List.map_cons, List.cons_eq_cons] at hkeys
      obtain ⟨rfl, hkeys⟩ := hkeys
      cases hrep with
      | @cons _ _ _ _ _ inner rest hr hl hk hrest =>
        by_cases hkey : key = k
        · -- The tag that had the name is lost, with all below it.
          rw [AssocList.assign, AssocList.assign, if_pos hkey, if_pos hkey]
          refine ⟨by rw [List.map_cons, List.map_cons, hkeys], owned' ++ rest, a :: inner,
            hq.append hrest, ?_⟩
          rw [List.perm_iff_count]
          intro b
          simp only [List.count_append, List.count_cons]
          omega
        · rw [AssocList.assign, AssocList.assign, if_neg hkey, if_neg hkey]
          obtain ⟨hkeys', kept, lost, hkept, hperm⟩ := ih hkeys hrest
          refine ⟨by rw [List.map_cons, List.map_cons, hkeys'], a :: (inner ++ kept), lost,
            Represents.cons hr hl hk hkept, ?_⟩
          rw [List.perm_iff_count] at hperm ⊢
          intro b
          have hcount := hperm b
          simp only [List.count_append, List.count_cons] at hcount ⊢
          omega

/-- The tag that is added is a new one, or at least none that stands below the other. -/
lemma addInnerTag_holds {h : TagHeap} {p q : TagPointer} {t tag : NBTTag}
    {inner inner' : List TagPointer} (hp : Holds h p t inner) (hq : Holds h q tag inner')
    (hdisjoint : ((p :: inner) ++ (q :: inner')).Nodup) :
    ∃ c kept lost, TagCell.addInnerTag h p q = .ok (h.write p c) ∧
      Holds (h.write p c) p (t.addInnerTag tag) kept ∧
      (kept ++ lost).Perm (inner ++ (q :: inner')) := by
  obtain ⟨c, hr, hmembers, hkeys, hk⟩ := hp.read
  obtain ⟨cq, hrq, hmembersq, -, -⟩ := hq.read
  have hname : cq.name = tag.name := congrArg NBTTag.name hmembersq
  obtain ⟨hkeys', kept, lost, hkept, hperm⟩ := represents_assign tag.name hkeys hk hq.rep
  rw [List.cons_append, List.nodup_cons] at hdisjoint
  have hnodup := hperm.nodup_iff.mpr hdisjoint.2
  have hpkept : p ∉ kept := fun hmem =>
    hdisjoint.1 (hperm.mem_iff.mp (List.mem_append_left lost hmem))
  set c' : TagCell := { c with innerTags := AssocList.assign tag.name q c.innerTags } with hc'
  have hread := Heap.read_write (Heap.lt_size_of_read hr) c'
  refine ⟨c', kept, lost, ?_, ⟨Represents.single (c := c') ?_ ?_ ?_, ?_⟩, hperm⟩
  · rw [TagCell.addInnerTag, Memory.derefTag, Memory.derefTag, Heap.deref_of_read hrq, ok_bind,
      Heap.deref_of_read hr, ok_bind, hname]
  · rw [hread, if_pos rfl]
  · exact Prod.ext hmembers hkeys'
  · refine hkept.frame fun a ha => ?_
    rw [hread, if_neg fun hap : a = p => hpkept (hap ▸ ha)]
  · exact List.nodup_cons.mpr ⟨hpkept, (List.nodup_append.mp hnodup).1⟩

lemma Grows.new {h h' : TagHeap} {c : TagCell} {inner lost : List TagPointer}
    (hgrows : Grows (h.alloc c) h' h.size [] inner lost) :
    (∀ a ∈ h.size :: inner, h.size ≤ a) ∧ (∀ a < h.size, h'.read a = h.read a) ∧
      ∀ a, h.size ≤ a → a < h'.size → (h'.read a).isSome := by
  refine ⟨?_, ?_, ?_⟩
  · intro a ha
    rcases List.mem_cons.mp ha with rfl | ha
    · exact le_rfl
    · have hmem := hgrows.accounted.mem_iff.mp (List.mem_append_left lost ha)
      rw [List.nil_append, List.mem_range'_1, Heap.size_alloc] at hmem
      omega
  · intro a ha
    rw [hgrows.same a (by rw [Heap.size_alloc]; omega) (Nat.ne_of_lt ha), Heap.read_alloc,
      if_neg (Nat.ne_of_lt ha)]
  · intro a ha ha'
    rcases Nat.eq_or_lt_of_le ha with rfl | hlt
    · refine hgrows.kept _ ?_
      rw [Heap.read_alloc, if_pos rfl]
      rfl
    · exact hgrows.made a (by rw [Heap.size_alloc]; exact hlt) ha'

lemma addInnerTag_parsed {h : TagHeap} {p : TagPointer} {t : NBTTag} {inner : List TagPointer}
    (hp : Holds h p t inner) {c : TagCell} {r : ℕ × NBTTag} {r' : ℕ × TagHeap}
    (hparsed : ParsedInto (h.alloc c) h.size [] r r') :
    ∃ h' kept lost, TagCell.addInnerTag r'.2 p h.size = .ok h' ∧
      Holds h' p (t.addInnerTag r.2) kept ∧ Grows h h' p inner kept lost := by
  obtain ⟨-, inner', lost', hq, hgrows⟩ := hparsed
  have hsize := hgrows.size
  rw [Heap.size_alloc] at hsize
  obtain ⟨hnew, hold, hmade⟩ := hgrows.new
  have hp' : Holds r'.2 p t inner := hp.frame fun a ha => hold a (hp.lt_size ha)
  have hdisjoint : ((p :: inner) ++ (h.size :: inner')).Nodup := by
    refine List.nodup_append'.mpr ⟨hp.nodup, hq.nodup, ?_⟩
    intro a ha ha'
    exact absurd (hp.lt_size (List.mem_cons.mp ha)) (Nat.not_lt.mpr (hnew a ha'))
  obtain ⟨c', kept, lost, hadd, hkept, hperm⟩ := addInnerTag_holds hp' hq hdisjoint
  have hlt : p < r'.2.size := hp'.lt_size (Or.inl rfl)
  refine ⟨_, kept, lost ++ lost', hadd, hkept, ?_, ?_, ?_, ?_, ?_⟩
  · rw [Heap.size_write]
    omega
  · intro a ha hap
    rw [Heap.read_write hlt, if_neg hap, hold a ha]
  · intro a ha
    obtain ⟨cell, hcell⟩ := Option.isSome_iff_exists.mp ha
    refine Heap.isSome_write hlt _ ?_
    rwa [hold a (Heap.lt_size_of_read hcell)]
  · intro a ha ha'
    rw [Heap.size_write] at ha'
    exact Heap.isSome_write hlt _ (hmade a ha ha')
  · rw [Heap.size_write, show r'.2.size - h.size = (r'.2.size - (h.size + 1)) + 1 by omega,
      List.range'_succ, List.perm_iff_count]
    intro a
    have hcount := hperm.count_eq a
    have hcount' := hgrows.accounted.count_eq a
    rw [Heap.size_alloc] at hcount'
    simp only [List.count_append, List.count_cons, List.nil_append] at hcount hcount' ⊢
    omega

lemma holds_alloc (h : TagHeap) {c : TagCell} (hc : c.innerTags = []) :
    Holds (h.alloc c) h.size c.members [] := by
  refine ⟨Represents.single (c := c) ?_ ?_ ?_, List.nodup_singleton _⟩
  · rw [Heap.read_alloc, if_pos rfl]
  · exact Prod.ext rfl (by simp [tagLayout, hc, TagCell.members])
  · simp only [tagLayout, hc, TagCell.members, List.map_nil]
    exact Represents.nil

/-! ## The parser -/

lemma ParsedInto.of_grows {h h' : TagHeap} {p : TagPointer} {inner kept lost : List TagPointer}
    (hgrows : Grows h h' p inner kept lost) {r : ℕ × NBTTag} {r' : ℕ × TagHeap}
    (hparsed : ParsedInto h' p kept r r') : ParsedInto h p inner r r' := by
  obtain ⟨hoffset, inner', lost', hholds, hgrows'⟩ := hparsed
  exact ⟨hoffset, inner', lost' ++ lost, hholds, hgrows.trans hgrows'⟩

/-- By induction on the fuel, for the four functions together. -/
theorem parse_simulates (s : Slice) (fuel : ℕ) :
    (∀ {h : TagHeap} {p t inner}, Holds h p t inner → ∀ offset,
      Simulates .stop (ParsedInto h p inner) (parseNBTPayload s fuel offset t)
        (Memory.parseNBTPayload s fuel offset p h)) ∧
    (∀ {h : TagHeap} {p t inner}, Holds h p t inner → ∀ type count offset,
      Simulates .stop (ParsedInto h p inner) (listLoop s fuel type count offset t)
        (Memory.listLoop s fuel type count offset p h)) ∧
    (∀ {h : TagHeap} {p t inner}, Holds h p t inner → ∀ offset,
      Simulates .stop (ParsedInto h p inner) (compoundLoop s fuel offset t)
        (Memory.compoundLoop s fuel offset p h)) ∧
    (∀ {h : TagHeap} {p t inner}, Holds h p t inner → ∀ offset typed,
      Simulates .stop (ParsedInto h p inner) (parseNBTTag s fuel offset t typed)
        (Memory.parseNBTTag s fuel offset p typed h)) := by
  induction fuel with
  | zero =>
    refine ⟨?_, ?_, ?_, ?_⟩
    · intro h p t inner _ offset
      exact rfl
    · intro h p t inner _ type count offset
      exact rfl
    · intro h p t inner _ offset
      exact rfl
    · intro h p t inner _ offset typed
      exact rfl
  | succ fuel ih =>
    obtain ⟨ihPayload, ihList, ihCompound, ihTag⟩ := ih
    refine ⟨?_, ?_, ?_, ?_⟩
    · intro h p t inner hp offset
      obtain ⟨c, hr, hmembers, -, -⟩ := hp.read
      have htype : c.type = t.type := congrArg NBTTag.type hmembers
      rw [Memory.parseNBTPayload, Memory.derefTag, Heap.deref_of_read hr, ok_bind, htype]
      cases hcase : t.type with
      | LIST =>
        rw [parseNBTPayload, hcase]
        refine Simulates.bind_mapError _ fun id _ => ?_
        refine Simulates.bind_mapError _ fun listType _ => ?_
        refine Simulates.bind_mapError _ fun length _ => ?_
        refine (ihList hp _ _ _).bind fun r r' hparsed => ?_
        obtain ⟨offset', t'⟩ := r
        obtain ⟨offset'', h'⟩ := r'
        dsimp only
        by_cases hlength : 2147483648 ≤ length.toNat
        · rw [if_pos hlength, if_pos hlength]
          exact Simulates.error _
        · rw [if_neg hlength, if_neg hlength]
          exact Simulates.ok hparsed
      | COMPOUND =>
        rw [parseNBTPayload, hcase]
        exact ihCompound hp offset
      | _ =>
        exact onMembers_simulates hp (parseNBTPayload_members s fuel offset t
          (by rw [hcase]; simp) (by rw [hcase]; simp))
    · intro h p t inner hp type count offset
      cases count with
      | zero => exact Simulates.ok ⟨rfl, inner, [], hp, Grows.refl h p inner⟩
      | succ count =>
        rw [listLoop, Memory.listLoop]
        refine (ihTag (holds_alloc h (c := { TagCell.new with type := type }) rfl) offset
          false).bind fun r r' hparsed => ?_
        obtain ⟨h', kept, lost, hadd, hkept, hgrows⟩ := addInnerTag_parsed hp hparsed
        obtain ⟨offset', innerTag⟩ := r
        obtain ⟨offset'', h''⟩ := r'
        obtain rfl : offset'' = offset' := hparsed.1
        dsimp only at hadd ⊢
        rw [hadd, ok_bind]
        exact (ihList hkept type count _).mono fun _ _ => ParsedInto.of_grows hgrows
    · intro h p t inner hp offset
      rw [compoundLoop, Memory.compoundLoop]
      refine Simulates.bind_mapError _ fun b _ => ?_
      by_cases hb : b ≠ 0
      · rw [if_pos hb, if_pos hb]
        refine (ihTag (holds_alloc h (c := TagCell.new) rfl) offset true).bind
          fun r r' hparsed => ?_
        obtain ⟨h', kept, lost, hadd, hkept, hgrows⟩ := addInnerTag_parsed hp hparsed
        obtain ⟨offset', innerTag⟩ := r
        obtain ⟨offset'', h''⟩ := r'
        obtain rfl : offset'' = offset' := hparsed.1
        dsimp only at hadd ⊢
        rw [hadd, ok_bind]
        exact (ihCompound hkept _).mono fun _ _ => ParsedInto.of_grows hgrows
      · rw [if_neg hb, if_neg hb]
        exact Simulates.ok ⟨rfl, inner, [], hp, Grows.refl h p inner⟩
    · intro h p t inner hp offset typed
      rw [parseNBTTag, Memory.parseNBTTag]
      refine (onMembers_simulates (f := fun tag => parseNBTHeader s offset tag typed) hp
        (parseNBTHeader_members s offset t typed)).bind fun r r' hparsed => ?_
      obtain ⟨offset', t'⟩ := r
      obtain ⟨offset'', h'⟩ := r'
      obtain ⟨hoffset, inner', lost, hholds, hgrows⟩ := hparsed
      obtain rfl : offset'' = offset' := hoffset
      exact (ihPayload hholds _).mono fun _ _ => ParsedInto.of_grows hgrows

end ChunkViewer
