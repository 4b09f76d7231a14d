import ChunkViewer.Library.ExceptRun

/-!
# Trees in a heap

Cells that are made and deleted one at a time, and trees whose nodes are cells.
`Represents L h roots trees owned` says that the pointers `roots` point to `trees`, and that the
nodes of these trees are the cells `owned`. When `owned` has no duplicates, the trees share no
cell, and each cell is deleted once when they are released.
-/

namespace TreeHeap

open ExceptRun

/-- The position of a cell is its address, and a deleted cell is `none`. No address is used
twice. -/
structure Heap (ν : Type) where
  cells : List (Option ν)

variable {ν ε : Type}

namespace Heap

def empty : Heap ν := ⟨[]⟩

def size (h : Heap ν) : ℕ := h.cells.length

def read (h : Heap ν) (a : ℕ) : Option ν := h.cells[a]?.join

/-- Makes a cell, at the address `h.size`. -/
def alloc (h : Heap ν) (c : ν) : Heap ν := ⟨h.cells ++ [some c]⟩

def write (h : Heap ν) (a : ℕ) (c : ν) : Heap ν := ⟨h.cells.set a (some c)⟩

def delete (h : Heap ν) (a : ℕ) : Heap ν := ⟨h.cells.set a none⟩

/-- The cell at an address, or the error `dead`. -/
def deref (dead : ε) (h : Heap ν) (a : ℕ) : Except ε ν :=
  match h.read a with
  | some c => .ok c
  | none => .error dead

/-- Deletes a cell. It is an error to delete one that is not there. -/
def free (dead : ε) (h : Heap ν) (a : ℕ) : Except ε (Heap ν) :=
  match h.read a with
  | some _ => .ok (h.delete a)
  | none => .error dead

@[simp] lemma size_alloc (h : Heap ν) (c : ν) : (h.alloc c).size = h.size + 1 := by
  simp [alloc, size]

@[simp] lemma size_write (h : Heap ν) (a : ℕ) (c : ν) : (h.write a c).size = h.size := by
  simp [write, size]

@[simp] lemma size_delete (h : Heap ν) (a : ℕ) : (h.delete a).size = h.size := by
  simp [delete, size]

lemma lt_size_of_read {h : Heap ν} {a : ℕ} {c : ν} (hr : h.read a = some c) :
    a < h.size := by
  by_contra hlt
  rw [read, List.getElem?_eq_none (by simpa [size] using hlt)] at hr
  exact absurd hr (by simp)

lemma read_eq_none {h : Heap ν} {a : ℕ} (ha : h.size ≤ a) : h.read a = none := by
  rw [read, List.getElem?_eq_none (by simpa [size] using ha)]
  rfl

lemma read_alloc (h : Heap ν) (c : ν) (a : ℕ) :
    (h.alloc c).read a = if a = h.size then some c else h.read a := by
  unfold read alloc size
  by_cases ha : a = h.cells.length
  · rw [if_pos ha, ha, List.getElem?_concat_length]
    rfl
  · rw [if_neg ha]
    by_cases hlt : a < h.cells.length
    · rw [List.getElem?_append_left hlt]
    · have hold : h.cells[a]? = none := List.getElem?_eq_none (by omega)
      have hnew : (h.cells ++ [some c])[a]? = none :=
        List.getElem?_eq_none (by rw [List.length_append, List.length_singleton]; omega)
      rw [hold, hnew]

lemma read_write {h : Heap ν} {p : ℕ} (hp : p < h.size) (c : ν) (a : ℕ) :
    (h.write p c).read a = if a = p then some c else h.read a := by
  unfold read write
  by_cases ha : a = p
  · rw [if_pos ha, ha, List.getElem?_set_self hp]
    rfl
  · rw [if_neg ha, List.getElem?_set_ne fun h' => ha h'.symm]

lemma isSome_write {h : Heap ν} {p a : ℕ} (hp : p < h.size) (c : ν) (ha : (h.read a).isSome) :
    ((h.write p c).read a).isSome := by
  rw [read_write hp]
  by_cases hap : a = p
  · rw [if_pos hap]
    rfl
  · rwa [if_neg hap]

lemma read_delete (h : Heap ν) (p a : ℕ) :
    (h.delete p).read a = if a = p then none else h.read a := by
  unfold read delete
  by_cases ha : a = p
  · rw [if_pos ha, ha, List.getElem?_set]
    by_cases hlt : p < h.cells.length
    · simp [hlt]
    · simp [hlt]
  · rw [if_neg ha, List.getElem?_set_ne fun h' => ha h'.symm]

lemma deref_of_read {dead : ε} {h : Heap ν} {a : ℕ} {c : ν} (hr : h.read a = some c) :
    h.deref dead a = .ok c := by
  rw [deref, hr]

lemma free_of_read {dead : ε} {h : Heap ν} {a : ℕ} {c : ν} (hr : h.read a = some c) :
    h.free dead a = .ok (h.delete a) := by
  rw [free, hr]

end Heap

/-- The addresses of the cells that are there. -/
def Heap.live (h : Heap ν) : List ℕ := (List.range h.size).filter fun a => (h.read a).isSome

/-! ## Exactly these cells are deleted -/

structure Deletes (h h' : Heap ν) (gone : List ℕ) : Prop where
  size : h'.size = h.size
  read : ∀ a, h'.read a = if a ∈ gone then none else h.read a

lemma Deletes.nil (h : Heap ν) : Deletes h h [] := ⟨rfl, fun _ => by simp⟩

lemma Deletes.single (h : Heap ν) (p : ℕ) : Deletes h (h.delete p) [p] :=
  ⟨h.size_delete p, fun a => by rw [Heap.read_delete]; simp⟩

lemma Deletes.trans {h h' h'' : Heap ν} {gone gone' : List ℕ} (hd : Deletes h h' gone)
    (hd' : Deletes h' h'' gone') : Deletes h h'' (gone ++ gone') := by
  refine ⟨hd'.size.trans hd.size, fun a => ?_⟩
  rw [hd'.read, hd.read]
  by_cases ha : a ∈ gone <;> by_cases ha' : a ∈ gone' <;> simp [ha, ha']

lemma Deletes.congr {h h' : Heap ν} {gone gone' : List ℕ} (hd : Deletes h h' gone)
    (hmem : ∀ a, a ∈ gone ↔ a ∈ gone') : Deletes h h' gone' := by
  refine ⟨hd.size, fun a => ?_⟩
  rw [hd.read]
  exact if_congr (hmem a) rfl rfl

lemma Deletes.read_of_notMem {h h' : Heap ν} {gone : List ℕ} (hd : Deletes h h' gone)
    {a : ℕ} (ha : a ∉ gone) : h'.read a = h.read a := by
  rw [hd.read, if_neg ha]

/-- How trees are stored: the label of a node and its children, in the cell and in the tree. -/
structure Layout (ν τ l : Type) where
  cellLabel : ν → l
  cellKids : ν → List ℕ
  treeLabel : τ → l
  treeKids : τ → List τ

variable {τ l : Type} {L : Layout ν τ l}

inductive Represents (L : Layout ν τ l) (h : Heap ν) :
    List ℕ → List τ → List ℕ → Prop
  | nil : Represents L h [] [] []
  | cons {p : ℕ} {ps : List ℕ} {t : τ} {ts : List τ} {c : ν}
    {inner rest : List ℕ} : h.read p = some c → L.cellLabel c = L.treeLabel t →
    Represents L h (L.cellKids c) (L.treeKids t) inner → Represents L h ps ts rest →
    Represents L h (p :: ps) (t :: ts) (p :: (inner ++ rest))

namespace Represents

variable {h h' : Heap ν} {ps qs : List ℕ} {ts us : List τ} {owned owned' : List ℕ}

lemma single {p : ℕ} {t : τ} {c : ν} {inner : List ℕ} (hr : h.read p = some c)
    (hl : L.cellLabel c = L.treeLabel t)
    (hk : Represents L h (L.cellKids c) (L.treeKids t) inner) :
    Represents L h [p] [t] (p :: inner) := by
  have hcons := cons hr hl hk nil
  rwa [List.append_nil] at hcons

lemma single_inv {p : ℕ} {t : τ} (hrep : Represents L h [p] [t] owned) :
    ∃ c inner, owned = p :: inner ∧ h.read p = some c ∧ L.cellLabel c = L.treeLabel t ∧
      Represents L h (L.cellKids c) (L.treeKids t) inner := by
  cases hrep with
  | cons hr hl hk hrest =>
    cases hrest
    exact ⟨_, _, by rw [List.append_nil], hr, hl, hk⟩

lemma append (hps : Represents L h ps ts owned) (hqs : Represents L h qs us owned') :
    Represents L h (ps ++ qs) (ts ++ us) (owned ++ owned') := by
  induction hps with
  | nil => exact hqs
  | cons hr hl hk _ _ ihrest =>
    rw [List.cons_append, List.cons_append, List.cons_append, List.append_assoc]
    exact cons hr hl hk ihrest

lemma flatMap {ι : Type} {ps : ι → List ℕ} {ts : ι → List τ} {owned : ι → List ℕ} (is : List ι)
    (hrep : ∀ i ∈ is, Represents L h (ps i) (ts i) (owned i)) :
    Represents L h (is.flatMap ps) (is.flatMap ts) (is.flatMap owned) := by
  induction is with
  | nil => exact nil
  | cons i is ih =>
    rw [List.flatMap_cons, List.flatMap_cons, List.flatMap_cons]
    exact (hrep i List.mem_cons_self).append (ih fun j hj => hrep j (List.mem_cons_of_mem i hj))

lemma live (hrep : Represents L h ps ts owned) {a : ℕ} (ha : a ∈ owned) :
    ∃ c, h.read a = some c := by
  induction hrep with
  | nil => exact absurd ha List.not_mem_nil
  | cons hr _ _ _ ihinner ihrest =>
    rcases List.mem_cons.mp ha with rfl | ha
    · exact ⟨_, hr⟩
    · rcases List.mem_append.mp ha with ha | ha
      · exact ihinner ha
      · exact ihrest ha

lemma lt_size (hrep : Represents L h ps ts owned) {a : ℕ} (ha : a ∈ owned) :
    a < h.size := by
  obtain ⟨c, hc⟩ := hrep.live ha
  exact Heap.lt_size_of_read hc

/-- The frame rule: what happens outside the owned cells does not matter. -/
lemma frame (hrep : Represents L h ps ts owned) (hsame : ∀ a ∈ owned, h'.read a = h.read a) :
    Represents L h' ps ts owned := by
  induction hrep with
  | nil => exact nil
  | cons hr hl _ _ ihinner ihrest =>
    refine cons ?_ hl (ihinner fun a ha => ?_) (ihrest fun a ha => ?_)
    · rw [hsame _ List.mem_cons_self, hr]
    · exact hsame a (List.mem_cons_of_mem _ (List.mem_append_left _ ha))
    · exact hsame a (List.mem_cons_of_mem _ (List.mem_append_right _ ha))

/-- A cell is owned if and only if a path leads to it from a root. -/
inductive Reaches (L : Layout ν τ l) (h : Heap ν) (roots : List ℕ) : ℕ → Prop
  | root {p : ℕ} : p ∈ roots → Reaches L h roots p
  | kid {p q : ℕ} {c : ν} : Reaches L h roots p → h.read p = some c → q ∈ L.cellKids c →
    Reaches L h roots q

lemma roots_subset (hrep : Represents L h ps ts owned) {p : ℕ} (hp : p ∈ ps) :
    p ∈ owned := by
  induction hrep with
  | nil => exact hp
  | cons _ _ _ _ _ ihrest =>
    rcases List.mem_cons.mp hp with rfl | hp
    · exact List.mem_cons_self
    · exact List.mem_cons_of_mem _ (List.mem_append_right _ (ihrest hp))

lemma kids_subset (hrep : Represents L h ps ts owned) {p q : ℕ} {c : ν} (hp : p ∈ owned)
    (hr : h.read p = some c) (hq : q ∈ L.cellKids c) : q ∈ owned := by
  induction hrep with
  | nil => exact absurd hp List.not_mem_nil
  | cons hr' _ hk _ ihinner ihrest =>
    rcases List.mem_cons.mp hp with rfl | hp
    · rw [hr', Option.some.injEq] at hr
      subst hr
      exact List.mem_cons_of_mem _ (List.mem_append_left _ (hk.roots_subset hq))
    · rcases List.mem_append.mp hp with hp | hp
      · exact List.mem_cons_of_mem _ (List.mem_append_left _ (ihinner hp))
      · exact List.mem_cons_of_mem _ (List.mem_append_right _ (ihrest hp))

lemma Reaches.of_kids {roots : List ℕ} {p q : ℕ} {c : ν}
    (hp : Reaches L h roots p) (hr : h.read p = some c)
    (hq : Reaches L h (L.cellKids c) q) : Reaches L h roots q := by
  induction hq with
  | root hmem => exact hp.kid hr hmem
  | kid _ hr' hmem ih => exact ih.kid hr' hmem

lemma Reaches.mono {roots roots' : List ℕ} {q : ℕ} (hq : Reaches L h roots q)
    (hsub : ∀ p ∈ roots, p ∈ roots') : Reaches L h roots' q := by
  induction hq with
  | root hmem => exact .root (hsub _ hmem)
  | kid _ hr hmem ih => exact ih.kid hr hmem

theorem mem_owned_iff (hrep : Represents L h ps ts owned) (a : ℕ) :
    a ∈ owned ↔ Reaches L h ps a := by
  constructor
  · intro ha
    induction hrep with
    | nil => exact absurd ha List.not_mem_nil
    | cons hr _ _ _ ihinner ihrest =>
      rcases List.mem_cons.mp ha with rfl | ha
      · exact .root List.mem_cons_self
      · rcases List.mem_append.mp ha with ha | ha
        · exact Reaches.of_kids (.root List.mem_cons_self) hr (ihinner ha)
        · exact (ihrest ha).mono fun p hp => List.mem_cons_of_mem _ hp
  · intro ha
    induction ha with
    | root hmem => exact hrep.roots_subset hmem
    | kid _ hr hmem ih => exact hrep.kids_subset ih hr hmem

lemma perm (hrep : Represents L h ps ts owned) (hperm : ps.Perm qs) :
    ∃ us owned', us.Perm ts ∧ owned'.Perm owned ∧ Represents L h qs us owned' := by
  induction hperm generalizing ts owned with
  | nil => exact ⟨ts, owned, List.Perm.rfl, List.Perm.rfl, hrep⟩
  | cons p _ ih =>
    cases hrep with
    | cons hr hl hk hrest =>
      obtain ⟨us, owned', hus, howned, hrep'⟩ := ih hrest
      exact ⟨_, _, hus.cons _, (howned.append_left _).cons p, cons hr hl hk hrep'⟩
  | swap p q ps =>
    cases hrep with
    | cons hr hl hk hrest =>
      cases hrest with
      | cons hr' hl' hk' hrest' =>
        refine ⟨_, _, List.Perm.swap _ _ _, ?_, cons hr' hl' hk' (cons hr hl hk hrest')⟩
        rw [← List.cons_append, ← List.cons_append, ← List.cons_append, ← List.cons_append]
        exact List.perm_append_comm_assoc _ _ _
  | trans _ _ ih₁ ih₂ =>
    obtain ⟨us₁, owned₁, hus₁, howned₁, hrep₁⟩ := ih₁ hrep
    obtain ⟨us₂, owned₂, hus₂, howned₂, hrep₂⟩ := ih₂ hrep₁
    exact ⟨us₂, owned₂, hus₂.trans hus₁, howned₂.trans howned₁, hrep₂⟩

end Represents

/-! ## Release -/

/-- Deletes all that stands below a cell: below each child first, then the child. The children
may come in an order that depends on the cell. -/
def releaseBelow (kids : ℕ → ν → List ℕ) (dead outOfFuel : ε) :
    ℕ → ℕ → Heap ν → Except ε (Heap ν)
  | 0, _, _ => .error outOfFuel
  | fuel + 1, p, h => do
    let c ← h.deref dead p
    (kids p c).foldlM (fun h q => do
      let h ← releaseBelow kids dead outOfFuel fuel q h
      h.free dead q) h

/-- Deletes the trees of some roots. -/
def releaseAll (kids : ℕ → ν → List ℕ) (dead outOfFuel : ε) (fuel : ℕ)
    (ps : List ℕ) (h : Heap ν) : Except ε (Heap ν) :=
  ps.foldlM (fun h q => do
    let h ← releaseBelow kids dead outOfFuel fuel q h
    h.free dead q) h

section Release

variable {kids : ℕ → ν → List ℕ} {dead outOfFuel : ε}

lemma releaseAll_cons (fuel : ℕ) (p : ℕ) (ps : List ℕ) (h : Heap ν) :
    releaseAll kids dead outOfFuel fuel (p :: ps) h =
      (releaseBelow kids dead outOfFuel fuel p h >>= fun h => h.free dead p >>= fun h =>
        releaseAll kids dead outOfFuel fuel ps h) := by
  rw [releaseAll, List.foldlM_cons, bind_assoc]
  rfl

lemma releaseBelow_succ (fuel : ℕ) (p : ℕ) (h : Heap ν) :
    releaseBelow kids dead outOfFuel (fuel + 1) p h =
      (h.deref dead p >>= fun c => releaseAll kids dead outOfFuel fuel (kids p c) h) := rfl

lemma foldlM_releaseAll (fuel : ℕ) (pss : List (List ℕ)) (h : Heap ν) :
    pss.foldlM (fun h ps => releaseAll kids dead outOfFuel fuel ps h) h =
      releaseAll kids dead outOfFuel fuel pss.flatten h := by
  induction pss generalizing h with
  | nil => rfl
  | cons ps pss ih =>
    have happend : releaseAll kids dead outOfFuel fuel (ps ++ pss.flatten) h =
        (releaseAll kids dead outOfFuel fuel ps h >>= fun h =>
          releaseAll kids dead outOfFuel fuel pss.flatten h) := List.foldlM_append
    rw [List.foldlM_cons, List.flatten_cons, happend]
    simp only [ih]

variable (dead outOfFuel) in
/-- Trees that share no cell are released without an error, and exactly their cells are
deleted. -/
theorem Represents.releaseAll_eq (hkids : ∀ p c, (kids p c).Perm (L.cellKids c)) {h : Heap ν}
    {ps : List ℕ} {ts : List τ} {owned : List ℕ} (hrep : Represents L h ps ts owned)
    (hnodup : owned.Nodup) {fuel : ℕ} (hfuel : owned.length ≤ fuel) :
    ∃ h', releaseAll kids dead outOfFuel fuel ps h = .ok h' ∧ Deletes h h' owned := by
  -- Below a root there are fewer cells; the other roots are an induction of their own.
  induction fuel generalizing h ps ts owned with
  | zero =>
    cases hrep with
    | nil => exact ⟨h, rfl, Deletes.nil h⟩
    | cons _ _ _ _ => exact absurd hfuel (by simp)
  | succ fuel ih =>
    induction ps generalizing h ts owned with
    | nil =>
      cases hrep
      exact ⟨h, rfl, Deletes.nil h⟩
    | cons p ps ihps =>
      cases hrep with
      | @cons _ _ t ts c inner rest hr _ hk hrest =>
        obtain ⟨hp, htail⟩ := List.nodup_cons.mp hnodup
        obtain ⟨hinner, hrestNodup, hdisjoint⟩ := List.nodup_append'.mp htail
        rw [List.length_cons, List.length_append] at hfuel
        obtain ⟨us, inner', -, hinner', hk'⟩ := hk.perm (hkids p c).symm
        obtain ⟨h₁, hrun₁, hdel₁⟩ := ih hk' (hinner'.nodup_iff.mpr hinner)
          (by rw [hinner'.length_eq]; omega)
        have hdel₁' := hdel₁.congr fun a => hinner'.mem_iff
        have hp₁ : h₁.read p = some c := by
          rw [hdel₁'.read_of_notMem fun ha => hp (List.mem_append_left _ ha), hr]
        have hdel₂ := hdel₁'.trans (Deletes.single h₁ p)
        have hrest₂ : Represents L (h₁.delete p) ps ts rest := by
          refine hrest.frame fun a ha => hdel₂.read_of_notMem fun hgone => ?_
          rcases List.mem_append.mp hgone with hgone | hgone
          · exact hdisjoint hgone ha
          · rw [List.mem_singleton] at hgone
            exact hp (List.mem_append_right _ (hgone ▸ ha))
        obtain ⟨h₃, hrun₃, hdel₃⟩ := ihps hrest₂ hrestNodup (by omega)
        refine ⟨h₃, ?_, (hdel₂.trans hdel₃).congr fun a => ?_⟩
        · rw [releaseAll_cons, releaseBelow_succ, Heap.deref_of_read hr, ok_bind, hrun₁, ok_bind,
            Heap.free_of_read hp₁, ok_bind, hrun₃]
        · simp only [List.mem_append, List.mem_cons, List.not_mem_nil, or_false]
          tauto

end Release

end TreeHeap
