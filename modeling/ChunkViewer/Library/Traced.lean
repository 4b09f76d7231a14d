import ChunkViewer.Library.ExceptRun

/-!
# Runs with a trace

A `Traced` run has a list of events and, like an `Except` computation, a result or an error.
The events up to an error stay visible.
-/

@[ext] structure Traced (ω ε α : Type) where
  events : List ω
  result : Except ε α

namespace Traced

variable {ω ω' ε α β : Type}

def done (a : α) : Traced ω ε α := ⟨[], .ok a⟩

def andThen (x : Traced ω ε α) (f : α → Traced ω ε β) : Traced ω ε β :=
  match x.result with
  | .ok a => ⟨x.events ++ (f a).events, (f a).result⟩
  | .error e => ⟨x.events, .error e⟩

/-- The run with more events before it. -/
def after (ws : List ω) (x : Traced ω ε α) : Traced ω ε α := ⟨ws ++ x.events, x.result⟩

instance : Monad (Traced ω ε) where
  pure := done
  bind := andThen

def emits (ws : List ω) : Traced ω ε Unit := ⟨ws, .ok ()⟩

/-- A step without events. -/
def lift (x : Except ε α) : Traced ω ε α := ⟨[], x⟩

def mapEvents (g : ω → ω') (x : Traced ω ε α) : Traced ω' ε α := ⟨x.events.map g, x.result⟩

/-- Runs `f` on each element in order. -/
def forEach (bs : List β) (f : β → Traced ω ε Unit) : Traced ω ε Unit :=
  match bs with
  | [] => pure ()
  | b :: bs => do
    f b
    forEach bs f

/-! ## What a bind does -/

@[simp] lemma pure_eq (a : α) : (pure a : Traced ω ε α) = ⟨[], .ok a⟩ := rfl

@[simp] lemma after_mk (ws ws' : List ω) (r : Except ε α) :
    (⟨ws', r⟩ : Traced ω ε α).after ws = ⟨ws ++ ws', r⟩ := rfl

@[simp] lemma after_events (ws : List ω) (x : Traced ω ε α) :
    (x.after ws).events = ws ++ x.events := rfl

@[simp] lemma after_result (ws : List ω) (x : Traced ω ε α) : (x.after ws).result = x.result := rfl

@[simp] lemma after_after (ws ws' : List ω) (x : Traced ω ε α) :
    (x.after ws').after ws = x.after (ws ++ ws') := by
  unfold after
  rw [List.append_assoc]

@[simp] lemma ok_bind (ws : List ω) (a : α) (f : α → Traced ω ε β) :
    ((⟨ws, .ok a⟩ : Traced ω ε α) >>= f) = (f a).after ws := rfl

@[simp] lemma error_bind (ws : List ω) (e : ε) (f : α → Traced ω ε β) :
    ((⟨ws, .error e⟩ : Traced ω ε α) >>= f) = ⟨ws, .error e⟩ := rfl

@[simp] lemma emits_bind (ws : List ω) (f : Unit → Traced ω ε β) :
    (emits ws >>= f) = (f ()).after ws := rfl

@[simp] lemma lift_ok_bind (a : α) (f : α → Traced ω ε β) : (lift (.ok a) >>= f) = f a := rfl

@[simp] lemma lift_error_bind (e : ε) (f : α → Traced ω ε β) :
    (lift (.error e) >>= f) = ⟨[], .error e⟩ := rfl

lemma after_bind (ws : List ω) (x : Traced ω ε α) (f : α → Traced ω ε β) :
    (x.after ws >>= f) = (x >>= f).after ws := by
  obtain ⟨ws', result⟩ := x
  cases result with
  | ok a => rw [after_mk, ok_bind, ok_bind, after_after]
  | error e => rfl

lemma result_bind (x : Traced ω ε α) (f : α → Traced ω ε β) :
    (x >>= f).result = x.result >>= fun a => (f a).result := by
  obtain ⟨ws, result⟩ := x
  cases result with
  | ok a => rfl
  | error e => rfl

lemma events_bind_of_ok {x : Traced ω ε α} {a : α} (h : x.result = .ok a)
    (f : α → Traced ω ε β) : (x >>= f).events = x.events ++ (f a).events := by
  obtain ⟨ws, result⟩ := x
  obtain rfl : result = .ok a := h
  rfl

lemma events_bind_pure (x : Traced ω ε α) (b : β) :
    (x >>= fun _ => (pure b : Traced ω ε β)).events = x.events := by
  obtain ⟨ws, result⟩ := x
  cases result with
  | ok a => rw [ok_bind, pure_eq, after_mk, List.append_nil]
  | error e => rfl

lemma events_bind_of_error {x : Traced ω ε α} {e : ε} (h : x.result = .error e)
    (f : α → Traced ω ε β) : (x >>= f).events = x.events := by
  obtain ⟨ws, result⟩ := x
  obtain rfl : result = .error e := h
  rfl

lemma result_bind_eq_ok {x : Traced ω ε α} {f : α → Traced ω ε β} {b : β} :
    (x >>= f).result = .ok b ↔ ∃ a, x.result = .ok a ∧ (f a).result = .ok b := by
  obtain ⟨ws, result⟩ := x
  cases result with
  | ok a => simp
  | error e => simp

lemma forEach_cons (b : β) (bs : List β) (f : β → Traced ω ε Unit) :
    forEach (b :: bs) f = (f b >>= fun _ => forEach bs f) := rfl

lemma forEach_eq {bs : List β} {f : β → Traced ω ε Unit} {g : β → List ω}
    (h : ∀ b ∈ bs, f b = ⟨g b, .ok ()⟩) : forEach bs f = ⟨bs.flatMap g, .ok ()⟩ := by
  induction bs with
  | nil => rfl
  | cons b bs ih =>
    rw [forEach_cons, h b List.mem_cons_self, ok_bind,
      ih fun b' hb' => h b' (List.mem_cons_of_mem b hb'), after_mk, List.flatMap_cons]

lemma forEach_errors {P : ε → Prop} {bs : List β} {f : β → Traced ω ε Unit}
    (h : ∀ b ∈ bs, ExceptRun.ErrorsIn P (f b).result) :
    ExceptRun.ErrorsIn P (forEach bs f).result := by
  induction bs with
  | nil => exact ExceptRun.ErrorsIn.ok _ _
  | cons b bs ih =>
    rw [List.forall_mem_cons] at h
    rw [forEach_cons, result_bind]
    exact ExceptRun.ErrorsIn.bind h.1 fun _ => ih h.2

lemma forEach_result_ok {bs : List β} {f : β → Traced ω ε Unit} :
    (forEach bs f).result = .ok () ↔ ∀ b ∈ bs, (f b).result = .ok () := by
  induction bs with
  | nil => simp [forEach]
  | cons b bs ih =>
    rw [forEach_cons, result_bind_eq_ok, List.forall_mem_cons, ← ih]
    constructor
    · rintro ⟨⟨⟩, hb, hbs⟩
      exact ⟨hb, hbs⟩
    · rintro ⟨hb, hbs⟩
      exact ⟨(), hb, hbs⟩

end Traced
