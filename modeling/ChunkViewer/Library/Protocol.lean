import ChunkViewer.Library.Traced

/-!
# Protocols of traced runs

A protocol is a partial step function on states: the events that a state allows, and the
state after each. A traced run obeys it with a postcondition for its result and one for its
errors. The rules follow the run step by step, as those of a Hoare logic do.
-/

namespace Protocol

variable {σ ω ω' ε α β : Type} {step : σ → ω → Option σ}

/-- The state after the events, `none` if one of them is not allowed where it stands. -/
def follow (step : σ → ω → Option σ) (s : σ) (ws : List ω) : Option σ := ws.foldlM step s

lemma follow_nil (s : σ) : follow step s [] = some s := rfl

lemma follow_cons (s : σ) (w : ω) (ws : List ω) :
    follow step s (w :: ws) = (step s w).bind fun s' => follow step s' ws := rfl

lemma follow_append (s : σ) (ws ws' : List ω) :
    follow step s (ws ++ ws') = (follow step s ws).bind fun s' => follow step s' ws' :=
  List.foldlM_append

lemma follow_of_forall {s : σ} {ws : List ω} (h : ∀ w ∈ ws, step s w = some s) :
    follow step s ws = some s := by
  induction ws with
  | nil => rfl
  | cons w ws ih =>
    rw [List.forall_mem_cons] at h
    rw [follow_cons, h.1, Option.bind_some, ih h.2]

/-- From `s`, a run that returns has followed the protocol to a state of `post`. One that stops
has `stopped` of its error and of the state that its events lead to. -/
def Obeys (step : σ → ω → Option σ) (s : σ) (x : Traced ω ε α) (post : α → σ → Prop)
    (stopped : ε → Option σ → Prop) : Prop :=
  match x.result with
  | .ok a => ∃ s', follow step s x.events = some s' ∧ post a s'
  | .error e => stopped e (follow step s x.events)

namespace Obeys

variable {s s' : σ} {x : Traced ω ε α} {f : α → Traced ω ε β} {post post' : α → σ → Prop}
  {post₂ : β → σ → Prop} {stopped stopped' : ε → Option σ → Prop}

lemma pure {a : α} (h : post a s) :
    Obeys step s (Pure.pure a : Traced ω ε α) post stopped :=
  ⟨s, follow_nil s, h⟩

lemma emits {ws : List ω} {post : Unit → σ → Prop} (h : follow step s ws = some s')
    (hpost : post () s') : Obeys step s (Traced.emits ws) post stopped :=
  ⟨s', h, hpost⟩

lemma mapEvents {x : Traced ω' ε α} {g : ω' → ω} (h : ∀ w, step s (g w) = some s)
    (hok : ∀ a, x.result = .ok a → post a s) (herror : ∀ e, x.result = .error e → stopped e (some s)) :
    Obeys step s (x.mapEvents g) post stopped := by
  obtain ⟨ws, result⟩ := x
  have hfollow : follow step s (ws.map g) = some s := by
    apply follow_of_forall
    intro w hw
    obtain ⟨w', -, rfl⟩ := List.mem_map.mp hw
    exact h w'
  cases result with
  | ok a => exact ⟨s, hfollow, hok a rfl⟩
  | error e =>
    change stopped e (follow step s (ws.map g))
    rw [hfollow]
    exact herror e rfl

lemma bind (hx : Obeys step s x post stopped) (hf : ∀ a s', post a s' → Obeys step s' (f a) post₂ stopped) :
    Obeys step s (x >>= f) post₂ stopped := by
  obtain ⟨ws, result⟩ := x
  cases result with
  | error e => exact hx
  | ok a =>
    obtain ⟨s', hfollow, hpost⟩ := hx
    have hrest := hf a s' hpost
    rw [Traced.ok_bind]
    unfold Obeys at hrest ⊢
    rw [Traced.after_result, Traced.after_events, follow_append, hfollow, Option.bind_some]
    exact hrest

lemma mono (hx : Obeys step s x post stopped) (hpost : ∀ a s', post a s' → post' a s')
    (hstopped : ∀ e o, stopped e o → stopped' e o) : Obeys step s x post' stopped' := by
  unfold Obeys at hx ⊢
  cases hresult : x.result with
  | ok a =>
    rw [hresult] at hx
    obtain ⟨s', hfollow, ha⟩ := hx
    exact ⟨s', hfollow, hpost a s' ha⟩
  | error e =>
    rw [hresult] at hx
    exact hstopped e _ hx

/-- Events that have been emitted before the run, up to the state `t`. -/
lemma after (t : σ) {ws : List ω} (h : follow step s ws = some t) (hx : Obeys step t x post stopped) :
    Obeys step s (x.after ws) post stopped := by
  have hemits : Obeys step s (Traced.emits ws : Traced ω ε Unit) (fun _ s' => s' = t) stopped :=
    emits h rfl
  have hrun := hemits.bind (f := fun _ => x) fun _ _ ht => ht ▸ hx
  rwa [Traced.emits_bind] at hrun

lemma emits_bind (t : σ) {ws : List ω} {f : Unit → Traced ω ε β} (h : follow step s ws = some t)
    (hf : Obeys step t (f ()) post₂ stopped) :
    Obeys step s (Traced.emits ws >>= f) post₂ stopped := by
  rw [Traced.emits_bind]
  exact after t h hf

lemma lift_bind {x : Except ε α} (herror : ∀ e, x = .error e → stopped e (some s))
    (hf : ∀ a, x = .ok a → Obeys step s (f a) post₂ stopped) :
    Obeys step s (Traced.lift x >>= f) post₂ stopped := by
  cases x with
  | ok a =>
    rw [Traced.lift_ok_bind]
    exact hf a rfl
  | error e => exact herror e rfl

end Obeys

end Protocol
