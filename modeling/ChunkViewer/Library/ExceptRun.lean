import Mathlib

/-!
# Runs in the error monad

Inversion of `Except` computations: what a finished `bind` says about its parts. `ErrorsIn P x`
says that `x` can only end with an error of `P`, with a rule for each way to build `x`.
`AgreesUnless e x y` says that `y` ends as `x` does unless `x` ends with `e`: the relation
between a run with little fuel and one with more. `Simulates lift R x y` says that `y` ends with
the error of `x`, lifted, or with a value that `R` relates to that of `x`.
-/

namespace ExceptRun

variable {ε α β : Type}

@[simp] lemma ok_bind (a : α) (f : α → Except ε β) : (Except.ok a >>= f) = f a := rfl

@[simp] lemma error_bind (e : ε) (f : α → Except ε β) :
    ((Except.error e : Except ε α) >>= f) = Except.error e := rfl

lemma bind_eq_ok {x : Except ε α} {f : α → Except ε β} {b : β} :
    (x >>= f) = .ok b ↔ ∃ a, x = .ok a ∧ f a = .ok b := by
  cases x with
  | error e => simp
  | ok a => simp

lemma bind_eq_error {x : Except ε α} {f : α → Except ε β} {e : ε} :
    (x >>= f) = .error e ↔ x = .error e ∨ ∃ a, x = .ok a ∧ f a = .error e := by
  cases x with
  | error e' => simp
  | ok a => simp

/-! ## Which errors a run can end with -/

def ErrorsIn (P : ε → Prop) (x : Except ε α) : Prop := ∀ e, x = .error e → P e

lemma ErrorsIn.ok (P : ε → Prop) (a : α) : ErrorsIn P (.ok a : Except ε α) := by
  intro e h
  exact absurd h (by simp)

lemma ErrorsIn.error {P : ε → Prop} {e : ε} (h : P e) : ErrorsIn P (.error e : Except ε α) := by
  intro e' h'
  exact Except.error.inj h' ▸ h

lemma ErrorsIn.bind {P : ε → Prop} {x : Except ε α} {f : α → Except ε β} (hx : ErrorsIn P x)
    (hf : ∀ a, ErrorsIn P (f a)) : ErrorsIn P (x >>= f) := by
  intro e h
  rcases bind_eq_error.mp h with h | ⟨a, _, h⟩
  · exact hx e h
  · exact hf a e h

lemma ErrorsIn.bind_ok_iff {P : ε → Prop} {x : Except ε α} (f : α → β) :
    ErrorsIn P (x >>= fun a => .ok (f a)) ↔ ErrorsIn P x := by
  constructor
  · intro h e hx
    exact h e (by rw [hx, error_bind])
  · intro h
    exact h.bind fun a => ErrorsIn.ok P (f a)

lemma ErrorsIn.ite {P : ε → Prop} {c : Prop} [Decidable c] {x y : Except ε α}
    (hx : ErrorsIn P x) (hy : ErrorsIn P y) : ErrorsIn P (if c then x else y) := by
  by_cases h : c
  · rwa [if_pos h]
  · rwa [if_neg h]

lemma ErrorsIn.mono {P Q : ε → Prop} {x : Except ε α} (hx : ErrorsIn P x) (h : ∀ e, P e → Q e) :
    ErrorsIn Q x := fun e he => h e (hx e he)

/-! ## Runs that agree unless the first one gives up -/

def AgreesUnless (e : ε) (x y : Except ε α) : Prop := x ≠ .error e → y = x

lemma AgreesUnless.refl (e : ε) (x : Except ε α) : AgreesUnless e x x := fun _ => rfl

lemma AgreesUnless.error (e : ε) (y : Except ε α) : AgreesUnless e (.error e) y :=
  fun h => absurd rfl h

lemma AgreesUnless.trans {e : ε} {x y z : Except ε α} (hxy : AgreesUnless e x y)
    (hyz : AgreesUnless e y z) : AgreesUnless e x z := by
  intro h
  have hy := hxy h
  rw [hyz (hy ▸ h), hy]

lemma AgreesUnless.bind {e : ε} {x y : Except ε α} {f g : α → Except ε β}
    (hx : AgreesUnless e x y) (hf : ∀ a, AgreesUnless e (f a) (g a)) :
    AgreesUnless e (x >>= f) (y >>= g) := by
  intro h
  cases x with
  | error e' => rw [hx (fun he => h (by rw [he, error_bind])), error_bind, error_bind]
  | ok a => rw [hx (by simp), ok_bind, ok_bind, hf a h]

lemma AgreesUnless.of_le {e : ε} {run : ℕ → Except ε α}
    (hstep : ∀ n, AgreesUnless e (run n) (run (n + 1))) {n m : ℕ} (h : n ≤ m) :
    AgreesUnless e (run n) (run m) := by
  induction h with
  | refl => exact AgreesUnless.refl e _
  | step _ ih => exact ih.trans (hstep _)

/-! ## Runs on two levels -/

section Simulation

variable {ε' α' β' : Type}

def Simulates (lift : ε → ε') (R : α → α' → Prop) (x : Except ε α) (y : Except ε' α') : Prop :=
  match x with
  | .ok a => ∃ a', y = .ok a' ∧ R a a'
  | .error e => y = .error (lift e)

variable {lift : ε → ε'} {R : α → α' → Prop} {x : Except ε α} {y : Except ε' α'}

lemma Simulates.ok {a : α} {a' : α'} (h : R a a') :
    Simulates lift R (.ok a) (.ok a') := ⟨a', rfl, h⟩

lemma Simulates.error (e : ε) : Simulates lift R (.error e) (.error (lift e)) := rfl

lemma Simulates.mono {S : α → α' → Prop} (h : Simulates lift R x y)
    (hRS : ∀ a a', R a a' → S a a') : Simulates lift S x y := by
  cases x with
  | ok a =>
    obtain ⟨a', hy, ha⟩ := h
    exact ⟨a', hy, hRS a a' ha⟩
  | error e => exact h

/-- The first run is remembered. -/
lemma Simulates.run (h : Simulates lift R x y) :
    Simulates lift (fun a a' => x = .ok a ∧ R a a') x y := by
  cases x with
  | ok a =>
    obtain ⟨a', hy, ha⟩ := h
    exact ⟨a', hy, rfl, ha⟩
  | error e => exact h

lemma Simulates.bind {S : β → β' → Prop} {f : α → Except ε β} {g : α' → Except ε' β'}
    (h : Simulates lift R x y) (hfg : ∀ a a', R a a' → Simulates lift S (f a) (g a')) :
    Simulates lift S (x >>= f) (y >>= g) := by
  cases x with
  | ok a =>
    obtain ⟨a', rfl, ha⟩ := h
    exact hfg a a' ha
  | error e =>
    obtain rfl : y = .error (lift e) := h
    exact rfl

lemma Simulates.bind_mapError {S : β → β' → Prop} (x : Except ε α) {f : α → Except ε β}
    {g : α → Except ε' β'} (hfg : ∀ a, x = .ok a → Simulates lift S (f a) (g a)) :
    Simulates lift S (x >>= f) (x.mapError lift >>= g) := by
  cases x with
  | ok a => exact hfg a rfl
  | error e => rfl

lemma Simulates.bind_same {S : β → β' → Prop} (x : Except ε α) {f : α → Except ε β}
    {g : α → Except ε β'} (hfg : ∀ a, Simulates id S (f a) (g a)) :
    Simulates id S (x >>= f) (x >>= g) := by
  cases x with
  | ok a => exact hfg a
  | error e => rfl

lemma Simulates.mapError_right {y : Except ε α'} (h : Simulates id R x y) :
    Simulates lift R x (y.mapError lift) := by
  cases x with
  | ok a =>
    obtain ⟨a', rfl, ha⟩ := h
    exact ⟨a', rfl, ha⟩
  | error e =>
    obtain rfl : y = .error e := h
    rfl

lemma Simulates.of_ok {a' : α'} (h : Simulates lift R x (.ok a')) : ∃ a, x = .ok a ∧ R a a' := by
  cases x with
  | ok a =>
    obtain ⟨a'', hy, ha⟩ := h
    exact ⟨a, rfl, Except.ok.inj hy ▸ ha⟩
  | error e => exact absurd h (by simp [Simulates])

end Simulation

end ExceptRun
