import ChunkViewer.Library.ExceptRun

/-!
# Recognizers

`Recognizes s o enc dec x` says that the run `x` returns exactly if a word of a grammar stands in
the list `s` at the offset `o`, and then the value of that word. The words are of any type; `enc`
and `dec` give their letters and their values. A recognizer in the middle of a list has the offset
behind the word in its value.
-/

namespace Recognizer

open ExceptRun

variable {σ ε α β ω ω' : Type} {s : List σ} {o : ℕ}

def Recognizes (s : List σ) (o : ℕ) (enc : ω → List σ) (dec : ω → α) (x : Except ε α) : Prop :=
  ∀ a, x = .ok a ↔ ∃ w, enc w <+: s.drop o ∧ a = dec w

variable {enc : ω → List σ} {dec : ω → α} {x : Except ε α}

lemma prefix_drop_append {as bs : List σ} :
    as ++ bs <+: s.drop o ↔ as <+: s.drop o ∧ bs <+: s.drop (o + as.length) := by
  rw [← List.drop_drop]
  constructor
  · rintro ⟨rest, h⟩
    rw [← h, List.append_assoc]
    exact ⟨List.prefix_append _ _, by rw [List.drop_left]; exact List.prefix_append _ _⟩
  · rintro ⟨⟨rest, h⟩, hbs⟩
    rw [← h, List.drop_left] at hbs
    rw [← h]
    exact (List.prefix_append_right_inj as).mpr hbs

namespace Recognizes

lemma unambiguous (h : Recognizes s o enc dec x) {w w' : ω} (hw : enc w <+: s.drop o)
    (hw' : enc w' <+: s.drop o) : dec w = dec w' := by
  have hrun := (h _).mpr ⟨w, hw, rfl⟩
  have hrun' := (h _).mpr ⟨w', hw', rfl⟩
  exact Except.ok.inj (hrun.symm.trans hrun')

lemma ok (s : List σ) (o : ℕ) (a : α) :
    Recognizes s o (fun _ : Unit => []) (fun _ => a) (.ok a : Except ε α) := by
  intro r
  constructor
  · intro h
    exact ⟨(), List.nil_prefix, (Except.ok.inj h).symm⟩
  · rintro ⟨-, -, rfl⟩
    rfl

/-- The same letters and values, by other words. -/
lemma reword {enc' : ω' → List σ} {dec' : ω' → α} (h : Recognizes s o enc dec x)
    (hto : ∀ w, enc w <+: s.drop o → ∃ w', enc' w' = enc w ∧ dec' w' = dec w)
    (hfrom : ∀ w', enc' w' <+: s.drop o → ∃ w, enc w = enc' w' ∧ dec w = dec' w') :
    Recognizes s o enc' dec' x := by
  intro a
  rw [h a]
  constructor
  · rintro ⟨w, hw, rfl⟩
    obtain ⟨w', henc, hdec⟩ := hto w hw
    exact ⟨w', henc ▸ hw, hdec.symm⟩
  · rintro ⟨w', hw', rfl⟩
    obtain ⟨w, henc, hdec⟩ := hfrom w' hw'
    exact ⟨w, henc ▸ hw', hdec.symm⟩

/-- One run after another. The words of the second may depend on the word that the first found. -/
lemma bind {ω' : ω → Type} {enc' : (w : ω) → ω' w → List σ} {dec' : (w : ω) → ω' w → β}
    {f : α → Except ε β} (h : Recognizes s o enc dec x)
    (hf : ∀ w, enc w <+: s.drop o →
      Recognizes s (o + (enc w).length) (enc' w) (dec' w) (f (dec w))) :
    Recognizes s o (fun p : Sigma ω' => enc p.1 ++ enc' p.1 p.2) (fun p => dec' p.1 p.2)
      (x >>= f) := by
  intro b
  rw [bind_eq_ok]
  constructor
  · rintro ⟨a, ha, hb⟩
    obtain ⟨w, hw, rfl⟩ := (h a).mp ha
    obtain ⟨w', hw', rfl⟩ := (hf w hw b).mp hb
    exact ⟨⟨w, w'⟩, prefix_drop_append.mpr ⟨hw, hw'⟩, rfl⟩
  · rintro ⟨⟨w, w'⟩, hp, rfl⟩
    obtain ⟨hw, hw'⟩ := prefix_drop_append.mp hp
    exact ⟨_, (h _).mpr ⟨w, hw, rfl⟩, (hf w hw _).mpr ⟨w', hw', rfl⟩⟩

lemma map (h : Recognizes s o enc dec x) {f : α → Except ε β} {dec' : ω → β}
    (hf : ∀ w, enc w <+: s.drop o → f (dec w) = .ok (dec' w)) :
    Recognizes s o enc dec' (x >>= f) := by
  intro b
  rw [bind_eq_ok]
  constructor
  · rintro ⟨a, ha, hb⟩
    obtain ⟨w, hw, rfl⟩ := (h a).mp ha
    rw [hf w hw] at hb
    exact ⟨w, hw, (Except.ok.inj hb).symm⟩
  · rintro ⟨w, hw, rfl⟩
    exact ⟨_, (h _).mpr ⟨w, hw, rfl⟩, hf w hw⟩

end Recognizes

end Recognizer
