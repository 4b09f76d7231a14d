import ChunkViewer.Proofs.GraphFiles
import ChunkViewer.Spec.CoordinateText

/-!
# Reading coordinates

`stoi` returns the number of the numeral that its string starts with, and the loop of
`parseCoords` cuts the word at its commas. Complete numerals are therefore read as their
numbers, and whatever else is accepted has a field that goes on behind its numeral or has
white space in front of it.
-/

namespace ChunkViewer

/-! ## Numbers -/

variable {α : Type} {p : α → Bool}

lemma takeWhile_append_stop {as bs : List α} (has : ∀ c ∈ as, p c = true)
    (hbs : ∀ c ∈ bs.head?, p c = false) : (as ++ bs).takeWhile p = as := by
  rw [List.takeWhile_append_of_pos has]
  cases bs with
  | nil => rw [List.takeWhile_nil, List.append_nil]
  | cons b bs => rw [List.takeWhile_cons_of_neg (by simp [hbs b rfl]), List.append_nil]

lemma dropWhile_append_stop {as bs : List α} (has : ∀ c ∈ as, p c = true)
    (hbs : ∀ c ∈ bs.head?, p c = false) : (as ++ bs).dropWhile p = bs := by
  rw [List.dropWhile_append_of_pos has]
  cases bs with
  | nil => rw [List.dropWhile_nil]
  | cons b bs => rw [List.dropWhile_cons_of_neg (by simp [hbs b rfl])]

lemma head?_dropWhile_stop (p : α → Bool) (cs : List α) :
    ∀ c ∈ (cs.dropWhile p).head?, p c = false := by
  intro c hc
  have hstop := List.head?_dropWhile_not p cs
  rw [Option.mem_def.mp hc] at hstop
  exact hstop

lemma digitsValue_eq (digits : List Char) : digitsValue digits = Decimal.value digits := by
  rw [Decimal.value, Nat.ofDigitChars_eq_foldl]
  rfl

lemma splitSign_digit {c : Char} {cs : List Char} (h : c.isDigit = true) :
    splitSign (c :: cs) = (1, c :: cs) := by
  have hminus : c ≠ '-' := by
    rintro rfl
    exact absurd h (by decide)
  have hplus : c ≠ '+' := by
    rintro rfl
    exact absurd h (by decide)
  rw [splitSign, if_neg hminus, if_neg hplus]

lemma isSpace_of_digit {c : Char} (h : c.isDigit = true) : isSpace c = false := by
  rw [Char.isDigit, Bool.and_eq_true, decide_eq_true_eq, decide_eq_true_eq] at h
  have hlow : 48 ≤ c.toNat := h.1
  unfold isSpace
  rw [Bool.or_eq_false_iff, Bool.and_eq_false_iff, beq_eq_false_iff_ne, decide_eq_false_iff_not,
    decide_eq_false_iff_not]
  omega

lemma splitSign_append {numeral rest : List Char} {n : ℤ} (h : Decimal.Signed numeral n)
    (hrest : ∀ c ∈ rest.head?, c.isDigit = false) :
    (splitSign (numeral ++ rest)).2.takeWhile Char.isDigit ≠ [] ∧
      (splitSign (numeral ++ rest)).1 *
        digitsValue ((splitSign (numeral ++ rest)).2.takeWhile Char.isDigit) = n := by
  cases h with
  | unsigned hdigits =>
    have hsplit : splitSign (numeral ++ rest) = (1, numeral ++ rest) := by
      obtain ⟨c, cs, rfl⟩ := List.exists_cons_of_ne_nil hdigits.1
      exact splitSign_digit (hdigits.2 c List.mem_cons_self)
    rw [hsplit]
    dsimp only
    rw [takeWhile_append_stop hdigits.2 hrest, digitsValue_eq, one_mul]
    exact ⟨hdigits.1, rfl⟩
  | plus hdigits =>
    rw [List.cons_append, splitSign, if_neg (by decide), if_pos rfl]
    dsimp only
    rw [takeWhile_append_stop hdigits.2 hrest, digitsValue_eq, one_mul]
    exact ⟨hdigits.1, rfl⟩
  | minus hdigits =>
    rw [List.cons_append, splitSign, if_pos rfl]
    dsimp only
    rw [takeWhile_append_stop hdigits.2 hrest, digitsValue_eq, neg_one_mul]
    exact ⟨hdigits.1, rfl⟩

lemma splitSign_numeral {cs : List Char} (h : (splitSign cs).2.takeWhile Char.isDigit ≠ []) :
    ∃ numeral rest, cs = numeral ++ rest ∧ (∀ c ∈ rest.head?, c.isDigit = false) ∧
      Decimal.Signed numeral
        ((splitSign cs).1 * digitsValue ((splitSign cs).2.takeWhile Char.isDigit)) := by
  have hdigits : ∀ ds : List Char, ds.takeWhile Char.isDigit ≠ [] →
      Decimal.Digits (ds.takeWhile Char.isDigit) := by
    intro ds hne
    exact ⟨hne, fun c hc => List.mem_takeWhile_imp hc⟩
  cases cs with
  | nil => exact absurd rfl h
  | cons c cs =>
    rw [splitSign] at h ⊢
    by_cases hminus : c = '-'
    · rw [if_pos hminus] at h ⊢
      dsimp only at h ⊢
      rw [digitsValue_eq, neg_one_mul]
      refine ⟨c :: cs.takeWhile Char.isDigit, cs.dropWhile Char.isDigit, ?_,
        head?_dropWhile_stop _ cs, hminus ▸ Decimal.Signed.minus (hdigits cs h)⟩
      rw [List.cons_append, List.takeWhile_append_dropWhile]
    · rw [if_neg hminus] at h ⊢
      by_cases hplus : c = '+'
      · rw [if_pos hplus] at h ⊢
        dsimp only at h ⊢
        rw [digitsValue_eq, one_mul]
        refine ⟨c :: cs.takeWhile Char.isDigit, cs.dropWhile Char.isDigit, ?_,
          head?_dropWhile_stop _ cs, hplus ▸ Decimal.Signed.plus (hdigits cs h)⟩
        rw [List.cons_append, List.takeWhile_append_dropWhile]
      · rw [if_neg hplus] at h ⊢
        dsimp only at h ⊢
        rw [digitsValue_eq, one_mul]
        exact ⟨_, _, List.takeWhile_append_dropWhile.symm, head?_dropWhile_stop _ (c :: cs),
          Decimal.Signed.unsigned (hdigits (c :: cs) h)⟩

/-- `stoi` returns the number of the numeral at the start. -/
theorem stoi_eq_some_iff {s : String} {n : ℤ} :
    stoi s = some n ↔ StartsWithNumeral s.toList n := by
  constructor
  · intro h
    have hrange := stoi_int h
    unfold stoi at h
    dsimp only at h
    split_ifs at h with hne hn
    obtain ⟨numeral, rest, hsplit, hrest, hsigned⟩ := splitSign_numeral hne
    rw [Option.some.inj h] at hsigned
    refine ⟨s.toList.takeWhile isSpace, numeral, rest, ?_, fun c hc => List.mem_takeWhile_imp hc,
      ⟨hsigned, hrange⟩, hrest⟩
    rw [← hsplit, List.takeWhile_append_dropWhile]
  · rintro ⟨spaces, numeral, rest, hs, hspaces, ⟨hsigned, hrange⟩, hrest⟩
    have hstart : ∀ c ∈ (numeral ++ rest).head?, isSpace c = false := by
      obtain ⟨c, cs, rfl⟩ := List.exists_cons_of_ne_nil hsigned.ne_nil
      rintro _ ⟨⟩
      rcases hsigned.of_mem List.mem_cons_self with hc | rfl | rfl
      · exact isSpace_of_digit hc
      · decide
      · decide
    obtain ⟨hne, hvalue⟩ := splitSign_append hsigned hrest
    unfold stoi
    rw [hs, dropWhile_append_stop hspaces hstart]
    dsimp only
    rw [if_neg hne, hvalue, if_pos hrange]

/-! ## Fields -/

lemma push_append_ofList (s : String) (c : Char) (cs : List Char) :
    s.push c ++ String.ofList cs = s ++ String.ofList (c :: cs) := by
  apply String.toList_inj.mp
  simp

lemma coordLoop_field {field : List Char} (h : ',' ∉ field) (cs : List Char) {pos : ℕ}
    (hpos : pos ≤ 2) (x y z : String) :
    coordLoop (field ++ cs) pos x y z =
      coordLoop cs pos (if pos = 0 then x ++ String.ofList field else x)
        (if pos = 1 then y ++ String.ofList field else y)
        (if pos = 2 then z ++ String.ofList field else z) := by
  induction field generalizing x y z with
  | nil => simp
  | cons c field ih =>
    rw [List.mem_cons, not_or] at h
    rw [List.cons_append, coordLoop, if_neg (Ne.symm h.1)]
    by_cases h0 : pos = 0
    · rw [if_pos h0, ih h.2]
      simp only [h0, if_true, push_append_ofList]
      rfl
    · rw [if_neg h0]
      by_cases h1 : pos = 1
      · rw [if_pos h1, ih h.2]
        simp only [h1, if_true, push_append_ofList]
        rfl
      · have h2 : pos = 2 := by omega
        rw [if_neg h1, if_pos h2, ih h.2]
        simp only [h2, if_true, push_append_ofList]
        rfl

lemma coordLoop_fields {a b c : List Char} (ha : ',' ∉ a) (hb : ',' ∉ b) (hc : ',' ∉ c) :
    coordLoop (a ++ ',' :: (b ++ ',' :: c)) 0 "" "" "" =
      (true, 2, String.ofList a, String.ofList b, String.ofList c) := by
  have hend : coordLoop c 2 (String.ofList a) (String.ofList b) "" =
      (true, 2, String.ofList a, String.ofList b, String.ofList c) := by
    have hfield := coordLoop_field hc [] le_rfl (String.ofList a) (String.ofList b) ""
    rw [List.append_nil] at hfield
    rw [hfield]
    simp [coordLoop]
  rw [coordLoop_field ha _ (by norm_num), coordLoop, if_pos rfl, coordLoop_field hb _ (by norm_num),
    coordLoop, if_pos rfl]
  simpa using hend

lemma coordLoop_count {cs : List Char} {pos pos' : ℕ} {x y z : String}
    {strings : String × String × String} (h : coordLoop cs pos x y z = (true, pos', strings)) :
    pos' = pos + cs.count ',' := by
  induction cs generalizing pos x y z with
  | nil =>
    rw [coordLoop] at h
    rw [← (Prod.mk.inj (Prod.mk.inj h).2).1, List.count_nil, Nat.add_zero]
  | cons c cs ih =>
    rw [coordLoop] at h
    by_cases hcomma : c = ','
    · rw [if_pos hcomma] at h
      rw [ih h, hcomma, List.count_cons_self]
      omega
    · rw [if_neg hcomma] at h
      rw [List.count_cons_of_ne hcomma]
      split_ifs at h with h0 h1 h2
      · exact ih h
      · exact ih h
      · exact ih h
      · exact absurd (Prod.mk.inj h).1 (by simp)

lemma exists_fields {cs : List Char} (h : cs.count ',' = 2) :
    ∃ a b c, cs = a ++ ',' :: (b ++ ',' :: c) ∧ ',' ∉ a ∧ ',' ∉ b ∧ ',' ∉ c := by
  obtain ⟨a, rest, rfl, ha⟩ := List.eq_append_cons_of_mem (List.count_pos_iff.mp (h ▸ two_pos))
  rw [List.count_append, List.count_eq_zero.mpr ha, List.count_cons_self] at h
  obtain ⟨b, c, rfl, hb⟩ :=
    List.eq_append_cons_of_mem (List.count_pos_iff.mp (show 0 < rest.count ',' by omega))
  rw [List.count_append, List.count_eq_zero.mpr hb, List.count_cons_self] at h
  exact ⟨a, b, c, rfl, ha, hb, List.count_eq_zero.mp (by omega)⟩

/-! ## Words -/

lemma brackets {cs : List Char} (hfirst : cs.head? = some '(') (hlast : cs.getLast? = some ')') :
    cs = '(' :: (cs.tail.dropLast ++ [')']) := by
  cases cs with
  | nil => exact absurd hfirst (by simp)
  | cons c cs =>
    obtain rfl := Option.some.inj hfirst
    cases cs using List.reverseRecOn with
    | nil => exact absurd hlast (by simp)
    | append_singleton cs c =>
      rw [← List.cons_append, List.getLast?_concat] at hlast
      rw [Option.some.inj hlast, List.tail_cons, List.dropLast_concat]

lemma isTriple_iff {word : String} {a b c : List Char} :
    IsTriple word a b c ↔ word.toList = '(' :: ((a ++ ',' :: (b ++ ',' :: c)) ++ [')']) := by
  unfold IsTriple
  rw [List.append_assoc, List.cons_append, List.append_assoc, List.cons_append]

/-- A word is accepted exactly if it is `(a,b,c)` and each field starts with a numeral. -/
theorem coordinates_eq_some_iff {word : String} {x y z : ℤ} :
    coordinates word = some (x, y, z) ↔ ∃ a b c, IsTriple word a b c ∧
      (',' ∉ a ∧ ',' ∉ b ∧ ',' ∉ c) ∧
      StartsWithNumeral a x ∧ StartsWithNumeral b y ∧ StartsWithNumeral c z := by
  constructor
  · intro h
    unfold coordinates at h
    split_ifs at h with hbrackets
    push Not at hbrackets
    have hword := brackets hbrackets.1 hbrackets.2
    rcases hloop : coordLoop word.toList.tail.dropLast 0 "" "" "" with ⟨valid, pos, strings⟩
    rw [hloop] at h
    dsimp only at h
    split at h
    · next x' y' z' hx hy hz =>
      split_ifs at h with hok
      obtain ⟨rfl, rfl⟩ := hok
      have hcount := coordLoop_count hloop
      rw [Nat.zero_add] at hcount
      obtain ⟨a, b, c, hmid, ha, hb, hc⟩ := exists_fields hcount.symm
      rw [hmid, coordLoop_fields ha hb hc] at hloop
      rw [← (Prod.mk.inj (Prod.mk.inj hloop).2).2] at hx hy hz
      rw [stoi_eq_some_iff, String.toList_ofList] at hx hy hz
      obtain ⟨rfl, hrest⟩ := Prod.mk.inj (Option.some.inj h)
      obtain ⟨rfl, rfl⟩ := Prod.mk.inj hrest
      rw [hmid] at hword
      exact ⟨a, b, c, isTriple_iff.mpr hword, ⟨ha, hb, hc⟩, hx, hy, hz⟩
    · exact absurd h (by simp)
  · rintro ⟨a, b, c, hword, ⟨ha, hb, hc⟩, hx, hy, hz⟩
    rw [isTriple_iff] at hword
    have hbrackets : ¬(word.toList.head? ≠ some '(' ∨ word.toList.getLast? ≠ some ')') := by
      rw [hword, ← List.cons_append, List.getLast?_concat]
      simp
    have hstoi : ∀ {field : List Char} {n : ℤ}, StartsWithNumeral field n →
        stoi (String.ofList field) = some n := by
      intro field n hfield
      rw [stoi_eq_some_iff, String.toList_ofList]
      exact hfield
    unfold coordinates
    rw [if_neg hbrackets, hword, List.tail_cons, List.dropLast_concat, coordLoop_fields ha hb hc]
    dsimp only
    rw [hstoi hx, hstoi hy, hstoi hz]
    rfl

/-! ## Numerals -/

lemma Numeral.comma_notMem {cs : List Char} {n : ℤ} (h : Numeral cs n) : ',' ∉ cs := by
  intro hmem
  rcases h.1.of_mem hmem with hdigit | heq | heq
  · exact absurd hdigit (by decide)
  · exact absurd heq (by decide)
  · exact absurd heq (by decide)

lemma Numeral.startsWith {cs : List Char} {n : ℤ} (h : Numeral cs n) : StartsWithNumeral cs n :=
  ⟨[], cs, [], by simp, by simp, h, by simp⟩

lemma IsCoordinates.coordinates {word : String} {x y z : ℤ} (h : IsCoordinates word x y z) :
    coordinates word = some (x, y, z) := by
  obtain ⟨a, b, c, hword, ha, hb, hc⟩ := h
  exact coordinates_eq_some_iff.mpr ⟨a, b, c, hword,
    ⟨ha.comma_notMem, hb.comma_notMem, hc.comma_notMem⟩, ha.startsWith, hb.startsWith,
    hc.startsWith⟩

lemma field_inj {a a' cs cs' : List Char} (h : a ++ ',' :: cs = a' ++ ',' :: cs') (ha : ',' ∉ a)
    (ha' : ',' ∉ a') : a = a' ∧ cs = cs' := by
  have hfield : ∀ {field : List Char}, ',' ∉ field → ∀ rest,
      (field ++ ',' :: rest).takeWhile (· ≠ ',') = field := by
    intro field hfield rest
    refine takeWhile_append_stop ?_ (by simp)
    intro c hc
    rw [decide_eq_true_eq]
    rintro rfl
    exact hfield hc
  have htake := congrArg (List.takeWhile (· ≠ ',')) h
  rw [hfield ha, hfield ha'] at htake
  rw [htake] at h
  exact ⟨htake, (List.cons.inj (List.append_cancel_left h)).2⟩

lemma IsTriple.inj {word : String} {a b c a' b' c' : List Char} (h : IsTriple word a b c)
    (h' : IsTriple word a' b' c') (hab : ',' ∉ a ∧ ',' ∉ b) (hab' : ',' ∉ a' ∧ ',' ∉ b') :
    a = a' ∧ b = b' ∧ c = c' := by
  unfold IsTriple at h h'
  rw [h] at h'
  obtain ⟨ha, hrest⟩ := field_inj (List.cons.inj h').2 hab.1 hab'.1
  obtain ⟨hb, hrest⟩ := field_inj hrest hab.2 hab'.2
  exact ⟨ha, hb, List.append_cancel_right hrest⟩

/-- The words that are accepted are coordinates exactly off the loose ones. -/
theorem parse_coords_accepts (word : String) : AcceptsCoordinates word ↔ ¬IsLoose word := by
  constructor
  · rintro haccepts ⟨a, b, c, x, y, z, hword, ⟨ha, hb, hc⟩, hstarts, hloose⟩
    have hcoords := coordinates_eq_some_iff.mpr ⟨a, b, c, hword, ⟨ha, hb, hc⟩, hstarts⟩
    have hresult : (parseCoords word).result = .ok (some ⟨x, y, z, true⟩) := by
      rw [parseCoords_some hcoords]
    obtain ⟨a', b', c', hword', ha', hb', hc'⟩ := haccepts.accepts _ hresult
    obtain ⟨rfl, rfl, rfl⟩ := hword.inj hword' ⟨ha, hb⟩ ⟨ha'.comma_notMem, hb'.comma_notMem⟩
    exact hloose ⟨ha', hb', hc'⟩
  · intro hloose
    have hcoordinates : ∀ {x y z : ℤ}, coordinates word = some (x, y, z) →
        IsCoordinates word x y z := by
      intro x y z hcoords
      obtain ⟨a, b, c, hword, hcommas, hstarts⟩ := coordinates_eq_some_iff.mp hcoords
      by_contra hnot
      exact hloose ⟨a, b, c, x, y, z, hword, hcommas, hstarts,
        fun hnumerals => hnot ⟨a, b, c, hword, hnumerals⟩⟩
    cases hcoords : coordinates word with
    | none =>
      have hnone := parseCoords_none hcoords
      refine ⟨?_, fun _ => by rw [hnone]⟩
      intro xyz hxyz
      rw [hnone] at hxyz
      exact absurd (Except.ok.inj hxyz) (by simp)
    | some p =>
      obtain ⟨x, y, z⟩ := p
      have hsome := parseCoords_some hcoords
      refine ⟨?_, fun hno => absurd (hcoordinates hcoords) (hno x y z)⟩
      intro xyz hxyz
      rw [hsome] at hxyz
      rw [← Option.some.inj (Except.ok.inj hxyz)]
      exact hcoordinates hcoords

lemma IsCoordinates.of_mem {word : String} {x y z : ℤ} (h : IsCoordinates word x y z) {ch : Char}
    (hch : ch ∈ word.toList) : ch.isDigit = true ∨ ch ∈ ['+', '-', ',', '(', ')'] := by
  obtain ⟨a, b, c, hword, ha, hb, hc⟩ := h
  have hnumeral : ∀ {cs : List Char} {n : ℤ}, Numeral cs n → ch ∈ cs →
      ch.isDigit = true ∨ ch ∈ ['+', '-', ',', '(', ')'] := by
    intro cs n hcs hmem
    rcases hcs.1.of_mem hmem with hdigit | rfl | rfl
    · exact Or.inl hdigit
    · exact Or.inr (by decide)
    · exact Or.inr (by decide)
  rw [isTriple_iff] at hword
  rw [hword] at hch
  simp only [List.mem_cons, List.mem_append, List.not_mem_nil, or_false] at hch
  rcases hch with rfl | (hmem | rfl | hmem | rfl | hmem) | rfl
  · exact Or.inr (by decide)
  · exact hnumeral ha hmem
  · exact Or.inr (by decide)
  · exact hnumeral hb hmem
  · exact Or.inr (by decide)
  · exact hnumeral hc hmem
  · exact Or.inr (by decide)

/-- A numeral with a letter behind it. -/
theorem parse_coords_accepts_letter : ¬AcceptsCoordinates "(1x,2,3)" := by
  intro haccepts
  have hcoords : coordinates "(1x,2,3)" = some (1, 2, 3) := by decide
  have hresult : (parseCoords "(1x,2,3)").result = .ok (some ⟨1, 2, 3, true⟩) := by
    rw [parseCoords_some hcoords]
  have hmem := (haccepts.accepts _ hresult).of_mem (show 'x' ∈ "(1x,2,3)".toList by decide)
  exact absurd hmem (by decide)

/-- What `what` prints for a block that it found starts with the coordinates. -/
theorem print_block_coordinates (env : Environment) {world : LoaderState} {x y z : ℤ}
    {dim : ChunkDimension} {b : Block} (hb : world.getBlock x y z dim = .ok b)
    (hstate : 0 ≤ b.state) : .print ("Block at " ++ coordinateText x y z ++ " is ") ∈
      (printBlock env world ⟨x, y, z, true⟩ dim).events := by
  have htext : "Block at (" ++ toString x ++ "," ++ toString y ++ "," ++ toString z ++ ") is " =
      "Block at " ++ coordinateText x y z ++ " is " := by
    apply String.toList_inj.mp
    simp [coordinateText]
  unfold printBlock
  rw [CoordArray.read_live, Traced.ok_bind]
  dsimp only
  rw [emit, Traced.emits_bind, hb, orStop, Traced.lift_ok_bind, if_neg (by omega), Traced.ok_bind]
  dsimp only
  rw [htext, emit, Traced.emits_bind]
  simp

/-- Numerals in the format of coordinates are read as their numbers, and so is what `what`
prints. -/
theorem parse_coords_numerals :
    (∀ (a b c : String) (x y z : ℤ), Numeral a.toList x → Numeral b.toList y → Numeral c.toList z →
      parseCoords ("(" ++ a ++ "," ++ b ++ "," ++ c ++ ")") =
        ⟨[.newArray], .ok (some ⟨x, y, z, true⟩)⟩) ∧
    ∀ x y z : ℤ, (-2147483648 ≤ x ∧ x ≤ 2147483647) → (-2147483648 ≤ y ∧ y ≤ 2147483647) →
      (-2147483648 ≤ z ∧ z ≤ 2147483647) → parseCoords (coordinateText x y z) =
        ⟨[.newArray], .ok (some ⟨x, y, z, true⟩)⟩ := by
  have hread : ∀ (a b c : String) (x y z : ℤ), Numeral a.toList x → Numeral b.toList y →
      Numeral c.toList z → parseCoords ("(" ++ a ++ "," ++ b ++ "," ++ c ++ ")") =
        ⟨[.newArray], .ok (some ⟨x, y, z, true⟩)⟩ := by
    intro a b c x y z ha hb hc
    have hword : IsTriple ("(" ++ a ++ "," ++ b ++ "," ++ c ++ ")") a.toList b.toList c.toList := by
      unfold IsTriple
      simp
    exact parseCoords_some (IsCoordinates.coordinates ⟨_, _, _, hword, ha, hb, hc⟩)
  refine ⟨hread, ?_⟩
  intro x y z hx hy hz
  exact hread _ _ _ x y z ⟨Decimal.signed_toString x, hx⟩ ⟨Decimal.signed_toString y, hy⟩
    ⟨Decimal.signed_toString z, hz⟩

/-- Signs and leading zeros. -/
theorem parse_coords_numerals_signs :
    parseCoords ("(" ++ "+007" ++ "," ++ "-12" ++ "," ++ "0" ++ ")") =
        ⟨[.newArray], .ok (some ⟨7, -12, 0, true⟩)⟩ ∧
      parseCoords (coordinateText (-1) 64 2147483647) =
        ⟨[.newArray], .ok (some ⟨-1, 64, 2147483647, true⟩)⟩ := by
  have hplus : Decimal.Signed ['+', '0', '0', '7'] 7 :=
    Decimal.Signed.plus ⟨by simp, by simp⟩
  have hminus : Decimal.Signed ['-', '1', '2'] (-12) :=
    Decimal.Signed.minus ⟨by simp, by simp⟩
  have hzero : Decimal.Signed ['0'] 0 := Decimal.Signed.unsigned ⟨by simp, by simp⟩
  exact ⟨parse_coords_numerals.1 "+007" "-12" "0" 7 (-12) 0 ⟨hplus, by decide, by decide⟩
      ⟨hminus, by decide, by decide⟩ ⟨hzero, by decide, by decide⟩,
    parse_coords_numerals.2 (-1) 64 2147483647 (by decide) (by decide) (by decide)⟩

end ChunkViewer
