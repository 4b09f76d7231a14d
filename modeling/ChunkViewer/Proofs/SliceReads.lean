import ChunkViewer.Library.LittleEndian
import ChunkViewer.Model.Slice

/-!
# Reading numbers from slices

What `parseInt32` and `parseShort` return when the bytes they read are there, and that
they only return when the bytes are there. `parseShort` narrows its offset to 16 bits, so
past 32767 it stops or reads elsewhere.
-/

namespace ChunkViewer

open ExceptRun

/-! ## Conversions -/

lemma toUInt32_natCast {n : ℕ} (h : n < 4294967296) : toUInt32 n = n := by
  unfold toUInt32
  omega

lemma toUInt32_add {o : ℕ} (h : o < 4294967280) :
    toUInt32 ((o : ℤ) + 1) = o + 1 ∧ toUInt32 ((o : ℤ) + 2) = o + 2 ∧
      toUInt32 ((o : ℤ) + 4) = o + 4 ∧ toUInt32 ((o : ℤ) + 5) = o + 5 := by
  unfold toUInt32
  omega

lemma toInt_ofNat_of_lt {w n : ℕ} (h : 2 * n < 2 ^ w) : (BitVec.ofNat w n).toInt = n := by
  have hmod : n % 2 ^ w = n := Nat.mod_eq_of_lt (by omega)
  rw [BitVec.toInt_eq_toNat_of_lt, BitVec.toNat_ofNat, hmod]
  rw [BitVec.toNat_ofNat, hmod]
  exact h

lemma toInt32_of_lt {n : ℕ} (h : n < 2147483648) : toInt32 n = n :=
  toInt_ofNat_of_lt (by omega)

lemma toInt16_of_lt {n : ℕ} (h : n % 65536 < 32768) : toInt16 n = (n % 65536 : ℕ) := by
  unfold toInt16
  rw [BitVec.toInt_eq_toNat_of_lt, BitVec.toNat_ofNat]
  rw [BitVec.toNat_ofNat]
  omega

lemma toInt16_neg {n : ℕ} (h : 32768 ≤ n % 65536) : toInt16 n = (n % 65536 : ℕ) - 65536 := by
  unfold toInt16
  rw [BitVec.toInt_eq_toNat_cond, BitVec.toNat_ofNat]
  norm_num
  omega

lemma toInt16_lt_zero_iff {n : ℕ} : toInt16 n < 0 ↔ 32768 ≤ n % 65536 := by
  by_cases h : n % 65536 < 32768
  · rw [toInt16_of_lt h]
    omega
  · rw [toInt16_neg (by omega)]
    omega

lemma asInt_ok {what : Undefined} {n : ℤ} (h0 : -2147483648 ≤ n) (h1 : n ≤ 2147483647) :
    asInt what n = .ok n := if_pos ⟨h0, h1⟩

lemma asInt_eq_ok {what : Undefined} {n m : ℤ} :
    asInt what n = .ok m ↔ m = n ∧ -2147483648 ≤ n ∧ n ≤ 2147483647 := by
  unfold asInt
  by_cases h : -2147483648 ≤ n ∧ n ≤ 2147483647
  · simp [h, eq_comm]
  · simp [h]

/-! ## One byte -/

lemma charAt_eq_ok {s : Slice} {n : ℤ} {b : UInt8} :
    s.charAt n = .ok b ↔ 0 ≤ n ∧ s[n.toNat]? = some b := by
  unfold Slice.charAt
  by_cases h : 0 ≤ n
  · cases hs : s[n.toNat]? with
    | none => simp [h]
    | some c => simp [h]
  · simp [h]

lemma charAt_natCast {s : Slice} {n : ℕ} {b : UInt8} (h : s[n]? = some b) :
    s.charAt n = .ok b := charAt_eq_ok.mpr ⟨by omega, by simpa using h⟩

lemma charAt_assertion {s : Slice} {n : ℤ} (h : n < 0 ∨ s.length ≤ n.toNat) :
    s.charAt n = .error .assertion := by
  unfold Slice.charAt
  by_cases h0 : 0 ≤ n
  · rw [if_pos h0, List.getElem?_eq_none (by omega)]
  · rw [if_neg h0]

lemma charAt_error {s : Slice} {n : ℤ} {e : Stop} (h : s.charAt n = .error e) :
    e = .assertion ∧ (n < 0 ∨ s.length ≤ n.toNat) := by
  by_cases hn : n < 0 ∨ s.length ≤ n.toNat
  · rw [charAt_assertion hn] at h
    exact ⟨(Except.error.inj h).symm, hn⟩
  · push Not at hn
    rw [charAt_eq_ok.mpr ⟨hn.1, List.getElem?_eq_getElem hn.2⟩] at h
    exact absurd h (by simp)

/-! ## Several bytes -/

/-- The loop on bytes that are there. The bytes read so far stand below `256 ^ i`. -/
lemma parseLittleEndian_run {w : ℕ} (hw : w ≤ 32) (s : Slice) (offset : ℕ) (bs : List UInt8)
    (i : ℕ) (r : BitVec w) (hr : r.toNat < 256 ^ i) (hbits : (i + bs.length) * 8 ≤ w)
    (hs : bs <+: s.drop (offset + i)) (hmax : offset + i + bs.length ≤ 2147483648) :
    ∃ r', parseLittleEndian w s offset bs.length i r = .ok r' ∧
      r'.toNat = r.toNat + 256 ^ i * LittleEndian.toNat bs := by
  induction bs generalizing i r with
  | nil => exact ⟨r, rfl, by simp [LittleEndian.toNat]⟩
  | cons b bs ih =>
    simp only [List.length_cons] at hbits hmax ⊢
    obtain ⟨rest, hrest⟩ := hs
    have hbyte : s[offset + i]? = some b := by
      have := congrArg (fun l => l[0]?) hrest
      simpa [List.getElem?_drop] using this.symm
    have htail : bs <+: s.drop (offset + (i + 1)) := by
      refine ⟨rest, ?_⟩
      have := congrArg (List.drop 1) hrest
      simpa [List.drop_drop, Nat.add_assoc] using this
    have hor := LittleEndian.toNat_or_shiftLeft r b hr (by omega) hw
    have hb := b.toNat_lt
    obtain ⟨r', hrun, hval⟩ := ih (i + 1)
      (r ||| (b.toBitVec.setWidth 32 <<< (i * 8)).signExtend w)
      (by rw [hor, pow_succ]; nlinarith) (by omega) htail (by omega)
    refine ⟨r', ?_, ?_⟩
    · have hidx : asInt .sliceOffset ((offset : ℤ) + i) = .ok ((offset + i : ℕ) : ℤ) := by
        rw [asInt_ok (by omega) (by omega)]
        rfl
      rw [parseLittleEndian, hidx, ok_bind, charAt_natCast hbyte, ok_bind, if_neg (by omega)]
      exact hrun
    · rw [hval, hor, LittleEndian.toNat, pow_succ]
      ring

lemma parseLittleEndian_bytes {w : ℕ} {s : Slice} {offset : ℤ} {count i : ℕ} {r r' : BitVec w}
    (h : parseLittleEndian w s offset count i r = .ok r') (hc : 0 < count) :
    0 ≤ offset + i ∧ offset + i + count ≤ 2147483648 ∧
      (offset + i).toNat + count ≤ s.length := by
  induction count generalizing i r with
  | zero => omega
  | succ count ih =>
    rw [parseLittleEndian] at h
    obtain ⟨index, hindex, hread⟩ := bind_eq_ok.mp h
    obtain ⟨byte, hbyte, hrest⟩ := bind_eq_ok.mp hread
    obtain ⟨rfl, _, hmax⟩ := asInt_eq_ok.mp hindex
    obtain ⟨h0, hget⟩ := charAt_eq_ok.mp hbyte
    have hlt : (offset + i).toNat < s.length := (List.getElem?_eq_some_iff.mp hget).1
    by_cases hz : count = 0
    · subst hz
      omega
    · by_cases hsh : 32 ≤ i * 8
      · rw [if_pos hsh] at hrest
        exact absurd hrest (by simp)
      · rw [if_neg hsh] at hrest
        have := ih hrest (by omega)
        push_cast at this
        omega

lemma parseLittleEndian_assertion {w : ℕ} (s : Slice) (offset : ℤ) (count i : ℕ) (r : BitVec w)
    (hc : 0 < count) (hi : (i + count) * 8 ≤ 32) (hmin : -2147483648 ≤ offset)
    (hmax : offset + i + count ≤ 2147483648)
    (h : offset + i < 0 ∨ s.length < (offset + i).toNat + count) :
    parseLittleEndian w s offset count i r = .error .assertion := by
  induction count generalizing i r with
  | zero => omega
  | succ count ih =>
    rw [parseLittleEndian, asInt_ok (by omega) (by omega), ok_bind]
    by_cases hread : offset + i < 0 ∨ s.length ≤ (offset + i).toNat
    · rw [charAt_assertion hread, error_bind]
    · have hlt : (offset + i).toNat < s.length := by omega
      have hget : s[(offset + i).toNat]? = some s[(offset + i).toNat] := List.getElem?_eq_getElem hlt
      rw [charAt_eq_ok.mpr ⟨by omega, hget⟩, ok_bind, if_neg (by omega)]
      exact ih (i + 1) _ (by omega) (by omega) (by omega) (by omega)

/-- The `count` bytes of a slice from an offset. -/
def Slice.window (s : Slice) (offset count : ℕ) : List UInt8 := (s.drop offset).take count

lemma length_window {s : Slice} {offset count : ℕ} (h : offset + count ≤ s.length) :
    (s.window offset count).length = count := by
  simp only [Slice.window, List.length_take, List.length_drop]
  omega

lemma window_append {p e t : Slice} {offset count : ℕ} (h : offset + count ≤ e.length) :
    Slice.window (p ++ e ++ t) (p.length + offset) count = e.window offset count := by
  unfold Slice.window
  rw [List.append_assoc, List.drop_append, List.drop_eq_nil_of_le (by omega), List.nil_append,
    Nat.add_sub_cancel_left, List.drop_append_of_le_length (by omega),
    List.take_append_of_le_length (by simp only [List.length_drop]; omega)]

lemma parseInt32_eq {s : Slice} {offset : ℕ} (h : offset + 4 ≤ s.length)
    (hmax : offset + 4 ≤ 2147483648) :
    parseInt32 s offset = .ok (BitVec.ofNat 32 (LittleEndian.toNat (s.window offset 4))) := by
  have hlen := length_window h
  obtain ⟨r, hrun, hval⟩ := parseLittleEndian_run (w := 32) le_rfl s offset (s.window offset 4) 0 0
    (by simp) (by omega) (List.take_prefix _ _) (by omega)
  rw [hlen] at hrun
  unfold parseInt32
  rw [toInt32_of_lt (by omega), hrun]
  congr 1
  apply BitVec.eq_of_toNat_eq
  have hlt := LittleEndian.toNat_lt (s.window offset 4)
  rw [hlen] at hlt
  rw [hval, BitVec.toNat_ofNat,
    Nat.mod_eq_of_lt (show LittleEndian.toNat (s.window offset 4) < 2 ^ 32 from hlt)]
  simp

/-- The number that four bytes stand for. -/
def wordOf (bs : List UInt8) : BitVec 32 := BitVec.ofNat 32 (LittleEndian.toNat bs)

lemma wordOf_inj {bs cs : List UInt8} (hb : bs.length = 4) (hc : cs.length = 4) :
    wordOf bs = wordOf cs ↔ bs = cs :=
  ⟨LittleEndian.ofNat_inj (hb.trans hc.symm) (by omega), fun h => h ▸ rfl⟩

lemma parseInt32_append {p bs t : Slice} (hbs : bs.length = 4) (hp : p.length + 4 ≤ 2147483648) :
    parseInt32 (p ++ bs ++ t) p.length = .ok (wordOf bs) := by
  have hwindow : Slice.window (p ++ bs ++ t) p.length 4 = bs := by
    unfold Slice.window
    rw [List.append_assoc, List.drop_left, ← hbs, List.take_left]
  rw [parseInt32_eq (by simp only [List.length_append]; omega) hp, hwindow, wordOf]

lemma parseShort_eq {s : Slice} {offset : ℕ} (hmod : offset % 65536 < 32768)
    (h : offset % 65536 + 2 ≤ s.length) :
    parseShort s offset =
      .ok (BitVec.ofNat 16 (LittleEndian.toNat (s.window (offset % 65536) 2))) := by
  have hlen := length_window h
  obtain ⟨r, hrun, hval⟩ := parseLittleEndian_run (w := 16) (by norm_num) s (offset % 65536)
    (s.window (offset % 65536) 2) 0 0 (by simp) (by omega) (List.take_prefix _ _) (by omega)
  rw [hlen] at hrun
  unfold parseShort
  rw [toInt16_of_lt hmod, hrun]
  congr 1
  apply BitVec.eq_of_toNat_eq
  have hlt := LittleEndian.toNat_lt (s.window (offset % 65536) 2)
  rw [hlen] at hlt
  rw [hval, BitVec.toNat_ofNat,
    Nat.mod_eq_of_lt (show LittleEndian.toNat (s.window (offset % 65536) 2) < 2 ^ 16 from hlt)]
  simp

lemma parseShort_eq_of_lt {s : Slice} {offset : ℕ} (hlt : offset < 32768)
    (h : offset + 2 ≤ s.length) :
    parseShort s offset = .ok (BitVec.ofNat 16 (LittleEndian.toNat (s.window offset 2))) := by
  have hmod : offset % 65536 = offset := Nat.mod_eq_of_lt (by omega)
  have := @parseShort_eq s offset (by omega) (by omega)
  rwa [hmod] at this

lemma parseShort_assertion {s : Slice} {offset : ℕ} (h : 32768 ≤ offset % 65536) :
    parseShort s offset = .error .assertion := by
  unfold parseShort
  have hneg := toInt16_neg h
  exact parseLittleEndian_assertion s _ 2 0 0 (by norm_num) (by norm_num) (by omega) (by omega)
    (Or.inl (by omega))

lemma parseInt32_bytes {s : Slice} {offset : ℕ} {n : BitVec 32} (h : parseInt32 s offset = .ok n)
    (hlt : offset < 2147483648) : offset + 4 ≤ s.length := by
  unfold parseInt32 at h
  have := parseLittleEndian_bytes h (by norm_num)
  rw [toInt32_of_lt hlt] at this
  omega

lemma parseShort_bytes {s : Slice} {offset : ℕ} {n : BitVec 16} (h : parseShort s offset = .ok n) :
    offset % 65536 < 32768 ∧ offset % 65536 + 2 ≤ s.length := by
  unfold parseShort at h
  have hbytes := parseLittleEndian_bytes h (by norm_num)
  have hmod : offset % 65536 < 32768 := by
    by_contra hmod
    have := toInt16_lt_zero_iff.mpr (show 32768 ≤ offset % 65536 by omega)
    omega
  rw [toInt16_of_lt hmod] at hbytes
  exact ⟨hmod, by omega⟩

end ChunkViewer
