import ChunkViewer.Proofs.NBTReads

/-!
# 64-bit numbers

A byte is promoted to a 32-bit `int` before it is shifted, so `parseLong` accumulates the sign
extension of what a 32-bit read accumulates, and its fifth byte is shifted out of the `int`.
-/

namespace ChunkViewer

open ExceptRun

/-- The read returns the little-endian number of the eight bytes. -/
def ReadsLong (s : Slice) (offset : ℕ) : Prop :=
  parseLong s offset = .ok (BitVec.ofNat 64 (LittleEndian.toNat (s.window offset 8)))

lemma parseLittleEndian_signExtend (w : ℕ) (s : Slice) (offset : ℤ) (count i : ℕ) (r : BitVec 32) :
    parseLittleEndian w s offset count i (r.signExtend w) =
      (parseLittleEndian 32 s offset count i r >>= fun v => .ok (v.signExtend w)) := by
  induction count generalizing i r with
  | zero => rfl
  | succ count ih =>
    rw [parseLittleEndian, parseLittleEndian]
    cases hindex : asInt .sliceOffset (offset + i) with
    | error e => rfl
    | ok index =>
      rw [ok_bind, ok_bind]
      cases hbyte : s.charAt index with
      | error e => rfl
      | ok byte =>
        rw [ok_bind, ok_bind]
        by_cases hshift : 32 ≤ i * 8
        · rw [if_pos hshift, if_pos hshift, error_bind]
        · rw [if_neg hshift, if_neg hshift, ← BitVec.signExtend_or, ih, BitVec.signExtend_eq]

/-- The rounds before the fifth byte give the 32-bit number, extended with its sign. -/
theorem parse_long_first_four {s : Slice} {offset : ℕ} (hlen : offset + 4 ≤ s.length)
    (hmax : offset + 4 ≤ 2147483648) :
    parseLittleEndian 64 s offset 4 0 0 = .ok ((wordOf (s.window offset 4)).signExtend 64) := by
  have hwide := parseLittleEndian_signExtend 64 s offset 4 0 0
  have hread := parseInt32_eq hlen hmax
  unfold parseInt32 at hread
  rw [toInt32_of_lt (by omega)] at hread
  rw [hread, ok_bind] at hwide
  exact hwide

/-- No eight bytes are read as their number: the loop gets to a shift by the width of the
`int`. -/
theorem parse_long_never {s : Slice} {offset : ℕ} (hlen : offset + 8 ≤ s.length)
    (hmax : offset + 8 ≤ 32768) :
    ¬ReadsLong s offset ∧ parseLong s offset = .error (.undefined .byteShift) := by
  have hshift : parseLong s offset = .error (.undefined .byteShift) := by
    unfold parseLong
    rw [toInt16_of_lt (by omega), parseLittleEndian_wide s _ 8 0 0 (by omega) (by omega) (by omega),
      if_pos (by omega)]
  refine ⟨?_, hshift⟩
  unfold ReadsLong
  rw [hshift]
  simp

/-- A number behind two other bytes. -/
theorem parse_long_never_at_two : ¬ReadsLong [10, 0, 1, 2, 3, 4, 5, 6, 7, 8] 2 ∧
    parseLong [10, 0, 1, 2, 3, 4, 5, 6, 7, 8] 2 = .error (.undefined .byteShift) :=
  parse_long_never (by decide) (by decide)

/-- The number one, in a slice of its own. -/
theorem parse_long_of_one : ¬ReadsLong [1, 0, 0, 0, 0, 0, 0, 0] 0 := by
  have hshift : parseLong [1, 0, 0, 0, 0, 0, 0, 0] 0 = .error (.undefined .byteShift) := rfl
  unfold ReadsLong
  rw [hshift]
  simp

end ChunkViewer
