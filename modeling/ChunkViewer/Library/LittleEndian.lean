import Mathlib

/-!
# Little-endian numbers

A list of bytes as a number, least significant byte first, its inverse at a fixed width,
and the step of a decoder that or-s shifted bytes into a bit vector.
-/

namespace LittleEndian

def toNat : List UInt8 → ℕ
  | [] => 0
  | b :: bs => b.toNat + 256 * toNat bs

def bytes : ℕ → ℕ → List UInt8
  | 0, _ => []
  | n + 1, v => UInt8.ofNat v :: bytes n (v / 256)

@[simp] lemma length_bytes (n v : ℕ) : (bytes n v).length = n := by
  induction n generalizing v with
  | zero => rfl
  | succ n ih => simp [bytes, ih]

lemma toNat_bytes (n v : ℕ) : toNat (bytes n v) = v % 256 ^ n := by
  induction n generalizing v with
  | zero => simp [bytes, toNat, Nat.mod_one]
  | succ n ih =>
    have hb : (UInt8.ofNat v).toNat = v % 256 := by simp
    rw [bytes, toNat, ih, hb, pow_succ', Nat.mod_mul]

lemma bytes_toNat (bs : List UInt8) : bytes bs.length (toNat bs) = bs := by
  induction bs with
  | nil => rfl
  | cons b bs ih =>
    have hb := b.toNat_lt
    have hhead : UInt8.ofNat (b.toNat + 256 * toNat bs) = b := by
      apply UInt8.toNat_inj.mp
      rw [UInt8.toNat_ofNat']
      omega
    rw [List.length_cons, bytes, toNat, hhead,
      show (b.toNat + 256 * toNat bs) / 256 = toNat bs by omega, ih]

lemma toNat_lt (bs : List UInt8) : toNat bs < 256 ^ bs.length := by
  induction bs with
  | nil => simp [toNat]
  | cons b bs ih =>
    have hb := b.toNat_lt
    rw [toNat, List.length_cons, pow_succ]
    omega

lemma toNat_inj {bs cs : List UInt8} (hlen : bs.length = cs.length) (h : toNat bs = toNat cs) :
    bs = cs := by
  induction bs generalizing cs with
  | nil => exact (List.length_eq_zero_iff.mp hlen.symm).symm
  | cons b bs ih =>
    cases cs with
    | nil => simp at hlen
    | cons c cs =>
      have hb := b.toNat_lt
      have hc := c.toNat_lt
      simp only [toNat] at h
      have hhead : b.toNat = c.toNat := by omega
      have htail : toNat bs = toNat cs := by omega
      rw [UInt8.toNat_inj.mp hhead, ih (by simpa using hlen) htail]

lemma ofNat_inj {w : ℕ} {bs cs : List UInt8} (hlen : bs.length = cs.length)
    (hw : bs.length * 8 ≤ w) (h : BitVec.ofNat w (toNat bs) = BitVec.ofNat w (toNat cs)) :
    bs = cs := by
  have hpow : (256 : ℕ) ^ bs.length ≤ 2 ^ w := by
    rw [show (256 : ℕ) = 2 ^ 8 from rfl, ← pow_mul]
    exact Nat.pow_le_pow_right (by norm_num) (by omega)
  have hb := toNat_lt bs
  have hc := toNat_lt cs
  rw [← hlen] at hc
  have hn := congrArg BitVec.toNat h
  simp only [BitVec.toNat_ofNat] at hn
  rw [Nat.mod_eq_of_lt (by omega), Nat.mod_eq_of_lt (by omega)] at hn
  exact toNat_inj hlen hn

/-- Or-ing in the next byte, shifted past the bytes that are there. -/
lemma toNat_or_shiftLeft {w i : ℕ} (r : BitVec w) (b : UInt8) (hr : r.toNat < 256 ^ i)
    (hi : (i + 1) * 8 ≤ w) (hw : w ≤ 32) :
    (r ||| (b.toBitVec.setWidth 32 <<< (i * 8)).signExtend w).toNat =
      r.toNat + 256 ^ i * b.toNat := by
  have hb : b.toNat < 2 ^ 8 := b.toNat_lt
  have hpow : (256 : ℕ) ^ i = 2 ^ (i * 8) := by
    rw [show (256 : ℕ) = 2 ^ 8 from rfl, ← pow_mul, Nat.mul_comm]
  have hlt : b.toNat * 2 ^ (i * 8) < 2 ^ ((i + 1) * 8) := by
    rw [show (i + 1) * 8 = 8 + i * 8 by omega, pow_add]
    exact Nat.mul_lt_mul_of_pos_right hb (by positivity)
  have hltw : b.toNat * 2 ^ (i * 8) < 2 ^ w :=
    hlt.trans_le (Nat.pow_le_pow_right (by norm_num) hi)
  have hlt32 : b.toNat * 2 ^ (i * 8) < 2 ^ 32 :=
    hltw.trans_le (Nat.pow_le_pow_right (by norm_num) hw)
  have hshift : ((b.toBitVec.setWidth 32 <<< (i * 8)).signExtend w).toNat =
      b.toNat <<< (i * 8) := by
    rw [BitVec.signExtend_eq_setWidth_of_le _ hw, BitVec.toNat_setWidth, BitVec.toNat_shiftLeft,
      BitVec.toNat_setWidth, UInt8.toNat_toBitVec, Nat.shiftLeft_eq,
      Nat.mod_eq_of_lt (hb.trans (by norm_num)), Nat.shiftLeft_eq, Nat.mod_eq_of_lt hlt32,
      Nat.mod_eq_of_lt hltw]
  rw [BitVec.toNat_or, hshift, Nat.or_comm, ← Nat.shiftLeft_add_eq_or_of_lt (hpow ▸ hr),
    Nat.shiftLeft_eq, hpow]
  ring

end LittleEndian
