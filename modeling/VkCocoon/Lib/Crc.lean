import Mathlib.Data.BitVec
import Mathlib.Data.List.Basic

/-!
# Reflected cyclic redundancy checks

A check of `w` bits, least significant bit first. A shift is linear in exclusive or,
and it loses nothing when the polynomial has its top bit: then two registers that
differ still differ after the same bytes, and a stretch of at most `w` bits can be
read back from what it does to the register.
-/

namespace Lib.Crc
variable {w : ℕ} (poly : BitVec w)

/-- One bit out of the register; the polynomial is taken in when that bit is set. -/
def shift (r : BitVec w) : BitVec w :=
  if r.getLsbD 0 then (r >>> 1) ^^^ poly else r >>> 1

def shifts : ℕ → BitVec w → BitVec w
  | 0, r => r
  | n + 1, r => shifts n (shift poly r)

/-- The register takes in the eight bits of a byte. -/
def byte (r : BitVec w) (b : UInt8) : BitVec w := shifts poly 8 (r ^^^ b.toBitVec.setWidth w)

def update (r : BitVec w) (bs : List UInt8) : BitVec w := bs.foldl (byte poly) r

def sum (bs : List UInt8) : BitVec w := ~~~update poly (BitVec.allOnes w) bs

variable {poly} {r r' : BitVec w} {bs x y pre post : List UInt8}

theorem update_append (r : BitVec w) (bs bs' : List UInt8) :
    update poly r (bs ++ bs') = update poly (update poly r bs) bs' := List.foldl_append

theorem shifts_add (m n : ℕ) (r : BitVec w) :
    shifts poly (m + n) r = shifts poly n (shifts poly m r) := by
  induction m generalizing r with
  | zero => rw [Nat.zero_add, shifts]
  | succ m ih => rw [Nat.succ_add, shifts, shifts, ih]

/-! ### Linearity -/

theorem shift_xor (r r' : BitVec w) : shift poly (r ^^^ r') = shift poly r ^^^ shift poly r' := by
  apply BitVec.eq_of_getLsbD_eq
  intro i _
  unfold shift
  rw [BitVec.getLsbD_xor]
  cases r.getLsbD 0 <;> cases r'.getLsbD 0 <;>
    simp only [Bool.false_xor, Bool.true_xor, Bool.not_false, Bool.not_true, Bool.false_eq_true, if_true,
      if_false, BitVec.getLsbD_xor, BitVec.getLsbD_ushiftRight] <;>
    cases r.getLsbD (1 + i) <;> cases r'.getLsbD (1 + i) <;> cases poly.getLsbD i <;> rfl

theorem shifts_xor (n : ℕ) (r r' : BitVec w) :
    shifts poly n (r ^^^ r') = shifts poly n r ^^^ shifts poly n r' := by
  induction n generalizing r r' with
  | zero => rfl
  | succ n ih => rw [shifts, shifts, shifts, shift_xor, ih]

/- A register whose low bits are clear only moves down. -/
theorem shifts_of_clear (n : ℕ) (h : ∀ i < n, r.getLsbD i = false) : shifts poly n r = r >>> n := by
  induction n generalizing r with
  | zero => rw [shifts, BitVec.ushiftRight_zero]
  | succ n ih =>
    have hlow : shift poly r = r >>> 1 := by
      rw [shift, h 0 (by omega)]
      rfl
    have hrest : ∀ i < n, (r >>> 1).getLsbD i = false := by
      intro i hi
      rw [BitVec.getLsbD_ushiftRight]
      exact h (1 + i) (by omega)
    rw [shifts, hlow, ih hrest, ← BitVec.shiftRight_add, Nat.add_comm]

/-! ### A register can be read back -/

section Top
variable (htop : poly.msb = true)
include htop

/- The bit that left is the top bit of what comes out. -/
theorem shift_msb (r : BitVec w) : (shift poly r).msb = r.getLsbD 0 := by
  have hw : 0 < w := by
    rcases Nat.eq_zero_or_pos w with rfl | hpos
    · rw [BitVec.eq_nil poly] at htop
      cases htop
    · exact hpos
  have hshift : (r >>> 1).msb = false := by
    rw [BitVec.msb_eq_getLsbD_last, BitVec.getLsbD_ushiftRight]
    exact BitVec.getLsbD_of_ge r _ (by omega)
  unfold shift
  cases hlow : r.getLsbD 0 with
  | true => rw [if_pos rfl, BitVec.msb_xor, hshift, htop, Bool.false_xor]
  | false => rw [if_neg (by decide), hshift]

theorem shift_injective : Function.Injective (shift poly) := by
  intro r r' h
  have hlow : r.getLsbD 0 = r'.getLsbD 0 := by
    rw [← shift_msb htop r, ← shift_msb htop r', h]
  have hhigh : r >>> 1 = r' >>> 1 := by
    unfold shift at h
    rw [hlow] at h
    split at h
    · exact (BitVec.xor_left_inj poly).mp h
    · exact h
  apply BitVec.eq_of_getLsbD_eq
  intro i _
  cases i with
  | zero => exact hlow
  | succ i =>
    have hbit := congrArg (fun v => v.getLsbD i) hhigh
    simpa only [BitVec.getLsbD_ushiftRight, Nat.add_comm 1 i] using hbit

theorem shifts_injective (n : ℕ) : Function.Injective (shifts poly n) := by
  induction n with
  | zero => exact fun r r' h => h
  | succ n ih => exact fun r r' h => shift_injective htop (ih h)

theorem byte_injective (b : UInt8) : Function.Injective fun r => byte poly r b := by
  intro r r' h
  exact (BitVec.xor_left_inj _).mp (shifts_injective htop 8 h)

theorem update_injective (bs : List UInt8) : Function.Injective fun r => update poly r bs := by
  induction bs with
  | nil => exact fun r r' h => h
  | cons b bs ih => exact fun r r' h => byte_injective htop b (ih h)

end Top

/-! ### A stretch of at most `w` bits -/

/-- The bytes as one number, the first one lowest. -/
def pack : List UInt8 → BitVec w
  | [] => 0
  | b :: bs => b.toBitVec.setWidth w ^^^ (pack bs <<< 8)

theorem pack_high (bs : List UInt8) (i : ℕ) (h : 8 * bs.length ≤ i) :
    (pack bs : BitVec w).getLsbD i = false := by
  induction bs generalizing i with
  | nil => exact BitVec.getLsbD_zero
  | cons b bs ih =>
    simp only [List.length_cons] at h
    have hlow : b.toBitVec.getLsbD i = false := BitVec.getLsbD_of_ge _ _ (by omega)
    simp only [pack, BitVec.getLsbD_xor, BitVec.getLsbD_setWidth, BitVec.getLsbD_shiftLeft, hlow,
      ih (i - 8) (by omega), Bool.and_false, Bool.xor_false]

theorem clear_of_shiftLeft (r : BitVec w) (n : ℕ) : ∀ i < n, (r <<< n).getLsbD i = false := by
  intro i hi
  simp only [BitVec.getLsbD_shiftLeft, hi, decide_true, Bool.not_true, Bool.and_false, Bool.false_and]

/- Bytes that fit are not cut off when they move up. -/
theorem pack_shiftLeft_ushiftRight (h : 8 * (bs.length + 1) ≤ w) :
    ((pack bs : BitVec w) <<< 8) >>> 8 = pack bs := by
  apply BitVec.eq_of_getLsbD_eq
  intro i hi
  rw [BitVec.getLsbD_ushiftRight, BitVec.getLsbD_shiftLeft, Nat.add_sub_cancel_left]
  by_cases hlt : 8 + i < w
  · simp only [hlt, decide_true, Bool.true_and, show ¬8 + i < 8 by omega, decide_false, Bool.not_false]
  · rw [pack_high bs i (by omega), Bool.and_false]

/- The bytes go in one after the other or all at once. -/
theorem update_eq_shifts (h : 8 * bs.length ≤ w) (r : BitVec w) :
    update poly r bs = shifts poly (8 * bs.length) (r ^^^ pack bs) := by
  induction bs generalizing r with
  | nil => rw [pack, BitVec.ofNat_eq_ofNat, BitVec.xor_zero]; rfl
  | cons b bs ih =>
    simp only [List.length_cons] at h
    have hmove : shifts poly 8 ((pack bs : BitVec w) <<< 8) = pack bs := by
      rw [shifts_of_clear 8 (clear_of_shiftLeft _ 8), pack_shiftLeft_ushiftRight h]
    calc update poly r (b :: bs)
        = update poly (byte poly r b) bs := rfl
      _ = shifts poly (8 * bs.length) (byte poly r b ^^^ pack bs) := ih (by omega) _
      _ = shifts poly (8 * bs.length) (shifts poly 8 (r ^^^ pack (b :: bs))) := by
          rw [byte, pack, ← BitVec.xor_assoc, shifts_xor 8 _ (pack bs <<< 8), hmove]
      _ = shifts poly (8 * (b :: bs).length) (r ^^^ pack (b :: bs)) := by
          rw [← shifts_add, List.length_cons, Nat.mul_succ, Nat.add_comm]

theorem pack_injective (hlen : x.length = y.length) (hx : 8 * x.length ≤ w)
    (h : (pack x : BitVec w) = pack y) : x = y := by
  induction x generalizing y with
  | nil => exact (List.length_eq_zero_iff.mp hlen.symm).symm
  | cons b bs ih =>
    cases y with
    | nil => cases hlen
    | cons c cs =>
      simp only [List.length_cons, Nat.add_right_cancel_iff] at hlen hx
      have hbits : ∀ i < w, (pack (b :: bs) : BitVec w).getLsbD i = (pack (c :: cs)).getLsbD i :=
        fun i _ => by rw [h]
      simp only [pack, BitVec.getLsbD_xor, BitVec.getLsbD_setWidth, BitVec.getLsbD_shiftLeft] at hbits
      have hhead : b = c := by
        rw [← UInt8.toBitVec_inj]
        apply BitVec.eq_of_getLsbD_eq
        intro i hi
        have hbit := hbits i (by omega)
        simpa only [show i < w by omega, hi, decide_true, Bool.true_and, Bool.not_true, Bool.false_and,
          Bool.xor_false] using hbit
      subst hhead
      have htail : (pack bs : BitVec w) = pack cs := by
        apply BitVec.eq_of_getLsbD_eq
        intro i hi
        by_cases hlt : 8 + i < w
        · have hbit := hbits (8 + i) hlt
          simpa only [hlt, decide_true, Bool.true_and, show ¬8 + i < 8 by omega, decide_false,
            Bool.not_false, Nat.add_sub_cancel_left, Bool.xor_right_inj] using hbit
        · rw [pack_high bs i (by omega), pack_high cs i (by omega)]
      rw [ih hlen (by omega) htail]

/- Streams that differ in one stretch of at most `w` bits have different sums. -/
theorem eq_of_sum_eq (htop : poly.msb = true) (hlen : x.length = y.length) (hx : 8 * x.length ≤ w)
    (h : sum poly (pre ++ x ++ post) = sum poly (pre ++ y ++ post)) : x = y := by
  have hreg : update poly (BitVec.allOnes w) (pre ++ x ++ post) =
      update poly (BitVec.allOnes w) (pre ++ y ++ post) := BitVec.not_inj.mp h
  rw [update_append, update_append _ _ post] at hreg
  have hmid := update_injective htop post hreg
  simp only [update_append, update_eq_shifts hx, update_eq_shifts (hlen ▸ hx), ← hlen] at hmid
  exact pack_injective hlen hx ((BitVec.xor_right_inj _).mp (shifts_injective htop _ hmid))

end Lib.Crc
