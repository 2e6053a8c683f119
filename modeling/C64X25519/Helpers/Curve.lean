import C64X25519.Common.Montgomery
import C64X25519.Helpers.Prime
import C64X25519.Helpers.Scalarmult
import Mathlib.FieldTheory.Finite.Basic
/-!
# The curve

X25519 on the points of the curve and its twists: the routine takes the
coordinate of a point to the coordinate of a multiple.
-/

namespace C64X25519

open Montgomery

/-! ## The field -/

theorem two_ne_zero_p : (2 : ZMod p) ≠ 0 := by
  rw [Ne, ← Nat.cast_ofNat, ZMod.natCast_eq_zero_iff]
  norm_num [p]

theorem a24_eq : 4 * (121665 : ZMod p) = 486662 - 2 := by norm_num

theorem curve_ne : (486662 : ZMod p) ^ 2 ≠ 4 := by
  intro h
  have h' : ((486662 ^ 2 - 4 : ℕ) : ZMod p) = 0 := by
    rw [Nat.cast_sub (by norm_num), Nat.cast_pow]
    push_cast
    rw [h, sub_self]
  rw [ZMod.natCast_eq_zero_iff] at h'
  norm_num [p] at h'

/-- Fermat's power, of zero too. -/
theorem pow_p_sub_two (z : ZMod p) : z ^ (p - 2) = z⁻¹ := by
  rcases eq_or_ne z 0 with rfl | hz
  · rw [inv_zero, zero_pow (by norm_num [p])]
  · refine eq_inv_of_mul_eq_one_left ?_
    rw [← pow_succ, show p - 2 + 1 = p - 1 by norm_num [p], ZMod.pow_card_sub_one_eq_one hz]

/-! ## The bits of the scalar -/

/-- The first `i` bits of the ladder spell the top of the scalar. -/
theorem value_ladderBits (n : ℕ) {i : ℕ} (hi : i ≤ 255) :
    Ladder.value (ladderBits n i) = n % 2 ^ 255 / 2 ^ (255 - i) := by
  induction i with
  | zero => exact (Nat.div_eq_of_lt (Nat.mod_lt _ (Nat.two_pow_pos 255))).symm
  | succ i ih =>
    obtain ⟨j, hj⟩ : ∃ j, j = 254 - i := ⟨_, rfl⟩
    have hbit : (n.testBit j).toNat = n % 2 ^ 255 / 2 ^ j % 2 := by
      rw [← Nat.toNat_testBit, Nat.testBit_mod_two_pow, decide_eq_true (by omega), Bool.true_and]
    rw [ladderBits_succ, Ladder.value_concat, ih (by omega), ← hj, hbit,
      show 255 - i = j + 1 by omega, show 255 - (i + 1) = j by omega, pow_succ 2 j, ← Nat.div_div_eq_div_mul]
    exact Nat.div_add_mod _ 2

/-! ## X25519 -/

variable {d : ZMod p}

/-- **X25519 multiplies points**, on the curve and on its twist. -/
theorem x25519_coord (hd : d ≠ 0) (n : ℕ) (P : (montgomery 486662 d).Point) :
    x25519 n (coord P) = coord ((n % 2 ^ 255) • P) := by
  have hrun := coord_run two_ne_zero_p hd a24_eq P (ladderBits n 255)
  rw [value_ladderBits n le_rfl, Nat.sub_self, pow_zero, Nat.div_one] at hrun
  rw [x25519, pow_p_sub_two, ← div_eq_mul_inv, hrun]

/-- **Scalar multiplications commute**, from every coordinate. -/
theorem x25519_comm (m n : ℕ) (u : ZMod p) : x25519 m (x25519 n u) = x25519 n (x25519 m u) := by
  obtain ⟨d, hd, P, rfl⟩ := exists_coord two_ne_zero_p curve_ne u
  simp only [x25519_coord hd]
  rw [← mul_nsmul, ← mul_nsmul, mul_comm]

/-- **Points of low order vanish** under a multiple of eight. -/
theorem x25519_lowOrder {n : ℕ} {u : ZMod p} (hu : LowOrder 486662 u) (hn : n % 8 = 0) :
    x25519 n u = 0 := by
  obtain ⟨d, hd, P, rfl⟩ := exists_coord two_ne_zero_p curve_ne u
  obtain ⟨k, hk⟩ : 8 ∣ n % 2 ^ 255 := by omega
  rw [x25519_coord hd, hk, mul_nsmul, eight_nsmul two_ne_zero_p hd hu, nsmul_zero]
  rfl

end C64X25519
