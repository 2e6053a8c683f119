import Mathlib.Algebra.BigOperators.Group.Finset.Basic
import Mathlib.Algebra.BigOperators.Ring.Finset
import Mathlib.Tactic.Ring
import Mathlib.Tactic.Linarith
/-!
# Positional values and carry chains

`Radix.value b f n` is the number whose `n` low digits in base `b` are
`f 0, …, f (n - 1)`. The digits are a function, so a window of a memory is
one, and nothing bounds them until a lemma asks: the telescoping rule of a
carry chain (`value_chain`) is an identity of sums, and a subtraction with
borrows is the same identity read the other way.
-/

namespace C64X25519

namespace Radix

variable {b : ℕ} {f g : ℕ → ℕ} {n m k : ℕ}

/-- The number with low digits `f 0, …, f (n - 1)` in base `b`. -/
def value (b : ℕ) (f : ℕ → ℕ) (n : ℕ) : ℕ := ∑ i ∈ Finset.range n, f i * b ^ i

@[simp] theorem value_zero : value b f 0 = 0 := rfl

theorem value_succ : value b f (n + 1) = value b f n + f n * b ^ n :=
  Finset.sum_range_succ _ _

theorem value_congr (h : ∀ i, i < n → f i = g i) : value b f n = value b g n :=
  Finset.sum_congr rfl fun i hi => by rw [h i (Finset.mem_range.1 hi)]

theorem value_add : value b (fun i => f i + g i) n = value b f n + value b g n := by
  simp only [value, ← Finset.sum_add_distrib, add_mul]

@[simp] theorem value_const_zero : value b (fun _ => 0) n = 0 := by simp [value]

/-- The digits from `m` up count `b ^ m` each. -/
theorem value_split : value b f (m + n) = value b f m + b ^ m * value b (fun i => f (m + i)) n := by
  simp only [value, Finset.sum_range_add, Finset.mul_sum]
  congr 1
  refine Finset.sum_congr rfl fun i _ => ?_
  rw [pow_add]; ring

/-- **Replacing one digit.** The identity is an addition on both sides, so
it serves a rise and a fall alike. -/
theorem value_update (v : ℕ) (hk : k < n) :
    value b (Function.update f k v) n + f k * b ^ k = value b f n + v * b ^ k := by
  induction n with
  | zero => omega
  | succ n ih =>
      rw [value_succ, value_succ]
      rcases Nat.lt_or_ge k n with hlt | hge
      · rw [Function.update_of_ne (by omega)]
        have := ih hlt
        omega
      · have hkn : k = n := by omega
        subst hkn
        have hsame : value b (Function.update f k v) k = value b f k :=
          value_congr fun i hi => Function.update_of_ne (by omega) _ _
        rw [hsame, Function.update_self]
        omega

/-- **A carry chain telescopes.** Where each digit passes `c (i + 1)` to the
next, only the first and the last carry are left. -/
theorem value_chain {c : ℕ → ℕ} (h : ∀ i, i < n → f i + b * c (i + 1) = g i + c i) :
    value b f n + b ^ n * c n = value b g n + c 0 := by
  induction n with
  | zero => simp
  | succ n ih =>
      have hn := h n (by omega)
      have hprev := ih fun i hi => h i (by omega)
      rw [value_succ, value_succ, pow_succ]
      calc value b f n + f n * b ^ n + b ^ n * b * c (n + 1)
          = value b f n + b ^ n * (f n + b * c (n + 1)) := by ring
        _ = value b f n + b ^ n * c n + g n * b ^ n := by rw [hn]; ring
        _ = value b g n + g n * b ^ n + c 0 := by rw [hprev]; ring

/-- Proper digits stay below the next power. -/
theorem value_lt (h : ∀ i, i < n → f i < b) : value b f n < b ^ n := by
  induction n with
  | zero => simp
  | succ n ih =>
      have hn := h n (by omega)
      have hprev := ih fun i hi => h i (by omega)
      rw [value_succ, pow_succ]
      have : (f n + 1) * b ^ n ≤ b * b ^ n := Nat.mul_le_mul_right _ hn
      nlinarith

/-- **Proper digits are read back by division.** -/
theorem value_digit (h : ∀ i, i < n → f i < b) (hk : k < n) :
    value b f n / b ^ k % b = f k := by
  have hb : 0 < b := lt_of_le_of_lt (Nat.zero_le _) (h k hk)
  obtain ⟨m, rfl⟩ : ∃ m, n = k + (1 + m) := ⟨n - k - 1, by omega⟩
  have hlow : value b f k < b ^ k := value_lt fun i hi => h i (by omega)
  rw [value_split, Nat.add_mul_div_left _ _ (pow_pos hb k), Nat.div_eq_of_lt hlow, zero_add,
    value_split]
  simp only [value_succ, value_zero, pow_zero, mul_one, zero_add, pow_one, add_zero,
    Nat.add_mul_mod_self_left]
  exact Nat.mod_eq_of_lt (h k hk)

/-- The low `n` digits of a number have it as their value, modulo `b ^ n`. -/
theorem value_digits (v : ℕ) : value b (fun i => v / b ^ i % b) n = v % b ^ n := by
  induction n with
  | zero => simp [Nat.mod_one]
  | succ n ih => rw [value_succ, ih, Nat.mod_pow_succ, mul_comm (b ^ n)]

end Radix

end C64X25519
