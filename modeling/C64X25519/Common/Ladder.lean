import Mathlib.Algebra.Ring.Basic
import Mathlib.Data.Bool.Basic
import Mathlib.Data.List.Induction
import Mathlib.Tactic.LinearCombination
import Mathlib.Tactic.Ring
import Mathlib.Tactic.Simps.Basic
/-!
# The Montgomery ladder of RFC 7748

The ladder over a commutative ring, with its swaps deferred to the next
turn as the document writes it. `x` and `z` are the projective coordinates
of two points; the curve enters through `a24` alone.
-/

namespace C64X25519

variable {R : Type*} [CommRing R]

/-- The coordinates a ladder carries. -/
@[ext] structure Ladder (R : Type*) where
  x2 : R
  z2 : R
  x3 : R
  z3 : R

namespace Ladder

/-- The two points, exchanged or not. -/
def swap {R : Type*} (q : Bool) (s : Ladder R) : Ladder R :=
  if q then ⟨s.x3, s.z3, s.x2, s.z2⟩ else s

/-- The step formulas: `(x2 : z2)` doubled, and `(x3 : z3)` the sum, with
`x1` the coordinate of the difference. -/
def step (a24 x1 : R) (s : Ladder R) : Ladder R :=
  let a := s.x2 + s.z2
  let aa := a ^ 2
  let b := s.x2 - s.z2
  let bb := b ^ 2
  let e := aa - bb
  let c := s.x3 + s.z3
  let d := s.x3 - s.z3
  let da := d * a
  let cb := c * b
  { x3 := (da + cb) ^ 2
    z3 := x1 * (da - cb) ^ 2
    x2 := aa * bb
    z2 := e * (aa + a24 * e) }

/-- One turn of the ladder, with the bit of the turn before in `s.2`. -/
def turn (a24 x1 : R) (s : Ladder R × Bool) (k : Bool) : Ladder R × Bool :=
  ((s.1.swap (k ^^ s.2)).step a24 x1, k)

/-- The turns over a string of bits, highest first. -/
def turns (a24 x1 : R) (bits : List Bool) : Ladder R × Bool :=
  bits.foldl (turn a24 x1) (⟨1, 0, x1, 1⟩, false)

/-- The ladder over a string of bits: the turns, and the last swap. -/
def run (a24 x1 : R) (bits : List Bool) : Ladder R :=
  let s := turns a24 x1 bits
  s.1.swap s.2

@[simp] theorem turns_nil {a24 x1 : R} : turns a24 x1 [] = (⟨1, 0, x1, 1⟩, false) := rfl

theorem turns_concat {a24 x1 : R} {bits : List Bool} {k : Bool} :
    turns a24 x1 (bits ++ [k]) = turn a24 x1 (turns a24 x1 bits) k := by
  rw [turns, List.foldl_append]
  rfl

theorem swap_swap {R : Type*} {q k : Bool} {s : Ladder R} :
    s.swap (k ^^ q) = (s.swap q).swap k := by
  cases q <;> cases k <;> rfl

theorem run_concat {a24 x1 : R} {bits : List Bool} {k : Bool} :
    run a24 x1 (bits ++ [k]) = (((run a24 x1 bits).swap k).step a24 x1).swap k := by
  simp only [run, turns_concat, turn, swap_swap]

/-! ## The step formulas, multiplied out -/

section Step

variable {a24 x1 A : R} {s : Ladder R}

theorem step_x3 : (s.step a24 x1).x3 = 4 * (s.x2 * s.x3 - s.z2 * s.z3) ^ 2 := by
  simp only [step]
  ring

theorem step_z3 : (s.step a24 x1).z3 = x1 * (4 * (s.x3 * s.z2 - s.x2 * s.z3) ^ 2) := by
  simp only [step]
  ring

theorem step_z2 (h24 : 4 * a24 = A - 2) :
    (s.step a24 x1).z2 = 4 * s.x2 * s.z2 * (s.x2 ^ 2 + A * s.x2 * s.z2 + s.z2 ^ 2) := by
  simp only [step]
  linear_combination 4 * s.x2 ^ 2 * s.z2 ^ 2 * h24

/-- From `x1 = 0` one coordinate of each point is zero. -/
def Vanishing (s : Ladder R) : Prop := s.x2 * s.z2 = 0 ∧ s.x3 * s.z3 = 0

theorem Vanishing.swap {q : Bool} (h : s.Vanishing) : (s.swap q).Vanishing := by
  cases q with
  | false => exact h
  | true => exact ⟨h.2, h.1⟩

theorem Vanishing.step (h : s.Vanishing) : (s.step a24 0).Vanishing := by
  refine ⟨?_, ?_⟩
  · simp only [Ladder.step]
    linear_combination 4 * (s.x2 + s.z2) ^ 2 * (s.x2 - s.z2) ^ 2
      * ((s.x2 + s.z2) ^ 2 + a24 * (4 * (s.x2 * s.z2))) * h.1
  · simp only [Ladder.step, zero_mul, mul_zero]

theorem run_zero (bits : List Bool) : (run a24 0 bits).Vanishing := by
  induction bits using List.reverseRecOn with
  | nil => exact ⟨mul_zero 1, zero_mul 1⟩
  | append_singleton bits k ih =>
    rw [run_concat]
    exact ih.swap.step.swap

end Step

/-! ## The bits of a scalar -/

/-- The number a string of bits spells, highest first. -/
def value (bits : List Bool) : ℕ := bits.foldl (fun n k => 2 * n + k.toNat) 0

@[simp] theorem value_nil : value [] = 0 := rfl

theorem value_concat {bits : List Bool} {k : Bool} :
    value (bits ++ [k]) = 2 * value bits + k.toNat := by
  rw [value, List.foldl_append]
  rfl

end Ladder

end C64X25519
