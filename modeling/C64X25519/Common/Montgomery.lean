import C64X25519.Common.Ladder
import Mathlib.AlgebraicGeometry.EllipticCurve.Affine.Point
import Mathlib.Tactic.FieldSimp
import Mathlib.Tactic.LinearCombination
/-!
# The ladder on a Montgomery curve

The curves `d * y ^ 2 = x ^ 3 + A * x ^ 2 + x`, over a field, for every `d`
but zero: a curve and its twists are among them, and every element of the
field is the coordinate of a point of one. In Weierstrass form the
coordinates are `d * x` and `d ^ 2 * y`, and the group is the one of
Mathlib. The steps of the ladder are a doubling and a differential addition
there.
-/

namespace C64X25519

open WeierstrassCurve.Affine

variable {F : Type*} [Field F]

/-- The curve `d * y ^ 2 = x ^ 3 + A * x ^ 2 + x`, in Weierstrass form. -/
def montgomery (A d : F) : WeierstrassCurve.Affine F := ⟨0, A * d, 0, d ^ 2, 0⟩

namespace Montgomery

variable {A d x x' z z' X Y X' Y' x1 : F}

theorem equation_iff :
    (montgomery A d).Equation X Y ↔ Y ^ 2 = X ^ 3 + A * d * X ^ 2 + d ^ 2 * X := by
  rw [WeierstrassCurve.Affine.equation_iff]
  simp only [montgomery, zero_mul, add_zero]

@[simp] theorem negY_eq : (montgomery A d).negY X Y = -Y := by
  simp only [negY, montgomery, zero_mul, sub_zero]

theorem nonsingular_iff : (montgomery A d).Nonsingular X Y ↔
    Y ^ 2 = X ^ 3 + A * d * X ^ 2 + d ^ 2 * X ∧
      (3 * X ^ 2 + 2 * (A * d) * X + d ^ 2 ≠ 0 ∨ 2 * Y ≠ 0) := by
  rw [WeierstrassCurve.Affine.nonsingular_iff', equation_iff]
  simp only [montgomery, zero_mul, add_zero, zero_sub, neg_ne_zero]

/-! ## The coordinates of a sum -/

section Sums

variable [DecidableEq F]

/-- The coordinate of `2 • (X, Y)`, by its denominator. -/
theorem addX_double (h2 : (2 : F) ≠ 0) (h : (montgomery A d).Equation X Y) (hY : Y ≠ 0) :
    (montgomery A d).addX X X ((montgomery A d).slope X X Y Y) * (4 * Y ^ 2)
      = (X ^ 2 - d ^ 2) ^ 2 := by
  have hne : Y ≠ (montgomery A d).negY X Y := by
    rw [negY_eq]
    intro he
    exact mul_ne_zero h2 hY (by linear_combination he)
  rw [slope_of_Y_ne rfl hne, negY_eq, sub_neg_eq_add, ← two_mul]
  rw [equation_iff] at h
  simp only [addX, montgomery, zero_mul, sub_zero, add_zero]
  field_simp
  linear_combination (-4 * (4 * A * d + 8 * X)) * h

/-- The coordinates of a sum and a difference, by theirs. -/
theorem addX_mul_addX (h : (montgomery A d).Equation X Y) (h' : (montgomery A d).Equation X' Y')
    (hX : X ≠ X') :
    (montgomery A d).addX X X' ((montgomery A d).slope X X' Y Y')
        * (montgomery A d).addX X' X ((montgomery A d).slope X' X Y' (-Y)) * (X - X') ^ 2
      = (X * X' - d ^ 2) ^ 2 := by
  have hsub : X - X' ≠ 0 := sub_ne_zero.2 hX
  rw [slope_of_X_ne hX, slope_of_X_ne hX.symm]
  rw [equation_iff] at h h'
  simp only [addX, montgomery, zero_mul, add_zero, sub_neg_eq_add]
  rw [← neg_sub X X', div_neg, neg_sq]
  field_simp
  -- the two equations, into a polynomial of degree two in both squares
  linear_combination
    (Y ^ 2 + (X ^ 3 + A * d * X ^ 2 + d ^ 2 * X) - 2 * Y' ^ 2
      - 2 * (A * d + X + X') * (X - X') ^ 2) * h
    + (Y' ^ 2 + (X' ^ 3 + A * d * X' ^ 2 + d ^ 2 * X')
      - 2 * (X ^ 3 + A * d * X ^ 2 + d ^ 2 * X) - 2 * (A * d + X + X') * (X - X') ^ 2) * h'

end Sums

/-! ## Points by their coordinate -/

variable {P Q Q' : (montgomery A d).Point} {a24 : F} {n : ℕ}

/-- The coordinate of a point, and zero for the point at infinity. -/
def coord : (montgomery A d).Point → F
  | .zero => 0
  | .some X _ _ => X / d

/-- `(x : z)` stands for the point: `z` is zero at infinity, and elsewhere
`x / z` is the coordinate. -/
def Reps : (montgomery A d).Point → F → F → Prop
  | .zero, x, z => x ≠ 0 ∧ z = 0
  | .some X _ _, x, z => z ≠ 0 ∧ X * z = d * x

theorem Reps.coord_eq (hd : d ≠ 0) (h : Reps Q x z) : coord Q = x / z := by
  cases Q with
  | zero => rw [h.2, div_zero, coord]
  | some X Y hns =>
    rw [coord, div_eq_div_iff hd h.1, h.2, mul_comm]

theorem coord_reps (hd : d ≠ 0) (hQ : Q ≠ 0) : Reps Q (coord Q) 1 := by
  cases Q with
  | zero => exact absurd rfl hQ
  | some X Y hns => exact ⟨one_ne_zero, by rw [coord, mul_one, mul_div_cancel₀ _ hd]⟩

/-- The opposite point has the same coordinate. -/
theorem Reps.neg (h : Reps Q x z) : Reps (-Q) x z := by
  cases Q with
  | zero => exact h
  | some X Y hns => exact h

theorem four_ne_zero_of_two (h2 : (2 : F) ≠ 0) : (4 : F) ≠ 0 := by
  rw [show (4 : F) = 2 * 2 by norm_num]
  exact mul_ne_zero h2 h2

/-- A point and the point at infinity, added. -/
theorem Reps.add_of_zero (h2 : (2 : F) ≠ 0) (hd : d ≠ 0) (hx1 : x1 ≠ 0) (hP : Reps P x1 1)
    (hx : x ≠ 0) (h : Reps P x' z') : Reps P (4 * (x * x') ^ 2) (x1 * (4 * (x * z') ^ 2)) := by
  cases P with
  | zero => exact absurd hP.2 one_ne_zero
  | some X Y hns =>
    obtain ⟨-, hX⟩ := hP
    obtain ⟨hz, hX'⟩ := h
    have hx' : x1 * z' = x' := mul_left_cancel₀ hd (by linear_combination hX' - z' * hX)
    refine ⟨mul_ne_zero hx1 (mul_ne_zero (four_ne_zero_of_two h2)
      (pow_ne_zero 2 (mul_ne_zero hx hz))), ?_⟩
    rw [← hx']
    linear_combination 4 * (x * z') ^ 2 * x1 * hX

variable [DecidableEq F]

/-- **Doubling.** -/
theorem Reps.double (h2 : (2 : F) ≠ 0) (hd : d ≠ 0) (h : Reps Q x z) :
    Reps (Q + Q) ((x + z) ^ 2 * (x - z) ^ 2) (4 * x * z * (x ^ 2 + A * x * z + z ^ 2)) := by
  cases Q with
  | zero =>
    obtain ⟨hx, rfl⟩ := h
    refine ⟨?_, by ring⟩
    rw [add_zero, sub_zero]
    exact mul_ne_zero (pow_ne_zero 2 hx) (pow_ne_zero 2 hx)
  | some X Y hns =>
    obtain ⟨hz, hX⟩ := h
    have heq := hns.1
    have hden : d ^ 3 * (4 * x * z * (x ^ 2 + A * x * z + z ^ 2)) = 4 * z ^ 4 * Y ^ 2 := by
      rw [equation_iff] at heq
      have hx : x = X * z / d := by rw [hX, mul_div_cancel_left₀ _ hd]
      rw [heq, hx]
      field_simp
    by_cases hY : Y = 0
    · -- a point of order two
      have hsum : Point.some X Y hns + Point.some X Y hns = 0 :=
        Point.add_self_of_Y_eq (by rw [negY_eq, hY, neg_zero])
      rw [hsum]
      refine ⟨fun h0 => ?_, ?_⟩
      · have hsq : x ^ 2 = z ^ 2 := by
          have h0' : (x ^ 2 - z ^ 2) ^ 2 = 0 := by linear_combination h0
          exact sub_eq_zero.1 (pow_eq_zero_iff two_ne_zero |>.1 h0')
        have hXd : X ^ 2 = d ^ 2 :=
          mul_right_cancel₀ (pow_ne_zero 2 hz) (by linear_combination (X * z + d * x) * hX + d ^ 2 * hsq)
        obtain ⟨hcurve, hsmooth⟩ := nonsingular_iff.1 hns
        rw [hY, mul_zero] at hsmooth
        refine hsmooth.elim (fun hs => hs ?_) (fun hs => hs rfl)
        have hX0 : X ≠ 0 := fun he => pow_ne_zero 2 hd (by rw [← hXd, he, zero_pow two_ne_zero])
        refine mul_left_cancel₀ hX0 ?_
        rw [hY] at hcurve
        linear_combination -2 * hcurve + X * hXd
      · refine mul_left_cancel₀ (pow_ne_zero 3 hd) ?_
        rw [hden, hY]
        ring
    · have hne : Y ≠ (montgomery A d).negY X Y := by
        rw [negY_eq]
        intro he
        exact mul_ne_zero h2 hY (by linear_combination he)
      rw [Point.add_self_of_Y_ne hne]
      have hdbl := addX_double h2 heq hY
      refine ⟨fun h0 => ?_, ?_⟩
      · rw [h0, mul_zero] at hden
        exact mul_ne_zero (mul_ne_zero (four_ne_zero_of_two h2) (pow_ne_zero 4 hz)) (pow_ne_zero 2 hY) hden.symm
      · refine mul_left_cancel₀ (pow_ne_zero 3 hd) ?_
        rw [mul_left_comm, hden]
        linear_combination z ^ 4 * hdbl +
          (X * z + d * x) * ((X * z) ^ 2 + (d * x) ^ 2 - 2 * d ^ 2 * z ^ 2) * hX

section Add

variable {hns : (montgomery A d).Nonsingular X Y} {hns' : (montgomery A d).Nonsingular X' Y'}

/-- Two opposite points, whose difference is twice the second. -/
theorem Reps.add_of_eq (h2 : (2 : F) ≠ 0) (hd : d ≠ 0) (hx1 : x1 ≠ 0) (hP : Reps P x1 1)
    (hsum : Point.some X' Y' hns' = Point.some X Y hns + P) (h : Reps (Point.some X Y hns) x z)
    (h' : Reps (Point.some X' Y' hns') x' z') (hX : X = X') :
    Reps (Point.some X Y hns + Point.some X' Y' hns') (4 * (x * x' - z * z') ^ 2)
      (x1 * (4 * (x' * z - x * z') ^ 2)) := by
  have hopp : Point.some X Y hns = -Point.some X' Y' hns' := by
    refine (Point.X_eq_iff.1 hX).resolve_left fun he => ?_
    have hP0 : P = 0 := by simpa [he] using hsum
    rw [hP0] at hP
    exact one_ne_zero hP.2
  have hP' : P = Point.some X' Y' hns' + Point.some X' Y' hns' := by
    rw [hopp] at hsum
    exact (eq_neg_add_iff_add_eq.1 hsum).symm
  have hdbl := h'.double h2 hd
  rw [← hP'] at hdbl
  obtain ⟨hz, hXz⟩ := h
  obtain ⟨hz', hXz'⟩ := h'
  rw [← hX] at hXz'
  have hcross : x' * z = x * z' :=
    mul_left_cancel₀ hd (by linear_combination z' * hXz - z * hXz')
  rw [hopp, neg_add_cancel]
  refine ⟨fun h0 => ?_, ?_⟩
  · have hprod : x * x' - z * z' = 0 :=
      (pow_eq_zero_iff two_ne_zero).1 ((mul_eq_zero.1 h0).resolve_left (four_ne_zero_of_two h2))
    have hsq : x' ^ 2 - z' ^ 2 = 0 :=
      mul_left_cancel₀ hz (by linear_combination z' * hprod + x' * hcross)
    have hx10 : x1 / 1 = 0 := by
      rw [← hP.coord_eq hd, hdbl.coord_eq hd,
        show (x' + z') ^ 2 * (x' - z') ^ 2 = (x' ^ 2 - z' ^ 2) ^ 2 by ring, hsq,
        zero_pow two_ne_zero, zero_div]
    exact hx1 (by rwa [div_one] at hx10)
  · rw [hcross, sub_self, zero_pow two_ne_zero, mul_zero, mul_zero]

/-- Two points with a secant through them. -/
theorem Reps.add_of_ne (h2 : (2 : F) ≠ 0) (hd : d ≠ 0) (hx1 : x1 ≠ 0) (hP : Reps P x1 1)
    (hsum : Point.some X' Y' hns' = Point.some X Y hns + P) (h : Reps (Point.some X Y hns) x z)
    (h' : Reps (Point.some X' Y' hns') x' z') (hX : X ≠ X') :
    Reps (Point.some X Y hns + Point.some X' Y' hns') (4 * (x * x' - z * z') ^ 2)
      (x1 * (4 * (x' * z - x * z') ^ 2)) := by
  obtain ⟨hz, hXz⟩ := h
  obtain ⟨hz', hXz'⟩ := h'
  have hP' : P = Point.some X' Y' hns' + -Point.some X Y hns := by
    rw [hsum, ← sub_eq_add_neg, add_sub_cancel_left]
  rw [Point.neg_some, Point.add_of_X_ne hX.symm] at hP'
  rw [hP'] at hP
  have hdiff := hP.2
  rw [negY_eq, mul_one] at hdiff
  have hmul := addX_mul_addX hns.1 hns'.1 hX
  rw [hdiff] at hmul
  have hcross : d * (x' * z - x * z') = (X' - X) * (z * z') := by
    linear_combination z' * hXz - z * hXz'
  rw [Point.add_of_X_ne hX]
  refine ⟨fun h0 => ?_, ?_⟩
  · have hzero : x' * z - x * z' = 0 := (pow_eq_zero_iff two_ne_zero).1
      ((mul_eq_zero.1 ((mul_eq_zero.1 h0).resolve_left hx1)).resolve_left (four_ne_zero_of_two h2))
    rw [hzero, mul_zero] at hcross
    exact mul_ne_zero (sub_ne_zero.2 hX.symm) (mul_ne_zero hz hz') hcross.symm
  · refine mul_left_cancel₀ (pow_ne_zero 3 hd) ?_
    set S := (montgomery A d).addX X X' ((montgomery A d).slope X X' Y Y')
    have hxx : d ^ 2 * (x * x') = X * X' * (z * z') := by
      linear_combination -(X' * z') * hXz - d * x * hXz'
    calc d ^ 3 * (S * (x1 * (4 * (x' * z - x * z') ^ 2)))
        = 4 * (S * (d * x1)) * (d * (x' * z - x * z')) ^ 2 := by ring
      _ = 4 * (S * (d * x1) * (X - X') ^ 2) * (z * z') ^ 2 := by rw [hcross]; ring
      _ = 4 * (X * X' * (z * z') - d ^ 2 * (z * z')) ^ 2 := by rw [hmul]; ring
      _ = d ^ 3 * (d * (4 * (x * x' - z * z') ^ 2)) := by rw [← hxx]; ring

end Add

/-- **Differential addition**: of two points that differ by one of
coordinate `x1`. -/
theorem Reps.add (h2 : (2 : F) ≠ 0) (hd : d ≠ 0) (hx1 : x1 ≠ 0) (hP : Reps P x1 1)
    (hsum : Q' = Q + P) (h : Reps Q x z) (h' : Reps Q' x' z') :
    Reps (Q + Q') (4 * (x * x' - z * z') ^ 2) (x1 * (4 * (x' * z - x * z') ^ 2)) := by
  cases Q with
  | zero =>
    have hQ' : Q' = P := hsum.trans (zero_add P)
    have hadd := hP.add_of_zero h2 hd hx1 h.1 (hQ' ▸ h')
    rw [show Point.zero + Q' = P from (zero_add Q').trans hQ', h.2, zero_mul, sub_zero, mul_zero,
      zero_sub, neg_sq]
    exact hadd
  | some X Y hns =>
    cases Q' with
    | zero =>
      have hQ : P = -Point.some X Y hns := eq_neg_of_add_eq_zero_right hsum.symm
      have hadd := (neg_neg (Point.some X Y hns) ▸ hQ ▸ hP.neg).add_of_zero h2 hd hx1 h'.1 h
      rw [show Point.some X Y hns + Point.zero = Point.some X Y hns from add_zero _, h'.2, mul_zero,
        sub_zero, mul_zero, sub_zero, mul_comm x]
      exact hadd
    | some X' Y' hns' =>
      by_cases hX : X = X'
      · exact hP.add_of_eq h2 hd hx1 hsum h h' hX
      · exact hP.add_of_ne h2 hd hx1 hsum h h' hX

/-! ## The ladder -/

/-- **One step**: the first point doubled, and both added. -/
theorem Reps.step {s : Ladder F} (h2 : (2 : F) ≠ 0) (hd : d ≠ 0) (h24 : 4 * a24 = A - 2)
    (hx1 : x1 ≠ 0) (hP : Reps P x1 1) (hsum : Q' = Q + P) (h : Reps Q s.x2 s.z2)
    (h' : Reps Q' s.x3 s.z3) :
    Reps (Q + Q) (s.step a24 x1).x2 (s.step a24 x1).z2 ∧
      Reps (Q + Q') (s.step a24 x1).x3 (s.step a24 x1).z3 := by
  rw [Ladder.step_z2 h24, Ladder.step_x3, Ladder.step_z3]
  exact ⟨h.double h2 hd, hP.add h2 hd hx1 hsum h h'⟩

/-- The ladder at `n`: its coordinates stand for `n • P` and the next. -/
structure At (P : (montgomery A d).Point) (n : ℕ) (s : Ladder F) : Prop where
  fst : Reps (n • P) s.x2 s.z2
  snd : Reps ((n + 1) • P) s.x3 s.z3

theorem At.step {s : Ladder F} (h2 : (2 : F) ≠ 0) (hd : d ≠ 0) (h24 : 4 * a24 = A - 2)
    (hx1 : x1 ≠ 0) (hP : Reps P x1 1) (h : At P n s) : At P (2 * n) (s.step a24 x1) := by
  have hsum : (n + 1) • P = n • P + P := succ_nsmul P n
  obtain ⟨hfst, hsnd⟩ := hP.step h2 hd h24 hx1 hsum h.fst h.snd
  rw [← two_nsmul, ← mul_nsmul'] at hfst
  rw [← add_nsmul] at hsnd
  exact ⟨hfst, by rwa [show n + (n + 1) = 2 * n + 1 by omega] at hsnd⟩

/-- And the step of a set bit, with the points exchanged around it. -/
theorem At.step_swap {s : Ladder F} (h2 : (2 : F) ≠ 0) (hd : d ≠ 0) (h24 : 4 * a24 = A - 2)
    (hx1 : x1 ≠ 0) (hP : Reps P x1 1) (h : At P n s) :
    At P (2 * n + 1) (((s.swap true).step a24 x1).swap true) := by
  have hsum : n • P = (n + 1) • P + -P := by rw [succ_nsmul, add_neg_cancel_right]
  obtain ⟨hfst, hsnd⟩ := hP.neg.step (s := s.swap true) h2 hd h24 hx1 hsum h.snd h.fst
  rw [← add_nsmul] at hfst hsnd
  exact ⟨by rwa [show n + 1 + n = 2 * n + 1 by omega] at hsnd,
    by rwa [show n + 1 + (n + 1) = 2 * n + 1 + 1 by omega] at hfst⟩

/-- **The ladder multiplies**: after the turns over a string of bits it
stands at their value. -/
theorem At.run (h2 : (2 : F) ≠ 0) (hd : d ≠ 0) (h24 : 4 * a24 = A - 2) (hx1 : x1 ≠ 0)
    (hP : Reps P x1 1) (bits : List Bool) : At P (Ladder.value bits) (Ladder.run a24 x1 bits) := by
  induction bits using List.reverseRecOn with
  | nil =>
    refine ⟨?_, ?_⟩
    · rw [Ladder.value_nil, zero_nsmul]
      exact ⟨one_ne_zero, rfl⟩
    · rw [Ladder.value_nil, zero_add, one_nsmul]
      exact hP
  | append_singleton bits k ih =>
    rw [Ladder.run_concat, Ladder.value_concat]
    cases k with
    | false => exact ih.step h2 hd h24 hx1 hP
    | true => exact ih.step_swap h2 hd h24 hx1 hP

/-! ## The coordinate of a multiple -/

/-- A point of coordinate zero is its own opposite. -/
theorem two_nsmul_of_coord (hd : d ≠ 0) (h : coord Q = 0) : 2 • Q = 0 := by
  cases Q with
  | zero => exact nsmul_zero 2
  | some X Y hns =>
    have hX : X = 0 := by
      rw [coord, div_eq_zero_iff] at h
      exact h.resolve_right hd
    have hY : Y = 0 := by
      have heq := equation_iff.1 hns.1
      rw [hX] at heq
      exact pow_eq_zero_iff two_ne_zero |>.1 (by linear_combination heq)
    rw [two_nsmul]
    exact Point.add_self_of_Y_eq (by rw [negY_eq, hY, neg_zero])

theorem coord_zero_nsmul (hd : d ≠ 0) (h : coord Q = 0) (n : ℕ) : coord (n • Q) = 0 := by
  have h2 := two_nsmul_of_coord hd h
  rcases Nat.even_or_odd' n with ⟨k, rfl | rfl⟩
  · rw [mul_nsmul, h2, nsmul_zero]
    rfl
  · rw [succ_nsmul, mul_nsmul, h2, nsmul_zero, zero_add, h]

/-- The coordinate of twice a point. -/
theorem coord_two_nsmul (h2 : (2 : F) ≠ 0) (hd : d ≠ 0) (hQ : Q ≠ 0) :
    coord (2 • Q) = (coord Q + 1) ^ 2 * (coord Q - 1) ^ 2
      / (4 * coord Q * (coord Q ^ 2 + A * coord Q + 1)) := by
  have hdbl := ((coord_reps hd hQ).double h2 hd).coord_eq hd
  rwa [← two_nsmul, mul_one, mul_one, one_pow] at hdbl

/-- The coordinates of the points of order one, two, four and eight: zero,
one and its opposite, and those whose double is one. -/
def LowOrder (A u : F) : Prop :=
  u = 0 ∨ u = 1 ∨ u = -1 ∨ (u + 1) ^ 2 * (u - 1) ^ 2 = 4 * u * (u ^ 2 + A * u + 1)

theorem four_nsmul_of_coord (h2 : (2 : F) ≠ 0) (hd : d ≠ 0) (h : (coord Q + 1) * (coord Q - 1) = 0) :
    2 • (2 • Q) = 0 := by
  by_cases hQ : Q = 0
  · rw [hQ, nsmul_zero, nsmul_zero]
  · refine two_nsmul_of_coord hd ?_
    rw [coord_two_nsmul h2 hd hQ, ← mul_pow, h, zero_pow two_ne_zero, zero_div]

/-- Eight times a point of such a coordinate is the point at infinity. -/
theorem eight_nsmul (h2 : (2 : F) ≠ 0) (hd : d ≠ 0) (h : LowOrder A (coord Q)) : 8 • Q = 0 := by
  have h8 : 8 • Q = 2 • (2 • (2 • Q)) := by rw [← mul_nsmul, ← mul_nsmul]
  rw [h8]
  have hstop : 2 • (2 • Q) = 0 → 2 • (2 • (2 • Q)) = 0 := fun h0 => by rw [h0, nsmul_zero]
  rcases h with h | h | h | h
  · exact hstop (by rw [two_nsmul_of_coord hd h, nsmul_zero])
  · exact hstop (four_nsmul_of_coord h2 hd (by rw [h, sub_self, mul_zero]))
  · exact hstop (four_nsmul_of_coord h2 hd (by rw [h, neg_add_cancel, zero_mul]))
  · by_cases hQ : Q = 0
    · rw [hQ, nsmul_zero, nsmul_zero, nsmul_zero]
    have hcoord := coord_two_nsmul h2 hd hQ
    rw [h] at hcoord
    by_cases h0 : 4 * coord Q * (coord Q ^ 2 + A * coord Q + 1) = 0
    · rw [h0, zero_div] at hcoord
      rw [two_nsmul_of_coord hd hcoord, nsmul_zero]
    · rw [div_self h0] at hcoord
      exact four_nsmul_of_coord h2 hd (by rw [hcoord, sub_self, mul_zero])

/-- **The ladder computes the coordinate of a multiple**, for every point
and every string of bits. -/
theorem coord_run (h2 : (2 : F) ≠ 0) (hd : d ≠ 0) (h24 : 4 * a24 = A - 2)
    (P : (montgomery A d).Point) (bits : List Bool) :
    (Ladder.run a24 (coord P) bits).x2 / (Ladder.run a24 (coord P) bits).z2
      = coord (Ladder.value bits • P) := by
  by_cases hx1 : coord P = 0
  · rw [coord_zero_nsmul hd hx1, hx1, div_eq_zero_iff]
    exact mul_eq_zero.1 (Ladder.run_zero bits).1
  · have hP0 : P ≠ 0 := fun he => hx1 (he ▸ rfl)
    exact ((At.run h2 hd h24 hx1 (coord_reps hd hP0) bits).fst.coord_eq hd).symm

/-- **Every element is a coordinate**, on the curve or on a twist. -/
theorem exists_coord (h2 : (2 : F) ≠ 0) (hA : A ^ 2 ≠ 4) (u : F) :
    ∃ d : F, d ≠ 0 ∧ ∃ P : (montgomery A d).Point, coord P = u := by
  by_cases hu : u ^ 3 + A * u ^ 2 + u = 0
  · -- a point of order two
    refine ⟨1, one_ne_zero, .some u 0 (nonsingular_iff.2 ⟨by linear_combination -hu, .inl ?_⟩),
      div_one u⟩
    intro h0
    have hu0 : u ≠ 0 := by
      rintro rfl
      exact (one_ne_zero : (1 : F) ≠ 0) (by linear_combination h0)
    have hq : u ^ 2 + A * u + 1 = 0 := mul_left_cancel₀ hu0 (by linear_combination hu)
    have hAu : A * u = -2 := by linear_combination 3 * hq - h0
    have hu2 : u ^ 2 = 1 := by linear_combination h0 - 2 * hq
    exact hA (by linear_combination (A * u - 2) * hAu - A ^ 2 * hu2)
  · refine ⟨u ^ 3 + A * u ^ 2 + u, hu, ?_⟩
    set d := u ^ 3 + A * u ^ 2 + u with hd
    refine ⟨.some (d * u) (d ^ 2) (nonsingular_iff.2 ⟨?_, .inr (mul_ne_zero h2 (pow_ne_zero 2 hu))⟩),
      mul_div_cancel_left₀ u hu⟩
    linear_combination d ^ 3 * hd

end Montgomery

end C64X25519
