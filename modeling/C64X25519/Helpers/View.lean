import C64X25519.Helpers.Prime
import C64X25519.Helpers.Reduce
import C64X25519.Model.Ladder
import Mathlib.Algebra.Field.ZMod
/-!
# Field programs over any arithmetic

A field program sees the pointers it has set and a value in every buffer.
What its calls compute is an `Interp`: the numbers the routines leave, byte
for byte (`raw`), their residues (`residues`), or the exponent of one fixed
base (`exponents`). A relation the calls preserve is preserved by programs,
as far as the additions and subtractions meet the conditions it needs.
-/

namespace C64X25519

variable {K α β : Type} [DecidableEq K]

/-! ## Interpretations -/

/-- What the field routines compute. -/
structure Interp (α : Type) where
  zero : α
  one : α
  add : α → α → α
  sub : α → α → α
  mul : α → α → α
  sqr : α → α
  mulA24 : α → α
  reduce : α → α

/-- The numbers the routines leave in a buffer. -/
@[simps] def raw : Interp ℕ where
  zero := 0
  one := 1
  add := addMod
  sub := subMod
  mul a b := reduceWide (a * b)
  sqr a := reduceWide (a ^ 2)
  mulA24 a := 121665 * a % p
  reduce a := a % p

/-- The curve constant is the numeral of every ring. -/
instance atLeastTwo_a24 : Nat.AtLeastTwo 121665 := ⟨by norm_num⟩

/-- The expressions of the field. -/
@[simps] def residues : Interp (ZMod p) where
  zero := 0
  one := 1
  add a b := a + b
  sub a b := a - b
  mul a b := a * b
  sqr a := a ^ 2
  mulA24 a := 121665 * a
  reduce a := a

/-- The exponents of a base, where a value is a power of it. -/
@[simps] def exponents : Interp (Option ℕ) where
  zero := none
  one := some 0
  add _ _ := none
  sub _ _ := none
  mul a b := do return (← a) + (← b)
  sqr a := do return 2 * (← a)
  mulA24 _ := none
  reduce a := a

/-! ## Views -/

/-- What a program sees: the pointers that have been set, and the value in
every buffer. -/
@[ext] structure View (K α : Type) where
  src1 : Option K
  src2 : Option K
  dst : Option K
  val : K → α

/-- A value stored to a buffer. -/
@[simps -fullyApplied] def View.store (d : K) (n : α) (v : View K α) : View K α :=
  { v with val := Function.update v.val d n }

/-- What a routine does to the values, where the pointers it follows are
set. -/
def FieldOp.eval (I : Interp α) (f : FieldOp) (v : View K α) : Option (View K α) :=
  match f with
  | .fe25519Copy => do return v.store (← v.dst) (v.val (← v.src1))
  | .fe25519Zero => do return v.store (← v.dst) I.zero
  | .fe25519One => do return v.store (← v.dst) I.one
  | .fe25519Add => do return v.store (← v.dst) (I.add (v.val (← v.src1)) (v.val (← v.src2)))
  | .fe25519Sub => do return v.store (← v.dst) (I.sub (v.val (← v.src1)) (v.val (← v.src2)))
  | .fe25519Mul => do return v.store (← v.dst) (I.mul (v.val (← v.src1)) (v.val (← v.src2)))
  | .fe25519Sqr => do return v.store (← v.dst) (I.sqr (v.val (← v.src1)))
  | .fe25519MulA24 => do return v.store (← v.dst) (I.mulA24 (v.val (← v.src1)))
  | .fe25519ReduceFinal => do return v.store (← v.dst) (I.reduce (v.val (← v.dst)))

/-- The turns of a loop counted down in a byte. -/
def turns (n : Byte) : ℕ := if n.toNat = 0 then 256 else n.toNat

/-- The view after `k` turns of the squaring loop, which squares `acc`. -/
def View.squared (I : Interp α) (acc : K) (v : View K α) (k : ℕ) : View K α :=
  { v.store acc (I.sqr^[k] (v.val acc)) with src1 := some acc, dst := some acc }

/-- One instruction on a view, where it is defined. -/
def Instr.eval (I : Interp α) (acc : K) (i : Instr K) (v : View K α) : Option (View K α) :=
  match i with
  | .src1 a => some { v with src1 := some a }
  | .src2 a => some { v with src2 := some a }
  | .dst a => some { v with dst := some a }
  | .jsr f => f.eval I v
  | .sqrn n => some (v.squared I acc (turns n))

/-- A program, instruction by instruction. -/
def evals (I : Interp α) (acc : K) (code : List (Instr K)) (v : View K α) : Option (View K α) :=
  code.foldlM (fun v i => i.eval I acc v) v

variable {I : Interp α} {J : Interp β} {f : FieldOp} {acc : K} {i : Instr K}
  {code : List (Instr K)} {v v' : View K α} {w : View K β}

@[simp] theorem evals_nil : evals I acc [] v = some v := rfl

@[simp] theorem evals_cons : evals I acc (i :: code) v = (i.eval I acc v).bind (evals I acc code) := rfl

/-- A call stores one value where the destination pointer stands. -/
theorem FieldOp.eval_eq (he : f.eval I v = some v') : ∃ d ∈ v.dst, ∃ n, v' = v.store d n := by
  cases f <;> simp only [FieldOp.eval, Option.bind_eq_bind, Option.bind_eq_some_iff,
    Option.pure_def, Option.some.injEq] at he
  case fe25519Zero | fe25519One =>
    obtain ⟨d, hd, rfl⟩ := he
    exact ⟨d, hd, _, rfl⟩
  case fe25519Copy | fe25519Sqr | fe25519MulA24 | fe25519ReduceFinal =>
    obtain ⟨d, hd, a, -, rfl⟩ := he
    exact ⟨d, hd, _, rfl⟩
  case fe25519Add | fe25519Sub | fe25519Mul =>
    obtain ⟨d, hd, a, -, b, -, rfl⟩ := he
    exact ⟨d, hd, _, rfl⟩

/-! ## Relations between interpretations -/

/-- `R` relates the values of two interpretations call by call; additions
and subtractions may ask for `P` and `Q` of their operands. -/
structure Relates (I : Interp α) (J : Interp β) (R : α → β → Prop) (P Q : α → α → Prop) :
    Prop where
  zero : R I.zero J.zero
  one : R I.one J.one
  add : ∀ {a a' b b'}, R a b → R a' b' → P a a' → R (I.add a a') (J.add b b')
  sub : ∀ {a a' b b'}, R a b → R a' b' → Q a a' → R (I.sub a a') (J.sub b b')
  mul : ∀ {a a' b b'}, R a b → R a' b' → R (I.mul a a') (J.mul b b')
  sqr : ∀ {a b}, R a b → R (I.sqr a) (J.sqr b)
  mulA24 : ∀ {a b}, R a b → R (I.mulA24 a) (J.mulA24 b)
  reduce : ∀ {a b}, R a b → R (I.reduce a) (J.reduce b)

/-- The operands of an addition meet `P`, those of a subtraction `Q`. -/
def Instr.Safe (P Q : α → α → Prop) (i : Instr K) (v : View K α) : Prop :=
  match i, v.src1, v.src2 with
  | .jsr .fe25519Add, some a, some b => P (v.val a) (v.val b)
  | .jsr .fe25519Sub, some a, some b => Q (v.val a) (v.val b)
  | _, _, _ => True

/-- And so at every call of a program. -/
def Safe (I : Interp α) (acc : K) (P Q : α → α → Prop) : List (Instr K) → View K α → Prop
  | [], _ => True
  | i :: code, v => i.Safe P Q v ∧
      match i.eval I acc v with
      | none => True
      | some v' => Safe I acc P Q code v'

theorem Safe.cons {P Q : α → α → Prop} (h1 : i.Safe P Q v)
    (h2 : ∀ v', i.eval I acc v = some v' → Safe I acc P Q code v') :
    Safe I acc P Q (i :: code) v := by
  refine ⟨h1, ?_⟩
  split
  · trivial
  · rename_i v' hv'
    exact h2 v' hv'

theorem Safe.tail {P Q : α → α → Prop} (h : Safe I acc P Q (i :: code) v)
    (he : i.eval I acc v = some v') : Safe I acc P Q code v' := by
  obtain ⟨-, h⟩ := h
  rw [he] at h
  exact h

/-- Two views of one program's progress. -/
structure View.Related (R : α → β → Prop) (v : View K α) (w : View K β) : Prop where
  src1 : v.src1 = w.src1
  src2 : v.src2 = w.src2
  dst : v.dst = w.dst
  val : ∀ b, R (v.val b) (w.val b)

variable {R : α → β → Prop} {P Q : α → α → Prop}

theorem View.Related.store {d : K} {m : α} {n : β} (h : v.Related R w) (hR : R m n) :
    (v.store d m).Related R (w.store d n) where
  src1 := h.src1
  src2 := h.src2
  dst := h.dst
  val b := by
    rcases eq_or_ne b d with rfl | hne
    · simpa using hR
    · simpa [Function.update_of_ne hne] using h.val b

/-- One instruction. -/
theorem Instr.eval_rel (hrel : Relates I J R P Q) (h : v.Related R w) (hs : i.Safe P Q v)
    (he : i.eval I acc v = some v') : ∃ w', i.eval J acc w = some w' ∧ v'.Related R w' := by
  cases i with
  | src1 a =>
    obtain rfl : _ = v' := Option.some.inj he
    exact ⟨_, rfl, rfl, h.src2, h.dst, h.val⟩
  | src2 a =>
    obtain rfl : _ = v' := Option.some.inj he
    exact ⟨_, rfl, h.src1, rfl, h.dst, h.val⟩
  | dst a =>
    obtain rfl : _ = v' := Option.some.inj he
    exact ⟨_, rfl, h.src1, h.src2, rfl, h.val⟩
  | sqrn n =>
    obtain rfl : _ = v' := Option.some.inj he
    have hit : ∀ k, R (I.sqr^[k] (v.val acc))
        (J.sqr^[k] (w.val acc)) := fun k => by
      induction k with
      | zero => exact h.val _
      | succ k ih =>
        rw [Function.iterate_succ_apply', Function.iterate_succ_apply']
        exact hrel.sqr ih
    exact ⟨_, rfl, rfl, h.src2, rfl, (h.store (hit (turns n))).val⟩
  | jsr f =>
    cases f <;> simp only [Instr.eval, FieldOp.eval, Option.bind_eq_bind, Option.bind_eq_some_iff,
      Option.pure_def, Option.some.injEq, ← h.src1, ← h.src2, ← h.dst] at he ⊢
    case fe25519Copy =>
      obtain ⟨d, hd, a, ha, rfl⟩ := he
      exact ⟨_, ⟨d, hd, a, ha, rfl⟩, h.store (h.val a)⟩
    case fe25519Zero =>
      obtain ⟨d, hd, rfl⟩ := he
      exact ⟨_, ⟨d, hd, rfl⟩, h.store hrel.zero⟩
    case fe25519One =>
      obtain ⟨d, hd, rfl⟩ := he
      exact ⟨_, ⟨d, hd, rfl⟩, h.store hrel.one⟩
    case fe25519Add =>
      obtain ⟨d, hd, a, ha, b, hb, rfl⟩ := he
      exact ⟨_, ⟨d, hd, a, ha, b, hb, rfl⟩,
        h.store (hrel.add (h.val a) (h.val b) (by simpa only [Instr.Safe, ha, hb] using hs))⟩
    case fe25519Sub =>
      obtain ⟨d, hd, a, ha, b, hb, rfl⟩ := he
      exact ⟨_, ⟨d, hd, a, ha, b, hb, rfl⟩,
        h.store (hrel.sub (h.val a) (h.val b) (by simpa only [Instr.Safe, ha, hb] using hs))⟩
    case fe25519Mul =>
      obtain ⟨d, hd, a, ha, b, hb, rfl⟩ := he
      exact ⟨_, ⟨d, hd, a, ha, b, hb, rfl⟩, h.store (hrel.mul (h.val a) (h.val b))⟩
    case fe25519Sqr =>
      obtain ⟨d, hd, a, ha, rfl⟩ := he
      exact ⟨_, ⟨d, hd, a, ha, rfl⟩, h.store (hrel.sqr (h.val a))⟩
    case fe25519MulA24 =>
      obtain ⟨d, hd, a, ha, rfl⟩ := he
      exact ⟨_, ⟨d, hd, a, ha, rfl⟩, h.store (hrel.mulA24 (h.val a))⟩
    case fe25519ReduceFinal =>
      obtain ⟨d, hd, a, ha, rfl⟩ := he
      exact ⟨_, ⟨d, hd, a, ha, rfl⟩, h.store (hrel.reduce (h.val a))⟩

/-- **Programs preserve what their calls preserve.** -/
theorem evals_rel (hrel : Relates I J R P Q) (h : v.Related R w) (hs : Safe I acc P Q code v)
    (he : evals I acc code v = some v') : ∃ w', evals J acc code w = some w' ∧ v'.Related R w' := by
  induction code generalizing v w with
  | nil =>
    obtain rfl : v = v' := Option.some.inj he
    exact ⟨w, rfl, h⟩
  | cons i code ih =>
    rw [evals_cons, Option.bind_eq_some_iff] at he
    obtain ⟨u, hu, he⟩ := he
    obtain ⟨x, hx, hrelx⟩ := Instr.eval_rel hrel h hs.1 hu
    obtain ⟨w', hw', hrel'⟩ := ih hrelx (hs.tail hu) he
    exact ⟨w', by rw [evals_cons, hx]; exact hw', hrel'⟩

/-- A program without additions and subtractions asks for nothing. -/
theorem safe_of_free (hc : ∀ i ∈ code, i ≠ .jsr .fe25519Add ∧ i ≠ .jsr .fe25519Sub) :
    Safe I acc P Q code v := by
  induction code generalizing v with
  | nil => trivial
  | cons i code ih =>
    refine Safe.cons ?_ fun v' _ => ih fun j hj => hc j (List.mem_cons_of_mem _ hj)
    obtain ⟨h1, h2⟩ := hc i (List.mem_cons_self ..)
    unfold Instr.Safe
    split
    · exact absurd rfl h1
    · exact absurd rfl h2
    · trivial

theorem safe_true : Safe I acc (fun _ _ => True) (fun _ _ => True) code v := by
  induction code generalizing v with
  | nil => trivial
  | cons i code ih =>
    refine Safe.cons ?_ fun v' _ => ih
    unfold Instr.Safe
    split <;> trivial

/-- **The pointers alone decide whether a program runs.** -/
theorem evals_runs (J : Interp β) (he : evals I acc code v = some v')
    (h : v.Related (fun _ _ => True) w) :
    ∃ w', evals J acc code w = some w' ∧ v'.Related (fun _ _ => True) w' := by
  have htrivial : Relates I J (fun _ _ => True) (fun _ _ => True) (fun _ _ => True) := by
    constructor <;> intros <;> trivial
  exact evals_rel htrivial h safe_true he

/-! ## The raw numbers and their residues -/

/-- A 32-byte number and its residue. -/
def Residue (n : ℕ) (z : ZMod p) : Prop := n < 2 ^ 256 ∧ (n : ZMod p) = z

theorem natCast_mod_p (n : ℕ) : ((n % p : ℕ) : ZMod p) = n := ZMod.natCast_mod n p

/-- The canonical number of a residue. -/
theorem mod_p_eq_val {n : ℕ} {z : ZMod p} (h : (n : ZMod p) = z) : n % p = z.val := by
  rw [← h, ZMod.val_natCast]

instance : NeZero p := ⟨by norm_num [p]⟩

theorem cast_p : (p : ZMod p) = 0 := ZMod.natCast_self p

theorem addMod_lt (a b : ℕ) : addMod a b < 2 ^ 256 := by
  rw [addMod]
  split <;> exact Nat.mod_lt _ (by norm_num)

theorem subMod_lt (a b : ℕ) : subMod a b < 2 ^ 256 := by
  rw [subMod]
  split <;> exact Nat.mod_lt _ (by norm_num)

/-- **An addition is right** where the sum is below `2 ^ 256 + p`. -/
theorem addMod_cast {a b : ℕ} (h : a + b < 2 ^ 256 + p) :
    (addMod a b : ZMod p) = (a : ZMod p) + b := by
  have hv : addMod a b = a + b ∨ addMod a b + p = a + b := by
    by_cases hc : 2 ^ 256 ≤ a + b ∨ p ≤ (a + b) % 2 ^ 256
    · rw [addMod, if_pos hc]
      simp only [p] at h hc ⊢
      omega
    · rw [addMod, if_neg hc]
      omega
  rcases hv with hv | hv
  · rw [hv, Nat.cast_add]
  · rw [← Nat.cast_add, ← hv, Nat.cast_add, cast_p, add_zero]

/-- **A subtraction is right** where the difference is at least `-p`. -/
theorem subMod_cast {a b : ℕ} (ha : a < 2 ^ 256) (h : b ≤ a + p) :
    (subMod a b : ZMod p) = (a : ZMod p) - b := by
  have hv : subMod a b + b = a ∨ subMod a b + b = a + p := by
    by_cases hc : a < b
    · rw [subMod, if_pos hc]
      simp only [p] at h ⊢
      omega
    · rw [subMod, if_neg hc]
      omega
  rw [eq_sub_iff_add_eq, ← Nat.cast_add]
  rcases hv with hv | hv
  · rw [hv]
  · rw [hv, Nat.cast_add, cast_p, add_zero]

/-- `2 ^ 256` is `38`, which is no multiple of `p`. -/
theorem cast_pow_256 : ((2 ^ 256 : ℕ) : ZMod p) = 38 := by
  have h : (2 ^ 256 : ℕ) = 2 * p + 38 := by norm_num [p]
  rw [h, Nat.cast_add, Nat.cast_mul, cast_p, mul_zero, zero_add]
  rfl

theorem cast_38_ne : (38 : ZMod p) ≠ 0 := by
  have h : ((38 : ℕ) : ZMod p) ≠ 0 := by
    rw [Ne, ZMod.natCast_eq_zero_iff]
    exact Nat.not_dvd_of_pos_of_lt (by norm_num) (by norm_num [p])
  exact h

/-- Beyond that the one subtraction of `p` is not enough: the result is
`2 ^ 256` short. -/
theorem addMod_cast_iff {a b : ℕ} (ha : a < 2 ^ 256) (hb : b < 2 ^ 256) :
    (addMod a b : ZMod p) = (a : ZMod p) + b ↔ a + b < 2 ^ 256 + p := by
  refine ⟨fun h => ?_, addMod_cast⟩
  by_contra hlt
  have hv : addMod a b + p + 2 ^ 256 = a + b := by
    rw [addMod, if_pos (.inl (by omega))]
    simp only [p] at hlt ⊢
    omega
  have hcast : (addMod a b : ZMod p) + 38 = (a : ZMod p) + b := by
    rw [← Nat.cast_add, ← hv, Nat.cast_add, Nat.cast_add, cast_p, cast_pow_256, add_zero]
  rw [h] at hcast
  exact cast_38_ne (left_eq_add.1 hcast.symm)

/-- And below `-p` the one addition of `p` leaves the result `2 ^ 256` too
large. -/
theorem subMod_cast_iff {a b : ℕ} (ha : a < 2 ^ 256) (hb : b < 2 ^ 256) :
    (subMod a b : ZMod p) = (a : ZMod p) - b ↔ b ≤ a + p := by
  refine ⟨fun h => ?_, subMod_cast ha⟩
  by_contra hle
  have hv : subMod a b + b = a + p + 2 ^ 256 := by
    rw [subMod, if_pos (by omega)]
    simp only [p] at hle ⊢
    omega
  have hcast : (subMod a b : ZMod p) + b = (a : ZMod p) + 38 := by
    rw [← Nat.cast_add, hv, Nat.cast_add, Nat.cast_add, cast_p, cast_pow_256, add_zero]
  rw [h, sub_add_cancel] at hcast
  exact cast_38_ne (left_eq_add.1 hcast)

/-- Canonical operands give canonical results. -/
theorem addMod_canonical {a b : ℕ} (ha : a < p) (hb : b < p) : addMod a b < p := by
  rw [addMod]
  split <;> simp only [p] at * <;> omega

theorem subMod_canonical {a b : ℕ} (ha : a < p) (hb : b < p) : subMod a b < p := by
  rw [subMod]
  split <;> simp only [p] at * <;> omega

theorem reduceWide_cast (n : ℕ) : (reduceWide n : ZMod p) = n := by
  rw [← natCast_mod_p, reduceWide_mod, natCast_mod_p]

theorem mul_lt_pow {a b : ℕ} (ha : a < 2 ^ 256) (hb : b < 2 ^ 256) : a * b < 256 ^ 64 := by
  calc a * b < 2 ^ 256 * 2 ^ 256 := Nat.mul_lt_mul'' ha hb
    _ = 256 ^ 64 := by norm_num

theorem mod_p_lt (n : ℕ) : n % p < 2 ^ 256 :=
  lt_trans (Nat.mod_lt n (by norm_num [p])) (by norm_num [p])

/-- **The raw numbers are residues** under the conditions of the additions
and the subtractions. -/
theorem raw_residues : Relates raw residues Residue (fun a b => a + b < 2 ^ 256 + p)
    (fun a b => b ≤ a + p) where
  zero := ⟨by norm_num [raw], Nat.cast_zero⟩
  one := ⟨by norm_num [raw], Nat.cast_one⟩
  add := by
    rintro a a' b b' ⟨-, rfl⟩ ⟨-, rfl⟩ h
    exact ⟨addMod_lt a a', addMod_cast h⟩
  sub := by
    rintro a a' b b' ⟨ha, rfl⟩ ⟨-, rfl⟩ h
    exact ⟨subMod_lt a a', subMod_cast ha h⟩
  mul := by
    rintro a a' b b' ⟨ha, rfl⟩ ⟨ha', rfl⟩
    exact ⟨reduceWide_lt (mul_lt_pow ha ha'), (reduceWide_cast _).trans (Nat.cast_mul a a')⟩
  sqr := by
    rintro a b ⟨ha, rfl⟩
    refine ⟨reduceWide_lt ?_, (reduceWide_cast _).trans (Nat.cast_pow a 2)⟩
    rw [sq]
    exact mul_lt_pow ha ha
  mulA24 := by
    rintro a b ⟨-, rfl⟩
    refine ⟨mod_p_lt _, (natCast_mod_p _).trans ?_⟩
    rw [Nat.cast_mul]
    rfl
  reduce := by
    rintro a b ⟨-, rfl⟩
    exact ⟨mod_p_lt a, natCast_mod_p a⟩

/-- A canonical second operand is enough for either condition. -/
theorem raw_residues_canonical :
    Relates raw residues Residue (fun _ b => b < p) (fun _ b => b < p) where
  __ := raw_residues
  add h h' hb := raw_residues.add h h' (by have hlt := h.1; omega)
  sub h h' hb := raw_residues.sub h h' (by omega)

/-- A power of `x`, where an exponent is known. -/
def PowerOf (x z : ZMod p) (e : Option ℕ) : Prop := ∀ n ∈ e, z = x ^ n

/-- **Residues are powers** where the exponents say so. -/
theorem residues_exponents (x : ZMod p) :
    Relates residues exponents (PowerOf x) (fun _ _ => True) (fun _ _ => True) where
  zero n hn := by cases hn
  one n hn := by
    obtain rfl : 0 = n := Option.some.inj hn
    exact (pow_zero x).symm
  add _ _ _ n hn := by cases hn
  sub _ _ _ n hn := by cases hn
  mul := by
    intro a a' b b' h h' n hn
    simp only [exponents, Option.bind_eq_bind, Option.pure_def, Option.mem_def,
      Option.bind_eq_some_iff, Option.some.injEq] at hn
    obtain ⟨k, hk, l, hl, rfl⟩ := hn
    rw [pow_add, ← h k hk, ← h' l hl]
    rfl
  sqr := by
    intro a b h n hn
    simp only [exponents, Option.bind_eq_bind, Option.pure_def, Option.mem_def,
      Option.bind_eq_some_iff, Option.some.injEq] at hn
    obtain ⟨k, hk, rfl⟩ := hn
    rw [mul_comm, pow_mul, ← h k hk]
    rfl
  mulA24 _ n hn := by cases hn
  reduce h := h

end C64X25519
