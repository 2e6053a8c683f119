import C64X25519.Helpers.Tables
import C64X25519.Helpers.Reduce
/-!
# One row of a multiplication

The four unrolled bodies add the products of one row into the accumulator,
each through three adjacent bytes, and hand a pending bit to the byte after
them. `MulAt` is the invariant of the inner loop: the accumulator and the
pending bit, at its place, hold the row's start and the products so far.
-/

namespace C64X25519

open Machine

variable {B : Build} {s t : Machine} {a b d : FieldBuf B.mem} {i j k x : ℕ} {u : Body}

/-! ## The patched operands of a row -/

/-- The operands of the inner loop in row `i`: the bytes of the second
operand, and the accumulator from `i` and from `i + 1`. -/
structure MulOps (B : Build) (b : FieldBuf B.mem) (i : ℕ) (s : Machine) : Prop where
  src2 : ∀ u, s.op (.ldySrc2 u) = b.addr
  ld1 : ∀ u x, s.zpx (.accumLd1 u) x = B.wideAt (i + x)
  st1 : ∀ u x, s.zpx (.accumSt1 u) x = B.wideAt (i + x)
  ld2 : ∀ u x, s.zpx (.accumLd2 u) x = B.wideAt (i + 1 + x)
  st2 : ∀ u x, s.zpx (.accumSt2 u) x = B.wideAt (i + 1 + x)
  ldc : ∀ u x, s.zpx (.chainLd u) x = B.wideAt (i + 1 + x)
  stc : ∀ u x, s.zpx (.chainSt u) x = B.wideAt (i + 1 + x)

theorem MulOps.inZp {S : List Slot} (h : MulOps B b i s) (hz : InZp B S s t) :
    MulOps B b i t := by
  have hx : ∀ y x, t.zpx y x = s.zpx y x := fun y x => by rw [zpx, zpx, hz.opLo]
  exact ⟨fun u => (hz.op _).trans (h.src2 u), fun u x => (hx _ _).trans (h.ld1 u x),
    fun u x => (hx _ _).trans (h.st1 u x), fun u x => (hx _ _).trans (h.ld2 u x),
    fun u x => (hx _ _).trans (h.st2 u x), fun u x => (hx _ _).trans (h.ldc u x),
    fun u x => (hx _ _).trans (h.stc u x)⟩

/-- The staged entry of a byte of the second operand. -/
def staged (B : Build) (s : Machine) (y : Byte) : ℕ :=
  (s.ram (B.mem.mulDmaLo + y.toNat)).toNat + 256 * (s.ram (B.mem.mulDmaHi + y.toNat)).toNat

/-! ## One body -/

/-- The pending bit as a number. -/
def pending (B : Build) (s : Machine) : ℕ := (s.zp (B.slot .mulPending)).toNat

/-- **The accumulation of one product.** The accumulator and the carry the
body combines with the pending bit, two places on, have gained the product
and the pending bit. -/
theorem mulAccum_spec {w : Inner} (ho : MulOps B b i w.s) (hc : w.c = false)
    (hx : i + w.x + 1 < 64) (hp : pending B w.s ≤ 1) :
    (mulAccum B u w).2.wide B 64 + 256 ^ (i + w.x + 2) * (mulAccum B u w).1.toNat
        = w.s.wide B 64 + 256 ^ (i + w.x + 2) * pending B w.s
          + 256 ^ (i + w.x) * staged B w.s (w.s.ram (b.addr + w.x)) ∧
      (mulAccum B u w).1.toNat ≤ 2 ∧ InZp B [.feWide] w.s (mulAccum B u w).2 := by
  obtain ⟨x, c, s⟩ := w
  subst hc
  simp only at *
  set y := s.ram (b.addr + x) with hy
  set lo := s.ram (B.mem.mulDmaLo + y.toNat) with hlo
  set hi := s.ram (B.mem.mulDmaHi + y.toNat) with hhi
  set w1 := adcWide B (i + x) lo (false, s) with hw1
  have hz1 : InZp B [.feWide] s w1.2 := (InZp.refl s).adcWide (by simp) (by omega)
  set w2 := adcWide B (i + x + 1) hi w1 with hw2
  have hz2 : InZp B [.feWide] s w2.2 := hz1.adcWide (by simp) (by omega)
  have heq : mulAccum B u ⟨x, false, s⟩
      = ((adc (adc 0 0 w2.1).1 (w2.2.zp (B.slot .mulPending)) false).1, w2.2) := by
    have ho1 := ho.inZp hz1
    have h1 : s.setZp (B.wideAt (i + x)) (adc (s.zp (B.wideAt (i + x))) lo false).1 = w1.2 := rfl
    simp only [mulAccum, ho.src2, ho.ld1, ho.st1, ← hy, ← hlo, h1, ho1.ld2, ho1.st2, hz1.ram,
      ← hhi, add_right_comm i 1 x]
    rfl
  have hpend : (w2.2.zp (B.slot .mulPending)).toNat = pending B s := by
    rw [hz2.slot (by simp), pending]
  have hcar := carry_le w2.1
  have hsum : (adc (adc 0 0 w2.1).1 (w2.2.zp (B.slot .mulPending)) false).1.toNat
      = w2.1.toNat + pending B s := by
    rw [adc_fst_of_lt, adc_zero_fst, hpend]
    · rfl
    · rw [adc_zero_fst, hpend]
      change _ + _ + 0 < 256
      omega
  have hpair := (adcPair_spec (B := B) (s := s) lo hi (show i + x + 1 < 64 by omega)).1
  rw [← hw1, ← hw2] at hpair
  rw [heq]
  refine ⟨?_, by simp only [hsum]; omega, hz2⟩
  simp only [hsum, staged, ← hlo, ← hhi, mul_add] at hpair ⊢
  omega

/-- **The chain step.** The combined carry goes into the third byte, and
what it carries is the new pending bit. -/
theorem mulChain_spec {a : Byte} (ho : MulOps B b i s) (hx : i + 1 + x < 64) :
    (mulChain B u a x s).s.wide B 64 + 256 ^ (i + 1 + x + 1) * pending B (mulChain B u a x s).s
        = s.wide B 64 + 256 ^ (i + 1 + x) * a.toNat ∧
      pending B (mulChain B u a x s).s ≤ 1 ∧ (mulChain B u a x s).x = x ∧
      (mulChain B u a x s).c = false ∧
      InZp B [.mulPending, .feWide] s (mulChain B u a x s).s := by
  have hadc : ∀ m : Byte, adc a m false = adc m a false := fun m => by
    simp only [adc, Nat.add_comm a.toNat m.toNat]
  simp only [mulChain, ho.ldc, ho.stc, hadc]
  set w := adcWide B (i + 1 + x) a (false, s) with hw
  have hz : InZp B [.mulPending, .feWide] s w.2 := (InZp.refl s).adcWide (by simp) hx
  have h1 : s.setZp (B.wideAt (i + 1 + x)) (adc (s.zp (B.wideAt (i + 1 + x))) a false).1 = w.2 :=
    rfl
  have h2 : (adc (s.zp (B.wideAt (i + 1 + x))) a false).2 = w.1 := rfl
  rw [h1, h2]
  have hp : pending B (w.2.setZp (B.slot .mulPending) (adc 0 0 w.1).1) = w.1.toNat := by
    rw [pending, setZp_zp_self, adc_zero_fst]
  have e := adcWide_spec (B := B) (u := (false, s)) (v := a) (k := i + 1 + x) (n := 64) hx le_rfl
  rw [← hw] at e
  refine ⟨?_, ?_, trivial, ?_, hz.setSlot (by simp)⟩
  · rw [hp, wide_setSlot (by decide) le_rfl]
    exact e
  · rw [hp]
    exact carry_le _
  · cases w.1 <;> rfl

/-! ## The inner loop -/

/-- What the rows of the inner loop rely on: the operands of row `i`, the
bound of the guard, and the staged products of `A` at the bytes of the
second operand. -/
structure RowReady (B : Build) (b : FieldBuf B.mem) (i A : ℕ) (s : Machine) : Prop where
  ops : MulOps B b i s
  bound : (s.zp (B.slot .mulBound)).toNat = 63 - i
  entry : ∀ j, j < 32 → staged B s (s.ram (b.addr + j)) = A * (s.ram (b.addr + j)).toNat

theorem RowReady.inZp {A : ℕ} (h : RowReady B b i A s)
    (hz : InZp B [.mulPending, .feWide] s t) : RowReady B b i A t := by
  refine ⟨h.ops.inZp hz, ?_, fun j hj => ?_⟩
  · rw [hz.slot (by simp)]
    exact h.bound
  · rw [staged, hz.ram]
    exact h.entry j hj

/-- The invariant of the inner loop, after the products of `j` bytes of the
second operand from the row's start `s`. -/
structure MulAt (B : Build) (b : FieldBuf B.mem) (i A : ℕ) (s : Machine) (j : ℕ) (t : Inner) :
    Prop where
  cursor : t.x = j
  inZp : InZp B [.mulPending, .feWide] s t.s
  value : t.s.wide B 64 + 256 ^ (i + j + 2) * pending B t.s
    = s.wide B 64 + 256 ^ i * (A * leNat (fun k => s.ram (b.addr + k)) j)
  bit : pending B t.s ≤ 1

variable {A : ℕ} {w : Inner}

/-- The products so far, after one more. -/
theorem mulAccum_at (hr : RowReady B b i A s) (h : MulAt B b i A s j w) (hc : w.c = false)
    (hj : j < 32) (hi : i < 32) :
    (mulAccum B u w).2.wide B 64 + 256 ^ (i + j + 2) * (mulAccum B u w).1.toNat
        = s.wide B 64 + 256 ^ i * (A * leNat (fun k => s.ram (b.addr + k)) (j + 1)) ∧
      (mulAccum B u w).1.toNat ≤ 2 ∧ InZp B [.feWide] w.s (mulAccum B u w).2 := by
  have hx := h.cursor
  obtain ⟨hv, ha, hz⟩ := mulAccum_spec (u := u) (hr.ops.inZp h.inZp) hc (by omega) h.bit
  refine ⟨?_, ha, hz⟩
  have hentry : staged B w.s (w.s.ram (b.addr + w.x)) = A * (s.ram (b.addr + j)).toNat := by
    rw [staged, h.inZp.ram, hx]
    exact hr.entry j hj
  rw [hx] at hv
  rw [hx] at hentry
  rw [hv, hentry, h.value, leNat_succ, pow_add]
  ring

/-- Bodies A, B and C, and D short of its guard. -/
theorem mulChain_at (hr : RowReady B b i A s) (h : MulAt B b i A s j w) (hc : w.c = false)
    (hj : j < 32) (hi : i < 32) (hk : i + j + 2 < 64) :
    MulAt B b i A s (j + 1) (mulChain B u (mulAccum B u w).1 (w.x + 1) (mulAccum B u w).2) ∧
      (mulChain B u (mulAccum B u w).1 (w.x + 1) (mulAccum B u w).2).c = false := by
  obtain ⟨hv, -, hz⟩ := mulAccum_at (u := u) hr h hc hj hi
  have hz' : InZp B [.mulPending, .feWide] s (mulAccum B u w).2 :=
    h.inZp.trans (hz.mono (by simp))
  obtain ⟨hv', hbit, hcur, hcar, hzc⟩ := mulChain_spec (u := u) (a := (mulAccum B u w).1)
    (x := w.x + 1) (hr.ops.inZp hz') (by have := h.cursor; omega)
  refine ⟨⟨hcur.trans (by rw [h.cursor]), hz'.trans hzc, ?_, hbit⟩, hcar⟩
  rw [h.cursor] at hv'
  rw [show i + (j + 1) + 2 = i + 1 + (j + 1) + 1 by omega, h.cursor, hv',
    show i + 1 + (j + 1) = i + j + 2 by omega, hv]

theorem mulBody_at (hr : RowReady B b i A s) (h : MulAt B b i A s j w) (hc : w.c = false)
    (hj : j < 32) (hi : i < 32) (hk : i + j + 2 < 64) :
    MulAt B b i A s (j + 1) (mulBody B u w) ∧ (mulBody B u w).c = false :=
  mulChain_at hr h hc hj hi hk

/-- What the guard of body D drops: past the bound — the last byte of the last
row — the combined carry is zero, because what the row has added so far is
below `256 ^ 64`. -/
theorem mulGuard_zero (hr : RowReady B b i A s) (h : MulAt B b i A s j w) (hc : w.c = false)
    (hj : j < 32) (hi : i < 32) (hk : i + j + 2 = 64)
    (hlt : s.wide B 64 + 256 ^ i * (A * leNat (fun k => s.ram (b.addr + k)) (j + 1)) < 256 ^ 64) :
    (mulAccum B u w).1 = 0 := by
  have hv := (mulAccum_at (u := u) hr h hc hj hi).1
  rw [hk] at hv
  refine BitVec.eq_of_toNat_eq ?_
  change (mulAccum B u w).1.toNat = 0
  by_contra hne
  have hge : 256 ^ 64 ≤ 256 ^ 64 * (mulAccum B u w).1.toNat :=
    Nat.le_mul_of_pos_right _ (Nat.pos_of_ne_zero hne)
  omega

/-- Body D, on either side of its guard. -/
theorem mulBodyD_at (hr : RowReady B b i A s) (h : MulAt B b i A s j w) (hc : w.c = false)
    (hj : j < 32) (hi : i < 32)
    (hlt : s.wide B 64 + 256 ^ i * (A * leNat (fun k => s.ram (b.addr + k)) (j + 1)) < 256 ^ 64) :
    MulAt B b i A s (j + 1) (mulBodyD B w) := by
  obtain ⟨hv, -, hz⟩ := mulAccum_at (u := .d) hr h hc hj hi
  have hz' : InZp B [.mulPending, .feWide] s (mulAccum B .d w).2 :=
    h.inZp.trans (hz.mono (by simp))
  have hbound : ((mulAccum B .d w).2.zp (B.slot .mulBound)).toNat = 63 - i := by
    rw [hz'.slot (by simp)]
    exact hr.bound
  rw [mulBodyD]
  simp only [hbound, h.cursor]
  split
  · have hzero := mulGuard_zero (u := .d) hr h hc hj hi (by omega) hlt
    have hp : pending B ((mulAccum B .d w).2.setZp (B.slot .mulPending) 0) = 0 := by
      rw [pending, setZp_zp_self]
      rfl
    refine ⟨rfl, hz'.setSlot (by simp), ?_, by rw [hp]; omega⟩
    rw [hp, wide_setSlot (by decide) le_rfl, mul_zero, add_zero, ← hv, hzero,
      show (0 : Byte).toNat = 0 from rfl, mul_zero, add_zero]
  · have hk := mulChain_at (u := .d) hr h hc hj hi (by omega)
    rw [h.cursor] at hk
    exact hk.1

/-! ## Body by body -/

/-- The copy of the body that takes byte `k`. -/
def bodyAt (k : ℕ) : Body :=
  match k % 4 with
  | 0 => .a
  | 1 => .b
  | 2 => .c
  | _ => .d

/-- The body at byte `k`, with the comparison of the cursor behind copy D. -/
def mulStep (B : Build) (k : ℕ) (t : Inner) : Inner :=
  match bodyAt k with
  | .d =>
      let t := mulBodyD B t
      ⟨t.x, decide (32 ≤ t.x), t.s⟩
  | u => mulBody B u t

/-- A row after the bodies of its first `k` bytes. -/
def mulBodies (B : Build) (t : Inner) (k : ℕ) : Inner := loopUp (mulStep B) k t

@[simp] theorem mulBodies_zero (t : Inner) : mulBodies B t 0 = t := by rw [mulBodies, loopUp_zero]

theorem mulBodies_succ (t : Inner) (k : ℕ) :
    mulBodies B t (k + 1) = mulStep B k (mulBodies B t k) := by
  rw [mulBodies, loopUp_succ, mulBodies]

/-- One pass of `@mul_inner` is four bodies. -/
theorem mulInner_bodies (t : Inner) (k : ℕ) : mulInner B (mulBodies B t (4 * k))
    = (mulBodies B t (4 * (k + 1)), !decide (32 ≤ (mulBodies B t (4 * (k + 1))).x)) := by
  have hcopy : bodyAt (4 * k) = .a ∧ bodyAt (4 * k + 1) = .b ∧ bodyAt (4 * k + 2) = .c ∧
      bodyAt (4 * k + 3) = .d := by
    simp [bodyAt]
  obtain ⟨ha, hb, hc, hd⟩ := hcopy
  rw [show 4 * (k + 1) = 4 * k + 3 + 1 by omega, mulBodies_succ, mulBodies_succ, mulBodies_succ,
    mulBodies_succ]
  simp only [mulStep, ha, hb, hc, hd, mulInner]

theorem mulStep_at (hr : RowReady B b i A s) (h : MulAt B b i A s j w) (hc : w.c = false)
    (hj : j < 32) (hi : i < 32)
    (hlt : s.wide B 64 + 256 ^ i * (A * leNat (fun k => s.ram (b.addr + k)) (j + 1)) < 256 ^ 64) :
    MulAt B b i A s (j + 1) (mulStep B j w) ∧ (j + 1 < 32 → (mulStep B j w).c = false) := by
  rw [mulStep]
  split
  · have hd := mulBodyD_at hr h hc hj hi hlt
    exact ⟨⟨hd.cursor, hd.inZp, hd.value, hd.bit⟩, fun h32 => decide_eq_false (by
      rw [hd.cursor]
      omega)⟩
  · next hne =>
    have hk : i + j + 2 < 64 := by
      rcases Nat.lt_or_ge (i + j + 2) 64 with hlt' | hge
      · exact hlt'
      · obtain rfl : j = 31 := by omega
        exact absurd rfl hne
    exact (mulBody_at hr h hc hj hi hk).imp_right fun h _ => h

/-- **The bodies of a row**: after those of `k` bytes the accumulator and the
pending carry are what the row has added so far. -/
theorem mulBodies_at (hr : RowReady B b i A s) (hp : pending B s = 0) (hi : i < 32)
    (hlt : s.wide B 64 + 256 ^ i * (A * s.fe b.addr) < 256 ^ 64) {k : ℕ} (hk : k ≤ 32) :
    MulAt B b i A s k (mulBodies B ⟨0, false, s⟩ k) ∧
      (k < 32 → (mulBodies B ⟨0, false, s⟩ k).c = false) := by
  induction k with
  | zero =>
    rw [mulBodies_zero]
    exact ⟨⟨rfl, InZp.refl s, by simp [hp], by rw [hp]; omega⟩, fun _ => rfl⟩
  | succ k ih =>
    obtain ⟨hat, hc⟩ := ih (by omega)
    have hle : leNat (fun k => s.ram (b.addr + k)) (k + 1) ≤ s.fe b.addr := leNat_mono (by omega)
    have hle' := Nat.mul_le_mul_left (256 ^ i) (Nat.mul_le_mul_left A hle)
    rw [mulBodies_succ]
    exact mulStep_at hr hat (hc (by omega)) (by omega) hi (by omega)

/-- **The inner loop** is the bodies of 32 bytes. -/
theorem mulInner_eq (hr : RowReady B b i A s) (hp : pending B s = 0) (hi : i < 32)
    (hlt : s.wide B 64 + 256 ^ i * (A * s.fe b.addr) < 256 ^ 64) :
    doWhile (mulInner B) 0x100 ⟨0, false, s⟩ = mulBodies B ⟨0, false, s⟩ 32 :=
  doWhile_inv (N := 8) (fun k w => w = mulBodies B ⟨0, false, s⟩ (4 * k))
    (mulBodies_zero _).symm (by omega) (by omega) fun k hk w hw => by
      rw [hw, mulInner_bodies]
      refine ⟨rfl, ?_⟩
      rw [(mulBodies_at hr hp hi hlt (k := 4 * (k + 1)) (by omega)).1.cursor, ← decide_not]
      exact decide_eq_decide.2 (by omega)

end C64X25519
