import C64X25519.Helpers.Mul
import C64X25519.Model.Sqr
/-!
# One row of a squaring

Both engines add the doubled product of `a[i]` and one later byte, a 17-bit
number, through three adjacent bytes, and keep a pending bit for the byte
after them. `SqrAt` is the invariant they share. The sum so far is stated
with the products below the diagonal on the other side, so that the rows
telescope into a square.
-/

namespace C64X25519

open Machine

variable {B : Build} {s t : Machine} {a : FieldBuf B.mem} {i j k x : ℕ} {u : Body} {v : Byte}

/-! ## What a body changes -/

/-- The slots a body of either engine works in. -/
def sqrSlots : List Slot := [.feWide, .mulCarry, .feMulJ, .feSqrPairs]

/-- And the variables. -/
def sqrVars : List Var := [.sqrTmpB, .sqrMask, .polyProdLo, .polyProdHi, .sqrPending]

/-- From `s` to `t` at most the pages of the sum, `sqrSlots` and `sqrVars`
have changed. -/
structure SqrStep (B : Build) (s t : Machine) : Prop where
  ram : t.ram = s.ram
  opLo : t.opLo = s.opLo
  tramp : t.tramp = s.tramp
  reu : t.reu = s.reu
  flagI : t.flagI = s.flagI
  zp : ∀ a, (∀ x ∈ sqrSlots, ¬ B.span x a) → t.zp a = s.zp a
  var : ∀ x ∉ sqrVars, t.var x = s.var x

namespace SqrStep

variable {w : Machine} {y : Slot} {z : Var}

theorem refl (s : Machine) : SqrStep B s s :=
  ⟨rfl, rfl, rfl, rfl, rfl, fun _ _ => rfl, fun _ _ => rfl⟩

theorem trans (h : SqrStep B s t) (h' : SqrStep B t w) : SqrStep B s w where
  ram := h'.ram.trans h.ram
  opLo := h'.opLo.trans h.opLo
  tramp := h'.tramp.trans h.tramp
  reu := h'.reu.trans h.reu
  flagI := h'.flagI.trans h.flagI
  zp a ha := (h'.zp a ha).trans (h.zp a ha)
  var x hx := (h'.var x hx).trans (h.var x hx)

theorem inZp {S : List Slot} (hS : S ⊆ sqrSlots) (h : SqrStep B s t) (hz : InZp B S t w) :
    SqrStep B s w where
  ram := hz.ram.trans h.ram
  opLo := hz.opLo.trans h.opLo
  tramp := by rw [hz.rest]; exact h.tramp
  reu := hz.reu.trans h.reu
  flagI := by rw [hz.rest]; exact h.flagI
  zp a ha := (hz.zp a fun x hx => ha x (hS hx)).trans (h.zp a ha)
  var x hx := by rw [hz.var]; exact h.var x hx

theorem setSlot (hy : y ∈ sqrSlots) (h : SqrStep B s t) : SqrStep B s (t.setZp (B.slot y) v) :=
  h.inZp (S := [y]) (by simpa using hy) ((InZp.refl t).setSlot (by simp))

theorem setWide (hk : k < 64) (h : SqrStep B s t) : SqrStep B s (t.setZp (B.wideAt k) v) :=
  h.inZp (S := [.feWide]) (by decide) ((InZp.refl t).setWide (by simp) hk)

theorem setVar (hz : z ∈ sqrVars) (h : SqrStep B s t) : SqrStep B s (t.setVar z v) where
  ram := h.ram
  opLo := h.opLo
  tramp := h.tramp
  reu := h.reu
  flagI := h.flagI
  zp := h.zp
  var x hx := by
    rw [← h.var x hx]
    refine Function.update_of_ne ?_ _ _
    rintro rfl
    exact hx hz

theorem patchHi {l : List Site} (h : SqrStep B s t) : SqrStep B s (t.patchHi l v) :=
  ⟨h.ram, h.opLo, h.tramp, h.reu, h.flagI, h.zp, h.var⟩

theorem slot (h : SqrStep B s t) (hy : y ∉ sqrSlots) : t.zp (B.slot y) = s.zp (B.slot y) :=
  h.zp _ fun x hx => Build.not_span (x := x) (y := y) (i := 0) (fun he => hy (he ▸ hx)) y.size_pos

theorem zpx (h : SqrStep B s t) (z : Site) (x : ℕ) : t.zpx z x = s.zpx z x := by
  rw [Machine.zpx, Machine.zpx, h.opLo]

theorem sqtab (h : SqrStep B s t) (hs : Sqtab B s) : Sqtab B t :=
  ⟨by rw [h.ram]; exact hs.lo, by rw [h.ram]; exact hs.hi⟩

theorem frame {D : ℕ → Prop} (h : SqrStep B s t) : Frame B D s t where
  ram a _ := congrFun h.ram a
  zp a ha := h.zp a fun x hx => ha x ((by decide : ∀ x ∈ sqrSlots, x.work = true) x hx)
  var x hx := h.var x fun hm => by
    rw [(by decide : ∀ x ∈ sqrVars, x.work = true) x hm] at hx
    cases hx
  flagI := h.flagI
  mem := by rw [h.reu]
  live := by rw [h.reu]

end SqrStep

/-! ## The patched operands of a row -/

/-- The operands of one copy of a body in row `i`, in either engine: the two
bytes of a product from `i` and `i + 1`, the chain from `i + 1`. -/
structure RowOps (B : Build) (i : ℕ) (ld1 st1 ld2 st2 ldc stc : Site) (s : Machine) : Prop where
  ld1 : ∀ x, s.zpx ld1 x = B.wideAt (i + x)
  st1 : ∀ x, s.zpx st1 x = B.wideAt (i + x)
  ld2 : ∀ x, s.zpx ld2 x = B.wideAt (i + 1 + x)
  st2 : ∀ x, s.zpx st2 x = B.wideAt (i + 1 + x)
  ldc : ∀ x, s.zpx ldc x = B.wideAt (i + 1 + x)
  stc : ∀ x, s.zpx stc x = B.wideAt (i + 1 + x)

theorem RowOps.step {ld1 st1 ld2 st2 ldc stc : Site}
    (h : RowOps B i ld1 st1 ld2 st2 ldc stc s) (hs : SqrStep B s t) :
    RowOps B i ld1 st1 ld2 st2 ldc stc t :=
  ⟨fun x => (hs.zpx _ _).trans (h.ld1 x), fun x => (hs.zpx _ _).trans (h.st1 x),
    fun x => (hs.zpx _ _).trans (h.ld2 x), fun x => (hs.zpx _ _).trans (h.st2 x),
    fun x => (hs.zpx _ _).trans (h.ldc x), fun x => (hs.zpx _ _).trans (h.stc x)⟩

/-! ## The sum of a row -/

/-- The pending bit as a number. -/
def sqrPend (s : Machine) : ℕ := (s.var .sqrPending).toNat

/-- The number of the first `x` bytes of the operand's copy. -/
def copyNat (B : Build) (s : Machine) (x : ℕ) : ℕ := leNat (fun k => s.ram (B.mem.mulSrc2Buf + k)) x

/-- The row from `s`, with the doubled products of `A` up to the byte before
`x` added and the number `c` owed two bytes past `x`: the products below the
diagonal stand on the left. -/
structure RowSum (B : Build) (i A : ℕ) (s : Machine) (x c : ℕ) (t : Machine) : Prop where
  step : SqrStep B s t
  value : t.wide B 64 + 256 ^ (i + x + 1) * c + 256 ^ i * (2 * A * copyNat B s (i + 1))
    = s.wide B 64 + 256 ^ i * (2 * A * copyNat B s x)

/-- The invariant of the inner loops: what is owed is the pending bit, one
byte further on. -/
structure SqrAt (B : Build) (i A : ℕ) (s : Machine) (x : ℕ) (t : Machine) : Prop where
  sum : RowSum B i A s x (256 * sqrPend t) t
  bit : sqrPend t ≤ 1

/-- **The accumulation of one doubled product** `lo + 256 hi + 65536 cy`, in
either engine: the accumulator, and the combined carry at the third byte. -/
theorem sqrAdd_at {A : ℕ} {lo hi cy : Byte} (h : SqrAt B i A s x t) (hx : i + x + 1 < 64)
    (hprod : lo.toNat + 256 * hi.toNat + 65536 * cy.toNat
      = 2 * A * (s.ram (B.mem.mulSrc2Buf + x)).toNat) (hcy : cy.toNat ≤ 1)
    {w : Machine} (hw : SqrStep B t w) (hwide : w.wide B 64 = t.wide B 64)
    (hpend : w.var .sqrPending = t.var .sqrPending) :
    ∀ q, q = adcWide B (i + x + 1) hi (adcWide B (i + x) lo (false, w)) →
      RowSum B i A s (x + 1)
          (adc (adc 0 cy q.1).1 (w.var .sqrPending) false).1.toNat q.2 ∧
        (adc (adc 0 cy q.1).1 (w.var .sqrPending) false).1.toNat ≤ 3 := by
  rintro q rfl
  obtain ⟨hpair, hz⟩ := adcPair_spec (B := B) (s := w) lo hi hx
  set q := adcWide B (i + x + 1) hi (adcWide B (i + x) lo (false, w)) with hq
  have hc := carry_le q.1
  have hbit := h.bit
  have h1 : (adc 0 cy q.1).1.toNat = cy.toNat + q.1.toNat := by
    rw [adc_fst_of_lt]
    · change 0 + _ + _ = _
      omega
    · change 0 + _ + _ < 256
      omega
  have h2 : (adc (adc 0 cy q.1).1 (w.var .sqrPending) false).1.toNat
      = cy.toNat + q.1.toNat + sqrPend t := by
    rw [hpend, adc_fst_of_lt, h1]
    · rfl
    · rw [h1]
      change _ + sqrPend t + 0 < 256
      omega
  refine ⟨⟨h.sum.step.trans (hw.inZp (by decide) hz), ?_⟩, by rw [h2]; omega⟩
  have hv := h.sum.value
  rw [h2, show i + (x + 1) + 1 = i + x + 2 by omega]
  simp only [copyNat, leNat_succ] at hv ⊢
  rw [hwide] at hpair
  have hprod' : 256 ^ i * (2 * A * ((s.ram (B.mem.mulSrc2Buf + x)).toNat * 256 ^ x))
      = 256 ^ (i + x) * (lo.toNat + 256 * hi.toNat + 65536 * cy.toNat) := by
    rw [hprod, pow_add]
    ring
  simp only [pow_succ] at hpair hv ⊢
  linarith

/-- **The chain step** of either engine. -/
theorem sqrChain_at {A : ℕ} {ld1 st1 ld2 st2 ldc stc : Site} {v : Byte}
    (h : RowSum B i A s x v.toNat t) (ho : RowOps B i ld1 st1 ld2 st2 ldc stc s)
    (hx : i + x + 1 < 64) :
    SqrAt B i A s x (sqrChain ldc stc v x t) := by
  have hadc : ∀ m : Byte, adc v m false = adc m v false := fun m => by
    simp only [adc, Nat.add_comm v.toNat m.toNat]
  have ht := ho.step h.step
  simp only [sqrChain, ht.ldc, ht.stc, hadc, show i + 1 + x = i + x + 1 by omega]
  set w := adcWide B (i + x + 1) v (false, t) with hw
  have h1 : t.setZp (B.wideAt (i + x + 1)) (adc (t.zp (B.wideAt (i + x + 1))) v false).1 = w.2 :=
    rfl
  have h2 : (adc (t.zp (B.wideAt (i + x + 1))) v false).2 = w.1 := rfl
  rw [h1, h2]
  have hp : sqrPend (w.2.setVar .sqrPending (adc 0 0 w.1).1) = w.1.toNat := by
    rw [sqrPend, setVar_var, Function.update_self, adc_zero_fst]
  have e := adcWide_spec (B := B) (u := (false, t)) (v := v) (k := i + x + 1) (n := 64) hx le_rfl
  rw [← hw] at e
  refine ⟨⟨(h.step.inZp (S := [.feWide]) (by decide)
    ((InZp.refl t).adcWide (by simp) hx)).setVar (by decide), ?_⟩, ?_⟩
  · rw [hp, ← h.value, show (w.2.setVar .sqrPending (adc 0 0 w.1).1).wide B 64 = w.2.wide B 64
      from rfl]
    simp only [Bool.toNat_false, add_zero, pow_succ] at e ⊢
    linarith
  · rw [hp]
    exact carry_le _

/-- Nothing owed: the chain step stores back what it reads, wherever it
reads it, and no bit is pending. -/
theorem sqrChain_zero {ldc stc : Site} (hsite : t.zpx stc x = t.zpx ldc x) :
    sqrChain ldc stc 0 x t = t.setVar .sqrPending 0 := by
  have hadc : ∀ m : Byte, adc 0 m false = (m, false) := by decide
  simp only [sqrChain, hadc, hsite]
  rw [setZp, Function.update_eq_self]

theorem sqrZero_at {A : ℕ} {v : Byte} (h : RowSum B i A s x v.toNat t) (hv : v = 0) :
    SqrAt B i A s x (t.setVar .sqrPending 0) := by
  have hp : sqrPend (t.setVar .sqrPending 0) = 0 := by
    rw [sqrPend, setVar_var, Function.update_self]
    rfl
  refine ⟨⟨h.step.setVar (by decide), ?_⟩, by rw [hp]; omega⟩
  rw [hp, ← h.value, hv, show (0 : Byte).toNat = 0 from rfl]
  rfl

/-- **Nothing is owed past the last byte** of the accumulator: the combined
carry of weight `256 ^ 64` is zero, by the magnitude of the sum. -/
theorem RowSum.owes_nothing {A : ℕ} {v : Byte} (h : RowSum B i A s (x + 1) v.toNat t)
    (hx : i + x + 2 = 64)
    (hlt : s.wide B 64 + 256 ^ i * (2 * A * copyNat B s (x + 1))
      < 256 ^ 64 + 256 ^ i * (2 * A * copyNat B s (i + 1))) : v = 0 := by
  have hv := h.value
  rw [show i + (x + 1) + 1 = 64 by omega] at hv
  refine BitVec.eq_of_toNat_eq ?_
  change v.toNat = 0
  by_contra hne
  have hmul : 256 ^ 64 ≤ 256 ^ 64 * v.toNat := Nat.le_mul_of_pos_right _ (Nat.pos_of_ne_zero hne)
  omega

/-! ## The quarter-square engine -/

/-- **The product** of the cached byte and the byte of the copy at `x`. -/
theorem sqrProduct_spec (hs : Sqtab B s) :
    ((sqrProduct B u x s).var .polyProdLo).toNat
        + 256 * ((sqrProduct B u x s).var .polyProdHi).toNat
        = (s.var .mulCachedA).toNat * (s.ram (B.mem.mulSrc2Buf + x)).toNat ∧
      SqrStep B s (sqrProduct B u x s) ∧ (sqrProduct B u x s).zp = s.zp ∧
      (sqrProduct B u x s).var .sqrPending = s.var .sqrPending := by
  unfold sqrProduct
  extract_lets s1 diff s2 abs sum pl s3 ph s4 lo s5 hi
  set y := s.ram (B.mem.mulSrc2Buf + x) with hy
  set c := s.var .mulCachedA with hc
  have htmp : s1.var .sqrTmpB = y := by
    rw [show s1 = _ from rfl, setVar_var, Function.update_self]
  have hcached : s1.var .mulCachedA = c := by simp [s1, hc]
  have hdiff : diff = sbc y c true := by
    simp only [diff, htmp, hcached]
  have hmask : s2.var .sqrMask = (sbc 0 0 diff.2).1 := by simp [s2]
  have hdist : abs.1.toNat = Nat.dist c.toNat y.toNat := by
    rw [Nat.dist_comm, ← abs_diff, ← hdiff, ← sbc_zero_zero]
    simp only [abs, hmask]
  have hsum : sum.1.toNat + 256 * sum.2.toNat = c.toNat + y.toNat := by
    have h1 : s2.var .mulCachedA = c := by simp [s2, s1, hc]
    have h2 : s2.var .sqrTmpB = y := by simp [s2, s1, hy]
    have h := adc_val (s2.var .mulCachedA) (s2.var .sqrTmpB) false
    simp only [h1, h2] at h
    simp only [sum, h1, h2]
    exact h
  -- the pages of the sum
  obtain ⟨hlo, hpl1, -⟩ := hs.lo_sum (t := s4) (x := .ctSumLoadLo u) (r := pl) hsum (by omega) rfl
    (by simp [s4, s3]) rfl
  have hhi := hs.hi_sum (t := s5) (x := .ctSumLoadHi u) (r := pl) (m := 2) hsum (by omega) hpl1 rfl
    (by simp [s5, s4, ph]) rfl
  have hd := hs.dist (t := s4) hdist rfl
  have hlo' : lo = sbc (BitVec.ofNat 8 (quarter (c.toNat + y.toNat)))
      (BitVec.ofNat 8 (quarter (Nat.dist c.toNat y.toNat))) true := by
    simp only [lo, hlo, hd.1]
  have hhi' : hi = sbc (BitVec.ofNat 8 (quarter (c.toNat + y.toNat) / 0x100))
      (BitVec.ofNat 8 (quarter (Nat.dist c.toNat y.toNat) / 0x100)) lo.2 := by
    rw [← hhi, ← hd.2]
    rfl
  have hword := sbc_word (quarter_add c.toNat y.toNat) (quarter_sum_lt _ _)
  rw [← hlo', ← hhi'] at hword
  refine ⟨?_, ?_, ?_, ?_⟩
  · rw [← hword]
    simp [s5]
  · exact (((((SqrStep.refl s).setVar (by decide)).setVar (by decide)).patchHi.patchHi).setVar
      (by decide)).setVar (by decide)
  · simp [s5, s4, s3, s2, s1]
  · simp [s5, s4, s3, s2, s1]

/-- **The doubling**: 17 bits of the doubled product. -/
theorem sqrDouble_spec :
    ((sqrDouble B s).var .polyProdLo).toNat + 256 * ((sqrDouble B s).var .polyProdHi).toNat
        + 65536 * ((sqrDouble B s).zp (B.slot .mulCarry)).toNat
        = 2 * ((s.var .polyProdLo).toNat + 256 * (s.var .polyProdHi).toNat) ∧
      ((sqrDouble B s).zp (B.slot .mulCarry)).toNat ≤ 1 ∧ SqrStep B s (sqrDouble B s) ∧
      (sqrDouble B s).wide B 64 = s.wide B 64 ∧
      (sqrDouble B s).var .sqrPending = s.var .sqrPending ∧
      ∀ y ≠ .mulCarry, (sqrDouble B s).zp (B.slot y) = s.zp (B.slot y) := by
  unfold sqrDouble
  extract_lets lo s1 hi s2
  have h1 : lo.1.toNat + 256 * lo.2.toNat = 2 * (s.var .polyProdLo).toNat := asl_val _
  have hv : s1.var .polyProdHi = s.var .polyProdHi := by simp [s1]
  have h2 : hi.1.toNat + 256 * hi.2.toNat = 2 * (s.var .polyProdHi).toNat + lo.2.toNat := by
    have h := rol_val (s1.var .polyProdHi) lo.2
    rw [hv] at h
    simp only [hi, hv]
    exact h
  have hlo : s2.var .polyProdLo = lo.1 := by simp [s2, s1]
  have hhi : s2.var .polyProdHi = hi.1 := by simp [s2]
  refine ⟨?_, ?_, ?_, ?_, ?_, fun y hy => ?_⟩
  · rw [setZp_var, setZp_zp_self, adc_zero_fst, hlo, hhi]
    omega
  · rw [setZp_zp_self, adc_zero_fst]
    exact carry_le _
  · exact (((SqrStep.refl s).setVar (by decide)).setVar (by decide)).setSlot (by decide)
  · rw [wide_setSlot (by decide) le_rfl]
    rfl
  · simp [s2, s1]
  · rw [setZp_zp_slot hy]
    rfl

/-- What the quarter-square rows rely on. -/
structure TableRow (B : Build) (i A : ℕ) (s : Machine) : Prop where
  sqtab : Sqtab B s
  cached : (s.var .mulCachedA).toNat = A
  bound : (s.var .sqrBound).toNat = 63 - i
  ops : ∀ u, u = .a ∨ u = .b → RowOps B i (.sqrAccumLd1 u) (.sqrAccumSt1 u) (.sqrAccumLd2 u)
    (.sqrAccumSt2 u) (.sqrChainLd u) (.sqrChainSt u) s

/-- The accumulation of a body, as two additions into the accumulator and
the combination of their carry. -/
theorem sqrAccum_eq (ho : RowOps B i (.sqrAccumLd1 u) (.sqrAccumSt1 u) (.sqrAccumLd2 u)
    (.sqrAccumSt2 u) (.sqrChainLd u) (.sqrChainSt u) s) (hx : i + x + 1 < 64) :
    ∀ q, q = adcWide B (i + x + 1) (s.var .polyProdHi)
        (adcWide B (i + x) (s.var .polyProdLo) (false, s)) →
      sqrAccum B u x s
        = ((adc (adc 0 (s.zp (B.slot .mulCarry)) q.1).1 (s.var .sqrPending) false).1, q.2) := by
  rintro q hq
  have hzq : InZp B [.feWide] s q.2 := by
    rw [hq]
    exact (adcPair_spec _ _ hx).2
  have h1 : s.setZp (B.wideAt (i + x)) (adc (s.zp (B.wideAt (i + x))) (s.var .polyProdLo)
    false).1 = (adcWide B (i + x) (s.var .polyProdLo) (false, s)).2 := rfl
  have ho1 := ho.step ((SqrStep.refl s).setWide (k := i + x)
    (v := (adc (s.zp (B.wideAt (i + x))) (s.var .polyProdLo) false).1) (by omega))
  rw [h1] at ho1
  simp only [sqrAccum, ho.ld1, ho.st1, h1, ho1.ld2, ho1.st2, show i + 1 + x = i + x + 1 by omega]
  rw [← hzq.slot (y := .mulCarry) (by simp), hq]
  rfl

/-- The product, the doubling and the accumulation of one body. -/
theorem sqrAccum_at {A : ℕ} (hr : TableRow B i A s) (h : SqrAt B i A s x t) (hu : u = .a ∨ u = .b)
    (hx : i + x + 1 < 64) :
    RowSum B i A s (x + 1) (sqrAccum B u x (sqrDouble B (sqrProduct B u x t))).1.toNat
        (sqrAccum B u x (sqrDouble B (sqrProduct B u x t))).2 ∧
      (sqrAccum B u x (sqrDouble B (sqrProduct B u x t))).1.toNat ≤ 3 ∧
      ∀ y, y ≠ .mulCarry → y ≠ .feWide →
        (sqrDouble B (sqrProduct B u x t)).zp (B.slot y) = t.zp (B.slot y) ∧
        (sqrAccum B u x (sqrDouble B (sqrProduct B u x t))).2.zp (B.slot y)
          = t.zp (B.slot y) := by
  obtain ⟨hprod, hst1, hz1, hp1⟩ := sqrProduct_spec (u := u) (x := x) (h.sum.step.sqtab hr.sqtab)
  obtain ⟨hdbl, hcy, hst2, hwide2, hp2, hj2⟩ := sqrDouble_spec (B := B) (s := sqrProduct B u x t)
  have hcached : t.var .mulCachedA = s.var .mulCachedA := h.sum.step.var _ (by decide)
  rw [hprod, hcached, hr.cached, congrFun h.sum.step.ram] at hdbl
  have hstep := hst1.trans hst2
  have hj : ∀ y ≠ .mulCarry, (sqrDouble B (sqrProduct B u x t)).zp (B.slot y) = t.zp (B.slot y) :=
    fun y hy => (hj2 y hy).trans (congrFun hz1 _)
  obtain ⟨hsum, hle⟩ := sqrAdd_at h hx (by rw [hdbl]; ring) hcy hstep
    (hwide2.trans (wide_congr hz1)) (hp2.trans hp1) _ rfl
  rw [sqrAccum_eq ((hr.ops u hu).step (h.sum.step.trans hstep)) hx _ rfl]
  exact ⟨hsum, hle, fun y h1 h2 =>
    ⟨hj y h1, ((adcPair_spec _ _ hx).2.slot (by simpa using h2)).trans (hj y h1)⟩⟩

theorem SqrAt.setSlot {A : ℕ} {y : Slot} (h : SqrAt B i A s x t) (hy : y ∈ sqrSlots)
    (hw : y ≠ .feWide) : SqrAt B i A s x (t.setZp (B.slot y) v) where
  sum := ⟨h.sum.step.setSlot hy, by
    rw [wide_setSlot hw le_rfl]
    exact h.sum.value⟩
  bit := h.bit

/-- The cursor in `fe_mul_j`. -/
def sqrCursor (B : Build) (s : Machine) : ℕ := (s.zp (B.slot .feMulJ)).toNat

theorem incMulJ_cursor (h : sqrCursor B s = x) (hx : x < 255) :
    sqrCursor B (incMulJ B s) = x + 1 := by
  rw [incMulJ, sqrCursor, setZp_zp_self]
  exact toNat_add_one h hx

theorem sqrChain_slot {ldc stc : Site} {y : Slot} (hk : k < 64) (hs : t.zpx stc x = B.wideAt k)
    (hy : y ≠ .feWide) : (sqrChain ldc stc v x t).zp (B.slot y) = t.zp (B.slot y) := by
  simp only [sqrChain, setVar_zp, hs]
  exact setWide_zp_slot hk hy

theorem sqrBodyA_at {A : ℕ} (hr : TableRow B i A s) (h : SqrAt B i A s x t)
    (hj : sqrCursor B t = x) (hx : i + x + 2 < 64) :
    SqrAt B i A s (x + 1) (sqrBodyA B t) ∧ sqrCursor B (sqrBodyA B t) = x + 1 ∧
      (sqrBodyA B t).zp (B.slot .feSqrPairs) = t.zp (B.slot .feSqrPairs) := by
  obtain ⟨hsum, -, hslot⟩ := sqrAccum_at (u := .a) hr h (.inl rfl) (by omega)
  obtain ⟨hj1, hj2⟩ := hslot .feMulJ (by decide) (by decide)
  have hops := hr.ops .a (.inl rfl)
  have hchain := sqrChain_at hsum hops (by omega)
  have hbody : sqrBodyA B t = incMulJ B (sqrChain (.sqrChainLd .a) (.sqrChainSt .a)
      (sqrAccum B .a x (sqrDouble B (sqrProduct B .a x t))).1 (x + 1)
      (sqrAccum B .a x (sqrDouble B (sqrProduct B .a x t))).2) := by
    rw [sqrCursor] at hj
    simp only [sqrBodyA, hj, hj1]
  have hkeep : ∀ y ≠ .feWide, (sqrChain (.sqrChainLd .a) (.sqrChainSt .a)
      (sqrAccum B .a x (sqrDouble B (sqrProduct B .a x t))).1 (x + 1)
      (sqrAccum B .a x (sqrDouble B (sqrProduct B .a x t))).2).zp (B.slot y)
        = (sqrAccum B .a x (sqrDouble B (sqrProduct B .a x t))).2.zp (B.slot y) :=
    fun y hy => sqrChain_slot (by omega) ((hops.step hsum.step).stc (x + 1)) hy
  rw [hbody]
  refine ⟨hchain.setSlot (by decide) (by decide), incMulJ_cursor ?_ (by omega), ?_⟩
  · rw [sqrCursor, hkeep _ (by decide), hj2]
    exact hj
  · rw [incMulJ, setZp_zp_slot (by decide), hkeep _ (by decide),
      (hslot .feSqrPairs (by decide) (by decide)).2]

/-- Body B. Past the bound — the guard byte of row 30 — the combined carry
it drops is zero, by the magnitude of the sum. -/
theorem sqrBodyB_at {A : ℕ} (hr : TableRow B i A s) (h : SqrAt B i A s x t)
    (hj : sqrCursor B t = x) (hx : i + x + 1 < 64)
    (hlt : s.wide B 64 + 256 ^ i * (2 * A * copyNat B s (x + 1))
      < 256 ^ 64 + 256 ^ i * (2 * A * copyNat B s (i + 1))) :
    SqrAt B i A s (x + 1) (sqrBodyB B t).2 ∧ sqrCursor B (sqrBodyB B t).2 = x + 1 ∧
      (sqrBodyB B t).2.zp (B.slot .feSqrPairs) = t.zp (B.slot .feSqrPairs) := by
  obtain ⟨hsum, -, hslot⟩ := sqrAccum_at (u := .b) hr h (.inr rfl) hx
  obtain ⟨hj1, hj2⟩ := hslot .feMulJ (by decide) (by decide)
  have hp2 := (hslot .feSqrPairs (by decide) (by decide)).2
  have hops := hr.ops .b (.inr rfl)
  set p := sqrAccum B .b x (sqrDouble B (sqrProduct B .b x t)) with hp
  have hbound : (p.2.var .sqrBound).toNat = 63 - i := by
    rw [hsum.step.var _ (by decide)]
    exact hr.bound
  have hbody : (sqrBodyB B t).2 = incMulJ B (if 63 - i ≤ x + 1 then p.2.setVar .sqrPending 0
      else sqrChain (.sqrChainLd .b) (.sqrChainSt .b) p.1 (x + 1) p.2) := by
    rw [sqrCursor] at hj
    simp only [sqrBodyB, hj, hj1, ← hp, hbound]
  rw [hbody]
  split
  · rename_i hge
    have hzero : p.1 = 0 := hsum.owes_nothing (by omega) hlt
    refine ⟨(sqrZero_at hsum hzero).setSlot (by decide) (by decide),
      incMulJ_cursor ?_ (by omega), ?_⟩
    · rw [sqrCursor, setVar_zp, hj2]
      exact hj
    · rw [incMulJ, setZp_zp_slot (by decide), setVar_zp, hp2]
  · have hkeep : ∀ y ≠ .feWide, (sqrChain (.sqrChainLd .b) (.sqrChainSt .b) p.1 (x + 1) p.2).zp
        (B.slot y) = p.2.zp (B.slot y) :=
      fun y hy => sqrChain_slot (by omega) ((hops.step hsum.step).stc (x + 1)) hy
    refine ⟨(sqrChain_at hsum hops (by omega)).setSlot (by decide) (by decide),
      incMulJ_cursor ?_ (by omega), ?_⟩
    · rw [sqrCursor, hkeep _ (by decide), hj2]
      exact hj
    · rw [incMulJ, setZp_zp_slot (by decide), hkeep _ (by decide), hp2]

end C64X25519
