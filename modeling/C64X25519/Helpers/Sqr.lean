import C64X25519.Helpers.DoubledRow
import C64X25519.Helpers.SqrInner
/-!
# The square of a field element

Whatever engine a row runs on, it leaves no bit pending, and the rows sum
to twice the products above the diagonal. The diagonal completes the
square. The sum is compared with the square throughout, so that neither
part has to be named.
-/

namespace C64X25519

open Machine

variable {B : Build} {s t : Machine} {a d : FieldBuf B.mem} {i k A : ℕ} {v : Byte}

/-! ## The engine of a row -/

theorem staging_work {x : ℕ} (h : B.mem.staging x) : B.mem.work x := .inl h

/-- What choosing the engine of row `i` leaves: the trampoline, and for the
rows of the doubled tables the staged row and the operands of its products. -/
structure Selected (B : Build) (i : ℕ) (v : Byte) (s t : Machine) : Prop where
  frame : Frame B B.mem.staging s t
  zp : t.zp = s.zp
  var : ∀ x : Var, x.settle = false → t.var x = s.var x
  engine : t.tramp = .sqrInner ∨ t.tramp = .sqrInnerDma ∧
    (∃ w, DoubledAt B v s w ∧ t.ram = w.ram) ∧
    ∀ u, u = .a ∨ u = .b →
      (t.opLo (.sqrDmaLd1 u)).toNat = B.slot .feWide + i ∧
      (t.opLo (.sqrDmaSt1 u)).toNat = B.slot .feWide + i ∧
      (t.opLo (.sqrDmaLd2 u)).toNat = B.slot .feWide + (i + 1) ∧
      (t.opLo (.sqrDmaSt2 u)).toNat = B.slot .feWide + (i + 1)

theorem sqrSelect_spec (hr : Ready B s) (hi : (s.zp (B.slot .feMulI)).toNat = i) (hlt : i < 32) :
    Selected B i (s.var .mulCachedA) s (sqrSelect B s) := by
  unfold sqrSelect
  split
  · rename_i hk
    have hon : B.onchip = false := by
      cases h : B.onchip
      · rfl
      · exact absurd (B.sqrDmaK_onchip h) hk.1
    have hrow := reuFetchDoubledRow_spec (hr.live hon) hk.1 (hr.doubled hk.1)
    set w := reuFetchDoubledRow B s with hw
    extract_lets s1 s2 l s3 m
    have hz : s2.zp = s.zp := hrow.zp
    obtain ⟨hl, hm, -⟩ := rowByte_spec (B := B) (y := s2.zp (B.slot .feMulI)) (by rw [hz]; exact hi)
      hlt
    refine ⟨hrow.frame.setTramp.patchLo.patchLo, hz, hrow.var, .inr ⟨rfl, ⟨w, hrow, rfl⟩, ?_⟩⟩
    change l.1.toNat = _ at hl
    change m.1.toNat = _ at hm
    clear_value l m
    rintro u (rfl | rfl)
    all_goals simp [s3, hl, hm, Nat.add_assoc]
  · exact ⟨(Frame.refl s).setTramp, rfl, fun _ _ => rfl, .inl rfl⟩

/-! ## The head of a row -/

/-- What the head of row `i` leaves. -/
structure RowHead (B : Build) (i : ℕ) (v : Byte) (s t : Machine) : Prop where
  frame : Frame B B.mem.staging s t
  index : (t.zp (B.slot .feMulI)).toNat = i
  wide : t.wide B 64 = s.wide B 64
  pend : sqrPend t = 0
  cursor : sqrCursor B t = i + 1
  pairs : (t.zp (B.slot .feSqrPairs)).toNat = sqrPairs i
  engine : (t.tramp = .sqrInner ∧ TableRow B i v.toNat t) ∨
    (t.tramp = .sqrInnerDma ∧ DmaRow B i v.toNat t)

theorem RowOps.congr {ld1 st1 ld2 st2 ldc stc : Site} (h : RowOps B i ld1 st1 ld2 st2 ldc stc s)
    (ho : t.opLo = s.opLo) : RowOps B i ld1 st1 ld2 st2 ldc stc t := by
  obtain ⟨h1, h2, h3, h4, h5, h6⟩ := h
  simp only [zpx, ← ho] at h1 h2 h3 h4 h5 h6
  exact ⟨h1, h2, h3, h4, h5, h6⟩

/-- The patches both engines share: all six operands of the quarter-square
bodies, and the chain of the others. -/
theorem sqrPatch_spec {u : Body} (hi : (s.zp (B.slot .feMulI)).toNat = i) (hlt : i < 32)
    (hu : u = .a ∨ u = .b) :
    RowOps B i (.sqrAccumLd1 u) (.sqrAccumSt1 u) (.sqrAccumLd2 u) (.sqrAccumSt2 u)
        (.sqrChainLd u) (.sqrChainSt u) (sqrPatch B s) ∧
      ((s.opLo (.sqrDmaLd1 u)).toNat = B.slot .feWide + i →
        (s.opLo (.sqrDmaSt1 u)).toNat = B.slot .feWide + i →
        (s.opLo (.sqrDmaLd2 u)).toNat = B.slot .feWide + (i + 1) →
        (s.opLo (.sqrDmaSt2 u)).toNat = B.slot .feWide + (i + 1) →
        RowOps B i (.sqrDmaLd1 u) (.sqrDmaSt1 u) (.sqrDmaLd2 u) (.sqrDmaSt2 u)
          (.sqrDmaChainLd u) (.sqrDmaChainSt u) (sqrPatch B s)) := by
  obtain ⟨hl, hm, -⟩ := rowByte_spec (B := B) hi hlt
  unfold sqrPatch
  extract_lets l s1 m
  change l.1.toNat = _ at hl
  change m.1.toNat = _ at hm
  clear_value l m
  refine ⟨⟨zpx_of ?_, zpx_of ?_, zpx_of ?_, zpx_of ?_, zpx_of ?_, zpx_of ?_⟩,
    fun h1 h2 h3 h4 => ⟨zpx_of ?_, zpx_of ?_, zpx_of ?_, zpx_of ?_, zpx_of ?_, zpx_of ?_⟩⟩
  all_goals obtain rfl | rfl := hu
  all_goals simp [s1, *, Nat.add_assoc]

theorem sqrRow_spec (hr : Ready B s) (hi : (s.zp (B.slot .feMulI)).toNat = i) (hlt : i ≤ 30)
    (hv : s.ram (s.ptr B .fe25519Src1 + i) = v) : RowHead B i v s (sqrRow B s) := by
  unfold sqrRow
  extract_lets s1 s2 s3 s4 s5
  have hf2 : Frame B B.mem.staging s s2 := ((Frame.refl s).setVar rfl).setVar rfl
  have hcached : s2.var .mulCachedA = v := by
    rw [show s2.var .mulCachedA = s1.ram (s1.ptr B .fe25519Src1
      + (s1.zp (B.slot .feMulI)).toNat) by simp [s2], ← hv, ← hi]
    rfl
  have hpend2 : s2.var .sqrPending = 0 := by simp [s2, s1]
  have hsel := sqrSelect_spec (hr.work (hf2.mono fun _ => staging_work)) (s := s2) hi (by omega)
  rw [hcached] at hsel
  have hi3 : s3.zp (B.slot .feMulI) = s.zp (B.slot .feMulI) := congrFun hsel.zp _
  have hi4 : s4.zp (B.slot .feMulI) = s.zp (B.slot .feMulI) := by
    rw [show s4 = _ from rfl, setZp_zp_slot (by decide)]
    exact hi3
  have hi5 : s5.zp (B.slot .feMulI) = s.zp (B.slot .feMulI) := by
    rw [show s5 = _ from rfl, setZp_zp_slot (by decide)]
    exact hi4
  set t := (s5.setVar .sqrBound (sbc 63 (s5.zp (B.slot .feMulI)) true).1) with ht
  have hf : Frame B B.mem.staging s t :=
    ((((hf2.trans hsel.frame).patchLo.patchLo).setSlot rfl).setSlot rfl).setVar rfl
  have hops := fun {u} => sqrPatch_spec (B := B) (s := sqrSelect B s2) (i := i) (u := u)
    (by rw [hsel.zp]; exact hi) (by omega)
  refine ⟨?_, ?_, ?_, ?_, ?_, ?_, ?_⟩
  · exact hf
  · exact (congrArg BitVec.toNat hi5).trans hi
  · rw [show t.wide B 64 = s5.wide B 64 from rfl, show s5 = _ from rfl,
      wide_setSlot (by decide) le_rfl, show s4 = _ from rfl, wide_setSlot (by decide) le_rfl]
    exact wide_congr hsel.zp
  · rw [sqrPend, show t.var .sqrPending = (sqrSelect B s2).var .sqrPending by
      simp [ht, s5, s4, s3, sqrPatch], hsel.var _ rfl, hpend2]
    rfl
  · have hadc : (adc (s3.zp (B.slot .feMulI)) 1 false).1.toNat = i + 1 := by
      rw [hi3, adc_fst_of_lt, hi]
      · rfl
      · rw [hi]
        change i + 1 + 0 < 256
        omega
    rw [sqrCursor, show t.zp = s5.zp from rfl, show s5 = _ from rfl, setZp_zp_slot (by decide),
      show s4 = _ from rfl, setZp_zp_self]
    exact hadc
  · have hsub : (sbc 32 (s.zp (B.slot .feMulI)) true).1.toNat = 32 - i := by
      rw [sbc_fst_of_le (by rw [hi]; change i ≤ 32; omega), hi]
      rfl
    have hlsr := lsr_val (sbc 32 (s.zp (B.slot .feMulI)) true).1
    have hc' := carry_le (lsr (sbc 32 (s.zp (B.slot .feMulI)) true).1).2
    rw [show t.zp = s5.zp from rfl, show s5 = _ from rfl, setZp_zp_self, hi4, sqrPairs]
    omega
  · have hbound : (t.var .sqrBound).toNat = 63 - i := by
      rw [ht, setVar_var, Function.update_self, hi5,
        sbc_fst_of_le (by rw [hi]; change i ≤ 63; omega), hi]
      rfl
    have hcached' : (t.var .mulCachedA).toNat = v.toNat := by
      rw [show t.var .mulCachedA = (sqrSelect B s2).var .mulCachedA by
        simp [ht, s5, s4, s3, sqrPatch], hsel.var _ rfl, hcached]
    rcases hsel.engine with htr | ⟨htr, ⟨w, hw, hram⟩, hsites⟩
    · refine .inl ⟨htr, ⟨?_, hcached', hbound, fun u hu => ?_⟩⟩
      · exact (hr.work (hf.mono fun _ => staging_work)).sqtab
      · exact (hops hu).1.congr rfl
    · refine .inr ⟨htr, ⟨fun x _ => ?_, fun x _ => ?_, fun u hu => ?_⟩⟩
      · rw [show t.ram = w.ram from hram]
        exact hw.entry _
      · rw [show t.ram = w.ram from hram]
        exact hw.carry _
      · obtain ⟨h1, h2, h3, h4⟩ := hsites u hu
        exact ((hops hu).2 h1 h2 h3 h4).congr rfl

/-! ## A row -/

/-- The squares on the diagonal, of the first `n` bytes. -/
def diagonal (f : ℕ → Byte) (n : ℕ) : ℕ :=
  Radix.value 65536 (fun r => (f r).toNat * (f r).toNat) n

theorem diagonal_succ {f : ℕ → Byte} {n : ℕ} :
    diagonal f (n + 1) = diagonal f n + (f n).toNat * (f n).toNat * (256 ^ n * 256 ^ n) := by
  rw [diagonal, Radix.value_succ, ← mul_pow]
  rfl

/-- The rows before row `i`, from the state `s`: what they have summed,
compared with twice the operand times its first `i` bytes. -/
structure SqrInv (B : Build) (a : FieldBuf B.mem) (s : Machine) (i : ℕ) (t : Machine) : Prop where
  frame : Frame B B.mem.work s t
  index : (t.zp (B.slot .feMulI)).toNat = i
  copy : ∀ k, k < 32 → t.ram (B.mem.mulSrc2Buf + k) = s.ram (a.addr + k)
  value : t.wide B 64 + leNat (fun k => s.ram (a.addr + k)) i ^ 2
    + diagonal (fun k => s.ram (a.addr + k)) i
    = 2 * s.fe a.addr * leNat (fun k => s.ram (a.addr + k)) i

/-- Row `i` added to both sides. -/
theorem row_identity {W L D V y q : ℕ} (h : W + L ^ 2 + D = 2 * V * L) :
    W + q * (2 * y * V) + (L + y * q) ^ 2 + (D + y * y * (q * q))
      = 2 * V * (L + y * q) + q * (2 * y * (L + y * q)) := by
  calc W + q * (2 * y * V) + (L + y * q) ^ 2 + (D + y * y * (q * q))
      = (W + L ^ 2 + D) + q * (2 * y * V) + 2 * L * (y * q) + 2 * (y * y * (q * q)) := by ring
    _ = 2 * V * (L + y * q) + q * (2 * y * (L + y * q)) := by rw [h]; ring

/-- Twice the operand times its first `i` bytes. -/
theorem double_lt {f : ℕ → Byte} : 2 * leNat f 32 * leNat f (i + 1) < 256 ^ (i + 34) := by
  have h1 : leNat f 32 < 256 ^ 32 := leNat_lt
  have h2 : leNat f (i + 1) < 256 ^ (i + 1) := leNat_lt
  have hmul : leNat f 32 * leNat f (i + 1) < 256 ^ 32 * 256 ^ (i + 1) := Nat.mul_lt_mul'' h1 h2
  rw [← pow_add, show 32 + (i + 1) = i + 33 by omega] at hmul
  rw [mul_assoc, show i + 34 = i + 33 + 1 by omega, pow_succ]
  omega

/-- With no bit pending, the end-of-row ripple adds nothing. -/
theorem sqrRipple_spec {x : ℕ} (hp : sqrPend t = 0) :
    ∃ v, sqrRipple B (x, t) = t.setVar .sqrRippleStart v := by
  have hz : ∀ v, (t.setVar .sqrRippleStart v).var .sqrPending = 0 := fun v => by
    rw [setVar_var, Function.update_of_ne (by decide)]
    exact BitVec.eq_of_toNat_eq hp
  unfold sqrRipple
  extract_lets l start s1 n
  refine ⟨start.1, ?_⟩
  split
  · rfl
  · rw [show s1.var .sqrPending = 0 from hz _, ripple_zero]

theorem copy_not_staging {k : ℕ} (hk : k < 33) : ¬ B.mem.staging (B.mem.mulSrc2Buf + k) := by
  obtain ⟨⟨hds, -⟩, -⟩ := B.mem.regions_apart
  simp only [MemMap.staging, Apart, MemMap.mulSrc2Buf] at hds ⊢
  omega

/-- The head of row `i`, from the invariant. -/
theorem SqrInv.head (hr : Ready B s) (h1 : s.ptr B .fe25519Src1 = a.addr) (h : SqrInv B a s i t)
    (hi : i ≤ 30) : RowHead B i (s.ram (a.addr + i)) t (sqrRow B t) := by
  refine sqrRow_spec (hr.work h.frame) h.index hi ?_
  rw [h.frame.ptr rfl rfl, h1]
  exact h.frame.ram _ (B.mem.not_work (a.span_add (by omega)))

/-- The copy in the state a row runs in. -/
theorem SqrInv.copyNat (hr : Ready B s) (h : SqrInv B a s i t) {u : Machine}
    (hf : Frame B B.mem.staging t u) :
    (∀ x, x ≤ 32 → copyNat B u x = leNat (fun k => s.ram (a.addr + k)) x) ∧
      copyNat B u 33 = s.fe a.addr := by
  have hbyte : ∀ k, k < 32 → u.ram (B.mem.mulSrc2Buf + k) = s.ram (a.addr + k) := fun k hk =>
    (hf.ram _ (copy_not_staging (by omega))).trans (h.copy k hk)
  have hguard : u.ram (B.mem.mulSrc2Buf + 32) = 0 :=
    (hf.ram _ (copy_not_staging (by omega))).trans (hr.work h.frame).guard
  have hle : ∀ x, x ≤ 32 → C64X25519.copyNat B u x = leNat (fun k => s.ram (a.addr + k)) x :=
    fun x hx => leNat_congr fun k hk => hbyte k (by omega)
  refine ⟨hle, ?_⟩
  rw [C64X25519.copyNat, leNat_succ, hguard, show (0 : Byte).toNat = 0 from rfl, zero_mul, add_zero]
  exact hle 32 le_rfl

/-- What a row of the squaring starts from: its head has chosen and readied an
engine, nothing is pending, and there is room for its products. -/
structure SqrStart (B : Build) (i A : ℕ) (t u : Machine) : Prop where
  engine : SqrEngine B i A u
  start : RowStart B i A u
  wide : u.wide B 64 = t.wide B 64
  frame : Frame B B.mem.staging t u
  index : (u.zp (B.slot .feMulI)).toNat = i

/-- The sum after one more row. -/
theorem SqrInv.next (h : SqrInv B a s i t) :
    t.wide B 64 + 256 ^ i * (2 * (s.ram (a.addr + i)).toNat * s.fe a.addr)
        + leNat (fun k => s.ram (a.addr + k)) (i + 1) ^ 2
        + diagonal (fun k => s.ram (a.addr + k)) (i + 1)
      = 2 * s.fe a.addr * leNat (fun k => s.ram (a.addr + k)) (i + 1)
        + 256 ^ i * (2 * (s.ram (a.addr + i)).toNat
          * leNat (fun k => s.ram (a.addr + k)) (i + 1)) := by
  have hid := row_identity (y := (s.ram (a.addr + i)).toNat) (q := 256 ^ i) h.value
  rw [diagonal_succ, leNat_succ]
  exact hid

theorem SqrInv.start (hr : Ready B s) (h1 : s.ptr B .fe25519Src1 = a.addr) (h : SqrInv B a s i t)
    (hi : i ≤ 30) : SqrStart B i (s.ram (a.addr + i)).toNat t (sqrRow B t) := by
  have hhead := h.head hr h1 hi
  obtain ⟨hcopy, hcopy33⟩ := h.copyNat hr hhead.frame
  have hid := h.next
  refine ⟨hhead.engine, ⟨hhead.pend, hhead.cursor, hhead.pairs, hi, ?_⟩, hhead.wide, hhead.frame,
    hhead.index⟩
  rw [hhead.wide, hcopy33, hcopy (i + 1) (by omega)]
  have hlt := double_lt (f := fun k => s.ram (a.addr + k)) (i := i)
  have hpow : 256 ^ (i + 34) ≤ 256 ^ 64 := Nat.pow_le_pow_right (by omega) (by omega)
  have hV : s.fe a.addr = leNat (fun k => s.ram (a.addr + k)) 32 := rfl
  rw [hV] at hid ⊢
  omega

/-- **The bit of a row is spent at its end**: the magnitude of the products so
far leaves nothing pending. -/
theorem SqrInv.spent (hr : Ready B s) (h : SqrInv B a s i t) (hi : i ≤ 30) {u : Machine}
    (hs : SqrStart B i (s.ram (a.addr + i)).toNat t u) :
    sqrPend (sqrBodies B (sqrHead B u) (2 * sqrPairs i)).2 = 0 ∧
      (sqrBodies B (sqrHead B u) (2 * sqrPairs i)).2.wide B 64
          + leNat (fun k => s.ram (a.addr + k)) (i + 1) ^ 2
          + diagonal (fun k => s.ram (a.addr + k)) (i + 1)
        = 2 * s.fe a.addr * leNat (fun k => s.ram (a.addr + k)) (i + 1) := by
  obtain ⟨hcopy, hcopy33⟩ := h.copyNat hr hs.frame
  have hat := (sqrBodies_at hs.engine hs.start (le_refl (2 * sqrPairs i))).at'
  set w := (sqrBodies B (sqrHead B u) (2 * sqrPairs i)).2 with hw
  have hid := h.next
  have hend : C64X25519.copyNat B u (i + 1 + 2 * sqrPairs i) = s.fe a.addr := by
    have hcases : i + 1 + 2 * sqrPairs i = 32 ∨ i + 1 + 2 * sqrPairs i = 33 := by
      simp only [sqrPairs]
      omega
    rcases hcases with he | he
    · rw [he]
      exact hcopy 32 le_rfl
    · rw [he]
      exact hcopy33
  have hval := hat.sum.value
  rw [hend, hs.wide, hcopy (i + 1) (by omega)] at hval
  have hV : s.fe a.addr = leNat (fun k => s.ram (a.addr + k)) 32 := rfl
  have hpend : sqrPend w = 0 := by
    by_contra hne
    have hexp : 256 ^ (i + 34) ≤ 256 ^ (i + (i + 1 + 2 * sqrPairs i) + 1) * 256 := by
      rw [← pow_succ]
      exact Nat.pow_le_pow_right (by omega) (by simp only [sqrPairs]; omega)
    have hge : 256 ^ (i + (i + 1 + 2 * sqrPairs i) + 1) * 256
        ≤ 256 ^ (i + (i + 1 + 2 * sqrPairs i) + 1) * (256 * sqrPend w) :=
      Nat.mul_le_mul_left _ (Nat.le_mul_of_pos_right _ (Nat.pos_of_ne_zero hne))
    have hlt := double_lt (f := fun k => s.ram (a.addr + k)) (i := i)
    rw [hV] at hid hval
    omega
  refine ⟨hpend, ?_⟩
  rw [hpend] at hval
  omega

/-- A row, from its bodies: the ripple finds nothing to do. -/
theorem SqrInv.outer (hr : Ready B s) (h : SqrInv B a s i t) (hi : i ≤ 30)
    (hs : SqrStart B i (s.ram (a.addr + i)).toNat t (sqrRow B t)) :
    ∃ v, sqrRipple B (sqrBodies B (sqrHead B (sqrRow B t)) (2 * sqrPairs i))
        = (sqrBodies B (sqrHead B (sqrRow B t)) (2 * sqrPairs i)).2.setVar .sqrRippleStart v ∧
      (sqrOuter B t).1 = ((sqrBodies B (sqrHead B (sqrRow B t)) (2 * sqrPairs i)).2.setVar
        .sqrRippleStart v).setZp (B.slot .feMulI)
          ((sqrBodies B (sqrHead B (sqrRow B t)) (2 * sqrPairs i)).2.zp (B.slot .feMulI) + 1) := by
  have hpend := (h.spent hr hi hs).1
  have heq := sqrInner_eq hs.engine hs.start
  rcases hw : sqrBodies B (sqrHead B (sqrRow B t)) (2 * sqrPairs i) with ⟨x, w⟩
  rw [hw] at hpend heq
  obtain ⟨v, hrip⟩ := sqrRipple_spec (B := B) (x := x) hpend
  refine ⟨v, hrip, ?_⟩
  simp only [sqrOuter, heq, hrip, setVar_zp]

/-- **One row of the squaring.** -/
theorem sqrOuter_spec (hr : Ready B s) (h1 : s.ptr B .fe25519Src1 = a.addr)
    (h : SqrInv B a s i t) (hi : i ≤ 30) :
    SqrInv B a s (i + 1) (sqrOuter B t).1 ∧ (sqrOuter B t).2 = decide (i + 1 < 31) := by
  have hs := h.start hr h1 hi
  obtain ⟨hpend, hval⟩ := h.spent hr hi hs
  obtain ⟨v, -, hout⟩ := h.outer hr hi hs
  have hstep := (sqrBodies_at hs.engine hs.start (le_refl (2 * sqrPairs i))).at'.sum.step
  set w := (sqrBodies B (sqrHead B (sqrRow B t)) (2 * sqrPairs i)).2 with hw
  have hidx : (w.zp (B.slot .feMulI)).toNat = i := by
    rw [hstep.slot (by decide)]
    exact hs.index
  have hidx' : ((sqrOuter B t).1.zp (B.slot .feMulI)).toNat = i + 1 := by
    rw [hout, setZp_zp_self]
    exact toNat_add_one hidx (by omega)
  have hframe : Frame B B.mem.staging t (sqrOuter B t).1 := by
    rw [hout]
    exact ((hs.frame.trans hstep.frame).setVar rfl).setSlot rfl
  refine ⟨⟨h.frame.trans (hframe.mono fun _ => staging_work), hidx', fun k hk => ?_, ?_⟩, ?_⟩
  · exact (hframe.ram _ (copy_not_staging (by omega))).trans (h.copy k hk)
  · rw [hout, wide_setSlot (by decide) le_rfl]
    exact hval
  · have hagain : (sqrOuter B t).2 = !cmp ((sqrOuter B t).1.zp (B.slot .feMulI)) 31 := rfl
    rw [hagain, cmp, hidx', ← decide_not]
    exact decide_eq_decide.2 not_le

/-! ## The diagonal -/

/-- The diagonal before its square `i`, from the state `s`: what is still
missing from the square of the operand. -/
structure DiagInv (B : Build) (a : FieldBuf B.mem) (s : Machine) (i : ℕ) (t : Machine) : Prop where
  frame : Frame B B.mem.work s t
  index : (t.zp (B.slot .feMulI)).toNat = i
  value : t.wide B 64 + diagonal (fun k => s.ram (a.addr + k)) 32
    = s.fe a.addr ^ 2 + diagonal (fun k => s.ram (a.addr + k)) i

theorem diagonal_mono {f : ℕ → Byte} {n m : ℕ} (h : n ≤ m) : diagonal f n ≤ diagonal f m := by
  obtain ⟨k, rfl⟩ := Nat.exists_eq_add_of_le h
  rw [diagonal, diagonal, Radix.value_split]
  exact Nat.le_add_right _ _

theorem square_bytes (y : Byte) : (sqrLo y).toNat + 256 * (sqrHi y).toNat = y.toNat * y.toNat := by
  have hle : y.toNat * y.toNat ≤ 255 * 255 := Nat.mul_le_mul (by omega) (by omega)
  rw [sqrLo, sqrHi, BitVec.toNat_ofNat, BitVec.toNat_ofNat]
  omega

/-- The carry of a square on its way up, from byte `x`: past the last byte
there is nothing to ripple into. -/
theorem diagRipple_spec {x : ℕ} {y : Byte} {c : Bool} (hy : y.toNat = x) (hx : x ≤ 64) :
    ∀ t, t = (if (sbc 64 y true).2 = false ∨ (sbc 64 y true).1 = 0 then s
        else ripple B x (sbc 64 y true).1.toNat (adc 0 0 c).1 s) →
      (∃ c' : Bool, t.wide B 64 + 256 ^ 64 * c'.toNat = s.wide B 64 + 256 ^ x * c.toNat) ∧
        InZp B [.feWide] s t := by
  rintro t rfl
  have hle : y.toNat ≤ (64 : Byte).toNat := hy.trans_le hx
  have hborrow : (sbc 64 y true).2 = true := sbc_snd_of_le hle
  have hn : (sbc 64 y true).1.toNat = 64 - x := by
    rw [sbc_fst_of_le hle, hy]
    rfl
  split
  · rename_i h
    obtain rfl : x = 64 := by
      have hzero : (sbc 64 y true).1 = 0 := h.resolve_left (by rw [hborrow]; decide)
      rw [hzero] at hn
      change 0 = 64 - x at hn
      omega
    exact ⟨⟨c, rfl⟩, InZp.refl s⟩
  · rename_i h
    have hpos : 0 < (sbc 64 y true).1.toNat := by
      by_contra hz
      exact h (.inr (BitVec.eq_of_toNat_eq (Nat.eq_zero_of_not_pos hz)))
    have hrip := ripple_spec (B := B) (s := s) (x := x) (m := 64) (a := (adc 0 0 c).1)
      (show x + (sbc 64 y true).1.toNat = 64 by omega) le_rfl hpos
    rw [adc_zero_fst] at hrip
    exact hrip

/-- **One square on**: it completes one more term of the diagonal, and the sum
leaves no carry, since the whole square fits the product. -/
theorem diag_value {f : ℕ → Byte} {N V W : ℕ} {c : Bool} (hi : i < 32) (hN : N < 256 ^ 32)
    (hvalue : V + diagonal f 32 = N ^ 2 + diagonal f i)
    (hsum : W + 256 ^ 64 * c.toNat = V + (f i).toNat * (f i).toNat * (256 ^ i * 256 ^ i)) :
    W + diagonal f 32 = N ^ 2 + diagonal f (i + 1) := by
  have hnext : V + (f i).toNat * (f i).toNat * (256 ^ i * 256 ^ i) + diagonal f 32
      = N ^ 2 + diagonal f (i + 1) := by
    have hd : diagonal f (i + 1) = diagonal f i
        + (f i).toNat * (f i).toNat * (256 ^ i * 256 ^ i) := diagonal_succ
    rw [hd, ← add_assoc, ← hvalue]
    ring
  have hlt : N ^ 2 < 256 ^ 64 := by
    rw [sq, show 256 ^ 64 = 256 ^ 32 * 256 ^ 32 by rw [← pow_add]]
    exact Nat.mul_lt_mul'' hN hN
  have hmono : diagonal f (i + 1) ≤ diagonal f 32 := diagonal_mono (by omega)
  have hcarry : c.toNat = 0 := by
    have hc := carry_le c
    omega
  rw [hcarry, mul_zero, add_zero] at hsum
  rw [hsum]
  exact hnext

/-- **One square of the diagonal.** What is still missing bounds the sum, so
the ripple carries nothing out. -/
theorem diagOuter_spec (h1 : s.ptr B .fe25519Src1 = a.addr) (h : DiagInv B a s i t) (hi : i < 32) :
    DiagInv B a s (i + 1) (diagOuter B t).1 ∧ (diagOuter B t).2 = decide (i + 1 < 32) := by
  have hbyte : t.ram (t.ptr B .fe25519Src1 + (t.zp (B.slot .feMulI)).toNat)
      = s.ram (a.addr + i) := by
    rw [h.index, h.frame.ptr rfl rfl, h1]
    exact h.frame.ram _ (B.mem.not_work (a.span_add hi))
  have hx : (asl (t.zp (B.slot .feMulI))).1.toNat = 2 * i := by
    have hasl := asl_val (t.zp (B.slot .feMulI))
    rw [h.index] at hasl
    have hlt := (asl (t.zp (B.slot .feMulI))).1.isLt
    omega
  have hvalue := h.value
  set f := fun k => s.ram (a.addr + k) with hf
  set y := s.ram (a.addr + i) with hy
  set s2 := (t.setVar .polyProdLo (sqrLo y)).setVar .polyProdHi (sqrHi y) with hs2
  -- the two bytes of the square
  set q := adcWide B (2 * i + 1) (sqrHi y) (adcWide B (2 * i) (sqrLo y) (false, s2)) with hq
  obtain ⟨hpair, hzq⟩ := adcPair_spec (B := B) (s := s2) (k := 2 * i) (sqrLo y) (sqrHi y) (by omega)
  rw [← hq, square_bytes] at hpair
  rw [← hq] at hzq
  set s6 := (q.2.setVar .sqrPending (adc 0 0 q.1).1).setVar .sqrRippleStart
    (BitVec.ofNat 8 (2 * i + 2)) with hs6
  -- the carry
  have hstart : (BitVec.ofNat 8 (2 * i + 2)).toNat = 2 * i + 2 := by
    rw [BitVec.toNat_ofNat]
    exact Nat.mod_eq_of_lt (by omega)
  obtain ⟨s7, hs7⟩ : ∃ u, u = (if (sbc 64 (BitVec.ofNat 8 (2 * i + 2)) true).2 = false ∨
      (sbc 64 (BitVec.ofNat 8 (2 * i + 2)) true).1 = 0 then s6
        else ripple B (2 * i + 2) (sbc 64 (BitVec.ofNat 8 (2 * i + 2)) true).1.toNat
          (adc 0 0 q.1).1 s6) := ⟨_, rfl⟩
  obtain ⟨⟨c, hrip⟩, hz7⟩ := diagRipple_spec hstart (by omega) s7 hs7
  have hout : (diagOuter B t).1 = s7.setZp (B.slot .feMulI) (s7.zp (B.slot .feMulI) + 1) := by
    have hlo : s2.var .polyProdLo = sqrLo y := by simp [hs2]
    have hhi : s2.var .polyProdHi = sqrHi y := by simp [hs2]
    have hx2 : (asl (s2.zp (B.slot .feMulI))).1.toNat = 2 * i := hx
    have hp6 : s6.var .sqrPending = (adc 0 0 q.1).1 := by simp [hs6]
    have hr6 : s6.var .sqrRippleStart = BitVec.ofNat 8 (2 * i + 2) := by simp [hs6]
    simp only [diagOuter, hbyte, ← hs2, hx2, hlo, setZp_var, hhi]
    rw [hs7, ← hp6, ← hr6]
    rfl
  have hidx : (s7.zp (B.slot .feMulI)).toNat = i := by
    rw [hz7.slot (by simp), show s6.zp = q.2.zp from rfl, hzq.slot (by simp)]
    exact h.index
  have hidx' : ((diagOuter B t).1.zp (B.slot .feMulI)).toNat = i + 1 := by
    rw [hout, setZp_zp_self]
    exact toNat_add_one hidx (by omega)
  have hsum : s7.wide B 64 + 256 ^ 64 * c.toNat
      = t.wide B 64 + y.toNat * y.toNat * (256 ^ i * 256 ^ i) := by
    have h6 : s6.wide B 64 = q.2.wide B 64 := rfl
    have h2 : s2.wide B 64 = t.wide B 64 := rfl
    rw [← pow_add, ← two_mul, mul_comm (_ * _), ← h2, ← hpair, hrip, h6]
  refine ⟨⟨?_, hidx', ?_⟩, ?_⟩
  · rw [hout]
    exact ((((((h.frame.setVar rfl).setVar rfl).trans (hzq.frame (by decide))).setVar rfl).setVar
      rfl).trans (hz7.frame (by decide))).setSlot rfl
  · rw [hout, wide_setSlot (by decide) le_rfl]
    exact diag_value hi leNat_lt hvalue hsum
  · have hagain : (diagOuter B t).2 = !cmp ((diagOuter B t).1.zp (B.slot .feMulI)) 32 := rfl
    rw [hagain, cmp, hidx', ← decide_not]
    exact decide_eq_decide.2 not_le

/-! ## The routine -/

/-- `fe25519_sqr` up to its loop over the rows. -/
def sqrEntry (B : Build) (s : Machine) : Machine :=
  let s := entryStores B s
  let s := reuClearWide B s
  let s := loopDown (fun y s =>
    s.setRam (B.mem.mulSrc2Buf + y) (s.ram (s.ptr B .fe25519Src1 + y))) 32 s
  s.setZp (B.slot .feMulI) 0

theorem sqrEntry_spec (h1 : s.ptr B .fe25519Src1 = a.addr) : SqrInv B a s 0 (sqrEntry B s) := by
  obtain ⟨hw, hfc⟩ := reuClearWide_spec (B := B) (D := B.mem.work) (entryStores B s)
  unfold sqrEntry
  set s1 := reuClearWide B (entryStores B s) with hs1
  have hf1 : Frame B B.mem.work s s1 := (entryStores_frame s).trans hfc
  -- the copy of the operand
  have hcopy := loopDown_store (B := B) (s := s1) (D := B.mem.work) (d := B.mem.mulSrc2Buf) (n := 32)
    (fun i => s.ram (a.addr + i))
    (fun y s => s.setRam (B.mem.mulSrc2Buf + y) (s.ram (s.ptr B .fe25519Src1 + y)))
    (fun k hk => .inr ⟨by omega, by omega⟩) ?_
  swap
  · intro k hk t hf hz hram
    have hread : t.ram (a.addr + k) = s.ram (a.addr + k) :=
      (hf1.trans hf).ram _ (B.mem.not_work (a.span_add hk))
    simp only [(hf1.trans hf).ptr (x := .fe25519Src1) rfl rfl, h1, hread]
  set s2 := loopDown (fun y (s : Machine) =>
    s.setRam (B.mem.mulSrc2Buf + y) (s.ram (s.ptr B .fe25519Src1 + y))) 32 s1 with hs2
  obtain ⟨hram2, hf2, hz2⟩ := hcopy
  refine ⟨(hf1.trans hf2).setSlot rfl, ?_, fun k hk => ?_, ?_⟩
  · rw [setZp_zp_self]
    rfl
  · rw [setZp_ram, hram2]
    exact blit_add (Nat.zero_le _) hk
  · rw [wide_setSlot (by decide) le_rfl, wide_congr hz2, hw]
    simp [diagonal]

/-- The state in which row `i` of a squaring begins. -/
def sqrTurn (B : Build) (s : Machine) (i : ℕ) : Machine :=
  (fun t => (sqrOuter B t).1)^[i] (sqrEntry B s)

theorem sqrTurn_succ : sqrTurn B s (i + 1) = (sqrOuter B (sqrTurn B s i)).1 :=
  Function.iterate_succ_apply' ..

/-- **The rows of a squaring.** -/
theorem sqrTurn_spec (hr : Ready B s) (h1 : s.ptr B .fe25519Src1 = a.addr) (hi : i ≤ 31) :
    SqrInv B a s i (sqrTurn B s i) := by
  induction i with
  | zero => exact sqrEntry_spec h1
  | succ i ih =>
    rw [sqrTurn_succ]
    exact (sqrOuter_spec hr h1 (ih (by omega)) (by omega)).1

theorem fe25519SqrWide_eq (hr : Ready B s) (h1 : s.ptr B .fe25519Src1 = a.addr) :
    fe25519SqrWide B s
      = doWhile (diagOuter B) 0x100 ((sqrTurn B s 31).setZp (B.slot .feMulI) 0) := by
  have hrows : doWhile (sqrOuter B) 0x100 (sqrEntry B s) = sqrTurn B s 31 :=
    doWhile_eq_iterate (N := 31) (by omega) (by omega) fun _ hk =>
      (sqrOuter_spec hr h1 (sqrTurn_spec hr h1 hk.le) (by omega)).2
  rw [← hrows]
  rfl

/-- The diagonal begins where the rows end. -/
theorem sqrTurn_diag (hr : Ready B s) (h1 : s.ptr B .fe25519Src1 = a.addr) :
    DiagInv B a s 0 ((sqrTurn B s 31).setZp (B.slot .feMulI) 0) := by
  have hrows := sqrTurn_spec hr h1 (le_refl 31)
  set s3 := sqrTurn B s 31 with hs3
  refine ⟨hrows.frame.setSlot rfl, ?_, ?_⟩
  · rw [setZp_zp_self]
    rfl
  · rw [wide_setSlot (by decide) le_rfl]
    have hval := hrows.value
    have hV : s.fe a.addr = leNat (fun k => s.ram (a.addr + k)) 31
        + (s.ram (a.addr + 31)).toNat * 256 ^ 31 := leNat_succ
    set f := fun k => s.ram (a.addr + k) with hf
    rw [diagonal_succ]
    change _ = 2 * _ * leNat f 31 at hval
    change _ = _ + (f 31).toNat * 256 ^ 31 at hV
    rw [hV] at hval ⊢
    simp only [diagonal, Radix.value_zero] at hval ⊢
    linarith

/-- **The square is exact** when the reduction begins, whichever engine each
row ran on. -/
theorem fe25519SqrWide_spec (hr : Ready B s) (h1 : s.ptr B .fe25519Src1 = a.addr) :
    (fe25519SqrWide B s).wide B 64 = s.fe a.addr ^ 2 ∧
      Frame B B.mem.work s (fe25519SqrWide B s) := by
  rw [fe25519SqrWide_eq hr h1]
  have hend : DiagInv B a s 32
      (doWhile (diagOuter B) 0x100 ((sqrTurn B s 31).setZp (B.slot .feMulI) 0)) :=
    doWhile_inv (N := 32) (DiagInv B a s) (sqrTurn_diag hr h1) (by omega) (by omega)
      fun k hk t ht => diagOuter_spec h1 ht hk
  exact ⟨Nat.add_right_cancel hend.value, hend.frame⟩

/-- **`fe25519_sqr`**, for any destination. -/
theorem fe25519Sqr_spec (hr : Ready B s) (h1 : s.ptr B .fe25519Src1 = a.addr)
    (hd : s.ptr B .fe25519Dst = d.addr) :
    (fe25519Sqr B s).fe d.addr = reduceWide (s.fe a.addr ^ 2) ∧
      Frame B d.dirty s (fe25519Sqr B s) := by
  obtain ⟨hw, hf⟩ := fe25519SqrWide_spec hr h1
  rw [← hw]
  exact copyReduced_spec hf hd

end C64X25519
