import C64X25519.Helpers.FieldTiming
import C64X25519.Helpers.RowsTiming
import C64X25519.Helpers.Reduce
import C64X25519.Model.MulAsm
/-!
# The timing of the accumulator

Cascades and ripples run a number of turns their caller sets, and the wide
reduction runs two cascades of a fixed length: what is carried decides
nothing.
-/

namespace C64X25519

open Machine

variable {B : Build} {L : Link} {s : Core} {d : FieldBuf B.mem} {l : Label} {c k n x : ℕ}

/-! ## Runs of the accumulator -/

/-- **The loop with X counting up, and Y down.** -/
theorem Spends.wideLoop (ops : List Op) {I : ℕ → Byte → Bool → Machine → Prop}
    (hx : s.x.toNat = x) (hy : s.y.toNat = n) (hn : 0 < n) (hle : x + n < 0x100)
    (h0 : I 0 s.a s.c s.m)
    (hstep : ∀ k, k < n → ∀ t : Core, t.x.toNat = x + k → I k t.a t.c t.m →
      let u := (cpu B L).exec ops t
      Straight B L ops c t ∧ u.x = t.x ∧ u.y = t.y ∧ I (k + 1) u.a u.c u.m) :
    Spends B L (.loop (.block (ops ++ [.inx, .dey])) (.bne l)) s (.tick (loopCycles L l n (c + 4)))
      fun t => I n t.a t.c t.m ∧ t.stack = s.stack := by
  refine ((Takes.loop (N := n) (b := fun _ => .tick (c + 4)) (I := fun k t => I k t.a t.c t.m ∧
    t.x.toNat = x + k ∧ t.y.toNat = n - k ∧ t.stack = s.stack) hn (show n ≤ 0x200 by omega)
    ⟨h0, hx, hy, rfl⟩ ?_).cast (loop_bill l n _)).mono fun t ht => ⟨ht.1, ht.2.2.2⟩
  rintro k hk t ⟨hI, htx, hty, hts⟩
  obtain ⟨hstr, hux, huy, hI'⟩ := hstep k hk t htx hI
  refine Takes.block ?_ ?_ ?_ ?_
  · rw [Isa.ready_append]
    exact ⟨ready_of_noPull hstr.noPull, ready_of_noPull rfl⟩
  · rw [Isa.exec_append]
    exact hstr.status
  · rw [Isa.cost_append, hstr.cost]
    rfl
  rw [Isa.exec_append]
  set u := (cpu B L).exec ops t
  have hx' : (u.x + 1).toNat = x + (k + 1) :=
    toNat_add_one (n := x + k) (by rw [hux, htx]) (by omega)
  have hy' : (u.y - 1).toNat = n - (k + 1) :=
    (toNat_sub_one (n := n - k - 1) (by rw [huy, hty]; omega)).trans (by omega)
  refine ⟨⟨hI', hx', hy', hstr.stack.trans hts⟩, ?_⟩
  change (u.y - 1 != 0) = _
  rw [bne_zero, hy']
  exact decide_eq_decide.2 (by omega)

theorem cascade_spends (hx : s.x.toNat = x) (hy : s.y.toNat = n) (hn : 0 < n)
    (hle : x + n < 0x100) :
    Spends B L (cascadeAsm l) s (.tick (loopCycles L l n 14)) fun t =>
      (t.c, t.m) = cascade B x n s.c s.m ∧ t.stack = s.stack := by
  refine Spends.wideLoop (c := 10) [.lda (.wideX 0), .adcImm 0, .sta (.wideX 0)]
    (I := fun k _ c m => (c, m) = cascade B x k s.c s.m) hx hy hn hle ?_ ?_
  · rw [cascade, loopUp_zero]
  · rintro k hk t htx hI
    refine ⟨.of_quiet rfl trivial rfl, rfl, rfl, ?_⟩
    rw [cascade, loopUp_succ, ← cascade, ← hI]
    simp [htx]

theorem ripple_spends (hx : s.x.toNat = x) (hy : s.y.toNat = n) (hn : 0 < n)
    (hle : x + n < 0x100) (hc : s.c = false) :
    Does B L (rippleAsm l) s (.tick (loopCycles L l n 14)) (ripple B x n s.a s.m) := by
  let body := fun k (t : Byte × Bool × Machine) =>
    let r := adc t.1 (t.2.2.zp (B.wideAt (x + k))) t.2.1
    ((0 : Byte), r.2, t.2.2.setZp (B.wideAt (x + k)) r.1)
  refine (Spends.wideLoop (c := 10) [.adc (.wideX 0), .sta (.wideX 0), .ldaImm 0]
    (I := fun k a c m => (a, c, m) = loopUp body k (s.a, false, s.m)) hx hy hn hle ?_ ?_).mono
    fun t ht => ⟨congrArg (fun r => r.2.2) ht.1, ht.2⟩
  · rw [loopUp_zero, hc]
  · rintro k hk t htx hI
    refine ⟨.of_quiet rfl trivial rfl, rfl, rfl, ?_⟩
    rw [loopUp_succ, ← hI]
    simp [htx, body]

/-! ## The end of an inner loop -/

/-- The cycles of a ripple of `n` bytes, with the branches around it, where
the pending byte costs `c` to load. -/
def rippleCycles (L : Link) (pastEq l : Label) (c n : ℕ) : ℕ :=
  4 + if n = 0 then 3 + (L.crosses pastEq).toNat else 2 + (c + 2 + loopCycles L l n 14)

/-- The ripple of a pending byte `p`, from the length in A on. -/
theorem rippleSkip_spends {p : Operand} {past pastEq : Label} (hc : s.c = true)
    (ha : s.a.toNat = n) (hx : s.x.toNat + n < 0x100) (hq : ∀ t, (Op.lda p).access B t = [])
    (hp : (Op.lda p).price = c) :
    Does B L (.skip (.bcc past) (.seqs
      [ .block [.tay],
        .skip (.beq pastEq) (.seqs [.block [.lda p, .clc], rippleAsm l]) ])) s
      (.tick (rippleCycles L pastEq l c n))
      (if n = 0 then s.m else ripple B s.x.toNat n (p.get B { s with y := s.a, nz := s.a }) s.m) := by
  have htest : (cpu B L).test (.bcc past) s = false := by
    change (!s.c) = false
    rw [hc]
    rfl
  refine (Takes.skip_through (b := .tick (2 + if n = 0 then 3 + (L.crosses pastEq).toNat
    else 2 + (c + 2 + loopCycles L l n 14))) htest ?_).cast ?_
  · refine Takes.seqTick (R := fun t => t = { s with y := s.a, nz := s.a })
      (Straight.spends ⟨rfl, rfl, rfl, rfl⟩ rfl) ?_
    rintro t rfl
    by_cases hn : n = 0
    · have hz : s.a = 0 := BitVec.eq_of_toNat_eq (ha.trans hn)
      rw [if_pos hn, if_pos hn]
      refine Takes.skip_taken ?_ ⟨rfl, rfl⟩
      change (s.a == 0) = true
      rw [hz]
      rfl
    · have hz : s.a ≠ 0 := fun h => hn (by rw [← ha, h]; rfl)
      rw [if_neg hn, if_neg hn]
      refine (Takes.skip_through (b := .tick (c + 2 + loopCycles L l n 14)) ?_ ?_).cast ?_
      · change (s.a == 0) = false
        exact beq_false_of_ne hz
      · refine Takes.seqTick (R := fun t => t.m = s.m ∧ t.x = s.x ∧ t.y = s.a ∧ t.c = false ∧
          t.a = p.get B { s with y := s.a, nz := s.a } ∧ t.stack = s.stack)
          (Straight.spends (.of_quiet rfl ?_ ?_) ⟨rfl, rfl, rfl, rfl, rfl, rfl⟩) ?_
        · simp only [accesses, hq]
          trivial
        · simp only [List.map_cons, List.map_nil, List.sum_cons, hp]
          rfl
        · rintro t ⟨htm, htx, hty, htc, hta, hts⟩
          refine (ripple_spends (x := s.x.toNat) (n := n) (by rw [htx]) (by rw [hty, ha])
            (by omega) hx htc).mono ?_
          rintro u ⟨hum, hus⟩
          refine ⟨?_, hus.trans hts⟩
          rw [hum, hta, htm]
      · simp only [Bill.tick_add_tick]
        congr 1
        change _ + 2 = _
        omega
  · simp only [Bill.tick_add_tick]
    congr 1
    change _ + 2 = _
    rw [rippleCycles]
    omega

/-- The start of a ripple, and its length. -/
theorem rippleStart_val {x i : Byte} {k : ℕ} (hk : x.toNat + i.toNat + 1 = k) (h64 : k ≤ 64) :
    (adc (adc x i false).1 1 false).1.toNat = k ∧
      (sbc 64 (adc (adc x i false).1 1 false).1 true).2 = true ∧
      (sbc 64 (adc (adc x i false).1 1 false).1 true).1.toNat = 64 - k := by
  have h1 : (adc x i false).1.toNat = x.toNat + i.toNat + 0 := adc_fst_of_lt (by
    change x.toNat + i.toNat + 0 < 256
    omega)
  have h2 : (adc (adc x i false).1 1 false).1.toNat = k := by
    rw [adc_fst_of_lt, h1]
    · exact hk
    · rw [h1]
      change _ + 1 + 0 < 256
      omega
  have hle : (adc (adc x i false).1 1 false).1.toNat ≤ (64 : Byte).toNat := by
    rw [h2]
    exact h64
  exact ⟨h2, sbc_snd_of_le hle, by rw [sbc_fst_of_le hle, h2]; rfl⟩

/-! ## The wide reduction -/

/-- What `fe_reduce_wide` costs. -/
def feReduceWideCycles (L : Link) : ℕ :=
  7 + (32 * 50 + (31 * (3 + (L.crosses .reduce1).toNat) + 2) + (29 + (loopCycles L .ucasc1 30 14 +
    (22 + loopCycles L .ucasc2 31 14))))

theorem table_within {t : Table} (ht : t ≠ .feP) (i : Byte) :
    Within (B.mem.data + t.offset) i.toNat := by
  have h := B.mem.data_aligned
  have h' := (B.mem.placed (B.mem.data, 0xb00) (by simp)).2.1
  simp only at h'
  cases t
  case feP => exact absurd rfl ht
  all_goals
    simp only [Table.offset]
    exact aligned_within (by omega) (by omega) i

/-- One turn of `@reduce1`. -/
theorem reduce1_spends (hk : s.x.toNat = k) (hk' : k < 32) :
    Spends B L (.block
      [ .ldy (.wideX 32), .clc, .lda (.table .mul38Lo), .adc (.slot .feCarry),
        .sta (.slot .feCarry), .lda (.table .mul38Hi), .adcImm 0, .sta (.slot .feMulJ),
        .clc, .lda (.wideX 0), .adc (.slot .feCarry), .sta (.wideX 0),
        .lda (.slot .feMulJ), .adcImm 0, .sta (.slot .feCarry), .inx, .cpxImm 32 ]) s (.tick 50)
      fun t => t.m = reduce1 B k s.m ∧ t.x.toNat = k + 1 ∧ (!t.c) = decide (k + 1 < 32) ∧
        t.stack = s.stack := by
  subst hk
  have hx : (s.x + 1).toNat = s.x.toNat + 1 := toNat_add_one rfl (by omega)
  refine Straight.spends (.of_quiet rfl (And.intro (table_within (by decide) _)
    (table_within (by decide) _)) (by simp)) ⟨?_, hx, ?_, rfl⟩
  · simp [reduce1, Table.byte]
  · change (!cmp (s.x + 1) 32) = _
    rw [cmp, hx, ← decide_not]
    exact decide_eq_decide.2 not_le

theorem reduceLoop_does (hx : s.x = 0) :
    Does B L (.loop (.block
      [ .ldy (.wideX 32), .clc, .lda (.table .mul38Lo), .adc (.slot .feCarry),
        .sta (.slot .feCarry), .lda (.table .mul38Hi), .adcImm 0, .sta (.slot .feMulJ),
        .clc, .lda (.wideX 0), .adc (.slot .feCarry), .sta (.wideX 0),
        .lda (.slot .feMulJ), .adcImm 0, .sta (.slot .feCarry), .inx, .cpxImm 32 ])
      (.bcc .reduce1)) s (.tick (32 * 50 + (31 * (3 + (L.crosses .reduce1).toNat) + 2)))
      (loopUp (reduce1 B) 32 s.m) := by
  refine ((Takes.loop (N := 32) (b := fun _ => .tick 50) (I := fun k t =>
    t.m = loopUp (reduce1 B) k s.m ∧ t.x.toNat = k ∧ t.stack = s.stack) (Nat.succ_pos _)
    (Nat.le_of_ble_eq_true rfl) ⟨by rw [loopUp_zero], by rw [hx]; rfl, rfl⟩ ?_).cast
    (loop_bill .reduce1 32 50)).mono fun t ht => ⟨ht.1, ht.2.2⟩
  rintro k hk t ⟨htm, htx, hts⟩
  refine (reduce1_spends htx hk).mono ?_
  rintro u ⟨hum, hux, htest, hus⟩
  exact ⟨⟨by rw [hum, htm, loopUp_succ], hux, hus.trans hts⟩, htest⟩

theorem feReduceWide_does :
    Does B L feReduceWideAsm s (.tick (feReduceWideCycles L)) (feReduceWide B s.m) := by
  unfold feReduceWideCycles
  set m0 := s.m.setZp (B.slot .feCarry) 0 with hm0
  refine Takes.seqTick (R := fun t => t.m = m0 ∧ t.x = 0 ∧ t.stack = s.stack)
    (Straight.spends ⟨rfl, rfl, rfl, rfl⟩ ⟨rfl, rfl, rfl⟩) ?_
  rintro t ⟨htm, htx, hts⟩
  refine Takes.seqTick (reduceLoop_does htx) ?_
  rintro u ⟨hum, hus⟩
  set y := u.m.zp (B.slot .feCarry) with hy
  set r := adc (u.m.zp (B.wideAt 0)) (mul38LoTab y) false with hr
  set m1 := u.m.setZp (B.wideAt 0) r.1 with hm1
  set q := adc (m1.zp (B.wideAt 1)) (mul38HiTab y) r.2 with hq
  refine Takes.seqTick (R := fun v => v.m = m1.setZp (B.wideAt 1) q.1 ∧ v.c = q.2 ∧ v.x = 2 ∧
      v.y = 30 ∧ v.stack = u.stack)
    (Straight.spends (.of_quiet rfl (And.intro (table_within (by decide) _)
      (table_within (by decide) _)) (by simp)) ⟨?_, ?_, rfl, rfl, rfl⟩) ?_
  · simp [Table.byte, hq, hm1, hr, hy]
  · simp [Table.byte, hq, hm1, hr, hy]
  rintro v ⟨hvm, hvc, hvx, hvy, hvs⟩
  refine Takes.seqTick (cascade_spends (x := 2) (n := 30) (by rw [hvx]; rfl) (by rw [hvy]; rfl)
    (by omega) (by omega)) ?_
  rintro w ⟨hw, hws⟩
  set y' := (adc 0 0 w.c).1 with hy'
  set r' := adc (w.m.zp (B.wideAt 0)) (mul38LoTab y') false with hr'
  refine Takes.seqTick (R := fun z => z.m = w.m.setZp (B.wideAt 0) r'.1 ∧ z.c = r'.2 ∧ z.x = 1 ∧
      z.y = 31 ∧ z.stack = w.stack)
    (Straight.spends (.of_quiet rfl (table_within (by decide) _) (by simp))
      ⟨rfl, rfl, rfl, rfl, rfl⟩) ?_
  rintro z ⟨hzm, hzc, hzx, hzy, hzs⟩
  refine (cascade_spends (x := 1) (n := 31) (by rw [hzx]; rfl) (by rw [hzy]; rfl)
    (by omega) (by omega)).mono ?_
  rintro o ⟨ho, hos⟩
  refine ⟨?_, ?_⟩
  · have hom := congrArg Prod.snd ho
    have hwm := congrArg Prod.snd hw
    have hwc := congrArg Prod.fst hw
    simp only at hom hwm hwc
    rw [hom, hzm, hzc, hr', hy', hwm, hwc, hvm, hvc, hq, hm1, hr, hy, hum, htm]
    rfl
  · rw [hos, hzs, hws, hvs, hus, hts]

/-! ## The copy of the result -/

/-- What the copy of the result costs. -/
def copyResultCycles (L : Link) (l : Label) : ℕ := 2 + loopCycles L l 32 12

theorem copyResult_does (hd : s.m.ptr B .fe25519Dst = d.addr) :
    Does B L (copyResultAsm l) s (.tick (copyResultCycles L l)) (copyResult B s.m) := by
  have hw := B.wide_span
  unfold copyResultCycles
  refine Takes.seqTick (R := fun t => t.m = s.m ∧ t.y = 31 ∧ t.stack = s.stack)
    (Straight.spends ⟨rfl, rfl, rfl, rfl⟩ ⟨rfl, rfl, rfl⟩) ?_
  rintro t ⟨htm, hty, hts⟩
  let body := fun y m => setRam (m.ptr B .fe25519Dst + y) (m.zp (B.wideAt y)) m
  refine (Spends.downLoop (N := 32) (n := 10) (K := fun _ => True)
    (I := fun k m => loopDown body k m = loopDown body 32 s.m ∧ m.ptr B .fe25519Dst = d.addr)
    (l := [.lda .wideY, .sta (.indY .fe25519Dst)]) countsDown_dey (Nat.succ_pos _)
    (by omega) (by rw [hty]; rfl) ⟨by rw [htm], by rw [htm]; exact hd⟩ trivial ?_).mono ?_
  · rintro _ hk u rfl - ⟨hI, hud⟩
    have hwd : Within (u.m.ptr B .fe25519Dst) u.y.toNat := indexed_ptr hud hk
    have hww : Within (B.slot .feWide) u.y.toNat := ⟨by omega, by omega⟩
    refine ⟨.of_quiet rfl hww rfl, rfl, ⟨?_, hud⟩, trivial⟩
    rw [← hI, loopDown_succ]
    simp [body, hwd.indexed]
  · rintro u ⟨⟨hum, -⟩, hus⟩
    refine ⟨?_, hus.trans hts⟩
    rw [loopDown_zero] at hum
    exact hum

end C64X25519
