import C64X25519.Helpers.MulA24
import C64X25519.Helpers.MulTiming
import C64X25519.Model.MulA24Asm
/-!
# The timing of the multiplication by the curve constant

Its rows and its fold are of a fixed length.
-/

namespace C64X25519

open Machine

variable {B : Build} {L : Link} {s : Core} {m : Machine} {a d : FieldBuf B.mem} {i k : ℕ}

/-! ## The rows -/

/-- The accumulation of a row, before its index is stored. -/
def a24Row (B : Build) (i : ℕ) (m : Machine) : Machine :=
  let y := m.ram (m.ptr B .fe25519Src1 + i)
  let t := adcWide B i (a24B0 y) (false, m)
  let t := adcWide B (i + 1) (a24B1 y) t
  let t := adcWide B (i + 2) (a24B2 y) t
  let t := adcWide B (i + 3) (a24B3 y) t
  let t := adcWide B (i + 4) 0 t
  (adcWide B (i + 5) 0 t).2

theorem a24Outer_row (hi : (m.zp (B.slot .feMulI)).toNat = i) :
    (a24Outer B m).1 = if i + 1 < 32 then (a24Row B i m).setZp (B.slot .feMulI)
      (BitVec.ofNat 8 (i + 1)) else a24Row B i m := by
  rw [a24Outer, hi]
  by_cases h : i + 1 < 32
  · rw [if_pos h, if_pos h]
    rfl
  · rw [if_neg h, if_neg h]
    rfl

/-- The state in which row `i` begins. -/
def a24Turn (B : Build) (s : Machine) (i : ℕ) : Machine :=
  (fun t => (a24Outer B t).1)^[i]
    ((loopDown (fun x s => s.setZp (B.wideAt x) 0) 37 (entryStores B s)).setZp (B.slot .feMulI) 0)

theorem a24Turn_succ : a24Turn B m (i + 1) = (a24Outer B (a24Turn B m i)).1 :=
  Function.iterate_succ_apply' ..

theorem a24Turn_spec (h1 : m.ptr B .fe25519Src1 = a.addr) (hi : i ≤ 32) :
    A24Inv B a m i (a24Turn B m i) := by
  induction i with
  | zero =>
    obtain ⟨hw, hin⟩ := clear_spec (B := B) (s := entryStores B m) (n := 37) (by omega) le_rfl
    refine ⟨((entryStores_frame m).trans (hin.frame (by decide))).setSlot rfl, fun _ => ?_, ?_⟩
    · rw [a24Turn, Function.iterate_zero, id, setZp_zp_self]
      rfl
    · rw [a24Turn, Function.iterate_zero, id, wide_setSlot (by decide) (by omega), hw]
      rfl
  | succ i ih =>
    rw [a24Turn_succ]
    exact (a24Outer_spec h1 (ih (by omega)) (by omega)).1

theorem fe25519MulA24Wide_eq (h1 : m.ptr B .fe25519Src1 = a.addr) :
    fe25519MulA24Wide B m = a24Turn B m 32 :=
  doWhile_eq_iterate (N := 32) (by omega) (by omega) fun _ hk =>
    (a24Outer_spec h1 (a24Turn_spec h1 hk.le) hk).2

/-- **A row**, with its index in X. -/
theorem a24Row_spends (hp : s.m.ptr B .fe25519Src1 = a.addr) (hx : s.x.toNat = i) (hi : i < 32) :
    Spends B L (.block a24OuterAsm) s (.tick 93) fun t =>
      t.m = a24Row B i (s.m.setZp (B.slot .feMulI) s.x) ∧ t.x.toNat = i + 1 ∧
        (!t.c) = decide (i + 1 < 32) ∧ t.stack = s.stack := by
  subst hx
  set m1 := s.m.setZp (B.slot .feMulI) s.x with hm1
  have hw : Within (s.m.ptr B .fe25519Src1) s.x.toNat := by
    rw [hp]
    exact a.within hi
  have hj : m1.zp (B.slot .feMulI) = s.x := setZp_zp_self
  have hw1 : Within (m1.ptr B .fe25519Src1) (m1.zp (B.slot .feMulI)).toNat := by
    rw [hj, hm1, ptr_setSlot rfl rfl rfl]
    exact hw
  have hadd : 1 + s.x.toNat = s.x.toNat + 1 ∧ 2 + s.x.toNat = s.x.toNat + 2 ∧
      3 + s.x.toNat = s.x.toNat + 3 ∧ 4 + s.x.toNat = s.x.toNat + 4 ∧
      5 + s.x.toNat = s.x.toNat + 5 := by omega
  obtain ⟨h1, h2, h3, h4, h5⟩ := hadd
  have hrow : Does B L (.block a24RowAsm) s (.tick 86) (a24Row B s.x.toNat m1) := by
    have hstr : Straight B L a24RowAsm 86 s :=
      .of_quiet rfl (And.intro hw1 (And.intro (table_within (by decide) _)
        (And.intro (table_within (by decide) _) (And.intro (table_within (by decide) _)
          (table_within (by decide) _))))) (by simp [a24RowAsm])
    have hread := hw1.indexed
    rw [hj] at hread
    refine hstr.spends ⟨?_, hstr.stack⟩
    simp [a24RowAsm, a24Row, adcWide, Table.byte, ← hm1, hj, hread, h1, h2, h3, h4, h5]
  have hin : InZp B [.feWide] m1 (a24Row B s.x.toNat m1) :=
    ((((((InZp.refl m1).adcWide (w := (false, m1)) (by simp) (by omega)).adcWide (by simp)
      (by omega)).adcWide (by simp) (by omega)).adcWide (by simp) (by omega)).adcWide (by simp)
      (by omega)).adcWide (by simp) (by omega)
  rw [a24OuterAsm]
  refine Takes.append (n := 7) hrow ?_
  rintro t ⟨htm, hts⟩
  have hx : t.m.zp (B.slot .feMulI) = s.x := by
    rw [htm, hin.slot (by simp), hm1, setZp_zp_self]
  have hx1 : (s.x + 1).toNat = s.x.toNat + 1 := toNat_add_one rfl (by omega)
  refine Straight.spends (.of_quiet rfl trivial rfl) ⟨htm, ?_, ?_, hts⟩
  · change (t.m.zp (B.slot .feMulI) + 1).toNat = _
    rw [hx, hx1]
  · change (!cmp (t.m.zp (B.slot .feMulI) + 1) 32) = _
    rw [hx, cmp, hx1, ← decide_not]
    exact decide_eq_decide.2 not_le

/-- What the rows of `fe25519_mul_a24` cost. -/
def a24OuterCycles (L : Link) : ℕ := 32 * 93 + (31 * (3 + (L.crosses .a24Outer).toNat) + 2)

/-- **The rows.** The index is stored at the head of a turn, where the
routine's model has it at the end of the turn before. -/
theorem a24Outer_does (h1 : m.ptr B .fe25519Src1 = a.addr) (hx : s.x = 0)
    (hm : s.m.setZp (B.slot .feMulI) 0 = a24Turn B m 0) :
    Does B L (.loop (.block a24OuterAsm) (.bcc .a24Outer)) s (.tick (a24OuterCycles L))
      (a24Turn B m 32) := by
  refine ((Takes.loop (N := 32) (b := fun _ => .tick 93) (I := fun i (t : Core) =>
    (if i < 32 then t.m.setZp (B.slot .feMulI) t.x else t.m) = a24Turn B m i ∧ t.x.toNat = i ∧
      t.stack = s.stack) (Nat.succ_pos _) (Nat.le_of_ble_eq_true rfl) ?_ ?_).cast
    (loop_bill .a24Outer 32 93)).mono fun t ht => ⟨ht.1, ht.2.2⟩
  · exact ⟨by rw [if_pos (by omega), hx, hm], by rw [hx]; rfl, rfl⟩
  rintro i hi t ⟨htm, htx, hts⟩
  rw [if_pos hi] at htm
  have hinv := a24Turn_spec h1 hi.le
  have hp : t.m.ptr B .fe25519Src1 = a.addr := by
    rw [← h1, ← hinv.frame.ptr rfl rfl, ← htm, ptr_setSlot rfl rfl rfl]
  refine (a24Row_spends hp htx hi).mono ?_
  rintro u ⟨hum, hux, hut, hus⟩
  refine ⟨⟨?_, hux, hus.trans hts⟩, hut⟩
  rw [a24Turn_succ, a24Outer_row (hinv.index hi), ← htm, ← hum]
  by_cases hlt : i + 1 < 32
  · rw [if_pos hlt, if_pos hlt, ← hux, BitVec.ofNat_toNat, BitVec.setWidth_eq]
  · rw [if_neg hlt, if_neg hlt]

/-! ## The fold -/

theorem a24Stage_spends : Does B L (.block (a24StageAsm k)) s (.tick 49) (a24Stage B k s.m) := by
  refine Straight.spends (.of_quiet rfl (And.intro (table_within (by decide) _)
    (table_within (by decide) _)) (by simp [a24StageAsm])) ⟨?_, rfl⟩
  simp [a24StageAsm, a24Stage, adcWide, Table.byte]

theorem a24Bridge_spends :
    Does B L (.block (a24BridgeAsm k)) s (.tick 18) (a24Bridge B k s.m) := by
  refine Straight.spends (.of_quiet rfl trivial (by simp [a24BridgeAsm])) ⟨?_, rfl⟩
  simp [a24BridgeAsm, a24Bridge, adcWide]

/-- What its fold costs. -/
def a24FoldCycles (L : Link) : ℕ :=
  5 + (49 + (18 + (49 + (18 + (49 + 15))))) + (loopCycles L .finalRipple 27 14
    + (22 + loopCycles L .foldRipple 31 14))

theorem a24Fold_does : Does B L a24FoldAsm s (.tick (a24FoldCycles L)) (a24Fold B s.m) := by
  unfold a24FoldCycles
  set m1 := a24Stages B s.m with hm1
  set q := adcWide B 4 (m1.zp (B.slot .feCarry)) (false, m1) with hq
  have hcarry : Does B L (.block [.ldaImm 0, .sta (.slot .feCarry)]) s (.tick 5)
      (s.m.setZp (B.slot .feCarry) 0) := Straight.spends (.of_quiet rfl trivial rfl) ⟨rfl, rfl⟩
  -- the stages
  refine Takes.seqTick (R := fun t => t.m = q.2 ∧ t.c = q.1 ∧ t.x = 5 ∧ t.y = 27 ∧
    t.stack = s.stack) ?_ ?_
  · refine Does.append hcarry fun t0 h0 s0 => ?_
    refine Does.append a24Stage_spends fun t1 h1 s1 => ?_
    refine Does.append a24Bridge_spends fun t2 h2 s2 => ?_
    refine Does.append a24Stage_spends fun t3 h3 s3 => ?_
    refine Does.append a24Bridge_spends fun t4 h4 s4 => ?_
    refine Does.append a24Stage_spends fun t5 h5 s5 => ?_
    have hm5 : t5.m = m1 := by rw [h5, h4, h3, h2, h1, h0]; rfl
    refine Straight.spends (.of_quiet rfl trivial rfl) ⟨?_, ?_, rfl, rfl,
      s5.trans (s4.trans (s3.trans (s2.trans (s1.trans s0))))⟩
    · rw [hq, ← hm5]
      rfl
    · rw [hq, ← hm5]
      rfl
  rintro t ⟨htm, htc, htx, hty, hts⟩
  -- the ripple, and the fold of its carry
  refine Takes.seqTick (cascade_spends (x := 5) (n := 27) (by rw [htx]; rfl) (by rw [hty]; rfl)
    (by omega) (by omega)) ?_
  rintro u ⟨hu, hus⟩
  set y := (adc 0 0 u.c).1 with hy
  set r := adc (mul38LoTab y) (u.m.zp (B.wideAt 0)) false with hr
  refine Takes.seqTick (R := fun v => v.m = u.m.setZp (B.wideAt 0) r.1 ∧ v.c = r.2 ∧ v.x = 1 ∧
      v.y = 31 ∧ v.stack = u.stack)
    (Straight.spends (.of_quiet rfl (table_within (by decide) _) (by simp))
      ⟨rfl, rfl, rfl, rfl, rfl⟩) ?_
  rintro v ⟨hvm, hvc, hvx, hvy, hvs⟩
  refine (cascade_spends (x := 1) (n := 31) (by rw [hvx]; rfl) (by rw [hvy]; rfl)
    (by omega) (by omega)).mono ?_
  rintro o ⟨ho, hos⟩
  refine ⟨?_, ?_⟩
  · have hom := congrArg Prod.snd ho
    have hum := congrArg Prod.snd hu
    have huc := congrArg Prod.fst hu
    simp only at hom hum huc
    rw [hom, hvm, hvc, hr, hy, hum, huc, htm, htc]
    rfl
  · exact hos.trans (hvs.trans (hus.trans hts))

/-! ## The routine -/

/-- What `fe25519_mul_a24` costs. -/
def fe25519MulA24Cycles (B : Build) (L : Link) : ℕ :=
  (if B.onchip then 0 else 10) + 4 + (loopCycles L .a24Zero 37 6 + (2 + (a24OuterCycles L +
    (a24FoldCycles L + (copyResultCycles L .copyA24 + (fe25519ReduceFinalCycles L + 12))))))

/-- **`fe25519_mul_a24`.** -/
theorem fe25519MulA24_does (h1 : s.m.ptr B .fe25519Src1 = a.addr)
    (hd : s.m.ptr B .fe25519Dst = d.addr) :
    Does B L (fe25519MulA24Asm B) s (.tick (fe25519MulA24Cycles B L)) (fe25519MulA24 B s.m) := by
  unfold fe25519MulA24Cycles
  refine Takes.seqTick (R := fun t => t.m = entryStores B s.m ∧ t.a = 0 ∧ t.x = 36 ∧
      t.stack = s.stack) (Does.append entryStores_does fun t htm hts =>
      Straight.spends (n := 4) (.of_quiet rfl trivial rfl) ⟨htm, rfl, rfl, hts⟩) ?_
  rintro t1 ⟨ht1m, ht1a, ht1x, ht1s⟩
  -- the clearing
  let body := fun x (m : Machine) => m.setZp (B.wideAt x) 0
  have hclear : Does B L (.loop (.block [.sta (.wideX 0), .dex]) (.bpl .a24Zero)) t1
      (.tick (loopCycles L .a24Zero 37 6)) (loopDown body 37 t1.m) := by
    refine (Spends.downLoop (N := 37) (n := 4) (l := [.sta (.wideX 0)]) (K := fun t => t.a = 0)
      (I := fun k m => loopDown body k m = loopDown body 37 t1.m) countsDown_dex (Nat.succ_pos _)
      (by omega) (by rw [ht1x]; rfl) rfl ht1a ?_).mono ?_
    · rintro _ hk u rfl hua hI
      refine ⟨.of_quiet rfl trivial rfl, rfl, ?_, hua⟩
      rw [← hI, loopDown_succ]
      simp [body, hua]
    · rintro u ⟨hum, hus⟩
      refine ⟨?_, hus⟩
      rw [loopDown_zero] at hum
      exact hum
  refine Takes.seqTick hclear ?_
  rintro t2 ⟨ht2m, ht2s⟩
  refine Takes.seqTick (R := fun t => t.m = t2.m ∧ t.x = 0 ∧ t.stack = t2.stack)
    (Straight.spends (.of_quiet rfl trivial rfl) ⟨rfl, rfl, rfl⟩) ?_
  rintro t3 ⟨ht3m, ht3x, ht3s⟩
  refine Takes.seqTick (a24Outer_does h1 ht3x ?_) ?_
  · rw [ht3m, ht2m, ht1m]
    rfl
  rintro t4 ⟨ht4m, ht4s⟩
  refine Takes.seqTick a24Fold_does ?_
  rintro t5 ⟨ht5m, ht5s⟩
  rw [ht4m, ← fe25519MulA24Wide_eq h1] at ht5m
  have hframe : Frame B B.mem.work s.m t5.m := by
    rw [ht5m]
    exact (fe25519MulA24Fold_spec h1).2
  refine Takes.seqTick (copyResult_does (d := d) ((hframe.ptr rfl rfl).trans hd)) ?_
  rintro t6 ⟨ht6m, ht6s⟩
  rw [ht5m] at ht6m
  have hd6 : t6.m.ptr B .fe25519Dst = d.addr := by
    rw [ht6m]
    have hd5 : (a24Fold B (fe25519MulA24Wide B s.m)).ptr B .fe25519Dst = d.addr := by
      rw [← ht5m]
      exact (hframe.ptr rfl rfl).trans hd
    exact ((copyResult_spec hd5).2.ptr rfl rfl).trans hd5
  refine (Does.call (fe25519ReduceFinal_does (d := d) (s := t6.push .ret) hd6)).mono ?_
  rintro t7 ⟨ht7m, ht7s⟩
  refine ⟨?_, ?_⟩
  · rw [ht7m]
    change fe25519ReduceFinal B t6.m = _
    rw [ht6m]
    rfl
  · exact ht7s.trans (ht6s.trans (ht5s.trans (ht4s.trans (ht3s.trans (ht2s.trans ht1s)))))

end C64X25519
