import C64X25519.Helpers.MulTiming
import C64X25519.Helpers.Sqr
import C64X25519.Model.SqrAsm
/-!
# The timing of the squaring

A row runs on one engine or the other by its index, and on either its
bodies, its ripple and its patches cost what the index decides.
-/

namespace C64X25519

open Machine

variable {B : Build} {L : Link} {s : Core} {m : Machine} {a d : FieldBuf B.mem} {u : Body}
  {i j k x A : ℕ}

/-! ## The bodies -/

/-- The copy of the operand is read within its page. -/
theorem mulSrc2Buf_within (hx : x < 33) : Within B.mem.mulSrc2Buf x := by
  have h := B.mem.data_aligned
  have h' := (B.mem.placed (B.mem.data, 0xb00) (by simp)).2.1
  simp only at h'
  simp only [MemMap.mulSrc2Buf]
  exact ⟨by omega, by omega⟩

/-- The product of the cached byte and the byte under the cursor. -/
theorem sqrProduct_spends (hj : sqrCursor B s.m = x) (hx : x < 33) :
    Does B L (.block (sqrProductAsm B u)) s (.tick 95) (sqrProduct B u x s.m) := by
  subst hj
  obtain ⟨hlo, hhi, hplo, hphi⟩ := sqtab_within (B := B)
  have hw : Within B.mem.mulSrc2Buf (s.m.zp (B.slot .feMulJ)).toNat := mulSrc2Buf_within hx
  have hstr : Straight B L (sqrProductAsm B u) 95 s := by
    refine .of_quiet rfl ?_ (by simp [sqrProductAsm])
    exact And.intro hw (And.intro (hplo _ _ _) (And.intro (hlo _) (And.intro (hphi _ _ _) (hhi _))))
  refine hstr.spends ⟨?_, hstr.stack⟩
  simp [sqrProductAsm, sqrProduct, sqrCursor, hw.indexed, fun i => (hlo i).indexed,
    fun i => (hhi i).indexed, fun m z i => (hplo m z i).indexed, fun m z i => (hphi m z i).indexed]

theorem sqrDouble_spends : Does B L (.block sqrDoubleAsm) s (.tick 19) (sqrDouble B s.m) := by
  refine Straight.spends (.of_quiet rfl trivial (by simp [sqrDoubleAsm])) ⟨?_, rfl⟩
  simp [sqrDoubleAsm, sqrDouble]

/-- The carry out of three bits. -/
theorem adc_three {p q : Byte} {c : Bool} (hp : p.toNat ≤ 1) (hq : q.toNat ≤ 1) :
    (adc (adc 0 p c).1 q false).2 = false := by
  have hc := carry_le c
  have h1 : (adc 0 p c).1.toNat = p.toNat + c.toNat := by
    rw [adc_fst_of_lt]
    · change 0 + _ + _ = _
      omega
    · change 0 + _ + _ < 256
      omega
  have hsum := adc_val (adc 0 p c).1 q false
  cases h : (adc (adc 0 p c).1 q false).2
  · rfl
  · rw [h] at hsum
    simp only [Bool.toNat_true, Bool.toNat_false] at hsum
    omega

/-- The accumulation, up to the chain step. -/
theorem sqrAccum_spends (hj : sqrCursor B s.m = x) (hx : x < 33)
    (hc : ((sqrAccum B u x s.m).2.zp (B.slot .mulCarry)).toNat ≤ 1) (hp : sqrPend s.m ≤ 1) :
    Spends B L (.block (sqrAccumAsm u)) s (.tick 42) fun t =>
      t.m = (sqrAccum B u x s.m).2 ∧ t.a = (sqrAccum B u x s.m).1 ∧ t.c = false ∧
        t.x.toNat = x + 1 ∧ t.stack = s.stack := by
  subst hj
  have hrun : ((cpu B L).exec (sqrAccumAsm u) s).m = (sqrAccum B u (sqrCursor B s.m) s.m).2 ∧
      ((cpu B L).exec (sqrAccumAsm u) s).a = (sqrAccum B u (sqrCursor B s.m) s.m).1 := by
    simp [sqrAccumAsm, sqrAccum, sqrCursor]
  refine Straight.spends (.of_quiet rfl trivial (by simp [sqrAccumAsm])) ⟨hrun.1, hrun.2, ?_, ?_, rfl⟩
  · rw [← hrun.1] at hc
    simp only [sqrAccumAsm, Isa.exec_cons, Isa.exec_nil, cpu_act, Op.act, Core.setA, Core.setX,
      Core.setAC, Operand.get, Operand.put] at hc ⊢
    exact adc_three hc hp
  · have hx' : ((cpu B L).exec (sqrAccumAsm u) s).x = s.m.zp (B.slot .feMulJ) + 1 := by
      simp [sqrAccumAsm]
    rw [hx']
    exact toNat_add_one rfl (lt_trans hx (by decide))

theorem sqrChain_spends {ld st : Site} (hc : s.c = false) (hx : s.x.toNat = x) :
    Spends B L (.block (sqrChainAsm ld st)) s (.tick 16) fun t =>
      t.m = sqrChain ld st s.a x s.m ∧ t.x = s.x ∧ t.stack = s.stack := by
  subst hx
  refine Straight.spends (.of_quiet rfl trivial (by simp [sqrChainAsm])) ⟨?_, rfl, rfl⟩
  simp [sqrChainAsm, sqrChain, hc]

/-- The sum of a body of the quarter-square engine. -/
abbrev sqrSum (B : Build) (u : Body) (x : ℕ) (m : Machine) : Byte × Machine :=
  sqrAccum B u x (sqrDouble B (sqrProduct B u x m))

/-- A body of the quarter-square engine, up to its chain step. -/
theorem sqrSum_spends {l : List Op} {n : ℕ} {Q : Core → Prop} (hr : TableRow B i A m)
    (h : SqrAt B i A m x s.m) (hj : sqrCursor B s.m = x) (hu : u = .a ∨ u = .b)
    (hx : i + x + 1 < 64) (hx' : x < 33)
    (hl : ∀ t : Core, t.m = (sqrSum B u x s.m).2 ∧ t.a = (sqrSum B u x s.m).1 ∧ t.c = false ∧
      t.x.toNat = x + 1 ∧ t.stack = s.stack → Spends B L (.block l) t (.tick n) Q) :
    Spends B L (.block (sqrProductAsm B u ++ (sqrDoubleAsm ++ (sqrAccumAsm u ++ l)))) s
      (.tick (95 + (19 + (42 + n)))) Q := by
  obtain ⟨-, hst1, hz1, hp1⟩ := sqrProduct_spec (u := u) (x := x) (h.sum.step.sqtab hr.sqtab)
  obtain ⟨-, hcy, hst2, -, hp2, hj2⟩ := sqrDouble_spec (B := B) (s := sqrProduct B u x s.m)
  refine Takes.append (sqrProduct_spends hj hx') ?_
  rintro t ⟨htm, hts⟩
  refine Takes.append sqrDouble_spends ?_
  rintro v ⟨hvm, hvs⟩
  rw [htm] at hvm
  have hcur : sqrCursor B v.m = x := by
    rw [sqrCursor, hvm, hj2 _ (by decide), hz1]
    exact hj
  have hpend : sqrPend v.m ≤ 1 := by
    rw [sqrPend, hvm, hp2, hp1]
    exact h.bit
  have hcarry : ((sqrAccum B u x v.m).2.zp (B.slot .mulCarry)).toNat ≤ 1 := by
    rw [hvm, sqrAccum_eq ((hr.ops u hu).step (h.sum.step.trans (hst1.trans hst2))) hx _ rfl]
    simp only
    rw [(adcPair_spec _ _ hx).2.slot (by simp)]
    exact hcy
  refine Takes.append (sqrAccum_spends hcur hx' hcarry hpend) ?_
  rintro w ⟨hwm, hwa, hwc, hwx, hws⟩
  refine hl w ⟨?_, ?_, hwc, hwx, hws.trans (hvs.trans hts)⟩
  · rw [hwm, hvm]
  · rw [hwa, hvm]

/-- Body A. -/
theorem sqrBodyA_spends (hr : TableRow B i A m) (h : SqrAt B i A m x s.m)
    (hj : sqrCursor B s.m = x) (hx : i + x + 2 < 64) (hx' : x < 33) :
    Does B L (.block (sqrBodyAAsm B)) s (.tick 177) (sqrBodyA B s.m) := by
  obtain ⟨-, -, hslot⟩ := sqrAccum_at (u := .a) hr h (.inl rfl) (by omega)
  have hj1 := (hslot .feMulJ (by decide) (by decide)).1
  have hbody : sqrBodyA B s.m = incMulJ B (sqrChain (.sqrChainLd .a) (.sqrChainSt .a)
      (sqrSum B .a x s.m).1 (x + 1) (sqrSum B .a x s.m).2) := by
    rw [sqrCursor] at hj
    simp only [sqrBodyA, hj, hj1]
  refine sqrSum_spends (n := 16 + 5) hr h hj (.inl rfl) (by omega) hx' ?_
  rintro t ⟨htm, hta, htc, htx, hts⟩
  refine Takes.append (sqrChain_spends htc htx) ?_
  rintro v ⟨hvm, _, hvs⟩
  refine Straight.spends (.of_quiet rfl trivial rfl) ⟨?_, hvs.trans hts⟩
  rw [hbody, ← hta, ← htm, ← hvm]
  rfl

/-- The cycles of body B at the cursor `x` of row `i`. -/
def sqrBodyBCycles (L : Link) (i x : ℕ) : ℕ :=
  160 + ((if 63 - i ≤ x + 1 then 9 + (L.crosses .sqrBChainSkip).toNat else 23) + 10)

/-- Body B, with the count of the pairs. -/
theorem sqrBodyB_spends (hr : TableRow B i A m) (h : SqrAt B i A m x s.m)
    (hj : sqrCursor B s.m = x) (hx : i + x + 1 < 64) (hx' : x < 33) :
    Spends B L (sqrBodyBAsm B) s (.tick (sqrBodyBCycles L i x)) fun t =>
      t.m = sqrCount B (sqrBodyB B s.m).2 ∧ t.x.toNat = (sqrBodyB B s.m).1 ∧
        (sqrBodyB B s.m).1 = x + 1 ∧ t.nz = t.m.zp (B.slot .feSqrPairs) ∧ t.stack = s.stack := by
  obtain ⟨hsum, -, hslot⟩ := sqrAccum_at (u := .b) hr h (.inr rfl) hx
  have hj1 := (hslot .feMulJ (by decide) (by decide)).1
  have hbound : ((sqrSum B .b x s.m).2.var .sqrBound).toNat = 63 - i := by
    rw [hsum.step.var _ (by decide)]
    exact hr.bound
  have hbody : sqrBodyB B s.m = (x + 1, incMulJ B (if 63 - i ≤ x + 1
      then (sqrSum B .b x s.m).2.setVar .sqrPending 0
      else sqrChain (.sqrChainLd .b) (.sqrChainSt .b) (sqrSum B .b x s.m).1 (x + 1)
        (sqrSum B .b x s.m).2)) := by
    rw [sqrCursor] at hj
    simp only [sqrBodyB, hj, hj1, hbound]
  set p := sqrSum B .b x s.m with hp
  -- the sum, and the comparison with the bound
  have hcmp : Spends B L (.block (sqrProductAsm B .b ++ (sqrDoubleAsm ++ (sqrAccumAsm .b ++
      [.cpx (.var .sqrBound)])))) s (.tick (95 + (19 + (42 + 4)))) fun t => t.m = p.2 ∧ t.a = p.1 ∧
        t.x.toNat = x + 1 ∧ t.c = decide (63 - i ≤ x + 1) ∧ t.stack = s.stack := by
    refine sqrSum_spends hr h hj (.inr rfl) hx hx' ?_
    rintro t ⟨htm, hta, _, htx, hts⟩
    refine Straight.spends (.of_quiet rfl trivial rfl) ⟨htm, hta, htx, ?_, hts⟩
    change cmp t.x (t.m.var .sqrBound) = _
    rw [cmp, htx, htm, hbound]
  unfold sqrBodyBCycles
  refine Takes.seqTick hcmp ?_
  rintro t ⟨htm, hta, htx, htc, hts⟩
  -- the chain step, or what stands for it
  refine Takes.seqTick (R := fun v => incMulJ B v.m = (sqrBodyB B s.m).2 ∧ v.x.toNat = x + 1 ∧
    v.stack = s.stack) ?_ ?_
  · by_cases hge : 63 - i ≤ x + 1
    · have hskip : Spends B L (.block [.ldaImm 0, .sta (.var .sqrPending)]) t (.tick 6)
          fun v => incMulJ B v.m = (sqrBodyB B s.m).2 ∧ v.x.toNat = x + 1 ∧ v.stack = s.stack := by
        refine Straight.spends (.of_quiet rfl trivial rfl) ⟨?_, htx, hts⟩
        rw [hbody, if_pos hge, ← htm]
        rfl
      rw [if_pos hge]
      refine (Takes.either_taken (htc.trans (decide_eq_true hge)) hskip).cast ?_
      simp only [Bill.tick_add_tick]
      congr 1
      change 6 + (3 + _) = _
      omega
    · have hclc : Spends B L (.block [.clc]) t (.tick 2) fun v => v = { t with c := false } :=
        Straight.spends (.of_quiet rfl trivial rfl) rfl
      have hchain : Spends B L (.block ([.clc] ++ sqrChainAsm (.sqrChainLd .b) (.sqrChainSt .b))) t
          (.tick (2 + 16)) fun v => incMulJ B v.m = (sqrBodyB B s.m).2 ∧ v.x.toNat = x + 1 ∧
            v.stack = s.stack := by
        refine Takes.append hclc fun v hv =>
          (sqrChain_spends (x := x + 1) (by rw [hv]) (by rw [hv]; exact htx)).mono ?_
        rintro z ⟨hzm, hzx, hzs⟩
        refine ⟨?_, ?_, ?_⟩
        · rw [hzm, hv, hbody, if_neg hge, ← hta, ← htm]
        · rw [hzx, hv]
          exact htx
        · rw [hzs, hv]
          exact hts
      rw [if_neg hge]
      exact (Takes.either_through (htc.trans (decide_eq_false hge)) hchain).cast rfl
  · rintro v ⟨hvm, hvx, hvs⟩
    refine Straight.spends (.of_quiet rfl trivial rfl) ⟨?_, ?_, ?_, ?_, hvs⟩
    · rw [sqrCount, ← hvm]
      rfl
    · rw [hbody]
      exact hvx
    · rw [hbody]
    · exact (setZp_zp_self ..).symm

/-! ## The DMA engine -/

/-- A body over the doubled row. -/
theorem sqrDmaBody_spends (hr : DmaRow B i A m) (h : SqrAt B i A m x s.m) (hu : u = .a ∨ u = .b)
    (hx : s.x.toNat = x) (hx' : x < 33) (hlt : i + x + 1 < 64) :
    Spends B L (.block (sqrDmaBodyAsm B u)) s (.tick 66) fun t =>
      t.m = sqrDmaBody B u x s.m ∧ t.x.toNat = x + 1 ∧ t.stack = s.stack := by
  subst hx
  have hw : Within B.mem.mulSrc2Buf s.x.toNat := mulSrc2Buf_within hx'
  have hstr : Straight B L (sqrDmaAccumAsm B u) 50 s := by
    refine .of_quiet rfl ?_ (by simp [sqrDmaAccumAsm])
    exact And.intro hw (And.intro (mulDmaCarry_within _) (And.intro (mulDmaLo_within _)
      (mulDmaHi_within _)))
  have hrun : ((cpu B L).exec (sqrDmaAccumAsm B u) s).m = (sqrDmaAccum B u s.x.toNat s.m).2 ∧
      ((cpu B L).exec (sqrDmaAccumAsm B u) s).a = (sqrDmaAccum B u s.x.toNat s.m).1 := by
    simp [sqrDmaAccumAsm, sqrDmaAccum, hw.indexed, fun i => (mulDmaLo_within (B := B) i).indexed,
      fun i => (mulDmaHi_within (B := B) i).indexed,
      fun i => (mulDmaCarry_within (B := B) i).indexed]
  -- the carry of the entry, and so of the sum
  have hcarry : ((sqrDmaAccum B u s.x.toNat s.m).2.zp (B.slot .mulCarry)).toNat ≤ 1 := by
    set cy := s.m.ram (B.mem.mulDmaCarry + (s.m.ram (B.mem.mulSrc2Buf + s.x.toNat)).toNat)
    have hstep : SqrStep B s.m (s.m.setZp (B.slot .mulCarry) cy) :=
      (SqrStep.refl s.m).setSlot (by decide)
    rw [sqrDmaAccum_eq rfl rfl ((hr.ops u hu).step (h.sum.step.trans hstep)) hlt _ rfl]
    simp only
    rw [(adcPair_spec _ _ hlt).2.slot (by simp), setZp_zp_self, h.sum.step.ram]
    exact hr.carry _ hx'
  have hsum : Spends B L (.block (sqrDmaAccumAsm B u)) s (.tick 50) fun t =>
      t.m = (sqrDmaAccum B u s.x.toNat s.m).2 ∧ t.a = (sqrDmaAccum B u s.x.toNat s.m).1 ∧
        t.c = false ∧ t.x = s.x + 1 ∧ t.stack = s.stack := by
    refine hstr.spends ⟨hrun.1, hrun.2, ?_, by simp [sqrDmaAccumAsm], hstr.stack⟩
    rw [← hrun.1] at hcarry
    have hbit := h.bit
    simp only [sqrDmaAccumAsm, Isa.exec_cons, Isa.exec_nil, cpu_act, Op.act, Core.setA, Core.setX,
      Core.setY, Core.setAC, Operand.get, Operand.put] at hcarry ⊢
    exact adc_three hcarry hbit
  rw [sqrDmaBodyAsm]
  refine Takes.append (n := 16) hsum ?_
  rintro t ⟨htm, hta, htc, htx, hts⟩
  have hx1 : t.x.toNat = s.x.toNat + 1 := by
    rw [htx]
    exact toNat_add_one rfl (lt_trans hx' (by decide))
  refine (sqrChain_spends htc hx1).mono ?_
  rintro v ⟨hvm, hvx, hvs⟩
  refine ⟨?_, ?_, hvs.trans hts⟩
  · rw [hvm, sqrDmaBody_chain, hta, htm]
  · rw [hvx, hx1]

/-! ## The bodies of a row -/

section

variable {w : ℕ × Machine}

/-- The bodies of a pair, on the quarter squares. -/
theorem sqrBodies_table (htr : (sqrBodies B w (2 * k)).2.tramp = .sqrInner)
    (htr' : (sqrBodies B w (2 * k + 1)).2.tramp = .sqrInner) :
    (sqrBodies B w (2 * k + 1)).2 = sqrBodyA B (sqrBodies B w (2 * k)).2 ∧
      sqrBodies B w (2 * (k + 1)) = ((sqrBodyB B (sqrBodies B w (2 * k + 1)).2).1,
        sqrCount B (sqrBodyB B (sqrBodies B w (2 * k + 1)).2).2) := by
  constructor
  · rw [sqrBodies_succ]
    simp only [sqrStep, htr, Nat.mul_mod_right, if_true]
  · rw [show 2 * (k + 1) = 2 * k + 1 + 1 by omega, sqrBodies_succ]
    simp only [sqrStep, htr', show (2 * k + 1) % 2 ≠ 0 by omega, if_false]

/-- And on a doubled row. -/
theorem sqrBodies_dma (htr : (sqrBodies B w (2 * k)).2.tramp = .sqrInnerDma)
    (htr' : (sqrBodies B w (2 * k + 1)).2.tramp = .sqrInnerDma) :
    (sqrBodies B w (2 * k + 1)).2
        = sqrDmaBody B .a (sqrBodies B w (2 * k)).1 (sqrBodies B w (2 * k)).2 ∧
      (sqrBodies B w (2 * (k + 1))).2 = sqrCount B (sqrDmaBody B .b (sqrBodies B w (2 * k + 1)).1
        (sqrBodies B w (2 * k + 1)).2) := by
  constructor
  · rw [sqrBodies_succ]
    simp only [sqrStep, htr, Nat.mul_mod_right, if_true]
  · rw [show 2 * (k + 1) = 2 * k + 1 + 1 by omega, sqrBodies_succ]
    simp only [sqrStep, htr', show (2 * k + 1) % 2 ≠ 0 by omega, if_false]

end

/-- The ripple behind a row, of either engine. -/
theorem sqrRipple_does (past pastEq l : Label) (hx : s.x.toNat = x)
    (hi : (s.m.zp (B.slot .feMulI)).toNat = i) (hle : x + i + 1 ≤ 64) :
    Does B L (rippleTailAsm (.var .sqrRippleStart) (.var .sqrPending) past pastEq l) s
      (.tick (25 + rippleCycles L pastEq l 4 (63 - i - x))) (sqrRipple B (x, s.m)) := by
  obtain ⟨hstart, hcar, hlen⟩ := rippleStart_val (x := s.x) (i := s.m.zp (B.slot .feMulI))
    (k := x + i + 1) (by rw [hx, hi]) hle
  have hxs : BitVec.ofNat 8 x = s.x := by
    rw [← hx, BitVec.ofNat_toNat, BitVec.setWidth_eq]
  unfold sqrRipple
  simp only [hxs]
  set st := (adc (adc s.x (s.m.zp (B.slot .feMulI)) false).1 1 false).1 with hst
  set m1 := s.m.setVar .sqrRippleStart st with hm1
  have hself : m1.var .sqrRippleStart = st := setVar_var_self
  refine Takes.seqTick (R := fun t => t.m = m1 ∧ t.x = st ∧ t.a = (sbc 64 st true).1 ∧
      t.c = (sbc 64 st true).2 ∧ t.stack = s.stack)
    (Straight.spends (.of_quiet rfl trivial (by simp)) ⟨?_, ?_, ?_, ?_, rfl⟩) ?_
  · simp [hm1, hst]
  · simp [hst]
  · simp [hst]
  · simp [hst]
  rintro t ⟨htm, htx, hta, htc, hts⟩
  refine (rippleSkip_spends (n := 63 - i - x) (c := 4) (by rw [htc, hcar])
    (by rw [hta, hlen]; omega) (by rw [htx, hstart]; omega) (fun _ => rfl) rfl).mono ?_
  rintro u ⟨hum, hus⟩
  refine ⟨?_, hus.trans hts⟩
  have hz : (sbc 64 st true).1 = 0 ↔ 63 - i - x = 0 := by
    rw [← BitVec.toNat_inj, hlen]
    change 64 - (x + i + 1) = 0 ↔ _
    omega
  rw [hum, hself, htm, htx, hcar, hlen, show 64 - (x + i + 1) = 63 - i - x by omega]
  simp only [hz, Bool.true_eq_false, false_or]
  rfl

/-! ## The engines -/

/-- The bytes the ripple of row `i` runs through. -/
def sqrRippleLen (i : ℕ) : ℕ := 62 - 2 * i - 2 * sqrPairs i

/-- The cycles of row `i` on the quarter squares, from the patched jump to
the next row. -/
def sqrTableCycles (L : Link) (i : ℕ) : ℕ :=
  ((List.range (sqrPairs i)).map fun j => 177 + sqrBodyBCycles L i (i + 1 + 2 * j + 1)).sum
    + (3 + (25 + rippleCycles L .sqrMult66RipDoneEq .sqrMult66Rip 4 (sqrRippleLen i) + 3))
    + ((sqrPairs i - 1) * (3 + 2) + (3 + (3 + (L.crosses .sqrPairLoopExitMul).toNat)))

theorem RowStart.pairs_pos (h : RowStart B i A m) : 0 < sqrPairs i ∧ sqrPairs i ≤ 16 := by
  have hi := h.row
  simp only [sqrPairs]
  omega

/-- The index of a row stays with its bodies. -/
theorem RowAt.index {w : ℕ × Machine} (h : RowAt B i A m k w)
    (hi : (m.zp (B.slot .feMulI)).toNat = i) : (w.2.zp (B.slot .feMulI)).toNat = i := by
  rw [h.at'.sum.step.slot (by decide)]
  exact hi

/-- **A row on the quarter squares**: the jump leads back to the first body
until the pairs are counted out. -/
theorem sqrTable_does (htr : m.tramp = .sqrInner) (hr : TableRow B i A m) (h : RowStart B i A m)
    (hi : (m.zp (B.slot .feMulI)).toNat = i) (hm : s.m = m) :
    Does B L (sqrInnerAsm B) s (.tick (sqrTableCycles L i))
      (sqrRipple B (sqrBodies B (sqrHead B m) (2 * sqrPairs i))) := by
  have hpos := h.pairs_pos
  have hrow := h.row
  have hbound : i + 1 + 2 * sqrPairs i ≤ 33 ∧ i + (i + 1 + 2 * sqrPairs i) ≤ 63 := by
    simp only [sqrPairs]
    omega
  set w := sqrBodies B (sqrHead B m) with hw
  have hat : ∀ k, k ≤ 2 * sqrPairs i → RowAt B i A m k (w k) :=
    fun k hk => sqrBodies_at (.inl ⟨htr, hr⟩) h hk
  have htramp : ∀ k, k ≤ 2 * sqrPairs i → (w k).2.tramp = .sqrInner :=
    fun k hk => (hat k hk).at'.sum.step.tramp.trans htr
  refine (Takes.dispatch (N := sqrPairs i) (I := fun j (t : Core) => t.m = (w (2 * j)).2 ∧
      (0 < j → t.x.toNat = i + 1 + 2 * j ∧ (w (2 * j)).1 = i + 1 + 2 * j) ∧ t.stack = s.stack)
    (b := fun j => .tick (177 + sqrBodyBCycles L i (i + 1 + 2 * j + 1)))
    (a := .tick (3 + (25 + rippleCycles L .sqrMult66RipDoneEq .sqrMult66Rip 4 (sqrRippleLen i)
      + 3))) hpos.1 (show sqrPairs i ≤ 0x200 by omega)
    ⟨?_, fun h => absurd h (by omega), rfl⟩ ?_ ?_ ?_).cast ?_
  · rw [hw, mul_zero, sqrBodies_zero, hm, sqrHead, htr]
  · rintro j hj t ⟨htm, -, -⟩
    change decide (t.m.tramp = .sqrInner) = true
    rw [htm, htramp _ (by omega)]
    rfl
  · rintro j hj t ⟨htm, -, hts⟩
    have heven := hat (2 * j) (by omega)
    have hodd := hat (2 * j + 1) (by omega)
    obtain ⟨hA, hB⟩ := sqrBodies_table (B := B) (w := sqrHead B m) (k := j)
      (htramp _ (by omega)) (htramp _ (by omega))
    refine Takes.seqTick (sqrBodyA_spends (x := i + 1 + 2 * j) hr (by rw [htm]; exact heven.at')
      (by rw [htm]; exact heven.cursor htr) (by omega) (by omega)) ?_
    rintro v ⟨hvm, hvs⟩
    rw [htm, ← hA] at hvm
    refine (sqrBodyB_spends (x := i + 1 + 2 * j + 1) hr (by rw [hvm]; exact hodd.at')
      (by rw [hvm]; exact hodd.cursor htr) (by omega) (by omega)).mono ?_
    rintro z ⟨hzm, hzx, hx1, hznz, hzs⟩
    rw [hvm] at hzm hzx hx1
    have hz2 : z.m = (w (2 * (j + 1))).2 := by rw [hzm, hw, hB]
    have hcur : (w (2 * (j + 1))).1 = i + 1 + 2 * (j + 1) := by
      rw [hw, hB]
      exact hx1.trans (by omega)
    refine ⟨⟨hz2, fun _ => ⟨by rw [hzx, hx1]; omega, hcur⟩, hzs.trans (hvs.trans hts)⟩, ?_⟩
    change (z.nz == 0) = _
    have hagain := (hat (2 * (j + 1)) (by omega)).again (k := j + 1) (by omega)
    rw [hznz, hz2, ← Bool.not_not (_ == _), ← bne, hagain, ← decide_not]
    exact decide_eq_decide.2 not_lt
  · rintro t ⟨htm, htx, hts⟩
    obtain ⟨htx, hwx⟩ := htx hpos.1
    have hidx := (hat (2 * sqrPairs i) le_rfl).index hi
    refine Takes.seqTick (R := fun v => v = t) (Takes.jmp rfl) ?_
    rintro v rfl
    have hrip := sqrRipple_does (B := B) (L := L) (s := v) (i := i) .sqrMult66RipDone
      .sqrMult66RipDoneEq .sqrMult66Rip htx (by rw [htm]; exact hidx)
      (by omega)
    rw [show 63 - i - (i + 1 + 2 * sqrPairs i) = sqrRippleLen i by rw [sqrRippleLen]; omega] at hrip
    refine Takes.seqTick hrip ?_
    rintro z ⟨hzm, hzs⟩
    refine Takes.jmp ⟨?_, hzs.trans hts⟩
    rw [hzm, htm, ← hwx]
  · rw [Bill.sum_tick, Bill.tick_add_tick, Bill.tick_add_tick]
    rfl

/-- The cycles of row `i` on a doubled row, from the patched jump to the next
row. -/
def sqrDmaCycles (L : Link) (i : ℕ) : ℕ :=
  3 + (sqrPairs i * (66 + (66 + 5))
      + ((sqrPairs i - 1) * (2 + 3) + (3 + (L.crosses .sqrDmaInnerDone).toNat))
    + (25 + rippleCycles L .sqrDmaRipDoneEq .sqrDmaRip 4 (sqrRippleLen i) + 3)) + 3

/-- A pair of bodies over the doubled row. -/
theorem sqrDmaPair_spends (htr : m.tramp = .sqrInnerDma) (hr : DmaRow B i A m)
    (h : RowStart B i A m) (hj : j < sqrPairs i)
    (hm : s.m = (sqrBodies B (sqrHead B m) (2 * j)).2) (hx : s.x.toNat = i + 1 + 2 * j) :
    Spends B L (.block (sqrDmaBodyAsm B .a ++ (sqrDmaBodyAsm B .b ++ [.dec (.slot .feSqrPairs)]))) s
      (.tick (66 + (66 + 5))) fun t => t.m = (sqrBodies B (sqrHead B m) (2 * (j + 1))).2 ∧
        t.x.toNat = i + 1 + 2 * (j + 1) ∧ t.nz = t.m.zp (B.slot .feSqrPairs) ∧
        t.stack = s.stack := by
  have hrow := h.row
  have hbound : i + 1 + 2 * sqrPairs i ≤ 33 ∧ i + (i + 1 + 2 * sqrPairs i) ≤ 63 := by
    simp only [sqrPairs]
    omega
  have heven := sqrBodies_at (k := 2 * j) (.inr ⟨htr, hr⟩) h (by omega)
  have hodd := sqrBodies_at (k := 2 * j + 1) (.inr ⟨htr, hr⟩) h (by omega)
  obtain ⟨hA, hB⟩ := sqrBodies_dma (B := B) (w := sqrHead B m) (k := j)
    (heven.at'.sum.step.tramp.trans htr) (hodd.at'.sum.step.tramp.trans htr)
  rw [heven.cursorX htr] at hA
  rw [hodd.cursorX htr, ← Nat.add_assoc] at hB
  refine Takes.append (sqrDmaBody_spends (u := .a) hr (by rw [hm]; exact heven.at') (.inl rfl) hx
    (by omega) (by omega)) ?_
  rintro t ⟨htm, htx, hts⟩
  rw [hm, ← hA] at htm
  refine Takes.append (sqrDmaBody_spends (u := .b) hr (by rw [htm]; exact hodd.at') (.inr rfl) htx
    (by omega) (by omega)) ?_
  rintro v ⟨hvm, hvx, hvs⟩
  rw [htm] at hvm
  refine Straight.spends (.of_quiet rfl trivial rfl) ⟨?_, hvx.trans (by omega), ?_, hvs.trans hts⟩
  · rw [hB, ← hvm]
    rfl
  · exact (setZp_zp_self ..).symm

/-- **A row on the doubled tables.** -/
theorem sqrDma_does (htr : m.tramp = .sqrInnerDma) (hr : DmaRow B i A m) (h : RowStart B i A m)
    (hi : (m.zp (B.slot .feMulI)).toNat = i) (hm : s.m = m) :
    Does B L (sqrInnerAsm B) s (.tick (sqrDmaCycles L i))
      (sqrRipple B (sqrBodies B (sqrHead B m) (2 * sqrPairs i))) := by
  have hpos := h.pairs_pos
  have hrow := h.row
  have hbound : i + 1 + 2 * sqrPairs i ≤ 33 ∧ i + (i + 1 + 2 * sqrPairs i) ≤ 63 := by
    simp only [sqrPairs]
    omega
  have hhead : sqrHead B m = (i + 1, m) := by
    rw [sqrHead, htr]
    exact congrArg (fun x => (x, m)) h.cursor
  have hat : ∀ k, k ≤ 2 * sqrPairs i → RowAt B i A m k (sqrBodies B (sqrHead B m) k) :=
    fun k hk => sqrBodies_at (.inr ⟨htr, hr⟩) h hk
  have hsel : (cpu B L).test .viaTramp s = false := by
    change decide (s.m.tramp = .sqrInner) = false
    rw [hm, htr]
    rfl
  refine Takes.dispatch_other (Nat.succ_pos _) hsel (b := .tick (3 + (sqrPairs i * (66 + (66 + 5))
    + ((sqrPairs i - 1) * (2 + 3) + (3 + (L.crosses .sqrDmaInnerDone).toNat))
    + (25 + rippleCycles L .sqrDmaRipDoneEq .sqrDmaRip 4 (sqrRippleLen i) + 3)))) ?_
  refine Takes.seqTick (R := fun t => t.m = m ∧ t.x.toNat = i + 1 ∧ t.stack = s.stack)
    (Straight.spends (.of_quiet rfl trivial rfl) ⟨hm, ?_, rfl⟩) ?_
  · rw [← h.cursor, ← hm]
    rfl
  rintro t ⟨htm, htx, hts⟩
  refine Takes.seqTick (R := fun v => v.m = (sqrBodies B (sqrHead B m) (2 * sqrPairs i)).2 ∧
    v.x.toNat = i + 1 + 2 * sqrPairs i ∧ v.stack = s.stack) ?_ ?_
  · refine (Takes.loopUntil (N := sqrPairs i) (b := fun _ => .tick (66 + (66 + 5)))
      (I := fun j (v : Core) => v.m = (sqrBodies B (sqrHead B m) (2 * j)).2 ∧
        v.x.toNat = i + 1 + 2 * j ∧ v.stack = s.stack) hpos.1 (show sqrPairs i ≤ 0x200 by omega)
      ⟨?_, htx, hts⟩ ?_).cast ?_
    · rw [mul_zero, sqrBodies_zero, htm, hhead]
    · rintro j hj v ⟨hvm, hvx, hvs⟩
      refine (sqrDmaPair_spends htr hr h hj hvm hvx).mono ?_
      rintro z ⟨hzm, hzx, hznz, hzs⟩
      refine ⟨⟨hzm, hzx, hzs.trans hvs⟩, ?_⟩
      change (z.nz == 0) = _
      have hagain := (hat (2 * (j + 1)) (by omega)).again (k := j + 1) (by omega)
      rw [hznz, hzm, ← Bool.not_not (_ == _), ← bne, hagain, ← decide_not]
      exact decide_eq_decide.2 not_lt
    · rw [Bill.sum_const, Bill.nsmul_tick, Bill.tick_add_tick]
      rfl
  · rintro v ⟨hvm, hvx, hvs⟩
    have hidx := (hat (2 * sqrPairs i) le_rfl).index hi
    have hrip := sqrRipple_does (B := B) (L := L) (s := v) (i := i) .sqrDmaRipDone
      .sqrDmaRipDoneEq .sqrDmaRip hvx (by rw [hvm]; exact hidx)
      (by omega)
    rw [show 63 - i - (i + 1 + 2 * sqrPairs i) = sqrRippleLen i by rw [sqrRippleLen]; omega] at hrip
    refine Takes.seqTick hrip ?_
    rintro z ⟨hzm, hzs⟩
    refine Takes.jmp ⟨?_, hzs.trans hvs⟩
    rw [hzm, hvm, ← (hat (2 * sqrPairs i) le_rfl).cursorX htr]

/-! ## A row -/

/-- What choosing the engine of row `i` costs. -/
def sqrSelectBill (B : Build) (L : Link) (i : ℕ) : Bill Label :=
  if B.sqrDmaK = 0 then .tick 12
  else .tick 5 + if i < B.sqrDmaK then
      .tick (52 + (4 + L.dma 0x200)) + .wait .doubledSettle +
        (.tick (48 + (4 + L.dma 0x100)) + .wait .carrySettle) + .tick 12 + .tick 55 + .tick (2 + 3)
    else .tick 12 + .tick (3 + (L.crosses .sqrUseMult66).toNat)

theorem staTramp_spends {z : SqrInner} : Does B L (.block [.staTramp z]) s (.tick 12)
    (s.m.setTramp z) := Straight.spends (.of_quiet rfl trivial rfl) ⟨rfl, rfl⟩

/-- The patches of the DMA engine. -/
theorem sqrDmaPatch_spends :
    Does B L (.block ([.staTramp .sqrInnerDma, .ldaImm (BitVec.ofNat 8 (B.slot .feWide)), .clc,
        .adc (.slot .feMulI)] ++
      ([.sqrDmaLd1 .a, .sqrDmaSt1 .a, .sqrDmaLd1 .b, .sqrDmaSt1 .b] : List Site).map .staLo ++
      [.clc, .adcImm 1] ++
      ([.sqrDmaLd2 .a, .sqrDmaSt2 .a, .sqrDmaLd2 .b, .sqrDmaSt2 .b] : List Site).map .staLo)) s
      (.tick 55)
      (let w := s.m.setTramp .sqrInnerDma
       let l := adc (BitVec.ofNat 8 (B.slot .feWide)) (w.zp (B.slot .feMulI)) false
       let w := w.patchLo [.sqrDmaLd1 .a, .sqrDmaSt1 .a, .sqrDmaLd1 .b, .sqrDmaSt1 .b] l.1
       w.patchLo [.sqrDmaLd2 .a, .sqrDmaSt2 .a, .sqrDmaLd2 .b, .sqrDmaSt2 .b]
         (adc l.1 1 false).1) := by
  refine Straight.spends (.of_quiet rfl trivial (by simp)) ⟨?_, rfl⟩
  simp [patchLo_append]

/-- **The choice of the engine** is that of the index. -/
theorem sqrSelect_does (hi : (s.m.zp (B.slot .feMulI)).toNat = i)
    (hlive : B.sqrDmaK ≠ 0 → s.m.reu.live = true) :
    Does B L (sqrSelectAsm B) s (sqrSelectBill B L i) (sqrSelect B s.m) := by
  rw [sqrSelectAsm, sqrSelectBill, sqrSelect]
  by_cases hk : B.sqrDmaK = 0
  · rw [if_pos hk, if_pos hk, if_neg fun h => h.1 hk]
    exact staTramp_spends
  rw [if_neg hk, if_neg hk]
  have hkn : (BitVec.ofNat 8 B.sqrDmaK).toNat = B.sqrDmaK := by
    have := B.sqrDmaK_lt
    rw [BitVec.toNat_ofNat]
    exact Nat.mod_eq_of_lt (by omega)
  have hcmp : cmp (s.m.zp (B.slot .feMulI)) (BitVec.ofNat 8 B.sqrDmaK)
      = decide (B.sqrDmaK ≤ i) := by
    rw [cmp, hkn, hi]
  refine Takes.seq (R := fun t => t.m = s.m ∧ t.c = decide (B.sqrDmaK ≤ i) ∧ t.stack = s.stack)
    (Straight.spends (.of_quiet rfl trivial rfl) ⟨rfl, hcmp, rfl⟩) ?_
  rintro t ⟨htm, htc, hts⟩
  by_cases hlt : i < B.sqrDmaK
  · have hnot : decide (B.sqrDmaK ≤ i) = false := decide_eq_false (Nat.not_le.2 hlt)
    rw [if_pos hlt, if_pos ⟨hk, by rw [hcmp, hnot]; rfl⟩]
    refine Takes.either_through (htc.trans hnot) (Takes.seq (Does.call (reuFetchDoubledRow_does
      (s := t.push .ret) (by rw [← htm] at hlive; exact hlive hk))) ?_)
    rintro v ⟨hvm, hvs⟩
    refine sqrDmaPatch_spends.mono ?_
    rintro z ⟨hzm, hzs⟩
    refine ⟨?_, hzs.trans (hvs.trans hts)⟩
    rw [hzm, hvm, ← htm]
    rfl
  · have hge : decide (B.sqrDmaK ≤ i) = true := decide_eq_true (Nat.not_lt.1 hlt)
    rw [if_neg hlt, if_neg fun h => by rw [hcmp, hge] at h; exact Bool.false_ne_true h.2]
    refine Takes.either_taken (htc.trans hge) (staTramp_spends.mono ?_)
    rintro z ⟨hzm, hzs⟩
    exact ⟨by rw [hzm, htm], hzs.trans hts⟩

/-- What the head of row `i` costs. -/
def sqrRowBill (B : Build) (L : Link) (i : ℕ) : Bill Label :=
  .tick 18 + (sqrSelectBill B L i + .tick 108)

/-- The shared patches, the cursor, the pairs and the bound. -/
theorem sqrPatch_spends : Spends B L (.block (sqrPatchAsm B ++ sqrCursorAsm)) s (.tick 108)
    fun t => t.m =
      (let w := (sqrPatch B s.m).setZp (B.slot .feMulJ)
        (adc ((sqrPatch B s.m).zp (B.slot .feMulI)) 1 false).1
       let w := w.setZp (B.slot .feSqrPairs) (lsr (sbc 32 (w.zp (B.slot .feMulI)) true).1).1
       w.setVar .sqrBound (sbc 63 (w.zp (B.slot .feMulI)) true).1) ∧ t.stack = s.stack := by
  have hpatch : Spends B L (.block (sqrPatchAsm B)) s (.tick 75) fun t =>
      t.m = sqrPatch B s.m ∧ t.stack = s.stack := by
    refine Straight.spends (.of_quiet rfl trivial (by simp [sqrPatchAsm])) ⟨?_, rfl⟩
    simp [sqrPatchAsm, sqrPatch, patchLo_append]
  refine Takes.append (n := 33) hpatch ?_
  rintro t ⟨htm, hts⟩
  refine Straight.spends (.of_quiet rfl trivial (by simp [sqrCursorAsm])) ⟨?_, hts⟩
  rw [← htm]
  simp [sqrCursorAsm]

variable {m0 : Machine}

/-- The head of a row. -/
theorem sqrRow_does (h1 : s.m.ptr B .fe25519Src1 = a.addr)
    (hi : (s.m.zp (B.slot .feMulI)).toNat = i) (hlt : i < 32)
    (hlive : B.sqrDmaK ≠ 0 → s.m.reu.live = true) :
    Does B L (sqrRowAsm B) s (sqrRowBill B L i) (sqrRow B s.m) := by
  set m1 := s.m.setVar .sqrPending 0 with hm1
  set m2 := m1.setVar .mulCachedA (m1.ram (m1.ptr B .fe25519Src1 + (m1.zp (B.slot .feMulI)).toNat))
    with hm2
  have hw : Within (s.m.ptr B .fe25519Src1) (s.m.zp (B.slot .feMulI)).toNat := by
    rw [h1, hi]
    exact a.within hlt
  refine Takes.seq (R := fun t => t.m = m2 ∧ t.stack = s.stack)
    (Straight.spends (.of_quiet rfl hw rfl) ⟨?_, rfl⟩) ?_
  · have haddr : indexed (m1.ptr B .fe25519Src1) (m1.zp (B.slot .feMulI)).toNat
        = m1.ptr B .fe25519Src1 + (m1.zp (B.slot .feMulI)).toNat := hw.indexed
    rw [hm2, ← haddr]
    rfl
  rintro t ⟨htm, hts⟩
  refine Takes.seq (sqrSelect_does (i := i) (by rw [htm]; exact hi)
    (by rw [htm]; exact hlive)) ?_
  rintro v ⟨hvm, hvs⟩
  refine sqrPatch_spends.mono ?_
  rintro z ⟨hzm, hzs⟩
  refine ⟨?_, hzs.trans (hvs.trans hts)⟩
  rw [hzm, hvm, htm]
  rfl

/-- What row `i` costs on the engine of its index. -/
def sqrEngineCycles (B : Build) (L : Link) (i : ℕ) : ℕ :=
  if i < B.sqrDmaK then sqrDmaCycles L i else sqrTableCycles L i

/-- The engine of a row is that of its index. -/
theorem sqrRow_tramp (hi : (m.zp (B.slot .feMulI)).toNat = i) :
    (sqrRow B m).tramp = if i < B.sqrDmaK then .sqrInnerDma else .sqrInner := by
  have hkn : (BitVec.ofNat 8 B.sqrDmaK).toNat = B.sqrDmaK := by
    have := B.sqrDmaK_lt
    rw [BitVec.toNat_ofNat]
    exact Nat.mod_eq_of_lt this
  have hsel : ∀ w : Machine, (w.zp (B.slot .feMulI)).toNat = i →
      (sqrSelect B w).tramp = if i < B.sqrDmaK then .sqrInnerDma else .sqrInner := by
    intro w hw
    rw [sqrSelect, cmp, hkn, hw]
    by_cases hlt : i < B.sqrDmaK
    · rw [if_pos hlt, if_pos ⟨by omega, by rw [decide_eq_false (Nat.not_le.2 hlt)]; rfl⟩]
      rfl
    · rw [if_neg hlt, if_neg fun h => by
        rw [decide_eq_true (Nat.not_lt.1 hlt)] at h
        exact Bool.false_ne_true h.2]
      rfl
  exact hsel _ hi

/-- What row `i` costs, but for the branch behind it. -/
def sqrTurnBill (B : Build) (L : Link) (i : ℕ) : Bill Label :=
  sqrRowBill B L i + .tick (3 + (sqrEngineCycles B L i + 10))

/-- **A row of the squaring.** -/
theorem sqrTurn_does (hr : Ready B m0) (h1 : m0.ptr B .fe25519Src1 = a.addr)
    (h : SqrInv B a m0 i s.m) (hi : i ≤ 30) :
    Spends B L (.seqs
      [ sqrRowAsm B,
        .jmp,
        sqrInnerAsm B,
        .block [.inc (.slot .feMulI), .lda (.slot .feMulI), .cmpImm 31] ]) s (sqrTurnBill B L i)
      fun t => t.m = (sqrOuter B s.m).1 ∧ t.c = decide (31 ≤ i + 1) ∧ t.stack = s.stack := by
  have hs := h.start hr h1 hi
  have hnext := (sqrOuter_spec hr h1 h hi).2
  have heq := sqrInner_eq hs.engine hs.start
  set u := sqrRow B s.m with hu
  have hready := hr.work h.frame
  have hptr : s.m.ptr B .fe25519Src1 = a.addr := (h.frame.ptr rfl rfl).trans h1
  refine Takes.seq (sqrRow_does hptr h.index (by omega) fun hk => ?_) ?_
  · exact hready.live (by
      cases hon : B.onchip
      · rfl
      · exact absurd (B.sqrDmaK_onchip hon) hk)
  rintro t ⟨htm, hts⟩
  refine Takes.seqTick (R := fun v => v = t) (Takes.jmp rfl) ?_
  rintro v rfl
  -- the engine of the row
  have hrow : Does B L (sqrInnerAsm B) v (.tick (sqrEngineCycles B L i))
      (sqrRipple B (sqrBodies B (sqrHead B u) (2 * sqrPairs i))) := by
    have htramp := sqrRow_tramp (B := B) (m := s.m) h.index
    rw [sqrEngineCycles]
    rcases hs.engine with ⟨htr, htab⟩ | ⟨htr, hdma⟩
    · rw [if_neg fun hlt => by
        rw [if_pos hlt, ← hu, htr] at htramp
        cases htramp]
      exact sqrTable_does htr htab hs.start hs.index htm
    · rw [if_pos (by
        by_contra hlt
        rw [if_neg hlt, ← hu, htr] at htramp
        cases htramp)]
      exact sqrDma_does htr hdma hs.start hs.index htm
  refine Takes.seqTick hrow ?_
  rintro z ⟨hzm, hzs⟩
  have hout : sqrOuter B s.m = (z.m.setZp (B.slot .feMulI) (z.m.zp (B.slot .feMulI) + 1),
      !cmp ((z.m.setZp (B.slot .feMulI) (z.m.zp (B.slot .feMulI) + 1)).zp (B.slot .feMulI)) 31) := by
    rw [hzm, ← heq, hu]
    rfl
  rw [hout] at hnext ⊢
  refine Straight.spends (.of_quiet rfl trivial (by simp)) ⟨?_, ?_, hzs.trans hts⟩
  · simp
  · have hc := congrArg (fun b => !b) hnext
    simp only [Bool.not_not] at hc
    refine Eq.trans ?_ (hc.trans ?_)
    · simp
    · rw [← decide_not]
      exact decide_eq_decide.2 not_lt

/-! ## The diagonal -/

/-- One square of the diagonal, up to its ripple. -/
def diagSquare (B : Build) (s : Machine) : Machine :=
  let y := s.ram (s.ptr B .fe25519Src1 + (s.zp (B.slot .feMulI)).toNat)
  let s := s.setVar .polyProdLo (sqrLo y)
  let s := s.setVar .polyProdHi (sqrHi y)
  let x := (asl (s.zp (B.slot .feMulI))).1.toNat
  let r := adc (s.zp (B.wideAt x)) (s.var .polyProdLo) false
  let s := s.setZp (B.wideAt x) r.1
  let q := adc (s.zp (B.wideAt (x + 1))) (s.var .polyProdHi) r.2
  let s := s.setZp (B.wideAt (x + 1)) q.1
  let s := s.setVar .sqrPending (adc 0 0 q.2).1
  s.setVar .sqrRippleStart (BitVec.ofNat 8 (x + 2))

/-- The cursor of square `i`. -/
theorem diag_cursor {v : Byte} (hv : v.toNat = i) (hi : i < 32) : (asl v).1.toNat = 2 * i := by
  have hasl := asl_val v
  have hlt := (asl v).1.isLt
  omega

theorem diagSquare_spends (h1 : s.m.ptr B .fe25519Src1 = a.addr)
    (hi : (s.m.zp (B.slot .feMulI)).toNat = i) (hlt : i < 32) :
    Spends B L (.block diagSquareAsm) s (.tick 83) fun t => t.m = diagSquare B s.m ∧
      t.x.toNat = 2 * i + 2 ∧ t.a.toNat = 62 - 2 * i ∧ t.nz = t.a ∧ t.c = true ∧
      t.stack = s.stack := by
  have hw : Within (s.m.ptr B .fe25519Src1) (s.m.zp (B.slot .feMulI)).toNat := by
    rw [h1, hi]
    exact a.within hlt
  have hstr : Straight B L diagSquareAsm 83 s :=
    .of_quiet rfl (And.intro hw (And.intro (table_within (by decide) _)
      (table_within (by decide) _))) (by simp [diagSquareAsm])
  have hv2 := diag_cursor hi hlt
  set v := (asl (s.m.zp (B.slot .feMulI))).1 with hv
  have hv' : (v + 1).toNat = v.toNat + 1 := toNat_add_one rfl (by omega)
  have hv'' : (v + 1 + 1).toNat = v.toNat + 2 := toNat_add_one hv' (by omega)
  have hofNat : BitVec.ofNat 8 (v.toNat + 2) = v + 1 + 1 := by
    rw [← hv'', BitVec.ofNat_toNat, BitVec.setWidth_eq]
  have hle : (v + 1 + 1).toNat ≤ (64 : Byte).toNat := by
    rw [hv'', hv2]
    change 2 * i + 2 ≤ 64
    omega
  refine hstr.spends ⟨?_, ?_, ?_, rfl, ?_, hstr.stack⟩
  · have hmod : (v.toNat + 1) % 256 = v.toNat + 1 := Nat.mod_eq_of_lt (by omega)
    simp [diagSquareAsm, diagSquare, hw.indexed, Table.byte, ← hv, hmod, hofNat]
  · have hx : ((cpu B L).exec diagSquareAsm s).x = v + 1 + 1 := by simp [diagSquareAsm, hv]
    rw [hx, hv'', hv2]
  · have ha : ((cpu B L).exec diagSquareAsm s).a = (sbc 64 (v + 1 + 1) true).1 := by
      simp [diagSquareAsm, hv]
    rw [ha, sbc_fst_of_le hle, hv'', hv2]
    change 64 - (2 * i + 2) = _
    omega
  · have hc : ((cpu B L).exec diagSquareAsm s).c = (sbc 64 (v + 1 + 1) true).2 := by
      simp [diagSquareAsm, hv]
    rw [hc, sbc_snd_of_le hle]

/-- The cycles of square `i` of the diagonal, but for the branch behind it. -/
def diagTurnCycles (L : Link) (i : ℕ) : ℕ :=
  83 + (2 + (if 62 - 2 * i = 0 then 3 + (L.crosses .diagRipDoneEq).toNat
    else 2 + (8 + loopCycles L .diagRip (62 - 2 * i) 14)) + 10)

/-- The carry of a square on its way up. -/
theorem diagRipple_spends {n : ℕ} (ha : s.a.toNat = n) (hz : s.nz = s.a) (hc : s.c = true)
    (hx : s.x.toNat + n < 0x100) :
    Does B L (.skip (.bcc .diagRipDone) (.skip (.beq .diagRipDoneEq) (.seqs
        [.block [.tay, .lda (.var .sqrPending), .clc], rippleAsm .diagRip]))) s
      (.tick (2 + if n = 0 then 3 + (L.crosses .diagRipDoneEq).toNat
        else 2 + (8 + loopCycles L .diagRip n 14)))
      (if n = 0 then s.m else ripple B s.x.toNat n (s.m.var .sqrPending) s.m) := by
  have hcar : (cpu B L).test (.bcc .diagRipDone) s = false := by
    change (!s.c) = false
    rw [hc]
    rfl
  refine (Takes.skip_through (b := .tick (if n = 0 then 3 + (L.crosses .diagRipDoneEq).toNat
    else 2 + (8 + loopCycles L .diagRip n 14))) hcar ?_).cast ?_
  · by_cases hn : n = 0
    · rw [if_pos hn, if_pos hn]
      refine Takes.skip_taken ?_ ⟨rfl, rfl⟩
      change (s.nz == 0) = true
      rw [hz, show s.a = 0 from BitVec.eq_of_toNat_eq (ha.trans hn)]
      rfl
    · rw [if_neg hn, if_neg hn]
      have hne : (cpu B L).test (.beq .diagRipDoneEq) s = false := by
        change (s.nz == 0) = false
        rw [hz]
        exact beq_false_of_ne fun h => hn (by rw [← ha, h]; rfl)
      refine (Takes.skip_through (b := .tick (8 + loopCycles L .diagRip n 14)) hne ?_).cast ?_
      · refine Takes.seqTick (R := fun t => t.m = s.m ∧ t.x = s.x ∧ t.y = s.a ∧ t.c = false ∧
          t.a = s.m.var .sqrPending ∧ t.stack = s.stack)
          (Straight.spends (.of_quiet rfl trivial rfl) ⟨rfl, rfl, rfl, rfl, rfl, rfl⟩) ?_
        rintro t ⟨htm, htx, hty, htc, hta, hts⟩
        refine (ripple_spends (x := s.x.toNat) (n := n) (by rw [htx]) (by rw [hty, ha])
          (by omega) hx htc).mono ?_
        rintro u ⟨hum, hus⟩
        refine ⟨?_, hus.trans hts⟩
        rw [hum, hta, htm]
      · simp only [Bill.tick_add_tick]
        congr 1
        change _ + 2 = _
        omega
  · simp only [Bill.tick_add_tick]
    congr 1
    change _ + 2 = _
    omega

/-- **A square of the diagonal.** -/
theorem diagTurn_does (h1 : m0.ptr B .fe25519Src1 = a.addr) (h : DiagInv B a m0 i s.m)
    (hi : i < 32) :
    Spends B L (.seqs
      [ .block diagSquareAsm,
        .skip (.bcc .diagRipDone) (.skip (.beq .diagRipDoneEq) (.seqs
          [.block [.tay, .lda (.var .sqrPending), .clc], rippleAsm .diagRip])),
        .block [.inc (.slot .feMulI), .lda (.slot .feMulI), .cmpImm 32] ]) s
      (.tick (diagTurnCycles L i)) fun t => t.m = (diagOuter B s.m).1 ∧
        t.c = decide (32 ≤ i + 1) ∧ t.stack = s.stack := by
  have hnext := (diagOuter_spec h1 h hi).2
  have hptr : s.m.ptr B .fe25519Src1 = a.addr := (h.frame.ptr rfl rfl).trans h1
  set w := diagSquare B s.m with hw
  refine Takes.seqTick (diagSquare_spends hptr h.index hi) ?_
  rintro t ⟨htm, htx, hta, htz, htc, hts⟩
  refine Takes.seqTick (diagRipple_spends hta htz htc (by rw [htx]; omega)) ?_
  rintro v ⟨hvm, hvs⟩
  rw [htm, htx, ← hw] at hvm
  -- the ripple, as the routine has it
  have hcur := diag_cursor h.index hi
  have hstart : w.var .sqrRippleStart = BitVec.ofNat 8 (2 * i + 2) := by
    rw [hw, diagSquare, ← hcur]
    exact setVar_var_self
  have hval : (BitVec.ofNat 8 (2 * i + 2)).toNat = 2 * i + 2 := by
    rw [BitVec.toNat_ofNat]
    exact Nat.mod_eq_of_lt (by omega)
  have hle : (BitVec.ofNat 8 (2 * i + 2)).toNat ≤ (64 : Byte).toNat := by
    rw [hval]
    change 2 * i + 2 ≤ 64
    omega
  have hborrow : (sbc 64 (BitVec.ofNat 8 (2 * i + 2)) true).2 = true := sbc_snd_of_le hle
  have hlen : (sbc 64 (BitVec.ofNat 8 (2 * i + 2)) true).1.toNat = 62 - 2 * i := by
    rw [sbc_fst_of_le hle, hval]
    change 64 - (2 * i + 2) = _
    omega
  have hzero : (sbc 64 (BitVec.ofNat 8 (2 * i + 2)) true).1 = 0 ↔ 62 - 2 * i = 0 := by
    rw [← BitVec.toNat_inj, hlen]
    rfl
  have hrip : v.m = if (sbc 64 (w.var .sqrRippleStart) true).2 = false ∨
      (sbc 64 (w.var .sqrRippleStart) true).1 = 0 then w
        else ripple B ((asl (s.m.zp (B.slot .feMulI))).1.toNat + 2)
          (sbc 64 (w.var .sqrRippleStart) true).1.toNat (w.var .sqrPending) w := by
    simp only [hvm, hstart, hborrow, hlen, hzero, hcur, Bool.true_eq_false, false_or]
  have hout : diagOuter B s.m = (v.m.setZp (B.slot .feMulI) (v.m.zp (B.slot .feMulI) + 1),
      !cmp ((v.m.setZp (B.slot .feMulI) (v.m.zp (B.slot .feMulI) + 1)).zp (B.slot .feMulI)) 32) := by
    rw [hrip]
    rfl
  rw [hout] at hnext ⊢
  refine Straight.spends (.of_quiet rfl trivial (by simp)) ⟨?_, ?_, hvs.trans hts⟩
  · simp
  · have hc := congrArg (fun b => !b) hnext
    simp only [Bool.not_not] at hc
    refine Eq.trans ?_ (hc.trans ?_)
    · simp
    · rw [← decide_not]
      exact decide_eq_decide.2 not_lt

/-! ## The routine -/

/-- What the rows cost together. -/
def sqrOuterBill (B : Build) (L : Link) : Bill Label :=
  ((List.range 31).map (sqrTurnBill B L)).sum
    + .tick (30 * (2 + 3) + (3 + (L.crosses .sqrCrossDone).toNat))

/-- The cycles of the diagonal. -/
def diagOuterCycles (L : Link) : ℕ :=
  ((List.range 32).map (diagTurnCycles L)).sum
    + (31 * (2 + 3) + (3 + (L.crosses .sqrReduce).toNat))

/-- What the copy of the operand costs. -/
def sqrCopySrcCycles (L : Link) : ℕ := 2 + loopCycles L .copySrc 32 12

/-- What `fe25519_sqr` costs. -/
def fe25519SqrBill (B : Build) (L : Link) : Bill Label :=
  .tick (if B.onchip then 0 else 10) + (.tick (reuClearWideCycles B L + 12) +
    (.tick (sqrCopySrcCycles L) + (.tick 5 + (sqrOuterBill B L + (.tick 5 +
      (.tick (diagOuterCycles L) + (.tick (feReduceWideCycles L + 12) +
        .tick (copyResultCycles L .sqrCopyResult))))))))

/-- The copy of the operand. -/
theorem sqrCopySrc_does (h1 : s.m.ptr B .fe25519Src1 = a.addr) :
    Does B L (sqrCopySrcAsm B) s (.tick (sqrCopySrcCycles L)) (loopDown (fun y s =>
      s.setRam (B.mem.mulSrc2Buf + y) (s.ram (s.ptr B .fe25519Src1 + y))) 32 s.m) := by
  unfold sqrCopySrcCycles
  refine Takes.seqTick (R := fun t => t.m = s.m ∧ t.y = 31 ∧ t.stack = s.stack)
    (Straight.spends ⟨rfl, rfl, rfl, rfl⟩ ⟨rfl, rfl, rfl⟩) ?_
  rintro t ⟨htm, hty, hts⟩
  let body := fun y (m : Machine) =>
    m.setRam (B.mem.mulSrc2Buf + y) (m.ram (m.ptr B .fe25519Src1 + y))
  refine (Spends.downLoop (N := 32) (n := 10) (K := fun _ => True)
    (I := fun k m => loopDown body k m = loopDown body 32 s.m ∧ m.ptr B .fe25519Src1 = a.addr)
    (l := [.lda (.indY .fe25519Src1), .sta (.absY B.mem.mulSrc2Buf)]) countsDown_dey
    (Nat.succ_pos _) (by omega) (by rw [hty]; rfl) ⟨by rw [htm], by rw [htm]; exact h1⟩ trivial
    ?_).mono ?_
  · rintro _ hk u rfl - ⟨hI, hup⟩
    have hw : Within (u.m.ptr B .fe25519Src1) u.y.toNat := by
      rw [hup]
      exact a.within hk
    refine ⟨.of_quiet rfl hw rfl, rfl, ⟨?_, hup⟩, trivial⟩
    rw [← hI, loopDown_succ]
    simp [body, hw.indexed, (mulSrc2Buf_within (B := B) (x := u.y.toNat) (by omega)).indexed]
  · rintro u ⟨⟨hum, -⟩, hus⟩
    refine ⟨?_, hus.trans hts⟩
    rw [loopDown_zero] at hum
    exact hum

/-- **`fe25519_sqr`.** -/
theorem fe25519Sqr_does (hr : Ready B s.m) (h1 : s.m.ptr B .fe25519Src1 = a.addr)
    (hd : s.m.ptr B .fe25519Dst = d.addr) :
    Does B L (fe25519SqrAsm B) s (fe25519SqrBill B L) (fe25519Sqr B s.m) := by
  refine Takes.seq entryStores_does ?_
  rintro t1 ⟨ht1m, ht1s⟩
  refine Takes.seq (Does.call (reuClearWide_does (s := t1.push .ret))) ?_
  rintro t2 ⟨ht2m, ht2s⟩
  change t2.m = reuClearWide B t1.m at ht2m
  have hf2 : Frame B B.mem.work s.m t2.m := by
    rw [ht2m, ht1m]
    exact (entryStores_frame s.m).trans (reuClearWide_spec _).2
  refine Takes.seq (sqrCopySrc_does ((hf2.ptr rfl rfl).trans h1)) ?_
  rintro t3 ⟨ht3m, ht3s⟩
  refine Takes.seq (R := fun t => t.m = sqrEntry B s.m ∧ t.stack = t3.stack)
    (Straight.spends (.of_quiet rfl trivial rfl) ⟨?_, rfl⟩) ?_
  · rw [sqrEntry, ← ht1m, ← ht2m, ← ht3m]
    rfl
  rintro t4 ⟨ht4m, ht4s⟩
  -- the rows
  have hrows : Does B L (sqrOuterAsm B) t4 (sqrOuterBill B L) (sqrTurn B s.m 31) := by
    refine Takes.loopUntil (N := 31) (b := sqrTurnBill B L) (I := fun i (t : Core) =>
      t.m = sqrTurn B s.m i ∧ t.stack = t4.stack) (Nat.succ_pos _)
      (Nat.le_of_ble_eq_true rfl) ⟨ht4m, rfl⟩ ?_
    rintro i hi t ⟨htm, hts⟩
    have hinv : SqrInv B a s.m i t.m := by
      rw [htm]
      exact sqrTurn_spec hr h1 hi.le
    refine (sqrTurn_does hr h1 hinv (by omega)).mono ?_
    rintro v ⟨hvm, hvc, hvs⟩
    refine ⟨⟨?_, hvs.trans hts⟩, hvc⟩
    rw [hvm, htm, sqrTurn_succ]
  refine Takes.seq hrows ?_
  rintro t5 ⟨ht5m, ht5s⟩
  refine Takes.seq (R := fun t => t.m = (sqrTurn B s.m 31).setZp (B.slot .feMulI) 0 ∧
    t.stack = t5.stack) (Straight.spends (.of_quiet rfl trivial rfl) ⟨?_, rfl⟩) ?_
  · rw [← ht5m]
    rfl
  rintro t6 ⟨ht6m, ht6s⟩
  -- the diagonal
  have hdiag : Does B L diagOuterAsm t6 (.tick (diagOuterCycles L))
      (doWhile (diagOuter B) 0x100 t6.m) := by
    refine (Takes.loopUntil_doWhile (N := 32) (m := 0x100) (f := diagOuter B) (v := Core.m)
      (J := DiagInv B a s.m) (K := fun _ t => t.stack = t6.stack)
      (b := fun i => .tick (diagTurnCycles L i)) (Nat.succ_pos _) (Nat.le_of_ble_eq_true rfl)
      (by omega) (by rw [ht6m]; exact sqrTurn_diag hr h1) rfl
      (fun i hi m hm => diagOuter_spec h1 hm hi) ?_).cast ?_
    · intro i hi t hinv hts
      refine (diagTurn_does h1 hinv hi).mono ?_
      rintro v ⟨hvm, hvc, hvs⟩
      refine ⟨hvm, ?_, hvs.trans hts⟩
      change v.c = _
      rw [hvc, (diagOuter_spec h1 hinv hi).2, ← decide_not]
      exact decide_eq_decide.2 not_lt.symm
    · rw [Bill.sum_tick, Bill.tick_add_tick]
      rfl
  refine Takes.seq hdiag ?_
  rintro t7 ⟨ht7m, ht7s⟩
  -- the reduction, and the result
  refine Takes.seqTick (Does.call (feReduceWide_does (s := t7.push .ret))) ?_
  rintro t8 ⟨ht8m, ht8s⟩
  have hwide : fe25519SqrWide B s.m = t7.m := by
    rw [fe25519SqrWide_eq hr h1, ht7m, ht6m]
  have hframe : Frame B B.mem.work s.m t8.m := by
    rw [ht8m]
    refine Frame.trans ?_ (feReduceWide_spec.2.frame (by decide))
    change Frame B B.mem.work s.m t7.m
    rw [← hwide]
    exact (fe25519SqrWide_spec hr h1).2
  refine (copyResult_does (d := d) ((hframe.ptr rfl rfl).trans hd)).mono ?_
  rintro v ⟨hvm, hvs⟩
  refine ⟨?_, ?_⟩
  · rw [hvm, ht8m, fe25519Sqr, hwide]
    rfl
  · exact hvs.trans (ht8s.trans (ht7s.trans (ht6s.trans (ht5s.trans (ht4s.trans (ht3s.trans
      (ht2s.trans ht1s)))))))

end C64X25519
