import C64X25519.Helpers.Mul
import C64X25519.Helpers.WideTiming
/-!
# The timing of the multiplication

A row of `fe25519_mul` is staged, patched in, accumulated and rippled at a
cost its index decides, wherever the operands are and whatever they hold.
-/

namespace C64X25519

open Machine

variable {B : Build} {L : Link} {s : Core} {m : Machine} {a b d : FieldBuf B.mem} {u : Body}
  {i k A : ℕ}

/-! ## The row -/

/-- What the row of a byte costs: a transfer, or the generator. -/
def mulRowBill (B : Build) (L : Link) : Bill Label :=
  if B.onchip then .tick (10 + loopCycles L .genRow 32 (34 + (ctMul8x8Cycles + 12)))
  else .tick (16 + (4 + L.dma 0x200)) + .wait .mulSettle

/-- The inlined fetch, with the byte in A. -/
theorem mulRowDma_does (hon : B.onchip = false) (hl : FetchLatch B s.m)
    (hlive : s.m.reu.live = true) :
    Does B L (mulRowAsm B) s (mulRowBill B L) (mulRowDma B s.a s.m) := by
  have h : Straight B L [.aslA, .staReg .reuHi, .ldaImm (BitVec.ofNat 8 B.reuBank), .adcImm 0,
      .staReg .reuBank, .ldaImm 0b10110001] 16 s := .of_quiet rfl trivial (by simp)
  have hm : ((cpu B L).exec [.aslA, .staReg .reuHi, .ldaImm (BitVec.ofNat 8 B.reuBank), .adcImm 0,
      .staReg .reuBank, .ldaImm 0b10110001] s).m = mulRowReady B s.a s.m := by
    simp [mulRowReady]
  have hrun := fetch_spends (k := 2) (l := .mulSettle) h (by simp)
    (by rw [hm]; exact hlive) (by rw [hm]; exact mulRowReady_reg hl (by decide) (by decide))
    (by rw [hm]; exact mulRowReady_reg hl (by decide) (by decide)) (by decide)
  rw [mulRowBill, mulRowAsm, if_neg (by rw [hon]; decide), if_neg (by rw [hon]; decide)]
  refine Takes.mono hrun fun t ht => ⟨?_, ht.2⟩
  rw [ht.1, hm, mulRowDma_eq]

/-- The 8×8 multiply leaves page zero and the operands outside it. -/
theorem ctMul8x8_keeps {y : Byte} :
    (ctMul8x8 B y m).zp = m.zp ∧ (ctMul8x8 B y m).ram = m.ram ∧
      ∀ x, x ≠ .smcLoAddr → x ≠ .smcHiAddr → (ctMul8x8 B y m).op x = m.op x := by
  refine ⟨by simp [ctMul8x8], by simp [ctMul8x8], fun x h1 h2 => ?_⟩
  simp [ctMul8x8, op, h1, h2]

/-- The staging pages are read and written by any byte. -/
theorem mulDmaLo_within (i : Byte) : Within B.mem.mulDmaLo i.toNat := by
  have hpl := B.mem.placed_stage
  rw [MemMap.mulDmaLo]
  exact aligned_within B.mem.stage_aligned (by omega) i

theorem mulDmaHi_within (i : Byte) : Within B.mem.mulDmaHi i.toNat := by
  have hpl := B.mem.placed_stage
  have hal := B.mem.stage_aligned
  rw [MemMap.mulDmaHi]
  exact aligned_within (by omega) (by omega) i

theorem mulDmaCarry_within (i : Byte) : Within B.mem.mulDmaCarry i.toNat := by
  have hpl := B.mem.placed_stage
  have hal := B.mem.stage_aligned
  rw [MemMap.mulDmaCarry]
  exact aligned_within (by omega) (by omega) i

/-- One turn of the generator. -/
theorem mulGenEntry_spends (hA : s.m.op .genSrc2A = b.addr) (hB : s.m.op .genSrc2B = b.addr)
    (hx : s.x.toNat = k) (hk : k < 32) :
    Spends B L (.seqs
        [ .block [.stx (.slot .feMulJ), .ldy (.patchedX .genSrc2A)],
          .call (ctMul8x8Asm B),
          .block [.ldx (.slot .feMulJ), .ldy (.patchedX .genSrc2B),
            .lda (.var .polyProdLo), .sta (.absY B.mem.mulDmaLo),
            .lda (.var .polyProdHi), .sta (.absY B.mem.mulDmaHi), .dex] ]) s
      (.tick (7 + (ctMul8x8Cycles + 12 + 27))) fun t => t.m = mulGenEntry B k s.m ∧
        t.m.op .genSrc2A = b.addr ∧ t.m.op .genSrc2B = b.addr ∧ t.x = s.x - 1 ∧
        t.nz = s.x - 1 ∧ t.stack = s.stack := by
  subst hx
  set m1 := s.m.setZp (B.slot .feMulJ) s.x with hm1
  set y := s.m.ram (b.addr + s.x.toNat) with hy
  set m2 := ctMul8x8 B y m1 with hm2
  have hw : Within (s.m.op .genSrc2A) s.x.toNat := by rw [hA]; exact b.within hk
  refine Takes.seqTick (R := fun t => t.m = m1 ∧ t.y = y ∧ t.stack = s.stack)
    (Straight.spends (.of_quiet rfl hw rfl) ⟨rfl, ?_, rfl⟩) ?_
  · simp [hA, hy, (b.within hk).indexed]
  rintro t ⟨htm, hty, hts⟩
  have hcall : Does B L (.call (ctMul8x8Asm B)) t (.tick (ctMul8x8Cycles + 12))
      (ctMul8x8 B t.y t.m) := Does.call (ctMul8x8_does (s := t.push .ret))
  refine Takes.seqTick hcall ?_
  rintro v ⟨hvm, hvs⟩
  obtain ⟨hzp, hram, hop⟩ := ctMul8x8_keeps (B := B) (y := t.y) (m := t.m)
  have hj : v.m.zp (B.slot .feMulJ) = s.x := by
    rw [hvm, hzp, htm, hm1, setZp_zp_self]
  have hvA : v.m.op .genSrc2A = b.addr := by
    rw [hvm, hop _ (by decide) (by decide), htm]
    exact hA
  have hvB : v.m.op .genSrc2B = b.addr := by
    rw [hvm, hop _ (by decide) (by decide), htm]
    exact hB
  have hw' : Within (v.m.op .genSrc2B) (v.m.zp (B.slot .feMulJ)).toNat := by
    rw [hvB, hj]
    exact b.within hk
  have hstr : Straight B L [.ldx (.slot .feMulJ), .ldy (.patchedX .genSrc2B),
      .lda (.var .polyProdLo), .sta (.absY B.mem.mulDmaLo), .lda (.var .polyProdHi),
      .sta (.absY B.mem.mulDmaHi), .dex] 27 v := .of_quiet rfl hw' (by simp)
  refine hstr.spends ⟨?_, ?_, ?_, ?_, ?_, hstr.stack.trans (hvs.trans hts)⟩
  · simp only [mulGenEntry, BitVec.ofNat_toNat, BitVec.setWidth_eq, ← hm1]
    have hs2 : ctMul8x8 B (m1.ram (m1.op .genSrc2A + s.x.toNat)) m1 = v.m := by
      rw [hvm, hty, htm, hy, ← hA]
      rfl
    simp [hs2, hvB, hj, (b.within hk).indexed, fun i => (mulDmaLo_within (B := B) i).indexed,
      fun i => (mulDmaHi_within (B := B) i).indexed]
  · simp [hvA]
  · simp [hvB]
  · simp [hj]
  · simp [hj]

/-- The generator, with the byte in A. -/
theorem mulRowGen_does (hon : B.onchip = true) (hA : s.m.op .genSrc2A = b.addr)
    (hB : s.m.op .genSrc2B = b.addr) :
    Does B L (mulRowAsm B) s (mulRowBill B L) (mulRowGen B s.a s.m) := by
  rw [mulRowBill, mulRowAsm, if_pos hon, if_pos hon]
  set m0 := s.m.patchLo [.smcSumAImm, .smcDiffAImm] s.a with hm0
  refine Takes.seqTick (R := fun t => t.m = m0 ∧ t.x = 31 ∧ t.stack = s.stack)
    (Straight.spends (.of_quiet rfl trivial rfl) ⟨patchLo_append .., rfl, rfl⟩) ?_
  rintro t ⟨htm, htx, hts⟩
  refine ((Takes.loop (N := 32) (b := fun _ => .tick (34 + (ctMul8x8Cycles + 12))) (I := fun j u =>
    loopDown (mulGenEntry B) (32 - j) u.m = loopDown (mulGenEntry B) 32 m0 ∧
    u.m.op .genSrc2A = b.addr ∧ u.m.op .genSrc2B = b.addr ∧
    (j < 32 → u.x.toNat = 31 - j) ∧ u.stack = s.stack) (Nat.succ_pos _)
    (Nat.le_of_ble_eq_true rfl) ?_ ?_).cast (loop_bill .genRow 32 _)).mono ?_
  · refine ⟨by rw [htm], ?_, ?_, fun _ => by rw [htx]; rfl, hts⟩
    · rw [htm, hm0]
      simpa [op] using hA
    · rw [htm, hm0]
      simpa [op] using hB
  · rintro j hj u ⟨hu, huA, huB, hux, hus⟩
    obtain ⟨k, hk, hjk⟩ : ∃ k, k < 32 ∧ 32 - j = k + 1 := ⟨31 - j, by omega, by omega⟩
    have hxk : u.x.toNat = k := (hux hj).trans (by omega)
    rw [hjk, loopDown_succ] at hu
    refine ((mulGenEntry_spends huA huB hxk hk).cast rfl).mono ?_
    rintro v ⟨hvm, hvA, hvB, hvx, hvz, hvs⟩
    refine ⟨⟨?_, hvA, hvB, fun hlt => ?_, hvs.trans hus⟩, ?_⟩
    · rw [hvm, show 32 - (j + 1) = k by omega]
      exact hu
    · rw [hvx]
      exact (toNat_sub_one (n := k - 1) (by omega)).trans (by omega)
    · change (!v.nz.getLsbD 7) = _
      rw [hvz, bpl_sub_one hxk (by omega)]
      exact decide_eq_decide.2 (by omega)
  · rintro u ⟨hu, -, -, -, hus⟩
    refine ⟨?_, hus⟩
    rw [← loopDown_zero (f := mulGenEntry B) (s := u.m)]
    exact hu

/-! ## The bodies -/

/-- The patches of a row. -/
theorem mulPatch_spends : Spends B L (.block (mulPatchAsm B)) s (.tick 109) fun t =>
    t.m = (mulPatch B s.m).2 ∧ t.c = (mulPatch B s.m).1 ∧ t.x = 0 ∧ t.stack = s.stack := by
  refine Straight.spends (.of_quiet rfl trivial (by simp [mulPatchAsm])) ⟨?_, ?_, ?_, ?_⟩ <;>
  simp [mulPatchAsm, mulPatch, patchLo_append]

/-- The carry out of two bits. -/
theorem adc_bits {c : Bool} {v : Byte} (hv : v.toNat ≤ 1) :
    (adc (adc 0 0 c).1 v false).2 = false := by
  have hsum := adc_val (adc 0 0 c).1 v false
  have hc := carry_le c
  rw [adc_zero_fst] at hsum
  cases h : (adc (adc 0 0 c).1 v false).2
  · rfl
  · rw [h] at hsum
    simp only [Bool.toNat_true, Bool.toNat_false] at hsum
    omega

/-- A body up to its chain step. -/
theorem mulAccum_spends (ho : s.m.op (.ldySrc2 u) = b.addr) (hx : s.x.toNat = k) (hk : k < 32)
    (hp : ((mulAccum B u ⟨k, s.c, s.m⟩).2.zp (B.slot .mulPending)).toNat ≤ 1) :
    Spends B L (.block (mulAccumAsm B u)) s (.tick 39) fun t =>
      t.m = (mulAccum B u ⟨k, s.c, s.m⟩).2 ∧ t.a = (mulAccum B u ⟨k, s.c, s.m⟩).1 ∧ t.c = false ∧
        t.x.toNat = k + 1 ∧ t.stack = s.stack := by
  subst hx
  have hw : Within (s.m.op (.ldySrc2 u)) s.x.toNat := by rw [ho]; exact b.within hk
  have hstr : Straight B L (mulAccumAsm B u) 39 s := by
    refine .of_quiet rfl ?_ (by simp [mulAccumAsm])
    exact And.intro hw (And.intro (mulDmaLo_within _) (mulDmaHi_within _))
  have hrun : ((cpu B L).exec (mulAccumAsm B u) s).m = (mulAccum B u ⟨s.x.toNat, s.c, s.m⟩).2 ∧
      ((cpu B L).exec (mulAccumAsm B u) s).a = (mulAccum B u ⟨s.x.toNat, s.c, s.m⟩).1 := by
    simp [mulAccumAsm, mulAccum, hw.indexed, fun i => (mulDmaLo_within (B := B) i).indexed,
      fun i => (mulDmaHi_within (B := B) i).indexed]
  refine hstr.spends ⟨hrun.1, hrun.2, ?_, ?_, hstr.stack⟩
  · rw [← hrun.1] at hp
    simp only [mulAccumAsm, Isa.exec_cons, Isa.exec_nil, cpu_act, Op.act, Core.setA, Core.setX,
      Core.setY, Core.setAC, Operand.get, Operand.put] at hp ⊢
    exact adc_bits hp
  · have hx : ((cpu B L).exec (mulAccumAsm B u) s).x = s.x + 1 := by simp [mulAccumAsm]
    rw [hx]
    exact toNat_add_one rfl (by omega)

/-- The chain step. -/
theorem mulChain_spends (hc : s.c = false) (hx : s.x.toNat = k) :
    Spends B L (.block (mulChainAsm u)) s (.tick 15) fun t =>
      t.m = (mulChain B u s.a k s.m).s ∧ t.c = (mulChain B u s.a k s.m).c ∧ t.x = s.x ∧
        t.stack = s.stack := by
  subst hx
  refine Straight.spends (.of_quiet rfl trivial (by simp [mulChainAsm])) ⟨?_, ?_, ?_, ?_⟩ <;>
  simp [mulChainAsm, mulChain, hc]

/-- The state of the inner loop at byte `k`, in the bodies of the row `w`. -/
def MulCore (B : Build) (w : Inner) (l : List Pushed) (k : ℕ) (t : Core) : Prop :=
  t.m = (mulBodies B w k).s ∧ t.c = (mulBodies B w k).c ∧ t.x.toNat = k ∧ t.stack = l

variable {m : Machine} {l : List Pushed}

/-- What the accumulation of a body finds in a row. -/
theorem mulCore_accum (hr : RowReady B b i A m) (hp : pending B m = 0) (hi : i < 32)
    (hlt : m.wide B 64 + 256 ^ i * (A * m.fe b.addr) < 256 ^ 64) (hk : k < 32)
    (h : MulCore B ⟨0, false, m⟩ l k s) :
    Spends B L (.block (mulAccumAsm B u)) s (.tick 39) fun t =>
      t.m = (mulAccum B u (mulBodies B ⟨0, false, m⟩ k)).2 ∧
        t.a = (mulAccum B u (mulBodies B ⟨0, false, m⟩ k)).1 ∧ t.c = false ∧
        t.x.toNat = k + 1 ∧ t.stack = l := by
  obtain ⟨hsm, hsc, hsx, hss⟩ := h
  obtain ⟨hat, hc⟩ := mulBodies_at hr hp hi hlt (k := k) hk.le
  set w := mulBodies B ⟨0, false, m⟩ k with hw
  have hwk : (⟨k, s.c, s.m⟩ : Inner) = w := by
    rw [hsm, hsc, ← hat.cursor]
  have hin := (mulAccum_at (u := u) hr hat (hc hk) hk hi).2.2
  have hrun := mulAccum_spends (L := L) (u := u) (b := b) (s := s) (k := k)
    (by rw [hsm]; exact (hat.inZp.op _).trans (hr.ops.src2 u)) hsx hk (by
      rw [hwk, hin.slot (by simp)]
      exact hat.bit)
  rw [hwk] at hrun
  refine Takes.mono hrun ?_
  rw [← hss]
  exact fun _ ht => ht

/-- Bodies A, B and C. -/
theorem mulBody_spends (hr : RowReady B b i A m) (hp : pending B m = 0) (hi : i < 32)
    (hlt : m.wide B 64 + 256 ^ i * (A * m.fe b.addr) < 256 ^ 64) (hk : k < 32)
    (h : MulCore B ⟨0, false, m⟩ l k s) (hu : bodyAt k = u) (hne : u ≠ .d) :
    Spends B L (.block (mulBodyAsm B u)) s (.tick 54) (MulCore B ⟨0, false, m⟩ l (k + 1)) := by
  obtain ⟨hat, -⟩ := mulBodies_at hr hp hi hlt (k := k) hk.le
  refine (Takes.append (mulCore_accum hr hp hi hlt hk h) fun t ht =>
    (mulChain_spends (u := u) ht.2.2.1 ht.2.2.2.1).mono fun v hv => ?_).cast rfl
  obtain ⟨htm, hta, htc, htx, hts⟩ := ht
  obtain ⟨hvm, hvc, hvx, hvs⟩ := hv
  have hstep : mulBodies B ⟨0, false, m⟩ (k + 1)
      = mulBody B u (mulBodies B ⟨0, false, m⟩ k) := by
    rw [mulBodies_succ, mulStep, hu]
    cases u <;> first | rfl | exact absurd rfl hne
  have hbody : mulBody B u (mulBodies B ⟨0, false, m⟩ k) = mulChain B u t.a (k + 1) t.m := by
    rw [mulBody, hta, htm, hat.cursor]
  refine ⟨?_, ?_, by rw [hvx, htx], hvs.trans hts⟩
  · rw [hvm, hstep, hbody]
  · rw [hvc, hstep, hbody]

/-- The cycles of body D at byte `k` of row `i`. -/
def mulBodyDCycles (L : Link) (i k : ℕ) : ℕ :=
  42 + ((if 63 - i ≤ k + 1 then 8 + (L.crosses .bodyDChainSkip).toNat else 22) + 2)

/-- Body D, and the comparison of the cursor. -/
theorem mulBodyD_spends (hr : RowReady B b i A m) (hp : pending B m = 0) (hi : i < 32)
    (hlt : m.wide B 64 + 256 ^ i * (A * m.fe b.addr) < 256 ^ 64) (hk : k < 32)
    (h : MulCore B ⟨0, false, m⟩ l k s) (hu : bodyAt k = .d) :
    Spends B L (mulBodyDAsm B) s (.tick (mulBodyDCycles L i k))
      fun t => MulCore B ⟨0, false, m⟩ l (k + 1) t ∧ t.c = decide (32 ≤ k + 1) := by
  obtain ⟨hat, hc⟩ := mulBodies_at hr hp hi hlt (k := k) hk.le
  have hin := (mulAccum_at (u := .d) hr hat (hc hk) hk hi).2.2
  set w := mulBodies B ⟨0, false, m⟩ k with hw
  have hstep : mulBodies B ⟨0, false, m⟩ (k + 1)
      = ⟨(mulBodyD B w).x, decide (32 ≤ (mulBodyD B w).x), (mulBodyD B w).s⟩ := by
    rw [mulBodies_succ, mulStep, hu]
  have hx : (mulBodyD B w).x = k + 1 := by
    simp only [mulBodyD, hat.cursor]
    split <;> rfl
  have hbound : ((mulAccum B .d w).2.zp (B.slot .mulBound)).toNat = 63 - i := by
    rw [hin.slot (by simp), hat.inZp.slot (by simp)]
    exact hr.bound
  unfold mulBodyDCycles
  -- the accumulation, and the comparison with the bound
  refine Takes.seqTick (R := fun t => t.m = (mulAccum B .d w).2 ∧ t.a = (mulAccum B .d w).1 ∧
      t.x.toNat = k + 1 ∧ t.c = decide (63 - i ≤ k + 1) ∧ t.stack = l)
    (Takes.append (n := 3) (mulCore_accum hr hp hi hlt hk h) ?_) ?_
  · rintro t ⟨htm, hta, -, htx, hts⟩
    refine Straight.spends (.of_quiet rfl trivial rfl) ⟨htm, hta, htx, ?_, hts⟩
    change cmp t.x (t.m.zp (B.slot .mulBound)) = _
    rw [cmp, htx, htm, hbound]
  rintro t ⟨htm, hta, htx, htc, hts⟩
  -- the chain step, or what stands for it
  refine Takes.seqTick (R := fun v => v.m = (mulBodyD B w).s ∧ v.x.toNat = k + 1 ∧ v.stack = l) ?_ ?_
  · by_cases hge : 63 - i ≤ k + 1
    · have hskip : Spends B L (.block [.ldaImm 0, .sta (.slot .mulPending)]) t (.tick 5)
          fun v => v.m = (mulBodyD B w).s ∧ v.x.toNat = k + 1 ∧ v.stack = l := by
        refine Straight.spends (.of_quiet rfl trivial rfl) ⟨?_, htx, hts⟩
        change t.m.setZp _ 0 = _
        rw [htm]
        simp only [mulBodyD, hbound, hat.cursor, if_pos hge]
      rw [if_pos hge]
      refine (Takes.either_taken (htc.trans (decide_eq_true hge)) hskip).cast ?_
      simp only [Bill.tick_add_tick]
      congr 1
      change 5 + (3 + _) = _
      omega
    · have hclc : Spends B L (.block [.clc]) t (.tick 2) fun v => v = { t with c := false } :=
        Straight.spends (.of_quiet rfl trivial rfl) rfl
      have hchain : Spends B L (.block ([.clc] ++ mulChainAsm .d)) t (.tick (2 + 15))
          fun v => v.m = (mulBodyD B w).s ∧ v.x.toNat = k + 1 ∧ v.stack = l := by
        refine Takes.append hclc fun v hv =>
          (mulChain_spends (u := .d) (k := k + 1) (by rw [hv]) (by rw [hv]; exact htx)).mono ?_
        rintro z ⟨hzm, _, hzx, hzs⟩
        refine ⟨?_, ?_, ?_⟩
        · rw [hzm, hv]
          simp only [mulBodyD, hbound, hat.cursor, if_neg hge, hta, htm]
        · rw [hzx, hv]
          exact htx
        · rw [hzs, hv]
          exact hts
      rw [if_neg hge]
      exact (Takes.either_through (htc.trans (decide_eq_false hge)) hchain).cast rfl
  · rintro v ⟨hvm, hvx, hvs⟩
    refine Straight.spends (.of_quiet rfl trivial rfl) ⟨⟨?_, ?_, hvx, hvs⟩, ?_⟩
    · rw [hstep]
      exact hvm
    · rw [hstep]
      change cmp v.x 32 = decide (32 ≤ (mulBodyD B w).x)
      rw [cmp, hvx, hx]
      rfl
    · change cmp v.x 32 = _
      rw [cmp, hvx]
      rfl

/-! ## A row -/

/-- The cycles of the bodies of row `i`. -/
def mulInnerCycles (L : Link) (i : ℕ) : ℕ :=
  ((List.range 8).map fun j => 54 + (54 + (54 + mulBodyDCycles L i (4 * j + 3)))).sum
    + (7 * (2 + 3) + (3 + (L.crosses .mulInnerDone).toNat))

/-- **The bodies of a row.** -/
theorem mulInner_spends (hr : RowReady B b i A m) (hp : pending B m = 0) (hi : i < 32)
    (hlt : m.wide B 64 + 256 ^ i * (A * m.fe b.addr) < 256 ^ 64) (hm : s.m = m)
    (hc : s.c = false) (hx : s.x = 0) :
    Spends B L (mulInnerAsm B) s (.tick (mulInnerCycles L i))
      (MulCore B ⟨0, false, m⟩ s.stack 32) := by
  refine ((Takes.loopUntil (N := 8) (I := fun j => MulCore B ⟨0, false, m⟩ s.stack (4 * j))
    (b := fun j => .tick (54 + (54 + (54 + mulBodyDCycles L i (4 * j + 3))))) (Nat.succ_pos _)
    (Nat.le_of_ble_eq_true rfl) ?_ ?_).cast ?_)
  · exact ⟨by rw [mulBodies_zero, hm], by rw [mulBodies_zero, hc], by rw [hx]; rfl, rfl⟩
  · intro j hj t ht
    have hcopy : bodyAt (4 * j) = .a ∧ bodyAt (4 * j + 1) = .b ∧ bodyAt (4 * j + 2) = .c ∧
        bodyAt (4 * j + 3) = .d := by
      simp [bodyAt]
    obtain ⟨ha, hb, hc, hd⟩ := hcopy
    refine Takes.seqTick (mulBody_spends hr hp hi hlt (by omega) ht ha (by decide)) fun t ht => ?_
    refine Takes.seqTick (mulBody_spends hr hp hi hlt (by omega) ht hb (by decide)) fun t ht => ?_
    refine Takes.seqTick (mulBody_spends hr hp hi hlt (by omega) ht hc (by decide)) fun t ht => ?_
    refine (mulBodyD_spends hr hp hi hlt (by omega) ht hd).mono ?_
    rintro t ⟨ht, htc⟩
    refine ⟨ht, ?_⟩
    refine htc.trans (decide_eq_decide.2 ?_)
    omega
  · rw [Bill.sum_tick, Bill.tick_add_tick]
    rfl

/-- The ripple behind a row. -/
theorem mulRipple_does {c : Bool} (hx : s.x.toNat = 32) (hi : (s.m.zp (B.slot .feMulI)).toNat = i)
    (hi' : i < 32) :
    Does B L (rippleTailAsm (.slot .mulRippleStart) (.slot .mulPending) .mulRippleDone
        .mulRippleDoneEq .mulRipple) s
      (.tick (23 + rippleCycles L .mulRippleDoneEq .mulRipple 3 (31 - i)))
      (mulRipple B ⟨32, c, s.m⟩) := by
  obtain ⟨hstart, hcar, hlen⟩ := rippleStart_val (x := s.x) (i := s.m.zp (B.slot .feMulI))
    (k := 33 + i) (by rw [hx, hi]; omega) (by omega)
  have h32 : BitVec.ofNat 8 32 = s.x := BitVec.eq_of_toNat_eq hx.symm
  unfold mulRipple
  simp only [h32]
  set st := (adc (adc s.x (s.m.zp (B.slot .feMulI)) false).1 1 false).1 with hst
  set m1 := s.m.setZp (B.slot .mulRippleStart) st with hm1
  have hself : m1.zp (B.slot .mulRippleStart) = st := setZp_zp_self
  refine Takes.seqTick (R := fun t => t.m = m1 ∧ t.x = st ∧ t.a = (sbc 64 st true).1 ∧
      t.c = (sbc 64 st true).2 ∧ t.stack = s.stack)
    (Straight.spends (.of_quiet rfl trivial (by simp)) ⟨?_, ?_, ?_, ?_, rfl⟩) ?_
  · simp [hm1, hst]
  · simp [hst]
  · simp [hst]
  · simp [hst]
  rintro t ⟨htm, htx, hta, htc, hts⟩
  refine (rippleSkip_spends (n := 31 - i) (c := 3) (by rw [htc, hcar])
    (by rw [hta, hlen]; omega) (by rw [htx, hstart]; omega) (fun _ => rfl) rfl).mono ?_
  rintro u ⟨hum, hus⟩
  refine ⟨?_, hus.trans hts⟩
  have hz : (sbc 64 st true).1 = 0 ↔ 31 - i = 0 := by
    rw [← BitVec.toNat_inj, hlen]
    change 64 - (33 + i) = 0 ↔ _
    omega
  rw [hum, hself, htm, htx, hcar, hlen, show 64 - (33 + i) = 31 - i by omega]
  simp only [hz, Bool.true_eq_false, false_or]
  rfl

/-- What row `i` costs, but for the branch behind it. -/
def mulTurnBill (B : Build) (L : Link) (i : ℕ) : Bill Label :=
  .tick 22 + (mulRowBill B L + (.tick 109 + (.tick (mulInnerCycles L i) +
    (.tick (23 + rippleCycles L .mulRippleDoneEq .mulRipple 3 (31 - i)) + .tick 10))))

variable {m0 : Machine}

/-- **A row of the multiplication.** -/
theorem mulTurn_does (hr : MulReady B m0) (h : MulInv B a b m0 i s.m) (hi : i < 32) :
    Spends B L (.seqs
      [ .block [.ldaImm 0, .sta (.slot .mulPending), .ldaImm 63, .sec, .sbc (.slot .feMulI),
          .sta (.slot .mulBound), .ldy (.slot .feMulI), .lda (.patchedY .loadSrc1)],
        mulRowAsm B,
        .block (mulPatchAsm B),
        mulInnerAsm B,
        rippleTailAsm (.slot .mulRippleStart) (.slot .mulPending) .mulRippleDone .mulRippleDoneEq
          .mulRipple,
        .block [.inc (.slot .feMulI), .lda (.slot .feMulI), .cmpImm 32] ]) s (mulTurnBill B L i)
      fun t => t.m = (mulOuter B s.m).1 ∧ t.c = decide (32 ≤ i + 1) ∧ t.stack = s.stack := by
  have hs := h.start hr hi
  set u := (mulHead B s.m).s with hu
  have hnext := (mulOuter_spec hr h hi).2
  have heq := mulInner_eq hs.ready hs.pend hi hs.room
  have hat := (mulBodies_at hs.ready hs.pend hi hs.room (le_refl 32)).1
  set w := mulBodies B ⟨0, false, u⟩ 32 with hw
  -- the head of the row
  set m1 := (s.m.setZp (B.slot .mulPending) 0).setZp (B.slot .mulBound)
    (sbc 63 ((s.m.setZp (B.slot .mulPending) 0).zp (B.slot .feMulI)) true).1 with hm1
  have hidx : (m1.zp (B.slot .feMulI)).toNat = i := by
    rw [hm1, setZp_zp_slot (by decide), setZp_zp_slot (by decide), h.index]
  set v := m1.ram (m1.op .loadSrc1 + (m1.zp (B.slot .feMulI)).toNat) with hv
  have hbound : Spends B L (.block [.ldaImm 0, .sta (.slot .mulPending), .ldaImm 63, .sec,
      .sbc (.slot .feMulI), .sta (.slot .mulBound)]) s (.tick 15)
      fun t => t.m = m1 ∧ t.stack = s.stack :=
    Straight.spends (.of_quiet rfl trivial (by simp)) ⟨by simp [hm1], rfl⟩
  have hload : Spends B L (.block ([.ldaImm 0, .sta (.slot .mulPending), .ldaImm 63, .sec,
      .sbc (.slot .feMulI), .sta (.slot .mulBound)] ++
      [.ldy (.slot .feMulI), .lda (.patchedY .loadSrc1)])) s (.tick (15 + 7))
      fun t => t.m = m1 ∧ t.a = v ∧ t.stack = s.stack := by
    refine Takes.append hbound ?_
    rintro t ⟨htm, hts⟩
    have hwin : Within (t.m.op .loadSrc1) (t.m.zp (B.slot .feMulI)).toNat := by
      rw [htm, hidx, show m1.op .loadSrc1 = a.addr from h.src1]
      exact a.within hi
    refine Straight.spends (.of_quiet rfl hwin rfl) ⟨htm, ?_, hts⟩
    rw [hv, ← htm]
    simp [hwin.indexed]
  refine Takes.seq hload ?_
  rintro t ⟨htm, hta, hts⟩
  -- the row, staged and patched in
  have hrow : Does B L (mulRowAsm B) t (mulRowBill B L) (mulRow B s.m) := by
    have hready : MulReady B t.m := by
      rw [htm, hm1]
      exact hr.work ((h.frame.setSlot rfl).setSlot rfl)
    have heq : mulRow B s.m = if B.onchip then mulRowGen B t.a t.m else mulRowDma B t.a t.m := by
      rw [hta, htm]
      rfl
    rw [heq]
    cases hon : B.onchip
    · refine mulRowDma_does hon ?_ (hready.live hon)
      rw [htm, hm1]
      exact (h.latch hon).congr rfl rfl
    · refine mulRowGen_does (b := b) hon ?_ ?_
      · rw [htm]
        exact (h.gen hon).1
      · rw [htm]
        exact (h.gen hon).2
  refine Takes.seq hrow ?_
  rintro t2 ⟨ht2m, ht2s⟩
  refine Takes.seq mulPatch_spends ?_
  rintro t3 ⟨ht3m, ht3c, ht3x, ht3s⟩
  have hhead : mulPatch B (mulRow B s.m) = (false, u) :=
    Prod.ext (congrArg Inner.c hs.head) (congrArg Inner.s hs.head)
  rw [ht2m, hhead] at ht3m ht3c
  -- its bodies, the ripple, and the index
  refine Takes.seq (mulInner_spends hs.ready hs.pend hi hs.room ht3m ht3c ht3x) ?_
  rintro t4 ⟨ht4m, _, ht4x, ht4s⟩
  have hwi : (w.s.zp (B.slot .feMulI)).toNat = i := by
    rw [hat.inZp.slot (by simp)]
    exact hs.index
  refine Takes.seqTick (mulRipple_does (c := w.c) ht4x (by rw [ht4m]; exact hwi) hi) ?_
  rintro t5 ⟨ht5m, ht5s⟩
  have hwe : (⟨32, w.c, t4.m⟩ : Inner) = w := by
    rw [ht4m]
    exact congrArg (fun x => (⟨x, w.c, w.s⟩ : Inner)) hat.cursor.symm
  rw [hwe] at ht5m
  have hout : mulOuter B s.m = ((mulRipple B w).setZp (B.slot .feMulI)
      ((mulRipple B w).zp (B.slot .feMulI) + 1), !cmp (((mulRipple B w).setZp (B.slot .feMulI)
        ((mulRipple B w).zp (B.slot .feMulI) + 1)).zp (B.slot .feMulI)) 32) := by
    rw [← heq, ← hs.head]
    rfl
  rw [hout] at hnext ⊢
  refine Straight.spends (.of_quiet rfl trivial (by simp)) ⟨?_, ?_, ?_⟩
  · rw [← ht5m]
    simp
  · rw [← ht5m] at hnext
    have hc := congrArg (fun b => !b) hnext
    simp only [Bool.not_not] at hc
    refine Eq.trans ?_ (hc.trans ?_)
    · simp
    · rw [← decide_not]
      exact decide_eq_decide.2 not_lt
  · exact ht5s.trans (ht4s.trans (ht3s.trans (ht2s.trans hts)))

/-! ## The routine -/

/-- What the rows cost together. -/
def mulOuterBill (B : Build) (L : Link) : Bill Label :=
  ((List.range 32).map (mulTurnBill B L)).sum
    + .tick (31 * (2 + 3) + (3 + (L.crosses .mulDone).toNat))

/-- What `fe25519_mul` costs. -/
def fe25519MulBill (B : Build) (L : Link) : Bill Label :=
  .tick (if B.onchip then 0 else 10) + (.tick (reuClearWideCycles B L + 12) +
    (.tick ((if B.onchip then 54 else 38) + 14 + 5) + (mulOuterBill B L +
      (.tick (feReduceWideCycles L + 12) + .tick (copyResultCycles L .mulCopyResult)))))

/-- The defensive register writes. -/
theorem entryStores_does : Does B L (.block (entryStoresAsm B)) s
    (.tick (if B.onchip then 0 else 10)) (entryStores B s.m) := by
  rw [entryStoresAsm, entryStores]
  split
  · exact Straight.spends (.of_quiet rfl trivial rfl) ⟨rfl, rfl⟩
  · exact Straight.spends (.of_quiet rfl trivial rfl) ⟨rfl, rfl⟩

/-- The operands of the multiplication, patched, and its index. -/
theorem mulEntry_does : Does B L (.block (patchPtrAsm ([.ldySrc2 .a, .ldySrc2 .b, .ldySrc2 .c,
        .ldySrc2 .d] ++ if B.onchip then [.genSrc2A, .genSrc2B] else []) .fe25519Src2 ++
      patchPtrAsm [.loadSrc1] .fe25519Src1 ++ [.ldaImm 0, .sta (.slot .feMulI)])) s
    (.tick ((if B.onchip then 54 else 38) + 14 + 5))
    (((if B.onchip then (s.m.patchPtr B [.ldySrc2 .a, .ldySrc2 .b, .ldySrc2 .c, .ldySrc2 .d]
        .fe25519Src2).patchPtr B [.genSrc2A, .genSrc2B] .fe25519Src2
      else s.m.patchPtr B [.ldySrc2 .a, .ldySrc2 .b, .ldySrc2 .c, .ldySrc2 .d] .fe25519Src2).patchPtr
        B [.loadSrc1] .fe25519Src1).setZp (B.slot .feMulI) 0) := by
  have hsrc2 : Does B L (.block (patchPtrAsm ([.ldySrc2 .a, .ldySrc2 .b, .ldySrc2 .c,
      .ldySrc2 .d] ++ if B.onchip then [.genSrc2A, .genSrc2B] else []) .fe25519Src2)) s
      (.tick (if B.onchip then 54 else 38))
      (if B.onchip then (s.m.patchPtr B [.ldySrc2 .a, .ldySrc2 .b, .ldySrc2 .c, .ldySrc2 .d]
        .fe25519Src2).patchPtr B [.genSrc2A, .genSrc2B] .fe25519Src2
      else s.m.patchPtr B [.ldySrc2 .a, .ldySrc2 .b, .ldySrc2 .c, .ldySrc2 .d] .fe25519Src2) := by
    split
    · rw [patchPtr_append]
      exact patchPtr_does.cast rfl
    · exact patchPtr_does.cast rfl
  set m2 := if B.onchip then (s.m.patchPtr B [.ldySrc2 .a, .ldySrc2 .b, .ldySrc2 .c, .ldySrc2 .d]
      .fe25519Src2).patchPtr B [.genSrc2A, .genSrc2B] .fe25519Src2
    else s.m.patchPtr B [.ldySrc2 .a, .ldySrc2 .b, .ldySrc2 .c, .ldySrc2 .d] .fe25519Src2
  have hsrc1 : Does B L (.block (patchPtrAsm ([.ldySrc2 .a, .ldySrc2 .b, .ldySrc2 .c,
        .ldySrc2 .d] ++ if B.onchip then [.genSrc2A, .genSrc2B] else []) .fe25519Src2 ++
      patchPtrAsm [.loadSrc1] .fe25519Src1)) s (.tick ((if B.onchip then 54 else 38) + 14))
      (m2.patchPtr B [.loadSrc1] .fe25519Src1) :=
    Takes.append hsrc2 fun t ht => (patchPtr_does.cast rfl).mono fun v hv =>
      ⟨by rw [hv.1, ht.1], hv.2.trans ht.2⟩
  refine Takes.append hsrc1 ?_
  rintro t ⟨htm, hts⟩
  refine Straight.spends (.of_quiet rfl trivial rfl)
    ⟨?_, hts⟩
  rw [← htm]
  rfl

/-- **`fe25519_mul`.** -/
theorem fe25519Mul_does (hr : MulReady B s.m) (h1 : s.m.ptr B .fe25519Src1 = a.addr)
    (h2 : s.m.ptr B .fe25519Src2 = b.addr) (hd : s.m.ptr B .fe25519Dst = d.addr) :
    Does B L (fe25519MulAsm B) s (fe25519MulBill B L) (fe25519Mul B s.m) := by
  refine Takes.seq entryStores_does ?_
  rintro t1 ⟨ht1m, ht1s⟩
  refine Takes.seq (Does.call (reuClearWide_does (s := t1.push .ret))) ?_
  rintro t2 ⟨ht2m, ht2s⟩
  refine Takes.seq mulEntry_does ?_
  rintro t3 ⟨ht3m, ht3s⟩
  have hentry : t3.m = mulEntry B s.m := by
    rw [ht3m, ht2m, mulEntry, ← ht1m]
    rfl
  -- the rows
  have hrows : Does B L (mulOuterAsm B) t3 (mulOuterBill B L) (mulTurn B s.m 32) := by
    refine (Takes.loopUntil (N := 32) (b := mulTurnBill B L) (I := fun i (t : Core) =>
      t.m = mulTurn B s.m i ∧ t.stack = t3.stack) (Nat.succ_pos _)
      (Nat.le_of_ble_eq_true rfl) ⟨hentry, rfl⟩ ?_)
    rintro i hi t ⟨htm, hts⟩
    have hinv : MulInv B a b s.m i t.m := by
      rw [htm]
      exact mulTurn_spec hr h1 h2 hi.le
    refine (mulTurn_does hr hinv hi).mono ?_
    rintro v ⟨hvm, hvc, hvs⟩
    refine ⟨⟨?_, hvs.trans hts⟩, hvc⟩
    rw [hvm, htm, mulTurn_succ]
  refine Takes.seq hrows ?_
  rintro t4 ⟨ht4m, ht4s⟩
  -- the reduction, and the result
  refine Takes.seqTick (Does.call (feReduceWide_does (s := t4.push .ret))) ?_
  rintro t5 ⟨ht5m, ht5s⟩
  have hwide : fe25519MulWide B s.m = t4.m := by
    rw [fe25519MulWide_eq hr h1 h2, ht4m]
  have hframe : Frame B B.mem.work s.m t5.m := by
    rw [ht5m]
    refine Frame.trans ?_ (feReduceWide_spec.2.frame (by decide))
    change Frame B B.mem.work s.m t4.m
    rw [← hwide]
    exact (fe25519MulWide_spec hr h1 h2).2
  refine (copyResult_does (d := d) ((hframe.ptr rfl rfl).trans hd)).mono ?_
  rintro v ⟨hvm, hvs⟩
  refine ⟨?_, ?_⟩
  · rw [hvm, ht5m, fe25519Mul, hwide]
    rfl
  · exact hvs.trans (ht5s.trans (ht4s.trans (ht3s.trans (ht2s.trans ht1s))))

end C64X25519
