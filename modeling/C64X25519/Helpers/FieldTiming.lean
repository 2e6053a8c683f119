import C64X25519.Helpers.Moves
import C64X25519.Helpers.Timing
/-!
# The timing of the byte loops

Copy, zero, one, add, subtract, the canonical reduction and the conditional
swap: the listing of each ends with the machine of the routine, at a cost
the build alone decides.
-/

namespace C64X25519

open Machine

variable {B : Build} {L : Link} {s : Core} {d a b : FieldBuf B.mem} {ld st : Site} {lab : Label}

/-! ## The cycles -/

/-- What `fe25519_copy` costs. -/
def fe25519CopyCycles (L : Link) : ℕ := 2 + loopCycles L .copyLoop 32 13

/-- What `fe25519_zero` costs. -/
def fe25519ZeroCycles (L : Link) : ℕ := 4 + loopCycles L .zeroLoop 32 8

/-- What `fe25519_one` costs. -/
def fe25519OneCycles (L : Link) : ℕ := fe25519ZeroCycles L + 12 + 10

/-- What `fe_cmp_p_ct` costs. -/
def feCmpPCtCycles (L : Link) : ℕ := 20 + (loopCycles L .cmpLoop 32 12 + 9)

/-- What `fe25519_add` costs. -/
def fe25519AddCycles (L : Link) : ℕ :=
  64 + (loopCycles L .addLoop 32 17 + (9 + (feCmpPCtCycles L + 12 +
    (12 + loopCycles L .addSubP 32 26))))

/-- What `fe25519_sub` costs. -/
def fe25519SubCycles (L : Link) : ℕ :=
  64 + (loopCycles L .subLoop 32 17 + (7 + (6 + loopCycles L .subAddP 32 26)))

/-- What an iteration of the canonical reduction costs. -/
def reduceIterationCycles (L : Link) (lab : Label) : ℕ :=
  feCmpPCtCycles L + 12 + (6 + loopCycles L lab 32 26)

/-- What `fe25519_reduce_final` costs. -/
def fe25519ReduceFinalCycles (L : Link) : ℕ :=
  38 + (reduceIterationCycles L .subP1 + reduceIterationCycles L .subP2)

/-- What `fe25519_cswap` costs. -/
def fe25519CswapCycles (L : Link) : ℕ := 177 + loopCycles L .cswapLoop 8 160

/-! ## Loops of one addition or subtraction

`sub` tells the two apart, and is also the carry each starts from. -/

/-- The addition or the subtraction of a byte. -/
def alu (sub : Bool) : Byte → Byte → Bool → Byte × Bool := bif sub then sbc else adc

/-- And its instruction. -/
def aluOp (sub : Bool) (p : Operand) : Op := bif sub then .sbc p else .adc p

theorem feP_within {i : ℕ} (hi : i < 32) : Within (B.mem.data + Table.feP.offset) i := by
  have h := B.mem.data_aligned
  have h' := (B.mem.placed (B.mem.data, 0xb00) (by simp)).2.1
  simp only at h'
  exact ⟨by simp only [Table.offset]; omega, by simp only [Table.offset]; omega⟩

/-- A loop over two operands and a destination. -/
theorem sum_spends (sub : Bool) {ld1 ld2 st : Site} (h1 : s.m.op ld1 = a.addr)
    (h2 : s.m.op ld2 = b.addr) (hd : s.m.op st = d.addr) (hy : s.y = 0) (hx : s.x = 32)
    (hc : s.c = sub) {body : ℕ → Machine × Bool → Machine × Bool} (hbody : ∀ y t, body y t =
      let r := alu sub (t.1.ram (t.1.op ld1 + y)) (t.1.ram (t.1.op ld2 + y)) t.2
      (t.1.setRam (t.1.op st + y) r.1, r.2)) :
    Spends B L (.loop (.block [.lda (.patchedY ld1), aluOp sub (.patchedY ld2),
      .sta (.patchedY st), .iny, .dex]) (.bne lab)) s (.tick (loopCycles L lab 32 17))
      fun t => (t.m, t.c) = loopUp body 32 (s.m, sub) ∧ SameOps s.m t.m ∧ t.m.zp = s.m.zp ∧
        t.stack = s.stack := by
  refine (Spends.upLoop (I := fun k m c => (m, c) = loopUp body k (s.m, sub) ∧ SameOps s.m m ∧
    m.zp = s.m.zp) (n := 13)
    (l := [.lda (.patchedY ld1), aluOp sub (.patchedY ld2), .sta (.patchedY st)])
    hy hx ⟨by rw [hc, loopUp_zero], ⟨rfl, rfl⟩, rfl⟩ ?_).mono fun t ht =>
    ⟨ht.1.1, ht.1.2.1, ht.1.2.2, ht.2⟩
  rintro _ hk t rfl ⟨hI, hops, hzp⟩
  have hw1 : Within (t.m.op ld1) t.y.toNat := by rw [hops.op, h1]; exact a.within hk
  have hw2 : Within (t.m.op ld2) t.y.toNat := by rw [hops.op, h2]; exact b.within hk
  have hw : Within (t.m.op st) t.y.toNat := by rw [hops.op, hd]; exact d.within hk
  rw [loopUp_succ, ← hI, hbody]
  simp only [← hw1.indexed, ← hw2.indexed, ← hw.indexed]
  cases sub
  · exact ⟨⟨rfl, rfl, rfl, cost_eq rfl (And.intro hw1 hw2)⟩, rfl, rfl, rfl, hops, hzp⟩
  · exact ⟨⟨rfl, rfl, rfl, cost_eq rfl (And.intro hw1 hw2)⟩, rfl, rfl, rfl, hops, hzp⟩

/-- A loop over the masked bytes of `p`. -/
theorem masked_does (sub : Bool) (hld : s.m.op ld = d.addr) (hst : s.m.op st = d.addr)
    (hy : s.y = 0) (hx : s.x = 32) (hc : s.c = sub)
    {body : ℕ → Machine × Bool → Machine × Bool} (hbody : ∀ y t, body y t =
      let s := maskP B y t.1
      let r := alu sub (s.ram (s.op ld + y)) (s.zp (B.slot .feSubpRhs)) t.2
      (s.setRam (s.op st + y) r.1, r.2)) :
    Does B L (maskedAsm ld (aluOp sub (.slot .feSubpRhs)) st lab) s
      (.tick (loopCycles L lab 32 26)) (loopUp body 32 (s.m, sub)).1 := by
  refine (Spends.upLoop (I := fun k m c => (m, c) = loopUp body k (s.m, sub) ∧
    m.op ld = d.addr ∧ m.op st = d.addr) (n := 22)
    (l := [.lda (.table .feP), .and (.slot .feCmpMask), .sta (.slot .feSubpRhs),
      .lda (.patchedY ld), aluOp sub (.slot .feSubpRhs), .sta (.patchedY st)])
    hy hx ⟨by rw [hc, loopUp_zero], hld, hst⟩ ?_).mono fun t ht =>
    ⟨by rw [← ht.1.1], ht.2⟩
  rintro _ hk t rfl ⟨hI, hld', hst'⟩
  have hw : Within (t.m.op ld) t.y.toNat := by rw [hld']; exact d.within hk
  have hw' : Within (t.m.op st) t.y.toNat := by rw [hst']; exact d.within hk
  have hlda : (maskP B t.y.toNat t.m).op ld + t.y.toNat = indexed (t.m.op ld) t.y.toNat :=
    hw.indexed.symm
  have hsta : (maskP B t.y.toNat t.m).op st + t.y.toNat = indexed (t.m.op st) t.y.toNat :=
    hw'.indexed.symm
  rw [loopUp_succ, ← hI, hbody]
  simp only [hlda, hsta]
  cases sub
  · exact ⟨⟨rfl, rfl, rfl, cost_eq rfl (And.intro (feP_within hk) hw)⟩, rfl, rfl, rfl, hld', hst'⟩
  · exact ⟨⟨rfl, rfl, rfl, cost_eq rfl (And.intro (feP_within hk) hw)⟩, rfl, rfl, rfl, hld', hst'⟩

/-! ## The comparison with `p` -/

theorem feCmpPCt_spends (hd : s.m.ptr B .fe25519Dst = d.addr) :
    Spends B L feCmpPCtAsm s (.tick (feCmpPCtCycles L)) fun t => t.m = (feCmpPCt B s.m).2 ∧
      t.a = (feCmpPCt B s.m).1 ∧ t.stack = s.stack := by
  have hm : (s.m.patchPtr B [.cmpLdDst] .fe25519Dst).op .cmpLdDst = d.addr := by
    rw [op_patchPtr (List.mem_singleton_self _), hd]
  set m := s.m.patchPtr B [.cmpLdDst] .fe25519Dst
  let body := fun y c => (sbc (m.ram (m.op .cmpLdDst + y)) (feP y) c).2
  unfold feCmpPCtCycles
  refine Takes.seqTick (R := fun t => t.m = m ∧ t.y = 0 ∧ t.x = 32 ∧ t.c = true ∧ t.stack = s.stack)
    ((Takes.append patchPtr_spends fun t ht =>
      Straight.spends (n := 6) ⟨rfl, rfl, rfl, rfl⟩ ?_).cast rfl) ?_
  · rw [ht]
    exact ⟨rfl, rfl, rfl, rfl, rfl⟩
  rintro t ⟨h1, h2, h3, h4, h5⟩
  refine Takes.seqTick (Spends.upLoop (n := 8) (I := fun k m' c => m' = m ∧ c = loopUp body k true)
    (l := [.lda (.patchedY .cmpLdDst), .sbc (.table .feP)]) h2 h3 ⟨h1, by rw [h4, loopUp_zero]⟩ ?_) ?_
  · rintro _ hk v rfl ⟨hvm, hvc⟩
    have hw : Within (v.m.op .cmpLdDst) v.y.toNat := by rw [hvm, hm]; exact d.within hk
    refine ⟨⟨rfl, rfl, rfl, cost_eq rfl (And.intro hw (feP_within hk))⟩, rfl, rfl, hvm, ?_⟩
    rw [loopUp_succ, ← hvc]
    change (sbc (v.m.ram (indexed (v.m.op .cmpLdDst) v.y.toNat)) (feP v.y.toNat) v.c).2 = _
    rw [hw.indexed, hvm]
  · rintro u ⟨⟨hum, huc⟩, hus⟩
    refine Straight.spends ⟨rfl, rfl, rfl, rfl⟩ ?_
    have ha : (sbc 0 0 u.c).1 ^^^ 0xff = (feCmpPCt B s.m).1 := by rw [huc]; rfl
    refine ⟨?_, ha, hus.trans h5⟩
    change u.m.setZp _ ((sbc 0 0 u.c).1 ^^^ 0xff) = _
    rw [ha, hum]
    rfl

/-- The comparison as a call. -/
theorem feCmpPCt_call (hd : s.m.ptr B .fe25519Dst = d.addr) :
    Spends B L (.call feCmpPCtAsm) s (.tick (feCmpPCtCycles L + 12)) fun t =>
      t.m = (feCmpPCt B s.m).2 ∧ t.a = (feCmpPCt B s.m).1 ∧ t.stack = s.stack :=
  Spends.call ((feCmpPCt_spends (s := s.push .ret) hd).mono fun _ ht =>
    ⟨ht.2.2, ht.1, ht.2.1, rfl⟩)

/-! ## Addition, subtraction, reduction -/

/-- The patches at the entry of the two. -/
theorem entry_spends {l1 l2 l3 : List Site} (sub : Bool) :
    Spends B L (.block (patchPtrAsm l1 .fe25519Src1 ++ patchPtrAsm l2 .fe25519Src2 ++
      patchPtrAsm l3 .fe25519Dst ++ [bif sub then .sec else .clc, .ldyImm 0, .ldxImm 32])) s
      (.tick (6 + 8 * l1.length + (6 + 8 * l2.length) + (6 + 8 * l3.length) + 6))
      fun t => t.m = ((s.m.patchPtr B l1 .fe25519Src1).patchPtr B l2 .fe25519Src2).patchPtr B l3
        .fe25519Dst ∧ t.y = 0 ∧ t.x = 32 ∧ t.c = sub ∧ t.stack = s.stack := by
  refine Takes.append (R := fun t => t.m = ((s.m.patchPtr B l1 .fe25519Src1).patchPtr B l2
      .fe25519Src2).patchPtr B l3 .fe25519Dst ∧ t.stack = s.stack)
    (Takes.append (R := fun t => t.m = (s.m.patchPtr B l1 .fe25519Src1).patchPtr B l2
      .fe25519Src2 ∧ t.stack = s.stack) (Takes.append patchPtr_spends ?_) ?_) ?_
  · rintro t rfl
    refine patchPtr_spends.mono ?_
    rintro u rfl
    exact ⟨rfl, rfl⟩
  · rintro t ⟨htm, hts⟩
    refine patchPtr_spends.mono ?_
    rintro u rfl
    exact ⟨congrArg (patchPtr B l3 .fe25519Dst) htm, hts⟩
  · rintro t ⟨htm, hts⟩
    cases sub
    · exact Straight.spends ⟨rfl, rfl, rfl, rfl⟩ ⟨htm, rfl, rfl, rfl, hts⟩
    · exact Straight.spends ⟨rfl, rfl, rfl, rfl⟩ ⟨htm, rfl, rfl, rfl, hts⟩

theorem ptr_setSlot {m : Machine} {x y : Slot} {v : Byte} (hx : x.work = true)
    (hy : y.work = false) (h2 : y.size = 2) : (m.setZp (B.slot x) v).ptr B y = m.ptr B y :=
  ((Frame.refl (B := B) (D := fun _ => False) m).setSlot hx).ptr hy h2

theorem fe25519Add_does (h1 : s.m.ptr B .fe25519Src1 = a.addr)
    (h2 : s.m.ptr B .fe25519Src2 = b.addr) (hd : s.m.ptr B .fe25519Dst = d.addr) :
    Does B L fe25519AddAsm s (.tick (fe25519AddCycles L)) (fe25519Add B s.m) := by
  unfold fe25519AddCycles
  refine Takes.seqTick (entry_spends false) ?_
  rintro t ⟨htm, hty, htx, htc, hts⟩
  have hop : t.m.op .addLdSrc1 = a.addr ∧ t.m.op .addLdSrc2 = b.addr ∧
      ∀ x ∈ [Site.addStDst, .addSubLdDst, .addSubStDst], t.m.op x = d.addr := by
    rw [htm]
    simp [op_patchPtr, op_patchPtr_of_not_mem, h1, h2, hd]
  obtain ⟨ho1, ho2, hod⟩ := hop
  have htd : t.m.ptr B .fe25519Dst = d.addr := by rw [htm]; exact hd
  refine Takes.seqTick (sum_spends false ho1 ho2 (hod _ (by simp)) hty htx htc
    fun _ _ => rfl) ?_
  rintro u ⟨hu, hops, hzp, hus⟩
  refine Takes.seqTick (R := fun v => v.m = u.m.setZp (B.slot .feAddCarryMask)
      ((sbc 0 0 u.c).1 ^^^ 0xff) ∧ v.stack = u.stack)
    (Straight.spends ⟨rfl, rfl, rfl, rfl⟩ ⟨rfl, rfl⟩) ?_
  rintro v ⟨hvm, hvs⟩
  have hvd : v.m.ptr B .fe25519Dst = d.addr := by
    rw [hvm, ptr_setSlot rfl rfl rfl, ptr_congr hzp, htd]
  refine Takes.seqTick (feCmpPCt_call hvd) ?_
  rintro w ⟨hwm, hwa, hws⟩
  refine Takes.seqTick (R := fun z => z.m = w.m.setZp (B.slot .feCmpMask)
      (w.a ||| w.m.zp (B.slot .feAddCarryMask)) ∧ z.y = 0 ∧ z.x = 32 ∧ z.c = true ∧
      z.stack = w.stack) (Straight.spends ⟨rfl, rfl, rfl, rfl⟩ ⟨rfl, rfl, rfl, rfl, rfl⟩) ?_
  rintro z ⟨hzm, hzy, hzx, hzc, hzs⟩
  have hzo : ∀ x ∈ [Site.addStDst, .addSubLdDst, .addSubStDst], z.m.op x = d.addr := by
    intro x hx
    have hne : x ≠ .cmpLdDst := by
      rintro rfl
      simp at hx
    rw [hzm, hwm]
    refine (feCmpPCt_op hne).trans ?_
    rw [hvm]
    exact (hops.op x).trans (hod x hx)
  refine (masked_does true (hzo _ (by simp)) (hzo _ (by simp)) hzy hzx hzc
    fun _ _ => rfl).mono ?_
  rintro r ⟨hrm, hrs⟩
  refine ⟨hrm.trans ?_, ?_⟩
  · rw [hzm, hwa, hwm, hvm]
    have h := congrArg Prod.fst hu
    have h' := congrArg Prod.snd hu
    simp only at h h'
    rw [h, h', htm]
    rfl
  · rw [hrs, hzs, hws, hvs, hus, hts]

theorem fe25519Sub_does (h1 : s.m.ptr B .fe25519Src1 = a.addr)
    (h2 : s.m.ptr B .fe25519Src2 = b.addr) (hd : s.m.ptr B .fe25519Dst = d.addr) :
    Does B L fe25519SubAsm s (.tick (fe25519SubCycles L)) (fe25519Sub B s.m) := by
  unfold fe25519SubCycles
  refine Takes.seqTick (entry_spends true) ?_
  rintro t ⟨htm, hty, htx, htc, hts⟩
  have hop : t.m.op .subLdSrc1 = a.addr ∧ t.m.op .subLdSrc2 = b.addr ∧
      ∀ x ∈ [Site.subStDst, .subAddLdDst, .subAddStDst], t.m.op x = d.addr := by
    rw [htm]
    simp [op_patchPtr, op_patchPtr_of_not_mem, h1, h2, hd]
  obtain ⟨ho1, ho2, hod⟩ := hop
  refine Takes.seqTick (sum_spends true ho1 ho2 (hod _ (by simp)) hty htx htc
    fun _ _ => rfl) ?_
  rintro u ⟨hu, hops, hzp, hus⟩
  refine Takes.seqTick (R := fun v => v.m = u.m.setZp (B.slot .feCmpMask) (sbc 0 0 u.c).1 ∧
      v.stack = u.stack) (Straight.spends ⟨rfl, rfl, rfl, rfl⟩ ⟨rfl, rfl⟩) ?_
  rintro v ⟨hvm, hvs⟩
  refine Takes.seqTick (R := fun z => z.m = v.m ∧ z.y = 0 ∧ z.x = 32 ∧ z.c = false ∧
      z.stack = v.stack) (Straight.spends ⟨rfl, rfl, rfl, rfl⟩ ⟨rfl, rfl, rfl, rfl, rfl⟩) ?_
  rintro z ⟨hzm, hzy, hzx, hzc, hzs⟩
  have hzo : ∀ x ∈ [Site.subStDst, .subAddLdDst, .subAddStDst], z.m.op x = d.addr := by
    intro x hx
    rw [hzm, hvm]
    exact (hops.op x).trans (hod x hx)
  refine (masked_does false (hzo _ (by simp)) (hzo _ (by simp)) hzy hzx hzc
    fun _ _ => rfl).mono ?_
  rintro r ⟨hrm, hrs⟩
  refine ⟨hrm.trans ?_, ?_⟩
  · rw [hzm, hvm]
    have h := congrArg Prod.fst hu
    have h' := congrArg Prod.snd hu
    simp only at h h'
    rw [h, h', htm]
    rfl
  · rw [hrs, hzs, hvs, hus, hts]

/-- A masked subtraction leaves the pointers and the operands. -/
theorem maskedSubP_keeps (ld st : Site) {m : Machine} {x : Slot} (hx : x.work = false) (h2 : x.size = 2) :
    (maskedSubP B ld st m).ptr B x = m.ptr B x ∧ SameOps m (maskedSubP B ld st m) := by
  have h := loopUp_inv (f := fun y (t : Machine × Bool) =>
      let s := maskP B y t.1
      let r := sbc (s.ram (s.op ld + y)) (s.zp (B.slot .feSubpRhs)) t.2
      (s.setRam (s.op st + y) r.1, r.2)) (s := (m, true)) (n := 32)
    (fun _ t => t.1.ptr B x = m.ptr B x ∧ SameOps m t.1) ⟨rfl, rfl, rfl⟩
    fun k _ t ht => ⟨(ptr_setSlot (m := t.1) (x := .feSubpRhs) rfl hx h2).trans ht.1, ht.2⟩
  exact h

theorem reduceIteration_does (hd : s.m.ptr B .fe25519Dst = d.addr) (hld : s.m.op ld = d.addr)
    (hst : s.m.op st = d.addr) (hld' : ld ≠ .cmpLdDst) (hst' : st ≠ .cmpLdDst) :
    Does B L (reduceIterationAsm ld st lab) s (.tick (reduceIterationCycles L lab))
      (maskedSubP B ld st (feCmpPCt B s.m).2) := by
  unfold reduceIterationCycles
  refine Takes.seqTick (feCmpPCt_call hd) ?_
  rintro t ⟨htm, _, hts⟩
  refine Takes.seqTick (R := fun z => z.m = t.m ∧ z.y = 0 ∧ z.x = 32 ∧ z.c = true ∧
      z.stack = t.stack) (Straight.spends ⟨rfl, rfl, rfl, rfl⟩ ⟨rfl, rfl, rfl, rfl, rfl⟩) ?_
  rintro z ⟨hzm, hzy, hzx, hzc, hzs⟩
  have hzld : z.m.op ld = d.addr := by rw [hzm, htm]; exact (feCmpPCt_op hld').trans hld
  have hzst : z.m.op st = d.addr := by rw [hzm, htm]; exact (feCmpPCt_op hst').trans hst
  refine (masked_does true hzld hzst hzy hzx hzc fun _ _ => rfl).mono ?_
  rintro r ⟨hrm, hrs⟩
  refine ⟨hrm.trans ?_, ?_⟩
  · rw [hzm, htm]
    rfl
  · rw [hrs, hzs, hts]

theorem fe25519ReduceFinal_does (hd : s.m.ptr B .fe25519Dst = d.addr) :
    Does B L fe25519ReduceFinalAsm s (.tick (fe25519ReduceFinalCycles L))
      (fe25519ReduceFinal B s.m) := by
  unfold fe25519ReduceFinalCycles
  set m := s.m.patchPtr B [.subLdDst1, .subStDst1, .subLdDst2, .subStDst2] .fe25519Dst
  have hop : ∀ x ∈ [Site.subLdDst1, .subStDst1, .subLdDst2, .subStDst2], m.op x = d.addr :=
    fun x hx => (op_patchPtr hx).trans hd
  have hmd : m.ptr B .fe25519Dst = d.addr := hd
  refine Takes.seqTick patchPtr_spends fun t ht => ?_
  have htm : t.m = m := by rw [ht]
  have hts : t.stack = s.stack := by rw [ht]
  rw [← htm] at hop hmd
  refine Takes.seqTick (reduceIteration_does hmd (hop _ (by simp)) (hop _ (by simp)) (by decide)
    (by decide)) ?_
  rintro u ⟨hum, hus⟩
  obtain ⟨hptr, hops⟩ := maskedSubP_keeps (B := B) .subLdDst1 .subStDst1
    (m := (feCmpPCt B t.m).2) (x := .fe25519Dst) rfl rfl
  have hud : u.m.ptr B .fe25519Dst = d.addr := by
    rw [hum, hptr]
    exact (ptr_setSlot (m := t.m.patchPtr B [.cmpLdDst] .fe25519Dst) (x := .feCmpMask) rfl rfl
      rfl).trans hmd
  have huo : ∀ x ∈ [Site.subLdDst2, .subStDst2], u.m.op x = d.addr := by
    intro x hx
    have hne : x ≠ .cmpLdDst := by
      rintro rfl
      simp at hx
    rw [hum, hops.op, feCmpPCt_op hne]
    exact hop x (List.mem_cons_of_mem _ (List.mem_cons_of_mem _ hx))
  refine (reduceIteration_does hud (huo _ (by simp)) (huo _ (by simp)) (by decide)
    (by decide)).mono ?_
  rintro v ⟨hvm, hvs⟩
  refine ⟨?_, ?_⟩
  · rw [hvm, hum, htm]
    rfl
  · rw [hvs, hus, hts]

/-! ## Copy, zero, one -/

/-- A pointer at a field buffer is followed within a page. -/
theorem indexed_ptr {x : Slot} {i : ℕ} (hd : s.m.ptr B x = d.addr) (hi : i < 32) :
    Within (s.m.ptr B x) i := by
  rw [hd]
  exact d.within hi

theorem fe25519Copy_does (h1 : s.m.ptr B .fe25519Src1 = a.addr)
    (hd : s.m.ptr B .fe25519Dst = d.addr) :
    Does B L fe25519CopyAsm s (.tick (fe25519CopyCycles L)) (fe25519Copy B s.m) := by
  unfold fe25519CopyCycles
  refine Takes.seqTick (R := fun t => t.m = s.m ∧ t.y = 31 ∧ t.stack = s.stack)
    (Straight.spends ⟨rfl, rfl, rfl, rfl⟩ ⟨rfl, rfl, rfl⟩) ?_
  rintro t ⟨htm, hty, hts⟩
  refine ((Spends.downLoop (N := 32) (n := 11) (K := fun _ => True)
    (I := fun k m => loopDown (fun y s => s.setRam (s.ptr B .fe25519Dst + y)
      (s.ram (s.ptr B .fe25519Src1 + y))) k m = fe25519Copy B s.m ∧
      m.ptr B .fe25519Src1 = a.addr ∧ m.ptr B .fe25519Dst = d.addr)
    (l := [.lda (.indY .fe25519Src1), .sta (.indY .fe25519Dst)]) countsDown_dey (by decide)
    (by decide) (by rw [hty]; rfl) ⟨by rw [htm]; rfl, by rw [htm]; exact h1, by rw [htm]; exact hd⟩
    trivial ?_)).mono ?_
  · rintro _ hk u rfl - ⟨hI, hu1, hud⟩
    have hw1 : Within (u.m.ptr B .fe25519Src1) u.y.toNat := indexed_ptr hu1 hk
    have hwd : Within (u.m.ptr B .fe25519Dst) u.y.toNat := indexed_ptr hud hk
    refine ⟨⟨rfl, rfl, rfl, cost_eq rfl hw1⟩, rfl, ⟨?_, hu1, hud⟩, trivial⟩
    rw [← hI, loopDown_succ, ← hw1.indexed, ← hwd.indexed]
    rfl
  · rintro u ⟨⟨hum, -⟩, hus⟩
    refine ⟨?_, hus.trans hts⟩
    rw [← hum, loopDown_zero]

theorem fe25519Zero_does (hd : s.m.ptr B .fe25519Dst = d.addr) :
    Does B L fe25519ZeroAsm s (.tick (fe25519ZeroCycles L)) (fe25519Zero B s.m) := by
  unfold fe25519ZeroCycles
  refine Takes.seqTick (R := fun t => t.m = s.m ∧ t.a = 0 ∧ t.y = 31 ∧ t.stack = s.stack)
    (Straight.spends ⟨rfl, rfl, rfl, rfl⟩ ⟨rfl, rfl, rfl, rfl⟩) ?_
  rintro t ⟨htm, hta, hty, hts⟩
  refine ((Spends.downLoop (N := 32) (n := 6) (K := fun t => t.a = 0)
    (I := fun k m => loopDown (fun y s => s.setRam (s.ptr B .fe25519Dst + y) 0) k m
      = fe25519Zero B s.m ∧ m.ptr B .fe25519Dst = d.addr)
    (l := [.sta (.indY .fe25519Dst)]) countsDown_dey (by decide) (by decide) (by rw [hty]; rfl)
    ⟨by rw [htm]; rfl, by rw [htm]; exact hd⟩ hta ?_)).mono ?_
  · rintro _ hk u rfl hua ⟨hI, hud⟩
    have hwd : Within (u.m.ptr B .fe25519Dst) u.y.toNat := indexed_ptr hud hk
    refine ⟨⟨rfl, rfl, rfl, cost_eq rfl trivial⟩, rfl, ⟨?_, hud⟩, hua⟩
    rw [← hI, loopDown_succ, ← hwd.indexed, ← hua]
    rfl
  · rintro u ⟨⟨hum, -⟩, hus⟩
    refine ⟨?_, hus.trans hts⟩
    rw [← hum, loopDown_zero]

theorem fe25519One_does (hd : s.m.ptr B .fe25519Dst = d.addr) :
    Does B L fe25519OneAsm s (.tick (fe25519OneCycles L)) (fe25519One B s.m) := by
  unfold fe25519OneCycles
  refine Takes.seqTick (Does.call (fe25519Zero_does (s := s.push .ret) hd)) ?_
  rintro t ⟨htm, hts⟩
  have htd : t.m.ptr B .fe25519Dst = d.addr := by
    rw [htm]
    exact (ptr_congr (fe25519Zero_spec hd).2.2 _).trans hd
  have hwd : Within (t.m.ptr B .fe25519Dst) (0 : Byte).toNat := indexed_ptr htd (by decide)
  refine Straight.spends ⟨rfl, rfl, rfl, rfl⟩ ⟨?_, hts⟩
  change t.m.setRam (indexed (t.m.ptr B .fe25519Dst) (0 : Byte).toNat) 1 = _
  rw [hwd.indexed, htm]
  rfl

/-! ## The conditional swap -/

/-- The operands of the swap, patched. -/
def CswapOps (a b : FieldBuf B.mem) (m : Machine) : Prop :=
  ∀ u : Body, m.op (.ldA u) = a.addr ∧ m.op (.stA u) = a.addr ∧ m.op (.eorB u) = b.addr ∧
    m.op (.ldB u) = b.addr ∧ m.op (.stB u) = b.addr

theorem cswapByte_spends {u : Body} {k : ℕ} (ho : CswapOps a b s.m) (hy : s.y.toNat = k)
    (hk : k < 32) :
    Spends B L (.block (cswapByteAsm u)) s (.tick 40) fun t => t.m = cswapByte B u k s.m ∧
      t.y = s.y - 1 ∧ t.nz = s.y - 1 ∧ t.stack = s.stack := by
  subst hy
  obtain ⟨h1, h2, h3, h4, h5⟩ := ho u
  have hw1 : Within (s.m.op (.ldA u)) s.y.toNat := by rw [h1]; exact a.within hk
  have hw2 : Within (s.m.op (.stA u)) s.y.toNat := by rw [h2]; exact a.within hk
  have hw3 : Within (s.m.op (.eorB u)) s.y.toNat := by rw [h3]; exact b.within hk
  have hw4 : Within (s.m.op (.ldB u)) s.y.toNat := by rw [h4]; exact b.within hk
  have hw5 : Within (s.m.op (.stB u)) s.y.toNat := by rw [h5]; exact b.within hk
  refine Straight.spends (.of_quiet rfl (And.intro hw1 (And.intro hw3 hw4)) rfl)
    ⟨?_, rfl, rfl, rfl⟩
  simp [cswapByteAsm, cswapByte, hw1.indexed, hw2.indexed, hw3.indexed,
    hw4.indexed, hw5.indexed]

/-- One turn of the swap. -/
theorem cswapTurn_spends {k : ℕ} (ho : CswapOps a b s.m) (hy : s.y.toNat = 4 * k + 3) (hk : k < 8) :
    Spends B L (.block (cswapByteAsm .a ++ cswapByteAsm .b ++ cswapByteAsm .c ++ cswapByteAsm .d))
      s (.tick 160) fun t => (t.m = cswapByte B .d (4 * k) (cswapByte B .c (4 * k + 1)
        (cswapByte B .b (4 * k + 2) (cswapByte B .a (4 * k + 3) s.m))) ∧ t.stack = s.stack) ∧
      (0 < k → t.y.toNat = 4 * k - 1) ∧ (!t.nz.getLsbD 7) = decide (0 < k) := by
  set m1 := cswapByte B .a (4 * k + 3) s.m with hm1
  set m2 := cswapByte B .b (4 * k + 2) m1 with hm2
  set m3 := cswapByte B .c (4 * k + 1) m2 with hm3
  have ha : Spends B L (.block (cswapByteAsm .a)) s (.tick 40) fun t =>
      (t.m = m1 ∧ t.stack = s.stack) ∧ t.y.toNat = 4 * k + 2 := by
    refine (cswapByte_spends ho hy (by omega)).mono ?_
    rintro t ⟨htm, hty, -, hts⟩
    exact ⟨⟨htm, hts⟩, by rw [hty]; exact toNat_sub_one hy⟩
  have hb : Spends B L (.block (cswapByteAsm .a ++ cswapByteAsm .b)) s (.tick 80) fun t =>
      (t.m = m2 ∧ t.stack = s.stack) ∧ t.y.toNat = 4 * k + 1 := by
    refine Takes.append (n := 40) ha ?_
    rintro t ⟨⟨htm, hts⟩, hty⟩
    refine (cswapByte_spends (a := a) (b := b) (by rw [htm]; exact ho) hty (by omega)).mono ?_
    rintro u ⟨hum, huy, _, hus⟩
    exact ⟨⟨by rw [hum, htm], hus.trans hts⟩, by rw [huy]; exact toNat_sub_one hty⟩
  have hc : Spends B L (.block (cswapByteAsm .a ++ cswapByteAsm .b ++ cswapByteAsm .c)) s
      (.tick 120) fun t => (t.m = m3 ∧ t.stack = s.stack) ∧ t.y.toNat = 4 * k := by
    refine Takes.append (n := 40) hb ?_
    rintro t ⟨⟨htm, hts⟩, hty⟩
    refine (cswapByte_spends (a := a) (b := b) (by rw [htm]; exact ho) hty (by omega)).mono ?_
    rintro u ⟨hum, huy, _, hus⟩
    exact ⟨⟨by rw [hum, htm], hus.trans hts⟩, by rw [huy]; exact toNat_sub_one hty⟩
  refine Takes.append (n := 40) hc ?_
  rintro t ⟨⟨htm, hts⟩, hty⟩
  refine (cswapByte_spends (a := a) (b := b) (by rw [htm]; exact ho) hty (by omega)).mono ?_
  rintro u ⟨hum, huy, hnz, hus⟩
  refine ⟨⟨by rw [hum, htm], hus.trans hts⟩, fun hpos => ?_, ?_⟩
  · rw [huy]
    exact toNat_sub_one (by omega)
  · rw [hnz, bpl_sub_one hty (by omega)]
    exact decide_eq_decide.2 (by omega)

theorem fe25519Cswap_does (h1 : s.m.ptr B .fe25519Src1 = a.addr)
    (h2 : s.m.ptr B .fe25519Src2 = b.addr) :
    Does B L fe25519CswapAsm s (.tick (fe25519CswapCycles L)) (fe25519Cswap B s.a s.m) := by
  unfold fe25519CswapCycles
  have hp1 := ptr_setSlot (B := B) (m := s.m) (x := .feCarry) (y := .fe25519Src1) (v := s.a)
    rfl rfl rfl
  have hp2 := ptr_setSlot (B := B) (m := s.m) (x := .feCarry) (y := .fe25519Src2) (v := s.a)
    rfl rfl rfl
  set l1 : List Site := [.ldA .a, .stA .a, .ldA .b, .stA .b, .ldA .c, .stA .c, .ldA .d, .stA .d]
  set l2 : List Site := [.eorB .a, .ldB .a, .stB .a, .eorB .b, .ldB .b, .stB .b,
    .eorB .c, .ldB .c, .stB .c, .eorB .d, .ldB .d, .stB .d]
  set m1 := (s.m.setZp (B.slot .feCarry) s.a).patchPtr B l1 .fe25519Src1 with hm1
  set m := m1.patchPtr B l2 .fe25519Src2 with hm
  have hops : CswapOps a b m := by
    intro u
    cases u <;> simp [hm, hm1, l1, l2, op_patchPtr, op_patchPtr_of_not_mem, hp1, hp2, h1, h2]
  have hsta : Spends B L (.block [.sta (.slot .feCarry)]) s (.tick 3) fun t =>
      t.m = s.m.setZp (B.slot .feCarry) s.a ∧ t.stack = s.stack :=
    Straight.spends ⟨rfl, rfl, rfl, rfl⟩ ⟨rfl, rfl⟩
  have hsrc1 : Spends B L (.block ([.sta (.slot .feCarry)] ++ patchPtrAsm l1 .fe25519Src1)) s
      (.tick (3 + 70)) fun t => t.m = m1 ∧ t.stack = s.stack :=
    Takes.append hsta fun t ht => patchPtr_spends.mono fun u hu =>
      ⟨by rw [hu, hm1, ← ht.1], by rw [hu]; exact ht.2⟩
  have hsrc2 : Spends B L (.block ([.sta (.slot .feCarry)] ++ patchPtrAsm l1 .fe25519Src1 ++
      patchPtrAsm l2 .fe25519Src2)) s (.tick (3 + 70 + 102)) fun t => t.m = m ∧ t.stack = s.stack :=
    Takes.append hsrc1 fun t ht => patchPtr_spends.mono fun u hu =>
      ⟨by rw [hu, hm, ← ht.1], by rw [hu]; exact ht.2⟩
  have hentry : Spends B L (.block ([.sta (.slot .feCarry)] ++ patchPtrAsm l1 .fe25519Src1 ++
      patchPtrAsm l2 .fe25519Src2 ++ [.ldyImm 31])) s (.tick (3 + 70 + 102 + 2))
      fun t => (t.m = m ∧ t.stack = s.stack) ∧ t.y = 31 :=
    Takes.append hsrc2 fun t ht => Straight.spends ⟨rfl, rfl, rfl, rfl⟩ ⟨ht, rfl⟩
  refine Takes.seqTick hentry ?_
  rintro t ⟨⟨htm, hts⟩, hty⟩
  let body := fun k s => cswapByte B .d (4 * k) (cswapByte B .c (4 * k + 1)
    (cswapByte B .b (4 * k + 2) (cswapByte B .a (4 * k + 3) s)))
  refine ((Takes.loop (N := 8) (b := fun _ => .tick 160) (I := fun j u =>
    loopDown body (8 - j) u.m = loopDown body 8 m ∧ CswapOps a b u.m ∧
    (j < 8 → u.y.toNat = 31 - 4 * j) ∧ u.stack = s.stack) (Nat.succ_pos _)
    (Nat.le_of_ble_eq_true rfl) ?_ ?_).cast (loop_bill .cswapLoop 8 160)).mono ?_
  · exact ⟨by rw [htm], by rw [htm]; exact hops, fun _ => by rw [hty]; rfl, hts⟩
  · rintro j hj u ⟨hu, huo, huy, hus⟩
    obtain ⟨k, hk, hjk⟩ : ∃ k, k < 8 ∧ 8 - j = k + 1 := ⟨7 - j, by omega, by omega⟩
    rw [hjk, loopDown_succ] at hu
    refine (cswapTurn_spends huo (by rw [huy hj]; omega) hk).mono ?_
    rintro v ⟨⟨hvm, hvs⟩, hvy, htest⟩
    refine ⟨⟨?_, ?_, fun hlt => ?_, hvs.trans hus⟩, ?_⟩
    · rw [hvm, show 8 - (j + 1) = k by omega]
      exact hu
    · rw [hvm]
      exact huo
    · exact (hvy (by omega)).trans (by omega)
    · refine htest.trans (decide_eq_decide.2 ?_)
      omega
  · rintro u ⟨hu, -, -, hus⟩
    refine ⟨?_, hus⟩
    rw [← loopDown_zero (f := body) (s := u.m)]
    exact hu

end C64X25519
