import C64X25519.Helpers.Fetch
import C64X25519.Helpers.Timing
/-!
# The timing of the rows

A settle is what a listing waits for: its turns are those of the routine,
and its cycles depend on the samples alone. The row fetches add a transfer
of a fixed length, and the 8×8 multiply reads its table within a page.
-/

namespace C64X25519

open Machine

variable {B : Build} {L : Link} {s : Core} {l : Label} {c n : ℕ} {v : Byte}

/-! ## One turn of a settle -/

/-- The registers a settle leaves alone. -/
def SameIndex (s t : Core) : Prop := t.x = s.x ∧ t.y = s.y ∧ t.stack = s.stack

/-- The fault bit of a sample, and the sample again. -/
theorem settleBits_spends (hv : s.m.var .x25519ReuSettleSmp = v &&& 0x60) :
    Spends B L (.seqs
        [ .block [.lda (.var .x25519ReuSettleSmp), .andImm 0x20],
          .skip (.beq .noB5)
            (.block [.ldaImm 0x02, .ora (.var .x25519ReuFault), .sta (.var .x25519ReuFault)]),
          .block [.lda (.var .x25519ReuSettleSmp), .andImm 0x40] ]) s
      (.tick (6 + ((if verifyError v then 12 else 3 + (L.crosses .noB5).toNat) + 6)))
      fun t => t.m = (if s.m.var .x25519ReuSettleSmp &&& 0x20 = 0 then s.m
          else s.m.setVar .x25519ReuFault (0x02 ||| s.m.var .x25519ReuFault)) ∧
        t.nz = v &&& 0x60 &&& 0x40 ∧ SameIndex s t := by
  refine Takes.seqTick (R := fun t => t.m = s.m ∧ t.nz = v &&& 0x60 &&& 0x20 ∧ SameIndex s t)
    (Straight.spends ⟨rfl, rfl, rfl, rfl⟩ ⟨rfl, by rw [← hv]; rfl, rfl, rfl, rfl⟩) ?_
  rintro t ⟨htm, htz, hts⟩
  refine Takes.seqTick (R := fun u => u.m = (if s.m.var .x25519ReuSettleSmp &&& 0x20 = 0 then s.m
      else s.m.setVar .x25519ReuFault (0x02 ||| s.m.var .x25519ReuFault)) ∧ SameIndex s u) ?_ ?_
  · rw [hv]
    cases hver : verifyError v with
    | false =>
      have hz := (sample_verifyError v).2 hver
      rw [if_pos hz, if_neg Bool.false_ne_true]
      refine (Takes.skip_taken ?_ ⟨htm, hts⟩).cast rfl
      change (t.nz == 0) = true
      rw [htz, hz]
      rfl
    | true =>
      have hz : v &&& 0x60 &&& 0x20 ≠ 0 := fun h => by
        rw [sample_verifyError, hver] at h
        cases h
      rw [if_neg hz, if_pos rfl]
      refine (Takes.skip_through (b := .tick 10) ?_ (Straight.spends ⟨rfl, rfl, rfl, rfl⟩
        ⟨?_, hts⟩)).cast rfl
      · change (t.nz == 0) = false
        rw [htz]
        exact beq_false_of_ne hz
      · rw [← htm]
        rfl
  · rintro u ⟨hum, hus⟩
    refine Straight.spends ⟨rfl, rfl, rfl, rfl⟩ ⟨hum, ?_, hus⟩
    change u.m.var .x25519ReuSettleSmp &&& 0x40 = _
    have hsmp : u.m.var .x25519ReuSettleSmp = s.m.var .x25519ReuSettleSmp := by
      rw [hum]
      split
      · rfl
      · exact setVar_var_of_ne (by decide)
    rw [hsmp, hv]

/-! ## The settle -/

/-- A turn of the slow path. -/
abbrev settleTurn (B : Build) (L : Link) : Core → Option (Core × ℕ × Bool) :=
  (cpu B L).pollTurn
    ((Code.seqs
        [ .block [.lda (.var .x25519ReuSettleSmp), .andImm 0x20],
          .skip (.beq .noB5)
            (.block [.ldaImm 0x02, .ora (.var .x25519ReuFault), .sta (.var .x25519ReuFault)]),
          .block [.lda (.var .x25519ReuSettleSmp), .andImm 0x40] ]).run (cpu B L))
    (.bne .settleDone) ((Code.block [.dec (.var .x25519ReuSettleCnt)]).run (cpu B L))
    (.beq .settleExpired)
    ((Code.block [.ldaStatus, .andImm 0x60, .sta (.var .x25519ReuSettleSmp)]).run (cpu B L))
    ((Code.block [.ldaImm 0x01, .ora (.var .x25519ReuFault), .sta (.var .x25519ReuFault)]).run
      (cpu B L))

/-- A turn of the routine, from its fault bits on. -/
theorem settleCheck_eq {m u : Machine} (hu : u = if m.var .x25519ReuSettleSmp &&& 0x20 = 0 then m
      else m.setVar .x25519ReuFault (0x02 ||| m.var .x25519ReuFault)) :
    settleCheck m = if u.var .x25519ReuSettleSmp &&& 0x40 ≠ 0 then (u, false) else
      let w := u.setVar .x25519ReuSettleCnt (u.var .x25519ReuSettleCnt - 1)
      if w.var .x25519ReuSettleCnt = 0 then
        (w.setVar .x25519ReuFault (0x01 ||| w.var .x25519ReuFault), false)
      else (w.readStatus.2.setVar .x25519ReuSettleSmp (w.readStatus.1 &&& 0x60), true) := by
  rw [hu]
  rfl

theorem settleBits_var {m : Machine} {x : Var} (hx : x ≠ .x25519ReuFault) :
    (if m.var .x25519ReuSettleSmp &&& 0x20 = 0 then m
      else m.setVar .x25519ReuFault (0x02 ||| m.var .x25519ReuFault)).var x = m.var x := by
  split
  · rfl
  · exact setVar_var_of_ne hx

theorem settleBits_reu {m : Machine} :
    (if m.var .x25519ReuSettleSmp &&& 0x20 = 0 then m
      else m.setVar .x25519ReuFault (0x02 ||| m.var .x25519ReuFault)).reu = m.reu := by
  split <;> rfl

/-- The cycles of a turn up to its first way out. -/
def settleBitsCycles (L : Link) (v : Byte) : ℕ :=
  6 + ((if verifyError v then 12 else 3 + (L.crosses .noB5).toNat) + 6)

/-- Out on END OF BLOCK. -/
theorem settleTurn_hit (hv : s.m.var .x25519ReuSettleSmp = v &&& 0x60)
    (he : endOfBlock v = true) :
    ∃ t, settleTurn B L s
        = some (t, settleBitsCycles L v + (3 + (L.crosses .settleDone).toNat), false) ∧
      settleCheck s.m = (t.m, false) ∧ SameIndex s t := by
  obtain ⟨t, hrun, -, htm, htz, hts⟩ := (settleBits_spends (L := L) (B := B) hv).run_tick
  have hsmp : t.m.var .x25519ReuSettleSmp = v &&& 0x60 := by
    rw [htm, settleBits_var (by decide), hv]
  have hbit : v &&& 0x60 &&& 0x40 ≠ 0 := (sample_endOfBlock v).2 he
  refine ⟨t, pollTurn_out hrun ?_, ?_, hts⟩
  · change (t.nz != 0) = true
    rw [htz]
    exact bne_iff_ne.2 hbit
  · rw [settleCheck_eq htm, hsmp, if_pos hbit]

/-- On to the counter, and out where it is spent. -/
theorem settleTurn_last (hv : s.m.var .x25519ReuSettleSmp = v &&& 0x60)
    (he : endOfBlock v = false) (hc : s.m.var .x25519ReuSettleCnt = 1) :
    ∃ t, settleTurn B L s = some (t, settleBitsCycles L v + 2 + 6
        + (3 + (L.crosses .settleExpired).toNat) + 10, false) ∧
      settleCheck s.m = (t.m, false) ∧ SameIndex s t := by
  obtain ⟨t, hrun, -, htm, htz, hts⟩ := (settleBits_spends (L := L) (B := B) hv).run_tick
  have hsmp : t.m.var .x25519ReuSettleSmp = v &&& 0x60 := by
    rw [htm, settleBits_var (by decide), hv]
  have hcnt : t.m.var .x25519ReuSettleCnt = 1 := by rw [htm, settleBits_var (by decide), hc]
  have hbit : ¬ v &&& 0x60 &&& 0x40 ≠ 0 := by
    rw [sample_endOfBlock, he]
    exact Bool.false_ne_true
  refine ⟨_, pollTurn_late hrun ?_ rfl ?_ rfl, ?_, hts⟩
  · change (t.nz != 0) = false
    rw [htz, of_not_not hbit]
    rfl
  · change (t.m.var .x25519ReuSettleCnt - 1 == 0) = true
    rw [hcnt]
    rfl
  · rw [settleCheck_eq htm, hsmp, if_neg hbit]
    have hz : (t.m.setVar .x25519ReuSettleCnt (t.m.var .x25519ReuSettleCnt - 1)).var
        .x25519ReuSettleCnt = 0 := by
      rw [setVar_var_self, hcnt]
      rfl
    simp only [if_pos hz]
    rfl

/-- Or around again, with the next sample. -/
theorem settleTurn_again (hv : s.m.var .x25519ReuSettleSmp = v &&& 0x60)
    (he : endOfBlock v = false) (hc : (s.m.var .x25519ReuSettleCnt).toNat = c + 2) :
    ∃ t, settleTurn B L s = some (t, settleBitsCycles L v + 2 + 6 + 2 + 10 + 3, true) ∧
      settleCheck s.m = (t.m, true) ∧ SameIndex s t ∧
      t.m.var .x25519ReuSettleSmp = s.m.reu.status 0 &&& 0x60 ∧
      (t.m.var .x25519ReuSettleCnt).toNat = c + 1 ∧
      t.m.reu.status = dropFirst s.m.reu.status := by
  obtain ⟨t, hrun, -, htm, htz, hts⟩ := (settleBits_spends (L := L) (B := B) hv).run_tick
  have hsmp : t.m.var .x25519ReuSettleSmp = v &&& 0x60 := by
    rw [htm, settleBits_var (by decide), hv]
  have hcnt : t.m.var .x25519ReuSettleCnt = s.m.var .x25519ReuSettleCnt := by
    rw [htm, settleBits_var (by decide)]
  have hreu : t.m.reu = s.m.reu := by rw [htm, settleBits_reu]
  have hbit : ¬ v &&& 0x60 &&& 0x40 ≠ 0 := by
    rw [sample_endOfBlock, he]
    exact Bool.false_ne_true
  have hsub : (t.m.var .x25519ReuSettleCnt - 1).toNat = c + 1 :=
    toNat_sub_one (by rw [hcnt, hc])
  have hne : t.m.var .x25519ReuSettleCnt - 1 ≠ 0 := fun h => by
    rw [h] at hsub
    cases hsub
  refine ⟨_, pollTurn_again hrun ?_ rfl ?_ rfl, ?_, hts, ?_, ?_, ?_⟩
  · change (t.nz != 0) = false
    rw [htz, of_not_not hbit]
    rfl
  · change (t.m.var .x25519ReuSettleCnt - 1 == 0) = false
    exact beq_false_of_ne hne
  · rw [settleCheck_eq htm, hsmp, if_neg hbit]
    have hz : (t.m.setVar .x25519ReuSettleCnt (t.m.var .x25519ReuSettleCnt - 1)).var
        .x25519ReuSettleCnt ≠ 0 := by
      rw [setVar_var_self]
      exact hne
    simp only [if_neg hz]
    rfl
  · rw [← hreu]
    exact setVar_var_self
  · rw [← hsub]
    change (((t.m.setVar .x25519ReuSettleCnt _).readStatus.2.setVar .x25519ReuSettleSmp _).var
      .x25519ReuSettleCnt).toNat = _
    rw [setVar_var_of_ne (by decide)]
    change ((t.m.setVar .x25519ReuSettleCnt (t.m.var .x25519ReuSettleCnt - 1)).var
      .x25519ReuSettleCnt).toNat = _
    rw [setVar_var_self]
  · rw [← hreu]
    rfl

/-- **The turns of a settle**, with `c + 1` of them left: those of the
routine, at a cost the samples decide. -/
theorem settleTurns_run {k : ℕ} (hv : s.m.var .x25519ReuSettleSmp = v &&& 0x60)
    (hc : (s.m.var .x25519ReuSettleCnt).toNat = c + 1) (hn : c + 1 ≤ n) (hk : c + 1 ≤ k) :
    ∃ t, rounds (settleTurn B L) n s = some (t, settleTurnCycles L (c + 1) v s.m.reu.status) ∧
      t.m = doWhile settleCheck k s.m ∧ SameIndex s t := by
  induction c generalizing s v n k with
  | zero =>
    cases he : endOfBlock v with
    | true =>
      obtain ⟨t, hturn, hcheck, hts⟩ := settleTurn_hit (B := B) (L := L) hv he
      refine ⟨t, (rounds_stop (by omega) hturn).trans ?_, ?_, hts⟩
      · rw [settleTurnCycles, he, if_pos rfl, settleBitsCycles]
        simp only [Nat.add_assoc]
      · rw [doWhile_stop (by omega) (by rw [hcheck]), hcheck]
    | false =>
      obtain ⟨t, hturn, hcheck, hts⟩ := settleTurn_last (B := B) (L := L) hv he
        (BitVec.eq_of_toNat_eq hc)
      refine ⟨t, (rounds_stop (by omega) hturn).trans ?_, ?_, hts⟩
      · rw [settleTurnCycles, he, if_neg Bool.false_ne_true, if_pos rfl, settleBitsCycles]
        congr 2
        omega
      · rw [doWhile_stop (by omega) (by rw [hcheck]), hcheck]
  | succ c ih =>
    obtain ⟨n, rfl⟩ : ∃ m, n = m + 1 := ⟨n - 1, by omega⟩
    obtain ⟨k, rfl⟩ : ∃ m, k = m + 1 := ⟨k - 1, by omega⟩
    cases he : endOfBlock v with
    | true =>
      obtain ⟨t, hturn, hcheck, hts⟩ := settleTurn_hit (B := B) (L := L) hv he
      refine ⟨t, (rounds_stop (by omega) hturn).trans ?_, ?_, hts⟩
      · rw [settleTurnCycles, he, if_pos rfl, settleBitsCycles]
        simp only [Nat.add_assoc]
      · rw [doWhile_stop (by omega) (by rw [hcheck]), hcheck]
    | false =>
      obtain ⟨t, hturn, hcheck, hts, hsmp, hcnt, hstatus⟩ :=
        settleTurn_again (B := B) (L := L) hv he hc
      obtain ⟨u, hrun, hum, hus⟩ := ih (n := n) (k := k) hsmp hcnt (by omega) (by omega)
      refine ⟨u, ?_, ?_, hus.1.trans hts.1, hus.2.1.trans hts.2.1, hus.2.2.trans hts.2.2⟩
      · rw [rounds_again hturn, hrun, hstatus]
        conv_rhs => rw [settleTurnCycles, he, if_neg Bool.false_ne_true,
          if_neg (Nat.succ_ne_zero c)]
        simp only [settleBitsCycles, Option.map_some, Option.some.injEq, Prod.mk.injEq, true_and]
        omega
      · rw [hum, doWhile_again (by rw [hcheck]), hcheck]

/-- The slow path, entered with a sample that is not the ordinary one. -/
theorem settleSlow_run (ha : s.a = (v &&& 0x60) ^^^ 0x40) :
    ∃ t, (x25519ReuSettleSlowAsm B).run (cpu B L) s
        = some (t, 12 + settleTurnCycles L B.settleIter v s.m.reu.status) ∧
      t.m = x25519ReuSettleSlow B s.a s.m ∧ SameIndex s t := by
  obtain ⟨c, hc⟩ : ∃ c, B.settleIter = c + 1 := ⟨B.settleIter - 1, by
    have := B.settleIter_le
    omega⟩
  have hle := B.settleIter_le
  have hentry : ∃ t, (Code.block [.eorImm 0x40, .sta (.var .x25519ReuSettleSmp),
        .ldaImm (BitVec.ofNat 8 B.settleIter), .sta (.var .x25519ReuSettleCnt)]).run (cpu B L) s
      = some (t, 12) ∧ t.m = (s.m.setVar .x25519ReuSettleSmp (s.a ^^^ 0x40)).setVar
        .x25519ReuSettleCnt (BitVec.ofNat 8 B.settleIter) ∧ SameIndex s t :=
    ⟨_, rfl, rfl, rfl, rfl, rfl⟩
  obtain ⟨t, hrun, htm, hts⟩ := hentry
  have hsmp : t.m.var .x25519ReuSettleSmp = v &&& 0x60 := by
    rw [htm, setVar_var_of_ne (by decide), setVar_var_self, ha, sample_restored]
  have hcnt : (t.m.var .x25519ReuSettleCnt).toNat = c + 1 := by
    rw [htm, setVar_var_self, BitVec.toNat_ofNat, hc]
    omega
  have hstatus : t.m.reu.status = s.m.reu.status := by rw [htm]; rfl
  obtain ⟨u, hturns, hum, hus⟩ := settleTurns_run (B := B) (L := L) (n := 0x200) (k := 0x100) hsmp hcnt
    (by omega) (by omega)
  refine ⟨u, ?_, by rw [hum, htm]; rfl, hus.1.trans hts.1, hus.2.1.trans hts.2.1,
    hus.2.2.trans hts.2.2⟩
  have heq : (x25519ReuSettleSlowAsm B).run (cpu B L) s
      = ((Code.block [.eorImm 0x40, .sta (.var .x25519ReuSettleSmp),
          .ldaImm (BitVec.ofNat 8 B.settleIter), .sta (.var .x25519ReuSettleCnt)]).run
          (cpu B L) s).bind fun t =>
        (rounds (settleTurn B L) 0x200 t.1).map fun u => (u.1, t.2 + u.2) := rfl
  rw [heq, hrun, Option.bind_some, hturns, hstatus, ← hc]
  rfl

/-- **A settle** is a wait: it ends with the machine of `REU_SETTLE`, and the
unit counts its cycles. -/
theorem reuSettle_spends : Spends B L (reuSettleAsm B l) s (.wait l) fun t =>
    t.m = reuSettle B s.m ∧ SameIndex s t := by
  set w := s.m.reu.status with hw
  suffices h : ∃ t, (reuSettleAsm B l).run (cpu B L) s = some (t, settleCycles B L l w) ∧
      t.m = reuSettle B s.m ∧ SameIndex s t by
    obtain ⟨t, hrun, htm, hts⟩ := h
    refine Takes.of_wait hrun ?_ ⟨htm, hts⟩
    funext i
    change t.m.reu.status i = s.m.reu.status (i + (settleReads B s.m.reu.status).length)
    rw [htm]
    exact (reuSettle_reads s.m).status i
  have heq : reuSettleAsm B l = .seq (.block [.ldaStatus, .andImm 0x60, .eorImm 0x40])
      (.skip (.beq l) (.call (x25519ReuSettleSlowAsm B))) := rfl
  set a := (w 0 &&& 0x60) ^^^ 0x40 with ha
  have hread : ∃ t, (Code.block [.ldaStatus, .andImm 0x60, .eorImm 0x40]).run (cpu B L) s
      = some (t, 8) ∧ t.m = s.m.readStatus.2 ∧ t.a = a ∧ t.nz = a ∧ SameIndex s t :=
    ⟨_, rfl, rfl, rfl, rfl, rfl, rfl, rfl⟩
  obtain ⟨t, hrun, htm, hta, htz, hts⟩ := hread
  rw [heq, Code.run_seq, hrun, Option.bind_some, Code.run_skip, settleCycles]
  have hfast := sample_fast (w 0)
  by_cases hz : a = 0
  · have htest : (cpu B L).test (.beq l) t = true := by
      change (t.nz == 0) = true
      rw [htz, hz]
      rfl
    refine ⟨t, ?_, ?_, hts⟩
    · rw [if_pos htest, if_pos (hfast.1 hz)]
      rfl
    · rw [htm, reuSettle]
      exact (if_pos hz).symm
  · have htest : ¬ (cpu B L).test (.beq l) t = true := by
      change ¬ (t.nz == 0) = true
      rw [htz, beq_iff_eq]
      exact hz
    obtain ⟨u, hslow, hum, hux, huy, hus⟩ := settleSlow_run (B := B) (L := L)
      (s := t.push .ret) (v := w 0) hta
    have hstatus : (t.push .ret).m.reu.status = dropFirst w := by
      change t.m.reu.status = _
      rw [htm]
      rfl
    have hleave : (cpu B L).leave u = some { u with stack := t.stack } := leave_ret hus
    have hcall : (Code.call (x25519ReuSettleSlowAsm B)).run (cpu B L) t
        = some ({ u with stack := t.stack },
          12 + settleTurnCycles L B.settleIter (w 0) (dropFirst w) + 12) := by
      rw [Code.run_call]
      change (Option.bind ((x25519ReuSettleSlowAsm B).run (cpu B L) (t.push .ret)) _) = _
      rw [hslow, Option.bind_some, hleave, hstatus]
      rfl
    rw [if_neg htest, if_neg fun h => hz (hfast.2 h), hcall]
    refine ⟨{ u with stack := t.stack }, ?_, ?_, hux.trans hts.1, huy.trans hts.2.1, hts.2.2⟩
    · simp only [Option.map_some, Option.some.injEq, Prod.mk.injEq, true_and]
      change 8 + (2 + _) = _
      omega
    · change u.m = _
      rw [hum, reuSettle]
      change x25519ReuSettleSlow B t.a t.m = if a = 0 then _ else _
      rw [if_neg hz, hta, htm]
      rfl

/-! ## Transfers -/

/-- The cycles a command takes from the processor, with a unit or
without. -/
def Link.moved (L : Link) (live : Bool) (k : ℕ) : ℕ := if live then L.dma k else 0

/-- A run of instructions, and a transfer. -/
theorem Straight.command {ops : List Op} {k : ℕ} {live : Bool} (h : Straight B L ops n s)
    (hlive : ((cpu B L).exec ops s).m.reu.live = live)
    (hlen : ((cpu B L).exec ops s).m.reu.len = k) :
    Spends B L (.block (ops ++ [.staCommand])) s (.tick (n + (4 + L.moved live k)))
      fun t => t = Op.act B .staCommand ((cpu B L).exec ops s) := by
  refine Takes.append (R := fun t => t = (cpu B L).exec ops s) (h.spends rfl) fun t ht => ?_
  subst ht
  set t := (cpu B L).exec ops s
  refine Takes.block (ready_of_noPull rfl) ?_ ?_ rfl
  · change (t.m.reuCommand t.a).reu.status = t.m.reu.status
    rw [reuCommand]
    split <;> rfl
  · change 4 + (if t.m.reu.live then L.dma t.m.reu.len else 0) + 0 = _
    rw [hlive, hlen]
    rfl

/-- The length a fetch is given. -/
theorem len_of_regs {r : Reu} {k : ℕ} (h0 : r.reg .lenLo = 0) (h1 : r.reg .lenHi = BitVec.ofNat 8 k)
    (hk : 0 < k ∧ k < 0x100) : r.len = k * 0x100 :=
  Reu.len_of h0 (by rw [h1, BitVec.toNat_ofNat, Nat.mod_eq_of_lt hk.2]) hk.1

/-- A block that sets a fetch going, and the settle behind it. -/
theorem fetch_spends {ops : List Op} {k : ℕ} (h : Straight B L ops n s)
    (ha : ((cpu B L).exec ops s).a = 0b10110001)
    (hlive : ((cpu B L).exec ops s).m.reu.live = true)
    (h0 : ((cpu B L).exec ops s).m.reu.reg .lenLo = 0)
    (h1 : ((cpu B L).exec ops s).m.reu.reg .lenHi = BitVec.ofNat 8 k) (hk : 0 < k ∧ k < 0x100) :
    Spends B L (.seq (.block (ops ++ [.staCommand])) (reuSettleAsm B l)) s
      (.tick (n + (4 + L.dma (k * 0x100))) + .wait l)
      fun t => t.m = reuSettle B (((cpu B L).exec ops s).m.reuCommand 0b10110001) ∧
        t.stack = s.stack := by
  refine Takes.seq (h.command hlive (len_of_regs h0 h1 hk)) fun t ht =>
    reuSettle_spends.mono ?_
  rintro u ⟨hum, _, _, hus⟩
  refine ⟨?_, hus.trans ?_⟩
  · rw [hum, ht, ← ha]
    rfl
  · rw [ht]
    exact h.stack

/-- The listing of a command and its settle. -/
theorem transfer_spends {ops : List Op} {cmd : Byte} {k : ℕ} {live : Bool}
    (h : Straight B L (ops ++ [.ldaImm cmd]) n s)
    (hlive : ((cpu B L).exec ops s).m.reu.live = live)
    (hlen : ((cpu B L).exec ops s).m.reu.len = k) :
    Does B L (transferAsm B ops cmd l) s (.tick (n + (4 + L.moved live k)) + .wait l)
      (reuSettle B (((cpu B L).exec ops s).m.reuCommand cmd)) := by
  have hm : ((cpu B L).exec (ops ++ [.ldaImm cmd]) s).m = ((cpu B L).exec ops s).m ∧
      ((cpu B L).exec (ops ++ [.ldaImm cmd]) s).a = cmd := by
    rw [Isa.exec_append]
    exact ⟨rfl, rfl⟩
  refine Takes.seq (h.command (by rw [hm.1, hlive]) (by rw [hm.1, hlen])) fun t ht =>
    reuSettle_spends.mono ?_
  rintro u ⟨hum, -, -, hus⟩
  refine ⟨?_, hus.trans ?_⟩
  · have hact : ∀ t, (Op.act B .staCommand t).m = t.m.reuCommand t.a := fun _ => rfl
    rw [hum, ht, hact, hm.1, hm.2]
  · rw [ht]
    exact h.stack

theorem reuCommand_live {m : Machine} {cmd : Byte} :
    (m.reuCommand cmd).reu.live = m.reu.live := by
  rw [reuCommand]
  cases h : m.reu.live <;> simp [h]

/-- `reu_fetch_mul_row`. -/
theorem reuFetchMulRow_does (hlive : s.m.reu.live = true) :
    Does B L (reuFetchMulRowAsm B) s (.tick (52 + (4 + L.dma 0x200)) + .wait .fetchSettle)
      (reuFetchMulRow B s.a s.m) := by
  have h : Straight B L ([.sta (.var .mulCachedA), .aslA, .staReg .reuHi,
      .ldaImm (BitVec.ofNat 8 B.reuBank), .adcImm 0, .staReg .reuBank] ++
        staC64Asm B.mem.mulDmaLo ++ [.ldaImm 0, .staReg .reuLo, .staReg .lenLo,
          .staReg .addrCtrl, .ldaImm 2, .staReg .lenHi, .ldaImm 0b10110001]) 52 s :=
    .of_quiet rfl trivial (by simp [staC64Asm])
  have hrun := fetch_spends (k := 2) (l := .fetchSettle) h (by simp [staC64Asm])
    (by simp [staC64Asm, hlive]) (by simp [staC64Asm]) (by simp [staC64Asm]) (by decide)
  refine Takes.mono hrun fun t ht => ⟨?_, ht.2⟩
  rw [ht.1]
  simp [staC64Asm, reuFetchMulRow, writeC64]

/-- `reu_fetch_doubled_row`. -/
theorem reuFetchDoubledRow_does (hlive : s.m.reu.live = true) :
    Does B L (reuFetchDoubledRowAsm B) s
      (.tick (52 + (4 + L.dma 0x200)) + .wait .doubledSettle +
        (.tick (48 + (4 + L.dma 0x100)) + .wait .carrySettle))
      (reuFetchDoubledRow B s.m) := by
  have h : Straight B L (staC64Asm B.mem.mulDmaLo ++
      [.ldaImm 0, .staReg .reuLo, .staReg .lenLo, .staReg .addrCtrl, .ldaImm 2, .staReg .lenHi,
        .lda (.var .mulCachedA), .aslA, .staReg .reuHi,
        .ldaImm (BitVec.ofNat 8 B.reuBankDoubled), .adcImm 0, .staReg .reuBank,
        .ldaImm 0b10110001]) 52 s :=
    .of_quiet rfl trivial (by simp [staC64Asm])
  have hrow := fetch_spends (k := 2) (l := .doubledSettle) h (by simp [staC64Asm])
    (by simp [staC64Asm, hlive]) (by simp [staC64Asm]) (by simp [staC64Asm]) (by decide)
  refine Takes.seq hrow ?_
  rintro t ⟨htm, hts⟩
  have hlive' : t.m.reu.live = true := by
    rw [htm, (reuSettle_settles _).live, reuCommand_live]
    simp [staC64Asm, hlive]
  have h' : Straight B L (staC64Asm B.mem.mulDmaCarry ++
      [.ldaImm 0, .staReg .reuLo, .staReg .lenLo, .staReg .addrCtrl, .ldaImm 1, .staReg .lenHi,
        .lda (.var .mulCachedA), .staReg .reuHi, .ldaImm (BitVec.ofNat 8 B.reuBankCarry),
        .staReg .reuBank, .ldaImm 0b10110001]) 48 t :=
    .of_quiet rfl trivial (by simp [staC64Asm])
  have hcarry := fetch_spends (k := 1) (l := .carrySettle) h' (by simp [staC64Asm])
    (by simp [staC64Asm, hlive']) (by simp [staC64Asm]) (by simp [staC64Asm]) (by decide)
  refine Takes.mono hcarry ?_
  rintro u ⟨hum, hus⟩
  refine ⟨?_, hus.trans hts⟩
  rw [hum]
  simp [staC64Asm, reuFetchDoubledRow, writeC64, htm]

/-! ## The clearing of the accumulator -/

/-- What `reu_clear_wide` costs. -/
def reuClearWideCycles (B : Build) (L : Link) : ℕ :=
  4 + (loopCycles L .clearLoop 64 6 + if B.onchip then 0 else 24)

theorem reuClearWide_does :
    Does B L (reuClearWideAsm B) s (.tick (reuClearWideCycles B L)) (reuClearWide B s.m) := by
  unfold reuClearWideCycles
  refine Takes.seqTick (R := fun t => t.m = s.m ∧ t.a = 0 ∧ t.x = 63 ∧ t.stack = s.stack)
    (Straight.spends ⟨rfl, rfl, rfl, rfl⟩ ⟨rfl, rfl, rfl, rfl⟩) ?_
  rintro t ⟨htm, hta, htx, hts⟩
  let body := fun x m => setZp (B.wideAt x) 0 m
  refine Takes.seqTick (Spends.downLoop (N := 64) (n := 4) (l := [.sta (.wideX 0)])
    (K := fun t => t.a = 0) (I := fun k m => loopDown body k m = loopDown body 64 s.m)
    countsDown_dex (Nat.succ_pos _) (by omega) (by rw [htx]; rfl) (by rw [htm]) hta ?_) ?_
  · rintro _ hk u rfl hua hI
    refine ⟨.of_quiet rfl trivial rfl, rfl, ?_, hua⟩
    rw [← hI, loopDown_succ]
    simp [body, hua]
  · rintro u ⟨hum, hus⟩
    rw [loopDown_zero] at hum
    cases hon : B.onchip
    · refine Straight.spends (.of_quiet rfl trivial rfl) ⟨?_, hus.trans hts⟩
      simp [staC64Asm, reuClearWide, hon, writeC64, hum, body]
    · exact Straight.spends (.of_quiet rfl trivial rfl) ⟨by simp [reuClearWide, hon, hum, body],
        hus.trans hts⟩

/-! ## The 8×8 multiply -/

/-- A table that starts a page is read within it. -/
theorem aligned_within {a : ℕ} (ha : a % 0x100 = 0) (hlt : a < 0x10000) (i : Byte) :
    Within a i.toNat := ⟨hlt, by omega⟩

theorem pageOp_within {m : Machine} {x : Site} {a : ℕ} (ha : a % 0x100 = 0) (i : Byte) :
    Within (pageOp m x a) i.toNat := by
  rw [pageOp, ha]
  exact ⟨by omega, by omega⟩

/-- Both tables of squares are read within their pages, on either page of a sum. -/
theorem sqtab_within : (∀ i : Byte, Within B.mem.sqtabLo i.toNat) ∧
    (∀ i : Byte, Within B.mem.sqtabHi i.toNat) ∧
    (∀ m z (i : Byte), Within (pageOp m z B.mem.sqtabLo) i.toNat) ∧
    ∀ m z (i : Byte), Within (pageOp m z B.mem.sqtabHi) i.toNat := by
  have hq := B.mem.sqtab_aligned
  have hlo : B.mem.sqtabLo % 0x100 = 0 := hq
  have hpl := B.mem.placed_sqtab
  have hhi : B.mem.sqtabHi % 0x100 = 0 := by
    simp only [MemMap.sqtabHi]
    omega
  refine ⟨aligned_within hlo ?_, aligned_within hhi ?_, fun _ _ => pageOp_within hlo,
    fun _ _ => pageOp_within hhi⟩
  · simp only [MemMap.sqtabLo]
    omega
  · simp only [MemMap.sqtabHi]
    omega

/-- What `ct_mul_8x8` costs. -/
def ctMul8x8Cycles : ℕ := 78

theorem ctMul8x8_does : Does B L (ctMul8x8Asm B) s (.tick ctMul8x8Cycles) (ctMul8x8 B s.y s.m) := by
  obtain ⟨hlo, hhi, hplo, hphi⟩ := sqtab_within (B := B)
  refine Straight.spends (.of_quiet rfl ?_ (by simp [ctMul8x8Cycles])) ⟨?_, rfl⟩
  · exact And.intro (hplo _ _ _) (And.intro (hlo _) (And.intro (hphi _ _ _) (hhi _)))
  · simp [ctMul8x8, fun i => (hlo i).indexed, fun i => (hhi i).indexed,
      fun m z i => (hplo m z i).indexed, fun m z i => (hphi m z i).indexed]

end C64X25519
