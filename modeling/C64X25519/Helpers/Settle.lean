import C64X25519.Common.Poll
import C64X25519.Helpers.Transfer
/-!
# What a settle reads and records

`REU_SETTLE` polls the status register for the end of a transfer. Its reads
are those of a bounded poll, and the fault byte takes up what they show.
-/

namespace C64X25519

open Machine

variable {B : Build} {s t : Machine} {v : Byte} {c n : ℕ}

/-! ## The two bits of the status register -/

/-- Bit 6 of the status register, END OF BLOCK. -/
def endOfBlock (v : Byte) : Bool := v.getLsbD 6

/-- Bit 5, VERIFY ERROR. -/
def verifyError (v : Byte) : Bool := v.getLsbD 5

theorem sample_endOfBlock : ∀ v : Byte, (v &&& 0x60) &&& 0x40 ≠ 0 ↔ endOfBlock v = true := by
  decide

theorem sample_verifyError : ∀ v : Byte, (v &&& 0x60) &&& 0x20 = 0 ↔ verifyError v = false := by
  decide

/-- The short path is taken on END OF BLOCK alone. -/
theorem sample_fast : ∀ v : Byte,
    (v &&& 0x60) ^^^ 0x40 = 0 ↔ endOfBlock v = true ∧ verifyError v = false := by
  decide

theorem sample_restored (a : Byte) : a ^^^ 0x40 ^^^ 0x40 = a := by
  rw [BitVec.xor_assoc]
  exact BitVec.xor_zero

/-! ## The verdict -/

theorem or_eq_zero {a b : Byte} (h : a ||| b = 0) : a = 0 ∧ b = 0 := by
  refine ⟨BitVec.eq_of_getLsbD_eq fun i hi => ?_, BitVec.eq_of_getLsbD_eq fun i hi => ?_⟩ <;>
  · have hbit := congrArg (fun c : Byte => c.getLsbD i) h
    simp at hbit ⊢
    tauto

/-- The bits the fault byte takes up from the reads of one settle: the
bound expired without END OF BLOCK, and a VERIFY ERROR seen. -/
def verdict (l : List Byte) : Byte :=
  (bif l.any endOfBlock then 0 else 0x01) ||| bif l.any verifyError then 0x02 else 0

/-- The reads of a settle that starts at the stream `σ`. -/
def settleReads (B : Build) (σ : ℕ → Byte) : List Byte := polled endOfBlock B.settleIter σ

/-- From `s` to `t` the reads `l` have been made, and recorded. -/
structure Reads (l : List Byte) (f : Byte) (s t : Machine) : Prop where
  status : ∀ i, t.reu.status i = s.reu.status (i + l.length)
  log : t.reu.log = l.reverse.map .readStatus ++ s.reu.log
  fault : t.var .x25519ReuFault = s.var .x25519ReuFault ||| f

/-- Nothing read, and bits recorded. -/
theorem Reads.record (f : Byte) (h : t.reu = s.reu)
    (hf : t.var .x25519ReuFault = s.var .x25519ReuFault ||| f) : Reads [] f s t :=
  ⟨fun _ => by rw [h]; rfl, by rw [h]; rfl, hf⟩

/-- One more read in front. -/
theorem Reads.cons {l : List Byte} {f g : Byte} {u : Machine}
    (hstatus : ∀ i, t.reu.status i = s.reu.status (i + 1))
    (hlog : t.reu.log = .readStatus v :: s.reu.log)
    (hfault : t.var .x25519ReuFault = s.var .x25519ReuFault ||| f) (h : Reads l g t u) :
    Reads (v :: l) (f ||| g) s u := by
  refine ⟨fun i => ?_, ?_, ?_⟩
  · rw [h.status, hstatus, List.length_cons, Nat.add_assoc]
  · rw [h.log, hlog, List.reverse_cons, List.map_append, List.append_assoc]
    rfl
  · rw [h.fault, hfault, BitVec.or_assoc]

/-! ## The slow path -/

/-- The bit of a VERIFY ERROR. -/
def verifyBit (v : Byte) : Byte := bif verifyError v then 0x02 else 0

/-- The fault bits of one sample. -/
theorem settleCheck_bits (hs : s.var .x25519ReuSettleSmp = v &&& 0x60) :
    ∃ t, t = (if s.var .x25519ReuSettleSmp &&& 0x20 = 0 then s
        else s.setVar .x25519ReuFault (0x02 ||| s.var .x25519ReuFault)) ∧
      t.var .x25519ReuFault = s.var .x25519ReuFault ||| verifyBit v ∧
      t.reu = s.reu ∧ ∀ x, x ≠ .x25519ReuFault → t.var x = s.var x := by
  refine ⟨_, rfl, ?_⟩
  rw [hs, verifyBit]
  cases hv : verifyError v with
  | false =>
      rw [if_pos ((sample_verifyError v).mpr hv)]
      exact ⟨BitVec.or_zero.symm, rfl, fun _ _ => rfl⟩
  | true =>
      rw [if_neg fun h => absurd ((sample_verifyError v).mp h) (by rw [hv]; decide)]
      refine ⟨?_, rfl, fun x hx => setVar_var_of_ne hx⟩
      rw [setVar_var_self, BitVec.or_comm]
      rfl

/-- A sample with END OF BLOCK ends the loop. -/
theorem settleCheck_hit (hs : s.var .x25519ReuSettleSmp = v &&& 0x60) (hv : endOfBlock v = true) :
    (settleCheck s).2 = false ∧ Reads [] (verifyBit v) s (settleCheck s).1 := by
  obtain ⟨t, ht, hfault, hreu, hvar⟩ := settleCheck_bits hs
  have hsmp : t.var .x25519ReuSettleSmp &&& 0x40 ≠ 0 := by
    rw [hvar _ (by decide), hs]
    exact (sample_endOfBlock v).mpr hv
  unfold settleCheck
  simp only [← ht, if_pos hsmp]
  exact ⟨trivial, .record _ hreu hfault⟩

/-- Without one the turn is counted, and the last turn records it. -/
theorem settleCheck_expired (hs : s.var .x25519ReuSettleSmp = v &&& 0x60)
    (hv : endOfBlock v = false) (hc : (s.var .x25519ReuSettleCnt).toNat = 1) :
    (settleCheck s).2 = false ∧ Reads [] (verifyBit v ||| 0x01) s (settleCheck s).1 := by
  obtain ⟨t, ht, hfault, hreu, hvar⟩ := settleCheck_bits hs
  have hsmp : ¬ t.var .x25519ReuSettleSmp &&& 0x40 ≠ 0 := by
    rw [hvar _ (by decide), hs, sample_endOfBlock, hv]
    decide
  have hcnt : t.var .x25519ReuSettleCnt - 1 = 0 := by
    rw [hvar _ (by decide)]
    bv_omega
  unfold settleCheck
  simp only [← ht, if_neg hsmp, setVar_var_self, if_pos hcnt]
  refine ⟨trivial, .record _ hreu ?_⟩
  rw [setVar_var_self, setVar_var_of_ne (by decide), hfault, BitVec.or_comm, BitVec.or_assoc]

/-- Before the last turn the next sample is read. -/
theorem settleCheck_again (hs : s.var .x25519ReuSettleSmp = v &&& 0x60)
    (hv : endOfBlock v = false) (hc : (s.var .x25519ReuSettleCnt).toNat = c + 2) :
    let t := (settleCheck s).1
    (settleCheck s).2 = true ∧ t.var .x25519ReuSettleSmp = s.reu.status 0 &&& 0x60 ∧
      (t.var .x25519ReuSettleCnt).toNat = c + 1 ∧
      (∀ i, t.reu.status i = s.reu.status (i + 1)) ∧
      t.reu.log = .readStatus (s.reu.status 0) :: s.reu.log ∧
      t.var .x25519ReuFault = s.var .x25519ReuFault ||| verifyBit v := by
  obtain ⟨t, ht, hfault, hreu, hvar⟩ := settleCheck_bits hs
  have hsmp : ¬ t.var .x25519ReuSettleSmp &&& 0x40 ≠ 0 := by
    rw [hvar _ (by decide), hs, sample_endOfBlock, hv]
    decide
  have hcnt : (t.var .x25519ReuSettleCnt - 1).toNat = c + 1 := by
    rw [hvar _ (by decide)]
    bv_omega
  have hne : ¬ t.var .x25519ReuSettleCnt - 1 = 0 := fun h => by
    rw [h] at hcnt
    exact absurd hcnt (Nat.succ_ne_zero c).symm
  unfold settleCheck
  simp only [← ht, if_neg hsmp, setVar_var_self, if_neg hne]
  refine ⟨trivial, ?_, ?_, fun i => ?_, ?_, ?_⟩
  · rw [← hreu]
    rfl
  · rw [setVar_var_of_ne (by decide)]
    exact hcnt
  · rw [← hreu]
    rfl
  · rw [← hreu]
    rfl
  · rw [setVar_var_of_ne (by decide), ← hfault]
    change (t.setVar .x25519ReuSettleCnt (t.var .x25519ReuSettleCnt - 1)).var .x25519ReuFault
      = t.var .x25519ReuFault
    exact setVar_var_of_ne (by decide)

theorem verdict_hit (hv : endOfBlock v = true) : verdict [v] = verifyBit v := by
  simp only [verdict, verifyBit, List.any_cons, List.any_nil, Bool.or_false, hv, cond_true]
  exact BitVec.zero_or

theorem verdict_miss (hv : endOfBlock v = false) (l : List Byte) :
    verdict (v :: l) = verifyBit v ||| verdict l := by
  simp only [verdict, verifyBit, List.any_cons, hv, Bool.false_or]
  cases verifyError v <;> cases l.any verifyError <;> cases l.any endOfBlock <;> rfl

/-- **The loop of the slow path**, entered with a sample that misses and
`c + 1` turns to go: it makes the reads of a poll that may make `c`. -/
theorem settleLoop_spec (hs : s.var .x25519ReuSettleSmp = v &&& 0x60)
    (hv : endOfBlock v = false) (hc : (s.var .x25519ReuSettleCnt).toNat = c + 1)
    (hn : c + 1 ≤ n) :
    Reads (polled endOfBlock c s.reu.status) (verdict (v :: polled endOfBlock c s.reu.status)) s
      (doWhile settleCheck n s) := by
  induction c generalizing s v n with
  | zero =>
      obtain ⟨hstop, hr⟩ := settleCheck_expired hs hv hc
      rw [doWhile_stop (by omega) hstop, verdict_miss hv, polled]
      exact hr
  | succ c ih =>
      obtain ⟨n, rfl⟩ : ∃ m, n = m + 1 := ⟨n - 1, by omega⟩
      obtain ⟨hagain, hsmp, hcnt, hstatus, hlog, hfault⟩ := settleCheck_again hs hv hc
      rw [doWhile_again hagain, verdict_miss hv]
      cases hv' : endOfBlock (s.reu.status 0) with
      | true =>
          obtain ⟨hstop, hr⟩ := settleCheck_hit hsmp hv'
          rw [doWhile_stop (by omega) hstop, Poll.polled_hit hv', verdict_hit hv']
          exact hr.cons hstatus hlog hfault
      | false =>
          have hdrop : dropFirst s.reu.status = (settleCheck s).1.reu.status :=
            (funext hstatus).symm
          rw [Poll.polled_miss hv', hdrop]
          exact (ih hsmp hv' hcnt (by omega)).cons hstatus hlog hfault

/-! ## The macro -/

/-- **A settle** reads what a poll for END OF BLOCK reads under its bound,
and records the verdict on that. -/
theorem reuSettle_reads (s : Machine) : Reads (settleReads B s.reu.status)
    (verdict (settleReads B s.reu.status)) s (reuSettle B s) := by
  obtain ⟨n, hn⟩ : ∃ n, B.settleIter = n + 2 := ⟨B.settleIter - 2, by
    have := B.settleIter_le
    omega⟩
  have hle := B.settleIter_le
  set v := s.reu.status 0
  unfold settleReads
  rw [hn]
  unfold reuSettle
  simp only [show s.readStatus.1 = v from rfl]
  split
  · next h =>
    obtain ⟨hv, hv'⟩ := (sample_fast v).mp h
    rw [Poll.polled_hit hv, verdict_hit hv, verifyBit, hv']
    exact ⟨fun _ => rfl, rfl, BitVec.or_zero.symm⟩
  · next h =>
    unfold x25519ReuSettleSlow
    extract_lets t1 t2
    have hsmp : t2.var .x25519ReuSettleSmp = v &&& 0x60 := by
      rw [setVar_var_of_ne (by decide), setVar_var_self, sample_restored]
    have hcnt : (t2.var .x25519ReuSettleCnt).toNat = n + 1 + 1 := by
      rw [setVar_var_self, BitVec.toNat_ofNat, hn]
      omega
    have hfault : t2.var .x25519ReuFault = s.var .x25519ReuFault ||| 0 := by
      rw [setVar_var_of_ne (by decide), setVar_var_of_ne (by decide)]
      exact BitVec.or_zero.symm
    have hcons : ∀ {l f u}, Reads l f t2 u → Reads (v :: l) f s u := fun {l f u} hr => by
      have h := hr.cons (s := s) (v := v) (f := 0) (fun _ => rfl) rfl hfault
      rwa [show 0 ||| f = f from BitVec.zero_or] at h
    cases hv : endOfBlock v with
    | true =>
        obtain ⟨hstop, hr⟩ := settleCheck_hit hsmp hv
        rw [doWhile_stop (by omega) hstop, Poll.polled_hit hv, verdict_hit hv]
        exact hcons hr
    | false =>
        rw [Poll.polled_miss hv]
        exact hcons (settleLoop_spec hsmp hv hcnt (by omega))

end C64X25519
