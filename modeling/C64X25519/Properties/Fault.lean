import C64X25519.Helpers.Accesses
import C64X25519.Helpers.Cpu
import C64X25519.Properties.History
/-!
# The sticky fault byte

A settle makes the reads of a poll bounded by `X25519_REU_SETTLE_ITER` and
ORs its verdict into `x25519_reu_fault`. Over a run the log of the unit
parses into register accesses and settled transfers, and the byte is the OR
of the verdicts since an initialiser last cleared it.
-/

namespace C64X25519

open Machine Relation

variable {B : Build} {s t : Machine} {n : ℕ} {l log : List Access}

/-! ## The log, and what it says of the fault byte -/

/-- The OR of the verdicts of a log, whose newest access stands first. `l`
collects the reads met on the way back to the transfer they settle. -/
def faultsFrom : List Byte → List Access → Byte
  | _, [] => 0
  | l, .readStatus v :: log => faultsFrom (v :: l) log
  | l, .execute _ _ :: log => verdict l ||| faultsFrom [] log
  | _, .write _ _ :: log => faultsFrom [] log
  | _, .read _ _ :: log => faultsFrom [] log

/-- The bits recorded by the settles of a log. -/
def faults (log : List Access) : Byte := faultsFrom [] log

/-- A log in which a transfer is followed at once by all the reads of its
settle, under a bound of `n`, and the status register is read nowhere else. -/
inductive Settled (n : ℕ) : List Access → Prop
  | nil : Settled n []
  | write {log : List Access} (x : Reg) (v : Byte) (h : Settled n log) :
      Settled n (.write x v :: log)
  | read {log : List Access} (x : Reg) (v : Byte) (h : Settled n log) :
      Settled n (.read x v :: log)
  | transfer {log : List Access} (cmd : Byte) (reg : Reg → Byte) (σ : ℕ → Byte)
      (h : Settled n log) :
      Settled n ((polled endOfBlock n σ).reverse.map .readStatus ++ .execute cmd reg :: log)

theorem Settled.append (h : Settled n l) (h' : Settled n log) : Settled n (l ++ log) := by
  induction h with
  | nil => exact h'
  | write x v _ ih => exact ih.write x v
  | read x v _ ih => exact ih.read x v
  | transfer cmd reg σ _ ih =>
      rw [List.append_assoc, List.cons_append]
      exact ih.transfer cmd reg σ

theorem faultsFrom_reads (l r : List Byte) :
    faultsFrom r (l.reverse.map .readStatus ++ log) = faultsFrom (l ++ r) log := by
  induction l generalizing log with
  | nil => rfl
  | cons v l ih =>
      rw [List.reverse_cons, List.map_append, List.append_assoc, ih]
      rfl

/-- A settled transfer contributes its verdict. -/
theorem faults_transfer (l : List Byte) (cmd : Byte) (reg : Reg → Byte) :
    faults (l.reverse.map .readStatus ++ .execute cmd reg :: log) = verdict l ||| faults log := by
  rw [faults, faultsFrom_reads, List.append_nil]
  rfl

theorem Settled.faults_append (h : Settled n l) : faults (l ++ log) = faults l ||| faults log := by
  induction h with
  | nil => exact BitVec.zero_or.symm
  | write x v _ ih => exact ih
  | read x v _ ih => exact ih
  | transfer cmd reg σ _ ih =>
      rw [List.append_assoc, List.cons_append, faults_transfer, faults_transfer, ih,
        BitVec.or_assoc]

/-- From `s` to `t` the log has grown by `l`, and the fault byte by what `l`
records. -/
structure Watched (n : ℕ) (l : List Access) (s t : Machine) : Prop where
  log : t.reu.log = l ++ s.reu.log
  settled : Settled n l
  fault : t.var .x25519ReuFault = s.var .x25519ReuFault ||| faults l

theorem Watched.trans {l' : List Access} {u : Machine} (h : Watched n l s t)
    (h' : Watched n l' t u) : Watched n (l' ++ l) s u where
  log := by rw [h'.log, h.log, List.append_assoc]
  settled := h'.settled.append h.settled
  fault := by
    rw [h'.fault, h.fault, h'.settled.faults_append, BitVec.or_assoc,
      BitVec.or_comm (faults l)]

/-- One access that is no transfer. -/
theorem Watched.access (a : Access) (ha : Settled n [a]) (h0 : faults [a] = 0)
    (hlog : t.reu.log = a :: s.reu.log)
    (hfault : t.var .x25519ReuFault = s.var .x25519ReuFault) : Watched n [a] s t :=
  ⟨hlog, ha, by
    rw [hfault, h0]
    exact BitVec.or_zero.symm⟩

theorem Watched.transfer (cmd : Byte) (s : Machine) :
    ∃ l, Watched B.settleIter l s (reuSettle B (s.reuCommand cmd)) := by
  have hcmd : (s.reuCommand cmd).reu.log = .execute cmd s.reu.reg :: s.reu.log ∧
      (s.reuCommand cmd).var = s.var := by
    unfold reuCommand
    extract_lets r m
    split
    · exact ⟨rfl, rfl⟩
    · exact ⟨rfl, rfl⟩
  have hread := reuSettle_reads (B := B) (s.reuCommand cmd)
  refine ⟨_, ⟨?_, Settled.nil.transfer cmd s.reu.reg (s.reuCommand cmd).reu.status, ?_⟩⟩
  · rw [hread.log, hcmd.1, List.append_assoc]
    rfl
  · rw [hread.fault, hcmd.2, faults_transfer]
    exact congrArg _ BitVec.or_zero.symm

/-- **The fault byte keeps the log's account** over every run of accesses. -/
theorem Accesses.watched (h : Accesses B s t) : ∃ l, Watched B.settleIter l s t := by
  induction h with
  | refl => exact ⟨[], rfl, .nil, BitVec.or_zero.symm⟩
  | quiet _ hreu hfault ih =>
      obtain ⟨l, hl⟩ := ih
      exact ⟨l, by rw [hreu, hl.log], hl.settled, by rw [hfault, hl.fault]⟩
  | write x v _ ih =>
      obtain ⟨l, hl⟩ := ih
      exact ⟨_, hl.trans (.access (.write x v) (Settled.nil.write x v) rfl rfl rfl)⟩
  | read x _ ih =>
      obtain ⟨l, hl⟩ := ih
      exact ⟨_, hl.trans (.access (.read x _) (Settled.nil.read x _) rfl rfl rfl)⟩
  | transfer cmd _ ih =>
      obtain ⟨l, hl⟩ := ih
      obtain ⟨l', hl'⟩ := Watched.transfer (B := B) cmd _
      exact ⟨_, hl.trans hl'⟩

/-! ## What a clear byte means -/

/-- Every transfer of a log is followed at once by reads of the status
register, down to one that shows END OF BLOCK; and no read shows a VERIFY
ERROR. -/
structure Confirmed (log : List Access) : Prop where
  endOfBlock : ∀ cmd reg before after, log = after ++ .execute cmd reg :: before →
    ∃ (later : List Access) (v : Byte) (l : List Byte),
      after = later ++ .readStatus v :: l.map .readStatus ∧ endOfBlock v = true
  verifyError : ∀ v, .readStatus v ∈ log → verifyError v = false

/-- A clear verdict: the last read shows END OF BLOCK, and none a VERIFY
ERROR. -/
theorem verdict_eq_zero {l : List Byte} (h : verdict l = 0) :
    l.any endOfBlock = true ∧ l.any verifyError = false := by
  unfold verdict at h
  cases h1 : l.any endOfBlock <;> cases h2 : l.any verifyError <;> rw [h1, h2] at h <;>
    first | exact ⟨rfl, rfl⟩ | exact absurd h (by decide)

/-- A transfer behind reads is the one the reads settle, or one before it. -/
theorem execute_split {A after before : List Access} {cmd cmd' : Byte} {reg reg' : Reg → Byte}
    (hA : ∀ x ∈ A, ∀ c r, x ≠ .execute c r)
    (h : A ++ .execute cmd reg :: log = after ++ .execute cmd' reg' :: before) :
    after = A ∨ ∃ rest, after = A ++ .execute cmd reg :: rest ∧
      log = rest ++ .execute cmd' reg' :: before := by
  induction A generalizing after with
  | nil =>
      cases after with
      | nil => exact .inl rfl
      | cons x rest =>
          rw [List.nil_append, List.cons_append, List.cons.injEq] at h
          exact .inr ⟨rest, by rw [← h.1]; rfl, h.2⟩
  | cons a A ih =>
      cases after with
      | nil =>
          rw [List.nil_append, List.cons_append, List.cons.injEq] at h
          exact absurd h.1 (hA a List.mem_cons_self cmd' reg')
      | cons x rest =>
          rw [List.cons_append, List.cons_append, List.cons.injEq] at h
          rcases ih (fun y hy => hA y (List.mem_cons_of_mem a hy)) h.2 with rfl | ⟨r, rfl, hr⟩
          · exact .inl (by rw [h.1])
          · exact .inr ⟨r, by rw [h.1]; rfl, hr⟩

/-- Another access in front changes nothing of this. -/
theorem Confirmed.cons {a : Access} (ha : ∀ c r, a ≠ .execute c r) (ha' : ∀ v, a ≠ .readStatus v)
    (h : Confirmed log) : Confirmed (a :: log) := by
  refine ⟨fun cmd reg before after he => ?_, fun v hv => ?_⟩
  · cases after with
    | nil =>
        rw [List.nil_append, List.cons.injEq] at he
        exact absurd he.1 (ha cmd reg)
    | cons x rest =>
        rw [List.cons_append, List.cons.injEq] at he
        obtain ⟨later, v, l, hl, hv⟩ := h.endOfBlock cmd reg before rest he.2
        exact ⟨x :: later, v, l, by rw [hl]; rfl, hv⟩
  · rcases List.mem_cons.mp hv with hv | hv
    · exact absurd hv.symm (ha' v)
    · exact h.verifyError v hv

/-- **A clear fault byte**: the transfers of the log are confirmed. -/
theorem Settled.confirmed (h : Settled n log) (h0 : faults log = 0) : Confirmed log := by
  induction h with
  | nil => exact ⟨fun _ _ _ _ he => absurd he.symm (by simp), fun _ hv => absurd hv (by simp)⟩
  | write x v _ ih => exact (ih h0).cons (by simp) (by simp)
  | read x v _ ih => exact (ih h0).cons (by simp) (by simp)
  | transfer cmd reg σ _ ih =>
      rw [faults_transfer] at h0
      obtain ⟨hv, hlog⟩ := or_eq_zero h0
      obtain ⟨heob, hver⟩ := verdict_eq_zero hv
      obtain ⟨l, hl, hlast, -⟩ := Poll.polled_getLast heob
      have ih := ih hlog
      refine ⟨fun cmd' reg' before after he => ?_, fun v hv => ?_⟩
      · rcases execute_split (by simp) he with rfl | ⟨rest, rfl, hrest⟩
        · exact ⟨[], _, l.reverse, by rw [hl]; simp, hlast⟩
        · obtain ⟨later, v, l', hl', hv'⟩ := ih.endOfBlock cmd' reg' before rest hrest
          refine ⟨(polled endOfBlock n σ).reverse.map .readStatus ++
            .execute cmd reg :: later, v, l', ?_, hv'⟩
          rw [hl', List.append_assoc]
          rfl
      · rcases List.mem_append.mp hv with hv | hv
        · rw [List.any_eq_false] at hver
          simp only [List.mem_map, List.mem_reverse, Access.readStatus.injEq,
            exists_eq_right] at hv
          simpa using hver v hv
        · rcases List.mem_cons.mp hv with hv | hv
          · cases hv
          · exact ih.verifyError v hv

/-! ## One settle -/

/-- **What a settle does** between the states `u` and `v` of the processor,
reading the stream `σ` under a bound of `n`: it makes `k` reads. -/
structure SettleLaw (n : ℕ) (σ : ℕ → Byte) (k : ℕ) (u v : Cpu) : Prop where
  /-- The bound, and the reads before the last. -/
  le : 0 < k ∧ k ≤ n
  early : ∀ i, i + 1 < k → endOfBlock (σ i) = false
  /-- It stops at END OF BLOCK, or when the bound is spent. -/
  last : endOfBlock (σ (k - 1)) = true ∨ k = n
  /-- The reads are those of the stream, and the next settle goes on behind
  them. -/
  status : ∀ i, v.m.reu.status i = σ (i + k)
  log : v.m.reu.log = ((List.range k).map fun i => .readStatus (σ i)).reverse ++ u.m.reu.log
  /-- What the fault byte takes up. -/
  fault : ∃ f, v.m.var .x25519ReuFault = u.m.var .x25519ReuFault ||| f ∧ f &&& 0x03 = f ∧
    (f.getLsbD 0 = true ↔ ∀ i, i < n → endOfBlock (σ i) = false) ∧
    (f.getLsbD 1 = true ↔ ∃ i, i < k ∧ verifyError (σ i) = true)
  x : v.x = u.x
  y : v.y = u.y
  c : v.c = u.c
  /-- And of the rest only its own two cells change. -/
  rest : Settles u.m v.m

/-- The samples of a poll, off the stream. -/
theorem polled_eq_range (p : Byte → Bool) (n : ℕ) (σ : ℕ → Byte) :
    polled p n σ = (List.range (polled p n σ).length).map σ := by
  refine List.ext_getElem? fun i => ?_
  by_cases hi : i < (polled p n σ).length
  · rw [Poll.polled_getElem? hi, List.getElem?_map, List.getElem?_range hi]
    rfl
  · rw [List.getElem?_eq_none (by omega), List.getElem?_eq_none (by simp; omega)]

theorem verdict_bits (l : List Byte) : verdict l &&& 0x03 = verdict l ∧
    ((verdict l).getLsbD 0 = true ↔ l.any endOfBlock = false) ∧
    ((verdict l).getLsbD 1 = true ↔ l.any verifyError = true) := by
  unfold verdict
  cases l.any endOfBlock <;> cases l.any verifyError <;> decide

/-- **Every settle obeys the law**, under every bound and every stream. -/
theorem reuSettle_law (u : Cpu) :
    SettleLaw B.settleIter u.m.reu.status (settleReads B u.m.reu.status).length u
      (u.reuSettle B) := by
  set σ := u.m.reu.status with hσ
  have hkeep := Cpu.reuSettle_keeps (B := B) u
  have hread := reuSettle_reads (B := B) u.m
  rw [← hkeep.m, ← hσ] at hread
  have hpos : 0 < B.settleIter := by
    have := B.settleIter_le
    omega
  obtain ⟨hmask, hbit0, hbit1⟩ := verdict_bits (settleReads B σ)
  have hrange := polled_eq_range endOfBlock B.settleIter σ
  refine ⟨⟨Poll.length_polled_pos hpos, Poll.length_polled_le⟩, fun i => Poll.polled_early, ?_,
    hread.status, ?_, ⟨_, hread.fault, hmask, hbit0.trans ?_, hbit1.trans ?_⟩, hkeep.x, hkeep.y,
    hkeep.c, by rw [hkeep.m]; exact reuSettle_settles u.m⟩
  · cases h : (settleReads B σ).any endOfBlock with
    | true =>
        obtain ⟨l, hl, hlast, -⟩ := Poll.polled_getLast h
        have hlen : (settleReads B σ).length = l.length + 1 := by
          rw [settleReads, hl, List.length_append]
          rfl
        exact .inl (by rw [hlen]; exact hlast)
    | false => exact .inr (Poll.length_polled h)
  · have hmap : (settleReads B σ).map Access.readStatus
        = (List.range (settleReads B σ).length).map fun i => .readStatus (σ i) :=
      (congrArg _ hrange).trans List.map_map
    rw [hread.log, List.map_reverse, hmap]
  · rw [← Bool.not_eq_true, settleReads, Poll.any_polled]
    simp
  · rw [List.any_eq_true]
    constructor
    · rintro ⟨v, hv, hbad⟩
      rw [settleReads, hrange, List.mem_map] at hv
      obtain ⟨i, hi, rfl⟩ := hv
      exact ⟨i, List.mem_range.mp hi, hbad⟩
    · rintro ⟨i, hi, hbad⟩
      exact ⟨σ i, List.mem_of_getElem? (Poll.polled_getElem? hi), hbad⟩

/-! ## Runs -/

/-- The entries that clear the fault byte. -/
inductive Opening
  | reuMulInit
  | x25519SqrTablesInit
  | reuProbe

/-- What an opening does to the machine. -/
def Opening.run (B : Build) : Opening → Machine → Machine
  | reuMulInit => C64X25519.reuMulInit B
  | x25519SqrTablesInit => C64X25519.x25519SqrTablesInit B
  | reuProbe => fun s => (C64X25519.reuProbe B s).2

/-- A step of a run that does not clear it: a step of a caller, or
`sqtab_init`. -/
inductive RunStep (B : Build) : Machine → Machine → Prop
  | caller {s t : Machine} (h : CallerStep B s t) : RunStep B s t
  | sqtabInit (s : Machine) : RunStep B s (sqtabInit B s)

/-- An opening starts a fresh account. -/
theorem Opening.watched (o : Opening) (s : Machine) :
    ∃ l, Watched B.settleIter l (s.setVar .x25519ReuFault 0) (o.run B s) := by
  cases o with
  | reuMulInit => exact (Accesses.reuMulInit s).watched
  | x25519SqrTablesInit => exact (Accesses.x25519SqrTablesInit s).watched
  | reuProbe => exact (Accesses.reuProbe s).watched

/-- Every step goes on with it. -/
theorem RunStep.watched (h : RunStep B s t) : ∃ l, Watched B.settleIter l s t := by
  cases h with
  | sqtabInit => exact (Accesses.sqtabInit s).watched
  | caller h =>
      obtain ⟨e, hv, rfl⟩ := h
      cases e with
      | call c => exact (Accesses.call c s).watched
      | writeReg x v => exact (Accesses.refl.write x v).watched
      | writeZp a v => exact Accesses.watched (t := s.setZp a v) (.store rfl rfl)
      | writeRam a v => exact Accesses.watched (t := s.setRam a v) (.store rfl rfl)
      | writeVar x v =>
          exact Accesses.watched (t := s.setVar x v) (.store rfl (setVar_var_of_ne (Ne.symm hv)))

/-- **Settling, and the sticky byte.** Every settle obeys its law. Over every
run behind an opening the log is one of settled transfers, the fault byte is
the OR of their verdicts, and a clear byte says that every transfer of it was
confirmed before the unit was touched again, and no fault seen. -/
theorem reuFault_sticky (o : Opening) (h : ReflTransGen (RunStep B) (o.run B s) t) :
    (∀ u : Cpu, SettleLaw B.settleIter u.m.reu.status (settleReads B u.m.reu.status).length u
      (u.reuSettle B)) ∧
    ∃ l, t.reu.log = l ++ s.reu.log ∧ Settled B.settleIter l ∧
      t.var .x25519ReuFault = faults l ∧ (t.var .x25519ReuFault = 0 → Confirmed l) := by
  refine ⟨reuSettle_law, ?_⟩
  obtain ⟨l, hl⟩ : ∃ l, Watched B.settleIter l (s.setVar .x25519ReuFault 0) t := by
    refine run_preserves (fun t => ∃ l, Watched B.settleIter l (s.setVar .x25519ReuFault 0) t)
      (fun u v hstep ih => ?_) h (o.watched s)
    obtain ⟨l, hl⟩ := ih
    obtain ⟨l', hl'⟩ := hstep.watched
    exact ⟨_, hl.trans hl'⟩
  have hfault : t.var .x25519ReuFault = faults l := by
    rw [hl.fault, setVar_var_self]
    exact BitVec.zero_or
  exact ⟨l, hl.log, hl.settled, hfault, fun h0 => hl.settled.confirmed (hfault ▸ h0)⟩

/-- The owning build booted, and a multiplication of the base point. -/
theorem reuFault_sticky_base :
    let B := Build.standard
    let s := sqtabInit B .loaded
    let t := Call.x25519Base.run B (reuMulInit B s)
    (∀ u : Cpu, SettleLaw B.settleIter u.m.reu.status (settleReads B u.m.reu.status).length u
      (u.reuSettle B)) ∧
    ∃ l, t.reu.log = l ++ s.reu.log ∧ Settled B.settleIter l ∧
      t.var .x25519ReuFault = faults l ∧ (t.var .x25519ReuFault = 0 → Confirmed l) :=
  reuFault_sticky (s := sqtabInit .standard .loaded) .reuMulInit
    (.single (.caller ⟨.call .x25519Base, x25519Base_valid _, rfl⟩))

end C64X25519
