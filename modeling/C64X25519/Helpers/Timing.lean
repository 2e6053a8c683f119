import C64X25519.Helpers.AddSub
import C64X25519.Helpers.Settle
import C64X25519.Model.RowsAsm
/-!
# Running the listings

`Spends B L c s b Q`: on the processor of a build the listing `c` ends, from
`s`, in a state with `Q`, and its cost is the bill `b`. The device a listing
waits for is the expansion unit: the tape is the status it will show, and a
settle takes from it the samples of `settleReads`.

The operands the listings index stay within a page (`Within`), which is what
makes the cost of an instruction a number.
-/

namespace C64X25519

open Machine

variable {B : Build} {L : Link} {s t : Core} {x : Slot} {at' l : List Site} {a i n : ℕ}

/-! ## The expansion unit as a device -/

/-- The cycles of the slow path of a settle from `@check` on, with `c` turns
left, the sample `v`, and the samples to come. -/
def settleTurnCycles (L : Link) : ℕ → Byte → (ℕ → Byte) → ℕ
  | 0, _, _ => 0
  | c + 1, v, w =>
      6 + (if verifyError v then 12 else 3 + (L.crosses .noB5).toNat) + 6 +
        if endOfBlock v then 3 + (L.crosses .settleDone).toNat
        else 8 + if c = 0 then 3 + (L.crosses .settleExpired).toNat + 10
          else 15 + settleTurnCycles L c (w 0) (dropFirst w)

/-- The cycles of `REU_SETTLE`, by the samples it takes. -/
def settleCycles (B : Build) (L : Link) (l : Label) (w : ℕ → Byte) : ℕ :=
  8 + if endOfBlock (w 0) ∧ verifyError (w 0) = false then 3 + (L.crosses l).toNat
    else 2 + (12 + settleTurnCycles L B.settleIter (w 0) (dropFirst w)) + 12

/-- The unit, as what a listing waits for. -/
def unit (B : Build) (L : Link) : Device Core (ℕ → Byte) Label where
  tape s := s.m.reu.status
  next w := fun i => w (i + (settleReads B w).length)
  wait := settleCycles B L

/-- The listing ends from `s` at the cost `b`, with `Q`. -/
abbrev Spends (B : Build) (L : Link) (c : Asm) (s : Core) (b : Bill Label) (Q : Core → Prop) :
    Prop := Takes (cpu B L) (unit B L) c s b Q

/-- The listing of a routine ends with the machine of the routine, and the
stack as it was. -/
abbrev Does (B : Build) (L : Link) (c : Asm) (s : Core) (b : Bill Label) (m : Machine) : Prop :=
  Spends B L c s b fun t => t.m = m ∧ t.stack = s.stack

/-- A return, with a return address on top of the stack. -/
theorem leave_ret {l : List Pushed} (h : t.stack = .ret :: l) :
    (cpu B L).leave t = some { t with stack := l } := by
  simp [cpu, h]

/-- A routine called keeps what its own run keeps. -/
theorem Spends.call {c : Asm} {b : Bill Label} {Q : Core → Prop}
    (h : Spends B L c (s.push .ret) b fun t => t.stack = .ret :: s.stack ∧
      Q { t with stack := s.stack }) :
    Spends B L (.call c) s (b + .tick 12) Q :=
  Takes.call rfl (h.mono fun t ht => ⟨{ t with stack := s.stack }, leave_ret ht.1, rfl, ht.2⟩)

/-- A call of a routine. -/
theorem Does.call {c : Asm} {b : Bill Label} {m : Machine}
    (h : Does B L c (s.push .ret) b m) : Does B L (.call c) s (b + .tick 12) m :=
  Spends.call (h.mono fun _ ht => ⟨ht.2, ht.1, rfl⟩)

/-- A run of instructions after those of a routine. -/
theorem Does.append {l l' : List Op} {n n' : ℕ} {m' : Machine} {Q : Core → Prop}
    (h : Does B L (.block l) s (.tick n) m')
    (h' : ∀ t : Core, t.m = m' → t.stack = s.stack → Spends B L (.block l') t (.tick n') Q) :
    Spends B L (.block (l ++ l')) s (.tick (n + n')) Q :=
  Takes.append h fun t ht => h' t ht.1 ht.2

/-! ## Operands within a page -/

/-- An indexed operand that stays in the page of its base. -/
def Within (a i : ℕ) : Prop := a < 0x10000 ∧ a % 0x100 + i < 0x100

theorem Within.indexed (h : Within a i) : indexed a i = a + i := by
  obtain ⟨h1, h2⟩ := h
  exact Nat.mod_eq_of_lt (by omega)

theorem Within.pageCross (h : Within a i) : pageCross a i = 0 := if_neg (Nat.not_le.2 h.2)

/-- The bytes of a field buffer are in one page. -/
theorem FieldBuf.within (d : FieldBuf B.mem) (hi : i < 32) : Within d.addr i := by
  have h1 := d.aligned
  have h2 := d.fits
  exact ⟨by omega, by omega⟩

/-- The indexed read of an instruction: its base and its index. -/
def Op.access (B : Build) (i : Op) (s : Core) : List (ℕ × ℕ) :=
  match i with
  | lda p | ldx p | ldy p | adc p | sbc p | and p | ora p | eor p | cpx p =>
    match p with
    | .wideY => [(B.slot .feWide, s.y.toNat)]
    | .absX a => [(a, s.x.toNat)]
    | .absY a => [(a, s.y.toNat)]
    | .patchedX x => [(s.m.op x, s.x.toNat)]
    | .patchedY x => [(s.m.op x, s.y.toNat)]
    | .pageX x base => [(pageOp s.m x base, s.x.toNat)]
    | .table t => [(B.mem.data + t.offset, s.y.toNat)]
    | .indY x => [(s.m.ptr B x, s.y.toNat)]
    | _ => []
  | _ => []

/-- The indexed reads of a run of instructions. -/
def accesses (B : Build) : List Op → Core → List (ℕ × ℕ)
  | [], _ => []
  | i :: l, s => i.access B s ++ accesses B l (i.act B s)

/-- The cycles of an instruction whose read stays in its page. -/
def Op.price : Op → ℕ
  | lda p | ldx p | ldy p | adc p | sbc p | and p | ora p | eor p | cpx p =>
    match p with
    | .slot _ | .slotHi _ | .wide _ => 3
    | .indY _ => 5
    | _ => 4
  | sta p | stx p => p.writeCycles
  | asl p | rol p | lsr p | ror p | inc p | dec p => p.modifyCycles
  | pha | php => 3
  | pla | plp | staLo _ | staHi _ | staReg _ | ldaReg _ | ldaStatus | staCommand => 4
  | staTramp _ => 12
  | _ => 2

/-- Whether an instruction starts no transfer. -/
def noCommand : Op → Bool
  | .staCommand => false
  | _ => true

theorem Op.cycles_eq {o : Op} (hc : noCommand o = true)
    (h : ∀ p ∈ o.access B s, Within p.1 p.2) : o.cycles B L s = o.price := by
  cases o
  case staCommand => cases hc
  case lda p | ldx p | ldy p | adc p | sbc p | and p | ora p | eor p | cpx p =>
    cases p
    all_goals
      first
        | rfl
        | exact congrArg (_ + ·) (h _ (List.mem_singleton_self _)).pageCross
  all_goals rfl

/-- **The cost of a run whose reads stay in their pages.** -/
theorem cost_eq {l : List Op} (hc : l.all noCommand = true)
    (h : (accesses B l s).Forall fun p => Within p.1 p.2) :
    (cpu B L).cost l s = (l.map Op.price).sum := by
  rw [List.forall_iff_forall_mem] at h
  induction l generalizing s with
  | nil => rfl
  | cons o l ih =>
    rw [List.all_cons, Bool.and_eq_true] at hc
    rw [Isa.cost_cons, List.map_cons, List.sum_cons]
    exact congrArg₂ (· + ·) (Op.cycles_eq hc.1 fun p hp => h p (List.mem_append_left _ hp))
      (ih hc.2 fun p hp => h p (List.mem_append_right _ hp))

/-! ## Patches -/

theorem patchLo_append {l' : List Site} (m : Machine) (v : Byte) :
    (m.patchLo l v).patchLo l' v = m.patchLo (l ++ l') v := by
  simp only [patchLo, Machine.mk.injEq, true_and, and_true]
  funext z
  by_cases hz : z ∈ l' <;> by_cases hy : z ∈ l <;> simp [hz, hy]

theorem patchHi_append {l' : List Site} (m : Machine) (v : Byte) :
    (m.patchHi l v).patchHi l' v = m.patchHi (l ++ l') v := by
  simp only [patchHi, Machine.mk.injEq, true_and, and_true]
  funext z
  by_cases hz : z ∈ l' <;> by_cases hy : z ∈ l <;> simp [hz, hy]

theorem patchLo_nil (m : Machine) (v : Byte) : m.patchLo [] v = m := by simp [patchLo]

theorem patchHi_nil (m : Machine) (v : Byte) : m.patchHi [] v = m := by simp [patchHi]

/-- The patches of a pointer, in two runs. -/
theorem patchPtr_append {l' : List Site} {m : Machine} :
    (m.patchPtr B l x).patchPtr B l' x = m.patchPtr B (l ++ l') x := by
  simp only [patchPtr, patchLo, patchHi, Machine.mk.injEq, true_and, and_true]
  constructor <;>
  · funext z
    by_cases hz : z ∈ l' <;> by_cases hy : z ∈ l <;> simp [hz, hy]

/-- A run of stores to operands. -/
theorem exec_staLo : (cpu B L).exec (l.map .staLo) s = { s with m := s.m.patchLo l s.a } := by
  induction l generalizing s with
  | nil => rw [patchLo_nil]; rfl
  | cons y l ih =>
    rw [List.map_cons, Isa.exec_cons, ih]
    exact congrArg (fun m => { s with m := m }) (patchLo_append s.m s.a)

theorem exec_staHi : (cpu B L).exec (l.map .staHi) s = { s with m := s.m.patchHi l s.a } := by
  induction l generalizing s with
  | nil => rw [patchHi_nil]; rfl
  | cons y l ih =>
    rw [List.map_cons, Isa.exec_cons, ih]
    exact congrArg (fun m => { s with m := m }) (patchHi_append s.m s.a)

/-- Instructions of one price. -/
theorem cost_map {f : Site → Op} {k : ℕ} (h : ∀ y s, (cpu B L).cycles (f y) s = k) :
    (cpu B L).cost (l.map f) s = l.length * k := by
  induction l generalizing s with
  | nil => simp
  | cons y l ih => rw [List.map_cons, Isa.cost_cons, ih, h, List.length_cons, Nat.succ_mul,
      Nat.add_comm]

/-- **The patches of a pointer.** -/
theorem exec_patchPtr : (cpu B L).exec (patchPtrAsm at' x) s
    = { s with
        a := s.m.zp (B.slot x + 1)
        nz := s.m.zp (B.slot x + 1)
        m := s.m.patchPtr B at' x } := by
  rw [patchPtrAsm, List.cons_append, Isa.exec_cons, Isa.exec_append, exec_staLo, Isa.exec_cons,
    exec_staHi]
  rfl

theorem cost_patchPtr :
    (cpu B L).cost (patchPtrAsm at' x) s = 6 + 8 * at'.length := by
  have h4 : ∀ y s, (cpu B L).cycles (.staLo y) s = 4 := fun _ _ => rfl
  have h4' : ∀ y s, (cpu B L).cycles (.staHi y) s = 4 := fun _ _ => rfl
  rw [patchPtrAsm, List.cons_append, Isa.cost_cons, Isa.cost_append, Isa.cost_cons,
    cost_map h4, cost_map h4']
  change 3 + (_ + (3 + _)) = _
  omega

/-- Whether no instruction of a listing pulls. -/
def noPull : Op → Bool
  | .pla | .plp => false
  | _ => true

theorem ready_of_noPull {l : List Op} (h : l.all noPull = true) : (cpu B L).Ready l s := by
  refine Isa.ready_of_forall fun i hi s => ?_
  have hi := List.all_eq_true.1 h i hi
  cases i <;> first | rfl | cases hi

theorem patchPtr_spends : Spends B L (.block (patchPtrAsm at' x)) s
    (.tick (6 + 8 * at'.length)) fun t => t = { s with
      a := s.m.zp (B.slot x + 1)
      nz := s.m.zp (B.slot x + 1)
      m := s.m.patchPtr B at' x } := by
  refine Takes.block (ready_of_noPull ?_) ?_ cost_patchPtr exec_patchPtr
  · simp [patchPtrAsm, noPull]
  · rw [exec_patchPtr]
    rfl

theorem patchPtr_does : Does B L (.block (patchPtrAsm at' x)) s (.tick (6 + 8 * at'.length))
    (s.m.patchPtr B at' x) :=
  patchPtr_spends.mono fun _ ht => ht ▸ ⟨rfl, rfl⟩

/-! ## Running a block

The simp set runs a listing on the registers as a term. -/

theorem cpu_act : (cpu B L).act = Op.act B := rfl

attribute [simp] cpu_act Op.act Op.modify Core.setA Core.setX Core.setY Core.setAC Core.compare
  Core.push Operand.get Operand.put Op.price Operand.writeCycles Operand.modifyCycles

section

variable {m : Machine} {k : ℕ} {v : Byte} {y : Site}

@[simp] theorem op_setZp : (m.setZp k v).op y = m.op y := rfl

@[simp] theorem op_setRam : (m.setRam k v).op y = m.op y := rfl

@[simp] theorem op_setVar {z : Var} : (m.setVar z v).op y = m.op y := rfl

end

/-! ## Counted loops -/

/-- The cycles of a loop of `N` turns of `n` cycles, closed by a branch to
`lab`. -/
def loopCycles (L : Link) (lab : Label) (N n : ℕ) : ℕ :=
  N * n + ((N - 1) * (3 + (L.crosses lab).toNat) + 2)

theorem loop_bill (lab : Label) (N n : ℕ) :
    ((List.range N).map fun _ => (Bill.tick n : Bill Label)).sum
        + .tick ((N - 1) * (3 + (L.crosses lab).toNat) + 2)
      = .tick (loopCycles L lab N n) := by
  rw [Bill.sum_const, Bill.nsmul_tick, Bill.tick_add_tick, loopCycles]

/-- What a run of instructions keeps, and costs. -/
structure Straight (B : Build) (L : Link) (l : List Op) (n : ℕ) (s : Core) : Prop where
  noPull : l.all noPull = true
  status : ((cpu B L).exec l s).m.reu.status = s.m.reu.status
  stack : ((cpu B L).exec l s).stack = s.stack
  cost : (cpu B L).cost l s = n

/-- Whether an instruction leaves the stack and the unit's status alone. -/
def quiet : Op → Bool
  | .pla | .plp | .pha | .php | .ldaStatus | .staCommand => false
  | _ => true

theorem quiet_act {o : Op} (h : quiet o = true) :
    (o.act B s).m.reu.status = s.m.reu.status ∧ (o.act B s).stack = s.stack := by
  cases o
  case pla | plp | pha | php | ldaStatus | staCommand => cases h
  case sta p | stx p | asl p | rol p | lsr p | ror p | inc p | dec p => cases p <;> exact ⟨rfl, rfl⟩
  all_goals exact ⟨rfl, rfl⟩

theorem quiet_exec {l : List Op} (h : l.all quiet = true) :
    ((cpu B L).exec l s).m.reu.status = s.m.reu.status ∧
      ((cpu B L).exec l s).stack = s.stack := by
  induction l generalizing s with
  | nil => exact ⟨rfl, rfl⟩
  | cons o l ih =>
    rw [List.all_cons, Bool.and_eq_true] at h
    obtain ⟨h1, h2⟩ := ih (s := o.act B s) h.2
    obtain ⟨h3, h4⟩ := quiet_act (B := B) (s := s) h.1
    exact ⟨h1.trans h3, h2.trans h4⟩

/-- **A quiet run** whose reads stay in their pages costs the sum of its
prices. -/
theorem Straight.of_quiet {l : List Op} (hq : l.all quiet = true)
    (h : (accesses B l s).Forall fun p => Within p.1 p.2) (hn : (l.map Op.price).sum = n) :
    Straight B L l n s := by
  have hall : ∀ {q : Op → Bool}, (∀ o, quiet o = true → q o = true) → l.all q = true :=
    fun hmono => List.all_eq_true.2 fun o ho => hmono o (List.all_eq_true.1 hq o ho)
  refine ⟨hall fun o ho => ?_, (quiet_exec hq).1, (quiet_exec hq).2, ?_⟩
  · cases o <;> first | rfl | cases ho
  · rw [cost_eq (hall fun o ho => ?_) h, hn]
    cases o <;> first | rfl | cases ho

theorem Straight.spends {l : List Op} {Q : Core → Prop} (h : Straight B L l n s)
    (hQ : Q ((cpu B L).exec l s)) : Spends B L (.block l) s (.tick n) Q :=
  Takes.block (ready_of_noPull h.noPull) h.status h.cost hQ

/-- **The loop with Y counting up, and X down from 32.** -/
theorem Spends.upLoop {l : List Op} {lab : Label} {I : ℕ → Machine → Bool → Prop}
    (hy : s.y = 0) (hx : s.x = 32) (h0 : I 0 s.m s.c)
    (hstep : ∀ k, k < 32 → ∀ t : Core, t.y.toNat = k → I k t.m t.c →
      let u := (cpu B L).exec l t
      Straight B L l n t ∧ u.y = t.y ∧ u.x = t.x ∧ I (k + 1) u.m u.c) :
    Spends B L (.loop (.block (l ++ [.iny, .dex])) (.bne lab)) s
      (.tick (loopCycles L lab 32 (n + 4)))
      fun t => I 32 t.m t.c ∧ t.stack = s.stack := by
  refine ((Takes.loop (N := 32) (b := fun _ => .tick (n + 4)) (I := fun k t => I k t.m t.c ∧
    t.y.toNat = k ∧ t.x.toNat = 32 - k ∧ t.stack = s.stack) (Nat.succ_pos _) (Nat.le_of_ble_eq_true rfl)
    ⟨h0, by rw [hy]; rfl, by rw [hx]; rfl, rfl⟩ ?_).cast (loop_bill lab 32 _)).mono
    fun t ht => ⟨ht.1, ht.2.2.2⟩
  rintro k hk t ⟨hI, hty, htx, hts⟩
  obtain ⟨hstr, huy, hux, hI'⟩ := hstep k hk t hty hI
  refine Takes.block ?_ ?_ ?_ ?_
  · rw [Isa.ready_append]
    exact ⟨ready_of_noPull hstr.noPull, ready_of_noPull rfl⟩
  · rw [Isa.exec_append]
    exact hstr.status
  · rw [Isa.cost_append, hstr.cost]
    rfl
  rw [Isa.exec_append]
  set u := (cpu B L).exec l t
  have hy' : (u.y + 1).toNat = k + 1 := toNat_add_one (by rw [huy, hty]) (by omega)
  have hx' : (u.x - 1).toNat = 31 - k := toNat_sub_one (by rw [hux, htx]; omega)
  refine ⟨⟨hI', hy', hx'.trans (by omega), hstr.stack.trans hts⟩, ?_⟩
  change (u.x - 1 != 0) = _
  rw [bne_zero, hx']
  exact decide_eq_decide.2 (by omega)

/-- An index register that counts down. -/
structure CountsDown (B : Build) (idx : Core → Byte) (i : Op) : Prop where
  noPull : noPull i = true
  counts : ∀ t, idx (i.act B t) = idx t - 1
  nz : ∀ t, (i.act B t).nz = idx t - 1
  m : ∀ t, (i.act B t).m = t.m
  stack : ∀ t, (i.act B t).stack = t.stack
  cycles : ∀ L t, i.cycles B L t = 2

theorem countsDown_dey : CountsDown B Core.y .dey :=
  ⟨rfl, fun _ => rfl, fun _ => rfl, fun _ => rfl, fun _ => rfl, fun _ _ => rfl⟩

theorem countsDown_dex : CountsDown B Core.x .dex :=
  ⟨rfl, fun _ => rfl, fun _ => rfl, fun _ => rfl, fun _ => rfl, fun _ _ => rfl⟩

/-- The branch that closes a loop counting down through zero. -/
theorem bpl_sub_one {v : Byte} {k : ℕ} (hv : v.toNat = k) (hk : k < 0x80) :
    (!(v - 1).getLsbD 7) = decide (0 < k) := by
  rcases Nat.eq_zero_or_pos k with rfl | hpos
  · obtain rfl : v = 0 := BitVec.eq_of_toNat_eq hv
    rfl
  · have hsub : (v - 1).toNat = k - 1 := toNat_sub_one (by omega)
    have hbit : (v - 1).getLsbD 7 = false := by
      rw [BitVec.getLsbD, hsub]
      exact Nat.testBit_lt_two_pow (by omega)
    rw [hbit, decide_eq_true hpos]
    rfl

/-- **The loop with an index register counting down through zero.** -/
theorem Spends.downLoop {l : List Op} {i : Op} {idx : Core → Byte} {lab : Label} {N : ℕ}
    {I : ℕ → Machine → Prop} {K : Core → Prop} (hi : CountsDown B idx i) (hN : 0 < N)
    (hN' : N ≤ 0x80) (hx : (idx s).toNat = N - 1) (h0 : I N s.m) (hK : K s)
    (hstep : ∀ k, k < N → ∀ t : Core, (idx t).toNat = k → K t → I (k + 1) t.m →
      let u := (cpu B L).exec l t
      Straight B L l n t ∧ idx u = idx t ∧ I k u.m ∧ K (i.act B u)) :
    Spends B L (.loop (.block (l ++ [i])) (.bpl lab)) s (.tick (loopCycles L lab N (n + 2)))
      fun t => I 0 t.m ∧ t.stack = s.stack := by
  refine ((Takes.loop (N := N) (b := fun _ => .tick (n + 2)) (I := fun j t => I (N - j) t.m ∧
    K t ∧ (j < N → (idx t).toNat = N - 1 - j) ∧ t.stack = s.stack) hN (hN'.trans (Nat.le_of_ble_eq_true rfl))
    ⟨h0, hK, fun _ => hx, rfl⟩ ?_).cast (loop_bill lab N _)).mono
    fun t ht => ⟨by simpa using ht.1, ht.2.2.2⟩
  rintro j hj t ⟨hI, hKt, hidx, hts⟩
  obtain ⟨k, rfl⟩ : ∃ k, N = j + k + 1 := ⟨N - j - 1, by omega⟩
  have htk : (idx t).toNat = k := (hidx hj).trans (by omega)
  rw [show j + k + 1 - j = k + 1 by omega] at hI
  obtain ⟨hstr, hux, hI', hK'⟩ := hstep k (by omega) t htk hKt hI
  refine Takes.block ?_ ?_ ?_ ?_
  · rw [Isa.ready_append]
    refine ⟨ready_of_noPull hstr.noPull, ready_of_noPull ?_⟩
    rw [List.all_cons, hi.noPull]
    rfl
  · rw [Isa.exec_append]
    exact (congrArg (fun m => m.reu.status) (hi.m _)).trans hstr.status
  · rw [Isa.cost_append, hstr.cost]
    exact congrArg (n + ·) (hi.cycles L _)
  rw [Isa.exec_append]
  set u := (cpu B L).exec l t
  change (I _ (i.act B u).m ∧ K (i.act B u) ∧ (_ → (idx (i.act B u)).toNat = _) ∧
    (i.act B u).stack = _) ∧ (!(i.act B u).nz.getLsbD 7) = _
  rw [hi.m, hi.counts, hi.nz, hi.stack, hux, show j + k + 1 - (j + 1) = k by omega]
  refine ⟨⟨hI', hK', fun hlt => ?_, hstr.stack.trans hts⟩, ?_⟩
  · exact (toNat_sub_one (n := k - 1) (by omega)).trans (by omega)
  · rw [bpl_sub_one htk (by omega)]
    exact decide_eq_decide.2 (by omega)

end C64X25519
