import C64X25519.Helpers.CallTiming
import C64X25519.Properties.History
/-!
# The time a call takes

Every public call, run instruction by instruction from any state a caller
can reach, ends with what the routines compute and takes a time that its
operands do not enter: it is the bill of the call, and the waits on it at
what the unit shows.
-/

namespace C64X25519

open Machine Relation

variable {B : Build} {L : Link} {s s' t : Core} {c : Call} {e : Event} {es es' : List Event}

/-- A processor at rest, over a machine. -/
def Core.rest (m : Machine) : Core := ⟨0, 0, 0, 0, false, [], m⟩

/-- A link in which no branch crosses a page, and a unit that takes a cycle
for a byte. -/
def Link.plain : Link := ⟨fun _ => false, id⟩

theorem Loaded.reached {m : Machine} (h : Loaded B m) : Reached B (initialise B m) :=
  ⟨m, h, .refl⟩

theorem Reached.step {m m' : Machine} (h : Reached B m) (hst : CallerStep B m m') :
    Reached B m' := by
  obtain ⟨r, hr, hrun⟩ := h
  exact ⟨r, hr, hrun.tail hst⟩

/-! ## The listings -/

/-- **The listing of a public call** ends, from any state a caller reaches
and any registers; it leaves the outputs that are the function of the
documented inputs, the machine of the routine and the stack as it was, and
its cycles are those of the bill. -/
theorem Reached.listing_correct (h : Reached B s.m) (hv : c.Valid B s.m)
    (ha : ∀ v ∈ c.given, s.a = v) :
    ∃ t, (c.asm B).run (cpu B L) s = some (t, (c.bill B L).cycles
        + (unit B L).total (c.bill B L).waits s.m.reu.status) ∧
      t.m = c.run B s.m ∧ t.stack = s.stack ∧
      c.outputs B s.m t.m = c.fn (c.inputs B s.m) := by
  obtain ⟨t, hrun, -, htm, hts⟩ := Call.does (L := L) h.usable.ready hv ha
  refine ⟨t, hrun, htm, hts, ?_⟩
  rw [htm]
  exact (Call.run_spec h.usable.ready h.usable.basepoint hv).outputs

/-- The multiplication of the base point, right after initialisation. -/
theorem Reached.listing_correct_base :
    let s := Core.rest (initialise .standard .loaded)
    ∃ t, (Call.x25519Base.asm .standard).run (cpu .standard .plain) s
        = some (t, (Call.x25519Base.bill .standard .plain).cycles + (unit .standard .plain).total
          (Call.x25519Base.bill .standard .plain).waits s.m.reu.status) ∧
      t.m = Call.x25519Base.run .standard s.m ∧ t.stack = s.stack ∧
      Call.x25519Base.outputs .standard s.m t.m
        = Call.x25519Base.fn (Call.x25519Base.inputs .standard s.m) :=
  Reached.listing_correct loaded_loaded.reached (x25519Base_valid _) fun _ h => by cases h

/-! ## Sessions -/

/-- A call without what may be secret of it: the mask of a swap, and the
row. -/
def Call.shape : Call → Call
  | fe25519Cswap _ => fe25519Cswap 0
  | reuFetchMulRow _ => reuFetchMulRow 0
  | c => c

theorem Call.bill_shape : c.shape.bill B L = c.bill B L := by
  cases c <;> rfl

/-- What is public of a step: which call it is, if it is one. -/
def Event.shape : Event → Option Call
  | .call c => some c.shape
  | _ => none

/-- The steps of a session are valid where they come. -/
def ValidFrom (B : Build) : List Event → Machine → Prop
  | [], _ => True
  | e :: es, m => e.Valid B m ∧ ValidFrom B es (e.run B m)

/-- The times of a session, from the shapes of its steps and the tape of the
unit. -/
def shapeTimes (B : Build) (L : Link) : List (Option Call) → (ℕ → Byte) → List ℕ
  | [], _ => []
  | none :: l, w => 0 :: shapeTimes B L l w
  | some c :: l, w => ((c.bill B L).cycles + 12 + (unit B L).total (c.bill B L).waits w)
      :: shapeTimes B L l ((unit B L).next^[(c.bill B L).waits.length] w)

/-- A step on the processor. -/
theorem Event.exec_spec (h : Usable B s.m) (hv : e.Valid B s.m) :
    ∃ t n, e.exec B L s = some (t, n) ∧ t.m = e.run B s.m ∧ t.stack = s.stack ∧
      ∀ l, shapeTimes B L (e.shape :: l) s.m.reu.status = n :: shapeTimes B L l t.m.reu.status := by
  cases e with
  | call c =>
    have hdoes := Does.call (L := L) (s := { s with a := c.given.getD s.a })
      (Call.does h.ready hv fun v hv => by simp [Option.mem_def.1 hv])
    obtain ⟨t, hrun, htape, htm, hts⟩ := hdoes
    simp only [Bill.add_cycles, Bill.add_waits, Bill.tick_cycles, Bill.tick_waits,
      List.append_nil] at hrun htape
    refine ⟨t, _, hrun, htm, hts, fun l => ?_⟩
    change t.m.reu.status = _ at htape
    rw [Event.shape, shapeTimes, Call.bill_shape, htape]
    rfl
  | writeReg x v => exact ⟨_, 0, rfl, rfl, rfl, fun _ => rfl⟩
  | writeZp a v => exact ⟨_, 0, rfl, rfl, rfl, fun _ => rfl⟩
  | writeRam a v => exact ⟨_, 0, rfl, rfl, rfl, fun _ => rfl⟩
  | writeVar x v => exact ⟨_, 0, rfl, rfl, rfl, fun _ => rfl⟩

/-- **A session on the processor** is the session on the machine, and its
times are those of its shapes. -/
theorem session_spec (h : Usable B s.m) (hv : ValidFrom B es s.m) :
    ∃ t, session B L es s = some (t, shapeTimes B L (es.map Event.shape) s.m.reu.status) ∧
      t.m = es.foldl (fun m e => e.run B m) s.m ∧ t.stack = s.stack := by
  induction es generalizing s with
  | nil => exact ⟨s, rfl, rfl, rfl⟩
  | cons e es ih =>
    obtain ⟨t, n, hexec, htm, hts, htimes⟩ := Event.exec_spec (L := L) h hv.1
    have ht : Usable B t.m := htm ▸ h.step ⟨e, hv.1, rfl⟩
    obtain ⟨u, hrun, hum, hus⟩ := ih ht (htm ▸ hv.2)
    refine ⟨u, ?_, ?_, hus.trans hts⟩
    · rw [session, hexec, Option.bind_some, hrun, List.map_cons, htimes]
      rfl
    · rw [hum, htm, List.foldl_cons]

theorem ValidFrom.reached {m : Machine} (h : Reached B m) (hv : ValidFrom B es m) :
    Reached B (es.foldl (fun m e => e.run B m) m) := by
  induction es generalizing m with
  | nil => exact h
  | cons e es ih =>
    exact ih (h.step ⟨e, hv.1, rfl⟩) hv.2

/-- **Constant time**: two sessions whose steps are alike but for masks, rows
and what a caller writes — operands, scalars, pointers, registers — take
the same time step by step, whatever the memory they start from, if the
unit shows the same. -/
theorem session_constantTime (h : Reached B s.m) (h' : Reached B s'.m)
    (hv : ValidFrom B es s.m) (hv' : ValidFrom B es' s'.m)
    (hshape : es.map Event.shape = es'.map Event.shape)
    (hstatus : s.m.reu.status = s'.m.reu.status) :
    ∃ t t' l, session B L es s = some (t, l) ∧ session B L es' s' = some (t', l) ∧
      t.m = es.foldl (fun m e => e.run B m) s.m ∧
      t'.m = es'.foldl (fun m e => e.run B m) s'.m ∧ Reached B t.m ∧ Reached B t'.m := by
  obtain ⟨t, hrun, htm, -⟩ := session_spec (L := L) h.usable hv
  obtain ⟨t', hrun', htm', -⟩ := session_spec (L := L) h'.usable hv'
  rw [hshape, hstatus] at hrun
  exact ⟨t, t', _, hrun, hrun', htm, htm', htm ▸ hv.reached h, htm' ▸ hv'.reached h'⟩

/-- The multiplication of the base point, by a scalar of zeros and by another. -/
theorem session_constantTime_scalars :
    let s := Core.rest (initialise .standard .loaded)
    let a := Build.standard.mem.buf .x25Scalar
    let es := [Event.writeRam a 0, .call .x25519Base]
    let es' := [Event.writeRam a 0xf8, .call .x25519Base]
    ∃ t t' l, session .standard .plain es s = some (t, l) ∧
      session .standard .plain es' s = some (t', l) ∧
      t.m = es.foldl (fun m e => e.run .standard m) s.m ∧
      t'.m = es'.foldl (fun m e => e.run .standard m) s.m ∧
      Reached .standard t.m ∧ Reached .standard t'.m := by
  intro s a es es'
  have hkept : ¬ Build.standard.mem.kept a := by
    simp only [MemMap.kept]
    decide
  exact session_constantTime loaded_loaded.reached loaded_loaded.reached
    ⟨hkept, x25519Base_valid _, trivial⟩ ⟨hkept, x25519Base_valid _, trivial⟩ rfl rfl

/-! ## How long a call can take -/

/-- **The time of a call**, whatever the unit shows: least where transfers
complete at once, and greatest where the unit fails throughout. -/
theorem Reached.time_between (h : Reached B s.m) (hv : c.Valid B s.m)
    (ha : ∀ v ∈ c.given, s.a = v) :
    ∃ t n, (c.asm B).run (cpu B L) s = some (t, n) ∧ t.m = c.run B s.m ∧
      (c.bill B L).price (settlePrompt L) ≤ n ∧
      n ≤ (c.bill B L).price (fun _ => settleWorst B L) ∧
      (Completes s.m → n = (c.bill B L).price (settlePrompt L)) ∧
      (Fails s.m.reu.status → n = (c.bill B L).price fun _ => settleWorst B L) := by
  obtain ⟨t, hrun, -, htm, -⟩ := Call.does (L := L) h.usable.ready hv ha
  refine ⟨t, _, hrun, htm, ?_, ?_, fun hw => ?_, fun hw => ?_⟩
  · exact Nat.add_le_add_left (Device.le_total fun _ _ => settlePrompt_le) _
  · exact Nat.add_le_add_left (Device.total_le fun _ _ => settleCycles_le) _
  · exact congrArg (_ + ·) (total_prompt hw)
  · exact congrArg (_ + ·) (total_fails hw)

/-- The multiplication of the base point, right after initialisation. -/
theorem Reached.time_between_base :
    let s := Core.rest (initialise .standard .loaded)
    let b := Call.x25519Base.bill .standard .plain
    ∃ t n, (Call.x25519Base.asm .standard).run (cpu .standard .plain) s = some (t, n) ∧
      t.m = Call.x25519Base.run .standard s.m ∧ b.price (settlePrompt .plain) ≤ n ∧
      n ≤ b.price (fun _ => settleWorst .standard .plain) ∧
      (Completes s.m → n = b.price (settlePrompt .plain)) ∧
      (Fails s.m.reu.status → n = b.price fun _ => settleWorst .standard .plain) :=
  Reached.time_between loaded_loaded.reached (x25519Base_valid _) fun _ h => by cases h

/-! ## The scalar multiplication -/

/-- **What a scalar multiplication takes**, from any state a caller reaches
and for any scalar and coordinate: its settles are 32 for each of 1287
multiplications and two for each row of 1274 squarings through the unit; and
where transfers complete, its time is that of its routines, for each as
often as it is called, with the steps between them. -/
theorem Reached.scalarmult_time (h : Reached B s.m) :
    ∃ t n, (x25519ScalarmultAsm B).run (cpu B L) s = some (t, n) ∧
      t.m = x25519Scalarmult B s.m ∧
      t.m.reu.status = (unit B L).next^[1287 * (if B.onchip then 0 else 32)
        + 1274 * (2 * min B.sqrDmaK 31)] s.m.reu.status ∧
      (Completes s.m → n = 1287 * (fe25519MulBill B L).price (settlePrompt L)
        + 1274 * (fe25519SqrBill B L).price (settlePrompt L)
        + 255 * fe25519MulA24Cycles B L + 1020 * fe25519AddCycles L + 1020 * fe25519SubCycles L
        + 1022 * fe25519ReduceFinalCycles L + 512 * fe25519CswapCycles L
        + 8 * fe25519CopyCycles L + 2 * fe25519OneCycles L + fe25519ZeroCycles L
        + 242 * (L.crosses .sqrnLoop).toNat + 223 * (L.crosses .bitLoop).toNat
        + 31 * (L.crosses .bitLoopByte).toNat + (if B.onchip then 0 else 10) + 214122) := by
  obtain ⟨t, hrun, htape, htm, -⟩ := x25519Scalarmult_does (L := L) h.usable.ready
  refine ⟨t, _, hrun, htm, ?_, fun hw => ?_⟩
  · rw [x25519Scalarmult_waits, fe25519Mul_waits, fe25519Sqr_waits] at htape
    exact htape
  · rw [← x25519Scalarmult_price]
    exact congrArg (_ + ·) (total_prompt hw)

/-- Right after initialisation. -/
theorem Reached.scalarmult_time_blank :
    let s := Core.rest (initialise .standard .loaded)
    ∃ t n, (x25519ScalarmultAsm .standard).run (cpu .standard .plain) s = some (t, n) ∧
      t.m = x25519Scalarmult .standard s.m ∧
      t.m.reu.status = (unit .standard .plain).next^[1287 * 32 + 1274 * (2 * 22)]
        s.m.reu.status ∧
      (Completes s.m → n = 1287 * (fe25519MulBill .standard .plain).price (settlePrompt .plain)
        + 1274 * (fe25519SqrBill .standard .plain).price (settlePrompt .plain)
        + 255 * fe25519MulA24Cycles .standard .plain + 1020 * fe25519AddCycles .plain
        + 1020 * fe25519SubCycles .plain + 1022 * fe25519ReduceFinalCycles .plain
        + 512 * fe25519CswapCycles .plain + 8 * fe25519CopyCycles .plain
        + 2 * fe25519OneCycles .plain + fe25519ZeroCycles .plain + 242 * 0 + 223 * 0 + 31 * 0
        + 10 + 214122) :=
  Reached.scalarmult_time (B := .standard) (L := .plain) loaded_loaded.reached

/-! ## The threshold of the squaring -/

/-- Where no branch crosses a page, what row `K` costs the two ways. -/
theorem sqrUnitCycles_trade {K : ℕ} (hL : ∀ l, L.crosses l = false) (hlt : K < 31) :
    sqrUnitCycles L (settlePrompt L) K + (if K = 30 then 219 else 233 * sqrPairs K)
      = sqrChipCycles L K + (187 + L.dma 0x200 + L.dma 0x100) := by
  split
  · next hlast => exact hlast ▸ sqrUnitCycles_last hL
  · exact sqrUnitCycles_add hL (by omega)

/-- **What one row more through the unit is worth**, over any link: of two
builds whose thresholds are `K` and `K + 1`, from any states callers reach,
the squarings differ by row `K` through the unit against row `K` on the chip,
and the second is the faster exactly where that row is cheaper through the
unit, with the comparisons a first threshold brings. Where no branch crosses a
page the row saves 233 cycles for each pair of its bodies; and where a transfer
takes a cycle for a byte as well, the row pays below row 23. -/
theorem fe25519Sqr_threshold {B' : Build} {K : ℕ} (hon : B.onchip = false)
    (hon' : B'.onchip = false) (hK : B.sqrDmaK = K) (hK' : B'.sqrDmaK = K + 1) (hlt : K < 31)
    (h : Reached B s.m) (hv : (Call.jsr .fe25519Sqr).Valid B s.m) (hw : Completes s.m)
    (h' : Reached B' s'.m) (hv' : (Call.jsr .fe25519Sqr).Valid B' s'.m) (hw' : Completes s'.m) :
    ∃ t t' n n', (fe25519SqrAsm B).run (cpu B L) s = some (t, n) ∧ t.m = fe25519Sqr B s.m ∧
      (fe25519SqrAsm B').run (cpu B' L) s' = some (t', n') ∧ t'.m = fe25519Sqr B' s'.m ∧
      n' + sqrChipCycles L K
        = n + sqrUnitCycles L (settlePrompt L) K + sqrCompareCycles L K ∧
      (n' < n ↔ sqrUnitCycles L (settlePrompt L) K + sqrCompareCycles L K < sqrChipCycles L K) ∧
      ((∀ l, L.crosses l = false) →
        (n' < n ↔ 187 + L.dma 0x200 + L.dma 0x100 + (if K = 0 then 31 * 8 else 0)
          < if K = 30 then 219 else 233 * sqrPairs K) ∧
        (L.dma 0x200 + L.dma 0x100 = 0x300 → (n' < n ↔ K < 23))) := by
  obtain ⟨t, hrun, htm, -⟩ := Call.time_prompt (L := L) h.usable.ready hv (fun _ h => by cases h) hw
  obtain ⟨t', hrun', htm', -⟩ := Call.time_prompt (L := L) h'.usable.ready hv'
    (fun _ h => by cases h) hw'
  have hdiff := fe25519Sqr_price_succ (L := L) (f := settlePrompt L) (hon'.trans hon.symm)
    hK hK' hlt
  refine ⟨t, t', _, _, hrun, htm, hrun', htm', hdiff, ?_, fun hL => ?_⟩
  · change (fe25519SqrBill B' L).price _ < (fe25519SqrBill B L).price _ ↔ _
    omega
  have htrade := sqrUnitCycles_trade hL hlt
  have hcompare : sqrCompareCycles L K = if K = 0 then 31 * 8 else 0 := by
    rw [sqrCompareCycles, hL]
    rfl
  change ((fe25519SqrBill B' L).price _ < (fe25519SqrBill B L).price _ ↔ _) ∧
    (_ → ((fe25519SqrBill B' L).price _ < (fe25519SqrBill B L).price _ ↔ _))
  refine ⟨by omega, fun hdma => ?_⟩
  -- five pairs are what a transfer costs: rows up to 22 have as many
  have hpairs : sqrPairs K = (32 - K) / 2 := rfl
  split at htrade <;> split at hcompare <;> omega

/-- The standard build with another threshold. -/
def Build.threshold (K : ℕ) (hK : K < 0x100) : Build :=
  { Build.standard with
    sqrDmaK := K
    sqrDmaK_lt := hK
    sqrDmaK_onchip := nofun
    reuBank_le := by
      change 0 ≤ _
      exact Nat.zero_le _ }

/-- A caller may aim a pointer anywhere. -/
theorem Reached.setPtr {m : Machine} {x : Slot} {k : ℕ} (h : Reached B m) :
    Reached B (m.setPtr B x k) :=
  (h.step ⟨.writeZp _ _, trivial, rfl⟩).step ⟨.writeZp _ _, trivial, rfl⟩

/-- A library initialised, with a squaring of five set up. -/
def squaring (B : Build) : Machine :=
  (((initialise B .loaded).setRam (B.mem.buf .x25A) 5).setPtr B .fe25519Src1
    (B.mem.buf .x25A)).setPtr B .fe25519Dst (B.mem.buf .x25B)

section Squaring

variable (K : ℕ) (hK : K < 0x100)

theorem threshold_loaded : Loaded (Build.threshold K hK) .loaded :=
  ⟨fun _ => rfl, loaded_loaded.basepoint, loaded_loaded.guard⟩

/-- A caller stores the five and aims the pointers. -/
theorem squaring_reached :
    Reached (Build.threshold K hK) (Core.rest (squaring (Build.threshold K hK))).m := by
  have hkept : ¬ Build.standard.mem.kept (Build.standard.mem.buf .x25A) := by
    simp only [MemMap.kept]
    decide
  exact ((threshold_loaded K hK).reached.step ⟨.writeRam _ 5, hkept, rfl⟩).setPtr.setPtr

theorem squaring_valid :
    (Call.jsr .fe25519Sqr).Valid (Build.threshold K hK) (squaring (Build.threshold K hK)) := by
  have hshow : Shows (Build.threshold K hK) (Build.threshold K hK).mem.own _
      (squaring (Build.threshold K hK)) := (shows_own _).src1_set.dst_set
  have h1 := hshow.src1 .x25A rfl
  have hd := hshow.dst .x25B rfl
  refine ⟨fun x hx => ?_, fun x hx => ?_, fun _ h => (by cases h), fun h => (by cases h)⟩
  · simp only [Call.reads, Call.writes, FieldOp.reads, List.mem_append, List.mem_singleton] at hx
    rcases hx with rfl | rfl
    · exact ⟨_, h1⟩
    · exact ⟨_, hd⟩
  · simp only [Call.writes, List.mem_singleton] at hx
    rw [hx, hd]
    change Build.standard.mem.buf .x25B ≠ Build.standard.mem.buf .x25Basepoint
    decide

theorem squaring_completes : Completes (squaring (Build.threshold K hK)) := by
  have hboot : Completes (sqtabInit (Build.threshold K hK) .loaded) := by
    rw [Completes, (sqtabInit_spec _).2.2.1]
    exact fun _ => show (0x40 : Byte) &&& 0x60 = 0x40 by decide
  exact (reuMulInit_prompt hboot).1

end Squaring

/-- The default threshold, and the next: over a plain link one row more saves
210 cycles. -/
theorem fe25519Sqr_threshold_next :
    let B := Build.threshold 22 (by decide)
    let B' := Build.threshold 23 (by decide)
    ∃ t t' n n', (fe25519SqrAsm B).run (cpu B .plain) (Core.rest (squaring B)) = some (t, n) ∧
      t.m = fe25519Sqr B (squaring B) ∧
      (fe25519SqrAsm B').run (cpu B' .plain) (Core.rest (squaring B')) = some (t', n') ∧
      t'.m = fe25519Sqr B' (squaring B') ∧ n' < n ∧ n' + 210 = n := by
  obtain ⟨t, t', n, n', hrun, htm, hrun', htm', hdiff, -, hplain⟩ :=
    fe25519Sqr_threshold (L := .plain) (K := 22) (B := .threshold 22 (by decide)) rfl rfl rfl rfl
      (by decide) (squaring_reached _ _) (squaring_valid _ _) (squaring_completes _ _)
      (squaring_reached 23 (by decide)) (squaring_valid _ _) (squaring_completes _ _)
  have hfaster : n' < n := ((hplain fun _ => rfl).2 rfl).2 (by decide)
  refine ⟨t, t', n, n', hrun, htm, hrun', htm', hfaster, ?_⟩
  have htrade := sqrUnitCycles_trade (L := .plain) (K := 22) (fun _ => rfl) (by decide)
  have hpairs : (if 22 = 30 then 219 else 233 * sqrPairs 22) = 1165 := rfl
  have hdma : Link.plain.dma 0x200 + Link.plain.dma 0x100 = 0x300 := rfl
  have hcompare : sqrCompareCycles .plain 22 = 0 := rfl
  omega

end C64X25519
