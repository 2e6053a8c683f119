import C64X25519.Properties.History
import C64X25519.Properties.Rows
/-!
# Zero-page relocation

Whatever addresses the roster is given, if the assertions accept them the
calls compute the same bytes and leave the rest of page zero alone; and the
patched operands of the row loops stay inside `fe_wide`, although the sum of
a base and a cursor wraps in page zero.
-/

namespace C64X25519

open Machine

variable {B : Build} {s t : Machine} {a b : FieldBuf B.mem} {c : Call} {i k n : ℕ}

/-! ## The patched operands -/

theorem span_wideAt (h : n < 64) : B.span .feWide (B.wideAt n) := by
  rw [Build.wideAt_eq h]
  exact Build.span_slot h

/-- Where row `i` of a multiplication touches page zero through its patched
operands. -/
structure MulRowAccess (B : Build) (s : Machine) (i : ℕ) : Prop where
  accum : ∀ k, k < 32 → ∀ y ∈ [Site.accumLd1 (bodyAt k), .accumSt1 (bodyAt k),
      .accumLd2 (bodyAt k), .accumSt2 (bodyAt k)],
    B.span .feWide ((mulState B s i k).s.zpx y (mulState B s i k).x)
  chain : ∀ k, k < 32 → i + k + 2 < 64 → ∀ y ∈ [Site.chainLd (bodyAt k), .chainSt (bodyAt k)],
    B.span .feWide ((mulState B s i k).s.zpx y ((mulState B s i k).x + 1))
  /-- Past the last byte the chain step is not run. -/
  beyond : ∀ k, k < 32 → 64 ≤ i + k + 2 → (mulStep B k (mulState B s i k)).s
    = (mulAccum B (bodyAt k) (mulState B s i k)).2.setZp (B.slot .mulPending) 0

theorem mulRowAccess (hr : MulReady B s) (h1 : s.ptr B .fe25519Src1 = a.addr)
    (h2 : s.ptr B .fe25519Src2 = b.addr) (hi : i < 32) : MulRowAccess B s i := by
  have hs := (mulTurn_spec hr h1 h2 hi.le).start hr hi
  have hstate : ∀ k, mulState B s i k
      = mulBodies B ⟨0, false, (mulHead B (mulTurn B s i)).s⟩ k := fun k => by
    rw [mulState, ← hs.head]
  set u := (mulHead B (mulTurn B s i)).s with hu
  have hat := fun k (hk : k ≤ 32) => mulBodies_at hs.ready hs.pend hi hs.room hk
  have hops : ∀ k, k ≤ 32 → MulOps B b i (mulState B s i k).s ∧ (mulState B s i k).x = k :=
    fun k hk => by
      rw [hstate]
      exact ⟨(hs.ready.inZp (hat k hk).1.inZp).ops, (hat k hk).1.cursor⟩
  refine ⟨fun k hk y hy => ?_, fun k hk hlt y hy => ?_, fun k hk hge => ?_⟩
  · obtain ⟨ho, hx⟩ := hops k hk.le
    simp only [List.mem_cons, List.not_mem_nil, or_false] at hy
    rcases hy with rfl | rfl | rfl | rfl
    · rw [ho.ld1, hx]
      exact span_wideAt (by omega)
    · rw [ho.st1, hx]
      exact span_wideAt (by omega)
    · rw [ho.ld2, hx]
      exact span_wideAt (by omega)
    · rw [ho.st2, hx]
      exact span_wideAt (by omega)
  · obtain ⟨ho, hx⟩ := hops k hk.le
    simp only [List.mem_cons, List.not_mem_nil, or_false] at hy
    rcases hy with rfl | rfl
    · rw [ho.ldc, hx]
      exact span_wideAt (by omega)
    · rw [ho.stc, hx]
      exact span_wideAt (by omega)
  · obtain ⟨hak, hck⟩ := hat k hk.le
    obtain rfl : k = 31 := by omega
    obtain rfl : i = 31 := by omega
    rw [hstate]
    set w := mulBodies B ⟨0, false, u⟩ 31 with hw
    have hz := (mulAccum_at (u := .d) hs.ready hak (hck hk) hk hi).2.2
    have hbound : ((mulAccum B .d w).2.zp (B.slot .mulBound)).toNat ≤ w.x + 1 := by
      rw [hz.slot (by simp), hak.inZp.slot (by simp), hs.ready.bound, hak.cursor]
    change (mulBodyD B w).s = _
    rw [mulBodyD, if_pos hbound]
    rfl

/-- The patched operands of one engine of the squaring: those of the
accumulation, and those of the chain step. -/
def engineSites : SqrInner → Body → List Site × List Site
  | .sqrInner, u => ([.sqrAccumLd1 u, .sqrAccumSt1 u, .sqrAccumLd2 u, .sqrAccumSt2 u],
      [.sqrChainLd u, .sqrChainSt u])
  | .sqrInnerDma, u => ([.sqrDmaLd1 u, .sqrDmaSt1 u, .sqrDmaLd2 u, .sqrDmaSt2 u],
      [.sqrDmaChainLd u, .sqrDmaChainSt u])

/-- Where row `i` of a squaring touches page zero through its patched
operands. -/
structure SqrRowAccess (B : Build) (s : Machine) (i : ℕ) : Prop where
  accum : ∀ k, k < 2 * sqrPairs i →
    ∀ y ∈ (engineSites (sqrState B s i k).2.tramp (sqrBodyAt k)).1,
      B.span .feWide ((sqrState B s i k).2.zpx y (i + 1 + k))
  chain : ∀ k, k < 2 * sqrPairs i → i + (i + 1 + k) + 2 < 64 →
    ∀ y ∈ (engineSites (sqrState B s i k).2.tramp (sqrBodyAt k)).2,
      B.span .feWide ((sqrState B s i k).2.zpx y (i + 1 + k + 1))
  /-- Past the last byte a body changes its counters and, with a chain step or
  without one, nothing else. -/
  beyond : ∀ k, k < 2 * sqrPairs i → 64 ≤ i + (i + 1 + k) + 2 →
    ∀ x, ¬ B.span .feMulJ x → ¬ B.span .feSqrPairs x →
      (sqrStep B k (sqrState B s i k)).2.zp x = (sqrCombined B k (sqrState B s i k)).2.zp x

theorem setSlot_zp_of_not_span {x : Slot} {v : Byte} {m : ℕ} (h : ¬ B.span x m) :
    (s.setZp (B.slot x) v).zp m = s.zp m := by
  refine Function.update_of_ne ?_ _ _
  rintro rfl
  exact h (Build.span_slot (i := 0) x.size_pos)

theorem RowOps.spans {ld1 st1 ld2 st2 ldc stc : Site} {x : ℕ}
    (h : RowOps B i ld1 st1 ld2 st2 ldc stc s) (hx : i + 1 + x < 64) :
    (∀ y ∈ [ld1, st1, ld2, st2], B.span .feWide (s.zpx y x)) ∧
      ∀ y ∈ [ldc, stc], B.span .feWide (s.zpx y x) := by
  have hlow : B.span .feWide (B.wideAt (i + x)) := span_wideAt (by omega)
  have hhigh : B.span .feWide (B.wideAt (i + 1 + x)) := span_wideAt hx
  constructor
  · intro y hy
    simp only [List.mem_cons, List.not_mem_nil, or_false] at hy
    rcases hy with rfl | rfl | rfl | rfl
    · rwa [h.ld1]
    · rwa [h.st1]
    · rwa [h.ld2]
    · rwa [h.st2]
  · intro y hy
    simp only [List.mem_cons, List.not_mem_nil, or_false] at hy
    rcases hy with rfl | rfl
    · rwa [h.ldc]
    · rwa [h.stc]

theorem sqrEngine_spans {A x : ℕ} {u : Body} (hr : SqrEngine B i A s) (ht : SqrStep B s t)
    (hu : u = .a ∨ u = .b) (hx : i + 1 + x < 64) :
    (∀ y ∈ (engineSites t.tramp u).1, B.span .feWide (t.zpx y x)) ∧
      ∀ y ∈ (engineSites t.tramp u).2, B.span .feWide (t.zpx y x) := by
  rw [ht.tramp]
  rcases hr with ⟨htr, hrow⟩ | ⟨htr, hrow⟩
  · rw [htr]
    exact ((hrow.ops u hu).step ht).spans hx
  · rw [htr]
    exact ((hrow.ops u hu).step ht).spans hx

/-- The body at the guard byte of row 30: copy B past its guard, or a chain
step of nothing. -/
theorem sqrStep_beyond {A x : ℕ} {w : ℕ × Machine} (hr : SqrEngine B i A s)
    (h : RowStart B i A s) (hw : RowAt B i A s k w) (hk : k < 2 * sqrPairs i)
    (hge : 64 ≤ i + (i + 1 + k) + 2) (hj : ¬ B.span .feMulJ x) (hp : ¬ B.span .feSqrPairs x) :
    (sqrStep B k w).2.zp x = (sqrCombined B k w).2.zp x := by
  have hi := h.row
  have hsum := (sqrCombined_at hr h hw hk).1
  have hzero : (sqrCombined B k w).1 = 0 :=
    hsum.owes_nothing (by simp only [sqrPairs] at hk; omega)
      (h.room_at (by simp only [sqrPairs] at hk; omega))
  obtain ⟨rfl, rfl⟩ : i = 30 ∧ k = 1 := by
    simp only [sqrPairs] at hk
    omega
  have htr : w.2.tramp = s.tramp := hw.at'.sum.step.tramp
  rcases hr with ⟨htab, hrow⟩ | ⟨hdma, hrow⟩
  · have hcur := hw.cursor htab
    have hcomb : sqrCombined B 1 w
        = sqrAccum B .b 32 (sqrDouble B (sqrProduct B .b 32 w.2)) := by
      simp only [sqrCombined, htr, htab, hcur, sqrBodyAt]
      rfl
    obtain ⟨-, -, hslot⟩ := sqrAccum_at (u := .b) hrow hw.at' (.inr rfl) (by omega)
    rw [hcomb] at hsum ⊢
    have hbound := hsum.step.var .sqrBound (by decide)
    set p := sqrAccum B .b 32 (sqrDouble B (sqrProduct B .b 32 w.2)) with hpd
    have hj1 := (hslot .feMulJ (by decide) (by decide)).1
    have hbody : (sqrBodyB B w.2).2 = incMulJ B (p.2.setVar .sqrPending 0) := by
      rw [sqrCursor] at hcur
      simp only [sqrBodyB, hcur, hj1, ← hpd, hbound, hrow.bound]
      rfl
    simp only [sqrStep, htr, htab, show (1 : ℕ) % 2 ≠ 0 by decide, if_false, hbody, sqrCount,
      incMulJ]
    rw [setSlot_zp_of_not_span hp, setSlot_zp_of_not_span hj, setVar_zp]
  · have hcur := hw.cursorX hdma
    have hcomb : sqrCombined B 1 w = sqrDmaAccum B .b 32 w.2 := by
      simp only [sqrCombined, htr, hdma, hcur, sqrBodyAt]
      rfl
    rw [hcomb] at hsum hzero ⊢
    have ho := (hrow.ops .b (.inr rfl)).step hsum.step
    have hchain := sqrChain_zero (t := (sqrDmaAccum B .b 32 w.2).2) (x := 33)
      ((ho.stc 33).trans (ho.ldc 33).symm)
    simp only [sqrStep, htr, hdma, hcur, show (1 : ℕ) % 2 ≠ 0 by decide, if_false,
      sqrDmaBody_chain, hzero, sqrCount]
    rw [setSlot_zp_of_not_span hp]
    exact congrFun (congrArg Machine.zp hchain) x

theorem sqrRowAccess (hr : Ready B s) (h1 : s.ptr B .fe25519Src1 = a.addr) (hi : i ≤ 30) :
    SqrRowAccess B s i := by
  have hs := (sqrTurn_spec hr h1 (show i ≤ 31 by omega)).start hr h1 hi
  have hat := fun k (hk : k ≤ 2 * sqrPairs i) => sqrBodies_at hs.engine hs.start hk
  have hbound : i + (i + 1 + 2 * sqrPairs i) ≤ 63 := by
    simp only [sqrPairs]
    omega
  have hcopy : ∀ k, sqrBodyAt k = .a ∨ sqrBodyAt k = .b := fun k => by
    rw [sqrBodyAt]
    split
    · exact .inl rfl
    · exact .inr rfl
  refine ⟨fun k hk => ?_, fun k hk hlt => ?_, fun k hk hge x hj hp => ?_⟩
  · exact (sqrEngine_spans hs.engine (hat k hk.le).at'.sum.step (hcopy k) (by omega)).1
  · exact (sqrEngine_spans hs.engine (hat k hk.le).at'.sum.step (hcopy k) (by omega)).2
  · exact sqrStep_beyond hs.engine hs.start (hat k hk.le) hk hge hj hp

/-! ## Relocation -/

/-- The build with its roster elsewhere. -/
def Build.relocate (B : Build) (Z : ZpMap) : Build := { B with zp := Z }

/-- **Relocation changes nothing.** The assertions accept exactly the disjoint
spans inside `$02..$FF`. Under any roster they accept, a call with the same
inputs leaves the same bytes as under the default one, and page zero outside
the roster as it was; and the patched operands of the row loops touch only
`fe_wide`, but for a byte stored back where it was read. -/
theorem relocation_independent (Z : ZpMap) (hs : Usable (B.relocate Z) s)
    (hv : c.Valid (B.relocate Z) s) :
    (∀ addr, x25519ZpAccepts addr = true ↔
        (∀ x : Slot, 2 ≤ addr x ∧ addr x + x.size ≤ 0x100) ∧
          ∀ x y : Slot, x ≠ y → Apart (addr x, x.size) (addr y, y.size)) ∧
      (∀ t, Usable (B.relocate .default) t → c.Valid (B.relocate .default) t →
        c.inputs (B.relocate .default) t = c.inputs (B.relocate Z) s →
        c.outputs (B.relocate .default) t (c.run (B.relocate .default) t)
          = c.outputs (B.relocate Z) s (c.run (B.relocate Z) s)) ∧
      (∀ x, (∀ y : Slot, ¬ (B.relocate Z).span y x) →
        (c.run (B.relocate Z) s).zp x = s.zp x) ∧
      (∀ a b : FieldBuf B.mem, s.ptr (B.relocate Z) .fe25519Src1 = a.addr →
        s.ptr (B.relocate Z) .fe25519Src2 = b.addr →
        ∀ i, i < 32 → MulRowAccess (B.relocate Z) s i) ∧
      ∀ a : FieldBuf B.mem, s.ptr (B.relocate Z) .fe25519Src1 = a.addr →
        ∀ i, i < 31 → SqrRowAccess (B.relocate Z) s i := by
  have hrun := Call.run_spec hs.ready hs.basepoint hv
  refine ⟨fun addr => x25519ZpAccepts_iff, fun t ht hvt hin => ?_, fun x hx => ?_,
    fun a b h1 h2 i hi => ?_, fun a h1 i hi => ?_⟩
  · rw [(Call.run_spec ht.ready ht.basepoint hvt).outputs, hin, hrun.outputs]
  · exact hrun.kept.zp x fun y _ => hx y
  · exact mulRowAccess (B := B.relocate Z) (a := a) (b := b) hs.ready.mul h1 h2 hi
  · exact sqrRowAccess (B := B.relocate Z) (a := a) hs.ready h1 (by omega)

/-- A roster with the accumulator at the end of page zero. -/
def ZpMap.high : ZpMap := ⟨fun x => if x = .feWide then 0xc0 else x.row.1, by decide⟩

theorem relocation_independent_high :
    let B := Build.standard
    let s := initialise (B.relocate .high) .loaded
    (∀ addr, x25519ZpAccepts addr = true ↔
        (∀ x : Slot, 2 ≤ addr x ∧ addr x + x.size ≤ 0x100) ∧
          ∀ x y : Slot, x ≠ y → Apart (addr x, x.size) (addr y, y.size)) ∧
      (∀ t, Usable (B.relocate .default) t → Call.x25519Base.Valid (B.relocate .default) t →
        Call.x25519Base.inputs (B.relocate .default) t
            = Call.x25519Base.inputs (B.relocate .high) s →
        Call.x25519Base.outputs (B.relocate .default) t
            (Call.x25519Base.run (B.relocate .default) t)
          = Call.x25519Base.outputs (B.relocate .high) s
            (Call.x25519Base.run (B.relocate .high) s)) ∧
      (∀ x, (∀ y : Slot, ¬ (B.relocate .high).span y x) →
        (Call.x25519Base.run (B.relocate .high) s).zp x = s.zp x) ∧
      (∀ a b : FieldBuf B.mem, s.ptr (B.relocate .high) .fe25519Src1 = a.addr →
        s.ptr (B.relocate .high) .fe25519Src2 = b.addr →
        ∀ i, i < 32 → MulRowAccess (B.relocate .high) s i) ∧
      ∀ a : FieldBuf B.mem, s.ptr (B.relocate .high) .fe25519Src1 = a.addr →
        ∀ i, i < 31 → SqrRowAccess (B.relocate .high) s i :=
  relocation_independent .high
    (initialise_usable ⟨fun _ => rfl, loaded_loaded.basepoint, loaded_loaded.guard⟩)
    (x25519Base_valid _)

end C64X25519
