import C64X25519.Helpers.Settle
import C64X25519.Helpers.SqtabInit
import C64X25519.Model.Api
import C64X25519.Model.Probe
/-!
# The accesses of a run

Every routine reaches the expansion unit in two ways only: it writes a
register, or it executes a transfer and settles it. `Accesses` is the closure
of the two; each routine is shown to lie in it, whatever the state it starts
in, and what the two keep every run keeps.
-/

namespace C64X25519

open Machine

variable {B : Build} {s t u : Machine} {n m : ℕ}

/-- From `s` to `t` the registers of the unit have been written, and
transfers executed and settled; the fault byte is a settle's alone. -/
inductive Accesses (B : Build) (s : Machine) : Machine → Prop
  | refl : Accesses B s s
  | quiet {t u : Machine} (h : Accesses B s t) (hreu : u.reu = t.reu)
      (hfault : u.var .x25519ReuFault = t.var .x25519ReuFault) : Accesses B s u
  | write {t : Machine} (x : Reg) (v : Byte) (h : Accesses B s t) : Accesses B s (t.writeReg x v)
  | read {t : Machine} (x : Reg) (h : Accesses B s t) : Accesses B s (t.readReg x).2
  | transfer {t : Machine} (cmd : Byte) (h : Accesses B s t) :
      Accesses B s (reuSettle B (t.reuCommand cmd))

namespace Accesses

theorem trans (h : Accesses B s t) (h' : Accesses B t u) : Accesses B s u := by
  induction h' with
  | refl => exact h
  | quiet _ hreu hfault ih => exact ih.quiet hreu hfault
  | write x v _ ih => exact ih.write x v
  | read x _ ih => exact ih.read x
  | transfer cmd _ ih => exact ih.transfer cmd

/-- A store outside the unit. -/
theorem store (hreu : t.reu = s.reu) (hfault : t.var .x25519ReuFault = s.var .x25519ReuFault) :
    Accesses B s t :=
  refl.quiet hreu hfault

theorem writeC64 {a : ℕ} (h : Accesses B s t) : Accesses B s (writeC64 a t) :=
  (h.write _ _).write _ _

variable {f : ℕ → Machine → Machine} {g : Machine → Machine × Bool}

theorem loopUp (h : Accesses B s t) (hf : ∀ k w, Accesses B w (f k w)) :
    Accesses B s (loopUp f n t) :=
  loopUp_inv (fun _ => Accesses B s) h fun k _ w hw => hw.trans (hf k w)

theorem loopDown (h : Accesses B s t) (hf : ∀ k w, Accesses B w (f k w)) :
    Accesses B s (loopDown f n t) :=
  loopDown_inv (fun _ => Accesses B s) h fun k _ w hw => hw.trans (hf k w)

theorem doWhile (h : Accesses B s t) (hg : ∀ w, Accesses B w (g w).1) :
    Accesses B s (doWhile g n t) :=
  doWhile_preserves (Accesses B s) h fun w hw => hw.trans (hg w)

/-! ## The field routines -/

theorem fe25519Copy (s : Machine) : Accesses B s (fe25519Copy B s) :=
  loopDown .refl fun _ _ => store rfl rfl

theorem fe25519Zero (s : Machine) : Accesses B s (fe25519Zero B s) :=
  loopDown .refl fun _ _ => store rfl rfl

theorem fe25519One (s : Machine) : Accesses B s (fe25519One B s) :=
  (fe25519Zero s).quiet rfl rfl

theorem maskedSubP (ld st : Site) (s : Machine) : Accesses B s (maskedSubP B ld st s) :=
  loopUp_inv (s := (s, true)) (fun _ w => Accesses B s w.1) .refl fun _ _ _ hw => hw.quiet rfl rfl

theorem maskedAddP (ld st : Site) (s : Machine) : Accesses B s (maskedAddP B ld st s) :=
  loopUp_inv (s := (s, false)) (fun _ w => Accesses B s w.1) .refl fun _ _ _ hw => hw.quiet rfl rfl

theorem feCmpPCt (s : Machine) : Accesses B s (feCmpPCt B s).2 := store rfl rfl

theorem fe25519Add (s : Machine) : Accesses B s (fe25519Add B s) := by
  unfold C64X25519.fe25519Add
  extract_lets s1 s2 s3 w s4 q s5
  have hw : Accesses B s w.1 := loopUp_inv (fun _ (v : Machine × Bool) => Accesses B s v.1)
    (store rfl rfl) fun _ _ _ hv => hv.quiet rfl rfl
  have hq : Accesses B s q.2 := (hw.quiet (u := s4) rfl rfl).trans (feCmpPCt s4)
  exact (hq.quiet (u := s5) rfl rfl).trans (maskedSubP _ _ s5)

theorem fe25519Sub (s : Machine) : Accesses B s (fe25519Sub B s) := by
  unfold C64X25519.fe25519Sub
  extract_lets s1 s2 s3 w s4
  have hw : Accesses B s w.1 := loopUp_inv (fun _ (v : Machine × Bool) => Accesses B s v.1)
    (store rfl rfl) fun _ _ _ hv => hv.quiet rfl rfl
  exact (hw.quiet (u := s4) rfl rfl).trans (maskedAddP _ _ s4)

theorem fe25519ReduceFinal (s : Machine) : Accesses B s (fe25519ReduceFinal B s) := by
  unfold C64X25519.fe25519ReduceFinal
  extract_lets s1 s2 s3 s4
  have h1 : Accesses B s s1 := store rfl rfl
  have h2 : Accesses B s s2 := h1.trans (feCmpPCt s1)
  have h3 : Accesses B s s3 := h2.trans (maskedSubP _ _ s2)
  exact (h3.trans (feCmpPCt s3)).trans (maskedSubP _ _ s4)

theorem fe25519Cswap (mask : Byte) (s : Machine) : Accesses B s (fe25519Cswap B mask s) :=
  loopDown (store rfl rfl) fun _ _ => store rfl rfl

/-! ## The transfers -/

theorem reuFetchMulRow (a : Byte) (s : Machine) : Accesses B s (reuFetchMulRow B a s) := by
  unfold C64X25519.reuFetchMulRow
  extract_lets s1 r s2 bank s3 s4 s5 s6 s7
  have h1 : Accesses B s s1 := store rfl rfl
  have h3 : Accesses B s s3 := (h1.write _ _).write _ _
  have h5 : Accesses B s s5 := (((writeC64 h3).write _ _).write _ _).write _ _
  exact (h5.write _ _).transfer _

theorem reuFetchDoubledRow (s : Machine) : Accesses B s (reuFetchDoubledRow B s) := by
  unfold C64X25519.reuFetchDoubledRow
  extract_lets s1 s2 s3 r s4 bank s5 s6 s7 s8 s9 s10 s11 s12 s13
  have h2 : Accesses B s s2 := (((writeC64 .refl).write _ _).write _ _).write _ _
  have h5 : Accesses B s s5 := ((h2.write _ _).write _ _).write _ _
  have h7 : Accesses B s s7 := h5.transfer _
  have h9 : Accesses B s s9 := (((writeC64 h7).write _ _).write _ _).write _ _
  exact (((h9.write _ _).write _ _).write _ _).transfer _

theorem reuClearWide (s : Machine) : Accesses B s (reuClearWide B s) := by
  unfold C64X25519.reuClearWide
  extract_lets s1 s2 s3
  have h1 : Accesses B s s1 := loopDown .refl fun _ _ => store rfl rfl
  split
  · exact h1
  · exact ((writeC64 h1).write _ _).write _ _

theorem entryStores (s : Machine) : Accesses B s (entryStores B s) := by
  unfold C64X25519.entryStores
  split
  · exact .refl
  · exact (Accesses.refl.write _ _).write _ _

/-! ## Multiplication -/

theorem ctMul8x8 (y : Byte) (s : Machine) : Accesses B s (ctMul8x8 B y s) := store rfl rfl

theorem mulRow (s : Machine) : Accesses B s (mulRow B s) := by
  unfold C64X25519.mulRow
  extract_lets s1 s2 a
  have h2 : Accesses B s s2 := store rfl rfl
  split
  · have h3 : Accesses B s (s2.patchLo [.smcSumAImm, .smcDiffAImm] a) := h2.quiet rfl rfl
    exact loopDown h3 fun k w => store rfl rfl
  · exact ((h2.write _ _).write _ _).transfer _

theorem mulInner (w : Inner) : Accesses B w.s (mulInner B w).1.s := by
  have hbody : ∀ (u : Body) (v : Inner), Accesses B v.s (mulBody B u v).s :=
    fun _ _ => store rfl rfl
  have hlast : ∀ v : Inner, Accesses B v.s (mulBodyD B v).s := fun v => by
    unfold mulBodyD
    extract_lets q
    split
    · exact store rfl rfl
    · exact store rfl rfl
  exact (((hbody _ _).trans (hbody _ _)).trans (hbody _ _)).trans (hlast _)

theorem ripple (x k : ℕ) (a : Byte) (s : Machine) : Accesses B s (ripple B x k a s) :=
  loopUp_inv (fun _ (w : Byte × Bool × Machine) => Accesses B s w.2.2) .refl
    fun _ _ _ hw => hw.quiet rfl rfl

theorem cascade (x k : ℕ) (c : Bool) (s : Machine) : Accesses B s (cascade B x k c s).2 :=
  loopUp_inv (fun _ (w : Bool × Machine) => Accesses B s w.2) .refl fun _ _ _ hw => hw.quiet rfl rfl

theorem mulRipple (w : Inner) : Accesses B w.s (mulRipple B w) := by
  unfold C64X25519.mulRipple
  extract_lets a start s1 k
  have h1 : Accesses B w.s s1 := store rfl rfl
  split
  · exact h1
  · exact h1.trans (ripple _ _ _ _)

theorem mulOuter (s : Machine) : Accesses B s (mulOuter B s).1 := by
  unfold C64X25519.mulOuter
  extract_lets q w s1 s2
  have hq : Accesses B s q.2 := (mulRow s).quiet rfl rfl
  have hw : Accesses B s w.s := doWhile_preserves (fun v : Inner => Accesses B s v.s) hq
    fun v hv => hv.trans (mulInner v)
  exact (hw.trans (mulRipple w)).quiet rfl rfl

theorem fe25519MulWide (s : Machine) : Accesses B s (fe25519MulWide B s) := by
  unfold C64X25519.fe25519MulWide
  extract_lets s1 s2 s3 s4 s5 s6
  have h2 : Accesses B s s2 := (entryStores s).trans (reuClearWide s1)
  have h4 : Accesses B s s4 := by
    simp only [s4]
    split
    · exact h2.quiet rfl rfl
    · exact h2.quiet rfl rfl
  have h6 : Accesses B s s6 := h4.quiet rfl rfl
  exact doWhile h6 mulOuter

theorem feReduceWide (s : Machine) : Accesses B s (feReduceWide B s) := by
  unfold C64X25519.feReduceWide
  extract_lets s1 s2 y r s3 q s4 w y' r' s5
  have h1 : Accesses B s s1 := store rfl rfl
  have h2 : Accesses B s s2 := loopUp h1 fun _ _ => store rfl rfl
  have h4 : Accesses B s s4 := h2.quiet rfl rfl
  have hw : Accesses B s w.2 := h4.trans (cascade _ _ _ _)
  have h5 : Accesses B s s5 := hw.quiet rfl rfl
  exact h5.trans (cascade _ _ _ _)

theorem copyResult (s : Machine) : Accesses B s (copyResult B s) :=
  loopDown .refl fun _ _ => store rfl rfl

theorem fe25519Mul (s : Machine) : Accesses B s (fe25519Mul B s) :=
  ((fe25519MulWide s).trans (feReduceWide _)).trans (copyResult _)

/-! ## Squaring -/

theorem sqrProduct (u : Body) (x : ℕ) (s : Machine) : Accesses B s (sqrProduct B u x s) :=
  store rfl rfl

theorem sqrDouble (s : Machine) : Accesses B s (sqrDouble B s) := store rfl rfl

theorem sqrAccum (u : Body) (x : ℕ) (s : Machine) : Accesses B s (sqrAccum B u x s).2 :=
  store rfl rfl

theorem sqrChain (ld st : Site) (a : Byte) (x : ℕ) (s : Machine) :
    Accesses B s (sqrChain ld st a x s) := store rfl rfl

theorem sqrBodyA (s : Machine) : Accesses B s (sqrBodyA B s) := by
  unfold C64X25519.sqrBodyA
  extract_lets s1 x q
  have h1 : Accesses B s s1 := (sqrProduct _ _ _).trans (sqrDouble _)
  have hq : Accesses B s q.2 := h1.trans (sqrAccum _ _ _)
  have h2 : Accesses B s
      (C64X25519.sqrChain (.sqrChainLd .a) (.sqrChainSt .a) q.1 (x + 1) q.2) :=
    hq.trans (sqrChain _ _ _ _ _)
  exact h2.quiet rfl rfl

theorem sqrBodyB (s : Machine) : Accesses B s (sqrBodyB B s).2 := by
  unfold C64X25519.sqrBodyB
  extract_lets s1 x q s2
  have h1 : Accesses B s s1 := (sqrProduct _ _ _).trans (sqrDouble _)
  have hq : Accesses B s q.2 := h1.trans (sqrAccum _ _ _)
  have h2 : Accesses B s s2 := by
    simp only [s2]
    split
    · exact hq.quiet rfl rfl
    · exact hq.trans (sqrChain _ _ _ _ _)
  exact h2.quiet rfl rfl

theorem sqrInner (w : ℕ × Machine) : Accesses B w.2 (sqrInner B w).1.2 := by
  unfold C64X25519.sqrInner
  split
  · exact ((sqrBodyA w.2).trans (sqrBodyB _)).quiet rfl rfl
  · exact doWhile_preserves (fun v : ℕ × Machine => Accesses B w.2 v.2) .refl
      fun _ hv => hv.quiet rfl rfl

theorem sqrRow (s : Machine) : Accesses B s (sqrRow B s) := by
  unfold C64X25519.sqrRow
  extract_lets s1 s2 s3 s4 s5
  have h2 : Accesses B s s2 := store rfl rfl
  have hsel : Accesses B s (sqrSelect B s2) := by
    unfold sqrSelect
    split
    · exact (h2.trans (reuFetchDoubledRow s2)).quiet rfl rfl
    · exact h2.quiet rfl rfl
  exact hsel.quiet rfl rfl

theorem sqrOuter (s : Machine) : Accesses B s (sqrOuter B s).1 := by
  unfold C64X25519.sqrOuter
  extract_lets s1 w s2 s3
  have hw : Accesses B s w.2 := doWhile_preserves (fun v : ℕ × Machine => Accesses B s v.2)
    (sqrRow s) fun v hv => hv.trans (sqrInner v)
  have h2 : Accesses B s s2 := by
    simp only [s2]
    unfold sqrRipple
    extract_lets a start s4 k
    have h4 : Accesses B s s4 := hw.quiet rfl rfl
    split
    · exact h4
    · exact h4.trans (ripple _ _ _ _)
  exact h2.quiet rfl rfl

theorem diagOuter (s : Machine) : Accesses B s (diagOuter B s).1 := by
  unfold C64X25519.diagOuter
  extract_lets y s1 s2 x r s3 q s4 s5 s6 k s7 s8
  have h6 : Accesses B s s6 := store rfl rfl
  have h7 : Accesses B s s7 := by
    simp only [s7]
    split
    · exact h6
    · exact h6.trans (ripple _ _ _ _)
  exact h7.quiet rfl rfl

theorem fe25519SqrWide (s : Machine) : Accesses B s (fe25519SqrWide B s) := by
  unfold C64X25519.fe25519SqrWide
  extract_lets s1 s2 s3 s4 s5 s6
  have h2 : Accesses B s s2 := (entryStores s).trans (reuClearWide s1)
  have h3 : Accesses B s s3 := loopDown h2 fun _ _ => store rfl rfl
  have h4 : Accesses B s s4 := h3.quiet rfl rfl
  have h5 : Accesses B s s5 := doWhile h4 sqrOuter
  have h6 : Accesses B s s6 := h5.quiet rfl rfl
  exact doWhile h6 diagOuter

theorem fe25519Sqr (s : Machine) : Accesses B s (fe25519Sqr B s) :=
  ((fe25519SqrWide s).trans (feReduceWide _)).trans (copyResult _)

/-! ## The curve constant -/

theorem adcWide {k : ℕ} {v : Byte} {w : Bool × Machine} (h : Accesses B s w.2) :
    Accesses B s (adcWide B k v w).2 := h.quiet rfl rfl

theorem a24Outer (s : Machine) : Accesses B s (a24Outer B s).1 := by
  unfold C64X25519.a24Outer
  extract_lets i y w1 w2 w3 w4 w5 w6
  have h1 : Accesses B s w1.2 := adcWide .refl
  have h3 : Accesses B s w3.2 := adcWide (adcWide h1)
  have h6 : Accesses B s w6.2 := adcWide (adcWide (adcWide h3))
  split
  · exact h6.quiet rfl rfl
  · exact h6

theorem a24Stage (k : ℕ) (s : Machine) : Accesses B s (a24Stage B k s) := store rfl rfl

theorem a24Bridge (k : ℕ) (s : Machine) : Accesses B s (a24Bridge B k s) := store rfl rfl

theorem a24Fold (s : Machine) : Accesses B s (a24Fold B s) := by
  unfold C64X25519.a24Fold
  extract_lets s1 s2 s3 s4 w v y r s5
  have h1 : Accesses B s s1 := store rfl rfl
  have h3 : Accesses B s s3 := (((h1.trans (a24Stage _ _)).trans (a24Bridge _ _)).trans
    (a24Stage _ _)).trans (a24Bridge _ _)
  have h4 : Accesses B s s4 := h3.trans (a24Stage _ _)
  have hw : Accesses B s w.2 := adcWide h4
  have h5 : Accesses B s s5 := (hw.trans (cascade _ _ _ _)).quiet rfl rfl
  exact h5.trans (cascade _ _ _ _)

theorem fe25519MulA24 (s : Machine) : Accesses B s (fe25519MulA24 B s) := by
  have hwide : Accesses B s (fe25519MulA24Wide B s) := by
    unfold fe25519MulA24Wide
    extract_lets s1 s2 s3
    have h1 : Accesses B s s1 := entryStores s
    have h2 : Accesses B s s2 := loopDown h1 fun _ _ => store rfl rfl
    have h3 : Accesses B s s3 := h2.quiet rfl rfl
    exact doWhile h3 a24Outer
  exact ((hwide.trans (a24Fold _)).trans (copyResult _)).trans (fe25519ReduceFinal _)

/-! ## Programs -/

theorem fieldOp (f : FieldOp) (s : Machine) : Accesses B s (f.run B s) := by
  cases f with
  | fe25519Copy => exact fe25519Copy s
  | fe25519Zero => exact fe25519Zero s
  | fe25519One => exact fe25519One s
  | fe25519Add => exact fe25519Add s
  | fe25519Sub => exact fe25519Sub s
  | fe25519Mul => exact fe25519Mul s
  | fe25519Sqr => exact fe25519Sqr s
  | fe25519MulA24 => exact fe25519MulA24 s
  | fe25519ReduceFinal => exact fe25519ReduceFinal s

theorem setPtr (x : Slot) (a : ℕ) (s : Machine) : Accesses B s (s.setPtr B x a) := store rfl rfl

theorem feInvSqrnTmp2 (k : Byte) (s : Machine) : Accesses B s (feInvSqrnTmp2 B k s) :=
  doWhile (store rfl rfl) fun w => by
    unfold feInvSqrnBody
    extract_lets w1 w2 w3 w4
    have h2 : Accesses B w w2 := (setPtr _ _ _).trans (setPtr _ _ _)
    exact (h2.trans (fe25519Sqr _)).quiet rfl rfl

variable {K : Type} {addr : K → ℕ}

theorem instr (i : Instr K) (s : Machine) : Accesses B s (i.run B addr s) := by
  cases i with
  | src1 a => exact setPtr _ _ _
  | src2 a => exact setPtr _ _ _
  | dst a => exact setPtr _ _ _
  | jsr f => exact fieldOp f s
  | sqrn k => exact feInvSqrnTmp2 k s

/-- **A program** accesses the unit through its instructions. -/
theorem exec (code : List (Instr K)) (s : Machine) : Accesses B s (exec B addr code s) := by
  induction code generalizing s with
  | nil => exact .refl
  | cons i code ih => exact (instr i s).trans (ih _)

theorem fe25519Inv (s : Machine) : Accesses B s (fe25519Inv B s) := by
  unfold C64X25519.fe25519Inv
  extract_lets s1 s2 s3 s4 s5
  have h2 : Accesses B s s2 := store rfl rfl
  have h5 : Accesses B s s5 := (h2.trans (exec _ _)).quiet rfl rfl
  exact (h5.trans (fe25519Mul _)).trans (fe25519ReduceFinal _)

/-! ## The ladder -/

theorem swapBufs (a b : Buf) (mask : Byte) (s : Machine) :
    Accesses B s (swapBufs B a b mask s) := by
  unfold C64X25519.swapBufs
  extract_lets s1 s2
  have h1 : Accesses B s s1 := store rfl rfl
  exact (h1.trans (exec _ _)).trans (fe25519Cswap _ _)

theorem swapPairs (mask : Byte) (s : Machine) : Accesses B s (swapPairs B mask s) :=
  (swapBufs _ _ _ _).trans (swapBufs _ _ _ _)

theorem ladderDecode (s : Machine) : Accesses B s (ladderDecode B s) := by
  unfold C64X25519.ladderDecode
  extract_lets s1 s2 s3 s4 s5
  have h2 : Accesses B s s2 := (exec _ _).quiet rfl rfl
  exact (h2.trans (exec _ _)).quiet rfl rfl

theorem ladderNext (s : Machine) : Accesses B s (ladderNext B s).1 := by
  unfold C64X25519.ladderNext
  extract_lets s1 s2 s3
  have h1 : Accesses B s s1 := store rfl rfl
  split
  · exact h1
  · exact h1.quiet rfl rfl

theorem ladderBit (s : Machine) : Accesses B s (ladderBit B s).1 := by
  have hmask : Accesses B s (ladderBitMask B s).2 := store rfl rfl
  exact ((hmask.trans (swapPairs _ _)).trans (exec _ _)).trans (ladderNext _)

theorem ladderFinish (s : Machine) : Accesses B s (ladderFinish B s) := by
  unfold C64X25519.ladderFinish
  extract_lets s1 s2 s3
  have h2 : Accesses B s s2 := (swapPairs _ _).trans (exec _ _)
  exact (h2.trans (fe25519Inv _)).trans (exec _ _)

theorem x25519Scalarmult (s : Machine) : Accesses B s (x25519Scalarmult B s) := by
  unfold C64X25519.x25519Scalarmult
  extract_lets f s1 s2 s3
  have h1 : Accesses B s s1 := store rfl rfl
  have h2 : Accesses B s s2 := h1.trans (entryStores _)
  have h3 : Accesses B s s3 := doWhile (h2.trans (ladderDecode _)) ladderBit
  exact (h3.trans (ladderFinish _)).quiet rfl rfl

theorem x25519Base (s : Machine) : Accesses B s (x25519Base B s) := by
  unfold C64X25519.x25519Base
  extract_lets s1
  have h1 : Accesses B s (x25519Clamp B s1) := (exec _ _).quiet rfl rfl
  exact h1.trans (x25519Scalarmult _)

/-- **Every public call** accesses the unit that way. -/
theorem call (c : Call) (s : Machine) : Accesses B s (c.run B s) := by
  cases c with
  | jsr f => exact fieldOp f s
  | fe25519Inv => exact fe25519Inv s
  | fe25519Cswap mask => exact fe25519Cswap mask s
  | x25519Clamp => exact store rfl rfl
  | x25519Scalarmult => exact x25519Scalarmult s
  | x25519Base => exact x25519Base s
  | reuFetchMulRow a => exact reuFetchMulRow a s
  | reuFetchDoubledRow => exact reuFetchDoubledRow s

/-! ## The initialisers

Those that clear the fault byte do it first; what follows is as above. -/

theorem incVar {lo hi : Var} (hlo : lo ≠ .x25519ReuFault) (hhi : hi ≠ .x25519ReuFault)
    (h : Accesses B s t) : Accesses B s (incVar lo hi t) := by
  unfold C64X25519.incVar
  extract_lets t1
  have h1 : Accesses B s t1 := h.quiet rfl (setVar_var_of_ne hlo.symm)
  split
  · exact h1.quiet rfl (setVar_var_of_ne hhi.symm)
  · exact h1

theorem sqStore (s : Machine) : Accesses B s (sqStore B s) := by
  unfold C64X25519.sqStore
  extract_lets x s1 s2
  split
  · exact store rfl rfl
  · exact store rfl rfl

theorem sqAdvance (s : Machine) : Accesses B s (sqAdvance s) := by
  unfold C64X25519.sqAdvance
  extract_lets r s1 s2 s3 r1 s4 r2 s5
  have h2 : Accesses B s s2 := store rfl rfl
  have h3 : Accesses B s s3 := incVar (by decide) (by decide) h2
  exact h3.quiet rfl rfl

theorem sqtabInit (s : Machine) : Accesses B s (sqtabInit B s) := by
  unfold C64X25519.sqtabInit
  extract_lets s1 s2
  have h2 : Accesses B s s2 := store rfl rfl
  refine doWhile h2 fun w => ?_
  unfold sqtabBody
  extract_lets w1 w2
  have hshift : Accesses B w (sqShift w) := by
    obtain ⟨-, hreu, hvar, -⟩ := sqShift_spec (s := w)
    exact store hreu (hvar _ (by decide) (by decide) (by decide))
  have h1 : Accesses B w w1 := (hshift.trans (sqStore _)).trans (sqAdvance _)
  exact incVar (by decide) (by decide) h1

theorem x25519DblStashRow (row : Var) (s : Machine) : Accesses B s (x25519DblStashRow B row s) := by
  unfold C64X25519.x25519DblStashRow
  extract_lets s1 s2 r2 s3 s4 s5 s6 s7 r7 s8 s9 s10 s11 s12 s13
  have h1 : Accesses B s s1 := loopUp .refl fun _ _ => store rfl rfl
  have h4 : Accesses B s s4 := ((((writeC64 h1).write _ _).write _ _).write _ _)
  have h5 : Accesses B s s5 := ((h4.write _ _).write _ _).write _ _
  have h6 : Accesses B s s6 := (h5.write _ _).transfer _
  have h9 : Accesses B s s9 := (((writeC64 h6).write _ _).write _ _).write _ _
  have h10 : Accesses B s s10 := (((h9.write _ _).write _ _).write _ _).transfer _
  have h13 : Accesses B s s13 := (((writeC64 h10).write _ _).write _ _).write _ _
  exact (((h13.write _ _).write _ _).write _ _).transfer _

theorem restoreFetchLatch (s : Machine) : Accesses B s (restoreFetchLatch B s) :=
  ((((writeC64 .refl).write _ _).write _ _).write _ _).write _ _

theorem reuMulStash (s : Machine) : Accesses B s (reuMulStash B s) := by
  unfold C64X25519.reuMulStash
  extract_lets s1 r1 s2 s3 s4 s5 r5 s6 s7
  have h3 : Accesses B s s3 := (((writeC64 .refl).write _ _).write _ _).write _ _
  have h4 : Accesses B s s4 := (((h3.write _ _).write _ _).write _ _).transfer _
  have h7 : Accesses B s s7 := (((writeC64 h4).write _ _).write _ _).write _ _
  exact (((h7.write _ _).write _ _).write _ _).transfer _

theorem reuMulOuter (s : Machine) : Accesses B s (reuMulOuter B s).1 := by
  unfold C64X25519.reuMulOuter
  extract_lets s1 s2 s3 s4 s5 s6
  have h2 : Accesses B s s2 := store rfl rfl
  have h3 : Accesses B s s3 := doWhile h2 fun w => by
    unfold reuMulEntry
    extract_lets w1 x w2 w3 w4
    have hw : Accesses B w w1 := ctMul8x8 _ w
    exact hw.quiet rfl rfl
  have h4 : Accesses B s s4 := h3.trans (reuMulStash _)
  have h5 : Accesses B s s5 := by
    simp only [s5]
    split
    · exact h4.trans (x25519DblStashRow _ _)
    · exact h4
  exact h5.quiet rfl rfl

theorem reuMulInit (s : Machine) :
    Accesses B (s.setVar .x25519ReuFault 0) (reuMulInit B s) := by
  unfold C64X25519.reuMulInit
  extract_lets s1
  have h1 : Accesses B (s.setVar .x25519ReuFault 0) s1 := store rfl rfl
  exact (doWhile h1 reuMulOuter).trans (restoreFetchLatch _)

theorem sqrTablesOuter (s : Machine) : Accesses B s (sqrTablesOuter B s).1 := by
  unfold C64X25519.sqrTablesOuter
  extract_lets s1 s2 r s3 s4 s5 s6 s7
  have h2 : Accesses B s s2 := ((((writeC64 .refl).write _ _).write _ _).write _ _).write _ _
  have h5 : Accesses B s s5 := ((h2.write _ _).write _ _).transfer _
  exact (h5.trans (x25519DblStashRow _ _)).quiet rfl rfl

theorem x25519SqrTablesInit (s : Machine) :
    Accesses B (s.setVar .x25519ReuFault 0) (x25519SqrTablesInit B s) := by
  unfold C64X25519.x25519SqrTablesInit
  extract_lets s1
  have h1 : Accesses B (s.setVar .x25519ReuFault 0) s1 := store rfl rfl
  exact (doWhile h1 sqrTablesOuter).trans (restoreFetchLatch _)

theorem probeTransfer (cmd : Byte) (s : Machine) : Accesses B s (probeTransfer B cmd s) := by
  unfold C64X25519.probeTransfer
  extract_lets s1 s2 s3 s4
  have h2 : Accesses B s s2 := (((writeC64 .refl).write _ _).write _ _).write _ _
  exact (((h2.write _ _).write _ _).write _ _).transfer _

theorem saveReg {x : Reg} {v : Var} (hv : v ≠ .x25519ReuFault) (h : Accesses B s t) :
    Accesses B s (saveReg x v t) :=
  (h.read x).quiet rfl (setVar_var_of_ne hv.symm)

theorem reuProbe (s : Machine) :
    Accesses B (s.setVar .x25519ReuFault 0) (reuProbe B s).2 := by
  unfold C64X25519.reuProbe
  extract_lets s1 s2
  have h1 : Accesses B (s.setVar .x25519ReuFault 0) s1 := by
    refine saveReg (by decide) (saveReg (by decide) (saveReg (by decide) (saveReg (by decide) ?_)))
    exact saveReg (by decide) (saveReg (by decide) (saveReg (by decide) .refl))
  have h2 : Accesses B (s.setVar .x25519ReuFault 0) (probePattern B s1) := by
    unfold probePattern
    extract_lets s3 s4 s5
    have h3 : Accesses B (s.setVar .x25519ReuFault 0) s3 := h1.trans (probeTransfer _ _)
    have h5 : Accesses B (s.setVar .x25519ReuFault 0) s5 := h3.quiet rfl rfl
    exact h5.trans (probeTransfer _ _)
  have h3 : Accesses B (s.setVar .x25519ReuFault 0) (probeReadBack B (probePattern B s1)) := by
    unfold probeReadBack
    extract_lets s3 s4 s5 s6
    have h3 : Accesses B (s.setVar .x25519ReuFault 0) s3 := h2.quiet rfl rfl
    have h6 : Accesses B (s.setVar .x25519ReuFault 0) s6 :=
      (h3.trans (probeTransfer _ _)).quiet rfl rfl
    exact h6.trans (probeTransfer _ _)
  exact (((((((h3.write _ _).write _ _).write _ _).write _ _).write _ _).write _ _).write _ _).write
    _ _

end Accesses

end C64X25519
