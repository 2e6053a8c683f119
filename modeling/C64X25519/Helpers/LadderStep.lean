import C64X25519.Common.Ladder
import C64X25519.Helpers.Inv
/-!
# One step of the ladder

The step as a program, evaluated once over any arithmetic. On residues it
is the step of the ladder; on raw numbers the second operand of every
addition and subtraction is canonical, which is all the reductions it
leaves out would have given.
-/

namespace C64X25519

open Machine

variable {α : Type} {B : Build} {s t : Machine}

/-! ## The step over any arithmetic -/

/-- What the step computes, call by call. -/
def stepVals (I : Interp α) (x1 : α) (s : Ladder α) : Ladder α :=
  let a := I.add s.x2 s.z2
  let b := I.sub s.x2 s.z2
  let aa := I.sqr a
  let bb := I.reduce (I.sqr b)
  let e := I.sub aa bb
  let c := I.add s.x3 s.z3
  let d := I.sub s.x3 s.z3
  let da := I.mul d a
  let cb := I.reduce (I.mul c b)
  { x3 := I.sqr (I.add da cb)
    z3 := I.reduce (I.mul x1 (I.sqr (I.sub da cb)))
    x2 := I.mul aa bb
    z2 := I.reduce (I.mul e (I.add aa (I.mulA24 e))) }

/-- The coordinates in a view of the library's buffers. -/
def View.coords (v : View Buf α) : Ladder α :=
  ⟨v.val .x25X2, v.val .x25Z2, v.val .x25X3, v.val .x25Z3⟩

/-- The buffers the step writes. -/
def stepBufs : List Buf :=
  [.fe25519Tmp1, .fe25519Tmp2, .fe25519Tmp3, .fe25519Tmp4, .x25X2, .x25Z2, .x25X3, .x25Z3,
    .x25A, .x25B, .x25Da, .x25Cb, .x25E]

/-- **The step as a program** is the step call by call, whatever pointers it
starts with. -/
theorem ladderStep_eval (I : Interp α) (v : View Buf α) :
    ∃ v', evals I Buf.fe25519Tmp2 ladderStepCode v = some v' ∧
      v'.coords = stepVals I (v.val .x25X1) v.coords :=
  ⟨_, rfl, rfl⟩

theorem stepVals_residues (x1 : ZMod p) (s : Ladder (ZMod p)) :
    stepVals residues x1 s = s.step 121665 x1 := rfl

theorem raw_reduce_lt (n : ℕ) : raw.reduce n < p := Nat.mod_lt n (by norm_num [p])

/-- The step ends by reducing its `z` coordinates. -/
theorem stepVals_canonical (x1 : ℕ) (s : Ladder ℕ) :
    (stepVals raw x1 s).z2 < p ∧ (stepVals raw x1 s).z3 < p :=
  ⟨raw_reduce_lt _, raw_reduce_lt _⟩

/-- Canonical `z` coordinates are enough for every addition and subtraction
of the step: the other second operands are reduced on the way. -/
theorem ladderStep_safe {v : View Buf ℕ} (h2 : v.val .x25Z2 < p) (h3 : v.val .x25Z3 < p) :
    Safe raw Buf.fe25519Tmp2 (fun _ b => b < p) (fun _ b => b < p) ladderStepCode v := by
  repeat' first
    | exact trivial
    | exact h2
    | exact h3
    | exact raw_reduce_lt _
    | refine ⟨?_, ?_⟩

/-- The residues of a view. -/
def View.residues (v : View Buf ℕ) : View Buf (ZMod p) :=
  ⟨v.src1, v.src2, v.dst, fun b => (v.val b : ZMod p)⟩

/-- **The raw step is the step of the ladder on residues.** -/
theorem ladderStep_residues {v v' : View Buf ℕ} (hb : ∀ b, v.val b < 2 ^ 256)
    (h2 : v.val .x25Z2 < p) (h3 : v.val .x25Z3 < p)
    (hv : evals raw Buf.fe25519Tmp2 ladderStepCode v = some v') :
    v'.residues.coords = v.residues.coords.step 121665 (v.residues.val .x25X1) := by
  obtain ⟨w', hw', hrel⟩ := evals_rel raw_residues_canonical (w := v.residues)
    ⟨rfl, rfl, rfl, fun b => ⟨hb b, rfl⟩⟩ (ladderStep_safe h2 h3) hv
  obtain ⟨w'', hw'', hres⟩ := ladderStep_eval C64X25519.residues v.residues
  have hw : w' = w'' := Option.some.inj (hw'.symm.trans hw'')
  rw [← stepVals_residues, ← hres, ← hw]
  simp only [View.coords, View.residues, (hrel.val _).2]

/-! ## The ranges of the calls -/

/-- The operands of an addition, or of a subtraction, where it is called. -/
def Instr.InRange {K : Type} (B : Build) (i : Instr K) (s : Machine) : Prop :=
  match i with
  | .jsr .fe25519Add =>
      s.fe (s.ptr B .fe25519Src1) + s.fe (s.ptr B .fe25519Src2) < 2 ^ 256 + p
  | .jsr .fe25519Sub => s.fe (s.ptr B .fe25519Src2) ≤ s.fe (s.ptr B .fe25519Src1) + p
  | _ => True

/-- And so at every call of a program, in the state it is made in. -/
def InRange {K : Type} (B : Build) (addr : K → ℕ) : List (Instr K) → Machine → Prop
  | [], _ => True
  | i :: code, s => i.InRange B s ∧ InRange B addr code (i.run B addr s)

section Range

variable {K : Type} [DecidableEq K] {buf : K → FieldBuf B.mem} {v v' : View K ℕ} {acc : K}
  {W : FieldBuf B.mem → Prop} {code : List (Instr K)} {P Q : ℕ → ℕ → Prop}

/-- **What is safe in the view is in range on the machine.** -/
theorem inRange_of_safe (hb : buf.Injective) (hr : Ready B s) (h : Shows B buf v s)
    (hP : ∀ a b, a < 2 ^ 256 → b < 2 ^ 256 → P a b → a + b < 2 ^ 256 + p)
    (hQ : ∀ a b, a < 2 ^ 256 → b < 2 ^ 256 → Q a b → b ≤ a + p)
    (he : evals raw acc code v = some v') (hs : Safe raw acc P Q code v)
    (hv : ∀ d ∈ v.dst, W (buf d)) (hc : ∀ i ∈ code, i.Within buf W ∧ i.Named buf acc) :
    InRange B (fun k => (buf k).addr) code s := by
  induction code generalizing s v with
  | nil => trivial
  | cons i code ih =>
    rw [evals_cons, Option.bind_eq_some_iff] at he
    obtain ⟨w, hw, he⟩ := he
    obtain ⟨hi, hacc⟩ := hc i (List.mem_cons_self ..)
    obtain ⟨hs', hk, -, hd⟩ := Instr.sim hb hr h hw hv hi hacc
    refine ⟨?_, ih (hr.kept hk) hs' he (hs.tail hw) hd fun j hj => hc j (List.mem_cons_of_mem _ hj)⟩
    have hsafe := hs.1
    unfold Instr.InRange
    split
    · simp only [Instr.eval, FieldOp.eval, Option.bind_eq_bind, Option.bind_eq_some_iff] at hw
      obtain ⟨d, -, a, ha, b, hb', -⟩ := hw
      simp only [Instr.Safe, ha, hb'] at hsafe
      rw [h.src1 a ha, h.src2 b hb', h.val, h.val]
      exact hP _ _ (h.val a ▸ fe_lt) (h.val b ▸ fe_lt) hsafe
    · simp only [Instr.eval, FieldOp.eval, Option.bind_eq_bind, Option.bind_eq_some_iff] at hw
      obtain ⟨d, -, a, ha, b, hb', -⟩ := hw
      simp only [Instr.Safe, ha, hb'] at hsafe
      rw [h.src1 a ha, h.src2 b hb', h.val, h.val]
      exact hQ _ _ (h.val a ▸ fe_lt) (h.val b ▸ fe_lt) hsafe
    · trivial

end Range

/-! ## The step on the machine -/

/-- Their residues. -/
def residueCoords (B : Build) (s : Machine) : Ladder (ZMod p) := (ownView B s).residues.coords

/-- The `z` coordinates are canonical. -/
def Canonical (B : Build) (s : Machine) : Prop :=
  s.fe (B.mem.buf .x25Z2) < p ∧ s.fe (B.mem.buf .x25Z3) < p

/-- **A program over the library's buffers**, which sets the pointers it
follows. -/
theorem exec_own {v' : View Buf ℕ} {l : List Buf} (code : List (Instr Buf)) (hr : Ready B s)
    (he : evals raw Buf.fe25519Tmp2 code (ownView B s) = some v')
    (hl : ∀ i ∈ code, i.writes ⊆ l) :
    (∀ b, (exec B B.mem.buf code s).fe (B.mem.buf b) = v'.val b) ∧
      Kept B Slot.prog (dirty B (ownIn B l)) s (exec B B.mem.buf code s) := by
  obtain ⟨hshow, hk, -⟩ := exec_sim (W := ownIn B l) own_injective hr (shows_own s) he
    (fun _ h => by cases h) (own_within own_mem hl)
  exact ⟨hshow.val, hk⟩

/-- **`x25519_ladder_step`**: the step of the ladder on residues, canonical
`z` coordinates again, and every addition and subtraction in its range. -/
theorem x25519LadderStep_spec (hr : Ready B s) (hz : Canonical B s) :
    residueCoords B (x25519LadderStep B s)
        = (residueCoords B s).step 121665 (s.fe (B.mem.buf .x25X1) : ZMod p) ∧
      Canonical B (x25519LadderStep B s) ∧
      Kept B Slot.prog (dirty B (ownIn B stepBufs)) s (x25519LadderStep B s) ∧
      InRange B B.mem.buf ladderStepCode s := by
  have hsafe : Safe raw Buf.fe25519Tmp2 (fun _ b => b < p) (fun _ b => b < p) ladderStepCode
      (ownView B s) := ladderStep_safe hz.1 hz.2
  obtain ⟨v', hv', hraw⟩ := ladderStep_eval raw (ownView B s)
  obtain ⟨hshow, hk⟩ := exec_own (l := stepBufs) ladderStepCode hr hv' (by decide)
  have hrange := inRange_of_safe (W := ownIn B stepBufs) own_injective hr (shows_own s)
    (fun a b ha _ h => by omega) (fun a b _ _ h => by omega) hv' hsafe (fun _ h => by cases h)
    (own_within own_mem (by decide))
  have hval : ∀ b, (x25519LadderStep B s).fe (B.mem.buf b) = v'.val b := hshow
  have hres : residueCoords B (x25519LadderStep B s) = v'.residues.coords := by
    simp only [residueCoords, View.residues, View.coords, ownView, hval]
  refine ⟨?_, ?_, hk, hrange⟩
  · rw [hres, ladderStep_residues (v := ownView B s) (fun _ => fe_lt) hz.1 hz.2 hv']
    rfl
  · have hz2 : (x25519LadderStep B s).fe (B.mem.buf .x25Z2) = v'.coords.z2 := hval _
    have hz3 : (x25519LadderStep B s).fe (B.mem.buf .x25Z3) = v'.coords.z3 := hval _
    rw [Canonical, hz2, hz3, hraw]
    exact stepVals_canonical _ _

end C64X25519
