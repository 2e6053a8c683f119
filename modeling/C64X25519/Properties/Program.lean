import C64X25519.Helpers.Calls
import C64X25519.Helpers.Curve
import C64X25519.Properties.Agreement
/-!
# Programs of a caller

A caller composes the field routines over buffers of its choice, and reduces
the last result. What it gets is the value of its expression in the field,
as long as each addition and subtraction is made in its range.
-/

namespace C64X25519

open Machine

variable {B : Build} {s t : Machine} {b d : FieldBuf B.mem}

/-! ## Programs -/

/-- The routines of a caller's program. -/
inductive FieldRoutine
  | jsr (f : FieldOp)
  | fe25519Inv
deriving DecidableEq

/-- The pointers a routine follows to its operands. -/
def FieldRoutine.reads : FieldRoutine → List Slot
  | jsr f => f.reads
  | fe25519Inv => [.fe25519Src1]

/-- What a routine does to the machine. -/
def FieldRoutine.run (B : Build) : FieldRoutine → Machine → Machine
  | jsr f => f.run B
  | fe25519Inv => C64X25519.fe25519Inv B

/-- One call: the three pointers set, and the routine. -/
structure FieldStep (B : Build) where
  routine : FieldRoutine
  src1 : FieldBuf B.mem
  src2 : FieldBuf B.mem
  dst : FieldBuf B.mem

namespace FieldStep

/-- The buffer a pointer is set to. -/
def buf (st : FieldStep B) : Slot → FieldBuf B.mem
  | .fe25519Src1 => st.src1
  | .fe25519Src2 => st.src2
  | _ => st.dst

/-- The pointers set. -/
def aim (st : FieldStep B) (s : Machine) : Machine :=
  ((s.setPtr B .fe25519Src1 st.src1.addr).setPtr B .fe25519Src2 st.src2.addr).setPtr B
    .fe25519Dst st.dst.addr

/-- A step: its pointers aimed, and its routine run. -/
def run (st : FieldStep B) (s : Machine) : Machine := st.routine.run B (st.aim s)

/-- The numbers a call reads. -/
def operands (st : FieldStep B) (s : Machine) : List ℕ :=
  st.routine.reads.map fun x => s.fe (st.buf x).addr

end FieldStep

/-- A straight-line program. -/
def runSteps (prog : List (FieldStep B)) (s : Machine) : Machine :=
  prog.foldl (fun s st => st.run s) s

/-! ## Their meaning in the field -/

/-- What a routine computes in the field. -/
def FieldRoutine.residue : FieldRoutine → List (ZMod p) → ZMod p
  | jsr .fe25519Copy, [x] => x
  | jsr .fe25519One, [] => 1
  | jsr .fe25519Add, [x, y] => x + y
  | jsr .fe25519Sub, [x, y] => x - y
  | jsr .fe25519Mul, [x, y] => x * y
  | jsr .fe25519Sqr, [x] => x ^ 2
  | jsr .fe25519MulA24, [x] => 121665 * x
  | jsr .fe25519ReduceFinal, [x] => x
  | fe25519Inv, [x] => x⁻¹
  | _, _ => 0

/-- The values of an expression: what the buffers stand for, where a program
has given them a value. -/
abbrev Values (B : Build) := FieldBuf B.mem → Option (ZMod p)

/-- An inversion leaves no value in the temporaries it works in. -/
def Values.forget (ρ : Values B) : Values B := fun b =>
  if ∃ k ∈ invBufs, b = B.mem.own k then none else ρ b

namespace FieldStep

/-- The value of the destination behind a step. -/
def result (st : FieldStep B) (ρ : Values B) : Option (ZMod p) :=
  (st.routine.reads.mapM fun x => ρ (st.buf x)).map st.routine.residue

/-- A step on the values the buffers stand for. -/
def eval (st : FieldStep B) (ρ : Values B) : Values B :=
  Function.update (if st.routine = .fe25519Inv then ρ.forget else ρ) st.dst (st.result ρ)

end FieldStep

/-- A program on the values. -/
def evalSteps (prog : List (FieldStep B)) (ρ : Values B) : Values B :=
  prog.foldl (fun ρ st => st.eval ρ) ρ

/-- Every buffer holds a residue to begin with. -/
def residuesIn (B : Build) (s : Machine) : Values B := fun b => some (s.fe b.addr : ZMod p)

/-! ## The ranges -/

/-- The sums and differences the single correction of `fe25519_add` and
`fe25519_sub` is right for. -/
def FieldRoutine.InDomain : FieldRoutine → List ℕ → Prop
  | jsr .fe25519Add, [m, n] => m + n < 2 ^ 256 + p
  | jsr .fe25519Sub, [m, n] => n ≤ m + p
  | _, _ => True

/-- Each call of a program is made in its range. -/
def InDomain : List (FieldStep B) → Machine → Prop
  | [], _ => True
  | st :: prog, s => st.routine.InDomain (st.operands s) ∧ InDomain prog (st.run s)

/-! ## One step -/

/-- **A routine in its range computes its value.** -/
theorem FieldOp.value_cast {f : FieldOp} {l : List ℕ} (hl : ∀ n ∈ l, n < 2 ^ 256)
    (hlen : l.length = f.reads.length) (hd : (FieldRoutine.jsr f).InDomain l) :
    (f.value l : ZMod p) = (FieldRoutine.jsr f).residue (l.map Nat.cast) := by
  cases f
  case fe25519Zero | fe25519One =>
    obtain rfl := List.length_eq_zero_iff.1 hlen
    first | exact Nat.cast_zero | exact Nat.cast_one
  case fe25519Copy =>
    obtain ⟨x, rfl⟩ := List.length_eq_one_iff.1 hlen
    rfl
  case fe25519Add =>
    obtain ⟨x, y, rfl⟩ := List.length_eq_two.1 hlen
    exact addMod_cast hd
  case fe25519Sub =>
    obtain ⟨x, y, rfl⟩ := List.length_eq_two.1 hlen
    exact subMod_cast (hl x List.mem_cons_self) hd
  case fe25519Mul =>
    obtain ⟨x, y, rfl⟩ := List.length_eq_two.1 hlen
    exact (reduceWide_cast _).trans (Nat.cast_mul x y)
  case fe25519Sqr =>
    obtain ⟨x, rfl⟩ := List.length_eq_one_iff.1 hlen
    exact (reduceWide_cast _).trans (Nat.cast_pow x 2)
  case fe25519MulA24 =>
    obtain ⟨x, rfl⟩ := List.length_eq_one_iff.1 hlen
    exact (natCast_mod_p _).trans (Nat.cast_mul _ x)
  case fe25519ReduceFinal =>
    obtain ⟨x, rfl⟩ := List.length_eq_one_iff.1 hlen
    exact natCast_mod_p x

namespace FieldStep

variable {st : FieldStep B}

theorem aim_ptr (st : FieldStep B) (s : Machine) :
    (st.aim s).ptr B .fe25519Src1 = st.src1.addr ∧ (st.aim s).ptr B .fe25519Src2 = st.src2.addr ∧
      (st.aim s).ptr B .fe25519Dst = st.dst.addr := by
  have h1 := st.src1.fits
  have h2 := st.src2.fits
  have h3 := st.dst.fits
  refine ⟨?_, ?_, ptr_setPtr (by omega)⟩
  · rw [aim, ptr_setPtr_of_ne (by decide) rfl rfl, ptr_setPtr_of_ne (by decide) rfl rfl]
    exact ptr_setPtr (by omega)
  · rw [aim, ptr_setPtr_of_ne (by decide) rfl rfl]
    exact ptr_setPtr (by omega)

theorem aim_kept {D : ℕ → Prop} : Kept B Slot.prog D s (st.aim s) :=
  (((Kept.refl s).setPtr rfl rfl).setPtr rfl rfl).setPtr rfl rfl

/-- A pointer a routine follows is at the buffer of the step. -/
theorem aim_buf {x : Slot} (hx : x ∈ st.routine.reads) : (st.aim s).ptr B x = (st.buf x).addr := by
  obtain ⟨h1, h2, h3⟩ := st.aim_ptr s
  have hcase : x = .fe25519Src1 ∨ x = .fe25519Src2 ∨ x = .fe25519Dst := by
    revert hx
    cases st.routine with
    | jsr f => cases f <;> cases x <;> decide
    | fe25519Inv => cases x <;> decide
  rcases hcase with rfl | rfl | rfl
  · exact h1
  · exact h2
  · exact h3

/-- The number a step leaves in its destination, and what it leaves alone. -/
theorem run_jsr (f : FieldOp) (a b d : FieldBuf B.mem) (hr : Ready B s) :
    let st : FieldStep B := ⟨.jsr f, a, b, d⟩
    (st.run s).fe d.addr = f.value (st.operands s) ∧
      Kept B Slot.prog (dirty B (· = d)) s (st.run s) := by
  intro st
  have hka : Kept B Slot.prog (dirty B (· = d)) s (st.aim s) := aim_kept
  obtain ⟨hfe, hf⟩ := FieldOp.run_spec (f := f) (hr.kept hka) (st.aim_ptr s).2.2
    fun x hx => ⟨st.buf x, aim_buf hx⟩
  refine ⟨hfe.trans (congrArg _ (List.map_congr_left fun x hx => ?_)),
    hka.trans ((Kept.of_frame hf).mono fun x => dirty_of (W := (· = d)) rfl)⟩
  have hbuf : (st.aim s).ptr B x = (st.buf x).addr := aim_buf hx
  rw [hbuf]
  rfl

theorem run_inv (a b d : FieldBuf B.mem) (hr : Ready B s) :
    let st : FieldStep B := ⟨.fe25519Inv, a, b, d⟩
    ((st.run s).fe d.addr : ZMod p) = (s.fe a.addr : ZMod p)⁻¹ ∧
      Kept B Slot.prog (dirty B (invWrites d)) s (st.run s) := by
  intro st
  have hka : Kept B Slot.prog (dirty B (invWrites d)) s (st.aim s) := aim_kept
  obtain ⟨h1, -, hd⟩ := st.aim_ptr s
  obtain ⟨hfe, -, hk⟩ := fe25519Inv_spec (hr.kept hka) h1 hd
  refine ⟨?_, hka.trans hk⟩
  have hcast := congrArg (Nat.cast (R := ZMod p)) hfe
  rw [ZMod.natCast_zmod_val, pow_p_sub_two] at hcast
  exact hcast

end FieldStep

/-- The machine holds the values. -/
def Holds (B : Build) (ρ : Values B) (s : Machine) : Prop :=
  ∀ b, ∀ z ∈ ρ b, (s.fe b.addr : ZMod p) = z

variable {ρ : Values B} {st : FieldStep B} {prog : List (FieldStep B)}

theorem FieldStep.eval_dst {routine : FieldRoutine} {a b d : FieldBuf B.mem} :
    FieldStep.eval ⟨routine, a, b, d⟩ ρ d = FieldStep.result ⟨routine, a, b, d⟩ ρ := by
  rw [FieldStep.eval, Function.update_self]

theorem FieldStep.eval_of_ne {f : FieldOp} {a b d e : FieldBuf B.mem} (h : e ≠ d) :
    FieldStep.eval ⟨.jsr f, a, b, d⟩ ρ e = ρ e := by
  rw [FieldStep.eval, Function.update_of_ne h, if_neg nofun]

/-- A step that writes its destination, and otherwise only buffers `ρ'` gives
no value. -/
theorem Holds.update {S : Slot → Bool} {W : FieldBuf B.mem → Prop} {ρ' : Values B}
    {o : Option (ZMod p)} (h : Holds B ρ s) (hk : Kept B S (dirty B W) s t)
    (hρ : ∀ b, b ≠ d → ∀ z ∈ ρ' b, z ∈ ρ b ∧ ¬ W b)
    (ho : ∀ z ∈ o, (t.fe d.addr : ZMod p) = z) : Holds B (Function.update ρ' d o) t := by
  intro b z hz
  rcases eq_or_ne b d with rfl | hne
  · rw [Function.update_self] at hz
    exact ho z hz
  · rw [Function.update_of_ne hne] at hz
    obtain ⟨hz', hW⟩ := hρ b hne z hz
    rw [← h b z hz']
    exact congrArg _ (hk.fe_eq fun i hi => not_dirty hW hi)

/-- The operands of a step, where they have values. -/
theorem Holds.operands (h : Holds B ρ s) {zs : List (ZMod p)}
    (hzs : (st.routine.reads.mapM fun x => ρ (st.buf x)) = some zs) :
    (st.operands s).map Nat.cast = zs := by
  rw [FieldStep.operands]
  generalize st.routine.reads = l at hzs
  induction l generalizing zs with
  | nil => 
    cases hzs
    rfl
  | cons x l ih =>
    rw [List.mapM_cons] at hzs
    obtain ⟨z, hz, hzs⟩ := Option.bind_eq_some_iff.1 hzs
    obtain ⟨zs', hzs', hcons⟩ := Option.bind_eq_some_iff.1 hzs
    cases hcons
    rw [List.map_cons, List.map_cons, ih hzs', h _ z hz]

/-- **A step in its range keeps the values.** -/
theorem Holds.step (hr : Ready B s) (hin : st.routine.InDomain (st.operands s))
    (h : Holds B ρ s) : Ready B (st.run s) ∧ Holds B (st.eval ρ) (st.run s) := by
  obtain ⟨routine, a, b, d⟩ := st
  cases routine with
  | jsr f =>
    set st : FieldStep B := ⟨.jsr f, a, b, d⟩ with hst
    obtain ⟨hfe, hk⟩ := FieldStep.run_jsr f a b d hr
    refine ⟨hr.kept hk, h.update hk (fun b hb z (hz : z ∈ ρ b) => ⟨hz, hb⟩) fun z hz => ?_⟩
    obtain ⟨zs, hzs, rfl⟩ := Option.map_eq_some_iff.1 hz
    have hlt : ∀ n ∈ st.operands s, n < 2 ^ 256 := fun n hn => by
      obtain ⟨x, -, rfl⟩ := List.mem_map.1 hn
      exact fe_lt
    rw [hfe, FieldOp.value_cast hlt (List.length_map _) hin, h.operands hzs]
  | fe25519Inv =>
    obtain ⟨hfe, hk⟩ := FieldStep.run_inv a b d hr
    refine ⟨hr.kept hk, h.update hk (fun b hb z (hz : z ∈ ρ.forget b) => ?_) fun z hz => ?_⟩
    · rw [Values.forget] at hz
      split at hz
      · cases hz
      · next hno => exact ⟨hz, fun hW => hW.elim hb hno⟩
    · obtain ⟨zs, hzs, rfl⟩ := Option.map_eq_some_iff.1 hz
      have hops := h.operands hzs
      rw [hfe, ← hops]
      rfl

/-! ## Whole programs -/

theorem Holds.steps (hr : Ready B s) (hin : InDomain prog s) (h : Holds B ρ s) :
    Ready B (runSteps prog s) ∧ Holds B (evalSteps prog ρ) (runSteps prog s) := by
  induction prog generalizing s ρ with
  | nil => exact ⟨hr, h⟩
  | cons st prog ih =>
    obtain ⟨hr', h'⟩ := h.step hr hin.1
    exact ih hr' hin.2 h'

/-- The last reduction, of the buffer `d`. -/
def reduceStep (d : FieldBuf B.mem) : FieldStep B := ⟨.jsr .fe25519ReduceFinal, d, d, d⟩

/-- **A program made in range computes its expression**: after any sequence
of calls, on any 32-byte operands in any buffers, one last reduction leaves
the canonical value of the expression in the field. -/
theorem fieldProgram_canonical (hr : Ready B s) (hin : InDomain prog s) {z : ZMod p}
    (hz : evalSteps prog (residuesIn B s) d = some z) :
    ((reduceStep d).run (runSteps prog s)).fe d.addr = z.val := by
  have hholds : Holds B (residuesIn B s) s := fun b z hz => Option.some.inj hz
  obtain ⟨hr', h⟩ := hholds.steps hr hin
  exact (FieldStep.run_jsr .fe25519ReduceFinal d d d hr').1.trans (mod_p_eq_val (h d z hz))

/-! ## Out of range -/

/-- The operands `2 ^ 254`, 2 and 0. -/
def outOfRangeStart : Machine :=
  storeBuf .standard .x25X1 (bytesOf (2 ^ 254)) (storeBuf .standard .x25X2 (bytesOf 2)
    (storeBuf .standard .x25X3 (bytesOf 0) (initialise .standard .loaded)))

/-- The program `0 - 2 ^ 254 * 2`. -/
def outOfRangeProg : List (FieldStep .standard) :=
  let own := MemMap.own Build.standard.mem
  [⟨.jsr .fe25519Mul, own .x25X1, own .x25X2, own .x25Z2⟩,
    ⟨.jsr .fe25519Sub, own .x25X3, own .x25Z2, own .x25Z3⟩]

theorem outOfRangeStart_spec : Ready .standard outOfRangeStart ∧
    outOfRangeStart.fe (Build.standard.mem.buf .x25X1) = 2 ^ 254 ∧
    outOfRangeStart.fe (Build.standard.mem.buf .x25X2) = 2 ∧
    outOfRangeStart.fe (Build.standard.mem.buf .x25X3) = 0 := by
  have hr := (initialise_usable loaded_loaded).ready
  refine ⟨((hr.kept storeBuf_kept).kept storeBuf_kept).kept storeBuf_kept, ?_, ?_, ?_⟩
  · exact storeBuf_bytesOf (by norm_num)
  · exact (storeBuf_fe_of_ne (by decide)).trans (storeBuf_bytesOf (by norm_num))
  · exact (storeBuf_fe_of_ne (by decide)).trans
      ((storeBuf_fe_of_ne (by decide)).trans (storeBuf_bytesOf (by norm_num)))

theorem cast_outOfRange : ((2 ^ 254 : ℕ) : ZMod p) * ((2 : ℕ) : ZMod p) = 19 := by
  rw [← Nat.cast_mul, show 2 ^ 254 * 2 = p + 19 by norm_num [p], Nat.cast_add, cast_p, zero_add]
  exact Nat.cast_ofNat

/-- **A product not reduced is no subtrahend**: from canonical operands, and
with the last result reduced, the program leaves 19 for the value `-19`. -/
theorem fieldProgram_noncanonical :
    let d := MemMap.own Build.standard.mem .x25Z3
    Ready .standard outOfRangeStart ∧
      evalSteps outOfRangeProg (residuesIn .standard outOfRangeStart) d = some (-19) ∧
      ((reduceStep d).run (runSteps outOfRangeProg outOfRangeStart)).fe d.addr = 19 ∧
      (19 : ℕ) ≠ (-19 : ZMod p).val := by
  intro d
  obtain ⟨hr, h1, h2, h3⟩ := outOfRangeStart_spec
  set s := outOfRangeStart with hs
  let own := MemMap.own Build.standard.mem
  -- the product
  obtain ⟨hmul, hk1⟩ := FieldStep.run_jsr .fe25519Mul (own .x25X1) (own .x25X2) (own .x25Z2) hr
  set s1 := FieldStep.run ⟨.jsr .fe25519Mul, own .x25X1, own .x25X2, own .x25Z2⟩ s with hs1
  have hz2 : s1.fe (own .x25Z2).addr = 2 ^ 255 := by
    refine hmul.trans ?_
    change reduceWide (s.fe (Build.standard.mem.buf .x25X1)
      * s.fe (Build.standard.mem.buf .x25X2)) = _
    rw [h1, h2]
    norm_num [reduceWide, fold38]
  have hx3 : s1.fe (own .x25X3).addr = 0 := by
    refine (hk1.fe_eq fun i hi => not_dirty (a := own .x25X3) ?_ hi).trans h3
    exact fun he => absurd (MemMap.own_inj.1 he) (by decide)
  -- the difference
  obtain ⟨hsub, hk2⟩ := FieldStep.run_jsr .fe25519Sub (own .x25X3) (own .x25Z2) d (hr.kept hk1)
  set s2 := FieldStep.run ⟨.jsr .fe25519Sub, own .x25X3, own .x25Z2, d⟩ s1 with hs2
  have hz3 : s2.fe d.addr = 2 ^ 256 - 19 := by
    refine hsub.trans ?_
    change subMod (s1.fe (own .x25X3).addr) (s1.fe (own .x25Z2).addr) = _
    rw [hx3, hz2]
    norm_num [subMod, p]
  have hrun : runSteps outOfRangeProg s = s2 := rfl
  refine ⟨hr, ?_, ?_, fun he => ?_⟩
  · have hne : own .x25X3 ≠ own .x25Z2 := fun he => absurd (MemMap.own_inj.1 he) (by decide)
    have hres : FieldStep.result ⟨.jsr .fe25519Sub, own .x25X3, own .x25Z2, d⟩
        (FieldStep.eval ⟨.jsr .fe25519Mul, own .x25X1, own .x25X2, own .x25Z2⟩
          (residuesIn .standard s))
        = some ((s.fe (Build.standard.mem.buf .x25X3) : ZMod p)
          - (s.fe (Build.standard.mem.buf .x25X1) : ZMod p)
            * (s.fe (Build.standard.mem.buf .x25X2) : ZMod p)) := by
      simp only [FieldStep.result, FieldRoutine.reads, FieldOp.reads, List.mapM_cons,
        List.mapM_nil, FieldStep.buf, FieldStep.eval_of_ne hne, FieldStep.eval_dst]
      rfl
    rw [h1, h2, h3, cast_outOfRange, Nat.cast_zero, zero_sub] at hres
    exact FieldStep.eval_dst.trans hres
  · rw [hrun]
    refine (FieldStep.run_jsr .fe25519ReduceFinal d d d ((hr.kept hk1).kept hk2)).1.trans ?_
    change s2.fe d.addr % p = 19
    rw [hz3]
    norm_num [p]
  · have hcast := congrArg (Nat.cast (R := ZMod p)) he
    rw [ZMod.natCast_zmod_val, Nat.cast_ofNat] at hcast
    exact cast_38_ne (by linear_combination hcast)

/-- The other way around the difference is in range. -/
theorem fieldProgram_canonical_inRange :
    let own := MemMap.own Build.standard.mem
    let s := outOfRangeStart
    let prog : List (FieldStep .standard) :=
      [⟨.jsr .fe25519Sub, own .x25X1, own .x25X3, own .x25Z2⟩,
        ⟨.fe25519Inv, own .x25Z2, own .x25Z2, own .x25Z3⟩]
    ((reduceStep (own .x25Z3)).run (runSteps prog s)).fe (own .x25Z3).addr
      = ((s.fe (own .x25X1).addr : ZMod p) - (s.fe (own .x25X3).addr : ZMod p))⁻¹.val := by
  intro own s prog
  obtain ⟨hr, -, -, h3⟩ := outOfRangeStart_spec
  have hin : s.fe (own .x25X3).addr ≤ s.fe (own .x25X1).addr + p := h3.le.trans (Nat.zero_le _)
  have hdom : InDomain prog s := ⟨hin, trivial, trivial⟩
  exact fieldProgram_canonical hr hdom rfl

end C64X25519
