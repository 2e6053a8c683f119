import C64X25519.Helpers.Operands
/-!
# The scalar multiplication

`x25519_scalarmult` computes the ladder of RFC 7748 on the canonical input,
and through every turn of it the additions and subtractions stay inside the
ranges in which they are right.
-/

namespace C64X25519

open Machine

variable {B : Build} {s : Machine}

/-! ## The result -/

/-- Bit 255 of the scalar is not among the bits of the ladder. -/
theorem ladderBits_mod (n : ℕ) : ladderBits (n % 2 ^ 255) 255 = ladderBits n 255 := by
  refine List.map_congr_left fun j _ => ?_
  rw [Nat.testBit_mod_two_pow, decide_eq_true (by omega), Bool.true_and]

theorem x25519_mod (n : ℕ) (u : ZMod p) : x25519 (n % 2 ^ 255) u = x25519 n u := by
  rw [x25519, x25519, ladderBits_mod]

/-- **`x25519_scalarmult` is X25519** on the low 255 bits of the scalar and
of the coordinate, in canonical form, whatever else the machine holds; and
it leaves its inputs and the caller's interrupt flag as they were. -/
theorem x25519Scalarmult_correct (hr : Ready B s) :
    (x25519Scalarmult B s).fe (B.mem.buf .x25Result)
        = (x25519 (s.fe (B.mem.buf .x25Scalar) % 2 ^ 255)
          ((s.fe (B.mem.buf .x25U) % 2 ^ 255 : ℕ) : ZMod p)).val ∧
      (x25519Scalarmult B s).fe (B.mem.buf .x25Result) < p ∧
      (∀ i, i < 32 → (x25519Scalarmult B s).ram (B.mem.buf .x25U + i)
        = s.ram (B.mem.buf .x25U + i)) ∧
      (∀ i, i < 32 → (x25519Scalarmult B s).ram (B.mem.buf .x25Scalar + i)
        = s.ram (B.mem.buf .x25Scalar + i)) ∧
      (x25519Scalarmult B s).flagI = s.flagI := by
  obtain ⟨hres, hk⟩ := x25519Scalarmult_spec hr
  have hbyte : ∀ b : Buf, b ∉ x25519Bufs → ∀ i, i < 32 →
      (x25519Scalarmult B s).ram (B.mem.buf b + i) = s.ram (B.mem.buf b + i) := fun b hb i hi =>
    hk.ram _ (not_dirty (a := B.mem.own b) (not_ownIn hb) hi)
  refine ⟨?_, ?_, hbyte _ (by decide), hbyte _ (by decide), hk.flagI⟩
  · rw [x25519_mod, hres, scalar, uCoord]
  · rw [hres]
    exact ZMod.val_lt _

/-- A machine with a scalar and a coordinate that have bit 255 set. -/
def ladderInput : Machine :=
  storeBuf .standard .x25U (bytesOf (2 ^ 255 + 9)) (storeBuf .standard .x25Scalar
    (bytesOf (2 ^ 255 + 2 ^ 254 + 8)) (tablesInit .standard .blank))

theorem ladderInput_ready : Ready .standard ladderInput :=
  (blank_ready.kept storeBuf_kept).kept storeBuf_kept

theorem ladderInput_fe :
    ladderInput.fe (Build.standard.mem.buf .x25Scalar) = 2 ^ 255 + 2 ^ 254 + 8 ∧
      ladderInput.fe (Build.standard.mem.buf .x25U) = 2 ^ 255 + 9 :=
  ⟨(storeBuf_fe_of_ne (by decide)).trans (storeBuf_bytesOf (by norm_num)),
    storeBuf_bytesOf (by norm_num)⟩

/-- Both bits are masked: the multiplication of the point nine by
`2 ^ 254 + 8`. -/
theorem x25519Scalarmult_correct_masked :
    let s := ladderInput
    let t := x25519Scalarmult .standard s
    let a := Build.standard.mem.buf
    s.fe (a .x25Scalar) % 2 ^ 255 = 2 ^ 254 + 8 ∧ s.fe (a .x25U) % 2 ^ 255 = 9 ∧
      t.fe (a .x25Result) = (x25519 (s.fe (a .x25Scalar) % 2 ^ 255)
        ((s.fe (a .x25U) % 2 ^ 255 : ℕ) : ZMod p)).val ∧
      t.fe (a .x25Result) < p ∧
      (∀ i, i < 32 → t.ram (a .x25U + i) = s.ram (a .x25U + i)) ∧
      (∀ i, i < 32 → t.ram (a .x25Scalar + i) = s.ram (a .x25Scalar + i)) ∧
      t.flagI = s.flagI :=
  ⟨by rw [ladderInput_fe.1]; norm_num, by rw [ladderInput_fe.2]; norm_num,
    x25519Scalarmult_correct ladderInput_ready⟩

/-! ## The pruned reductions -/

/-- The state turn `k` of a run hands to the ladder step, its swaps done. -/
def stepState (B : Build) (s : Machine) (k : ℕ) : Machine :=
  ladderSwap B (ladderTurn B (ladderStart B s) k)

/-- What a ladder step does to the state `s`. -/
structure StepDone (B : Build) (s t : Machine) : Prop where
  /-- The formulas of the step, on residues. -/
  coords : residueCoords B t
    = (residueCoords B s).step 121665 (s.fe (B.mem.buf .x25X1) : ZMod p)
  /-- `z2` and `z3` below `p`. -/
  canonical : Canonical B t
  x2 : t.fe (B.mem.buf .x25X2) < 2 ^ 256
  x3 : t.fe (B.mem.buf .x25X3) < 2 ^ 256
  inputs : ∀ b ∈ [Buf.x25X1, .x25Scalar, .x25U], t.fe (B.mem.buf b) = s.fe (B.mem.buf b)
  /-- Every call of `fe25519_add` and `fe25519_sub` in its range. -/
  inRange : InRange B B.mem.buf ladderStepCode s

theorem x25519LadderStep_done (hr : Ready B s) (hz : Canonical B s) :
    StepDone B s (x25519LadderStep B s) := by
  obtain ⟨hc, hcan, hk, hrange⟩ := x25519LadderStep_spec hr hz
  refine ⟨hc, hcan, fe_lt, fe_lt, fun b hb => hk.own_fe ?_, hrange⟩
  revert b
  decide

/-- The turns of a run: the states between them, and the step each makes. -/
theorem ladderTurn_done (hr : Ready B s) {k : ℕ} (hk : k < 255) :
    ladderTurn B (ladderStart B s) (k + 1)
        = (ladderNext B (x25519LadderStep B (stepState B s k))).1 ∧
      Canonical B (stepState B s k) ∧
      StepDone B (stepState B s k) (x25519LadderStep B (stepState B s k)) := by
  obtain ⟨hr0, h0, -, -⟩ := ladderStart_spec hr
  have hturn := ladderTurn_spec hr0 h0 hk.le
  obtain ⟨-, hcan, -, -, hkept⟩ := ladderSwap_spec hturn hk
  refine ⟨?_, hcan, x25519LadderStep_done (hr0.kept (hturn.kept.trans hkept)) hcan⟩
  rw [ladderTurn, Function.iterate_succ_apply']
  rfl

/-- **The pruning of the ladder is sound.** A step from canonical `z`
coordinates is the step of the ladder and leaves them canonical; and every
run goes through 255 steps from such states, so that no addition or
subtraction of it leaves its range. -/
theorem x25519LadderStep_pruning (hr : Ready B s) :
    (Canonical B s → StepDone B s (x25519LadderStep B s)) ∧
      x25519Scalarmult B s
        = (ladderFinish B (ladderTurn B (ladderStart B s) 255)).setFlagI s.flagI ∧
      ∀ k, k < 255 →
        ladderTurn B (ladderStart B s) (k + 1)
          = (ladderNext B (x25519LadderStep B (stepState B s k))).1 ∧
        Canonical B (stepState B s k) ∧
        StepDone B (stepState B s k) (x25519LadderStep B (stepState B s k)) := by
  obtain ⟨hr0, h0, -, -⟩ := ladderStart_spec hr
  refine ⟨x25519LadderStep_done hr, ?_, fun k hk => ladderTurn_done hr hk⟩
  rw [← ladderLoop_eq hr0 h0]
  rfl

/-- The pruning at the state a run enters its loop in. -/
theorem x25519LadderStep_pruning_entry :
    let s := ladderStart .standard ladderInput
    StepDone .standard s (x25519LadderStep .standard s) ∧
      x25519Scalarmult .standard s
        = (ladderFinish .standard (ladderTurn .standard (ladderStart .standard s) 255)).setFlagI
          s.flagI ∧
      ∀ k, k < 255 →
        ladderTurn .standard (ladderStart .standard s) (k + 1)
          = (ladderNext .standard (x25519LadderStep .standard (stepState .standard s k))).1 ∧
        Canonical .standard (stepState .standard s k) ∧
        StepDone .standard (stepState .standard s k)
          (x25519LadderStep .standard (stepState .standard s k)) :=
  have h := ladderStart_spec ladderInput_ready
  have hp := x25519LadderStep_pruning h.1
  ⟨hp.1 h.2.1.canonical, hp.2⟩

end C64X25519
