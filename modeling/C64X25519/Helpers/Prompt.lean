import C64X25519.Helpers.Init
/-!
# Transfers that complete at once

Where every read of the status register shows a completed transfer and no
fault, settling takes its short path each time, and the variables it
reports with keep their values.
-/

namespace C64X25519

open Machine

variable {B : Build} {s t u : Machine}

/-- Every read of the status register will show a completed transfer. -/
def Completes (s : Machine) : Prop := ∀ n, s.reu.status n &&& 0x60 = 0x40

/-- From `s` to `t` the settle variables keep their values, if the
transfers complete. -/
def Prompt (s t : Machine) : Prop :=
  Completes s → Completes t ∧ ∀ x ∈ settleVars, t.var x = s.var x

namespace Prompt

variable {x : Var} {v : Byte} {a : ℕ} {l : List Site} {r : Reg}

@[refl] theorem refl (s : Machine) : Prompt s s := fun h => ⟨h, fun _ _ => rfl⟩

theorem trans (h : Prompt s t) (h' : Prompt t u) : Prompt s u := by
  intro hs
  obtain ⟨ht, hv⟩ := h hs
  obtain ⟨hu, hv'⟩ := h' ht
  exact ⟨hu, fun x hx => (hv' x hx).trans (hv x hx)⟩

theorem setVar (hx : x ∉ settleVars) (h : Prompt s t) : Prompt s (t.setVar x v) := by
  intro hs
  obtain ⟨ht, hv⟩ := h hs
  refine ⟨ht, fun y hy => ?_⟩
  rw [setVar_var_of_ne (by rintro rfl; exact hx hy)]
  exact hv y hy

theorem setRam (h : Prompt s t) : Prompt s (t.setRam a v) := h

theorem patchLo (h : Prompt s t) : Prompt s (t.patchLo l v) := h

theorem patchHi (h : Prompt s t) : Prompt s (t.patchHi l v) := h

theorem writeReg (h : Prompt s t) : Prompt s (t.writeReg r v) := h

theorem writeC64 (h : Prompt s t) : Prompt s (writeC64 a t) := h.writeReg.writeReg

theorem reuCommand {cmd : Byte} (h : Prompt s t) : Prompt s (t.reuCommand cmd) := by
  unfold Machine.reuCommand
  extract_lets r
  split
  · exact h
  · exact h

/-- The short path reads the status register once. -/
theorem reuSettle (h : Prompt s t) : Prompt s (reuSettle B t) := by
  intro hs
  obtain ⟨ht, hv⟩ := h hs
  have hread : C64X25519.reuSettle B t = t.readStatus.2 := by
    unfold C64X25519.reuSettle
    simp only
    refine if_pos ?_
    rw [show t.readStatus.1 = t.reu.status 0 from rfl, ht 0]
    rfl
  rw [hread]
  exact ⟨fun n => ht (n + 1), hv⟩

theorem stash (h : Prompt s t) : Prompt s (stash B t) := h.reuCommand.reuSettle

end Prompt

/-! ## The routines of the initialisers -/

theorem ctMul8x8_prompt (y : Byte) (s : Machine) : Prompt s (ctMul8x8 B y s) := by
  unfold ctMul8x8
  extract_lets sum lo s1 hi s2 diff s3 mask s4 abs pl s5 ph
  have h3 : Prompt s s3 := (Prompt.refl s).patchHi.patchHi.setVar (by decide)
  have h5 : Prompt s s5 := (h3.setVar (by decide)).setVar (by decide)
  exact h5.setVar (by decide)

theorem reuMulEntry_prompt (s : Machine) : Prompt s (reuMulEntry B s).1 := by
  unfold reuMulEntry
  extract_lets s1 x s2 s3 s4
  have h1 : Prompt s s1 := ctMul8x8_prompt _ s
  exact h1.setRam.setRam.setVar (by decide)

theorem reuMulStash_prompt (s : Machine) : Prompt s (reuMulStash B s) := by
  unfold reuMulStash
  extract_lets s1 r s2 s3 s4 s5 r' s6 s7
  have h1 : Prompt s s1 := (Prompt.refl s).writeC64.writeReg
  have h4 : Prompt s s4 := h1.writeReg.writeReg.writeReg.writeReg.writeReg.stash
  have h7 : Prompt s s7 := h4.writeC64.writeReg.writeReg.writeReg
  exact h7.writeReg.writeReg.writeReg.stash

theorem doubleEntry_prompt (x : ℕ) (s : Machine) : Prompt s (doubleEntry B x s) :=
  (Prompt.refl s).setRam.setRam.setRam

theorem x25519DblStashRow_prompt (row : Var) (s : Machine) :
    Prompt s (x25519DblStashRow B row s) := by
  unfold x25519DblStashRow
  extract_lets s0 s1 r s2 s3 s4 u1 s5 r' s6 s7 u2 s8 s9 s10
  have h0 : Prompt s s0 :=
    loopUp_inv (fun _ t => Prompt s t) (Prompt.refl s)
      fun k _ t ht => ht.trans (doubleEntry_prompt k t)
  have h4 : Prompt s s4 := h0.writeC64.writeReg.writeReg.writeReg.writeReg.writeReg.writeReg
  have h5 : Prompt s u1 := h4.writeReg.stash
  have h7 : Prompt s s7 := h5.writeC64.writeReg.writeReg.writeReg
  have h8 : Prompt s u2 := h7.writeReg.writeReg.writeReg.stash
  have h10 : Prompt s s10 := h8.writeC64.writeReg.writeReg.writeReg
  exact h10.writeReg.writeReg.writeReg.stash

theorem reuMulOuter_prompt (s : Machine) : Prompt s (reuMulOuter B s).1 := by
  unfold reuMulOuter
  extract_lets s1 s2 s3 s4 s5 s6
  have h2 : Prompt s s2 := (Prompt.refl s).patchLo.setVar (by decide)
  have h3 : Prompt s s3 :=
    doWhile_preserves (Prompt s) h2 fun t ht => ht.trans (reuMulEntry_prompt t)
  have h4 : Prompt s s4 := h3.trans (reuMulStash_prompt s3)
  have h5 : Prompt s s5 := by
    simp only [s5]
    split
    · exact h4.trans (x25519DblStashRow_prompt _ s4)
    · exact h4
  exact h5.setVar (by decide)

/-- **Where every transfer completes, `reu_mul_init` reports no fault** and
leaves the rest of what settling works with as it was. -/
theorem reuMulInit_prompt (h : Completes s) : Completes (reuMulInit B s) ∧
    ∀ x ∈ settleVars, (reuMulInit B s).var x = if x = .x25519ReuFault then 0 else s.var x := by
  obtain ⟨t, ht⟩ : ∃ t, t = (s.setVar .x25519ReuFault 0).setVar .reuInitA 0 := ⟨_, rfl⟩
  have hrow : Prompt t (doWhile (reuMulOuter B) 0x100 t) :=
    doWhile_preserves (Prompt t) (Prompt.refl t) fun u hu => hu.trans (reuMulOuter_prompt u)
  have hloop : Prompt t (reuMulInit B s) := by
    rw [reuMulInit, ← ht]
    exact hrow.writeC64.writeReg.writeReg.writeReg.writeReg
  rw [ht] at hloop
  obtain ⟨hc, hv⟩ := hloop h
  refine ⟨hc, fun x hx => (hv x hx).trans ?_⟩
  rw [setVar_var_of_ne (by rintro rfl; revert hx; decide)]
  split
  · next he => rw [he, setVar_var_self]
  · next he => exact setVar_var_of_ne he

end C64X25519
