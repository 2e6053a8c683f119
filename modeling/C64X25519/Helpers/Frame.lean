import C64X25519.Helpers.Layout
/-!
# What a field routine leaves alone

`Frame B D s t`: from `s` to `t` memory changed only at addresses in `D`,
page zero only in the working slots, and the pointers, the state of the bit
loop, the interrupt flag and the memory of the expansion unit not at all.
The relation is a preorder, each setter has its rule, and a loop has the
rule of its body.
-/

namespace C64X25519

section Var

variable {s : Machine} {x y : Var} {v : Byte}

theorem setVar_var_self : (s.setVar x v).var x = v := Function.update_self _ _ _

theorem setVar_var_of_ne (h : y ≠ x) : (s.setVar x v).var y = s.var y := Function.update_of_ne h _ _

end Var

/-- The slots a field routine works in: all but its pointers and the state
of the bit loop. -/
def Slot.work : Slot → Bool
  | fe25519Src1 | fe25519Src2 | fe25519Dst | x25PrevBit | x25ByteIdx | x25BitMask => false
  | _ => true

/-- The variables a field routine works in: all but the saved state of the
inversion. -/
def Var.work : Var → Bool
  | feInvDstLo | feInvDstHi | feInvSqrCnt => false
  | _ => true

/-- From `s` to `t` memory outside `D` is as it was, and so are page zero and the
variables but for the working ones, and the memory of the unit. -/
structure Frame (B : Build) (D : ℕ → Prop) (s t : Machine) : Prop where
  ram : ∀ a, ¬ D a → t.ram a = s.ram a
  zp : ∀ a, (∀ x : Slot, x.work → ¬ B.span x a) → t.zp a = s.zp a
  var : ∀ x : Var, x.work = false → t.var x = s.var x
  flagI : t.flagI = s.flagI
  mem : t.reu.mem = s.reu.mem
  live : t.reu.live = s.reu.live

namespace Frame

open Machine

variable {B : Build} {D D' : ℕ → Prop} {s t u : Machine} {x : Slot} {v : Byte} {a k : ℕ}

@[refl] theorem refl (s : Machine) : Frame B D s s :=
  ⟨fun _ _ => rfl, fun _ _ => rfl, fun _ _ => rfl, rfl, rfl, rfl⟩

theorem trans (h : Frame B D s t) (h' : Frame B D t u) : Frame B D s u where
  ram a ha := (h'.ram a ha).trans (h.ram a ha)
  zp a ha := (h'.zp a ha).trans (h.zp a ha)
  var x hx := (h'.var x hx).trans (h.var x hx)
  flagI := h'.flagI.trans h.flagI
  mem := h'.mem.trans h.mem
  live := h'.live.trans h.live

theorem mono (hD : ∀ a, D a → D' a) (h : Frame B D s t) : Frame B D' s t where
  ram a ha := h.ram a fun hd => ha (hD a hd)
  zp := h.zp
  var := h.var
  flagI := h.flagI
  mem := h.mem
  live := h.live

/-! ## One rule for each setter -/

theorem setZp (hx : x.work = true) (hk : k < x.size) (h : Frame B D s t) :
    Frame B D s (t.setZp (B.slot x + k) v) where
  ram := h.ram
  zp a ha := by
    rw [← h.zp a ha]
    refine Function.update_of_ne ?_ _ _
    rintro rfl
    exact ha x hx (Build.span_slot hk)
  var := h.var
  flagI := h.flagI
  mem := h.mem
  live := h.live

theorem setSlot (hx : x.work = true) (h : Frame B D s t) : Frame B D s (t.setZp (B.slot x) v) :=
  setZp (k := 0) hx x.size_pos h

theorem setRam (ha : D a) (h : Frame B D s t) : Frame B D s (t.setRam a v) where
  ram b hb := by
    rw [← h.ram b hb]
    refine Function.update_of_ne ?_ _ _
    rintro rfl
    exact hb ha
  zp := h.zp
  var := h.var
  flagI := h.flagI
  mem := h.mem
  live := h.live

theorem setVar {x : Var} (hx : x.work = true) (h : Frame B D s t) :
    Frame B D s (t.setVar x v) where
  ram := h.ram
  zp := h.zp
  var y hy := by
    rw [← h.var y hy]
    refine Function.update_of_ne ?_ _ _
    rintro rfl
    rw [hx] at hy
    cases hy
  flagI := h.flagI
  mem := h.mem
  live := h.live

theorem patchLo {l : List Site} (h : Frame B D s t) : Frame B D s (t.patchLo l v) :=
  ⟨h.ram, h.zp, h.var, h.flagI, h.mem, h.live⟩

theorem patchHi {l : List Site} (h : Frame B D s t) : Frame B D s (t.patchHi l v) :=
  ⟨h.ram, h.zp, h.var, h.flagI, h.mem, h.live⟩

theorem patchPtr {l : List Site} (h : Frame B D s t) : Frame B D s (t.patchPtr B l x) :=
  h.patchLo.patchHi

theorem setTramp {i : SqrInner} (h : Frame B D s t) : Frame B D s (t.setTramp i) :=
  ⟨h.ram, h.zp, h.var, h.flagI, h.mem, h.live⟩

theorem setReu {r : Reu} (hm : r.mem = t.reu.mem) (hl : r.live = t.reu.live)
    (h : Frame B D s t) : Frame B D s (t.setReu r) :=
  ⟨h.ram, h.zp, h.var, h.flagI, hm.trans h.mem, hl.trans h.live⟩

theorem writeReg {r : Reg} (h : Frame B D s t) : Frame B D s (t.writeReg r v) :=
  setReu rfl rfl h

/-! ## Reading through a frame -/

theorem zp_slot (h : Frame B D s t) (hx : x.work = false) (hk : k < x.size) :
    t.zp (B.slot x + k) = s.zp (B.slot x + k) :=
  h.zp _ fun y hy => Build.not_span (fun he => by rw [he, hx] at hy; cases hy) hk

theorem ptr (h : Frame B D s t) (hx : x.work = false) (h2 : x.size = 2) :
    t.ptr B x = s.ptr B x := by
  have h0 := h.zp_slot (k := 0) hx (by omega)
  have h1 := h.zp_slot (k := 1) hx (by omega)
  rw [Machine.ptr, Machine.ptr, h1]
  exact congrArg (_ + BitVec.toNat ·) h0

theorem fe_eq (h : Frame B D s t) (hD : ∀ i, i < 32 → ¬ D (a + i)) : t.fe a = s.fe a :=
  leNat_congr fun i hi => h.ram _ (hD i hi)

end Frame

end C64X25519
