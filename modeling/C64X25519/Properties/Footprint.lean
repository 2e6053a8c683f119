import C64X25519.Properties.Timing
/-!
# What a session leaves alone

A session changes memory only where its steps may write: the buffers its
calls name, the working memory of the library, and the bytes the caller
writes itself. Of page zero only the slots of the library change, and the
memory of the expansion unit and the interrupt flag not at all.
-/

namespace C64X25519

open Machine

variable {B : Build} {L : Link} {s : Core} {m t u : Machine} {e : Event} {es : List Event}

/-! ## Where steps write -/

/-- The memory a step made in the state `m` may change. -/
def Event.ramSpan (B : Build) (m : Machine) : Event → ℕ → Prop
  | .call c, x => dirty B (c.touched B m) x
  | .writeRam a _, x => x = a
  | _, _ => False

/-- The bytes of page zero a step may change. -/
def Event.zpSpan (B : Build) (_ : Machine) : Event → ℕ → Prop
  | .call _, x => ∃ y : Slot, B.span y x
  | .writeZp a _, x => x = a
  | _, _ => False

/-- What the steps of a session may change, each in the state it is made
in. -/
def spanFrom (B : Build) (span : Machine → Event → ℕ → Prop) : List Event → Machine → ℕ → Prop
  | [], _, _ => False
  | e :: es, m, x => span m e x ∨ spanFrom B span es (e.run B m) x

/-- From `m` to `t` memory has changed only in `D`, page zero only in `Z`,
and the interrupt flag and the memory of the expansion unit not at all. -/
structure LeftAlone (D Z : ℕ → Prop) (m t : Machine) : Prop where
  ram : ∀ x, ¬ D x → t.ram x = m.ram x
  zp : ∀ x, ¬ Z x → t.zp x = m.zp x
  flagI : t.flagI = m.flagI
  mem : t.reu.mem = m.reu.mem
  live : t.reu.live = m.reu.live

theorem LeftAlone.refl {D Z : ℕ → Prop} (m : Machine) : LeftAlone D Z m m :=
  ⟨fun _ _ => rfl, fun _ _ => rfl, rfl, rfl, rfl⟩

/-- One change after another. -/
theorem LeftAlone.trans {D D' Z Z' : ℕ → Prop} (h : LeftAlone D Z m t)
    (h' : LeftAlone D' Z' t u) : LeftAlone (fun x => D x ∨ D' x) (fun x => Z x ∨ Z' x) m u where
  ram x hx := by
    rw [not_or] at hx
    exact (h'.ram x hx.2).trans (h.ram x hx.1)
  zp x hx := by
    rw [not_or] at hx
    exact (h'.zp x hx.2).trans (h.zp x hx.1)
  flagI := h'.flagI.trans h.flagI
  mem := h'.mem.trans h.mem
  live := h'.live.trans h.live

/-- **A step** changes what it may. -/
theorem Event.leftAlone (h : Usable B m) (hv : e.Valid B m) :
    LeftAlone (e.ramSpan B m) (e.zpSpan B m) m (e.run B m) := by
  cases e with
  | call c =>
    have hk := (Call.run_spec h.ready h.basepoint hv).kept
    refine ⟨hk.ram, fun x hx => hk.zp x fun y _ hy => hx ⟨y, hy⟩, hk.flagI, hk.mem, hk.live⟩
  | writeReg y v => exact ⟨fun _ _ => rfl, fun _ _ => rfl, rfl, rfl, rfl⟩
  | writeZp a v =>
    exact ⟨fun _ _ => rfl, fun x hx => Function.update_of_ne hx _ _, rfl, rfl, rfl⟩
  | writeRam a v =>
    exact ⟨fun x hx => Function.update_of_ne hx _ _, fun _ _ => rfl, rfl, rfl, rfl⟩
  | writeVar y v => exact ⟨fun _ _ => rfl, fun _ _ => rfl, rfl, rfl, rfl⟩

/-- **A run of steps** changes what they may. -/
theorem ValidFrom.leftAlone (h : Reached B m) (hv : ValidFrom B es m) :
    LeftAlone (spanFrom B (fun m e => e.ramSpan B m) es m)
      (spanFrom B (fun m e => e.zpSpan B m) es m) m
      (es.foldl (fun m e => e.run B m) m) := by
  induction es generalizing m with
  | nil => exact .refl m
  | cons e es ih =>
    have hstep : LeftAlone (e.ramSpan B m) (e.zpSpan B m) m (e.run B m) :=
      Event.leftAlone h.usable hv.1
    have hrest := ih (h.step ⟨e, hv.1, rfl⟩) hv.2
    exact hstep.trans hrest

/-! ## Sessions -/

/-- **The footprint of a session** on the processor, from any state a caller
reaches: where it ends, memory and page zero are as they were but for what
its steps may change in the states they are made in, and the interrupt flag,
the memory of the expansion unit and the stack are as they were. -/
theorem session_footprint (h : Reached B s.m) (hv : ValidFrom B es s.m) :
    ∃ t l, session B L es s = some (t, l) ∧
      LeftAlone (spanFrom B (fun m e => e.ramSpan B m) es s.m)
        (spanFrom B (fun m e => e.zpSpan B m) es s.m) s.m t.m ∧
      t.stack = s.stack := by
  obtain ⟨t, hrun, htm, hts⟩ := session_spec (L := L) h.usable hv
  refine ⟨t, _, hrun, ?_, hts⟩
  rw [htm]
  exact hv.leftAlone h

/-- A byte of the scalar written, and the base point multiplied. -/
theorem session_footprint_base :
    let s := Core.rest (initialise .standard .loaded)
    let es := [Event.writeRam (Build.standard.mem.buf .x25Scalar) 0, .call .x25519Base]
    ∃ t l, session .standard .plain es s = some (t, l) ∧
      LeftAlone (spanFrom .standard (fun m e => e.ramSpan .standard m) es s.m)
        (spanFrom .standard (fun m e => e.zpSpan .standard m) es s.m) s.m t.m ∧
      t.stack = s.stack := by
  intro s es
  have hkept : ¬ Build.standard.mem.kept (Build.standard.mem.buf .x25Scalar) := by
    simp only [MemMap.kept]
    decide
  exact session_footprint loaded_loaded.reached ⟨hkept, x25519Base_valid _, trivial⟩

end C64X25519
