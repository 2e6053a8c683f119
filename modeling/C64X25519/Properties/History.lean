import C64X25519.Helpers.Calls
/-!
# Calls in any order

Whatever a caller does between its calls, the library stays ready, so each
call computes its function: its outputs depend on its documented inputs and
on nothing an earlier call has left behind.
-/

namespace C64X25519

open Machine Relation

variable {B : Build} {s t : Machine} {c : Call}

/-! ## The invariant -/

/-- What every call relies on. -/
structure Usable (B : Build) (s : Machine) : Prop where
  ready : Ready B s
  basepoint : BasePoint B s

/-- No call under its contract writes the base point. -/
theorem Call.not_touched (hv : c.Valid B s) : ¬ c.touched B s (B.mem.own .x25Basepoint) := by
  rintro (⟨x, hx, he⟩ | hown)
  · exact hv.basepoint x hx he
  · refine not_ownIn ?_ hown
    cases c <;> first | exact List.not_mem_nil | decide

theorem Usable.call (h : Usable B s) (hv : c.Valid B s) : Usable B (c.run B s) := by
  have hk := (Call.run_spec h.ready h.basepoint hv).kept
  refine ⟨h.ready.kept hk, ?_⟩
  rw [BasePoint, ← h.basepoint]
  exact hk.fe_eq fun i hi => not_dirty (a := B.mem.own .x25Basepoint) (Call.not_touched hv) hi

/-- A change that keeps the memory of the unit, and whatever of memory a
caller leaves alone. -/
theorem Usable.congr (h : Usable B s) (hram : ∀ a, B.mem.kept a → t.ram a = s.ram a)
    (hmem : t.reu.mem = s.reu.mem) (hlive : t.reu.live = s.reu.live) : Usable B t := by
  refine ⟨⟨⟨fun n hn => ?_, fun n hn => ?_⟩, fun hb => hlive.trans (h.ready.live hb), fun hb => ?_,
    fun hK => ?_, ?_⟩, ?_⟩
  · rw [hram _ (.inl ⟨by simp only [MemMap.sqtabLo]; omega, by simp only [MemMap.sqtabLo]; omega⟩)]
    exact h.ready.sqtab.lo n hn
  · rw [hram _ (.inl ⟨by simp only [MemMap.sqtabHi]; omega, by simp only [MemMap.sqtabHi]; omega⟩)]
    exact h.ready.sqtab.hi n hn
  · have hm := h.ready.mulRows hb
    exact ⟨by rw [hmem]; exact hm.lo, by rw [hmem]; exact hm.hi⟩
  · have hm := h.ready.doubled hK
    exact ⟨by rw [hmem]; exact hm.lo, by rw [hmem]; exact hm.hi, by rw [hmem]; exact hm.carry⟩
  · rw [hram _ (.inr (.inr (.inr (.inr (.inr rfl)))))]
    exact h.ready.guard
  · rw [BasePoint, ← h.basepoint]
    refine leNat_congr fun i hi => hram _ (.inr (.inr (.inl ?_)))
    have hoff : Buf.x25Basepoint.offset = 0x200 := rfl
    simp only [MemMap.buf, hoff]
    omega

/-- **No step of a caller breaks the library.** -/
theorem Usable.step (h : Usable B s) (hst : CallerStep B s t) : Usable B t := by
  obtain ⟨e, hv, rfl⟩ := hst
  cases e with
  | call c => exact h.call hv
  | writeReg x v => exact h.congr (fun _ _ => rfl) rfl rfl
  | writeZp a v => exact h.congr (fun _ _ => rfl) rfl rfl
  | writeVar x v => exact h.congr (fun _ _ => rfl) rfl rfl
  | writeRam a v =>
    refine h.congr (fun b hb => Function.update_of_ne ?_ _ _) rfl rfl
    rintro rfl
    exact hv hb

/-- Nor does any run. -/
theorem Usable.run (h : Usable B s) (hrun : ReflTransGen (CallerStep B) s t) : Usable B t :=
  run_preserves (Usable B) (fun _ _ hst hs => hs.step hst) hrun h

/-- A build behind `sqtab_init`: a unit that answers, where there is one, the
quarter squares, and the bytes of `data.s` every call relies on. -/
structure Booted (B : Build) (s : Machine) : Prop where
  live : B.onchip = false → s.reu.live = true
  sqtab : Sqtab B s
  basepoint : BasePoint B s
  guard : s.ram (B.mem.mulSrc2Buf + 32) = 0

/-- Past the initialisers nothing but the staging pages has changed in
memory, so the base point is in place. -/
theorem BasePoint.boot {V : List Var} (h : BasePoint B s) (hb : Boot V B.mem.staging s t) :
    BasePoint B t := by
  obtain ⟨⟨hds, -, -⟩, -⟩ := B.mem.regions_apart
  have hoff : Buf.x25Basepoint.offset = 0x200 := rfl
  rw [BasePoint, ← h]
  refine leNat_congr fun i hi => hb.ram _ ?_
  simp only [Apart, MemMap.staging, MemMap.buf, hoff] at *
  omega

/-- With the tables of the unit built, the library is usable. -/
theorem reuMulInit_usable (hon : B.onchip = false) (h : Booted B s) :
    Usable B (reuMulInit B s) := by
  have hinit := reuMulInit_spec (h.live hon) h.sqtab
  obtain ⟨⟨hds, -, -⟩, -⟩ := B.mem.regions_apart
  simp only [Apart] at hds
  refine ⟨⟨h.sqtab.boot hinit.boot, fun _ => ?_, fun _ => MulRowAt.rows hinit.rows,
    fun hK => DblRowAt.rows (hinit.dbl hK), ?_⟩, h.basepoint.boot hinit.boot⟩
  · rw [hinit.boot.live, h.live hon]
  · rw [hinit.boot.ram _ (by simp only [MemMap.staging, MemMap.mulSrc2Buf]; omega), h.guard]

/-- The first initialiser boots the library. -/
theorem sqtabInit_booted (h : Loaded B s) : Booted B (sqtabInit B s) := by
  obtain ⟨⟨hds, hdq, -⟩, -⟩ := B.mem.regions_apart
  obtain ⟨hq, -, -, hboot⟩ := sqtabInit_spec (B := B) s
  have hoff : Buf.x25Basepoint.offset = 0x200 := rfl
  simp only [Apart] at hdq
  refine ⟨fun hon => by rw [hboot.live, h.live hon], hq, ?_, ?_⟩
  · rw [BasePoint, ← h.basepoint]
    refine leNat_congr fun i hi => hboot.ram _ ?_
    simp only [MemMap.table, MemMap.buf, hoff]
    omega
  · rw [hboot.ram _ (by simp only [MemMap.table, MemMap.mulSrc2Buf]; omega), h.guard]

/-- Without a unit the quarter squares are enough. -/
theorem Booted.usable (hon : B.onchip = true) (h : Booted B s) : Usable B s :=
  ⟨⟨h.sqtab, h.live, fun hb => absurd (hon.symm.trans hb) (by decide),
    fun hK => absurd (B.sqrDmaK_onchip hon) hK, h.guard⟩, h.basepoint⟩

theorem initialise_usable (h : Loaded B s) : Usable B (initialise B s) := by
  unfold initialise
  split
  · next hon => exact (sqtabInit_booted h).usable hon
  · next hon => exact reuMulInit_usable (by simpa using hon) (sqtabInit_booted h)

/-- **The invariant of every run.** -/
theorem Reached.usable (h : Reached B s) : Usable B s := by
  obtain ⟨r, hr, hrun⟩ := h
  exact (initialise_usable hr).run hrun

/-! ## History independence -/

/-- **A call's outputs are a function of its inputs**, after any history of
calls and writes; so two calls with the same inputs, one of them right after
initialisation or wherever else, leave the same bytes. -/
theorem Reached.outputs_eq (h : Reached B s) (hv : c.Valid B s) :
    c.outputs B s (c.run B s) = c.fn (c.inputs B s) ∧
      ∀ t, Reached B t → c.Valid B t → c.inputs B t = c.inputs B s →
        c.outputs B t (c.run B t) = c.outputs B s (c.run B s) := by
  have hs := (Call.run_spec h.usable.ready h.usable.basepoint hv).outputs
  refine ⟨hs, fun t ht hvt hin => ?_⟩
  rw [(Call.run_spec ht.usable.ready ht.usable.basepoint hvt).outputs, hin, hs]

/-- The blank machine with the base point in place. -/
def Machine.loaded : Machine := Machine.blank.setRam (Build.standard.mem.buf .x25Basepoint) 9

theorem loaded_loaded : Loaded .standard .loaded := by
  refine ⟨fun _ => rfl, ?_, ?_⟩
  · have hfe := fe_setRam_bottom (s := .blank) (k := Build.standard.mem.buf .x25Basepoint) (v := 9)
    have hz : Machine.blank.fe (Build.standard.mem.buf .x25Basepoint) = 0 := Radix.value_const_zero
    have h0 : (Machine.blank.ram (Build.standard.mem.buf .x25Basepoint)).toNat = 0 := rfl
    rw [hz, h0] at hfe
    exact hfe
  · have hne : Build.standard.mem.mulSrc2Buf + 32 ≠ Build.standard.mem.buf .x25Basepoint := by
      decide
    rw [Machine.loaded, setRam_ram, Function.update_of_ne hne]
    rfl

/-- The multiplication of the base point follows no pointer. -/
theorem x25519Base_valid (s : Machine) : Call.x25519Base.Valid B s :=
  ⟨fun x hx => absurd hx (by simp [Call.reads, Call.writes]),
    fun x hx => absurd hx (by simp [Call.writes]), nofun, nofun⟩

/-- A second multiplication of the base point, behind a first. -/
theorem Reached.outputs_eq_base :
    let s := Call.x25519Base.run .standard (initialise .standard .loaded)
    Call.x25519Base.outputs .standard s (Call.x25519Base.run .standard s)
        = Call.x25519Base.fn (Call.x25519Base.inputs .standard s) ∧
      ∀ t, Reached .standard t → Call.x25519Base.Valid .standard t →
        Call.x25519Base.inputs .standard t = Call.x25519Base.inputs .standard s →
        Call.x25519Base.outputs .standard t (Call.x25519Base.run .standard t)
          = Call.x25519Base.outputs .standard s (Call.x25519Base.run .standard s) :=
  Reached.outputs_eq
    ⟨.loaded, loaded_loaded, .single ⟨.call .x25519Base, x25519Base_valid _, rfl⟩⟩
    (x25519Base_valid _)

end C64X25519
