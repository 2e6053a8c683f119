import C64X25519.Helpers.InitTiming
import C64X25519.Properties.Timing
/-!
# Starting up

The initialisers and the presence check, run instruction by instruction from
any machine at all, end with what the routines compute. The calls of `start`
take a time that nothing in memory enters, and the sessions behind them are
those of an initialised library.
-/

namespace C64X25519

open Machine

variable {B : Build} {L : Link} {s s' : Core} {es es' : List Event}

/-! ## The listings of the initialisers -/

/-- **The listing of an initialiser** ends, from any machine, with a unit
behind the registers or without, and whatever the unit shows; it leaves the
machine of the routine and the stack as it was, its cycles are those of its
bill, and the presence check answers in the carry. -/
theorem Initialiser.asm_correct (i : Initialiser) :
    ∃ t, (i.asm B).run (cpu B L) s = some (t, (i.bill B L s.m).cycles
        + (unit B L).total (i.bill B L s.m).waits s.m.reu.status) ∧
      t.m = i.run B s.m ∧ t.stack = s.stack ∧
      (i = reuProbe → t.c = (C64X25519.reuProbe B s.m).1) := by
  obtain ⟨t, hrun, -, htm, hts, hcarry⟩ := i.spends (B := B) (L := L) (s := s)
  exact ⟨t, hrun, htm, hts, hcarry⟩

/-! ## Starting up -/

/-- **What starting up takes**: the settles of two stashes for each of 256
rows, and of three more where the build has doubled rows; at least the time
with transfers that complete, at most the time with a unit that fails, and
both are attained. -/
theorem start_time :
    let bill := startBill B L s.m.reu.live
    ∃ t n, (startAsm B).run (cpu B L) s = some (t, n) ∧ t.m = initialise B s.m ∧
      t.stack = s.stack ∧
      t.m.reu.status = (unit B L).next^[if B.onchip then 0 else
        0x100 * (2 + if B.sqrDmaK ≠ 0 then 3 else 0)] s.m.reu.status ∧
      bill.price (settlePrompt L) ≤ n ∧ n ≤ bill.price (fun _ => settleWorst B L) ∧
      (Completes s.m → n = sqtabInitCycles L + 12 + if B.onchip then 0 else
        1332 + (L.crosses .initDone).toNat + 0x100 * (152 + reuMulRowCycles L
          + 2 * L.moved s.m.reu.live 0x100 + settlePrompt L .initLoSettle
          + settlePrompt L .initHiSettle
          + if B.sqrDmaK ≠ 0 then 186 + loopCycles L .dblLoop 0x100 39
              + 3 * L.moved s.m.reu.live 0x100 + settlePrompt L .dblLoSettle
              + settlePrompt L .dblHiSettle + settlePrompt L .dblCarrySettle else 0)) ∧
      (Fails s.m.reu.status → n = bill.price fun _ => settleWorst B L) := by
  intro bill
  obtain ⟨t, hrun, htape, htm, hts⟩ := start_does (B := B) (L := L) (s := s)
  refine ⟨t, _, hrun, htm, hts, ?_, ?_, ?_, fun hw => ?_, fun hw => ?_⟩
  · rw [← startBill_waits (L := L) (d := s.m.reu.live)]
    exact htape
  · exact Nat.add_le_add_left (Device.le_total fun _ _ => settlePrompt_le) _
  · exact Nat.add_le_add_left (Device.total_le fun _ _ => settleCycles_le) _
  · rw [← startBill_price]
    exact congrArg (_ + ·) (total_prompt hw)
  · exact congrArg (_ + ·) (total_fails hw)

/-- The bill of starting up is that of the build, where the memory is as
loaded. -/
theorem Loaded.startBill_eq {m m' : Machine} (h : Loaded B m) (h' : Loaded B m') :
    startBill B L m.reu.live = startBill B L m'.reu.live := by
  cases hon : B.onchip with
  | true => simp [startBill, hon]
  | false => rw [h.live hon, h'.live hon]

/-- **From the start**: on two machines as loaded, with any registers and
whatever else in memory, the initialisers `start` calls take the same time and
end in states callers reach; and the sessions behind, alike but for masks, rows
and what the callers write, take the same time step by step. -/
theorem start_session (h : Loaded B s.m) (h' : Loaded B s'.m)
    (hv : ValidFrom B es (initialise B s.m)) (hv' : ValidFrom B es' (initialise B s'.m))
    (hshape : es.map Event.shape = es'.map Event.shape)
    (hstatus : s.m.reu.status = s'.m.reu.status) :
    ∃ t t' u u' n l, (startAsm B).run (cpu B L) s = some (t, n) ∧
      (startAsm B).run (cpu B L) s' = some (t', n) ∧
      session B L es t = some (u, l) ∧ session B L es' t' = some (u', l) ∧
      u.m = es.foldl (fun m e => e.run B m) (initialise B s.m) ∧
      u'.m = es'.foldl (fun m e => e.run B m) (initialise B s'.m) ∧
      Reached B u.m ∧ Reached B u'.m ∧ u.stack = s.stack ∧ u'.stack = s'.stack := by
  obtain ⟨t, hrun, htape, htm, hts⟩ := start_does (B := B) (L := L) (s := s)
  obtain ⟨t', hrun', htape', htm', hts'⟩ := start_does (B := B) (L := L) (s := s')
  have hbill : startBill B L s'.m.reu.live = startBill B L s.m.reu.live := h'.startBill_eq h
  have ht : Usable B t.m := by rw [htm]; exact h.reached.usable
  have ht' : Usable B t'.m := by rw [htm']; exact h'.reached.usable
  obtain ⟨u, hses, hum, hus⟩ := session_spec (L := L) ht (by rw [htm]; exact hv)
  obtain ⟨u', hses', hum', hus'⟩ := session_spec (L := L) ht' (by rw [htm']; exact hv')
  have hstream : t.m.reu.status = t'.m.reu.status := by
    change (unit B L).tape t = (unit B L).tape t'
    rw [htape, htape', hbill]
    exact congrArg _ hstatus
  rw [htm] at hum
  rw [htm'] at hum'
  refine ⟨t, t', u, u', _, _, hrun, ?_, hses, ?_, hum, hum', ?_, ?_, hus.trans hts,
    hus'.trans hts'⟩
  · rw [hrun', hbill]
    exact congrArg (fun w => some (t', _ + (unit B L).total _ w)) hstatus.symm
  · rw [hses', hshape, hstream]
  · rw [hum]
    exact hv.reached h.reached
  · rw [hum']
    exact hv'.reached h'.reached

/-- Two starts with different registers, and the base point multiplied by two
scalars. -/
theorem start_session_scalars :
    let s := Core.rest .loaded
    let s' := { s with a := 0xff, c := true }
    let a := Build.standard.mem.buf .x25Scalar
    let es := [Event.writeRam a 0, .call .x25519Base]
    let es' := [Event.writeRam a 0xf8, .call .x25519Base]
    ∃ t t' u u' n l, (startAsm .standard).run (cpu .standard .plain) s = some (t, n) ∧
      (startAsm .standard).run (cpu .standard .plain) s' = some (t', n) ∧
      session .standard .plain es t = some (u, l) ∧
      session .standard .plain es' t' = some (u', l) ∧
      u.m = es.foldl (fun m e => e.run .standard m) (initialise .standard s.m) ∧
      u'.m = es'.foldl (fun m e => e.run .standard m) (initialise .standard s'.m) ∧
      Reached .standard u.m ∧ Reached .standard u'.m ∧ u.stack = s.stack ∧
      u'.stack = s'.stack := by
  intro s s' a es es'
  have hkept : ¬ Build.standard.mem.kept a := by
    simp only [MemMap.kept]
    decide
  exact start_session loaded_loaded loaded_loaded ⟨hkept, x25519Base_valid _, trivial⟩
    ⟨hkept, x25519Base_valid _, trivial⟩ rfl rfl

end C64X25519
