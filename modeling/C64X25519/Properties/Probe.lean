import C64X25519.Helpers.Init
import C64X25519.Helpers.Settle
import C64X25519.Model.Probe
/-!
# The presence check leaves no trace

`reu_probe` puts back the byte it overwrites and the registers it saves,
whatever its four settles see; and its answer is the pattern read back
together with the verdicts of those four.
-/

namespace C64X25519

open Machine

variable {B : Build} {s t u : Machine} {cmd : Byte}

/-! ## One transfer of the probe -/

/-- The probed byte: the first of bank `X25519_REU_BANK + 7`. -/
def Build.probed (B : Build) : ℕ := (7 + B.reuBank) * 0x10000

theorem MemMap.probeScratch_lt (M : MemMap) : M.probeScratch < 0x10000 := by
  have hplace := M.placed (M.code, M.codeSize) (by simp)
  have hmem := M.probeScratch_mem
  simp only at hplace
  omega

/-- The status stream behind one settle. -/
def settleRest (B : Build) (σ : ℕ → Byte) : ℕ → Byte :=
  fun i => σ (i + (settleReads B σ).length)

/-- What the settle of a stream records. -/
def settleVerdict (B : Build) (σ : ℕ → Byte) : Byte := verdict (settleReads B σ)

/-- One transfer of the probe, as far as it does not depend on the unit. -/
structure ProbeSettled (B : Build) (s t : Machine) : Prop where
  status : t.reu.status = settleRest B s.reu.status
  fault : t.var .x25519ReuFault = s.var .x25519ReuFault ||| settleVerdict B s.reu.status
  var : ∀ x, x ∉ settleVars → t.var x = s.var x
  live : t.reu.live = s.reu.live

/-- The registers of a probe's transfer: one byte, at fixed addresses. -/
def probeReady (B : Build) (s : Machine) : Machine :=
  let s := writeC64 B.mem.probeScratch s
  let s := ((s.writeReg .reuLo 0).writeReg .reuHi 0).writeReg .addrCtrl 0
  let s := s.writeReg .reuBank (BitVec.ofNat 8 (7 + B.reuBank))
  (s.writeReg .lenLo 1).writeReg .lenHi 0

theorem probeReady_only (s : Machine) : RegsOnly s (probeReady B s) :=
  RegsOnly.writeRegs (l := [(.c64Lo, BitVec.ofNat 8 B.mem.probeScratch),
    (.c64Hi, BitVec.ofNat 8 (B.mem.probeScratch / 0x100)), (.reuLo, 0), (.reuHi, 0), (.addrCtrl, 0),
    (.reuBank, BitVec.ofNat 8 (7 + B.reuBank)), (.lenLo, 1), (.lenHi, 0)]) (.refl s)

theorem probeReady_ram (s : Machine) : (probeReady B s).ram = s.ram := by
  rw [(probeReady_only s).rest]

theorem probeTransfer_eq :
    probeTransfer B cmd s = reuSettle B ((probeReady B s).reuCommand cmd) := rfl

theorem reuCommand_keeps (cmd : Byte) (s : Machine) :
    (s.reuCommand cmd).var = s.var ∧ (s.reuCommand cmd).reu.status = s.reu.status ∧
      (s.reuCommand cmd).reu.live = s.reu.live := by
  unfold reuCommand
  extract_lets r m
  split
  · exact ⟨rfl, rfl, rfl⟩
  · exact ⟨rfl, rfl, rfl⟩

theorem probeTransfer_settled (cmd : Byte) (s : Machine) :
    ProbeSettled B s (probeTransfer B cmd s) := by
  obtain ⟨hvar, hstatus, hlive⟩ := reuCommand_keeps cmd (probeReady B s)
  have hread := reuSettle_reads (B := B) ((probeReady B s).reuCommand cmd)
  have hset := reuSettle_settles (B := B) ((probeReady B s).reuCommand cmd)
  rw [hstatus] at hread
  rw [probeTransfer_eq]
  refine ⟨funext fun i => ?_, ?_, fun x hx => ?_, ?_⟩
  · rw [hread.status, hstatus]
    rfl
  · rw [hread.fault, hvar]
    rfl
  · simp only [settleVars, List.mem_cons, List.not_mem_nil, or_false, not_or] at hx
    rw [hset.var x hx.1 hx.2.1 hx.2.2, hvar]
    rfl
  · rw [hset.live, hlive]
    rfl

/-- Where no unit answers, nothing moves. -/
theorem probeTransfer_dead (h : s.reu.live = false) :
    (probeTransfer B cmd s).ram = s.ram ∧ (probeTransfer B cmd s).reu.mem = s.reu.mem := by
  have hset := reuSettle_settles (B := B) ((probeReady B s).reuCommand cmd)
  have hlive : (probeReady B s).reu.live = false := h
  have hstill : ((probeReady B s).reuCommand cmd).ram = (probeReady B s).ram ∧
      ((probeReady B s).reuCommand cmd).reu.mem = (probeReady B s).reu.mem := by
    unfold reuCommand
    extract_lets r m
    rw [if_neg (by rw [show r.live = false from hlive]; decide)]
    exact ⟨rfl, rfl⟩
  rw [probeTransfer_eq, hset.ram, hset.mem, hstill.1, hstill.2, probeReady_ram,
    (probeReady_only s).mem]
  exact ⟨rfl, rfl⟩

theorem probeReady_regs (s : Machine) :
    (probeReady B s).reu.c64 = B.mem.probeScratch ∧ (probeReady B s).reu.addr = B.probed ∧
      (probeReady B s).reu.len = 1 ∧ (probeReady B s).reu.reg .addrCtrl = 0 := by
  have hlt := B.mem.probeScratch_lt
  have hbank := B.reuBank_lt
  have hb : ((probeReady B s).reu.reg .reuBank).toNat = 7 + B.reuBank := by
    change (BitVec.ofNat 8 (7 + B.reuBank)).toNat = _
    rw [BitVec.toNat_ofNat]
    omega
  have hlo : (probeReady B s).reu.reg .reuLo = 0 := rfl
  have hh : ((probeReady B s).reu.reg .reuHi).toNat = 0 := rfl
  have haddr := Reu.addr_of hlo hh hb
  rw [Nat.zero_mul, Nat.add_zero] at haddr
  have h1 : (probeReady B s).reu.reg .lenLo = 1 := rfl
  have h2 : (probeReady B s).reu.reg .lenHi = 0 := rfl
  refine ⟨Reu.c64_of rfl rfl hlt, haddr, ?_, rfl⟩
  rw [Reu.len, h1, h2]
  decide

/-- A command of length one moves the first byte. -/
theorem reuCommand_one (h : s.reu.live = true) (hlen : s.reu.len = 1) :
    (s.reuCommand cmd).ram = (s.reu.moveByte cmd 0 (s.ram, s.reu.mem)).1 ∧
      (s.reuCommand cmd).reu.mem = (s.reu.moveByte cmd 0 (s.ram, s.reu.mem)).2 := by
  have hmove : loopUp (s.reu.moveByte cmd) s.reu.len (s.ram, s.reu.mem)
      = s.reu.moveByte cmd 0 (s.ram, s.reu.mem) := by
    rw [hlen, loopUp_succ, loopUp_zero]
  rw [← hmove, reuCommand]
  simp only [h, if_true]
  exact ⟨rfl, rfl⟩

/-- Where one answers, one byte does. -/
theorem probeTransfer_live (h : s.reu.live = true) {m : (ℕ → Byte) × (ℕ → Byte)}
    (hmove : ∀ r : Reu, r.c64At 0 = B.mem.probeScratch → r.addrAt 0 = B.probed →
      r.moveByte cmd 0 (s.ram, s.reu.mem) = m) :
    (probeTransfer B cmd s).ram = m.1 ∧ (probeTransfer B cmd s).reu.mem = m.2 := by
  have hset := reuSettle_settles (B := B) ((probeReady B s).reuCommand cmd)
  obtain ⟨hc, ha, hlen, hctl⟩ := probeReady_regs (B := B) s
  have hlt := B.mem.probeScratch_lt
  have hbank := B.reuBank_lt
  have hlive : (probeReady B s).reu.live = true := h
  have hc0 : (probeReady B s).reu.c64At 0 = B.mem.probeScratch := by
    rw [Reu.c64At, hctl, hc, if_neg (by decide)]
    omega
  have ha0 : (probeReady B s).reu.addrAt 0 = B.probed := by
    rw [Reu.addrAt, hctl, ha, if_neg (by decide), Build.probed]
    omega
  obtain ⟨hram, hmem⟩ : ((probeReady B s).reuCommand cmd).ram = _ ∧
      ((probeReady B s).reuCommand cmd).reu.mem = _ := reuCommand_one hlive hlen
  rw [probeReady_ram, (probeReady_only s).mem, hmove _ hc0 ha0] at hram hmem
  rw [probeTransfer_eq, hset.ram, hset.mem]
  exact ⟨hram, hmem⟩

/-- The fetch brings the probed byte into `@scratch`. -/
theorem probeFetch (h : s.reu.live = true) :
    (probeTransfer B 0b10010001 s).ram
        = Function.update s.ram B.mem.probeScratch (s.reu.mem B.probed) ∧
      (probeTransfer B 0b10010001 s).reu.mem = s.reu.mem :=
  probeTransfer_live h (m := (_, _)) fun r hc ha => by
    simp only [Reu.moveByte, hc, ha]
    rfl

/-- The stash takes `@scratch` out. -/
theorem probeStash (h : s.reu.live = true) :
    (probeTransfer B 0b10010000 s).ram = s.ram ∧ (probeTransfer B 0b10010000 s).reu.mem
        = Function.update s.reu.mem B.probed (s.ram B.mem.probeScratch) :=
  probeTransfer_live h (m := (_, _)) fun r hc ha => by
    simp only [Reu.moveByte, hc, ha]
    rfl

/-! ## The probe -/

section Save

variable {x : Reg} {v : Var}

theorem saveReg_var : (saveReg x v s).var = Function.update s.var v (s.reu.reg x) := rfl

theorem saveReg_reg : (saveReg x v s).reu.reg = s.reu.reg := rfl

theorem saveReg_mem : (saveReg x v s).reu.mem = s.reu.mem := rfl

theorem saveReg_live : (saveReg x v s).reu.live = s.reu.live := rfl

theorem saveReg_status : (saveReg x v s).reu.status = s.reu.status := rfl

end Save

/-- The registers at the entry are in their cells, and the unit is as it
was. -/
theorem probeSave_spec (s : Machine) :
    let t := probeSave s
    (t.var .saveC64Lo = s.reu.reg .c64Lo ∧ t.var .saveC64Hi = s.reu.reg .c64Hi ∧
      t.var .saveReuLo = s.reu.reg .reuLo ∧ t.var .saveReuHi = s.reu.reg .reuHi ∧
      t.var .saveReuBank = s.reu.reg .reuBank ∧ t.var .saveLenLo = s.reu.reg .lenLo ∧
      t.var .saveLenHi = s.reu.reg .lenHi) ∧
    t.var .x25519ReuFault = s.var .x25519ReuFault ∧ t.reu.mem = s.reu.mem ∧
      t.reu.live = s.reu.live ∧ t.reu.status = s.reu.status := by
  simp only [probeSave, saveReg_var, saveReg_reg, saveReg_mem, saveReg_live, saveReg_status]
  simp [Function.update]

/-- The cells of the saved registers. -/
def saveVars : List Var :=
  [.saveC64Lo, .saveC64Hi, .saveReuLo, .saveReuHi, .saveReuBank, .saveLenLo, .saveLenHi]

/-- The four transfers from `s` to `t`: what every unit, and none, has in
common. -/
structure ProbeRun (B : Build) (s t : Machine) : Prop where
  fault : t.var .x25519ReuFault = s.var .x25519ReuFault ||| settleVerdict B s.reu.status |||
    settleVerdict B (settleRest B s.reu.status) |||
    settleVerdict B ((settleRest B)^[2] s.reu.status) |||
    settleVerdict B ((settleRest B)^[3] s.reu.status)
  saved : ∀ x ∈ saveVars, t.var x = s.var x
  live : s.reu.live = true → t.reu.mem = s.reu.mem ∧ t.var .rtByte = 0x5a
  dead : s.reu.live = false → t.var .rtByte = 0

theorem probeRun (s : Machine) : ProbeRun B s (probeReadBack B (probePattern B s)) := by
  unfold probeReadBack probePattern
  extract_lets a1 a2 a3 b0 b1 b2 b3
  set a4 := probeTransfer B 0b10010000 a3
  set b4 := probeTransfer B 0b10010000 b3
  have h1 : ProbeSettled B s a1 := probeTransfer_settled _ s
  have h2 : ProbeSettled B a3 a4 := probeTransfer_settled _ a3
  have h3 : ProbeSettled B b0 b1 := probeTransfer_settled _ b0
  have h4 : ProbeSettled B b3 b4 := probeTransfer_settled _ b3
  -- the stores between two transfers leave the stream and the fault byte
  have hs2 : a3.reu.status = settleRest B s.reu.status := h1.status
  have hs3 : b0.reu.status = (settleRest B)^[2] s.reu.status :=
    (h2.status).trans (congrArg (settleRest B) hs2)
  have hs4 : b3.reu.status = (settleRest B)^[3] s.reu.status := by
    rw [Function.iterate_succ_apply', ← hs3]
    exact h3.status
  have ha3 : a3.var = Function.update a1.var .origByte (a1.ram B.mem.probeScratch) := rfl
  have hb0 : b0.var = a4.var := rfl
  have hb3 : b3.var = Function.update b1.var .rtByte (b1.ram B.mem.probeScratch) := rfl
  have hf2 : a3.var .x25519ReuFault = a1.var .x25519ReuFault := by
    rw [ha3, Function.update_of_ne (by decide)]
  have hf4 : b3.var .x25519ReuFault = b1.var .x25519ReuFault := by
    rw [hb3, Function.update_of_ne (by decide)]
  have hrt : b4.var .rtByte = b1.ram B.mem.probeScratch := by
    rw [h4.var _ (by decide), hb3, Function.update_self]
  have horig : b2.var .origByte = a1.ram B.mem.probeScratch := by
    have hb2 : b2.var = Function.update b1.var .rtByte (b1.ram B.mem.probeScratch) := rfl
    rw [hb2, Function.update_of_ne (by decide), h3.var _ (by decide), hb0, h2.var _ (by decide),
      ha3, Function.update_self]
  refine ⟨?_, fun x hx => ?_, fun hlive => ?_, fun hdead => ?_⟩
  · rw [h4.fault, hf4, hs4, h3.fault, hs3]
    rw [hb0, h2.fault, hf2, hs2, h1.fault]
  · have hne : x ∉ settleVars ∧ x ≠ .origByte ∧ x ≠ .rtByte := by
      revert x
      decide
    rw [h4.var x hne.1, hb3, Function.update_of_ne hne.2.2, h3.var x hne.1, hb0, h2.var x hne.1,
      ha3, Function.update_of_ne hne.2.1, h1.var x hne.1]
  · have hl1 : a3.reu.live = true := h1.live.trans hlive
    have hl2 : b0.reu.live = true := h2.live.trans hl1
    have hl3 : b3.reu.live = true := h3.live.trans hl2
    obtain ⟨hr1, hm1⟩ := probeFetch (B := B) hlive
    obtain ⟨hr2, hm2⟩ := probeStash (B := B) hl1
    obtain ⟨hr3, hm3⟩ := probeFetch (B := B) hl2
    obtain ⟨hr4, hm4⟩ := probeStash (B := B) hl3
    have hscr3 : a3.ram B.mem.probeScratch = 0x5a := Function.update_self _ _ _
    have hscr4 : b3.ram B.mem.probeScratch = s.reu.mem B.probed := by
      refine (Function.update_self _ _ _).trans ?_
      rw [horig, hr1, Function.update_self]
    have hmem2 : b0.reu.mem = Function.update s.reu.mem B.probed 0x5a := by
      refine hm2.trans ?_
      rw [hscr3]
      exact congrArg (fun m => Function.update m _ _) hm1
    constructor
    · rw [hm4, hscr4]
      change Function.update b1.reu.mem _ _ = _
      rw [hm3, hmem2, Function.update_idem, Function.update_eq_self]
    · rw [hrt, hr3, Function.update_self, hmem2, Function.update_self]
  · have hl1 : a3.reu.live = false := h1.live.trans hdead
    have hl2 : b0.reu.live = false := h2.live.trans hl1
    have hstill : (probeTransfer B 0b10010001 b0).ram = b0.ram := (probeTransfer_dead hl2).1
    rw [hrt, hstill]
    exact Function.update_self _ _ _

/-- The saved registers are back, and address control is zero. -/
theorem probeRestore_spec (s : Machine) :
    let t := probeRestore s
    (t.reu.reg .c64Lo = s.var .saveC64Lo ∧ t.reu.reg .c64Hi = s.var .saveC64Hi ∧
      t.reu.reg .reuLo = s.var .saveReuLo ∧ t.reu.reg .reuHi = s.var .saveReuHi ∧
      t.reu.reg .reuBank = s.var .saveReuBank ∧ t.reu.reg .lenLo = s.var .saveLenLo ∧
      t.reu.reg .lenHi = s.var .saveLenHi) ∧
    t.reu.reg .addrCtrl = 0 ∧ RegsOnly s t := by
  have hregs : RegsOnly s (probeRestore s) := RegsOnly.writeRegs (l := [(.c64Lo, s.var .saveC64Lo),
    (.c64Hi, s.var .saveC64Hi), (.reuLo, s.var .saveReuLo), (.reuHi, s.var .saveReuHi),
    (.reuBank, s.var .saveReuBank), (.lenLo, s.var .saveLenLo), (.lenHi, s.var .saveLenHi),
    (.addrCtrl, 0)]) (.refl s)
  refine ⟨?_, ?_, hregs⟩
  · simp only [probeRestore, writeReg_reu_reg]
    simp [Function.update]
  · simp only [probeRestore, writeReg_reu_reg, Function.update_self]

/-- **The presence check.** The fault byte holds the verdicts of the four
settles, which see the status stream one behind the other. Where the
transfers take effect the memory of the unit and its registers are as they
were, address control is zero, and the carry is set exactly if no verdict is
a fault; where no unit answers the carry is clear. -/
theorem reuProbe_correct (s : Machine) :
    let r := reuProbe B s
    let v := fun k => settleVerdict B ((settleRest B)^[k] s.reu.status)
    (r.2.var .x25519ReuFault = v 0 ||| v 1 ||| v 2 ||| v 3) ∧
    (s.reu.live = true → r.2.reu.mem = s.reu.mem ∧
      (∀ x, x ≠ .addrCtrl → r.2.reu.reg x = s.reu.reg x) ∧ r.2.reu.reg .addrCtrl = 0 ∧
      (r.1 = true ↔ ∀ k, k < 4 → v k = 0)) ∧
    (s.reu.live = false → r.1 = false) := by
  intro r v
  set s0 := s.setVar .x25519ReuFault 0 with hs0
  obtain ⟨⟨h1, h2, h3, h4, h5, h6, h7⟩, hf, hmem, hlive, hstat⟩ := probeSave_spec s0
  set a := probeSave s0
  have hrun : ProbeRun B a (probeReadBack B (probePattern B a)) := probeRun a
  set b := probeReadBack B (probePattern B a)
  obtain ⟨⟨g1, g2, g3, g4, g5, g6, g7⟩, g8, hregs⟩ := probeRestore_spec b
  have hr : r = (decide ((probeRestore b).var .rtByte = 0x5a) &&
      decide ((probeRestore b).var .x25519ReuFault = 0), probeRestore b) := rfl
  have hvar : (probeRestore b).var = b.var := by rw [hregs.rest]
  have hfault : b.var .x25519ReuFault = v 0 ||| v 1 ||| v 2 ||| v 3 := by
    rw [hrun.fault, hf, hstat, hs0, setVar_var_self]
    have hz : ∀ f : Byte, 0 ||| f = f := fun f => BitVec.zero_or
    rw [hz]
    rfl
  rw [hr]
  simp only
  rw [hvar, hfault]
  refine ⟨rfl, fun hl => ?_, fun hd => ?_⟩
  · obtain ⟨hm, hrt⟩ := hrun.live (hlive.trans hl)
    refine ⟨by rw [hregs.mem, hm, hmem, hs0]; rfl, fun x hx => ?_, g8, ?_⟩
    · cases x with
      | c64Lo => exact (g1.trans (hrun.saved _ (by decide))).trans h1
      | c64Hi => exact (g2.trans (hrun.saved _ (by decide))).trans h2
      | reuLo => exact (g3.trans (hrun.saved _ (by decide))).trans h3
      | reuHi => exact (g4.trans (hrun.saved _ (by decide))).trans h4
      | reuBank => exact (g5.trans (hrun.saved _ (by decide))).trans h5
      | lenLo => exact (g6.trans (hrun.saved _ (by decide))).trans h6
      | lenHi => exact (g7.trans (hrun.saved _ (by decide))).trans h7
      | addrCtrl => exact absurd rfl hx
    · rw [hrt, Bool.and_eq_true, decide_eq_true_iff, decide_eq_true_iff]
      constructor
      · rintro ⟨-, h0⟩ k hk
        obtain ⟨h0, hv3⟩ := or_eq_zero h0
        obtain ⟨h0, hv2⟩ := or_eq_zero h0
        obtain ⟨hv0, hv1⟩ := or_eq_zero h0
        obtain rfl | rfl | rfl | rfl : k = 0 ∨ k = 1 ∨ k = 2 ∨ k = 3 := by omega
        · exact hv0
        · exact hv1
        · exact hv2
        · exact hv3
      · intro h0
        rw [h0 0 (by decide), h0 1 (by decide), h0 2 (by decide), h0 3 (by decide)]
        exact ⟨rfl, rfl⟩
  · rw [hrun.dead (hlive.trans hd)]
    rfl

/-- A probe of the blank machine's unit, and one of no unit at all. -/
theorem reuProbe_correct_blank :
    let s := Machine.blank
    let t := s.setReu { s.reu with live := false }
    ((reuProbe .standard s).2.reu.mem = s.reu.mem ∧
      (∀ x, x ≠ .addrCtrl → (reuProbe .standard s).2.reu.reg x = s.reu.reg x)) ∧
    (reuProbe .standard t).1 = false := by
  have hs := (reuProbe_correct (B := .standard) .blank).2.1 rfl
  have ht := (reuProbe_correct (B := .standard)
    (Machine.blank.setReu { Machine.blank.reu with live := false })).2.2 rfl
  exact ⟨⟨hs.1, hs.2.1⟩, ht⟩

end C64X25519
