import C64X25519.Common.Window
import C64X25519.Helpers.Frame
/-!
# Transfers of the expansion unit

A fetch and a stash with both addresses counting up move a window, and with
autoload the registers are the latch again afterwards. Settling a transfer
touches the settle variables and the status register only.
-/

namespace C64X25519

open Machine

variable {B : Build} {s t : Machine} {n : ℕ}

namespace Reu

variable {r : Reu} {m : (ℕ → Byte) × (ℕ → Byte)}

/-- Both addresses count up, and neither side wraps. -/
structure Counts (r : Reu) : Prop where
  c64 : (r.reg .addrCtrl).getLsbD 7 = false
  reu : (r.reg .addrCtrl).getLsbD 6 = false
  c64_le : r.c64 + r.len ≤ 0x10000
  addr_le : r.addr + r.len ≤ 0x1000000

theorem Counts.c64At (h : r.Counts) {i : ℕ} (hi : i < r.len) : r.c64At i = r.c64 + i := by
  have hle := h.c64_le
  rw [Reu.c64At, h.c64, if_neg Bool.false_ne_true, Nat.mod_eq_of_lt (by omega)]

theorem Counts.addrAt (h : r.Counts) {i : ℕ} (hi : i < r.len) : r.addrAt i = r.addr + i := by
  have hle := h.addr_le
  rw [Reu.addrAt, h.reu, if_neg Bool.false_ne_true, Nat.mod_eq_of_lt (by omega)]

/-! What the registers spell, where they were written by the byte. -/

theorem c64_of {c : ℕ} (h1 : r.reg .c64Lo = BitVec.ofNat 8 c)
    (h2 : r.reg .c64Hi = BitVec.ofNat 8 (c / 0x100)) (hc : c < 0x10000) : r.c64 = c := by
  rw [Reu.c64, h1, h2, BitVec.toNat_ofNat, BitVec.toNat_ofNat]
  omega

theorem addr_of {b h : ℕ} (h0 : r.reg .reuLo = 0) (h1 : (r.reg .reuHi).toNat = h)
    (h2 : (r.reg .reuBank).toNat = b) : r.addr = b * 0x10000 + h * 0x100 := by
  have hz : (r.reg .reuLo).toNat = 0 := by rw [h0]; rfl
  rw [Reu.addr, h1, h2, hz, Nat.add_zero]

theorem len_of {l : ℕ} (h0 : r.reg .lenLo = 0) (h1 : (r.reg .lenHi).toNat = l) (hl : 0 < l) :
    r.len = l * 0x100 := by
  have hz : (r.reg .lenLo).toNat = 0 := by rw [h0]; rfl
  unfold Reu.len
  extract_lets n
  have hn : n = l * 0x100 := by rw [← h1, ← Nat.add_zero (_ * _), ← hz]
  rw [if_neg (by omega), hn]

/-- **A fetch moves a window of the unit's memory.** -/
theorem loopUp_fetch (cmd : Byte) (h : r.Counts) (hc : cmd.toNat % 4 = 1) (hn : n ≤ r.len) :
    loopUp (r.moveByte cmd) n m = (blit m.1 r.c64 (fun i => m.2 (r.addr + i)) 0 n, m.2) := by
  induction n with
  | zero => simp
  | succ n ih =>
      rw [loopUp_succ, ih (by omega), moveByte, hc]
      simp only [h.c64At (show n < r.len by omega), h.addrAt (show n < r.len by omega)]
      rw [← update_blit_up (Nat.zero_le n)]

/-- **A stash moves a window of memory.** -/
theorem loopUp_stash (cmd : Byte) (h : r.Counts) (hc : cmd.toNat % 4 = 0) (hn : n ≤ r.len) :
    loopUp (r.moveByte cmd) n m = (m.1, blit m.2 r.addr (fun i => m.1 (r.c64 + i)) 0 n) := by
  induction n with
  | zero => simp
  | succ n ih =>
      rw [loopUp_succ, ih (by omega), moveByte, hc]
      simp only [h.c64At (show n < r.len by omega), h.addrAt (show n < r.len by omega)]
      rw [← update_blit_up (Nat.zero_le n)]

end Reu

/-! ## Commands with autoload -/

theorem reuCommand_fetch (hlive : s.reu.live = true) (h : s.reu.Counts) :
    s.reuCommand 0b10110001 = { s with
      ram := blit s.ram s.reu.c64 (fun i => s.reu.mem (s.reu.addr + i)) 0 s.reu.len
      reu := { s.reu with
        reg := fun x => if x = .addrCtrl then s.reu.reg x else s.reu.latch x
        log := .execute 0b10110001 s.reu.reg :: s.reu.log } } := by
  have hmove := Reu.loopUp_fetch 0b10110001 (m := (s.ram, s.reu.mem)) (n := s.reu.len)
    (r := { s.reu with log := .execute 0b10110001 s.reu.reg :: s.reu.log })
    ⟨h.c64, h.reu, h.c64_le, h.addr_le⟩ (by decide) le_rfl
  rw [reuCommand]
  simp only [hlive, if_true]
  erw [hmove]
  congr 2

theorem reuCommand_stash (hlive : s.reu.live = true) (h : s.reu.Counts) :
    s.reuCommand 0b10110000 = { s with
      reu := { s.reu with
        mem := blit s.reu.mem s.reu.addr (fun i => s.ram (s.reu.c64 + i)) 0 s.reu.len
        reg := fun x => if x = .addrCtrl then s.reu.reg x else s.reu.latch x
        log := .execute 0b10110000 s.reu.reg :: s.reu.log } } := by
  have hmove := Reu.loopUp_stash 0b10110000 (m := (s.ram, s.reu.mem)) (n := s.reu.len)
    (r := { s.reu with log := .execute 0b10110000 s.reu.reg :: s.reu.log })
    ⟨h.c64, h.reu, h.c64_le, h.addr_le⟩ (by decide) le_rfl
  rw [reuCommand]
  simp only [hlive, if_true]
  erw [hmove]
  congr 2

/-! ## Settling -/

/-- From `s` to `t` nothing but the settle variables, the status stream and
the log has changed. -/
structure Settles (s t : Machine) : Prop where
  zp : t.zp = s.zp
  ram : t.ram = s.ram
  opLo : t.opLo = s.opLo
  opHi : t.opHi = s.opHi
  tramp : t.tramp = s.tramp
  var : ∀ x : Var, x ≠ .x25519ReuFault → x ≠ .x25519ReuSettleCnt → x ≠ .x25519ReuSettleSmp →
    t.var x = s.var x
  flagI : t.flagI = s.flagI
  reg : t.reu.reg = s.reu.reg
  latch : t.reu.latch = s.reu.latch
  mem : t.reu.mem = s.reu.mem
  live : t.reu.live = s.reu.live

namespace Settles

variable {x : Var} {v : Byte}

theorem refl (s : Machine) : Settles s s :=
  ⟨rfl, rfl, rfl, rfl, rfl, fun _ _ _ _ => rfl, rfl, rfl, rfl, rfl, rfl⟩

theorem setVar (h : Settles s t)
    (hx : x = .x25519ReuFault ∨ x = .x25519ReuSettleCnt ∨ x = .x25519ReuSettleSmp) :
    Settles s (t.setVar x v) :=
  { h with
    var := fun y h1 h2 h3 => by
      rw [← h.var y h1 h2 h3]
      refine Function.update_of_ne ?_ _ _
      rintro rfl
      rcases hx with rfl | rfl | rfl <;> contradiction }

theorem readStatus (h : Settles s t) : Settles s t.readStatus.2 :=
  { h with reg := h.reg, latch := h.latch, mem := h.mem, live := h.live }

theorem check (h : Settles s t) : Settles s (settleCheck t).1 := by
  unfold settleCheck
  extract_lets t1 t2 r
  have h1 : Settles s t1 := by
    simp only [t1]
    split
    · exact h
    · exact h.setVar (.inl rfl)
  have h2 : Settles s t2 := h1.setVar (.inr (.inl rfl))
  split
  · exact h1
  · split
    · exact h2.setVar (.inl rfl)
    · exact h2.readStatus.setVar (.inr (.inr rfl))

theorem slow {a : Byte} (h : Settles s t) : Settles s (x25519ReuSettleSlow B a t) :=
  doWhile_preserves (Settles s) ((h.setVar (.inr (.inr rfl))).setVar (.inr (.inl rfl)))
    fun _ ht => ht.check

/-- **Settling is silent**: it changes what it reports with, and nothing a
routine computes with. -/
theorem fastPath (h : Settles s t) : Settles s (reuSettle B t) := by
  unfold reuSettle
  simp only
  split
  · exact h.readStatus
  · exact h.readStatus.slow

end Settles

theorem reuSettle_settles (s : Machine) : Settles s (reuSettle B s) := (Settles.refl s).fastPath

/-! ## A whole fetch, a whole stash -/

/-- The registers autoload leaves. -/
def Reu.reloaded (r : Reu) (x : Reg) : Byte := if x = .addrCtrl then r.reg x else r.latch x

/-- The state a fetch leaves, up to what settling reports with. -/
def fetched (s : Machine) : Machine :=
  { s with
    ram := blit s.ram s.reu.c64 (fun i => s.reu.mem (s.reu.addr + i)) 0 s.reu.len
    reu := { s.reu with reg := s.reu.reloaded } }

/-- The state a stash leaves, likewise. -/
def stashed (s : Machine) : Machine :=
  { s with
    reu := { s.reu with
      mem := blit s.reu.mem s.reu.addr (fun i => s.ram (s.reu.c64 + i)) 0 s.reu.len
      reg := s.reu.reloaded } }

theorem settles_fetch (hlive : s.reu.live = true) (h : s.reu.Counts) :
    Settles (fetched s) (reuSettle B (s.reuCommand 0b10110001)) := by
  rw [reuCommand_fetch hlive h]
  have hset := reuSettle_settles (B := B) { s with
    ram := blit s.ram s.reu.c64 (fun i => s.reu.mem (s.reu.addr + i)) 0 s.reu.len
    reu := { s.reu with
      reg := s.reu.reloaded
      log := .execute 0b10110001 s.reu.reg :: s.reu.log } }
  exact { hset with
    reg := hset.reg
    latch := hset.latch
    mem := hset.mem
    live := hset.live }

theorem settles_stash (hlive : s.reu.live = true) (h : s.reu.Counts) :
    Settles (stashed s) (reuSettle B (s.reuCommand 0b10110000)) := by
  rw [reuCommand_stash hlive h]
  have hset := reuSettle_settles (B := B) { s with
    reu := { s.reu with
      mem := blit s.reu.mem s.reu.addr (fun i => s.ram (s.reu.c64 + i)) 0 s.reu.len
      reg := s.reu.reloaded
      log := .execute 0b10110000 s.reu.reg :: s.reu.log } }
  exact { hset with
    reg := hset.reg
    latch := hset.latch
    mem := hset.mem
    live := hset.live }

end C64X25519
