import C64X25519.Helpers.Tables
import C64X25519.Model.Mul
/-!
# The row fetches

The three places a row comes from the unit: `reu_fetch_mul_row`,
`reu_fetch_doubled_row`, and the fetch inlined in `fe25519_mul`. The first
two set every register of the unit themselves; the third relies on the
latch, and keeps it.
-/

namespace C64X25519

open Machine

variable {B : Build} {s t : Machine} {D : ℕ → Prop} {c a l : ℕ} {x : Var} {v : Byte}

/-! ## One fetch -/

/-- The variables settling reports with. -/
def Var.settle : Var → Bool
  | x25519ReuFault | x25519ReuSettleCnt | x25519ReuSettleSmp => true
  | _ => false

/-- From `s` to `t` the `l` bytes of the unit at `a` have come to `c`, and
nothing else has changed but the unit's registers and what settling reports
with. -/
structure Fetched (c a l : ℕ) (s t : Machine) : Prop where
  ram : t.ram = blit s.ram c (fun i => s.reu.mem (a + i)) 0 l
  zp : t.zp = s.zp
  opLo : t.opLo = s.opLo
  opHi : t.opHi = s.opHi
  tramp : t.tramp = s.tramp
  var : ∀ x : Var, x.settle = false → t.var x = s.var x
  flagI : t.flagI = s.flagI
  mem : t.reu.mem = s.reu.mem
  live : t.reu.live = s.reu.live

theorem fetch_spec (hlive : s.reu.live = true) (hc : s.reu.c64 = c) (ha : s.reu.addr = a)
    (hl : s.reu.len = l) (hctl : s.reu.reg .addrCtrl = 0) (hc' : c + l ≤ 0x10000)
    (ha' : a + l ≤ 0x1000000) : Fetched c a l s (reuSettle B (s.reuCommand 0b10110001)) := by
  have hset := settles_fetch (B := B) hlive
    ⟨by rw [hctl]; rfl, by rw [hctl]; rfl, by omega, by omega⟩
  exact {
    ram := by rw [hset.ram, ← hc, ← ha, ← hl]; rfl
    zp := hset.zp
    opLo := hset.opLo
    opHi := hset.opHi
    tramp := hset.tramp
    var := fun x hx => hset.var x (by rintro rfl; cases hx) (by rintro rfl; cases hx)
      (by rintro rfl; cases hx)
    flagI := hset.flagI
    mem := hset.mem
    live := hset.live }

/-- Memory outside the window keeps its bytes. -/
theorem Fetched.outside (h : Fetched c a l s t) {y : ℕ} (hy : ¬ (c ≤ y ∧ y < c + l)) :
    t.ram y = s.ram y := by
  rw [h.ram]
  exact blit_of_not (by omega)

theorem Fetched.frame (h : Fetched c a l s t) (hD : ∀ x, c ≤ x → x < c + l → D x) :
    Frame B D s t where
  ram y hy := h.outside fun hin => hy (hD y hin.1 hin.2)
  zp y _ := congrFun h.zp y
  var x hx := h.var x (by cases x <;> first | rfl | cases hx)
  flagI := h.flagI
  mem := h.mem
  live := h.live

/-- A change of the unit's registers. -/
structure RegsOnly (s t : Machine) : Prop where
  rest : t = { s with reu := t.reu }
  mem : t.reu.mem = s.reu.mem
  live : t.reu.live = s.reu.live

theorem RegsOnly.refl (s : Machine) : RegsOnly s s := ⟨rfl, rfl, rfl⟩

theorem RegsOnly.writeReg {r : Reg} {v : Byte} (h : RegsOnly s t) :
    RegsOnly s (t.writeReg r v) where
  rest := by rw [h.rest]; rfl
  mem := h.mem
  live := h.live

/-- Registers of the unit, written one after another. -/
def writeRegs (l : List (Reg × Byte)) (s : Machine) : Machine :=
  l.foldl (fun s w => s.writeReg w.1 w.2) s

/-- Any run of register writes changes registers only. -/
theorem RegsOnly.writeRegs {l : List (Reg × Byte)} (h : RegsOnly s t) :
    RegsOnly s (writeRegs l t) := by
  induction l generalizing t with
  | nil => exact h
  | cons w l ih => exact ih h.writeReg

/-- The registers of a row fetch into `c`, with the high byte `n` of the
length, but for the row's own two. -/
def latchWrites (c : ℕ) (n : Byte) : List (Reg × Byte) :=
  [(.c64Lo, BitVec.ofNat 8 c), (.c64Hi, BitVec.ofNat 8 (c / 0x100)), (.reuLo, 0), (.lenLo, 0),
    (.addrCtrl, 0), (.lenHi, n)]

theorem Fetched.regsOnly {u : Machine} (hr : RegsOnly s u) (h : Fetched c a l u t) :
    Fetched c a l s t where
  ram := by rw [h.ram, hr.mem, hr.rest]
  zp := by rw [h.zp, hr.rest]
  opLo := by rw [h.opLo, hr.rest]
  opHi := by rw [h.opHi, hr.rest]
  tramp := by rw [h.tramp, hr.rest]
  var x hx := by rw [h.var x hx, hr.rest]
  flagI := by rw [h.flagI, hr.rest]
  mem := h.mem.trans hr.mem
  live := h.live.trans hr.live

/-! ## The three fetches -/

/-- `reu_fetch_mul_row` fetches the row in A. -/
theorem reuFetchMulRow_fetched (hlive : s.reu.live = true) (v : Byte) :
    Fetched B.mem.stage (B.reuBank * 0x10000 + 0x200 * v.toNat) 0x200 (s.setVar .mulCachedA v)
      (reuFetchMulRow B v s) := by
  have hbank := B.reuBank_le
  have hpl := B.mem.placed_stage
  unfold reuFetchMulRow
  extract_lets s1 r s2 bank s3 s4 s5 s6 s7
  have hregs : RegsOnly s1 s6 := RegsOnly.writeRegs (l := latchWrites B.mem.mulDmaLo 2)
    (RegsOnly.refl s1).writeReg.writeReg
  refine (fetch_spec (B := B) (s := s6) (hregs.live.trans hlive)
    (Reu.c64_of (c := B.mem.stage) ?_ ?_ (by omega)) ?_
    (Reu.len_of (l := 2) ?_ ?_ (by omega)) ?_ (by omega) ?_).regsOnly hregs
  · simp [s6, s5, s4, s3, writeC64, MemMap.mulDmaLo]
  · simp [s6, s5, s4, s3, writeC64, MemMap.mulDmaLo]
  · have hhi : s6.reu.reg .reuHi = (asl v).1 := by
      simp [s6, s5, s4, s3, s2, r, writeC64]
    have hbk : s6.reu.reg .reuBank = (adc (BitVec.ofNat 8 B.reuBank) 0 (asl v).2).1 := by
      simp [s6, s5, s4, s3, bank, r, writeC64]
    rw [Reu.addr_of (by simp [s6, s5, s4, s3, writeC64]) rfl rfl, hhi, hbk]
    exact row_addr _ v (by split at hbank <;> omega)
  · simp [s6, s5, s4, s3, writeC64]
  · simp [s6, s5, s4, s3, writeC64]
  · simp [s6, s5, s4, s3, writeC64]
  · split at hbank <;> omega

/-- `reu_fetch_doubled_row` fetches the doubled row of `mul_cached_a`, and
then its carry row. -/
theorem reuFetchDoubledRow_fetched (hlive : s.reu.live = true) (hk : B.sqrDmaK ≠ 0)
    (hv : s.var .mulCachedA = v) :
    ∃ u, Fetched B.mem.stage (B.reuBankDoubled * 0x10000 + 0x200 * v.toNat) 0x200 s u ∧
      Fetched (B.mem.stage + 0x200) (B.reuBankCarry * 0x10000 + 0x100 * v.toNat) 0x100 u
        (reuFetchDoubledRow B s) := by
  have hbank := B.reuBank_le
  rw [if_neg hk] at hbank
  have hpl := B.mem.placed_stage
  unfold reuFetchDoubledRow
  extract_lets s1 s2 s3 r s4 bank s5 s6 s7 s8 s9 s10 s11 s12 s13
  -- the doubled row
  have hreg5 : RegsOnly s s5 :=
    (RegsOnly.writeRegs (l := latchWrites B.mem.mulDmaLo 2) (.refl s)).writeReg.writeReg
  have hrow : Fetched B.mem.stage (B.reuBankDoubled * 0x10000 + 0x200 * v.toNat) 0x200 s s7 := by
    refine (fetch_spec (B := B) (s := s5) (hreg5.live.trans hlive)
      (Reu.c64_of (c := B.mem.stage) ?_ ?_ (by omega)) ?_
      (Reu.len_of (l := 2) ?_ ?_ (by omega)) ?_ (by omega) ?_).regsOnly hreg5
    · simp [s5, s4, s3, s2, s1, writeC64, MemMap.mulDmaLo]
    · simp [s5, s4, s3, s2, s1, writeC64, MemMap.mulDmaLo]
    · have hhi : s5.reu.reg .reuHi = (asl v).1 := by
        simp [s5, s4, r, s3, s2, s1, writeC64, hv]
      have hbk : s5.reu.reg .reuBank = (adc (BitVec.ofNat 8 B.reuBankDoubled) 0 (asl v).2).1 := by
        simp [s5, bank, r, s3, s2, s1, writeC64, hv]
      rw [Reu.addr_of (by simp [s5, s4, s3, s2, s1, writeC64]) rfl rfl, hhi, hbk]
      exact row_addr _ v (by simp only [Build.reuBankDoubled]; omega)
    · simp [s5, s4, s3, s2, s1, writeC64]
    · simp [s5, s4, s3, s2, s1, writeC64]
    · simp [s5, s4, s3, s2, s1, writeC64]
    · simp only [Build.reuBankDoubled]
      omega
  -- the carry row
  have hv7 : s7.var .mulCachedA = v := (hrow.var _ rfl).trans hv
  have hreg12 : RegsOnly s7 s12 :=
    (RegsOnly.writeRegs (l := latchWrites B.mem.mulDmaCarry 1) (.refl s7)).writeReg.writeReg
  have hcarry : Fetched (B.mem.stage + 0x200) (B.reuBankCarry * 0x10000 + 0x100 * v.toNat) 0x100
      s7 (reuSettle B s13) := by
    refine (fetch_spec (B := B) (s := s12) (hreg12.live.trans (hrow.live.trans hlive))
      (Reu.c64_of (c := B.mem.stage + 0x200) ?_ ?_ (by omega)) ?_
      (Reu.len_of (l := 1) ?_ ?_ (by omega)) ?_ (by omega) ?_).regsOnly hreg12
    · simp [s12, s11, s10, s9, s8, writeC64, MemMap.mulDmaCarry]
    · simp [s12, s11, s10, s9, s8, writeC64, MemMap.mulDmaCarry]
    · have hhi : s12.reu.reg .reuHi = v := by
        simp [s12, s11, s10, s9, s8, writeC64, hv7]
      have hbk : s12.reu.reg .reuBank = BitVec.ofNat 8 B.reuBankCarry := by
        simp [s12]
      rw [Reu.addr_of (by simp [s12, s11, s10, s9, s8, writeC64]) rfl rfl, hhi, hbk,
        BitVec.toNat_ofNat, Nat.mod_eq_of_lt (by simp only [Build.reuBankCarry]; omega),
        Nat.mul_comm v.toNat]
    · simp [s12, s11, s10, s9, s8, writeC64]
    · simp [s12, s11, s10, s9, s8, writeC64]
    · simp [s12, s11, s10, s9, s8, writeC64]
    · simp only [Build.reuBankCarry]
      omega
  exact ⟨s7, hrow, hcarry⟩

/-- The inlined fetch, up to its command. -/
def mulRowReady (B : Build) (v : Byte) (s : Machine) : Machine :=
  (s.writeReg .reuHi (asl v).1).writeReg .reuBank (adc (BitVec.ofNat 8 B.reuBank) 0 (asl v).2).1

theorem mulRowDma_eq : mulRowDma B v s = reuSettle B ((mulRowReady B v s).reuCommand 0b10110001) :=
  rfl

theorem mulRowReady_only : RegsOnly s (mulRowReady B v s) := (RegsOnly.refl s).writeReg.writeReg

/-- All but the row's own two registers are the latch's. -/
theorem mulRowReady_reg (hl : FetchLatch B s) {x : Reg} (h1 : x ≠ .reuHi) (h2 : x ≠ .reuBank) :
    (mulRowReady B v s).reu.reg x = fetchReg B x := by
  rw [mulRowReady, writeReg_reu_reg, Function.update_of_ne h2, writeReg_reu_reg,
    Function.update_of_ne h1, hl.reg x h1 h2]

theorem mulRowReady_latch (hl : FetchLatch B s) {x : Reg} (h1 : x ≠ .reuHi) (h2 : x ≠ .reuBank)
    (h3 : x ≠ .addrCtrl) : (mulRowReady B v s).reu.latch x = fetchReg B x := by
  rw [mulRowReady, writeReg_reu_latch, Function.update_of_ne h2, writeReg_reu_latch,
    Function.update_of_ne h1, hl.latch x h1 h2 h3]

/-- **What the inlined fetch finds in the registers**: the latch's address
and length, both addresses counting, and the row it has set. -/
theorem mulRowReady_regs (hl : FetchLatch B s) :
    (mulRowReady B v s).reu.c64 = B.mem.stage ∧ (mulRowReady B v s).reu.len = 0x200 ∧
      (mulRowReady B v s).reu.reg .reuLo = 0 ∧ (mulRowReady B v s).reu.reg .addrCtrl = 0 ∧
      (mulRowReady B v s).reu.addr = B.reuBank * 0x10000 + 0x200 * v.toNat := by
  have hbank := B.reuBank_le
  have hpl := B.mem.placed_stage
  have hreg : ∀ {x : Reg}, x ≠ .reuHi → x ≠ .reuBank →
      (mulRowReady B v s).reu.reg x = fetchReg B x := mulRowReady_reg hl
  have hlo : (mulRowReady B v s).reu.reg .reuLo = 0 := hreg (by decide) (by decide)
  have hhi : (mulRowReady B v s).reu.reg .reuHi = (asl v).1 := by simp [mulRowReady]
  have hbk : (mulRowReady B v s).reu.reg .reuBank
      = (adc (BitVec.ofNat 8 B.reuBank) 0 (asl v).2).1 := by simp [mulRowReady]
  refine ⟨Reu.c64_of (hreg (by decide) (by decide)) (hreg (by decide) (by decide)) (by omega),
    Reu.len_of (l := 2) (hreg (by decide) (by decide))
      (by rw [hreg (by decide) (by decide)]; rfl) (by omega),
    hlo, hreg (by decide) (by decide), ?_⟩
  rw [Reu.addr_of hlo rfl rfl, hhi, hbk]
  exact row_addr _ v (by split at hbank <;> omega)

/-- The inlined fetch fetches the row in A. -/
theorem mulRowDma_fetched (hl : FetchLatch B s) (hlive : s.reu.live = true) :
    Fetched B.mem.stage (B.reuBank * 0x10000 + 0x200 * v.toNat) 0x200 s (mulRowDma B v s) := by
  have hbank := B.reuBank_le
  have hpl := B.mem.placed_stage
  obtain ⟨hc, hlen, -, hctl, haddr⟩ := mulRowReady_regs (v := v) hl
  rw [mulRowDma_eq]
  exact (fetch_spec (mulRowReady_only.live.trans hlive) hc haddr hlen hctl (by omega)
    (by split at hbank <;> omega)).regsOnly mulRowReady_only

/-- And autoload gives the latch back for the next one. -/
theorem mulRowDma_latch (hl : FetchLatch B s) (hlive : s.reu.live = true) :
    FetchLatch B (mulRowDma B v s) := by
  have hbank := B.reuBank_le
  have hpl := B.mem.placed_stage
  obtain ⟨hc, hlen, -, hctl, haddr⟩ := mulRowReady_regs (v := v) hl
  have hset := settles_fetch (B := B) (mulRowReady_only (B := B) (v := v).live.trans hlive)
    ⟨by rw [hctl]; rfl, by rw [hctl]; rfl, by omega, by split at hbank <;> omega⟩
  rw [mulRowDma_eq]
  refine ⟨fun x h1 h2 => ?_, fun x h1 h2 h3 => ?_⟩
  · rw [hset.reg]
    change (mulRowReady B v s).reu.reloaded x = _
    by_cases hx : x = .addrCtrl
    · rw [Reu.reloaded, if_pos hx, mulRowReady_reg hl h1 h2]
    · rw [Reu.reloaded, if_neg hx, mulRowReady_latch hl h1 h2 hx]
  · rw [hset.latch]
    exact mulRowReady_latch hl h1 h2 h3

end C64X25519
