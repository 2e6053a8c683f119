import C64X25519.Helpers.Transfer
import C64X25519.Helpers.Wide
/-!
# Tables and the fetch latch

What the initialisers leave in the expansion unit, and what the field
routines rely on: the product rows, the doubled and carry rows behind them,
the quarter squares, and — within a multiplication — the registers a row
fetch does not write.
-/

namespace C64X25519

open Machine

variable {B : Build} {s t : Machine} {D : ℕ → Prop}

/-! ## The tables -/

/-- The rows of `a * b`: bank `base + (a >> 7)`, offset `a * 512 mod 65536`,
low page and high page. -/
structure MulRows (B : Build) (s : Machine) : Prop where
  lo : ∀ a b : Byte, s.reu.mem (B.reuBank * 0x10000 + 0x200 * a.toNat + b.toNat)
    = BitVec.ofNat 8 (a.toNat * b.toNat)
  hi : ∀ a b : Byte, s.reu.mem (B.reuBank * 0x10000 + 0x200 * a.toNat + 0x100 + b.toNat)
    = BitVec.ofNat 8 (a.toNat * b.toNat / 0x100)

/-- The rows of `2 * a * b`: its low 16 bits likewise in the doubled banks,
and bit 16 in the carry bank. -/
structure DoubledRows (B : Build) (s : Machine) : Prop where
  lo : ∀ a b : Byte, s.reu.mem (B.reuBankDoubled * 0x10000 + 0x200 * a.toNat + b.toNat)
    = BitVec.ofNat 8 (2 * (a.toNat * b.toNat))
  hi : ∀ a b : Byte, s.reu.mem (B.reuBankDoubled * 0x10000 + 0x200 * a.toNat + 0x100 + b.toNat)
    = BitVec.ofNat 8 (2 * (a.toNat * b.toNat) / 0x100)
  carry : ∀ a b : Byte, s.reu.mem (B.reuBankCarry * 0x10000 + 0x100 * a.toNat + b.toNat)
    = BitVec.ofNat 8 (2 * (a.toNat * b.toNat) / 0x10000)

/-- A quarter square, rounded down. -/
def quarter (n : ℕ) : ℕ := n * n / 4

/-- The quarter squares, 512 of them in a low and a high table. -/
structure Sqtab (B : Build) (s : Machine) : Prop where
  lo : ∀ n, n < 512 → s.ram (B.mem.sqtabLo + n) = BitVec.ofNat 8 (quarter n)
  hi : ∀ n, n < 512 → s.ram (B.mem.sqtabHi + n) = BitVec.ofNat 8 (quarter n / 0x100)

/-- **The library initialised**: the tables of the build, a unit that
answers where there is one, and the guard byte of `mul_src2_buf`. -/
structure Ready (B : Build) (s : Machine) : Prop where
  sqtab : Sqtab B s
  live : B.onchip = false → s.reu.live = true
  mulRows : B.onchip = false → MulRows B s
  doubled : B.sqrDmaK ≠ 0 → DoubledRows B s
  guard : s.ram (B.mem.mulSrc2Buf + 32) = 0

theorem Sqtab.frame (h : Sqtab B s) (hf : Frame B D s t)
    (hD : ∀ a, D a → ¬ (B.mem.sqtab ≤ a ∧ a < B.mem.sqtab + 0x400)) : Sqtab B t where
  lo n hn := by
    rw [hf.ram _ fun hd => hD _ hd ⟨by simp only [MemMap.sqtabLo]; omega, by
      simp only [MemMap.sqtabLo]; omega⟩]
    exact h.lo n hn
  hi n hn := by
    rw [hf.ram _ fun hd => hD _ hd ⟨by simp only [MemMap.sqtabHi]; omega, by
      simp only [MemMap.sqtabHi]; omega⟩]
    exact h.hi n hn

/-- What a routine that keeps the frame does to the tables: nothing. -/
theorem Ready.frame (h : Ready B s) (hf : Frame B D s t)
    (hsq : ∀ a, D a → ¬ (B.mem.sqtab ≤ a ∧ a < B.mem.sqtab + 0x400))
    (hg : ¬ D (B.mem.mulSrc2Buf + 32)) : Ready B t where
  sqtab := h.sqtab.frame hf hsq
  live hb := hf.live.trans (h.live hb)
  mulRows hb := ⟨by rw [hf.mem]; exact (h.mulRows hb).lo, by rw [hf.mem]; exact (h.mulRows hb).hi⟩
  doubled hk := ⟨by rw [hf.mem]; exact (h.doubled hk).lo, by rw [hf.mem]; exact (h.doubled hk).hi,
    by rw [hf.mem]; exact (h.doubled hk).carry⟩
  guard := (hf.ram _ hg).trans h.guard

/-- What `fe25519_mul` relies on: the product rows and a unit that answers,
or where there is none the quarter squares. -/
structure MulReady (B : Build) (s : Machine) : Prop where
  sqtab : B.onchip = true → Sqtab B s
  live : B.onchip = false → s.reu.live = true
  mulRows : B.onchip = false → MulRows B s

theorem Ready.mul (h : Ready B s) : MulReady B s := ⟨fun _ => h.sqtab, h.live, h.mulRows⟩

/-! ## The fetch latch -/

/-- The registers of a row fetch that a row does not write, as
`reu_clear_wide` and the entry stores leave them. -/
def fetchReg (B : Build) : Reg → Byte
  | .c64Lo => BitVec.ofNat 8 B.mem.mulDmaLo
  | .c64Hi => BitVec.ofNat 8 (B.mem.mulDmaLo / 0x100)
  | .lenHi => 2
  | _ => 0

/-- The registers of the unit are set for a row fetch, and so is the latch
that autoload puts back. -/
structure FetchLatch (B : Build) (s : Machine) : Prop where
  reg : ∀ x, x ≠ .reuHi → x ≠ .reuBank → s.reu.reg x = fetchReg B x
  latch : ∀ x, x ≠ .reuHi → x ≠ .reuBank → x ≠ .addrCtrl → s.reu.latch x = fetchReg B x

theorem FetchLatch.congr (h : FetchLatch B s) (hr : t.reu.reg = s.reu.reg)
    (hl : t.reu.latch = s.reu.latch) : FetchLatch B t :=
  ⟨by rw [hr]; exact h.reg, by rw [hl]; exact h.latch⟩

/-- The entry stores and the clearing routine set the whole latch. -/
theorem fetchLatch_entry (hon : B.onchip = false) :
    FetchLatch B (reuClearWide B (entryStores B s)) := by
  have hz : ∀ t : Machine, (loopDown (fun x s => s.setZp (B.wideAt x) 0) 64 t).reu = t.reu :=
    fun t => loopDown_inv (fun _ (u : Machine) => u.reu = t.reu) rfl fun _ _ _ hu => hu
  constructor
  · intro x h1 h2
    simp only [reuClearWide, entryStores, hon, Bool.false_eq_true, if_false, writeC64,
      writeReg_reu_reg, hz]
    cases x <;> simp [fetchReg, Function.update] at h1 h2 ⊢
  · intro x h1 h2 h3
    simp only [reuClearWide, entryStores, hon, Bool.false_eq_true, if_false, writeC64,
      writeReg_reu_latch, hz]
    cases x <;> simp [fetchReg, Function.update] at h1 h2 h3 ⊢

/-! ## Addresses the registers spell -/

/-- `ASL` of a row number and `ADC #0` into a bank number: the row is 512
bytes, and the carry of its doubling is its bank. -/
theorem row_addr (bank : ℕ) (a : Byte) (h : bank < 0xff) :
    (adc (BitVec.ofNat 8 bank) 0 (asl a).2).1.toNat * 0x10000 + (asl a).1.toNat * 0x100
      = bank * 0x10000 + 0x200 * a.toNat := by
  have ha := asl_val a
  have hc := carry_le (asl a).2
  have hb : (BitVec.ofNat 8 bank).toNat = bank := by
    rw [BitVec.toNat_ofNat]
    exact Nat.mod_eq_of_lt (by omega)
  have hadc := adc_fst_of_lt (a := BitVec.ofNat 8 bank) (m := 0) (c := (asl a).2)
    (by rw [hb]; change bank + 0 + _ < 256; omega)
  rw [hadc, hb]
  change (bank + 0 + _) * 0x10000 + _ = _
  omega

end C64X25519
