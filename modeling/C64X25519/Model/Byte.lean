import C64X25519.Common.Radix
import Mathlib.Data.Nat.Notation
/-!
# Bytes and the arithmetic of the 6502

The accumulator instructions the routines use, as functions of their
operands and the carry flag, in binary mode (the decimal flag clear). Each
returns the byte and the carry it leaves. `ADC` carries the whole
development: the rest of the arithmetic is `ADC` of a complement or of the
operand itself.
-/

namespace C64X25519

/-- A byte. -/
abbrev Byte := BitVec 8

/-- `ADC`: add with carry. -/
def adc (a m : Byte) (c : Bool) : Byte × Bool :=
  let t := a.toNat + m.toNat + c.toNat
  (BitVec.ofNat 8 t, decide (0x100 ≤ t))

/-- `SBC`: add the complement with carry, so that a clear carry borrows. -/
def sbc (a m : Byte) (c : Bool) : Byte × Bool := adc a (~~~m) c

/-- `ASL`. -/
def asl (a : Byte) : Byte × Bool := (BitVec.ofNat 8 (2 * a.toNat), decide (0x80 ≤ a.toNat))

/-- `ROL`. -/
def rol (a : Byte) (c : Bool) : Byte × Bool :=
  (BitVec.ofNat 8 (2 * a.toNat + c.toNat), decide (0x80 ≤ a.toNat))

/-- `LSR`. -/
def lsr (a : Byte) : Byte × Bool := (BitVec.ofNat 8 (a.toNat / 2), decide (a.toNat % 2 = 1))

/-- `ROR`. -/
def ror (a : Byte) (c : Bool) : Byte × Bool :=
  (BitVec.ofNat 8 (a.toNat / 2 + 0x80 * c.toNat), decide (a.toNat % 2 = 1))

/-- The carry `CMP`, `CPX` and `CPY` leave. -/
def cmp (a m : Byte) : Bool := decide (m.toNat ≤ a.toNat)

variable {a m : Byte} {c : Bool}

theorem toNat_decide (p : Prop) [Decidable p] : (decide p).toNat = if p then 1 else 0 := by
  by_cases h : p <;> simp [h]

theorem carry_le (c : Bool) : c.toNat ≤ 1 := Bool.toNat_le c

/-- **`ADC` loses nothing**: the byte and the carry are the sum. -/
theorem adc_val (a m : Byte) (c : Bool) :
    (adc a m c).1.toNat + 256 * (adc a m c).2.toNat = a.toNat + m.toNat + c.toNat := by
  have hc := carry_le c
  simp only [adc, BitVec.toNat_ofNat, toNat_decide]
  split <;> omega

/-- **`SBC` loses nothing**, the borrow being the complement of the carry. -/
theorem sbc_val (a m : Byte) (c : Bool) :
    (sbc a m c).1.toNat + m.toNat + (!c).toNat = a.toNat + 256 * (!(sbc a m c).2).toNat := by
  have h := adc_val a (~~~m) c
  rw [BitVec.toNat_not] at h
  have hn : ∀ b : Bool, (!b).toNat = 1 - b.toNat := by decide
  have hc := carry_le c
  have hc' := carry_le (adc a (~~~m) c).2
  simp only [sbc, hn]
  omega

theorem asl_val (a : Byte) : (asl a).1.toNat + 256 * (asl a).2.toNat = 2 * a.toNat := by
  simp only [asl, BitVec.toNat_ofNat, toNat_decide]
  split <;> omega

theorem rol_val (a : Byte) (c : Bool) :
    (rol a c).1.toNat + 256 * (rol a c).2.toNat = 2 * a.toNat + c.toNat := by
  have hc := carry_le c
  simp only [rol, BitVec.toNat_ofNat, toNat_decide]
  split <;> omega

theorem lsr_val (a : Byte) : 2 * (lsr a).1.toNat + (lsr a).2.toNat = a.toNat := by
  simp only [lsr, BitVec.toNat_ofNat, toNat_decide]
  split <;> omega

theorem ror_val (a : Byte) (c : Bool) :
    2 * (ror a c).1.toNat + (ror a c).2.toNat = a.toNat + 256 * c.toNat := by
  have hc := carry_le c
  simp only [ror, BitVec.toNat_ofNat, toNat_decide]
  split <;> omega

/-- A sum of bytes that fits a byte is the accumulator after `ADC`. -/
theorem adc_fst_of_lt {a m : Byte} {c : Bool} (h : a.toNat + m.toNat + c.toNat < 256) :
    (adc a m c).1.toNat = a.toNat + m.toNat + c.toNat := by
  rw [adc, BitVec.toNat_ofNat]
  exact Nat.mod_eq_of_lt h

/-- A difference that does not borrow is the accumulator after `SEC`/`SBC`. -/
theorem sbc_fst_of_le {a m : Byte} (h : m.toNat ≤ a.toNat) :
    (sbc a m true).1.toNat = a.toNat - m.toNat := by
  have hsub : _ + m.toNat + 0 = _ := sbc_val a m true
  have hc := carry_le (!(sbc a m true).2)
  have hlt := (sbc a m true).1.isLt
  omega

/-- It leaves the carry set. -/
theorem sbc_snd_of_le {a m : Byte} (h : m.toNat ≤ a.toNat) : (sbc a m true).2 = true := by
  have hsub : _ + m.toNat + 0 = _ := sbc_val a m true
  have hlt := (sbc a m true).1.isLt
  cases hc : (sbc a m true).2
  · rw [hc] at hsub
    change _ = a.toNat + 256 * 1 at hsub
    omega
  · rfl

/-- The carry as a byte. -/
theorem adc_zero_fst (c : Bool) : (adc 0 0 c).1.toNat = c.toNat := by cases c <;> rfl

/-- The zero flag's complement. -/
theorem bne_zero (a : Byte) : (a != 0) = decide (0 < a.toNat) := by
  rw [Bool.eq_iff_iff, bne_iff_ne, decide_eq_true_iff, Nat.pos_iff_ne_zero]
  refine not_congr ⟨fun h => by rw [h]; rfl, fun h => BitVec.eq_of_toNat_eq h⟩

/-- A byte counted down. -/
theorem toNat_sub_one {a : Byte} {n : ℕ} (h : a.toNat = n + 1) : (a - 1).toNat = n := by
  rw [BitVec.toNat_sub, h, show (1 : Byte).toNat = 1 from rfl]
  omega

/-- A byte counted up. -/
theorem toNat_add_one {a : Byte} {n : ℕ} (h : a.toNat = n) (hn : n < 255) :
    (a + 1).toNat = n + 1 := by
  rw [BitVec.toNat_add, h, show (1 : Byte).toNat = 1 from rfl]
  exact Nat.mod_eq_of_lt (by omega)

/-- `$FF` or `$00`. -/
def mask (b : Bool) : Byte := if b then 0xff else 0

/-- `LDA #0` / `SBC #0`: the mask of a clear carry. -/
@[simp] theorem sbc_zero_zero (c : Bool) : (sbc 0 0 c).1 = mask (!c) := by cases c <;> rfl

/-- `EOR #$FF`. -/
@[simp] theorem mask_xor_ff (b : Bool) : mask b ^^^ 0xff = mask (!b) := by cases b <;> rfl

@[simp] theorem mask_or (b c : Bool) : mask b ||| mask c = mask (b || c) := by
  cases b <;> cases c <;> rfl

@[simp] theorem mask_xor (b c : Bool) : mask b ^^^ mask c = mask (b ^^ c) := by
  cases b <;> cases c <;> rfl

/-! ## Little-endian windows -/

/-- The number the `n` bytes `f 0, …, f (n - 1)` spell, low byte first. -/
def leNat (f : ℕ → Byte) (n : ℕ) : ℕ := Radix.value 256 (fun i => (f i).toNat) n

variable {f g : ℕ → Byte} {n k : ℕ}

@[simp] theorem leNat_zero : leNat f 0 = 0 := rfl

theorem leNat_succ : leNat f (n + 1) = leNat f n + (f n).toNat * 256 ^ n := Radix.value_succ

theorem leNat_congr (h : ∀ i, i < n → f i = g i) : leNat f n = leNat g n :=
  Radix.value_congr fun i hi => by rw [h i hi]

theorem leNat_lt : leNat f n < 256 ^ n := Radix.value_lt fun i _ => (f i).isLt

theorem leNat_update (v : Byte) (hk : k < n) :
    leNat (Function.update f k v) n + (f k).toNat * 256 ^ k
      = leNat f n + v.toNat * 256 ^ k := by
  have h := Radix.value_update (b := 256) (f := fun i => (f i).toNat) v.toNat hk
  refine Eq.trans (congrArg (· + (f k).toNat * 256 ^ k) (Radix.value_congr fun i _ => ?_)) h
  rcases eq_or_ne i k with rfl | hne
  · simp
  · simp [Function.update_of_ne hne]

/-- A window is determined by its number. -/
theorem byte_of_leNat (hk : k < n) : f k = BitVec.ofNat 8 (leNat f n / 256 ^ k) := by
  apply BitVec.eq_of_toNat_eq
  rw [BitVec.toNat_ofNat]
  exact (Radix.value_digit (f := fun i => (f i).toNat) (fun i _ => (f i).isLt) hk).symm

theorem leNat_inj (h : leNat f n = leNat g n) (hk : k < n) : f k = g k := by
  rw [byte_of_leNat (f := f) hk, byte_of_leNat (f := g) hk, h]

/-- The low `n` bytes of a number. -/
theorem leNat_ofNat (v : ℕ) :
    leNat (fun i => BitVec.ofNat 8 (v / 256 ^ i)) n = v % 256 ^ n := by
  rw [← Radix.value_digits (b := 256)]
  exact Radix.value_congr fun i _ => BitVec.toNat_ofNat _ _

theorem leNat_split (m : ℕ) :
    leNat f (n + m) = leNat f n + 256 ^ n * leNat (fun i => f (n + i)) m := Radix.value_split

theorem leNat_mono (h : n ≤ k) : leNat f n ≤ leNat f k := by
  obtain ⟨m, rfl⟩ := Nat.exists_eq_add_of_le h
  rw [leNat_split]
  exact Nat.le_add_right _ _

end C64X25519
