import C64X25519.Model.Machine
/-!
# The 8×8 multiply and the row fetches

`ct_mul_8x8` of `mul_8x8.s`, and the resident half of `x25519_init.s`: the
two row fetches and the routine that clears the accumulator and restores
the fetch latch.
-/

namespace C64X25519

open Machine

variable (B : Build)

/-- The zero-page address `fe_wide+k` with an 8-bit sum. -/
def Build.wideAt (k : ℕ) : ℕ := (B.slot .feWide + k) % 0x100

/-- An `abs,X` operand whose page was patched and whose low byte is the
table's. -/
def pageOp (s : Machine) (x : Site) (table : ℕ) : ℕ := (s.opHi x).toNat * 0x100 + table % 0x100

/-- `ct_mul_8x8`: the product of the baked operand and `y`, as a
difference of quarter squares. -/
def ctMul8x8 (y : Byte) (s : Machine) : Machine :=
  -- sum = a + b; its carry selects the page of the two abs,X loads
  let sum := adc y (s.opLo .smcSumAImm) false
  let lo := adc (BitVec.ofNat 8 (B.mem.sqtabLo / 0x100)) 0 sum.2
  let s := s.patchHi [.smcLoAddr] lo.1
  let hi := adc lo.1 (BitVec.ofNat 8 (B.mem.sqtabHi / 0x100 - B.mem.sqtabLo / 0x100)) lo.2
  let s := s.patchHi [.smcHiAddr] hi.1
  -- |a - b| by sign mask
  let diff := sbc y (s.opLo .smcDiffAImm) true
  let s := s.setVar .ctDiffRaw diff.1
  let mask := sbc 0 0 diff.2
  let s := s.setVar .ctSignMask mask.1
  let abs := sbc (mask.1 ^^^ s.var .ctDiffRaw) (s.var .ctSignMask) true
  -- sqtab[a + b] - sqtab[|a - b|]
  let pl := sbc (s.ram (pageOp s .smcLoAddr B.mem.sqtabLo + sum.1.toNat))
    (s.ram (B.mem.sqtabLo + abs.1.toNat)) true
  let s := s.setVar .polyProdLo pl.1
  let ph := sbc (s.ram (pageOp s .smcHiAddr B.mem.sqtabHi + sum.1.toNat))
    (s.ram (B.mem.sqtabHi + abs.1.toNat)) pl.2
  s.setVar .polyProdHi ph.1

/-- `STA` of an address to the C64 address registers, low byte first. -/
def writeC64 (a : ℕ) (s : Machine) : Machine :=
  (s.writeReg .c64Lo (BitVec.ofNat 8 a)).writeReg .c64Hi (BitVec.ofNat 8 (a / 0x100))

/-- `reu_fetch_mul_row`, entered with the row in A. -/
def reuFetchMulRow (a : Byte) (s : Machine) : Machine :=
  let s := s.setVar .mulCachedA a
  let r := asl a
  let s := s.writeReg .reuHi r.1
  let bank := adc (BitVec.ofNat 8 B.reuBank) 0 r.2
  let s := s.writeReg .reuBank bank.1
  let s := writeC64 B.mem.mulDmaLo s
  let s := ((s.writeReg .reuLo 0).writeReg .lenLo 0).writeReg .addrCtrl 0
  let s := s.writeReg .lenHi 2
  let s := s.reuCommand 0b10110001
  reuSettle B s

/-- `reu_fetch_doubled_row`: the doubled row of `mul_cached_a`, then its
carry row. -/
def reuFetchDoubledRow (s : Machine) : Machine :=
  let s := writeC64 B.mem.mulDmaLo s
  let s := ((s.writeReg .reuLo 0).writeReg .lenLo 0).writeReg .addrCtrl 0
  let s := s.writeReg .lenHi 2
  let r := asl (s.var .mulCachedA)
  let s := s.writeReg .reuHi r.1
  let bank := adc (BitVec.ofNat 8 B.reuBankDoubled) 0 r.2
  let s := s.writeReg .reuBank bank.1
  let s := s.reuCommand 0b10110001
  let s := reuSettle B s
  -- the carry row: 256 bytes, at the row itself rather than twice it
  let s := writeC64 B.mem.mulDmaCarry s
  let s := ((s.writeReg .reuLo 0).writeReg .lenLo 0).writeReg .addrCtrl 0
  let s := s.writeReg .lenHi 1
  let s := s.writeReg .reuHi (s.var .mulCachedA)
  let s := s.writeReg .reuBank (BitVec.ofNat 8 B.reuBankCarry)
  let s := s.reuCommand 0b10110001
  reuSettle B s

/-- `reu_clear_wide`: zero the accumulator and, where there is a unit,
restore the fetch latch. -/
def reuClearWide (s : Machine) : Machine :=
  let s := loopDown (fun x s => s.setZp (B.wideAt x) 0) 64 s
  if B.onchip then s
  else
    let s := writeC64 B.mem.mulDmaLo s
    let s := s.writeReg .lenLo 0
    s.writeReg .lenHi 2

end C64X25519
