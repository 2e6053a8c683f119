import C64X25519.Model.Rows
/-!
# The processor around a transfer

`REU_SETTLE`, its slow path and the two row fetches again, instruction by
instruction, with the registers of the processor they run in. What the
routines of `Machine.lean` and `Rows.lean` keep local is here in the open:
A, X, Y, the carry and the zero flag.
-/

namespace C64X25519

/-- The registers of the processor, over the machine. -/
structure Cpu where
  a : Byte
  x : Byte
  y : Byte
  c : Bool
  z : Bool
  m : Machine

namespace Cpu

variable (t : Cpu)

/-! ## Instructions -/

/-- `LDA`, of the value `v`. -/
def lda (v : Byte) : Cpu := { t with a := v, z := decide (v = 0) }

/-- `AND`. -/
def and' (v : Byte) : Cpu := { t with a := t.a &&& v, z := decide (t.a &&& v = 0) }

/-- `EOR`. -/
def eor (v : Byte) : Cpu := { t with a := t.a ^^^ v, z := decide (t.a ^^^ v = 0) }

/-- `ORA`. -/
def ora (v : Byte) : Cpu := { t with a := t.a ||| v, z := decide (t.a ||| v = 0) }

/-- `ASL A`. -/
def asl : Cpu :=
  let r := C64X25519.asl t.a
  { t with a := r.1, c := r.2, z := decide (r.1 = 0) }

/-- `ADC`, with the carry of the processor. -/
def adc (v : Byte) : Cpu :=
  let r := C64X25519.adc t.a v t.c
  { t with a := r.1, c := r.2, z := decide (r.1 = 0) }

/-- `STA` to a variable. -/
def staVar (x : Var) : Cpu := { t with m := t.m.setVar x t.a }

/-- `STA` to a register of the unit. -/
def staReg (x : Reg) : Cpu := { t with m := t.m.writeReg x t.a }

/-- `STA reu_command`. -/
def staCommand : Cpu := { t with m := t.m.reuCommand t.a }

/-- `DEC` of a variable. -/
def decVar (x : Var) : Cpu :=
  let v := t.m.var x - 1
  { t with z := decide (v = 0), m := t.m.setVar x v }

/-- `LDA reu_status`. -/
def ldaStatus : Cpu :=
  let p := t.m.readStatus
  { t with a := p.1, z := decide (p.1 = 0), m := p.2 }

/-! ## Settling -/

variable (B : Build)

/-- One turn of `@check`, up to the branches that leave it. -/
def settleCheck (t : Cpu) : Cpu × Bool :=
  let t := (t.lda (t.m.var .x25519ReuSettleSmp)).and' 0x20
  let t := if t.z then t else
    let t := (t.lda 0x02).ora (t.m.var .x25519ReuFault)
    t.staVar .x25519ReuFault
  -- @no_b5
  let t := (t.lda (t.m.var .x25519ReuSettleSmp)).and' 0x40
  if !t.z then (t, false)
  else
    let t := t.decVar .x25519ReuSettleCnt
    if t.z then
      -- @expired
      let t := (t.lda 0x01).ora (t.m.var .x25519ReuFault)
      (t.staVar .x25519ReuFault, false)
    else
      let t := t.ldaStatus.and' 0x60
      (t.staVar .x25519ReuSettleSmp, true)

/-- `x25519_reu_settle_slow`. -/
def x25519ReuSettleSlow (t : Cpu) : Cpu :=
  let t := (t.eor 0x40).staVar .x25519ReuSettleSmp
  let t := (t.lda (BitVec.ofNat 8 B.settleIter)).staVar .x25519ReuSettleCnt
  doWhile settleCheck 0x100 t

/-- `REU_SETTLE`. -/
def reuSettle (t : Cpu) : Cpu :=
  let t := (t.ldaStatus.and' 0x60).eor 0x40
  if t.z then t else x25519ReuSettleSlow B t

/-! ## The row fetches -/

/-- `LDA #<(a)` / `STA reu_c64_lo` / `LDA #>(a)` / `STA reu_c64_hi`. -/
def staC64 (a : ℕ) (t : Cpu) : Cpu :=
  let t := (t.lda (BitVec.ofNat 8 a)).staReg .c64Lo
  (t.lda (BitVec.ofNat 8 (a / 0x100))).staReg .c64Hi

/-- `reu_fetch_mul_row`, entered with the row in A. -/
def reuFetchMulRow (t : Cpu) : Cpu :=
  let t := (t.staVar .mulCachedA).asl.staReg .reuHi
  let t := ((t.lda (BitVec.ofNat 8 B.reuBank)).adc 0).staReg .reuBank
  let t := t.staC64 B.mem.mulDmaLo
  let t := (((t.lda 0).staReg .reuLo).staReg .lenLo).staReg .addrCtrl
  let t := (t.lda 2).staReg .lenHi
  let t := (t.lda 0b10110001).staCommand
  reuSettle B t

/-- `reu_fetch_doubled_row`. -/
def reuFetchDoubledRow (t : Cpu) : Cpu :=
  let t := t.staC64 B.mem.mulDmaLo
  let t := (((t.lda 0).staReg .reuLo).staReg .lenLo).staReg .addrCtrl
  let t := (t.lda 2).staReg .lenHi
  let t := (t.lda (t.m.var .mulCachedA)).asl.staReg .reuHi
  let t := ((t.lda (BitVec.ofNat 8 B.reuBankDoubled)).adc 0).staReg .reuBank
  let t := (t.lda 0b10110001).staCommand
  let t := reuSettle B t
  -- the carry row
  let t := t.staC64 B.mem.mulDmaCarry
  let t := (((t.lda 0).staReg .reuLo).staReg .lenLo).staReg .addrCtrl
  let t := (t.lda 1).staReg .lenHi
  let t := (t.lda (t.m.var .mulCachedA)).staReg .reuHi
  let t := (t.lda (BitVec.ofNat 8 B.reuBankCarry)).staReg .reuBank
  let t := (t.lda 0b10110001).staCommand
  reuSettle B t

end Cpu

end C64X25519
