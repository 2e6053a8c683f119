import C64X25519.Model.Rows
/-!
# Initialisation

`sqtab_init`, `reu_mul_init` and `x25519_sqr_tables_init`: the
quarter-square table by its recurrence, the product rows into the
expansion unit, and the doubled and carry rows behind them.
-/

namespace C64X25519

open Machine

variable (B : Build)

/-! ## `sqtab_init` -/

/-- `sq_acc` shifted right by two, into `sq_sh`. -/
def sqShift (s : Machine) : Machine :=
  let r := lsr (s.var .sqAcc2)
  let s := s.setVar .sqSh2 r.1
  let r := ror (s.var .sqAcc1) r.2
  let s := s.setVar .sqSh1 r.1
  let r := ror (s.var .sqAcc0) r.2
  let s := s.setVar .sqSh0 r.1
  let r := lsr (s.var .sqSh2)
  let s := s.setVar .sqSh2 r.1
  let r := ror (s.var .sqSh1) r.2
  let s := s.setVar .sqSh1 r.1
  s.setVar .sqSh0 (ror (s.var .sqSh0) r.2).1

/-- The two table bytes of the index `sq_i`. -/
def sqStore (s : Machine) : Machine :=
  let x := (s.var .sqI0).toNat
  if s.var .sqI1 = 0 then
    let s := s.setRam (B.mem.sqtabLo + x) (s.var .sqSh0)
    s.setRam (B.mem.sqtabHi + x) (s.var .sqSh1)
  else
    let s := s.setRam (B.mem.sqtabLo + 0x100 + x) (s.var .sqSh0)
    s.setRam (B.mem.sqtabHi + 0x100 + x) (s.var .sqSh1)

/-- `INC lo` / `BNE` / `INC hi`. -/
def incVar (lo hi : Var) (s : Machine) : Machine :=
  let s := s.setVar lo (s.var lo + 1)
  if s.var lo = 0 then s.setVar hi (s.var hi + 1) else s

/-- `sq_acc += 2 * sq_i + 1`. -/
def sqAdvance (s : Machine) : Machine :=
  let r := asl (s.var .sqI0)
  let s := s.setVar .sqAd0 r.1
  let s := s.setVar .sqAd1 (rol (s.var .sqI1) r.2).1
  let s := incVar .sqAd0 .sqAd1 s
  let r := adc (s.var .sqAcc0) (s.var .sqAd0) false
  let s := s.setVar .sqAcc0 r.1
  let r := adc (s.var .sqAcc1) (s.var .sqAd1) r.2
  let s := s.setVar .sqAcc1 r.1
  s.setVar .sqAcc2 (adc (s.var .sqAcc2) 0 r.2).1

/-- One turn of the loop of `sqtab_init`. -/
def sqtabBody (s : Machine) : Machine × Bool :=
  let s := sqAdvance (sqStore B (sqShift s))
  let s := incVar .sqI0 .sqI1 s
  (s, s.var .sqI1 != 2)

/-- `sqtab_init`. The index is two bytes, so 65536 turns bound the loop. -/
def sqtabInit (s : Machine) : Machine :=
  let s := ((s.setVar .sqAcc0 0).setVar .sqAcc1 0).setVar .sqAcc2 0
  let s := (s.setVar .sqI0 0).setVar .sqI1 0
  doWhile (sqtabBody B) 0x10000 s

/-! ## Rows into the expansion unit -/

/-- The stash command, and its settling. -/
def stash (s : Machine) : Machine := reuSettle B (s.reuCommand 0b10110000)

/-- One turn of the doubling loop of `X25519_DBL_STASH_ROW`. -/
def doubleEntry (x : ℕ) (s : Machine) : Machine :=
  let lo := B.mem.mulDmaLo + x
  let hi := B.mem.mulDmaHi + x
  let s := s.setRam (B.mem.mulDmaCarry + x) (rol 0 (asl (s.ram hi)).2).1
  let r := asl (s.ram lo)
  let s := s.setRam lo r.1
  s.setRam hi (rol (s.ram hi) r.2).1

/-- The macro `X25519_DBL_STASH_ROW`: the staged row doubled in place, its
17th bits apart, and three stashes. Address control is written before the
command in all three, with `$01` in the last two; of that byte the unit
reads bits 7 and 6. -/
def x25519DblStashRow (row : Var) (s : Machine) : Machine :=
  let s := loopUp (doubleEntry B) 0x100 s
  -- the low page
  let s := (writeC64 B.mem.mulDmaLo s).writeReg .reuLo 0
  let r := asl (s.var row)
  let s := s.writeReg .reuHi r.1
  let s := s.writeReg .reuBank (adc (BitVec.ofNat 8 B.reuBankDoubled) 0 r.2).1
  let s := ((s.writeReg .lenLo 0).writeReg .lenHi 1).writeReg .addrCtrl 1
  let s := stash B (s.writeReg .addrCtrl 0)
  -- the high page
  let s := (writeC64 B.mem.mulDmaHi s).writeReg .reuLo 0
  let r := asl (s.var row)
  let s := s.writeReg .reuBank (adc (BitVec.ofNat 8 B.reuBankDoubled) 0 r.2).1
  let s := s.writeReg .reuHi ((asl (s.var row)).1 ||| 1)
  let s := stash B (((s.writeReg .lenLo 0).writeReg .lenHi 1).writeReg .addrCtrl 1)
  -- the carry page
  let s := (writeC64 B.mem.mulDmaCarry s).writeReg .reuLo 0
  let s := s.writeReg .reuHi (s.var row)
  let s := s.writeReg .reuBank (BitVec.ofNat 8 B.reuBankCarry)
  stash B (((s.writeReg .lenLo 0).writeReg .lenHi 1).writeReg .addrCtrl 1)

/-- The fetch latch the initialisers leave behind. -/
def restoreFetchLatch (s : Machine) : Machine :=
  let s := (writeC64 B.mem.mulDmaLo s).writeReg .reuLo 0
  ((s.writeReg .lenLo 0).writeReg .addrCtrl 0).writeReg .lenHi 2

/-! ## `reu_mul_init` -/

/-- One turn of `@inner`: the product of the baked `a` and `b`. -/
def reuMulEntry (s : Machine) : Machine × Bool :=
  let s := ctMul8x8 B (s.var .reuInitB) s
  let x := (s.var .reuInitB).toNat
  let s := s.setRam (B.mem.mulDmaLo + x) (s.var .polyProdLo)
  let s := s.setRam (B.mem.mulDmaHi + x) (s.var .polyProdHi)
  let s := s.setVar .reuInitB (s.var .reuInitB + 1)
  (s, s.var .reuInitB != 0)

/-- The two stashes of the row of `reu_init_a`. -/
def reuMulStash (s : Machine) : Machine :=
  -- the low page
  let s := (writeC64 B.mem.mulDmaLo s).writeReg .reuLo 0
  let r := asl (s.var .reuInitA)
  let s := s.writeReg .reuHi r.1
  let s := s.writeReg .reuBank (adc (BitVec.ofNat 8 B.reuBank) 0 r.2).1
  let s := stash B (((s.writeReg .lenLo 0).writeReg .lenHi 1).writeReg .addrCtrl 0)
  -- the high page
  let s := (writeC64 B.mem.mulDmaHi s).writeReg .reuLo 0
  let r := asl (s.var .reuInitA)
  let s := s.writeReg .reuBank (adc (BitVec.ofNat 8 B.reuBank) 0 r.2).1
  let s := s.writeReg .reuHi ((asl (s.var .reuInitA)).1 ||| 1)
  stash B (((s.writeReg .lenLo 0).writeReg .lenHi 1).writeReg .addrCtrl 0)

/-- One turn of `@outer`. -/
def reuMulOuter (s : Machine) : Machine × Bool :=
  let s := s.patchLo [.smcSumAImm, .smcDiffAImm] (s.var .reuInitA)
  let s := s.setVar .reuInitB 0
  let s := doWhile (reuMulEntry B) 0x100 s
  let s := reuMulStash B s
  let s := if B.sqrDmaK ≠ 0 then x25519DblStashRow B .reuInitA s else s
  let s := s.setVar .reuInitA (s.var .reuInitA + 1)
  (s, s.var .reuInitA != 0)

/-- `reu_mul_init`. -/
def reuMulInit (s : Machine) : Machine :=
  let s := (s.setVar .x25519ReuFault 0).setVar .reuInitA 0
  restoreFetchLatch B (doWhile (reuMulOuter B) 0x100 s)

/-! ## `x25519_sqr_tables_init` -/

/-- One turn of `@outer`: the provider's row of `row`, doubled. -/
def sqrTablesOuter (s : Machine) : Machine × Bool :=
  let s := (writeC64 B.mem.mulDmaLo s).writeReg .reuLo 0
  let s := ((s.writeReg .lenLo 0).writeReg .addrCtrl 0).writeReg .lenHi 2
  let r := asl (s.var .sqrTablesRow)
  let s := s.writeReg .reuHi r.1
  let s := s.writeReg .reuBank (adc (BitVec.ofNat 8 B.reuBank) 0 r.2).1
  let s := reuSettle B (s.reuCommand 0b10110001)
  let s := x25519DblStashRow B .sqrTablesRow s
  let s := s.setVar .sqrTablesRow (s.var .sqrTablesRow + 1)
  (s, s.var .sqrTablesRow != 0)

/-- `x25519_sqr_tables_init`. -/
def x25519SqrTablesInit (s : Machine) : Machine :=
  let s := (s.setVar .x25519ReuFault 0).setVar .sqrTablesRow 0
  restoreFetchLatch B (doWhile (sqrTablesOuter B) 0x100 s)

end C64X25519
