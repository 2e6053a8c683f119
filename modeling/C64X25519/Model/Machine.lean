import C64X25519.Common.Loop
import C64X25519.Model.Build
import Mathlib.Tactic.Simps.Basic
/-!
# The machine — memory, patched operands and the expansion unit

The state the routines pass along. Page zero is an array of its own, so
that a `zp,X` operand wraps in it; the rest of the 64 KB is `ram`. An
operand byte the code patches is a cell of `opLo` or `opHi`, named by the
label of its instruction, and a byte variable of the code or data segment
is a cell of `var`. The registers A, X, Y and the carry are local to each
routine.

The expansion unit is its registers, the autoload latch behind them, its
own memory, the stream of values its status register will show, and a log
of the accesses made to it.
-/

namespace C64X25519

/-- The copies of an unrolled loop body. -/
inductive Body
  | a | b | c | d
deriving DecidableEq, Repr

/-- The instructions whose operand the code patches, by label. -/
inductive Site
  -- fe25519_add, fe25519_sub, fe_cmp_p_ct, fe25519_reduce_final
  | addLdSrc1 | addLdSrc2 | addStDst | addSubLdDst | addSubStDst
  | subLdSrc1 | subLdSrc2 | subStDst | subAddLdDst | subAddStDst
  | cmpLdDst
  | subLdDst1 | subStDst1 | subLdDst2 | subStDst2
  -- fe25519_cswap
  | ldA (u : Body) | stA (u : Body) | eorB (u : Body) | ldB (u : Body) | stB (u : Body)
  -- fe25519_mul
  | loadSrc1 | ldySrc2 (u : Body) | genSrc2A | genSrc2B
  | accumLd1 (u : Body) | accumSt1 (u : Body) | accumLd2 (u : Body) | accumSt2 (u : Body)
  | chainLd (u : Body) | chainSt (u : Body)
  -- fe25519_sqr, rows through mult66
  | sqrAccumLd1 (u : Body) | sqrAccumSt1 (u : Body)
  | sqrAccumLd2 (u : Body) | sqrAccumSt2 (u : Body)
  | sqrChainLd (u : Body) | sqrChainSt (u : Body)
  | ctSumLoadLo (u : Body) | ctSumLoadHi (u : Body)
  -- fe25519_sqr, rows through DMA
  | sqrDmaLd1 (u : Body) | sqrDmaSt1 (u : Body) | sqrDmaLd2 (u : Body) | sqrDmaSt2 (u : Body)
  | sqrDmaChainLd (u : Body) | sqrDmaChainSt (u : Body)
  -- ct_mul_8x8
  | smcSumAImm | smcDiffAImm | smcLoAddr | smcHiAddr
deriving DecidableEq, Repr

/-- Where the trampoline of `fe25519_sqr` jumps. -/
inductive SqrInner
  | sqrInner | sqrInnerDma
deriving DecidableEq, Repr

/-- The byte variables outside page zero. -/
inductive Var
  | mulCachedA | polyProdLo | polyProdHi
  | ctDiffRaw | ctSignMask
  | sqrMask | sqrTmpB | sqrBound | sqrPending | sqrRippleStart
  | feInvDstLo | feInvDstHi | feInvSqrCnt
  | x25519ReuFault | x25519ReuSettleCnt | x25519ReuSettleSmp
  | reuInitA | reuInitB | sqrTablesRow
  | sqAcc0 | sqAcc1 | sqAcc2 | sqSh0 | sqSh1 | sqSh2 | sqAd0 | sqAd1 | sqI0 | sqI1
  | origByte | rtByte
  | saveC64Lo | saveC64Hi | saveReuLo | saveReuHi | saveReuBank | saveLenLo | saveLenHi
deriving DecidableEq, Repr

/-! ## The expansion unit -/

/-- The address and length registers, `$DF02`–`$DF08`, and address control,
`$DF0A`. -/
inductive Reg
  | c64Lo | c64Hi | reuLo | reuHi | reuBank | lenLo | lenHi | addrCtrl
deriving DecidableEq, Repr

/-- One access to a register of the unit. -/
inductive Access
  | write (r : Reg) (v : Byte)
  | execute (cmd : Byte) (reg : Reg → Byte)
  | readStatus (v : Byte)
  | read (r : Reg) (v : Byte)

/-- The expansion unit, as the library sees it. -/
structure Reu where
  /-- What a read of a register shows, and what a transfer goes by. -/
  reg : Reg → Byte
  /-- What autoload puts back: the last value written. -/
  latch : Reg → Byte
  /-- The unit's memory, by 24-bit address. -/
  mem : ℕ → Byte
  /-- What the next reads of `$DF00` will show. -/
  status : ℕ → Byte
  /-- Whether a transfer takes effect. -/
  live : Bool
  /-- The accesses so far, newest first. -/
  log : List Access

namespace Reu

variable (r : Reu)

/-- The address on the C64 side. -/
def c64 : ℕ := (r.reg .c64Hi).toNat * 0x100 + (r.reg .c64Lo).toNat

/-- The 24-bit address on the unit's side. -/
def addr : ℕ :=
  (r.reg .reuBank).toNat * 0x10000 + (r.reg .reuHi).toNat * 0x100 + (r.reg .reuLo).toNat

/-- The transfer length; a length of zero transfers 64 KB. -/
def len : ℕ :=
  let n := (r.reg .lenHi).toNat * 0x100 + (r.reg .lenLo).toNat
  if n = 0 then 0x10000 else n

/-- The address of the `i`-th byte on the C64 side: fixed under bit 7 of
address control. -/
def c64At (i : ℕ) : ℕ :=
  if (r.reg .addrCtrl).getLsbD 7 then r.c64 else (r.c64 + i) % 0x10000

/-- And on the unit's side: fixed under bit 6. -/
def addrAt (i : ℕ) : ℕ :=
  if (r.reg .addrCtrl).getLsbD 6 then r.addr else (r.addr + i) % 0x1000000

/-- A register write: the working register and its latch. -/
@[simps -fullyApplied] def write (x : Reg) (v : Byte) : Reu :=
  { r with
    reg := Function.update r.reg x v
    latch := Function.update r.latch x v
    log := .write x v :: r.log }

/-- One byte of a transfer of kind `cmd & 3`: stash, fetch, swap, or the
verify that moves nothing. -/
def moveByte (cmd : Byte) (i : ℕ) (m : (ℕ → Byte) × (ℕ → Byte)) : (ℕ → Byte) × (ℕ → Byte) :=
  match cmd.toNat % 4 with
  | 0 => (m.1, Function.update m.2 (r.addrAt i) (m.1 (r.c64At i)))
  | 1 => (Function.update m.1 (r.c64At i) (m.2 (r.addrAt i)), m.2)
  | 2 => (Function.update m.1 (r.c64At i) (m.2 (r.addrAt i)),
      Function.update m.2 (r.addrAt i) (m.1 (r.c64At i)))
  | _ => m

/-- The address and length registers after a transfer: reloaded from the
latch where the command asks for autoload, and advanced to the end of the
transfer, with length one, where it does not. -/
def afterTransfer (cmd : Byte) : Reg → Byte :=
  if cmd.getLsbD 5 then fun x => if x = .addrCtrl then r.reg x else r.latch x
  else fun x => match x with
    | .c64Lo => BitVec.ofNat 8 (r.c64At r.len)
    | .c64Hi => BitVec.ofNat 8 (r.c64At r.len / 0x100)
    | .reuLo => BitVec.ofNat 8 (r.addrAt r.len)
    | .reuHi => BitVec.ofNat 8 (r.addrAt r.len / 0x100)
    | .reuBank => BitVec.ofNat 8 (r.addrAt r.len / 0x10000)
    | .lenLo => 1
    | .lenHi => 0
    | .addrCtrl => r.reg .addrCtrl

end Reu

/-! ## The machine -/

/-- The memory the library runs in, and the unit behind it. -/
structure Machine where
  /-- Page zero. -/
  zp : ℕ → Byte
  /-- The rest of the 64 KB, by its address. -/
  ram : ℕ → Byte
  /-- The patched operands, low bytes and immediates. -/
  opLo : Site → Byte
  /-- And their high bytes. -/
  opHi : Site → Byte
  /-- The operand of the trampoline's `JMP`. -/
  tramp : SqrInner
  /-- The byte variables. -/
  var : Var → Byte
  /-- The interrupt-disable flag. -/
  flagI : Bool
  /-- What is behind the registers from `$DF00`. -/
  reu : Reu

namespace Machine

/-- A store to page zero. -/
@[simps -fullyApplied] def setZp (a : ℕ) (v : Byte) (s : Machine) : Machine :=
  { s with zp := Function.update s.zp a v }

/-- A store to memory. -/
@[simps -fullyApplied] def setRam (a : ℕ) (v : Byte) (s : Machine) : Machine :=
  { s with ram := Function.update s.ram a v }

/-- A store to a byte variable. -/
@[simps -fullyApplied] def setVar (x : Var) (v : Byte) (s : Machine) : Machine :=
  { s with var := Function.update s.var x v }

/-- `STA label+1`, at every label of a run of stores. -/
@[simps -fullyApplied] def patchLo (at' : List Site) (v : Byte) (s : Machine) : Machine :=
  { s with opLo := fun x => if x ∈ at' then v else s.opLo x }

/-- `STA label+2`, likewise. -/
@[simps -fullyApplied] def patchHi (at' : List Site) (v : Byte) (s : Machine) : Machine :=
  { s with opHi := fun x => if x ∈ at' then v else s.opHi x }

/-- The trampoline of `fe25519_sqr`, aimed at an engine. -/
@[simps -fullyApplied] def setTramp (t : SqrInner) (s : Machine) : Machine := { s with tramp := t }

/-- The interrupt-disable flag, set or cleared. -/
@[simps -fullyApplied] def setFlagI (f : Bool) (s : Machine) : Machine := { s with flagI := f }

/-- The machine with the unit in another state. -/
@[simps -fullyApplied] def setReu (r : Reu) (s : Machine) : Machine := { s with reu := r }

/-- `STA` to a register of the expansion unit. -/
@[simps! -fullyApplied] def writeReg (x : Reg) (v : Byte) (s : Machine) : Machine :=
  s.setReu (s.reu.write x v)

/-- The absolute operand of a patched instruction. -/
def op (s : Machine) (x : Site) : ℕ := (s.opHi x).toNat * 0x100 + (s.opLo x).toNat

/-- `op,X` with a zero-page operand byte: the sum wraps in page zero. -/
def zpx (s : Machine) (x : Site) (i : ℕ) : ℕ := ((s.opLo x).toNat + i) % 0x100

/-- `LDA reu_status`: the next value of the stream. -/
def readStatus (s : Machine) : Byte × Machine :=
  (s.reu.status 0, s.setReu { s.reu with
    status := fun n => s.reu.status (n + 1)
    log := .readStatus (s.reu.status 0) :: s.reu.log })

/-- `LDA` of a register of the expansion unit. -/
def readReg (x : Reg) (s : Machine) : Byte × Machine :=
  (s.reu.reg x, s.setReu { s.reu with log := .read x (s.reu.reg x) :: s.reu.log })

/-- `STA reu_command` with the execute bit set and the `$FF00` trigger off,
as in every command the library issues: the whole transfer, then the
registers it leaves. -/
def reuCommand (cmd : Byte) (s : Machine) : Machine :=
  let r := { s.reu with log := .execute cmd s.reu.reg :: s.reu.log }
  if r.live then
    let m := loopUp (r.moveByte cmd) r.len (s.ram, r.mem)
    { s with ram := m.1, reu := { r with mem := m.2, reg := r.afterTransfer cmd } }
  else s.setReu r

variable (B : Build)

/-- The two-byte pointer in a slot. -/
def ptr (x : Slot) (s : Machine) : ℕ :=
  (s.zp (B.slot x + 1)).toNat * 0x100 + (s.zp (B.slot x)).toNat

/-- `LDA #<(a)` / `STA slot` / `LDA #>(a)` / `STA slot+1`. -/
def setPtr (x : Slot) (a : ℕ) (s : Machine) : Machine :=
  (s.setZp (B.slot x) (BitVec.ofNat 8 a)).setZp (B.slot x + 1) (BitVec.ofNat 8 (a / 0x100))

/-- The pointer of a slot into the absolute operands of `at'`. -/
def patchPtr (at' : List Site) (x : Slot) (s : Machine) : Machine :=
  (s.patchLo at' (s.zp (B.slot x))).patchHi at' (s.zp (B.slot x + 1))

/-- The number in a 32-byte buffer. -/
def fe (s : Machine) (a : ℕ) : ℕ := leNat (fun i => s.ram (a + i)) 32

/-- The number in the first `n` bytes of `fe_wide`. -/
def wide (n : ℕ) (s : Machine) : ℕ := leNat (fun i => s.zp (B.slot .feWide + i)) n

end Machine

/-! ## Settling a transfer -/

section Settle

open Machine

variable (B : Build)

/-- One turn of `@check`: the fault bits, and whether to look again. -/
def settleCheck (s : Machine) : Machine × Bool :=
  let s := if s.var .x25519ReuSettleSmp &&& 0x20 = 0 then s
    else s.setVar .x25519ReuFault (0x02 ||| s.var .x25519ReuFault)
  if s.var .x25519ReuSettleSmp &&& 0x40 ≠ 0 then (s, false)
  else
    let s := s.setVar .x25519ReuSettleCnt (s.var .x25519ReuSettleCnt - 1)
    if s.var .x25519ReuSettleCnt = 0 then
      (s.setVar .x25519ReuFault (0x01 ||| s.var .x25519ReuFault), false)
    else
      let p := s.readStatus
      (p.2.setVar .x25519ReuSettleSmp (p.1 &&& 0x60), true)

/-- `x25519_reu_settle_slow`, entered with the sample in A. The counter is
a byte, so 256 turns bound the loop. -/
def x25519ReuSettleSlow (a : Byte) (s : Machine) : Machine :=
  let s := s.setVar .x25519ReuSettleSmp (a ^^^ 0x40)
  let s := s.setVar .x25519ReuSettleCnt (BitVec.ofNat 8 B.settleIter)
  doWhile settleCheck 0x100 s

/-- The `REU_SETTLE` macro. -/
def reuSettle (s : Machine) : Machine :=
  let p := s.readStatus
  let a := (p.1 &&& 0x60) ^^^ 0x40
  if a = 0 then p.2 else x25519ReuSettleSlow B a p.2

end Settle

end C64X25519
