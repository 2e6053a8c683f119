import C64X25519.Model.Init
import C64X25519.Model.Probe
import C64X25519.Model.LadderAsm
/-!
# The listings — initialisation and the presence check

The routines of `Init.lean` and `Probe.lean`, as they stand in `sqtab_init.s`
and `x25519_init.s`, and the start of `main.s` between its two messages.
-/

namespace C64X25519

variable (B : Build)

/-! ## `sqtab_init` -/

/-- `sq_acc` shifted right by two, into `sq_sh`. -/
def sqShiftAsm : List Op :=
  [ .lda (.var .sqAcc2), .lsrA, .sta (.var .sqSh2),
    .lda (.var .sqAcc1), .rorA, .sta (.var .sqSh1),
    .lda (.var .sqAcc0), .rorA, .sta (.var .sqSh0),
    .lsr (.var .sqSh2), .ror (.var .sqSh1), .ror (.var .sqSh0) ]

/-- The two table bytes, from a page of each table on. -/
def sqPageAsm (lo hi : ℕ) : Asm :=
  .block [.lda (.var .sqSh0), .sta (.absX lo), .lda (.var .sqSh1), .sta (.absX hi)]

/-- Up to the test that closes `@loop`. -/
def sqtabBodyAsm : Asm := .seqs
  [ .block (sqShiftAsm ++ [.ldx (.var .sqI0), .lda (.var .sqI1)]),
    .either (.beq .sqPg0) (sqPageAsm (B.mem.sqtabLo + 0x100) (B.mem.sqtabHi + 0x100))
      (sqPageAsm B.mem.sqtabLo B.mem.sqtabHi),
    .block [.lda (.var .sqI0), .aslA, .sta (.var .sqAd0), .lda (.var .sqI1), .rolA,
      .sta (.var .sqAd1), .inc (.var .sqAd0)],
    .skip (.bne .sqAdNoCarry) (.block [.inc (.var .sqAd1)]),
    .block [.clc, .lda (.var .sqAcc0), .adc (.var .sqAd0), .sta (.var .sqAcc0),
      .lda (.var .sqAcc1), .adc (.var .sqAd1), .sta (.var .sqAcc1),
      .lda (.var .sqAcc2), .adcImm 0, .sta (.var .sqAcc2), .inc (.var .sqI0)],
    .skip (.bne .sqINoCarry) (.block [.inc (.var .sqI1)]),
    .block [.lda (.var .sqI1), .cmpImm 2] ]

/-- `sqtab_init`. -/
def sqtabInitAsm : Asm := .seq
  (.block [.ldaImm 0, .sta (.var .sqAcc0), .sta (.var .sqAcc1), .sta (.var .sqAcc2),
    .sta (.var .sqI0), .sta (.var .sqI1)])
  (.loopUntil (sqtabBodyAsm B) (.beq .sqDone))

/-! ## Rows into the expansion unit -/

/-- The loop of `X25519_DBL_STASH_ROW`. -/
def doubleEntryAsm : List Op :=
  [ .lda (.absX B.mem.mulDmaHi), .aslA, .ldaImm 0, .rolA, .sta (.absX B.mem.mulDmaCarry),
    .lda (.absX B.mem.mulDmaLo), .aslA, .sta (.absX B.mem.mulDmaLo),
    .lda (.absX B.mem.mulDmaHi), .rolA, .sta (.absX B.mem.mulDmaHi) ]

/-- The macro `X25519_DBL_STASH_ROW`. -/
def x25519DblStashRowAsm (row : Var) : Asm := .seqs
  [ .block [.ldxImm 0],
    .loop (.block (doubleEntryAsm B ++ [.inx])) (.bne .dblLoop),
    -- the low page
    transferAsm B (staC64Asm B.mem.mulDmaLo ++ [.ldaImm 0, .staReg .reuLo,
      .lda (.var row), .aslA, .staReg .reuHi,
      .ldaImm (BitVec.ofNat 8 B.reuBankDoubled), .adcImm 0, .staReg .reuBank,
      .ldaImm 0, .staReg .lenLo, .ldaImm 1, .staReg .lenHi, .staReg .addrCtrl,
      .ldaImm 0, .staReg .addrCtrl]) 0b10110000 .dblLoSettle,
    -- the high page
    transferAsm B (staC64Asm B.mem.mulDmaHi ++ [.ldaImm 0, .staReg .reuLo,
      .lda (.var row), .aslA, .ldaImm (BitVec.ofNat 8 B.reuBankDoubled), .adcImm 0,
      .staReg .reuBank, .lda (.var row), .aslA, .oraImm 1, .staReg .reuHi,
      .ldaImm 0, .staReg .lenLo, .ldaImm 1, .staReg .lenHi, .staReg .addrCtrl])
      0b10110000 .dblHiSettle,
    -- the carry page
    transferAsm B (staC64Asm B.mem.mulDmaCarry ++ [.ldaImm 0, .staReg .reuLo,
      .lda (.var row), .staReg .reuHi, .ldaImm (BitVec.ofNat 8 B.reuBankCarry), .staReg .reuBank,
      .ldaImm 0, .staReg .lenLo, .ldaImm 1, .staReg .lenHi, .staReg .addrCtrl])
      0b10110000 .dblCarrySettle ]

/-- The end of both initialisers. -/
def restoreFetchLatchAsm : Asm := .block (staC64Asm B.mem.mulDmaLo ++
  [.ldaImm 0, .staReg .reuLo, .staReg .lenLo, .staReg .addrCtrl, .ldaImm 2, .staReg .lenHi])

/-! ## `reu_mul_init` -/

/-- `@inner`. -/
def reuMulEntryAsm : Asm := .seqs
  [ .block [.ldy (.var .reuInitB)],
    .call (ctMul8x8Asm B),
    .block [.ldx (.var .reuInitB), .lda (.var .polyProdLo), .sta (.absX B.mem.mulDmaLo),
      .lda (.var .polyProdHi), .sta (.absX B.mem.mulDmaHi), .inc (.var .reuInitB)] ]

/-- The two stashes of the row of `reu_init_a`. -/
def reuMulStashAsm : Asm := .seq
  -- the low page
  (transferAsm B (staC64Asm B.mem.mulDmaLo ++ [.ldaImm 0, .staReg .reuLo,
    .lda (.var .reuInitA), .aslA, .staReg .reuHi,
    .ldaImm (BitVec.ofNat 8 B.reuBank), .adcImm 0, .staReg .reuBank,
    .ldaImm 0, .staReg .lenLo, .ldaImm 1, .staReg .lenHi, .ldaImm 0, .staReg .addrCtrl])
    0b10110000 .initLoSettle)
  -- the high page
  (transferAsm B (staC64Asm B.mem.mulDmaHi ++ [.ldaImm 0, .staReg .reuLo,
    .lda (.var .reuInitA), .aslA, .ldaImm (BitVec.ofNat 8 B.reuBank), .adcImm 0,
    .staReg .reuBank, .lda (.var .reuInitA), .aslA, .oraImm 1, .staReg .reuHi,
    .ldaImm 0, .staReg .lenLo, .ldaImm 1, .staReg .lenHi, .ldaImm 0, .staReg .addrCtrl])
    0b10110000 .initHiSettle)

/-- `@outer`, up to the branch out of it. -/
def reuMulOuterAsm : Asm := .seqs
  [ .block [.lda (.var .reuInitA), .staLo .smcSumAImm, .staLo .smcDiffAImm, .ldaImm 0,
      .sta (.var .reuInitB)],
    .loop (reuMulEntryAsm B) (.bne .initInner),
    reuMulStashAsm B,
    if B.sqrDmaK ≠ 0 then x25519DblStashRowAsm B .reuInitA else .block [],
    .block [.inc (.var .reuInitA)] ]

/-- `reu_mul_init`. -/
def reuMulInitAsm : Asm := .seqs
  [ .block [.ldaImm 0, .sta (.var .x25519ReuFault), .sta (.var .reuInitA)],
    .loopUntil (reuMulOuterAsm B) (.beq .initDone),
    restoreFetchLatchAsm B ]

/-! ## `x25519_sqr_tables_init` -/

/-- `@outer`, up to the branch out of it. -/
def sqrTablesOuterAsm : Asm := .seqs
  [ transferAsm B (staC64Asm B.mem.mulDmaLo ++ [.ldaImm 0, .staReg .reuLo, .staReg .lenLo,
      .staReg .addrCtrl, .ldaImm 2, .staReg .lenHi,
      .lda (.var .sqrTablesRow), .aslA, .staReg .reuHi,
      .ldaImm (BitVec.ofNat 8 B.reuBank), .adcImm 0, .staReg .reuBank]) 0b10110001 .tablesSettle,
    x25519DblStashRowAsm B .sqrTablesRow,
    .block [.inc (.var .sqrTablesRow)] ]

/-- `x25519_sqr_tables_init`. -/
def x25519SqrTablesInitAsm : Asm := .seqs
  [ .block [.ldaImm 0, .sta (.var .x25519ReuFault), .sta (.var .sqrTablesRow)],
    .loopUntil (sqrTablesOuterAsm B) (.beq .tablesDone),
    restoreFetchLatchAsm B ]

/-! ## `reu_probe` -/

/-- The registers of the unit a probe saves, and where. -/
def probeSaves : List (Reg × Var) :=
  [(.c64Lo, .saveC64Lo), (.c64Hi, .saveC64Hi), (.reuLo, .saveReuLo), (.reuHi, .saveReuHi),
    (.reuBank, .saveReuBank), (.lenLo, .saveLenLo), (.lenHi, .saveLenHi)]

/-- A transfer, with the command in `cmd`. -/
def probeTransferAsm (cmd : Byte) (l : Label) : Asm :=
  transferAsm B (staC64Asm B.mem.probeScratch ++ [.ldaImm 0, .staReg .reuLo, .staReg .reuHi,
    .staReg .addrCtrl, .ldaImm (BitVec.ofNat 8 (7 + B.reuBank)), .staReg .reuBank,
    .ldaImm 1, .staReg .lenLo, .ldaImm 0, .staReg .lenHi]) cmd l

/-- The byte fetched, the pattern stashed over it. -/
def probePatternAsm : Asm := .seqs
  [ probeTransferAsm B 0b10010001 .probeFetchSettle,
    .block [.lda (.abs B.mem.probeScratch), .sta (.var .origByte),
      .ldaImm 0x5a, .sta (.abs B.mem.probeScratch)],
    probeTransferAsm B 0b10010000 .probePatternSettle ]

/-- The pattern read back, the byte stashed back. -/
def probeReadBackAsm : Asm := .seqs
  [ .block [.ldaImm 0, .sta (.abs B.mem.probeScratch)],
    probeTransferAsm B 0b10010001 .probeReadSettle,
    .block [.lda (.abs B.mem.probeScratch), .sta (.var .rtByte),
      .lda (.var .origByte), .sta (.abs B.mem.probeScratch)],
    probeTransferAsm B 0b10010000 .probeRestoreSettle ]

/-- From the comparison on; both branches lead to the same `CLC`. -/
def probeVerdictAsm : Asm := .exits (.bne .probeFailByte)
  (.seq (.block [.lda (.var .x25519ReuFault)])
    (.exits (.bne .probeFailFault) (.block [.sec]) (.block [.clc])))
  (.block [.clc])

/-- `reu_probe`. -/
def reuProbeAsm : Asm := .seqs
  [ .block ([.ldaImm 0, .sta (.var .x25519ReuFault)] ++
      probeSaves.flatMap fun p => [.ldaReg p.1, .sta (.var p.2)]),
    probePatternAsm B,
    probeReadBackAsm B,
    .block ((probeSaves.flatMap fun p => [.lda (.var p.2), .staReg p.1]) ++
      [.ldaImm 0, .staReg .addrCtrl, .lda (.var .rtByte), .cmpImm 0x5a]),
    probeVerdictAsm ]

/-! ## Starting up -/

/-- The routines a program calls before its first call of another. -/
inductive Initialiser
  | sqtabInit | reuMulInit | x25519SqrTablesInit | reuProbe
deriving DecidableEq

namespace Initialiser

/-- The listing of an initialiser. -/
def asm : Initialiser → Asm
  | sqtabInit => sqtabInitAsm B
  | reuMulInit => reuMulInitAsm B
  | x25519SqrTablesInit => x25519SqrTablesInitAsm B
  | reuProbe => reuProbeAsm B

/-- What it does to the machine; the verdict of `reu_probe` is in the carry. -/
def run : Initialiser → Machine → Machine
  | sqtabInit => C64X25519.sqtabInit B
  | reuMulInit => C64X25519.reuMulInit B
  | x25519SqrTablesInit => C64X25519.x25519SqrTablesInit B
  | reuProbe => fun m => (C64X25519.reuProbe B m).2

end Initialiser

/-- The initialisers `start` calls. -/
def startAsm : Asm :=
  if B.onchip then .call (sqtabInitAsm B)
  else .seq (.call (sqtabInitAsm B)) (.call (reuMulInitAsm B))

end C64X25519
