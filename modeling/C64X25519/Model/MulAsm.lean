import C64X25519.Model.RowsAsm
/-!
# The listings — the multiplication and the wide reduction

`fe25519_mul` and `fe_reduce_wide` as they stand in `fe25519.s`.
-/

namespace C64X25519

variable (B : Build)

/-! ## Carry ripples -/

/-- `LDA fe_wide,x` / `ADC #0` / `STA fe_wide,x` / `INX` / `DEY` / `BNE`. -/
def cascadeAsm (l : Label) : Asm :=
  .loop (.block [.lda (.wideX 0), .adcImm 0, .sta (.wideX 0), .inx, .dey]) (.bne l)

/-- `ADC fe_wide,x` / `STA fe_wide,x` / `LDA #0` / `INX` / `DEY` / `BNE`. -/
def rippleAsm (l : Label) : Asm :=
  .loop (.block [.adc (.wideX 0), .sta (.wideX 0), .ldaImm 0, .inx, .dey]) (.bne l)

/-- The end of an inner loop: the start of the ripple, its length, and the
ripple of the pending carry. -/
def rippleTailAsm (start pending : Operand) (past pastEq l : Label) : Asm := .seqs
  [ .block [.txa, .clc, .adc (.slot .feMulI), .clc, .adcImm 1, .sta start, .tax,
      .ldaImm 64, .sec, .sbc start],
    .skip (.bcc past) (.seqs
      [ .block [.tay],
        .skip (.beq pastEq) (.seqs [.block [.lda pending, .clc], rippleAsm l]) ]) ]

/-! ## `fe_reduce_wide` -/

/-- `fe_reduce_wide`. -/
def feReduceWideAsm : Asm := .seqs
  [ .block [.ldaImm 0, .sta (.slot .feCarry), .ldxImm 0],
    .loop (.block
      [ .ldy (.wideX 32), .clc, .lda (.table .mul38Lo), .adc (.slot .feCarry),
        .sta (.slot .feCarry), .lda (.table .mul38Hi), .adcImm 0, .sta (.slot .feMulJ),
        .clc, .lda (.wideX 0), .adc (.slot .feCarry), .sta (.wideX 0),
        .lda (.slot .feMulJ), .adcImm 0, .sta (.slot .feCarry), .inx, .cpxImm 32 ])
      (.bcc .reduce1),
    -- section B
    .block [.ldy (.slot .feCarry), .clc, .lda (.wide 0), .adc (.table .mul38Lo), .sta (.wide 0),
      .lda (.wide 1), .adc (.table .mul38Hi), .sta (.wide 1), .ldxImm 2, .ldyImm 30],
    cascadeAsm .ucasc1,
    -- section C
    .block [.ldaImm 0, .adcImm 0, .tay, .clc, .lda (.wide 0), .adc (.table .mul38Lo),
      .sta (.wide 0), .ldxImm 1, .ldyImm 31],
    cascadeAsm .ucasc2 ]

/-- `LDA fe_wide,y` / `STA (fe25519_dst),y`, from byte 31 down. -/
def copyResultAsm (l : Label) : Asm := .seqs
  [ .block [.ldyImm 31],
    .loop (.block [.lda .wideY, .sta (.indY .fe25519Dst), .dey]) (.bpl l) ]

/-! ## `fe25519_mul` -/

/-- The defensive register writes at the entry. -/
def entryStoresAsm : List Op :=
  if B.onchip then [] else [.ldaImm 0, .staReg .reuLo, .staReg .addrCtrl]

/-- The row of `src1[i]`: its fetch, or the generator. -/
def mulRowAsm : Asm :=
  if B.onchip then .seqs
    [ .block [.staLo .smcSumAImm, .staLo .smcDiffAImm, .ldxImm 31],
      .loop (.seqs
        [ .block [.stx (.slot .feMulJ), .ldy (.patchedX .genSrc2A)],
          .call (ctMul8x8Asm B),
          .block [.ldx (.slot .feMulJ), .ldy (.patchedX .genSrc2B),
            .lda (.var .polyProdLo), .sta (.absY B.mem.mulDmaLo),
            .lda (.var .polyProdHi), .sta (.absY B.mem.mulDmaHi), .dex] ])
        (.bpl .genRow) ]
  else .seqs
    [ .block ([.aslA, .staReg .reuHi, .ldaImm (BitVec.ofNat 8 B.reuBank), .adcImm 0,
        .staReg .reuBank, .ldaImm 0b10110001] ++ [.staCommand]),
      reuSettleAsm B .mulSettle ]

/-- The patches of a row. -/
def mulPatchAsm : List Op :=
  [.ldaImm (BitVec.ofNat 8 (B.slot .feWide)), .clc, .adc (.slot .feMulI)] ++
  ([.accumLd1 .a, .accumSt1 .a, .accumLd1 .b, .accumSt1 .b,
    .accumLd1 .c, .accumSt1 .c, .accumLd1 .d, .accumSt1 .d] : List Site).map .staLo ++
  [.clc, .adcImm 1] ++
  ([.accumLd2 .a, .accumSt2 .a, .accumLd2 .b, .accumSt2 .b,
    .accumLd2 .c, .accumSt2 .c, .accumLd2 .d, .accumSt2 .d,
    .chainLd .a, .chainSt .a, .chainLd .b, .chainSt .b,
    .chainLd .c, .chainSt .c, .chainLd .d, .chainSt .d] : List Site).map .staLo ++
  [.ldxImm 0]

/-- A body up to its chain step. -/
def mulAccumAsm (u : Body) : List Op :=
  [ .ldy (.patchedX (.ldySrc2 u)),
    .lda (.patchedZp (.accumLd1 u)), .adc (.absY B.mem.mulDmaLo), .sta (.patchedZp (.accumSt1 u)),
    .lda (.patchedZp (.accumLd2 u)), .adc (.absY B.mem.mulDmaHi), .sta (.patchedZp (.accumSt2 u)),
    .ldaImm 0, .adcImm 0, .clc, .adc (.slot .mulPending), .inx ]

/-- The chain step of a body. -/
def mulChainAsm (u : Body) : List Op :=
  [ .adc (.patchedZp (.chainLd u)), .sta (.patchedZp (.chainSt u)),
    .ldaImm 0, .adcImm 0, .sta (.slot .mulPending) ]

/-- Bodies A, B and C. -/
def mulBodyAsm (u : Body) : List Op := mulAccumAsm B u ++ mulChainAsm u

/-- Body D, with the comparison of the cursor behind it. -/
def mulBodyDAsm : Asm := .seqs
  [ .block (mulAccumAsm B .d ++ [.cpx (.slot .mulBound)]),
    .either (.bcs .bodyDChainSkip) (.block (.clc :: mulChainAsm .d))
      (.block [.ldaImm 0, .sta (.slot .mulPending)]),
    .block [.cpxImm 32] ]

/-- `@mul_inner`. -/
def mulInnerAsm : Asm :=
  .loopUntil (.seqs [ .block (mulBodyAsm B .a), .block (mulBodyAsm B .b), .block (mulBodyAsm B .c),
    mulBodyDAsm B ]) (.bcs .mulInnerDone)

/-- `@mul_outer`. -/
def mulOuterAsm : Asm :=
  .loopUntil (.seqs
    [ .block [.ldaImm 0, .sta (.slot .mulPending), .ldaImm 63, .sec, .sbc (.slot .feMulI),
        .sta (.slot .mulBound), .ldy (.slot .feMulI), .lda (.patchedY .loadSrc1)],
      mulRowAsm B,
      .block (mulPatchAsm B),
      mulInnerAsm B,
      rippleTailAsm (.slot .mulRippleStart) (.slot .mulPending) .mulRippleDone .mulRippleDoneEq
        .mulRipple,
      .block [.inc (.slot .feMulI), .lda (.slot .feMulI), .cmpImm 32] ]) (.bcs .mulDone)

/-- `fe25519_mul`. -/
def fe25519MulAsm : Asm := .seqs
  [ .block (entryStoresAsm B),
    .call (reuClearWideAsm B),
    .block (patchPtrAsm ([.ldySrc2 .a, .ldySrc2 .b, .ldySrc2 .c, .ldySrc2 .d] ++
        if B.onchip then [.genSrc2A, .genSrc2B] else []) .fe25519Src2 ++
      patchPtrAsm [.loadSrc1] .fe25519Src1 ++ [.ldaImm 0, .sta (.slot .feMulI)]),
    mulOuterAsm B,
    .call feReduceWideAsm,
    copyResultAsm .mulCopyResult ]

end C64X25519
