import C64X25519.Model.MulAsm
/-!
# The listings — squaring

`fe25519_sqr` as it stands in `fe25519.s`, with its two engines behind the
patched jump of `@sqr_inner_tramp`.
-/

namespace C64X25519

variable (B : Build)

/-! ## The quarter-square engine -/

/-- `sqtab[a[i] + a[j]] - sqtab[|a[i] - a[j]|]`, into `poly_prod`. -/
def sqrProductAsm (u : Body) : List Op :=
  [ .ldx (.slot .feMulJ), .lda (.absX B.mem.mulSrc2Buf), .sta (.var .sqrTmpB),
    -- |a[i] - a[j]|
    .sec, .sbc (.var .mulCachedA), .tax, .ldaImm 0, .sbcImm 0, .sta (.var .sqrMask),
    .txa, .eor (.var .sqrMask), .sec, .sbc (.var .sqrMask), .tay,
    -- a[i] + a[j]
    .lda (.var .mulCachedA), .clc, .adc (.var .sqrTmpB), .tax,
    .ldaImm (BitVec.ofNat 8 (B.mem.sqtabLo / 0x100)), .adcImm 0, .staHi (.ctSumLoadLo u),
    .clc, .adcImm 2, .staHi (.ctSumLoadHi u),
    .lda (.pageX (.ctSumLoadLo u) B.mem.sqtabLo), .sec, .sbc (.absY B.mem.sqtabLo),
    .sta (.var .polyProdLo),
    .lda (.pageX (.ctSumLoadHi u) B.mem.sqtabHi), .sbc (.absY B.mem.sqtabHi),
    .sta (.var .polyProdHi) ]

/-- The product doubled, its 17th bit into `mul_carry`. -/
def sqrDoubleAsm : List Op :=
  [ .asl (.var .polyProdLo), .rol (.var .polyProdHi), .ldaImm 0, .adcImm 0,
    .sta (.slot .mulCarry) ]

/-- The accumulation up to the chain step. -/
def sqrAccumAsm (u : Body) : List Op :=
  [ .ldx (.slot .feMulJ), .clc,
    .lda (.patchedZp (.sqrAccumLd1 u)), .adc (.var .polyProdLo), .sta (.patchedZp (.sqrAccumSt1 u)),
    .lda (.patchedZp (.sqrAccumLd2 u)), .adc (.var .polyProdHi), .sta (.patchedZp (.sqrAccumSt2 u)),
    .ldaImm 0, .adc (.slot .mulCarry), .clc, .adc (.var .sqrPending), .inx ]

/-- The chain step through the operands `ld` and `st`. -/
def sqrChainAsm (ld st : Site) : List Op :=
  [ .adc (.patchedZp ld), .sta (.patchedZp st), .ldaImm 0, .adcImm 0, .sta (.var .sqrPending) ]

/-- Body A. -/
def sqrBodyAAsm : List Op :=
  sqrProductAsm B .a ++ (sqrDoubleAsm ++ (sqrAccumAsm .a ++
    (sqrChainAsm (.sqrChainLd .a) (.sqrChainSt .a) ++ [.inc (.slot .feMulJ)])))

/-- Body B, with the count of the pairs behind it. -/
def sqrBodyBAsm : Asm := .seqs
  [ .block (sqrProductAsm B .b ++ (sqrDoubleAsm ++ (sqrAccumAsm .b ++ [.cpx (.var .sqrBound)]))),
    .either (.bcs .sqrBChainSkip) (.block (.clc :: sqrChainAsm (.sqrChainLd .b) (.sqrChainSt .b)))
      (.block [.ldaImm 0, .sta (.var .sqrPending)]),
    .block [.inc (.slot .feMulJ), .dec (.slot .feSqrPairs)] ]

/-! ## The DMA engine -/

/-- A body over the doubled row, up to its chain step. -/
def sqrDmaAccumAsm (u : Body) : List Op :=
  [ .ldy (.absX B.mem.mulSrc2Buf), .lda (.absY B.mem.mulDmaCarry), .sta (.slot .mulCarry), .clc,
    .lda (.patchedZp (.sqrDmaLd1 u)), .adc (.absY B.mem.mulDmaLo), .sta (.patchedZp (.sqrDmaSt1 u)),
    .lda (.patchedZp (.sqrDmaLd2 u)), .adc (.absY B.mem.mulDmaHi), .sta (.patchedZp (.sqrDmaSt2 u)),
    .ldaImm 0, .adc (.slot .mulCarry), .clc, .adc (.var .sqrPending), .inx ]

/-- A body over the doubled row; neither of the two has a guard. -/
def sqrDmaBodyAsm (u : Body) : List Op :=
  sqrDmaAccumAsm B u ++ sqrChainAsm (.sqrDmaChainLd u) (.sqrDmaChainSt u)

/-- `@sqr_inner_dma`: the pairs, and the ripple behind them. -/
def sqrDmaAsm : Asm := .seqs
  [ .block [.ldx (.slot .feMulJ)],
    .loopUntil (.block (sqrDmaBodyAsm B .a ++ (sqrDmaBodyAsm B .b ++ [.dec (.slot .feSqrPairs)])))
      (.beq .sqrDmaInnerDone),
    rippleTailAsm (.var .sqrRippleStart) (.var .sqrPending) .sqrDmaRipDone .sqrDmaRipDoneEq
      .sqrDmaRip,
    .jmp ]

/-- The engines, from the jump at `@sqr_inner_tramp` on. -/
def sqrInnerAsm : Asm := .dispatch .viaTramp
  (.seqs [.block (sqrBodyAAsm B), sqrBodyBAsm B]) (.beq .sqrPairLoopExitMul)
  (.seqs
    [ .jmp,
      rippleTailAsm (.var .sqrRippleStart) (.var .sqrPending) .sqrMult66RipDone .sqrMult66RipDoneEq
        .sqrMult66Rip,
      .jmp ])
  (sqrDmaAsm B)

/-! ## The rows -/

/-- The choice of the engine of a row, with the patches of the DMA one. -/
def sqrSelectAsm : Asm :=
  if B.sqrDmaK = 0 then .block [.staTramp .sqrInner] else .seqs
    [ .block [.lda (.slot .feMulI), .cmpImm (BitVec.ofNat 8 B.sqrDmaK)],
      .either (.bcs .sqrUseMult66)
        (.seqs
          [ .call (reuFetchDoubledRowAsm B),
            .block ([.staTramp .sqrInnerDma, .ldaImm (BitVec.ofNat 8 (B.slot .feWide)), .clc,
                .adc (.slot .feMulI)] ++
              ([.sqrDmaLd1 .a, .sqrDmaSt1 .a, .sqrDmaLd1 .b, .sqrDmaSt1 .b] : List Site).map
                .staLo ++
              [.clc, .adcImm 1] ++
              ([.sqrDmaLd2 .a, .sqrDmaSt2 .a, .sqrDmaLd2 .b, .sqrDmaSt2 .b] : List Site).map
                .staLo) ])
        (.block [.staTramp .sqrInner]) ]

/-- The patches both engines share. -/
def sqrPatchAsm : List Op :=
  [.ldaImm (BitVec.ofNat 8 (B.slot .feWide)), .clc, .adc (.slot .feMulI)] ++
  ([.sqrAccumLd1 .a, .sqrAccumSt1 .a, .sqrAccumLd1 .b, .sqrAccumSt1 .b] : List Site).map .staLo ++
  [.clc, .adcImm 1] ++
  ([.sqrAccumLd2 .a, .sqrAccumSt2 .a, .sqrAccumLd2 .b, .sqrAccumSt2 .b,
    .sqrChainLd .a, .sqrChainSt .a, .sqrChainLd .b, .sqrChainSt .b,
    .sqrDmaChainLd .a, .sqrDmaChainSt .a, .sqrDmaChainLd .b, .sqrDmaChainSt .b] : List Site).map
    .staLo

/-- The cursor, the pairs and the bound of a row. -/
def sqrCursorAsm : List Op :=
  [ .lda (.slot .feMulI), .clc, .adcImm 1, .sta (.slot .feMulJ),
    .ldaImm 32, .sec, .sbc (.slot .feMulI), .lsrA, .sta (.slot .feSqrPairs),
    .ldaImm 63, .sec, .sbc (.slot .feMulI), .sta (.var .sqrBound) ]

/-- The head of a row, up to the jump into its engine. -/
def sqrRowAsm : Asm := .seqs
  [ .block [.ldaImm 0, .sta (.var .sqrPending), .ldy (.slot .feMulI), .lda (.indY .fe25519Src1),
      .sta (.var .mulCachedA)],
    sqrSelectAsm B,
    .block (sqrPatchAsm B ++ sqrCursorAsm) ]

/-- The rows, to the branch out of them. -/
def sqrOuterAsm : Asm :=
  .loopUntil (.seqs
    [ sqrRowAsm B,
      .jmp,
      sqrInnerAsm B,
      .block [.inc (.slot .feMulI), .lda (.slot .feMulI), .cmpImm 31] ]) (.bcs .sqrCrossDone)

/-! ## The diagonal -/

/-- The square of `src1[i]` into bytes `2i` and `2i + 1`, and the length of the
ripple behind them. -/
def diagSquareAsm : List Op :=
  [ .ldy (.slot .feMulI), .lda (.indY .fe25519Src1), .tay, .lda (.table .sqrLo),
    .sta (.var .polyProdLo), .lda (.table .sqrHi), .sta (.var .polyProdHi),
    .lda (.slot .feMulI), .aslA, .tax,
    .clc, .lda (.wideX 0), .adc (.var .polyProdLo), .sta (.wideX 0), .inx,
    .lda (.wideX 0), .adc (.var .polyProdHi), .sta (.wideX 0),
    .ldaImm 0, .adcImm 0, .sta (.var .sqrPending),
    .inx, .ldaImm 64, .stx (.var .sqrRippleStart), .sec, .sbc (.var .sqrRippleStart) ]

/-- The diagonal. -/
def diagOuterAsm : Asm :=
  .loopUntil (.seqs
    [ .block diagSquareAsm,
      .skip (.bcc .diagRipDone) (.skip (.beq .diagRipDoneEq) (.seqs
        [.block [.tay, .lda (.var .sqrPending), .clc], rippleAsm .diagRip])),
      .block [.inc (.slot .feMulI), .lda (.slot .feMulI), .cmpImm 32] ]) (.bcs .sqrReduce)

/-- The copy of the operand into `mul_src2_buf`. -/
def sqrCopySrcAsm : Asm := .seqs
  [ .block [.ldyImm 31],
    .loop (.block [.lda (.indY .fe25519Src1), .sta (.absY B.mem.mulSrc2Buf), .dey])
      (.bpl .copySrc) ]

/-- `fe25519_sqr`. -/
def fe25519SqrAsm : Asm := .seqs
  [ .block (entryStoresAsm B),
    .call (reuClearWideAsm B),
    sqrCopySrcAsm B,
    .block [.ldaImm 0, .sta (.slot .feMulI)],
    sqrOuterAsm B,
    .block [.ldaImm 0, .sta (.slot .feMulI)],
    diagOuterAsm,
    .call feReduceWideAsm,
    copyResultAsm .sqrCopyResult ]

end C64X25519
