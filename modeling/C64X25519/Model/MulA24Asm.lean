import C64X25519.Model.MulAsm
/-!
# The listings — multiplication by the curve constant

`fe25519_mul_a24` as it stands in `fe25519.s`.
-/

namespace C64X25519

variable (B : Build)

/-- The accumulation of a row, from the store of its index on. -/
def a24RowAsm : List Op :=
  [ .stx (.slot .feMulI), .ldy (.slot .feMulI), .lda (.indY .fe25519Src1), .tay,
    .ldx (.slot .feMulI), .clc,
    .lda (.wideX 0), .adc (.table .a24B0), .sta (.wideX 0),
    .lda (.wideX 1), .adc (.table .a24B1), .sta (.wideX 1),
    .lda (.wideX 2), .adc (.table .a24B2), .sta (.wideX 2),
    .lda (.wideX 3), .adc (.table .a24B3), .sta (.wideX 3),
    -- absorption
    .lda (.wideX 4), .adcImm 0, .sta (.wideX 4),
    .lda (.wideX 5), .adcImm 0, .sta (.wideX 5) ]

/-- `@outer`. -/
def a24OuterAsm : List Op := a24RowAsm ++ [.ldx (.slot .feMulI), .inx, .cpxImm 32]

/-- A stage of the fold. -/
def a24StageAsm (k : ℕ) : List Op :=
  [ .ldy (.wide (32 + k)), .lda (.table .mul38Lo), .sta (.var .polyProdLo),
    .lda (.table .mul38Hi), .sta (.var .polyProdHi),
    .clc, .lda (.wide k), .adc (.var .polyProdLo), .sta (.wide k),
    .lda (.wide (k + 1)), .adc (.var .polyProdHi), .sta (.wide (k + 1)),
    .lda (.slot .feCarry), .adcImm 0, .sta (.slot .feCarry) ]

/-- A bridge to byte `k`. -/
def a24BridgeAsm (k : ℕ) : List Op :=
  [ .clc, .lda (.wide k), .adc (.slot .feCarry), .sta (.wide k),
    .ldaImm 0, .adcImm 0, .sta (.slot .feCarry) ]

/-- The fold of bytes 32 to 34, and of the carry out of byte 31. -/
def a24FoldAsm : Asm := .seqs
  [ .block ([.ldaImm 0, .sta (.slot .feCarry)] ++ (a24StageAsm 0 ++ (a24BridgeAsm 2 ++
      (a24StageAsm 1 ++ (a24BridgeAsm 3 ++ (a24StageAsm 2 ++
        [.clc, .lda (.wide 4), .adc (.slot .feCarry), .sta (.wide 4), .ldxImm 5, .ldyImm 27])))))),
    cascadeAsm .finalRipple,
    .block [.ldaImm 0, .adcImm 0, .tay, .lda (.table .mul38Lo), .clc, .adc (.wide 0),
      .sta (.wide 0), .ldxImm 1, .ldyImm 31],
    cascadeAsm .foldRipple ]

/-- `fe25519_mul_a24`. -/
def fe25519MulA24Asm : Asm := .seqs
  [ .block (entryStoresAsm B ++ [.ldxImm 36, .ldaImm 0]),
    .loop (.block [.sta (.wideX 0), .dex]) (.bpl .a24Zero),
    .block [.ldxImm 0],
    .loop (.block a24OuterAsm) (.bcc .a24Outer),
    a24FoldAsm,
    copyResultAsm .copyA24,
    .call fe25519ReduceFinalAsm ]

end C64X25519
