import C64X25519.Model.FieldAsm
/-!
# The listings — rows, settling, the 8×8 multiply

The routines of `Rows.lean` and the settling of a transfer, as they stand in
`x25519_init.s`, `constants.s` and `mul_8x8.s`.
-/

namespace C64X25519

variable (B : Build)

/-! ## Settling -/

/-- `x25519_reu_settle_slow`. -/
def x25519ReuSettleSlowAsm : Asm := .seqs
  [ .block [.eorImm 0x40, .sta (.var .x25519ReuSettleSmp),
      .ldaImm (BitVec.ofNat 8 B.settleIter), .sta (.var .x25519ReuSettleCnt)],
    .poll
      (.seqs
        [ .block [.lda (.var .x25519ReuSettleSmp), .andImm 0x20],
          .skip (.beq .noB5)
            (.block [.ldaImm 0x02, .ora (.var .x25519ReuFault), .sta (.var .x25519ReuFault)]),
          .block [.lda (.var .x25519ReuSettleSmp), .andImm 0x40] ])
      (.bne .settleDone)
      (.block [.dec (.var .x25519ReuSettleCnt)])
      (.beq .settleExpired)
      (.block [.ldaStatus, .andImm 0x60, .sta (.var .x25519ReuSettleSmp)])
      (.block [.ldaImm 0x01, .ora (.var .x25519ReuFault), .sta (.var .x25519ReuFault)]) ]

/-- The macro `REU_SETTLE`; the branch over the call leads to `l`. -/
def reuSettleAsm (l : Label) : Asm := .seqs
  [ .block [.ldaStatus, .andImm 0x60, .eorImm 0x40],
    .skip (.beq l) (.call (x25519ReuSettleSlowAsm B)) ]

/-- The registers in `ops`, a command, and its settle. -/
def transferAsm (ops : List Op) (cmd : Byte) (l : Label) : Asm := .seq
  (.block (ops ++ [.ldaImm cmd] ++ [.staCommand]))
  (reuSettleAsm B l)

/-! ## The row fetches -/

/-- `LDA #<(a)` / `STA reu_c64_lo` / `LDA #>(a)` / `STA reu_c64_hi`. -/
def staC64Asm (a : ℕ) : List Op :=
  [ .ldaImm (BitVec.ofNat 8 a), .staReg .c64Lo,
    .ldaImm (BitVec.ofNat 8 (a / 0x100)), .staReg .c64Hi ]

/-- `reu_fetch_mul_row`, entered with the row in A. -/
def reuFetchMulRowAsm : Asm := .seqs
  [ .block ([.sta (.var .mulCachedA), .aslA, .staReg .reuHi,
      .ldaImm (BitVec.ofNat 8 B.reuBank), .adcImm 0, .staReg .reuBank] ++
      staC64Asm B.mem.mulDmaLo ++
      [.ldaImm 0, .staReg .reuLo, .staReg .lenLo, .staReg .addrCtrl,
        .ldaImm 2, .staReg .lenHi, .ldaImm 0b10110001] ++ [.staCommand]),
    reuSettleAsm B .fetchSettle ]

/-- `reu_fetch_doubled_row`. -/
def reuFetchDoubledRowAsm : Asm := .seq
  (.seqs
    [ .block (staC64Asm B.mem.mulDmaLo ++
        [.ldaImm 0, .staReg .reuLo, .staReg .lenLo, .staReg .addrCtrl, .ldaImm 2, .staReg .lenHi,
          .lda (.var .mulCachedA), .aslA, .staReg .reuHi,
          .ldaImm (BitVec.ofNat 8 B.reuBankDoubled), .adcImm 0, .staReg .reuBank,
          .ldaImm 0b10110001] ++ [.staCommand]),
      reuSettleAsm B .doubledSettle ])
  -- the carry row
  (.seqs
    [ .block (staC64Asm B.mem.mulDmaCarry ++
        [.ldaImm 0, .staReg .reuLo, .staReg .lenLo, .staReg .addrCtrl, .ldaImm 1, .staReg .lenHi,
          .lda (.var .mulCachedA), .staReg .reuHi,
          .ldaImm (BitVec.ofNat 8 B.reuBankCarry), .staReg .reuBank,
          .ldaImm 0b10110001] ++ [.staCommand]),
      reuSettleAsm B .carrySettle ])

/-- `reu_clear_wide`. -/
def reuClearWideAsm : Asm := .seqs
  [ .block [.ldaImm 0, .ldxImm 63],
    .loop (.block [.sta (.wideX 0), .dex]) (.bpl .clearLoop),
    .block (if B.onchip then []
      else staC64Asm B.mem.mulDmaLo ++
        [.ldaImm 0, .staReg .lenLo, .ldaImm 2, .staReg .lenHi]) ]

/-! ## `ct_mul_8x8` -/

/-- `ct_mul_8x8`, entered with a factor in Y and the other baked in. -/
def ctMul8x8Asm : Asm := .block
  [ .tya, .clc, .adcPatched .smcSumAImm, .tax,
    .ldaImm (BitVec.ofNat 8 (B.mem.sqtabLo / 0x100)), .adcImm 0, .staHi .smcLoAddr,
    .adcImm (BitVec.ofNat 8 (B.mem.sqtabHi / 0x100 - B.mem.sqtabLo / 0x100)), .staHi .smcHiAddr,
    -- |a - b|
    .tya, .sec, .sbcPatched .smcDiffAImm, .sta (.var .ctDiffRaw),
    .ldaImm 0, .sbcImm 0, .sta (.var .ctSignMask), .eor (.var .ctDiffRaw),
    .sec, .sbc (.var .ctSignMask), .tay,
    -- sqtab[a + b] - sqtab[|a - b|]
    .lda (.pageX .smcLoAddr B.mem.sqtabLo), .sec, .sbc (.absY B.mem.sqtabLo),
    .sta (.var .polyProdLo),
    .lda (.pageX .smcHiAddr B.mem.sqtabHi), .sbc (.absY B.mem.sqtabHi), .sta (.var .polyProdHi) ]

end C64X25519
