import C64X25519.Model.Isa
/-!
# The listings — copy, add, subtract, reduce, swap

The routines of `Field.lean` as they stand in `fe25519.s`, instruction by
instruction.
-/

namespace C64X25519

/-- A program of the 6502. -/
abbrev Asm := Code Op Branch

/-- `LDA slot` / `STA label+1` / `LDA slot+1` / `STA label+2`, with the run of
stores at each. -/
def patchPtrAsm (at' : List Site) (x : Slot) : List Op :=
  .lda (.slot x) :: at'.map .staLo ++ .lda (.slotHi x) :: at'.map .staHi

/-- `fe25519_copy`. -/
def fe25519CopyAsm : Asm := .seqs
  [ .block [.ldyImm 31],
    .loop (.block [.lda (.indY .fe25519Src1), .sta (.indY .fe25519Dst), .dey]) (.bpl .copyLoop) ]

/-- `fe25519_zero`. -/
def fe25519ZeroAsm : Asm := .seqs
  [ .block [.ldaImm 0, .ldyImm 31],
    .loop (.block [.sta (.indY .fe25519Dst), .dey]) (.bpl .zeroLoop) ]

/-- `fe25519_one`. -/
def fe25519OneAsm : Asm := .seqs
  [ .call fe25519ZeroAsm,
    .block [.ldaImm 1, .ldyImm 0, .sta (.indY .fe25519Dst)] ]

/-- A loop over the masked bytes of `p`: `LDA dst,y` / `op fe_subp_rhs` /
`STA dst,y`. -/
def maskedAsm (ld : Site) (op : Op) (st : Site) (l : Label) : Asm :=
  .loop (.block
    [ .lda (.table .feP), .and (.slot .feCmpMask), .sta (.slot .feSubpRhs),
      .lda (.patchedY ld), op, .sta (.patchedY st), .iny, .dex ]) (.bne l)

/-- `fe_cmp_p_ct`. -/
def feCmpPCtAsm : Asm := .seqs
  [ .block (patchPtrAsm [.cmpLdDst] .fe25519Dst ++ [.sec, .ldyImm 0, .ldxImm 32]),
    .loop (.block [.lda (.patchedY .cmpLdDst), .sbc (.table .feP), .iny, .dex]) (.bne .cmpLoop),
    .block [.ldaImm 0, .sbcImm 0, .eorImm 0xff, .sta (.slot .feCmpMask)] ]

/-- `fe25519_add`. -/
def fe25519AddAsm : Asm := .seqs
  [ .block (patchPtrAsm [.addLdSrc1] .fe25519Src1 ++ patchPtrAsm [.addLdSrc2] .fe25519Src2 ++
      patchPtrAsm [.addStDst, .addSubLdDst, .addSubStDst] .fe25519Dst ++
      [.clc, .ldyImm 0, .ldxImm 32]),
    .loop (.block [.lda (.patchedY .addLdSrc1), .adc (.patchedY .addLdSrc2),
      .sta (.patchedY .addStDst), .iny, .dex]) (.bne .addLoop),
    .block [.ldaImm 0, .sbcImm 0, .eorImm 0xff, .sta (.slot .feAddCarryMask)],
    .call feCmpPCtAsm,
    .block [.ora (.slot .feAddCarryMask), .sta (.slot .feCmpMask), .sec, .ldyImm 0, .ldxImm 32],
    maskedAsm .addSubLdDst (.sbc (.slot .feSubpRhs)) .addSubStDst .addSubP ]

/-- `fe25519_sub`. -/
def fe25519SubAsm : Asm := .seqs
  [ .block (patchPtrAsm [.subLdSrc1] .fe25519Src1 ++ patchPtrAsm [.subLdSrc2] .fe25519Src2 ++
      patchPtrAsm [.subStDst, .subAddLdDst, .subAddStDst] .fe25519Dst ++
      [.sec, .ldyImm 0, .ldxImm 32]),
    .loop (.block [.lda (.patchedY .subLdSrc1), .sbc (.patchedY .subLdSrc2),
      .sta (.patchedY .subStDst), .iny, .dex]) (.bne .subLoop),
    .block [.ldaImm 0, .sbcImm 0, .sta (.slot .feCmpMask)],
    .block [.clc, .ldyImm 0, .ldxImm 32],
    maskedAsm .subAddLdDst (.adc (.slot .feSubpRhs)) .subAddStDst .subAddP ]

/-- An iteration of the canonical reduction. -/
def reduceIterationAsm (ld st : Site) (l : Label) : Asm := .seqs
  [ .call feCmpPCtAsm,
    .block [.sec, .ldyImm 0, .ldxImm 32],
    maskedAsm ld (.sbc (.slot .feSubpRhs)) st l ]

/-- `fe25519_reduce_final`: its two iterations, unrolled. -/
def fe25519ReduceFinalAsm : Asm := .seqs
  [ .block (patchPtrAsm [.subLdDst1, .subStDst1, .subLdDst2, .subStDst2] .fe25519Dst),
    reduceIterationAsm .subLdDst1 .subStDst1 .subP1,
    reduceIterationAsm .subLdDst2 .subStDst2 .subP2 ]

/-- The swap of one byte, in the `u`-th copy of the body. -/
def cswapByteAsm (u : Body) : List Op :=
  [ .lda (.patchedY (.ldA u)), .tax, .eor (.patchedY (.eorB u)), .and (.slot .feCarry),
    .sta (.slot .feLoop), .txa, .eor (.slot .feLoop), .sta (.patchedY (.stA u)),
    .lda (.patchedY (.ldB u)), .eor (.slot .feLoop), .sta (.patchedY (.stB u)), .dey ]

/-- `fe25519_cswap`: four bytes to a turn. -/
def fe25519CswapAsm : Asm := .seqs
  [ .block (.sta (.slot .feCarry) ::
      patchPtrAsm [.ldA .a, .stA .a, .ldA .b, .stA .b, .ldA .c, .stA .c, .ldA .d, .stA .d]
        .fe25519Src1 ++
      patchPtrAsm [.eorB .a, .ldB .a, .stB .a, .eorB .b, .ldB .b, .stB .b,
        .eorB .c, .ldB .c, .stB .c, .eorB .d, .ldB .d, .stB .d] .fe25519Src2 ++
      [.ldyImm 31]),
    .loop (.block (cswapByteAsm .a ++ cswapByteAsm .b ++ cswapByteAsm .c ++ cswapByteAsm .d))
      (.bpl .cswapLoop) ]

end C64X25519
