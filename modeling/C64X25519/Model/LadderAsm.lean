import C64X25519.Model.Api
import C64X25519.Model.MulA24Asm
import C64X25519.Model.SqrAsm
/-!
# The listings — field programs, inversion, the ladder

A field program is listed instruction by instruction. The inversion, the
ladder and the public calls around them are as they stand in `fe25519.s`
and `x25519.s`.
-/

namespace C64X25519

variable (B : Build)

/-! ## Field programs -/

/-- `LDA #<(a)` / `STA slot` / `LDA #>(a)` / `STA slot+1`. -/
def setPtrAsm (x : Slot) (a : ℕ) : List Op :=
  [ .ldaImm (BitVec.ofNat 8 a), .sta (.slot x),
    .ldaImm (BitVec.ofNat 8 (a / 0x100)), .sta (.slotHi x) ]

/-- The listing of a field routine. -/
def FieldOp.asm : FieldOp → Asm
  | .fe25519Copy => fe25519CopyAsm
  | .fe25519Zero => fe25519ZeroAsm
  | .fe25519One => fe25519OneAsm
  | .fe25519Add => fe25519AddAsm
  | .fe25519Sub => fe25519SubAsm
  | .fe25519Mul => fe25519MulAsm B
  | .fe25519Sqr => fe25519SqrAsm B
  | .fe25519MulA24 => fe25519MulA24Asm B
  | .fe25519ReduceFinal => fe25519ReduceFinalAsm

/-- A turn of the loop of `fe_inv_sqrn_tmp2`. -/
def feInvSqrnBodyAsm : Asm := .seqs
  [ .block (setPtrAsm .fe25519Src1 (B.mem.buf .fe25519Tmp2) ++
      setPtrAsm .fe25519Dst (B.mem.buf .fe25519Tmp2)),
    .call (fe25519SqrAsm B),
    .block [.dec (.var .feInvSqrCnt)] ]

/-- `fe_inv_sqrn_tmp2`, entered with the count in A. -/
def feInvSqrnTmp2Asm : Asm := .seqs
  [.block [.sta (.var .feInvSqrCnt)], .loop (feInvSqrnBodyAsm B) (.bne .sqrnLoop)]

/-- One step, with the buffers at the addresses `addr`. -/
def Instr.asm {K : Type} (addr : K → ℕ) : Instr K → Asm
  | .src1 a => .block (setPtrAsm .fe25519Src1 (addr a))
  | .src2 a => .block (setPtrAsm .fe25519Src2 (addr a))
  | .dst a => .block (setPtrAsm .fe25519Dst (addr a))
  | .jsr f => .call (f.asm B)
  | .sqrn n => .seqs [.block [.ldaImm n], .call (feInvSqrnTmp2Asm B)]

/-- A program. -/
def execAsm {K : Type} (addr : K → ℕ) (code : List (Instr K)) : Asm :=
  .seqs (code.map (Instr.asm B addr))

/-- `fe25519_inv`. -/
def fe25519InvAsm : Asm := .seqs
  [ .block [.lda (.slot .fe25519Dst), .sta (.var .feInvDstLo),
      .lda (.slotHi .fe25519Dst), .sta (.var .feInvDstHi)],
    execAsm B B.mem.buf feInvCode,
    .block [.lda (.var .feInvDstLo), .sta (.slot .fe25519Dst),
      .lda (.var .feInvDstHi), .sta (.slotHi .fe25519Dst)],
    .call (fe25519MulAsm B),
    .call fe25519ReduceFinalAsm ]

/-! ## `x25519.s` -/

/-- `x25519_clamp`. -/
def x25519ClampAsm : Asm :=
  let a := B.mem.buf .x25Scalar
  .block [.lda (.abs a), .andImm 0xf8, .sta (.abs a),
    .lda (.abs (a + 31)), .andImm 0x7f, .oraImm 0x40, .sta (.abs (a + 31))]

/-- `x25519_ladder_step`. -/
def x25519LadderStepAsm : Asm := execAsm B B.mem.buf ladderStepCode

/-- The swap of two buffers by the mask in A, behind the store of `first`
that saves the mask or brings it back. -/
def swapBufsAsm (first : Op) (a b : Buf) : Asm := .seqs
  [ .block [first, .sta (.slot .feCarry)],
    .block (setPtrAsm .fe25519Src1 (B.mem.buf a) ++ setPtrAsm .fe25519Src2 (B.mem.buf b)),
    .block [.lda (.slot .feCarry)],
    .call fe25519CswapAsm ]

/-- Both swaps of a turn, the mask on the stack between them. -/
def swapPairsAsm : Asm := .seq (swapBufsAsm B .pha .x25X2 .x25X3) (swapBufsAsm B .pla .x25Z2 .x25Z3)

/-- The set-up of `x25519_scalarmult`. -/
def ladderDecodeAsm : Asm := .seqs
  [ execAsm B B.mem.buf [.dst .x25X2, .jsr .fe25519One, .dst .x25Z2, .jsr .fe25519Zero,
      .src1 .x25U, .dst .x25X3, .jsr .fe25519Copy],
    .block [.lda (.abs (B.mem.buf .x25U + 31)), .andImm 0x7f, .sta (.abs (B.mem.buf .x25X3 + 31))],
    execAsm B B.mem.buf [.src1 .x25X3, .dst .x25X1, .jsr .fe25519Copy,
      .dst .x25Z3, .jsr .fe25519One],
    .block [.ldaImm 0, .sta (.slot .x25PrevBit), .ldaImm 31, .sta (.slot .x25ByteIdx),
      .ldaImm 0x40, .sta (.slot .x25BitMask)] ]

/-- `@bit_loop`, up to its first branch. -/
def ladderBitAsm : Asm := .seqs
  [ .block [.ldx (.slot .x25ByteIdx), .lda (.absX (B.mem.buf .x25Scalar)),
      .and (.slot .x25BitMask), .cmpImm 1, .ldaImm 0, .sbcImm 0, .eorImm 0xff, .tax,
      .eor (.slot .x25PrevBit), .stx (.slot .x25PrevBit)],
    swapPairsAsm B,
    .call (x25519LadderStepAsm B),
    .block [.lsr (.slot .x25BitMask)] ]

/-- Both of its branches lead back to its head. -/
def ladderLoopAsm : Asm :=
  .loop (.seqs
    [ .loop (ladderBitAsm B) (.bne .bitLoop),
      .block [.ldaImm 0x80, .sta (.slot .x25BitMask), .dec (.slot .x25ByteIdx)] ])
    (.bpl .bitLoopByte)

/-- Behind the bit loop: the last swap, and the quotient. -/
def ladderFinishAsm : Asm := .seqs
  [ .block [.lda (.slot .x25PrevBit)],
    swapPairsAsm B,
    execAsm B B.mem.buf [.src1 .x25Z2, .dst .x25Result],
    .call (fe25519InvAsm B),
    execAsm B B.mem.buf [.src1 .x25X2, .src2 .x25Result, .dst .x25Result,
      .jsr .fe25519Mul, .jsr .fe25519ReduceFinal] ]

/-- `x25519_scalarmult`. -/
def x25519ScalarmultAsm : Asm := .seqs
  [ .block [.php, .sei],
    .block (entryStoresAsm B),
    ladderDecodeAsm B,
    ladderLoopAsm B,
    ladderFinishAsm B,
    .block [.plp] ]

/-- `x25519_base`. -/
def x25519BaseAsm : Asm := .seqs
  [ execAsm B B.mem.buf [.src1 .x25Basepoint, .dst .x25U, .jsr .fe25519Copy],
    .call (x25519ClampAsm B),
    .call (x25519ScalarmultAsm B) ]

/-! ## The public calls -/

namespace Call

/-- The listing of a call. -/
def asm : Call → Asm
  | jsr f => f.asm B
  | fe25519Inv => fe25519InvAsm B
  | fe25519Cswap _ => fe25519CswapAsm
  | x25519Clamp => x25519ClampAsm B
  | x25519Scalarmult => x25519ScalarmultAsm B
  | x25519Base => x25519BaseAsm B
  | reuFetchMulRow _ => reuFetchMulRowAsm B
  | reuFetchDoubledRow => reuFetchDoubledRowAsm B

/-- What a call takes in A. -/
def given : Call → Option Byte
  | fe25519Cswap v | reuFetchMulRow v => some v
  | _ => none

end Call

/-! ## Sessions -/

/-- A step of a caller on the processor, and what a call takes: A is loaded
where the call reads it, and the call is a `JSR`. -/
def Event.exec (L : Link) : Event → Core → Option (Core × ℕ)
  | .call c, s => (Code.call (c.asm B)).run (cpu B L) { s with a := c.given.getD s.a }
  | e, s => some ({ s with m := e.run B s.m }, 0)

/-- A run of a caller: where it ends, and what its steps take. -/
def session (L : Link) : List Event → Core → Option (Core × List ℕ)
  | [], s => some (s, [])
  | e :: es, s => (e.exec B L s).bind fun t => (session L es t.1).map fun u => (u.1, t.2 :: u.2)

end C64X25519
