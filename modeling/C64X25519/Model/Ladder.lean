import C64X25519.Model.Inv
/-!
# The Montgomery ladder

`x25519.s`: the clamp, one ladder step as a field program, the scalar
multiplication around it, and the multiplication of the base point.
-/

namespace C64X25519

open Machine

/-- `x25519_ladder_step`. A call keeps the pointers of the one before where
the source does not set them again. -/
def ladderStepCode : List (Instr Buf) :=
  [ -- A = x_2 + z_2
    .src1 .x25X2, .src2 .x25Z2, .dst .x25A,
    .jsr .fe25519Add,
    -- B = x_2 - z_2
    .dst .x25B,
    .jsr .fe25519Sub,
    -- AA
    .src1 .x25A, .dst .fe25519Tmp3,
    .jsr .fe25519Sqr,
    -- BB
    .src1 .x25B, .dst .fe25519Tmp4,
    .jsr .fe25519Sqr,
    .jsr .fe25519ReduceFinal,
    -- E = AA - BB
    .src1 .fe25519Tmp3, .src2 .fe25519Tmp4, .dst .x25E,
    .jsr .fe25519Sub,
    -- C = x_3 + z_3
    .src1 .x25X3, .src2 .x25Z3, .dst .fe25519Tmp1,
    .jsr .fe25519Add,
    -- D = x_3 - z_3
    .dst .fe25519Tmp2,
    .jsr .fe25519Sub,
    -- DA
    .src1 .fe25519Tmp2, .src2 .x25A, .dst .x25Da,
    .jsr .fe25519Mul,
    -- CB
    .src1 .fe25519Tmp1, .src2 .x25B, .dst .x25Cb,
    .jsr .fe25519Mul,
    .jsr .fe25519ReduceFinal,
    -- x_3 = (DA + CB)^2
    .src1 .x25Da, .src2 .x25Cb, .dst .x25X3,
    .jsr .fe25519Add,
    .src1 .x25X3,
    .jsr .fe25519Sqr,
    -- z_3 = x_1 * (DA - CB)^2
    .src1 .x25Da, .src2 .x25Cb, .dst .x25Z3,
    .jsr .fe25519Sub,
    .src1 .x25Z3,
    .jsr .fe25519Sqr,
    .src1 .x25X1, .src2 .x25Z3,
    .jsr .fe25519Mul,
    .jsr .fe25519ReduceFinal,
    -- x_2 = AA * BB
    .src1 .fe25519Tmp3, .src2 .fe25519Tmp4, .dst .x25X2,
    .jsr .fe25519Mul,
    -- AA + a24 * E
    .src1 .x25E, .dst .fe25519Tmp1,
    .jsr .fe25519MulA24,
    .src1 .fe25519Tmp3, .src2 .fe25519Tmp1,
    .jsr .fe25519Add,
    -- z_2 = E * (AA + a24 * E)
    .src1 .x25E, .dst .x25Z2,
    .jsr .fe25519Mul,
    .jsr .fe25519ReduceFinal ]

variable (B : Build)

/-- `x25519_clamp`. -/
def x25519Clamp (s : Machine) : Machine :=
  let a := B.mem.buf .x25Scalar
  let s := s.setRam a (s.ram a &&& 0xf8)
  s.setRam (a + 31) ((s.ram (a + 31) &&& 0x7f) ||| 0x40)

/-- `x25519_ladder_step`. -/
def x25519LadderStep (s : Machine) : Machine := exec B B.mem.buf ladderStepCode s

/-- A conditional swap of two buffers: the mask goes through `fe_carry`
around the pointer stores, and into the routine in A. -/
def swapBufs (a b : Buf) (mask : Byte) (s : Machine) : Machine :=
  let s := s.setZp (B.slot .feCarry) mask
  let s := exec B B.mem.buf [.src1 a, .src2 b] s
  fe25519Cswap B (s.zp (B.slot .feCarry)) s

/-- Both swaps of the ladder, by one mask. -/
def swapPairs (mask : Byte) (s : Machine) : Machine :=
  swapBufs B .x25Z2 .x25Z3 mask (swapBufs B .x25X2 .x25X3 mask s)

/-- The set-up of `x25519_scalarmult`: (1 : 0), the masked u-coordinate and
its copy in `x25_x1`, and the position of scalar bit 254. -/
def ladderDecode (s : Machine) : Machine :=
  let s := exec B B.mem.buf [.dst .x25X2, .jsr .fe25519One,
    .dst .x25Z2, .jsr .fe25519Zero,
    .src1 .x25U, .dst .x25X3, .jsr .fe25519Copy] s
  let s := s.setRam (B.mem.buf .x25X3 + 31) (s.ram (B.mem.buf .x25U + 31) &&& 0x7f)
  let s := exec B B.mem.buf [.src1 .x25X3, .dst .x25X1, .jsr .fe25519Copy,
    .dst .x25Z3, .jsr .fe25519One] s
  let s := s.setZp (B.slot .x25PrevBit) 0
  let s := s.setZp (B.slot .x25ByteIdx) 31
  s.setZp (B.slot .x25BitMask) 0x40

/-- The head of `@bit_loop`: the mask of the scalar bit at the current
position into `x25_prev_bit`, and the mask of its change into A. -/
def ladderBitMask (s : Machine) : Byte × Machine :=
  let a := s.ram (B.mem.buf .x25Scalar + (s.zp (B.slot .x25ByteIdx)).toNat) &&&
    s.zp (B.slot .x25BitMask)
  let k := (sbc 0 0 (cmp a 1)).1 ^^^ 0xff
  (k ^^^ s.zp (B.slot .x25PrevBit), s.setZp (B.slot .x25PrevBit) k)

/-- The two swaps at the head of a turn. -/
def ladderSwap (s : Machine) : Machine :=
  let p := ladderBitMask B s
  swapPairs B p.1 p.2

/-- The tail of `@bit_loop`: the next position, and whether there is one. -/
def ladderNext (s : Machine) : Machine × Bool :=
  let s := s.setZp (B.slot .x25BitMask) (lsr (s.zp (B.slot .x25BitMask))).1
  if s.zp (B.slot .x25BitMask) ≠ 0 then (s, true)
  else
    let s := s.setZp (B.slot .x25BitMask) 0x80
    let s := s.setZp (B.slot .x25ByteIdx) (s.zp (B.slot .x25ByteIdx) - 1)
    (s, !(s.zp (B.slot .x25ByteIdx)).getLsbD 7)

/-- One turn of `@bit_loop`. -/
def ladderBit (s : Machine) : Machine × Bool :=
  ladderNext B (x25519LadderStep B (ladderSwap B s))

/-- The end of the ladder: the deferred swap, the inversion, and the
canonical product. -/
def ladderFinish (s : Machine) : Machine :=
  let s := swapPairs B (s.zp (B.slot .x25PrevBit)) s
  let s := exec B B.mem.buf [.src1 .x25Z2, .dst .x25Result] s
  let s := fe25519Inv B s
  exec B B.mem.buf [.src1 .x25X2, .src2 .x25Result, .dst .x25Result,
    .jsr .fe25519Mul, .jsr .fe25519ReduceFinal] s

/-- `x25519_scalarmult`, with interrupts masked between `SEI` and `PLP`.
The bit mask is a byte shifted right and the index a byte counted down, so
2048 turns bound the loop. -/
def x25519Scalarmult (s : Machine) : Machine :=
  let flagI := s.flagI
  let s := s.setFlagI true
  let s := entryStores B s
  let s := doWhile (ladderBit B) 0x800 (ladderDecode B s)
  (ladderFinish B s).setFlagI flagI

/-- `x25519_base`. -/
def x25519Base (s : Machine) : Machine :=
  let s := exec B B.mem.buf [.src1 .x25Basepoint, .dst .x25U, .jsr .fe25519Copy] s
  x25519Scalarmult B (x25519Clamp B s)

end C64X25519
