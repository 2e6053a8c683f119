import C64X25519.Model.Byte
/-!
# The build — addresses and tunables

What the assembler and the linker fix before the library runs: the
zero-page roster with its assertions, the layout of the data segments, and
the build-time numbers. An assignment the assertions reject has no
`ZpMap`, and a layout whose regions overlap has no `MemMap`.
-/

namespace C64X25519

/-! ## The zero-page roster -/

/-- The zero-page slots of the library, in roster order. -/
inductive Slot
  | fe25519Src1 | fe25519Src2 | fe25519Dst
  | mulPending | mulBound | feCarry | feLoop | feMulI | feMulJ | mulRippleStart
  | x25PrevBit | x25ByteIdx | x25BitMask | feSqrPairs
  | feCmpMask | feSubpRhs | feAddCarryMask
  | mulCarry
  | feWide
deriving DecidableEq, Repr

namespace Slot

/-- Default address and size of each slot, one line per slot. -/
def row : Slot → ℕ × ℕ
  | fe25519Src1 => (0x1e, 2)
  | fe25519Src2 => (0x20, 2)
  | fe25519Dst => (0x22, 2)
  | mulPending => (0x24, 1)
  | mulBound => (0x25, 1)
  | feCarry => (0x26, 1)
  | feLoop => (0x27, 1)
  | feMulI => (0x28, 1)
  | feMulJ => (0x29, 1)
  | mulRippleStart => (0x2f, 1)
  | x25PrevBit => (0x2a, 1)
  | x25ByteIdx => (0x2c, 1)
  | x25BitMask => (0x2d, 1)
  | feSqrPairs => (0x2e, 1)
  | feCmpMask => (0x14, 1)
  | feSubpRhs => (0x15, 1)
  | feAddCarryMask => (0x16, 1)
  | mulCarry => (0x1c, 1)
  | feWide => (0x40, 64)

/-- The bytes of a slot. -/
def size (s : Slot) : ℕ := s.row.2

/-- The roster, line by line. -/
def roster : List Slot :=
  [fe25519Src1, fe25519Src2, fe25519Dst, mulPending, mulBound, feCarry, feLoop, feMulI, feMulJ,
    mulRippleStart, x25PrevBit, x25ByteIdx, x25BitMask, feSqrPairs, feCmpMask, feSubpRhs,
    feAddCarryMask, mulCarry, feWide]

end Slot

/-- The span assertions of `x25519_zp_define`, at one slot. -/
def x25519ZpDefine (addr : Slot → ℕ) (s : Slot) : Bool :=
  decide (addr s + s.size ≤ 0x100) && decide (2 ≤ addr s)

/-- The assertion of `x25519_zp_check_pair`, at one pair. -/
def x25519ZpCheckPair (addr : Slot → ℕ) (a b : Slot) : Bool :=
  decide (addr a + a.size ≤ addr b) || decide (addr b + b.size ≤ addr a)

/-- All assertions of `zp_config.s`. The second pass expands the roster
inside itself, counts both expansions, and asserts a pair only where the
inner count is past the outer one. -/
def x25519ZpAccepts (addr : Slot → ℕ) : Bool :=
  Slot.roster.all (x25519ZpDefine addr) &&
    (Slot.roster.zipIdx.all fun a => Slot.roster.zipIdx.all fun b =>
      !decide (a.2 < b.2) || x25519ZpCheckPair addr a.1 b.1) &&
    decide (addr .feWide + 64 ≤ 0x100)

/-- An assignment of zero-page addresses the build accepts. -/
structure ZpMap where
  addr : Slot → ℕ
  accepted : x25519ZpAccepts addr = true

/-- The addresses of an unrelocated build. -/
def ZpMap.default : ZpMap := ⟨fun s => s.row.1, by decide⟩

/-! ## The data segments -/

/-- The 32-byte field buffers of `data.s`. -/
inductive Buf
  | fe25519Tmp1 | fe25519Tmp2 | fe25519Tmp3 | fe25519Tmp4
  | x25X2 | x25Z2 | x25X3 | x25Z3
  | x25A | x25B | x25Da | x25Cb | x25E
  | x25Scalar | x25U | x25Result
  | x25Basepoint | x25X1
deriving DecidableEq, Repr

/-- Where each buffer stands in its segment: a buffer starts at a multiple
of 32, eight to a page. The constant `fe_p` is at `0x220`, and no pointer is
aimed at it. -/
def Buf.offset : Buf → ℕ
  | fe25519Tmp1 => 0x000
  | fe25519Tmp2 => 0x020
  | fe25519Tmp3 => 0x040
  | fe25519Tmp4 => 0x060
  | x25X2 => 0x080
  | x25Z2 => 0x0a0
  | x25X3 => 0x0c0
  | x25Z3 => 0x0e0
  | x25A => 0x100
  | x25B => 0x120
  | x25Da => 0x140
  | x25Cb => 0x160
  | x25E => 0x180
  | x25Scalar => 0x1a0
  | x25U => 0x1c0
  | x25Result => 0x1e0
  | x25Basepoint => 0x200
  | x25X1 => 0x240

/-- Two spans of addresses, as base and length, share no address. -/
def Apart (r q : ℕ × ℕ) : Prop := r.1 + r.2 ≤ q.1 ∨ q.1 + q.2 ≤ r.1

instance (r q : ℕ × ℕ) : Decidable (Apart r q) := inferInstanceAs (Decidable (_ ∨ _))

/-- Where the linker put the library: `data.s`, the staging pages of
`mul_stage.s`, the quarter-square table, and the code with its own bytes,
one of which is the transfer byte of `reu_probe`. -/
structure MemMap where
  data : ℕ
  stage : ℕ
  sqtab : ℕ
  code : ℕ
  codeSize : ℕ
  probeScratch : ℕ
  data_aligned : data % 256 = 0
  stage_aligned : stage % 256 = 0
  sqtab_aligned : sqtab % 256 = 0
  probeScratch_mem : code ≤ probeScratch ∧ probeScratch < code + codeSize
  placed : ∀ r ∈ [(data, 0xb00), (stage, 0x300), (sqtab, 0x400), (code, codeSize)],
    0x200 ≤ r.1 ∧ r.1 + r.2 ≤ 0x10000 ∧ Apart r (0xd000, 0x1000)
  apart : [(data, 0xb00), (stage, 0x300), (sqtab, 0x400), (code, codeSize)].Pairwise Apart

namespace MemMap

variable (M : MemMap)

/-- The library's own memory. -/
def regions : List (ℕ × ℕ) :=
  [(M.data, 0xb00), (M.stage, 0x300), (M.sqtab, 0x400), (M.code, M.codeSize)]

/-- The address of a buffer. -/
def buf (b : Buf) : ℕ := M.data + b.offset

/-- `mul_src2_buf`, 33 bytes, behind the four state bytes of `data.s`. -/
def mulSrc2Buf : ℕ := M.data + 0x264

/-- `mul_dma_lo`: the staged low bytes. -/
def mulDmaLo : ℕ := M.stage

/-- `mul_dma_hi`: the staged high bytes. -/
def mulDmaHi : ℕ := M.stage + 0x100

/-- `mul_dma_carry`: the staged 17th bits of a doubled row. -/
def mulDmaCarry : ℕ := M.stage + 0x200

/-- `sqtab_lo`: the low bytes of the quarter squares, two pages. -/
def sqtabLo : ℕ := M.sqtab

/-- `sqtab_hi`: their high bytes, two pages behind. -/
def sqtabHi : ℕ := M.sqtab + 0x200

end MemMap

/-- A 32-byte field buffer, the library's or a caller's: 32-byte aligned,
clear of page zero, the stack and the I/O area, and outside the library's
memory unless it is one of the library's own buffers. -/
structure FieldBuf (M : MemMap) where
  addr : ℕ
  aligned : addr % 32 = 0
  high : 0x200 ≤ addr
  fits : addr + 32 ≤ 0x10000
  visible : Apart (addr, 32) (0xd000, 0x1000)
  free : (∃ b, addr = M.buf b) ∨ ∀ r ∈ M.regions, Apart (addr, 32) r

/-! ## The build -/

/-- One build of the library, with the numbers its assertions admit. -/
structure Build where
  zp : ZpMap
  mem : MemMap
  /-- `X25519_ONCHIP_MUL`. -/
  onchip : Bool
  /-- `SQR_DMA_K`, an immediate operand. -/
  sqrDmaK : ℕ
  /-- `X25519_REU_BANK`. -/
  reuBank : ℕ
  /-- `X25519_REU_SETTLE_ITER`. -/
  settleIter : ℕ
  sqrDmaK_lt : sqrDmaK < 0x100
  sqrDmaK_onchip : onchip = true → sqrDmaK = 0
  reuBank_le : reuBank ≤ if sqrDmaK = 0 then 30 else 26
  settleIter_le : 2 ≤ settleIter ∧ settleIter ≤ 255

namespace Build

variable (B : Build)

/-- The address of a slot. -/
def slot (s : Slot) : ℕ := B.zp.addr s

/-- `X25519_REU_BANK_DOUBLED`. -/
def reuBankDoubled : ℕ := B.reuBank + 4

/-- `X25519_REU_BANK_CARRY`. -/
def reuBankCarry : ℕ := B.reuBank + 3

/-- `LIB_X25519_REU_BANKS_USED`: bit `n` claims bank `n`. -/
def reuBanksUsed : ℕ :=
  if B.onchip then 0
  else if B.sqrDmaK ≠ 0 then 0x3b <<< B.reuBank
  else 0x03 <<< B.reuBank

end Build

end C64X25519
