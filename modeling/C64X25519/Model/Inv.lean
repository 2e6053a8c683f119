import C64X25519.Model.MulA24
import C64X25519.Model.Sqr
/-!
# Field programs and inversion

The callers of the field routines are straight-line: pointer assignments
and calls. `Instr` is that fragment of the assembly, and the inversion is a
program in it, with the squaring loop of `fe_inv_sqrn_tmp2` as one
instruction.
-/

namespace C64X25519

open Machine

/-- The field routines, by the name a `JSR` gives them. -/
inductive FieldOp
  | fe25519Copy | fe25519Zero | fe25519One | fe25519Add | fe25519Sub
  | fe25519Mul | fe25519Sqr | fe25519MulA24 | fe25519ReduceFinal
deriving DecidableEq, Repr

/-- One step of a field program over the buffers named by `K`. -/
inductive Instr (K : Type)
  /-- `LDA #<(a)` / `STA fe25519_src1` / `LDA #>(a)` / `STA fe25519_src1+1`. -/
  | src1 (a : K)
  | src2 (a : K)
  | dst (a : K)
  | jsr (f : FieldOp)
  /-- `LDA #n` / `JSR fe_inv_sqrn_tmp2`. -/
  | sqrn (n : Byte)
deriving DecidableEq

variable (B : Build)

/-- What a field routine does to the machine. -/
def FieldOp.run : FieldOp → Machine → Machine
  | .fe25519Copy => C64X25519.fe25519Copy B
  | .fe25519Zero => C64X25519.fe25519Zero B
  | .fe25519One => C64X25519.fe25519One B
  | .fe25519Add => C64X25519.fe25519Add B
  | .fe25519Sub => C64X25519.fe25519Sub B
  | .fe25519Mul => C64X25519.fe25519Mul B
  | .fe25519Sqr => C64X25519.fe25519Sqr B
  | .fe25519MulA24 => C64X25519.fe25519MulA24 B
  | .fe25519ReduceFinal => C64X25519.fe25519ReduceFinal B

/-- One turn of the loop of `fe_inv_sqrn_tmp2`. -/
def feInvSqrnBody (s : Machine) : Machine × Bool :=
  let s := s.setPtr B .fe25519Src1 (B.mem.buf .fe25519Tmp2)
  let s := s.setPtr B .fe25519Dst (B.mem.buf .fe25519Tmp2)
  let s := fe25519Sqr B s
  let s := s.setVar .feInvSqrCnt (s.var .feInvSqrCnt - 1)
  (s, s.var .feInvSqrCnt != 0)

/-- `fe_inv_sqrn_tmp2`, entered with the count in A. -/
def feInvSqrnTmp2 (n : Byte) (s : Machine) : Machine :=
  doWhile (feInvSqrnBody B) 0x100 (s.setVar .feInvSqrCnt n)

/-- One step, with the buffers at the addresses `addr`. -/
def Instr.run {K : Type} (addr : K → ℕ) : Instr K → Machine → Machine
  | .src1 a => setPtr B .fe25519Src1 (addr a)
  | .src2 a => setPtr B .fe25519Src2 (addr a)
  | .dst a => setPtr B .fe25519Dst (addr a)
  | .jsr f => f.run B
  | .sqrn n => feInvSqrnTmp2 B n

/-- A program, instruction by instruction. -/
def exec {K : Type} (addr : K → ℕ) (code : List (Instr K)) (s : Machine) : Machine :=
  code.foldl (fun s i => i.run B addr s) s

/-! ## `fe25519_inv` -/

/-- The body of `fe25519_inv` between the save of the destination pointer
and its return to `fe25519_dst`. -/
def feInvCode : List (Instr Buf) :=
  [ .dst .fe25519Tmp1,
    .jsr .fe25519Copy,
    -- z2
    .src1 .fe25519Tmp1, .dst .fe25519Tmp2,
    .jsr .fe25519Sqr,
    -- z4
    .src1 .fe25519Tmp2, .dst .fe25519Tmp3,
    .jsr .fe25519Sqr,
    -- z8
    .src1 .fe25519Tmp3, .dst .fe25519Tmp3,
    .jsr .fe25519Sqr,
    -- z9
    .src1 .fe25519Tmp3, .src2 .fe25519Tmp1, .dst .fe25519Tmp3,
    .jsr .fe25519Mul,
    -- z11
    .src1 .fe25519Tmp3, .src2 .fe25519Tmp2, .dst .x25A,
    .jsr .fe25519Mul,
    -- z22
    .src1 .x25A, .dst .fe25519Tmp2,
    .jsr .fe25519Sqr,
    -- z_5_0
    .src1 .fe25519Tmp2, .src2 .fe25519Tmp3, .dst .fe25519Tmp2,
    .jsr .fe25519Mul,
    .src1 .fe25519Tmp2, .dst .fe25519Tmp3,
    .jsr .fe25519Copy,
    .sqrn 5,
    -- z_10_0
    .src1 .fe25519Tmp2, .src2 .fe25519Tmp3, .dst .x25B,
    .jsr .fe25519Mul,
    -- z_20_0
    .src1 .x25B, .dst .fe25519Tmp2,
    .jsr .fe25519Copy,
    .sqrn 10,
    .src1 .fe25519Tmp2, .src2 .x25B, .dst .fe25519Tmp2,
    .jsr .fe25519Mul,
    -- z_40_0
    .src1 .fe25519Tmp2, .dst .fe25519Tmp3,
    .jsr .fe25519Copy,
    .sqrn 20,
    .src1 .fe25519Tmp2, .src2 .fe25519Tmp3, .dst .fe25519Tmp2,
    .jsr .fe25519Mul,
    -- z_50_0
    .sqrn 10,
    .src1 .fe25519Tmp2, .src2 .x25B, .dst .x25Da,
    .jsr .fe25519Mul,
    -- z_100_0
    .src1 .x25Da, .dst .fe25519Tmp2,
    .jsr .fe25519Copy,
    .sqrn 50,
    .src1 .fe25519Tmp2, .src2 .x25Da, .dst .x25Cb,
    .jsr .fe25519Mul,
    -- z_200_0
    .src1 .x25Cb, .dst .fe25519Tmp2,
    .jsr .fe25519Copy,
    .sqrn 100,
    .src1 .fe25519Tmp2, .src2 .x25Cb, .dst .fe25519Tmp2,
    .jsr .fe25519Mul,
    -- z_250_0
    .sqrn 50,
    .src1 .fe25519Tmp2, .src2 .x25Da, .dst .fe25519Tmp2,
    .jsr .fe25519Mul,
    -- the final five squarings, and z11
    .sqrn 5,
    .src1 .fe25519Tmp2, .src2 .x25A ]

/-- `fe25519_inv`. -/
def fe25519Inv (s : Machine) : Machine :=
  let s := s.setVar .feInvDstLo (s.zp (B.slot .fe25519Dst))
  let s := s.setVar .feInvDstHi (s.zp (B.slot .fe25519Dst + 1))
  let s := exec B B.mem.buf feInvCode s
  let s := s.setZp (B.slot .fe25519Dst) (s.var .feInvDstLo)
  let s := s.setZp (B.slot .fe25519Dst + 1) (s.var .feInvDstHi)
  fe25519ReduceFinal B (fe25519Mul B s)

end C64X25519
