import C64X25519.Model.Init
import C64X25519.Model.Ladder
import Mathlib.Logic.Relation
/-!
# The public calls

The entry points of `x25519.inc` behind one type, with the buffers each of
them reads and leaves its result in, and what a caller may do between two
of them.
-/

namespace C64X25519

open Machine

/-- A public call, with what it is entered with in A. -/
inductive Call
  | jsr (f : FieldOp)
  | fe25519Inv
  | fe25519Cswap (mask : Byte)
  | x25519Clamp
  | x25519Scalarmult
  | x25519Base
  | reuFetchMulRow (a : Byte)
  | reuFetchDoubledRow
deriving DecidableEq

/-- The pointers a field routine follows to its operands. -/
def FieldOp.reads : FieldOp → List Slot
  | .fe25519Zero | .fe25519One => []
  | .fe25519Copy | .fe25519Sqr | .fe25519MulA24 => [.fe25519Src1]
  | .fe25519Add | .fe25519Sub | .fe25519Mul => [.fe25519Src1, .fe25519Src2]
  | .fe25519ReduceFinal => [.fe25519Dst]

namespace Call

/-- The pointers a call follows to its operands. -/
def reads : Call → List Slot
  | jsr f => f.reads
  | fe25519Inv => [.fe25519Src1]
  | fe25519Cswap _ => [.fe25519Src1, .fe25519Src2]
  | _ => []

/-- The pointers it follows to its results. -/
def writes : Call → List Slot
  | jsr _ | fe25519Inv => [.fe25519Dst]
  | fe25519Cswap _ => [.fe25519Src1, .fe25519Src2]
  | _ => []

/-- The library's buffers a call reads by name. -/
def readsOwn : Call → List Buf
  | x25519Clamp | x25519Base => [.x25Scalar]
  | x25519Scalarmult => [.x25Scalar, .x25U]
  | _ => []

/-- And those it leaves a result in. -/
def writesOwn : Call → List Buf
  | x25519Clamp => [.x25Scalar]
  | x25519Scalarmult => [.x25Result]
  | x25519Base => [.x25Result, .x25U, .x25Scalar]
  | _ => []

variable (B : Build)

/-- What a call does to the machine. -/
def run : Call → Machine → Machine
  | jsr f => f.run B
  | fe25519Inv => C64X25519.fe25519Inv B
  | fe25519Cswap mask => C64X25519.fe25519Cswap B mask
  | x25519Clamp => C64X25519.x25519Clamp B
  | x25519Scalarmult => C64X25519.x25519Scalarmult B
  | x25519Base => C64X25519.x25519Base B
  | reuFetchMulRow a => C64X25519.reuFetchMulRow B a
  | reuFetchDoubledRow => C64X25519.reuFetchDoubledRow B

/-- The pages a row fetch fills. -/
def pages : Call → List ℕ
  | reuFetchMulRow _ => [B.mem.mulDmaLo, B.mem.mulDmaHi]
  | reuFetchDoubledRow => [B.mem.mulDmaLo, B.mem.mulDmaHi, B.mem.mulDmaCarry]
  | _ => []

end Call

/-- `n` bytes of memory. -/
def Machine.window (s : Machine) (a n : ℕ) : List Byte := (List.range n).map fun i => s.ram (a + i)

namespace Call

variable (B : Build)

/-- The documented inputs of a call in the state it is made in: the bytes
of its operands, and `mul_cached_a` for the row fetch that reads it. -/
def inputs (c : Call) (s : Machine) : List (List Byte) :=
  c.reads.map (fun x => s.window (s.ptr B x) 32) ++
    c.readsOwn.map (fun b => s.window (B.mem.buf b) 32) ++
    if c = reuFetchDoubledRow then [[s.var .mulCachedA]] else []

/-- What a call made in the state `s` has left in the state `t`: the bytes
its result pointers, its result buffers and its pages hold. -/
def outputs (c : Call) (s t : Machine) : List (List Byte) :=
  c.writes.map (fun x => t.window (s.ptr B x) 32) ++
    c.writesOwn.map (fun b => t.window (B.mem.buf b) 32) ++
    (c.pages B).map fun a => t.window a 0x100

/-- The contract of a call: the pointers it follows are at field buffers,
no result goes into the read-only base point, and a row is fetched where
the build has rows. -/
structure Valid (c : Call) (s : Machine) : Prop where
  ptr : ∀ x ∈ c.reads ++ c.writes, ∃ a : FieldBuf B.mem, s.ptr B x = a.addr
  basepoint : ∀ x ∈ c.writes, s.ptr B x ≠ B.mem.buf .x25Basepoint
  mulRow : ∀ a, c = reuFetchMulRow a → B.onchip = false
  doubledRow : c = reuFetchDoubledRow → B.sqrDmaK ≠ 0

end Call

/-! ## Between calls -/

/-- A step of the program around the library. -/
inductive Event
  | call (c : Call)
  | writeReg (x : Reg) (v : Byte)
  | writeZp (a : ℕ) (v : Byte)
  | writeRam (a : ℕ) (v : Byte)
  | writeVar (x : Var) (v : Byte)

/-- The memory a caller leaves alone: the quarter squares, the code, the
constants and tables of `data.s`, the byte behind `mul_src2_buf`, and the
state bytes of `data.s`, which are variables here. -/
def MemMap.kept (M : MemMap) (a : ℕ) : Prop :=
  (M.sqtab ≤ a ∧ a < M.sqtab + 0x400) ∨ (M.code ≤ a ∧ a < M.code + M.codeSize) ∨
    (M.data + 0x200 ≤ a ∧ a < M.data + 0x240) ∨ (M.data + 0x300 ≤ a ∧ a < M.data + 0xb00) ∨
    (M.data + 0x260 ≤ a ∧ a < M.data + 0x264) ∨ a = M.mulSrc2Buf + 32

namespace Event

variable (B : Build)

/-- What a step does to the machine. -/
def run : Event → Machine → Machine
  | call c => c.run B
  | writeReg x v => Machine.writeReg x v
  | writeZp a v => setZp a v
  | writeRam a v => setRam a v
  | writeVar x v => setVar x v

/-- What a caller may do in a state: a call under its contract, and a write
to a register of the unit, to page zero, to memory it need not leave
alone, and to a variable other than the fault byte. -/
def Valid (s : Machine) : Event → Prop
  | call c => c.Valid B s
  | writeRam a _ => ¬ B.mem.kept a
  | writeVar x _ => x ≠ .x25519ReuFault
  | _ => True

end Event

/-- One step of a caller. -/
def CallerStep (B : Build) (s t : Machine) : Prop := ∃ e : Event, e.Valid B s ∧ t = e.run B s

/-- The initialisers a build has. -/
def initialise (B : Build) (s : Machine) : Machine :=
  if B.onchip then sqtabInit B s else reuMulInit B (sqtabInit B s)

/-- The memory as loaded: the base point and the byte behind `mul_src2_buf`;
and a unit, where the build has one, whose transfers take effect. -/
structure Loaded (B : Build) (s : Machine) : Prop where
  live : B.onchip = false → s.reu.live = true
  basepoint : s.fe (B.mem.buf .x25Basepoint) = 9
  guard : s.ram (B.mem.mulSrc2Buf + 32) = 0

/-- The states any run of a caller reaches from an initialised library. -/
def Reached (B : Build) (s : Machine) : Prop :=
  ∃ r, Loaded B r ∧ Relation.ReflTransGen (CallerStep B) (initialise B r) s

end C64X25519
