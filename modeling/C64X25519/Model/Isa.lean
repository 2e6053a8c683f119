import C64X25519.Common.Assembly
import C64X25519.Model.Mul
import C64X25519.Model.Sqr
import C64X25519.Model.MulA24
/-!
# The processor

The instructions of the 6502 the library is written in, with the cycles
each takes. An instruction acts on the registers, the stack and the machine
of `Machine.lean`; an indexed or indirect operand addresses memory outside
page zero, with the address wrapping at 64 KB and the extra cycle of a read
that leaves its page.

What the code alone does not fix is in `Link`: which of its branches cross
a page when taken, and how long the expansion unit halts the processor for
a transfer. Cycles are the processor's own; the display takes none, as
under `vic_blank`.
-/

namespace C64X25519

open Machine

/-! ## Operands -/

/-- The tables of `data.s`, by their bytes: `fe_p` at `0x220`, and the pages
behind the buffers. -/
inductive Table
  | feP | mul38Lo | mul38Hi | sqrLo | sqrHi | a24B0 | a24B1 | a24B2 | a24B3
deriving DecidableEq, Repr

namespace Table

/-- Where each table stands in the segment of `data.s`. -/
def offset : Table → ℕ
  | feP => 0x220
  | mul38Lo => 0x300
  | mul38Hi => 0x400
  | sqrLo => 0x500
  | sqrHi => 0x600
  | a24B0 => 0x700
  | a24B1 => 0x800
  | a24B2 => 0x900
  | a24B3 => 0xa00

/-- The entry of a table at an index. -/
def byte : Table → Byte → Byte
  | feP, y => C64X25519.feP y.toNat
  | mul38Lo, y => mul38LoTab y
  | mul38Hi, y => mul38HiTab y
  | sqrLo, y => C64X25519.sqrLo y
  | sqrHi, y => C64X25519.sqrHi y
  | a24B0, y => C64X25519.a24B0 y
  | a24B1, y => C64X25519.a24B1 y
  | a24B2, y => C64X25519.a24B2 y
  | a24B3, y => C64X25519.a24B3 y

end Table

/-- An operand in memory. -/
inductive Operand
  /-- `slot`. -/
  | slot (x : Slot)
  /-- `slot+1`. -/
  | slotHi (x : Slot)
  /-- `fe_wide+k`. -/
  | wide (k : ℕ)
  /-- `fe_wide+k,x`. -/
  | wideX (k : ℕ)
  /-- `fe_wide,y`, an absolute operand. -/
  | wideY
  /-- `zp,x`, with the operand byte of a patched instruction. -/
  | patchedZp (x : Site)
  | var (v : Var)
  | abs (a : ℕ)
  | absX (a : ℕ)
  | absY (a : ℕ)
  /-- `abs,x` and `abs,y`, with the operand of a patched instruction. -/
  | patchedX (x : Site)
  | patchedY (x : Site)
  /-- `base,x`, with its page patched. -/
  | pageX (x : Site) (base : ℕ)
  | table (t : Table)
  /-- `(slot),y`. -/
  | indY (x : Slot)

/-! ## The registers -/

/-- A byte of the stack, or the return address of a `JSR`. -/
inductive Pushed
  | byte (v : Byte)
  | status (nz : Byte) (c i : Bool)
  | ret
deriving DecidableEq

/-- The processor, over its machine. -/
structure Core where
  a : Byte
  x : Byte
  y : Byte
  /-- The byte the negative and zero flags show. -/
  nz : Byte
  c : Bool
  stack : List Pushed
  m : Machine

/-- The sum of an indexed address. -/
def indexed (a i : ℕ) : ℕ := (a + i) % 0x10000

/-- The extra cycle of a read across a page. -/
def pageCross (a i : ℕ) : ℕ := if 0x100 ≤ a % 0x100 + i then 1 else 0

namespace Core

/-- A loaded, with its flags. -/
def setA (v : Byte) (s : Core) : Core := { s with a := v, nz := v }

/-- X loaded, with its flags. -/
def setX (v : Byte) (s : Core) : Core := { s with x := v, nz := v }

/-- Y loaded, with its flags. -/
def setY (v : Byte) (s : Core) : Core := { s with y := v, nz := v }

/-- The result of an addition or a shift of A. -/
def setAC (r : Byte × Bool) (s : Core) : Core := { s with a := r.1, nz := r.1, c := r.2 }

/-- The flags of a comparison. -/
def compare (r m : Byte) (s : Core) : Core := { s with nz := r - m, c := cmp r m }

/-- A byte, or a return address, pushed. -/
def push (p : Pushed) (s : Core) : Core := { s with stack := p :: s.stack }

end Core

namespace Operand

variable (B : Build)

/-- What the operand reads. -/
def get (s : Core) : Operand → Byte
  | slot x => s.m.zp (B.slot x)
  | slotHi x => s.m.zp (B.slot x + 1)
  | wide k => s.m.zp (B.wideAt k)
  | wideX k => s.m.zp (B.wideAt (k + s.x.toNat))
  | wideY => s.m.zp (B.wideAt s.y.toNat)
  | patchedZp x => s.m.zp (s.m.zpx x s.x.toNat)
  | var v => s.m.var v
  | abs a => s.m.ram a
  | absX a => s.m.ram (indexed a s.x.toNat)
  | absY a => s.m.ram (indexed a s.y.toNat)
  | patchedX x => s.m.ram (indexed (s.m.op x) s.x.toNat)
  | patchedY x => s.m.ram (indexed (s.m.op x) s.y.toNat)
  | pageX x base => s.m.ram (indexed (pageOp s.m x base) s.x.toNat)
  | table t => t.byte s.y
  | indY x => s.m.ram (indexed (s.m.ptr B x) s.y.toNat)

/-- The machine behind a store; the constant tables are not written. -/
def put (v : Byte) (s : Core) : Operand → Machine
  | slot x => s.m.setZp (B.slot x) v
  | slotHi x => s.m.setZp (B.slot x + 1) v
  | wide k => s.m.setZp (B.wideAt k) v
  | wideX k => s.m.setZp (B.wideAt (k + s.x.toNat)) v
  | wideY => s.m.setZp (B.wideAt s.y.toNat) v
  | patchedZp x => s.m.setZp (s.m.zpx x s.x.toNat) v
  | var z => s.m.setVar z v
  | abs a => s.m.setRam a v
  | absX a => s.m.setRam (indexed a s.x.toNat) v
  | absY a => s.m.setRam (indexed a s.y.toNat) v
  | patchedX x => s.m.setRam (indexed (s.m.op x) s.x.toNat) v
  | patchedY x => s.m.setRam (indexed (s.m.op x) s.y.toNat) v
  | pageX x base => s.m.setRam (indexed (pageOp s.m x base) s.x.toNat) v
  | table _ => s.m
  | indY x => s.m.setRam (indexed (s.m.ptr B x) s.y.toNat) v

/-- The cycles of a read. -/
def readCycles (s : Core) : Operand → ℕ
  | slot _ | slotHi _ | wide _ => 3
  | wideX _ | patchedZp _ | var _ | abs _ => 4
  | wideY => 4 + pageCross (B.slot .feWide) s.y.toNat
  | absX a => 4 + pageCross a s.x.toNat
  | absY a => 4 + pageCross a s.y.toNat
  | patchedX x => 4 + pageCross (s.m.op x) s.x.toNat
  | patchedY x => 4 + pageCross (s.m.op x) s.y.toNat
  | pageX x base => 4 + pageCross (pageOp s.m x base) s.x.toNat
  | table t => 4 + pageCross (B.mem.data + t.offset) s.y.toNat
  | indY x => 5 + pageCross (s.m.ptr B x) s.y.toNat

/-- The cycles of a write. -/
def writeCycles : Operand → ℕ
  | slot _ | slotHi _ | wide _ => 3
  | wideX _ | patchedZp _ | var _ | abs _ => 4
  | wideY | absX _ | absY _ | patchedX _ | patchedY _ | pageX _ _ | table _ => 5
  | indY _ => 6

/-- The cycles of an instruction that reads its operand and writes it
back. -/
def modifyCycles : Operand → ℕ
  | slot _ | slotHi _ | wide _ => 5
  | wideX _ | patchedZp _ | var _ | abs _ => 6
  | wideY | absX _ | absY _ | patchedX _ | patchedY _ | pageX _ _ | table _ => 7
  | indY _ => 8

end Operand

/-! ## Instructions -/

/-- An instruction of the library, by its mnemonic: on an operand in memory, an
immediate one (`Imm`), the accumulator (`A`), or none. -/
inductive Op
  | lda (p : Operand) | ldx (p : Operand) | ldy (p : Operand)
  | ldaImm (v : Byte) | ldxImm (v : Byte) | ldyImm (v : Byte)
  | sta (p : Operand) | stx (p : Operand)
  | adc (p : Operand) | sbc (p : Operand) | and (p : Operand) | ora (p : Operand) | eor (p : Operand)
  | adcImm (v : Byte) | sbcImm (v : Byte) | andImm (v : Byte) | oraImm (v : Byte)
  | eorImm (v : Byte)
  /-- An immediate operand the code patches. -/
  | adcPatched (x : Site) | sbcPatched (x : Site)
  | cmpImm (v : Byte) | cpxImm (v : Byte) | cpx (p : Operand)
  | aslA | lsrA | rolA | rorA
  | asl (p : Operand) | rol (p : Operand) | lsr (p : Operand) | ror (p : Operand)
  | inc (p : Operand) | dec (p : Operand)
  | inx | iny | dex | dey | tax | txa | tay | tya
  | clc | sec | sei | pha | pla | php | plp
  /-- `STA label+1` and `STA label+2`. -/
  | staLo (x : Site) | staHi (x : Site)
  | staReg (x : Reg)
  | ldaReg (x : Reg)
  /-- `STA reu_command` and `LDA reu_status`. -/
  | staCommand | ldaStatus
  /-- `LDA #<(i)` / `STA @sqr_inner_tramp+1` / `LDA #>(i)` /
  `STA @sqr_inner_tramp+2`. -/
  | staTramp (i : SqrInner)

/-- The labels branches lead to, by routine. -/
inductive Label
  | copyLoop | zeroLoop
  | addLoop | addSubP | cmpLoop | subLoop | subAddP | subP1 | subP2 | cswapLoop
  -- fe25519_mul and fe_reduce_wide
  | genRow | mulSettle | bodyDChainSkip | mulInnerDone | mulRippleDone | mulRippleDoneEq | mulRipple
  | mulDone | mulCopyResult | reduce1 | ucasc1 | ucasc2
  -- fe25519_sqr
  | copySrc | sqrUseMult66 | sqrBChainSkip | sqrPairLoopExitMul
  | sqrMult66RipDone | sqrMult66RipDoneEq | sqrMult66Rip
  | sqrDmaInnerDone | sqrDmaRipDone | sqrDmaRipDoneEq | sqrDmaRip
  | sqrCrossDone | diagRipDone | diagRipDoneEq | diagRip | sqrReduce | sqrCopyResult
  -- fe25519_mul_a24
  | a24Zero | a24Outer | finalRipple | foldRipple | copyA24
  -- fe_inv_sqrn_tmp2, x25519_scalarmult
  | sqrnLoop | bitLoop | bitLoopByte
  -- x25519_init.s
  | noB5 | settleDone | settleExpired | fetchSettle | doubledSettle | carrySettle | clearLoop
  | dblLoop | dblLoSettle | dblHiSettle | dblCarrySettle
  | initInner | initLoSettle | initHiSettle | initDone | tablesSettle | tablesDone
  | probeFetchSettle | probePatternSettle | probeReadSettle | probeRestoreSettle
  | probeFailByte | probeFailFault
  -- sqtab_init.s
  | sqPg0 | sqAdNoCarry | sqINoCarry | sqDone
deriving DecidableEq, Repr

/-- A branch instruction; the last two read where a patched jump leads. -/
inductive Branch
  | bne (l : Label) | beq (l : Label) | bcc (l : Label) | bcs (l : Label) | bpl (l : Label)
  | viaTramp
deriving DecidableEq, Repr

/-- What the linker and the board decide. -/
structure Link where
  /-- Whether the branch to a label crosses a page. -/
  crosses : Label → Bool
  /-- The cycles a transfer of a length takes from the processor. -/
  dma : ℕ → ℕ

namespace Op

variable (B : Build) (L : Link)

/-- A pull takes what was pushed as its kind. -/
def ready : Op → Core → Bool
  | pla, s => match s.stack with
    | .byte _ :: _ => true
    | _ => false
  | plp, s => match s.stack with
    | .status .. :: _ => true
    | _ => false
  | _, _ => true

/-- An instruction that reads an operand and writes it back. -/
def modify (p : Operand) (v : Byte) (s : Core) : Core :=
  { s with nz := v, m := p.put B v s }

/-- What an instruction does; a pull that is not `ready` changes nothing. -/
def act : Op → Core → Core
  | lda p, s => s.setA (p.get B s)
  | ldx p, s => s.setX (p.get B s)
  | ldy p, s => s.setY (p.get B s)
  | ldaImm v, s => s.setA v
  | ldxImm v, s => s.setX v
  | ldyImm v, s => s.setY v
  | sta p, s => { s with m := p.put B s.a s }
  | stx p, s => { s with m := p.put B s.x s }
  | adc p, s => s.setAC (C64X25519.adc s.a (p.get B s) s.c)
  | sbc p, s => s.setAC (C64X25519.sbc s.a (p.get B s) s.c)
  | and p, s => s.setA (s.a &&& p.get B s)
  | ora p, s => s.setA (s.a ||| p.get B s)
  | eor p, s => s.setA (s.a ^^^ p.get B s)
  | adcImm v, s => s.setAC (C64X25519.adc s.a v s.c)
  | sbcImm v, s => s.setAC (C64X25519.sbc s.a v s.c)
  | andImm v, s => s.setA (s.a &&& v)
  | oraImm v, s => s.setA (s.a ||| v)
  | eorImm v, s => s.setA (s.a ^^^ v)
  | adcPatched x, s => s.setAC (C64X25519.adc s.a (s.m.opLo x) s.c)
  | sbcPatched x, s => s.setAC (C64X25519.sbc s.a (s.m.opLo x) s.c)
  | cmpImm v, s => s.compare s.a v
  | cpxImm v, s => s.compare s.x v
  | cpx p, s => s.compare s.x (p.get B s)
  | aslA, s => s.setAC (C64X25519.asl s.a)
  | lsrA, s => s.setAC (C64X25519.lsr s.a)
  | rolA, s => s.setAC (C64X25519.rol s.a s.c)
  | rorA, s => s.setAC (C64X25519.ror s.a s.c)
  | asl p, s =>
      let r := C64X25519.asl (p.get B s)
      { modify B p r.1 s with c := r.2 }
  | rol p, s =>
      let r := C64X25519.rol (p.get B s) s.c
      { modify B p r.1 s with c := r.2 }
  | lsr p, s =>
      let r := C64X25519.lsr (p.get B s)
      { modify B p r.1 s with c := r.2 }
  | ror p, s =>
      let r := C64X25519.ror (p.get B s) s.c
      { modify B p r.1 s with c := r.2 }
  | inc p, s => modify B p (p.get B s + 1) s
  | dec p, s => modify B p (p.get B s - 1) s
  | inx, s => s.setX (s.x + 1)
  | iny, s => s.setY (s.y + 1)
  | dex, s => s.setX (s.x - 1)
  | dey, s => s.setY (s.y - 1)
  | tax, s => s.setX s.a
  | txa, s => s.setA s.x
  | tay, s => s.setY s.a
  | tya, s => s.setA s.y
  | clc, s => { s with c := false }
  | sec, s => { s with c := true }
  | sei, s => { s with m := s.m.setFlagI true }
  | pha, s => s.push (.byte s.a)
  | php, s => s.push (.status s.nz s.c s.m.flagI)
  | pla, s => match s.stack with
    | .byte v :: l => { s.setA v with stack := l }
    | _ => s
  | plp, s => match s.stack with
    | .status nz c i :: l => { s with nz := nz, c := c, stack := l, m := s.m.setFlagI i }
    | _ => s
  | staLo x, s => { s with m := s.m.patchLo [x] s.a }
  | staHi x, s => { s with m := s.m.patchHi [x] s.a }
  | staReg x, s => { s with m := s.m.writeReg x s.a }
  | ldaReg x, s =>
      let p := s.m.readReg x
      { s.setA p.1 with m := p.2 }
  | staCommand, s => { s with m := s.m.reuCommand s.a }
  | ldaStatus, s =>
      let p := s.m.readStatus
      { s.setA p.1 with m := p.2 }
  | staTramp i, s => { s with m := s.m.setTramp i }

/-- The cycles of an instruction, with those of the transfer a command starts. -/
def cycles : Op → Core → ℕ
  | lda p, s | ldx p, s | ldy p, s | adc p, s | sbc p, s | and p, s | ora p, s | eor p, s
  | cpx p, s => p.readCycles B s
  | sta p, _ | stx p, _ => p.writeCycles
  | asl p, _ | rol p, _ | lsr p, _ | ror p, _ | inc p, _ | dec p, _ => p.modifyCycles
  | pha, _ | php, _ => 3
  | pla, _ | plp, _ => 4
  | staLo _, _ | staHi _, _ | staReg _, _ | ldaReg _, _ | ldaStatus, _ => 4
  | staCommand, s => 4 + if s.m.reu.live then L.dma s.m.reu.len else 0
  | staTramp _, _ => 12
  | _, _ => 2

end Op

namespace Branch

/-- Whether a branch is taken. -/
def test : Branch → Core → Bool
  | bne _, s => s.nz != 0
  | beq _, s => s.nz == 0
  | bcc _, s => !s.c
  | bcs _, s => s.c
  | bpl _, s => !s.nz.getLsbD 7
  | viaTramp, s => decide (s.m.tramp = .sqrInner)

/-- The cycles of a branch that is taken; a patched jump has its own. -/
def taken (L : Link) : Branch → ℕ
  | bne l | beq l | bcc l | bcs l | bpl l => 3 + (L.crosses l).toNat
  | viaTramp => 0

end Branch

/-- The processor of a build. No loop of the library is longer than
`fuel`. -/
def cpu (B : Build) (L : Link) : Isa Op Branch Core where
  ready := Op.ready
  act := Op.act B
  cycles := Op.cycles B L
  test := Branch.test
  taken := Branch.taken L
  through _ := 2
  jmp := 3
  enter := Core.push .ret
  leave s := match s.stack with
    | .ret :: l => some { s with stack := l }
    | _ => none
  call := 12
  fuel := 0x200

end C64X25519
