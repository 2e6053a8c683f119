import C64X25519.Model.Rows
/-!
# Field arithmetic — copy, add, subtract, reduce, swap

The routines of `fe25519.s` that work byte by byte on the buffers, through
operands patched at entry from the zero-page pointers.
-/

namespace C64X25519

open Machine

variable (B : Build)

/-- `fe25519_copy`. -/
def fe25519Copy (s : Machine) : Machine :=
  loopDown (fun y s => s.setRam (s.ptr B .fe25519Dst + y) (s.ram (s.ptr B .fe25519Src1 + y))) 32 s

/-- `fe25519_zero`. -/
def fe25519Zero (s : Machine) : Machine :=
  loopDown (fun y s => s.setRam (s.ptr B .fe25519Dst + y) 0) 32 s

/-- `fe25519_one`. -/
def fe25519One (s : Machine) : Machine :=
  let s := fe25519Zero B s
  s.setRam (s.ptr B .fe25519Dst + 0) 1

/-- `p`, as `data.s` assembles it. -/
def feP (y : ℕ) : Byte := if y = 0 then 0xed else if y = 31 then 0x7f else 0xff

/-- `LDA fe_p,y` / `AND fe_cmp_mask` / `STA fe_subp_rhs`. -/
def maskP (y : ℕ) (s : Machine) : Machine :=
  s.setZp (B.slot .feSubpRhs) (feP y &&& s.zp (B.slot .feCmpMask))

/-- A masked subtraction of `p`, in place: `LDA dst,y` / `SBC fe_subp_rhs`
/ `STA dst,y`, from a set carry. -/
def maskedSubP (ld st : Site) (s : Machine) : Machine :=
  (loopUp (fun y (t : Machine × Bool) =>
    let s := maskP B y t.1
    let r := sbc (s.ram (s.op ld + y)) (s.zp (B.slot .feSubpRhs)) t.2
    (s.setRam (s.op st + y) r.1, r.2)) 32 (s, true)).1

/-- A masked addition of `p`, from a clear carry. -/
def maskedAddP (ld st : Site) (s : Machine) : Machine :=
  (loopUp (fun y (t : Machine × Bool) =>
    let s := maskP B y t.1
    let r := adc (s.ram (s.op ld + y)) (s.zp (B.slot .feSubpRhs)) t.2
    (s.setRam (s.op st + y) r.1, r.2)) 32 (s, false)).1

/-- `fe_cmp_p_ct`: the mask of `(dst) >= p`, in A and in `fe_cmp_mask`. -/
def feCmpPCt (s : Machine) : Byte × Machine :=
  let s := s.patchPtr B [.cmpLdDst] .fe25519Dst
  let c := loopUp (fun y c => (sbc (s.ram (s.op .cmpLdDst + y)) (feP y) c).2) 32 true
  let a := (sbc 0 0 c).1 ^^^ 0xff
  (a, s.setZp (B.slot .feCmpMask) a)

/-- `fe25519_add`. -/
def fe25519Add (s : Machine) : Machine :=
  let s := s.patchPtr B [.addLdSrc1] .fe25519Src1
  let s := s.patchPtr B [.addLdSrc2] .fe25519Src2
  let s := s.patchPtr B [.addStDst, .addSubLdDst, .addSubStDst] .fe25519Dst
  let t := loopUp (fun y (t : Machine × Bool) =>
    let r := adc (t.1.ram (t.1.op .addLdSrc1 + y)) (t.1.ram (t.1.op .addLdSrc2 + y)) t.2
    (t.1.setRam (t.1.op .addStDst + y) r.1, r.2)) 32 (s, false)
  -- the carry out of the addition, as a mask
  let s := t.1.setZp (B.slot .feAddCarryMask) ((sbc 0 0 t.2).1 ^^^ 0xff)
  let q := feCmpPCt B s
  let s := q.2.setZp (B.slot .feCmpMask) (q.1 ||| q.2.zp (B.slot .feAddCarryMask))
  maskedSubP B .addSubLdDst .addSubStDst s

/-- `fe25519_sub`. -/
def fe25519Sub (s : Machine) : Machine :=
  let s := s.patchPtr B [.subLdSrc1] .fe25519Src1
  let s := s.patchPtr B [.subLdSrc2] .fe25519Src2
  let s := s.patchPtr B [.subStDst, .subAddLdDst, .subAddStDst] .fe25519Dst
  let t := loopUp (fun y (t : Machine × Bool) =>
    let r := sbc (t.1.ram (t.1.op .subLdSrc1 + y)) (t.1.ram (t.1.op .subLdSrc2 + y)) t.2
    (t.1.setRam (t.1.op .subStDst + y) r.1, r.2)) 32 (s, true)
  -- the final borrow is the mask
  let s := t.1.setZp (B.slot .feCmpMask) (sbc 0 0 t.2).1
  maskedAddP B .subAddLdDst .subAddStDst s

/-- `fe25519_reduce_final`: compare with `p` and subtract it under the
mask, twice. -/
def fe25519ReduceFinal (s : Machine) : Machine :=
  let s := s.patchPtr B [.subLdDst1, .subStDst1, .subLdDst2, .subStDst2] .fe25519Dst
  let s := (feCmpPCt B s).2
  let s := maskedSubP B .subLdDst1 .subStDst1 s
  let s := (feCmpPCt B s).2
  maskedSubP B .subLdDst2 .subStDst2 s

/-- The swap of one byte, in the `u`-th copy of the body. -/
def cswapByte (u : Body) (y : ℕ) (s : Machine) : Machine :=
  let x := s.ram (s.op (.ldA u) + y)
  let s := s.setZp (B.slot .feLoop)
    ((x ^^^ s.ram (s.op (.eorB u) + y)) &&& s.zp (B.slot .feCarry))
  let s := s.setRam (s.op (.stA u) + y) (x ^^^ s.zp (B.slot .feLoop))
  s.setRam (s.op (.stB u) + y) (s.ram (s.op (.ldB u) + y) ^^^ s.zp (B.slot .feLoop))

/-- `fe25519_cswap`, entered with the mask in A. -/
def fe25519Cswap (mask : Byte) (s : Machine) : Machine :=
  let s := s.setZp (B.slot .feCarry) mask
  let s := s.patchPtr B [.ldA .a, .stA .a, .ldA .b, .stA .b, .ldA .c, .stA .c, .ldA .d, .stA .d]
    .fe25519Src1
  let s := s.patchPtr B [.eorB .a, .ldB .a, .stB .a, .eorB .b, .ldB .b, .stB .b,
    .eorB .c, .ldB .c, .stB .c, .eorB .d, .ldB .d, .stB .d] .fe25519Src2
  loopDown (fun k s =>
    let s := cswapByte B .a (4 * k + 3) s
    let s := cswapByte B .b (4 * k + 2) s
    let s := cswapByte B .c (4 * k + 1) s
    cswapByte B .d (4 * k) s) 8 s

end C64X25519
