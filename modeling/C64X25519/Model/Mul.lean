import C64X25519.Model.Field
/-!
# Multiplication and the wide reduction

`fe25519_mul`: 32 rows, each fetched from the expansion unit or generated
on chip, accumulated into `fe_wide` by four copies of one body that pass a
pending carry along; then `fe_reduce_wide` folds the 64 bytes modulo `p`.
-/

namespace C64X25519

open Machine

variable (B : Build)

/-! ## Tables of `data.s` -/

/-- `mul38_lo_tab`: the low byte of `38 * y`. -/
def mul38LoTab (y : Byte) : Byte := BitVec.ofNat 8 (y.toNat * 38)

/-- `mul38_hi_tab`: its high byte. -/
def mul38HiTab (y : Byte) : Byte := BitVec.ofNat 8 (y.toNat * 38 / 0x100)

/-! ## Carry ripples over `fe_wide` -/

/-- `LDA fe_wide,x` / `ADC #0` / `STA fe_wide,x` / `INX` / `DEY` / `BNE`:
`n` bytes from `x` on, with the carry the caller leaves. -/
def cascade (x n : ℕ) (c : Bool) (s : Machine) : Bool × Machine :=
  loopUp (fun k (t : Bool × Machine) =>
    let r := adc (t.2.zp (B.wideAt (x + k))) 0 t.1
    (r.2, t.2.setZp (B.wideAt (x + k)) r.1)) n (c, s)

/-- `ADC fe_wide,x` / `STA fe_wide,x` / `LDA #0` / `INX` / `DEY` / `BNE`:
the accumulator into the byte at `x`, and its carry onward. -/
def ripple (x n : ℕ) (a : Byte) (s : Machine) : Machine :=
  (loopUp (fun k (t : Byte × Bool × Machine) =>
    let r := adc t.1 (t.2.2.zp (B.wideAt (x + k))) t.2.1
    (0, r.2, t.2.2.setZp (B.wideAt (x + k)) r.1)) n (a, false, s)).2.2

/-! ## `fe_reduce_wide` -/

/-- One turn of `@reduce1`: `38` times the byte at `32 + x`, and the running
carry, into the byte at `x`. -/
def reduce1 (x : ℕ) (s : Machine) : Machine :=
  let y := s.zp (B.wideAt (32 + x))
  let r := adc (mul38LoTab y) (s.zp (B.slot .feCarry)) false
  let s := s.setZp (B.slot .feCarry) r.1
  let h := adc (mul38HiTab y) 0 r.2
  let s := s.setZp (B.slot .feMulJ) h.1
  let w := adc (s.zp (B.wideAt x)) (s.zp (B.slot .feCarry)) false
  let s := s.setZp (B.wideAt x) w.1
  let d := adc (s.zp (B.slot .feMulJ)) 0 w.2
  s.setZp (B.slot .feCarry) d.1

/-- `fe_reduce_wide`. -/
def feReduceWide (s : Machine) : Machine :=
  let s := s.setZp (B.slot .feCarry) 0
  let s := loopUp (reduce1 B) 32 s
  -- section B: the carry out of byte 31, folded at bytes 0 and 1
  let y := s.zp (B.slot .feCarry)
  let r := adc (s.zp (B.wideAt 0)) (mul38LoTab y) false
  let s := s.setZp (B.wideAt 0) r.1
  let q := adc (s.zp (B.wideAt 1)) (mul38HiTab y) r.2
  let s := s.setZp (B.wideAt 1) q.1
  let t := cascade B 2 30 q.2 s
  -- section C: the residual carry of that cascade, folded at byte 0
  let y := (adc 0 0 t.1).1
  let r := adc (t.2.zp (B.wideAt 0)) (mul38LoTab y) false
  let s := t.2.setZp (B.wideAt 0) r.1
  (cascade B 1 31 r.2 s).2

/-- `LDA fe_wide,y` / `STA (fe25519_dst),y`, from byte 31 down. -/
def copyResult (s : Machine) : Machine :=
  loopDown (fun y s => s.setRam (s.ptr B .fe25519Dst + y) (s.zp (B.wideAt y))) 32 s

/-! ## `fe25519_mul` -/

/-- The defensive register writes at the entry of the field multiplies. -/
def entryStores (s : Machine) : Machine :=
  if B.onchip then s else (s.writeReg .reuLo 0).writeReg .addrCtrl 0

/-- The inlined row fetch, entered with `src1[i]` in A. -/
def mulRowDma (a : Byte) (s : Machine) : Machine :=
  let r := asl a
  let s := s.writeReg .reuHi r.1
  let bank := adc (BitVec.ofNat 8 B.reuBank) 0 r.2
  let s := s.writeReg .reuBank bank.1
  let s := s.reuCommand 0b10110001
  reuSettle B s

/-- One entry of the on-chip row generator, at the byte of `src2` at `x`. -/
def mulGenEntry (x : ℕ) (s : Machine) : Machine :=
  let s := s.setZp (B.slot .feMulJ) (BitVec.ofNat 8 x)
  let s := ctMul8x8 B (s.ram (s.op .genSrc2A + x)) s
  let x := (s.zp (B.slot .feMulJ)).toNat
  let y := s.ram (s.op .genSrc2B + x)
  let s := s.setRam (B.mem.mulDmaLo + y.toNat) (s.var .polyProdLo)
  s.setRam (B.mem.mulDmaHi + y.toNat) (s.var .polyProdHi)

/-- The on-chip row generator, entered with `src1[i]` in A. -/
def mulRowGen (a : Byte) (s : Machine) : Machine :=
  loopDown (mulGenEntry B) 32 (s.patchLo [.smcSumAImm, .smcDiffAImm] a)

/-- What `@mul_inner` threads: the cursor X, the carry, the machine. -/
structure Inner where
  x : ℕ
  c : Bool
  s : Machine

/-- The accumulation of one product, and the carry it combines with the
pending one. -/
def mulAccum (u : Body) (t : Inner) : Byte × Machine :=
  let s := t.s
  let y := s.ram (s.op (.ldySrc2 u) + t.x)
  let r := adc (s.zp (s.zpx (.accumLd1 u) t.x)) (s.ram (B.mem.mulDmaLo + y.toNat)) t.c
  let s := s.setZp (s.zpx (.accumSt1 u) t.x) r.1
  let q := adc (s.zp (s.zpx (.accumLd2 u) t.x)) (s.ram (B.mem.mulDmaHi + y.toNat)) r.2
  let s := s.setZp (s.zpx (.accumSt2 u) t.x) q.1
  let a := adc 0 0 q.2
  ((adc a.1 (s.zp (B.slot .mulPending)) false).1, s)

/-- The chain step at cursor `x`, entered with a clear carry. -/
def mulChain (u : Body) (a : Byte) (x : ℕ) (s : Machine) : Inner :=
  let r := adc a (s.zp (s.zpx (.chainLd u) x)) false
  let s := s.setZp (s.zpx (.chainSt u) x) r.1
  let p := adc 0 0 r.2
  ⟨x, p.2, s.setZp (B.slot .mulPending) p.1⟩

/-- Bodies A, B and C of the unrolled loop. -/
def mulBody (u : Body) (t : Inner) : Inner :=
  let p := mulAccum B u t
  mulChain B u p.1 (t.x + 1) p.2

/-- Body D: its chain step is guarded by `mul_bound`, and dropped past
it. -/
def mulBodyD (t : Inner) : Inner :=
  let p := mulAccum B .d t
  if (p.2.zp (B.slot .mulBound)).toNat ≤ t.x + 1 then
    ⟨t.x + 1, true, p.2.setZp (B.slot .mulPending) 0⟩
  else mulChain B .d p.1 (t.x + 1) p.2

/-- One pass of `@mul_inner`, and whether the cursor asks for another. -/
def mulInner (t : Inner) : Inner × Bool :=
  let t := mulBodyD B (mulBody B .c (mulBody B .b (mulBody B .a t)))
  let done := decide (32 ≤ t.x)
  (⟨t.x, done, t.s⟩, !done)

/-- The end-of-inner ripple of the residual pending carry. -/
def mulRipple (t : Inner) : Machine :=
  let a := adc (BitVec.ofNat 8 t.x) (t.s.zp (B.slot .feMulI)) false
  let start := adc a.1 1 false
  let s := t.s.setZp (B.slot .mulRippleStart) start.1
  let n := sbc 64 (s.zp (B.slot .mulRippleStart)) true
  if n.2 = false ∨ n.1 = 0 then s
  else ripple B start.1.toNat n.1.toNat (s.zp (B.slot .mulPending)) s

/-- The patches of a row: `fe_wide + i` and `fe_wide + i + 1`, each into
all four copies; the carry is that of the second sum. -/
def mulPatch (s : Machine) : Bool × Machine :=
  let a := adc (BitVec.ofNat 8 (B.slot .feWide)) (s.zp (B.slot .feMulI)) false
  let s := s.patchLo [.accumLd1 .a, .accumSt1 .a, .accumLd1 .b, .accumSt1 .b,
    .accumLd1 .c, .accumSt1 .c, .accumLd1 .d, .accumSt1 .d] a.1
  let b := adc a.1 1 false
  (b.2, s.patchLo [.accumLd2 .a, .accumSt2 .a, .accumLd2 .b, .accumSt2 .b,
    .accumLd2 .c, .accumSt2 .c, .accumLd2 .d, .accumSt2 .d,
    .chainLd .a, .chainSt .a, .chainLd .b, .chainSt .b,
    .chainLd .c, .chainSt .c, .chainLd .d, .chainSt .d] b.1)

/-- The head of a row: the pending carry reset, the bound, and the row of
`src1[i]` in the staging pages. -/
def mulRow (s : Machine) : Machine :=
  let s := s.setZp (B.slot .mulPending) 0
  let s := s.setZp (B.slot .mulBound) (sbc 63 (s.zp (B.slot .feMulI)) true).1
  let a := s.ram (s.op .loadSrc1 + (s.zp (B.slot .feMulI)).toNat)
  if B.onchip then mulRowGen B a s else mulRowDma B a s

/-- One turn of `@mul_outer`, and whether there is another row. -/
def mulOuter (s : Machine) : Machine × Bool :=
  let p := mulPatch B (mulRow B s)
  let t := doWhile (mulInner B) 0x100 ⟨0, p.1, p.2⟩
  let s := mulRipple B t
  let s := s.setZp (B.slot .feMulI) (s.zp (B.slot .feMulI) + 1)
  (s, !cmp (s.zp (B.slot .feMulI)) 32)

/-- `fe25519_mul` up to its call of `fe_reduce_wide`. -/
def fe25519MulWide (s : Machine) : Machine :=
  let s := entryStores B s
  let s := reuClearWide B s
  let s := s.patchPtr B [.ldySrc2 .a, .ldySrc2 .b, .ldySrc2 .c, .ldySrc2 .d] .fe25519Src2
  let s := if B.onchip then s.patchPtr B [.genSrc2A, .genSrc2B] .fe25519Src2 else s
  let s := s.patchPtr B [.loadSrc1] .fe25519Src1
  let s := s.setZp (B.slot .feMulI) 0
  doWhile (mulOuter B) 0x100 s

/-- `fe25519_mul`. -/
def fe25519Mul (s : Machine) : Machine := copyResult B (feReduceWide B (fe25519MulWide B s))

end C64X25519
