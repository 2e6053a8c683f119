import C64X25519.Model.Mul
/-!
# Squaring

`fe25519_sqr`: the cross terms doubled before they are accumulated, in
pairs of bodies that run one of two engines — rows below `SQR_DMA_K` from
the doubled tables of the expansion unit, the others from the
quarter-square table — and then the squares on the diagonal.
-/

namespace C64X25519

open Machine

variable (B : Build)

/-- `sqr_lo`: the low byte of `y * y`. -/
def sqrLo (y : Byte) : Byte := BitVec.ofNat 8 (y.toNat * y.toNat)

/-- `sqr_hi`: its high byte. -/
def sqrHi (y : Byte) : Byte := BitVec.ofNat 8 (y.toNat * y.toNat / 0x100)

/-! ## The quarter-square engine -/

/-- The quarter-square product of `mul_cached_a` and the byte at `x`, into
`poly_prod`. -/
def sqrProduct (u : Body) (x : ℕ) (s : Machine) : Machine :=
  let s := s.setVar .sqrTmpB (s.ram (B.mem.mulSrc2Buf + x))
  -- |a[i] - a[j]| by sign mask
  let diff := sbc (s.var .sqrTmpB) (s.var .mulCachedA) true
  let s := s.setVar .sqrMask (sbc 0 0 diff.2).1
  let abs := sbc (diff.1 ^^^ s.var .sqrMask) (s.var .sqrMask) true
  -- the sum, its carry selecting the page of the two abs,X loads
  let sum := adc (s.var .mulCachedA) (s.var .sqrTmpB) false
  let pl := adc (BitVec.ofNat 8 (B.mem.sqtabLo / 0x100)) 0 sum.2
  let s := s.patchHi [.ctSumLoadLo u] pl.1
  let ph := adc pl.1 2 false
  let s := s.patchHi [.ctSumLoadHi u] ph.1
  -- sqtab[sum] - sqtab[|diff|]
  let lo := sbc (s.ram (pageOp s (.ctSumLoadLo u) B.mem.sqtabLo + sum.1.toNat))
    (s.ram (B.mem.sqtabLo + abs.1.toNat)) true
  let s := s.setVar .polyProdLo lo.1
  let hi := sbc (s.ram (pageOp s (.ctSumLoadHi u) B.mem.sqtabHi + sum.1.toNat))
    (s.ram (B.mem.sqtabHi + abs.1.toNat)) lo.2
  s.setVar .polyProdHi hi.1

/-- `ASL poly_prod_lo` / `ROL poly_prod_hi`, the 17th bit in `mul_carry`. -/
def sqrDouble (s : Machine) : Machine :=
  let lo := asl (s.var .polyProdLo)
  let s := s.setVar .polyProdLo lo.1
  let hi := rol (s.var .polyProdHi) lo.2
  let s := s.setVar .polyProdHi hi.1
  s.setZp (B.slot .mulCarry) (adc 0 0 hi.2).1

/-- The accumulation of the doubled product, and the carry it combines
with the 17th bit and the pending one. -/
def sqrAccum (u : Body) (x : ℕ) (s : Machine) : Byte × Machine :=
  let r := adc (s.zp (s.zpx (.sqrAccumLd1 u) x)) (s.var .polyProdLo) false
  let s := s.setZp (s.zpx (.sqrAccumSt1 u) x) r.1
  let q := adc (s.zp (s.zpx (.sqrAccumLd2 u) x)) (s.var .polyProdHi) r.2
  let s := s.setZp (s.zpx (.sqrAccumSt2 u) x) q.1
  let a := adc 0 (s.zp (B.slot .mulCarry)) q.2
  ((adc a.1 (s.var .sqrPending) false).1, s)

/-- The chain step through the operands `ld` and `st`, entered with a
clear carry. -/
def sqrChain (ld st : Site) (a : Byte) (x : ℕ) (s : Machine) : Machine :=
  let r := adc a (s.zp (s.zpx ld x)) false
  let s := s.setZp (s.zpx st x) r.1
  s.setVar .sqrPending (adc 0 0 r.2).1

/-- `INC fe_mul_j`. -/
def incMulJ (s : Machine) : Machine :=
  s.setZp (B.slot .feMulJ) (s.zp (B.slot .feMulJ) + 1)

/-- Body A. -/
def sqrBodyA (s : Machine) : Machine :=
  let s := sqrDouble B (sqrProduct B .a (s.zp (B.slot .feMulJ)).toNat s)
  let x := (s.zp (B.slot .feMulJ)).toNat
  let p := sqrAccum B .a x s
  incMulJ B (sqrChain (.sqrChainLd .a) (.sqrChainSt .a) p.1 (x + 1) p.2)

/-- Body B, with its chain step guarded by `sqr_bound`; it leaves the
cursor in X. -/
def sqrBodyB (s : Machine) : ℕ × Machine :=
  let s := sqrDouble B (sqrProduct B .b (s.zp (B.slot .feMulJ)).toNat s)
  let x := (s.zp (B.slot .feMulJ)).toNat
  let p := sqrAccum B .b x s
  let s := if (p.2.var .sqrBound).toNat ≤ x + 1 then p.2.setVar .sqrPending 0
    else sqrChain (.sqrChainLd .b) (.sqrChainSt .b) p.1 (x + 1) p.2
  (x + 1, incMulJ B s)

/-! ## The DMA engine -/

/-- A body over the doubled row: the product at the staged entry of
`src2_buf[x]`, and the chain step one place on, without a guard. -/
def sqrDmaBody (u : Body) (x : ℕ) (s : Machine) : Machine :=
  let y := s.ram (B.mem.mulSrc2Buf + x)
  let s := s.setZp (B.slot .mulCarry) (s.ram (B.mem.mulDmaCarry + y.toNat))
  let r := adc (s.zp (s.zpx (.sqrDmaLd1 u) x)) (s.ram (B.mem.mulDmaLo + y.toNat)) false
  let s := s.setZp (s.zpx (.sqrDmaSt1 u) x) r.1
  let q := adc (s.zp (s.zpx (.sqrDmaLd2 u) x)) (s.ram (B.mem.mulDmaHi + y.toNat)) r.2
  let s := s.setZp (s.zpx (.sqrDmaSt2 u) x) q.1
  let a := adc 0 (s.zp (B.slot .mulCarry)) q.2
  let a := adc a.1 (s.var .sqrPending) false
  sqrChain (.sqrDmaChainLd u) (.sqrDmaChainSt u) a.1 (x + 1) s

/-- One turn of `@sqr_dma_body_a`, with X threaded through both bodies. -/
def sqrDmaPair (t : ℕ × Machine) : (ℕ × Machine) × Bool :=
  let s := sqrDmaBody B .a t.1 t.2
  let s := sqrDmaBody B .b (t.1 + 1) s
  let s := s.setZp (B.slot .feSqrPairs) (s.zp (B.slot .feSqrPairs) - 1)
  ((t.1 + 2, s), s.zp (B.slot .feSqrPairs) != 0)

/-! ## The rows -/

/-- One entry of `@sqr_inner_tramp`: a pair of quarter-square bodies, after
which the trampoline is taken again, or the whole DMA loop. -/
def sqrInner (t : ℕ × Machine) : (ℕ × Machine) × Bool :=
  match t.2.tramp with
  | .sqrInner =>
      let t := sqrBodyB B (sqrBodyA B t.2)
      let s := t.2.setZp (B.slot .feSqrPairs) (t.2.zp (B.slot .feSqrPairs) - 1)
      ((t.1, s), s.zp (B.slot .feSqrPairs) != 0)
  | .sqrInnerDma =>
      (doWhile (sqrDmaPair B) 0x100 ((t.2.zp (B.slot .feMulJ)).toNat, t.2), false)

/-- The end-of-inner ripple, the same at the end of either engine. -/
def sqrRipple (t : ℕ × Machine) : Machine :=
  let a := adc (BitVec.ofNat 8 t.1) (t.2.zp (B.slot .feMulI)) false
  let start := adc a.1 1 false
  let s := t.2.setVar .sqrRippleStart start.1
  let n := sbc 64 (s.var .sqrRippleStart) true
  if n.2 = false ∨ n.1 = 0 then s
  else ripple B start.1.toNat n.1.toNat (s.var .sqrPending) s

/-- The choice of the engine of a row, with the patches of the DMA one. -/
def sqrSelect (s : Machine) : Machine :=
  if B.sqrDmaK ≠ 0 ∧ !cmp (s.zp (B.slot .feMulI)) (BitVec.ofNat 8 B.sqrDmaK) then
    let s := reuFetchDoubledRow B s
    let s := s.setTramp .sqrInnerDma
    let a := adc (BitVec.ofNat 8 (B.slot .feWide)) (s.zp (B.slot .feMulI)) false
    let s := s.patchLo [.sqrDmaLd1 .a, .sqrDmaSt1 .a, .sqrDmaLd1 .b, .sqrDmaSt1 .b] a.1
    let b := adc a.1 1 false
    s.patchLo [.sqrDmaLd2 .a, .sqrDmaSt2 .a, .sqrDmaLd2 .b, .sqrDmaSt2 .b] b.1
  else s.setTramp .sqrInner

/-- The patches both engines share. -/
def sqrPatch (s : Machine) : Machine :=
  let a := adc (BitVec.ofNat 8 (B.slot .feWide)) (s.zp (B.slot .feMulI)) false
  let s := s.patchLo [.sqrAccumLd1 .a, .sqrAccumSt1 .a, .sqrAccumLd1 .b, .sqrAccumSt1 .b] a.1
  let b := adc a.1 1 false
  s.patchLo [.sqrAccumLd2 .a, .sqrAccumSt2 .a, .sqrAccumLd2 .b, .sqrAccumSt2 .b,
    .sqrChainLd .a, .sqrChainSt .a, .sqrChainLd .b, .sqrChainSt .b,
    .sqrDmaChainLd .a, .sqrDmaChainSt .a, .sqrDmaChainLd .b, .sqrDmaChainSt .b] b.1

/-- The head of a row: the pending carry reset, `a[i]` cached, the engine
chosen, and the cursor, pair count and bound set. -/
def sqrRow (s : Machine) : Machine :=
  let s := s.setVar .sqrPending 0
  let s := s.setVar .mulCachedA
    (s.ram (s.ptr B .fe25519Src1 + (s.zp (B.slot .feMulI)).toNat))
  let s := sqrPatch B (sqrSelect B s)
  let s := s.setZp (B.slot .feMulJ) (adc (s.zp (B.slot .feMulI)) 1 false).1
  let s := s.setZp (B.slot .feSqrPairs) (lsr (sbc 32 (s.zp (B.slot .feMulI)) true).1).1
  s.setVar .sqrBound (sbc 63 (s.zp (B.slot .feMulI)) true).1

/-- One turn of `@sqr_outer`, and whether there is another row. -/
def sqrOuter (s : Machine) : Machine × Bool :=
  let s := sqrRow B s
  let t := doWhile (sqrInner B) 0x100 (0, s)
  let s := sqrRipple B t
  let s := s.setZp (B.slot .feMulI) (s.zp (B.slot .feMulI) + 1)
  (s, !cmp (s.zp (B.slot .feMulI)) 31)

/-! ## The diagonal -/

/-- One turn of `@diag_outer`: the square of `a[i]` at byte `2 i`. -/
def diagOuter (s : Machine) : Machine × Bool :=
  let y := s.ram (s.ptr B .fe25519Src1 + (s.zp (B.slot .feMulI)).toNat)
  let s := s.setVar .polyProdLo (sqrLo y)
  let s := s.setVar .polyProdHi (sqrHi y)
  let x := (asl (s.zp (B.slot .feMulI))).1.toNat
  let r := adc (s.zp (B.wideAt x)) (s.var .polyProdLo) false
  let s := s.setZp (B.wideAt x) r.1
  let q := adc (s.zp (B.wideAt (x + 1))) (s.var .polyProdHi) r.2
  let s := s.setZp (B.wideAt (x + 1)) q.1
  let s := s.setVar .sqrPending (adc 0 0 q.2).1
  let s := s.setVar .sqrRippleStart (BitVec.ofNat 8 (x + 2))
  let n := sbc 64 (s.var .sqrRippleStart) true
  let s := if n.2 = false ∨ n.1 = 0 then s
    else ripple B (x + 2) n.1.toNat (s.var .sqrPending) s
  let s := s.setZp (B.slot .feMulI) (s.zp (B.slot .feMulI) + 1)
  (s, !cmp (s.zp (B.slot .feMulI)) 32)

/-- `fe25519_sqr` up to its call of `fe_reduce_wide`. -/
def fe25519SqrWide (s : Machine) : Machine :=
  let s := entryStores B s
  let s := reuClearWide B s
  let s := loopDown (fun y s =>
    s.setRam (B.mem.mulSrc2Buf + y) (s.ram (s.ptr B .fe25519Src1 + y))) 32 s
  let s := s.setZp (B.slot .feMulI) 0
  let s := doWhile (sqrOuter B) 0x100 s
  let s := s.setZp (B.slot .feMulI) 0
  doWhile (diagOuter B) 0x100 s

/-- `fe25519_sqr`. -/
def fe25519Sqr (s : Machine) : Machine := copyResult B (feReduceWide B (fe25519SqrWide B s))

end C64X25519
