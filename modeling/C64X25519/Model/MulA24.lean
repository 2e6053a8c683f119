import C64X25519.Model.Mul
/-!
# Multiplication by the curve constant

`fe25519_mul_a24`: 32 rows of a four-byte table each, three folds of the
overflow bytes with a carry bridged between them, a ripple to byte 31, and
the fold of what leaves it.
-/

namespace C64X25519

open Machine

variable (B : Build)

/-- `a24_b0`: the low byte of `121665 * y`. -/
def a24B0 (y : Byte) : Byte := BitVec.ofNat 8 (121665 * y.toNat)

/-- `a24_b1`: the second. -/
def a24B1 (y : Byte) : Byte := BitVec.ofNat 8 (121665 * y.toNat / 0x100)

/-- `a24_b2`: the third. -/
def a24B2 (y : Byte) : Byte := BitVec.ofNat 8 (121665 * y.toNat / 0x10000)

/-- `a24_b3`: the fourth. -/
def a24B3 (y : Byte) : Byte := BitVec.ofNat 8 (121665 * y.toNat / 0x1000000)

/-- `LDA fe_wide+k` / `ADC m` / `STA fe_wide+k`. -/
def adcWide (k : ℕ) (m : Byte) (t : Bool × Machine) : Bool × Machine :=
  let r := adc (t.2.zp (B.wideAt k)) m t.1
  (r.2, t.2.setZp (B.wideAt k) r.1)

/-- One turn of `@outer`: the product of `src1[i]` into bytes `i` to
`i + 3`, and two absorptions of its carry. -/
def a24Outer (s : Machine) : Machine × Bool :=
  let i := (s.zp (B.slot .feMulI)).toNat
  let y := s.ram (s.ptr B .fe25519Src1 + i)
  let t := adcWide B i (a24B0 y) (false, s)
  let t := adcWide B (i + 1) (a24B1 y) t
  let t := adcWide B (i + 2) (a24B2 y) t
  let t := adcWide B (i + 3) (a24B3 y) t
  let t := adcWide B (i + 4) 0 t
  let t := adcWide B (i + 5) 0 t
  -- the index is stored at the head of the next turn
  if i + 1 < 32 then (t.2.setZp (B.slot .feMulI) (BitVec.ofNat 8 (i + 1)), true)
  else (t.2, false)

/-- A stage of the fold: `38` times the byte at `32 + k` into bytes `k` and
`k + 1`, its carry added to `fe_carry`. -/
def a24Stage (k : ℕ) (s : Machine) : Machine :=
  let y := s.zp (B.wideAt (32 + k))
  let s := s.setVar .polyProdLo (mul38LoTab y)
  let s := s.setVar .polyProdHi (mul38HiTab y)
  let t := adcWide B k (s.var .polyProdLo) (false, s)
  let t := adcWide B (k + 1) (s.var .polyProdHi) t
  t.2.setZp (B.slot .feCarry) (adc (t.2.zp (B.slot .feCarry)) 0 t.1).1

/-- A bridge: `fe_carry` into byte `k`, and the carry of that back. -/
def a24Bridge (k : ℕ) (s : Machine) : Machine :=
  let t := adcWide B k (s.zp (B.slot .feCarry)) (false, s)
  t.2.setZp (B.slot .feCarry) (adc 0 0 t.1).1

/-- `fe25519_mul_a24` up to the fold. -/
def fe25519MulA24Wide (s : Machine) : Machine :=
  let s := entryStores B s
  let s := loopDown (fun x s => s.setZp (B.wideAt x) 0) 37 s
  let s := s.setZp (B.slot .feMulI) 0
  doWhile (a24Outer B) 0x100 s

/-- The fold of bytes 32 to 34, and of the carry out of byte 31. -/
def a24Fold (s : Machine) : Machine :=
  let s := s.setZp (B.slot .feCarry) 0
  let s := a24Bridge B 2 (a24Stage B 0 s)
  let s := a24Bridge B 3 (a24Stage B 1 s)
  let s := a24Stage B 2 s
  let t := adcWide B 4 (s.zp (B.slot .feCarry)) (false, s)
  let t := cascade B 5 27 t.1 t.2
  let y := (adc 0 0 t.1).1
  let r := adc (mul38LoTab y) (t.2.zp (B.wideAt 0)) false
  let s := t.2.setZp (B.wideAt 0) r.1
  (cascade B 1 31 r.2 s).2

/-- `fe25519_mul_a24`. -/
def fe25519MulA24 (s : Machine) : Machine :=
  fe25519ReduceFinal B (copyResult B (a24Fold B (fe25519MulA24Wide B s)))

end C64X25519
