import C64X25519.Properties.Field
import Mathlib.Algebra.BigOperators.Intervals
/-!
# Row by row

The row loops of `fe25519_mul` and `fe25519_sqr`, state by state: what the
accumulator and the pending carry hold after every body of every row, what
the chain steps add, and why the ripple behind a row has nothing to do.
-/

namespace C64X25519

open Machine

variable {B : Build} {s t : Machine} {a b : FieldBuf B.mem} {i k : ℕ}

/-! ## The partial products -/

/-- The products of the rows before `i` and of the first `k` bytes in row
`i`. -/
def mulPartial (f g : ℕ → Byte) (i k : ℕ) : ℕ :=
  ∑ r ∈ Finset.range i, ∑ j ∈ Finset.range 32, (f r).toNat * (g j).toNat * 256 ^ (r + j)
    + ∑ j ∈ Finset.range k, (f i).toNat * (g j).toNat * 256 ^ (i + j)

/-- The products of one byte with the first `k` bytes of a number. -/
theorem row_sum (g : ℕ → Byte) (A i k : ℕ) :
    ∑ j ∈ Finset.range k, A * (g j).toNat * 256 ^ (i + j) = 256 ^ i * (A * leNat g k) := by
  induction k with
  | zero => simp
  | succ k ih =>
    rw [Finset.sum_range_succ, ih, leNat_succ, pow_add]
    ring

/-- The products of the first `i` bytes. -/
theorem rows_sum (f g : ℕ → Byte) (i n : ℕ) :
    ∑ r ∈ Finset.range i, ∑ j ∈ Finset.range n, (f r).toNat * (g j).toNat * 256 ^ (r + j)
      = leNat f i * leNat g n := by
  induction i with
  | zero => simp
  | succ i ih =>
    rw [Finset.sum_range_succ, ih, row_sum, leNat_succ]
    ring

theorem mulPartial_eq (f g : ℕ → Byte) (i k : ℕ) :
    mulPartial f g i k = leNat f i * leNat g 32 + 256 ^ i * ((f i).toNat * leNat g k) := by
  rw [mulPartial, row_sum, rows_sum]

/-- The doubled products of the rows before `i`, each from the byte behind the
diagonal, and of the first `k` of them in row `i`. -/
def sqrPartial (g : ℕ → Byte) (i k : ℕ) : ℕ :=
  ∑ r ∈ Finset.range i, ∑ j ∈ Finset.Ico (r + 1) 32,
      2 * (g r).toNat * (g j).toNat * 256 ^ (r + j)
    + ∑ j ∈ Finset.Ico (i + 1) (i + 1 + k), 2 * (g i).toNat * (g j).toNat * 256 ^ (i + j)

theorem row_sum_from (g : ℕ → Byte) (A : ℕ) {l m : ℕ} (h : l ≤ m) :
    ∑ j ∈ Finset.Ico l m, A * (g j).toNat * 256 ^ (i + j) + 256 ^ i * (A * leNat g l)
      = 256 ^ i * (A * leNat g m) := by
  rw [← row_sum g A i l, ← row_sum g A i m, add_comm]
  exact Finset.sum_range_add_sum_Ico _ h

theorem sqrPartial_rows (g : ℕ → Byte) (hi : i ≤ 32) :
    sqrPartial g i 0 + leNat g i ^ 2 + diagonal g i = 2 * leNat g 32 * leNat g i := by
  rw [sqrPartial, add_zero, Finset.Ico_self, Finset.sum_empty, add_zero]
  induction i with
  | zero => simp [diagonal]
  | succ i ih =>
    have hid := row_identity (y := (g i).toNat) (q := 256 ^ i) (ih (by omega))
    have hrow := row_sum_from (i := i) g (2 * (g i).toNat) (show i + 1 ≤ 32 from hi)
    rw [Finset.sum_range_succ, diagonal_succ]
    rw [← leNat_succ] at hid
    omega

theorem sqrPartial_row (g : ℕ → Byte) (i k : ℕ) :
    sqrPartial g i k + 256 ^ i * (2 * (g i).toNat * leNat g (i + 1))
      = sqrPartial g i 0 + 256 ^ i * (2 * (g i).toNat * leNat g (i + 1 + k)) := by
  have hrow := row_sum_from (i := i) g (2 * (g i).toNat) (show i + 1 ≤ i + 1 + k by omega)
  rw [sqrPartial, sqrPartial, add_zero, Finset.Ico_self, Finset.sum_empty]
  omega

/-! ## The rows of a multiplication -/

/-- Row `i` of a multiplication after the bodies of `k` bytes. -/
def mulState (B : Build) (s : Machine) (i k : ℕ) : Inner :=
  mulBodies B (mulHead B (mulTurn B s i)) k

/-- The machine behind the ripple of row `i`. -/
def mulRowEnd (B : Build) (s : Machine) (i : ℕ) : Machine := mulRipple B (mulState B s i 32)

/-- The pending carry through row `i` of the product of the buffers `a` and
`b`. -/
structure MulRowChain (B : Build) (a b : FieldBuf B.mem) (s : Machine) (i : ℕ) : Prop where
  /-- With the pending bit at its weight the accumulator is the sum so far. -/
  sum : ∀ k, k ≤ 32 →
    (mulState B s i k).s.wide B 64 + pending B (mulState B s i k).s * 256 ^ (i + k + 2)
      = mulPartial (fun j => s.ram (a.addr + j)) (fun j => s.ram (b.addr + j)) i k
  /-- What a chain step is entered with. -/
  combined : ∀ k, k < 32 → (mulAccum B (bodyAt k) (mulState B s i k)).1.toNat ≤ 2
  /-- What the guard drops. -/
  dropped : ∀ k, k < 32 →
    ((mulAccum B (bodyAt k) (mulState B s i k)).2.zp (B.slot .mulBound)).toNat ≤ k + 1 →
      (mulAccum B (bodyAt k) (mulState B s i k)).1 = 0
  spent : pending B (mulState B s i 32).s = 0
  ripple : ∀ j, j < 64 →
    (mulRowEnd B s i).zp (B.wideAt j) = (mulState B s i 32).s.zp (B.wideAt j)
  next : mulTurn B s (i + 1)
    = (mulRowEnd B s i).setZp (B.slot .feMulI) ((mulRowEnd B s i).zp (B.slot .feMulI) + 1)

theorem mulRowChain (hr : MulReady B s) (h1 : s.ptr B .fe25519Src1 = a.addr)
    (h2 : s.ptr B .fe25519Src2 = b.addr) (hi : i < 32) : MulRowChain B a b s i := by
  have h := mulTurn_spec hr h1 h2 hi.le
  have hs := h.start hr hi
  have hstate : ∀ k, mulState B s i k
      = mulBodies B ⟨0, false, (mulHead B (mulTurn B s i)).s⟩ k := fun k => by
    rw [mulState, ← hs.head]
  set u := (mulHead B (mulTurn B s i)).s with hu
  have hbytes : ∀ k, leNat (fun j => u.ram (b.addr + j)) k ≤ u.fe b.addr ∨ 32 < k := fun k => by
    rcases Nat.lt_or_ge 32 k with hk | hk
    · exact .inr hk
    · exact .inl (leNat_mono hk)
  have hsame : ∀ j, j < 32 → u.ram (b.addr + j) = s.ram (b.addr + j) := fun j hj =>
    (h.frame.trans hs.frame).ram _ (B.mem.not_work (b.span_add hj))
  have hat := fun k (hk : k ≤ 32) => mulBodies_at hs.ready hs.pend hi hs.room hk
  refine ⟨fun k hk => ?_, fun k hk => ?_, fun k hk hle => ?_, ?_, fun j hj => ?_, ?_⟩
  · rw [hstate, mul_comm, (hat k hk).1.value, hs.wide, h.value, mulPartial_eq,
      leNat_congr fun j hj => hsame j (by omega)]
    rfl
  · rw [hstate]
    exact (mulAccum_at hs.ready (hat k hk.le).1 ((hat k hk.le).2 hk) hk hi).2.1
  · rw [hstate] at hle ⊢
    obtain ⟨hak, hck⟩ := hat k hk.le
    have hz := (mulAccum_at (u := bodyAt k) hs.ready hak (hck hk) hk hi).2.2
    rw [hz.slot (by simp), hak.inZp.slot (by simp), hs.ready.bound] at hle
    have hroom := hs.room
    have hk' := Nat.mul_le_mul_left (256 ^ i) (Nat.mul_le_mul_left (s.ram (a.addr + i)).toNat
      ((hbytes (k + 1)).resolve_right (by omega)))
    exact mulGuard_zero hs.ready hak (hck hk) hk hi (by omega) (by omega)
  · rw [hstate]
    exact (h.spent hi hs).1
  · obtain ⟨v, hrip, -⟩ := h.outer hi hs
    rw [mulRowEnd, hstate, hrip]
    exact setZp_zp_wideAt hj (by decide)
  · obtain ⟨v, hrip, hout⟩ := h.outer hi hs
    rw [mulTurn_succ, hout, mulRowEnd, hstate, hrip, setZp_zp_slot (by decide)]

/-! ## The rows of a squaring -/

/-- Row `i` of a squaring after its first `k` bodies. -/
def sqrState (B : Build) (s : Machine) (i k : ℕ) : ℕ × Machine :=
  sqrBodies B (sqrHead B (sqrRow B (sqrTurn B s i))) k

/-- The machine behind the ripple of row `i`. -/
def sqrRowEnd (B : Build) (s : Machine) (i : ℕ) : Machine :=
  sqrRipple B (sqrState B s i (2 * sqrPairs i))

/-- The copy of the body that runs `k`-th in a row. -/
def sqrBodyAt (k : ℕ) : Body := if k % 2 = 0 then .a else .b

/-- What the chain step of the `k`-th body is entered with, in the engine of
the row. -/
def sqrCombined (B : Build) (k : ℕ) (t : ℕ × Machine) : Byte × Machine :=
  match t.2.tramp with
  | .sqrInner =>
      let x := sqrCursor B t.2
      sqrAccum B (sqrBodyAt k) x (sqrDouble B (sqrProduct B (sqrBodyAt k) x t.2))
  | .sqrInnerDma => sqrDmaAccum B (sqrBodyAt k) t.1 t.2

/-- The pending bit through row `i` of the square of the buffer `a`, on
whichever engine it runs. The operand is followed by a zero byte. -/
structure SqrRowChain (B : Build) (a : FieldBuf B.mem) (s : Machine) (i : ℕ) : Prop where
  /-- With the pending bit at its weight the accumulator is the sum so far. -/
  sum : ∀ k, k ≤ 2 * sqrPairs i →
    (sqrState B s i k).2.wide B 64
        + sqrPend (sqrState B s i k).2 * 256 ^ (i + (i + 1 + k) + 2)
      = sqrPartial (fun j => if j < 32 then s.ram (a.addr + j) else 0) i k
  /-- What a chain step is entered with. -/
  combined : ∀ k, k < 2 * sqrPairs i → (sqrCombined B k (sqrState B s i k)).1.toNat ≤ 3
  /-- What the guard drops, and what the unguarded body adds past the last
  byte. -/
  dropped : ∀ k, k < 2 * sqrPairs i → 64 ≤ i + (i + 1 + k) + 2 →
    (sqrCombined B k (sqrState B s i k)).1 = 0
  guard : (sqrRow B (sqrTurn B s i)).tramp = .sqrInner → ∀ k, k < 2 * sqrPairs i →
    (((sqrCombined B k (sqrState B s i k)).2.var .sqrBound).toNat ≤ i + 1 + k + 1 ↔
      64 ≤ i + (i + 1 + k) + 2)
  spent : sqrPend (sqrState B s i (2 * sqrPairs i)).2 = 0
  ripple : ∀ j, j < 64 →
    (sqrRowEnd B s i).zp (B.wideAt j) = (sqrState B s i (2 * sqrPairs i)).2.zp (B.wideAt j)
  next : sqrTurn B s (i + 1)
    = (sqrRowEnd B s i).setZp (B.slot .feMulI) ((sqrRowEnd B s i).zp (B.slot .feMulI) + 1)

/-- The additions of the `k`-th body of a row, in either engine. -/
theorem sqrCombined_at {A : ℕ} {w : ℕ × Machine} (hr : SqrEngine B i A s) (h : RowStart B i A s)
    (hw : RowAt B i A s k w) (hk : k < 2 * sqrPairs i) :
    RowSum B i A s (i + 1 + k + 1) (sqrCombined B k w).1.toNat (sqrCombined B k w).2 ∧
      (sqrCombined B k w).1.toNat ≤ 3 := by
  have hi := h.row
  have hbound : i + 1 + 2 * sqrPairs i ≤ 33 ∧ i + (i + 1 + 2 * sqrPairs i) ≤ 63 := by
    simp only [sqrPairs]
    omega
  have htr : w.2.tramp = s.tramp := hw.at'.sum.step.tramp
  have hcopy : sqrBodyAt k = .a ∨ sqrBodyAt k = .b := by
    rw [sqrBodyAt]
    split
    · exact .inl rfl
    · exact .inr rfl
  rcases hr with ⟨htab, hrow⟩ | ⟨hdma, hrow⟩
  · simp only [sqrCombined, htr, htab, hw.cursor htab]
    obtain ⟨hsum, hle, -⟩ := sqrAccum_at hrow hw.at' hcopy (by omega)
    exact ⟨hsum, hle⟩
  · simp only [sqrCombined, htr, hdma, hw.cursorX hdma]
    obtain ⟨hsum, hle, -⟩ := sqrDmaAccum_at hrow hw.at' hcopy (by omega) (by omega)
    exact ⟨hsum, hle⟩

theorem sqrRowChain (hr : Ready B s) (h1 : s.ptr B .fe25519Src1 = a.addr) (hi : i ≤ 30) :
    SqrRowChain B a s i := by
  have h := sqrTurn_spec hr h1 (show i ≤ 31 by omega)
  have hs := h.start hr h1 hi
  have hbound : i + 1 + 2 * sqrPairs i ≤ 33 ∧ i + (i + 1 + 2 * sqrPairs i) ≤ 63 := by
    simp only [sqrPairs]
    omega
  set f : ℕ → Byte := fun j => if j < 32 then s.ram (a.addr + j) else 0 with hf
  obtain ⟨hcopy, hcopy33⟩ := h.copyNat hr hs.frame
  have hlow : ∀ x, x ≤ 32 → leNat f x = leNat (fun j => s.ram (a.addr + j)) x := fun x hx =>
    leNat_congr fun j hj => if_pos (by omega)
  have hf33 : leNat f 33 = s.fe a.addr := by
    rw [leNat_succ, hlow 32 le_rfl, show f 32 = 0 from rfl]
    simp [Machine.fe]
  have hfi : f i = s.ram (a.addr + i) := if_pos (by omega)
  have hcopyf : ∀ x, x ≤ 33 → copyNat B (sqrRow B (sqrTurn B s i)) x = leNat f x := fun x hx => by
    rcases Nat.lt_or_ge x 33 with hlt | hge
    · rw [hcopy x (by omega), hlow x (by omega)]
    · obtain rfl : x = 33 := by omega
      rw [hcopy33, hf33]
  have hat := fun k (hk : k ≤ 2 * sqrPairs i) => sqrBodies_at hs.engine hs.start hk
  have hrows : (sqrTurn B s i).wide B 64 = sqrPartial f i 0 := by
    have hval := h.value
    have hpart := sqrPartial_rows f (show i ≤ 32 by omega)
    have hdiag : diagonal f i = diagonal (fun j => s.ram (a.addr + j)) i :=
      Radix.value_congr fun j hj => by rw [show f j = s.ram (a.addr + j) from if_pos (by omega)]
    rw [hlow i (by omega), hlow 32 le_rfl, hdiag, ← Machine.fe, ← hval] at hpart
    omega
  refine ⟨fun k hk => ?_, fun k hk => ?_, fun k hk hge => ?_, fun htab k hk => ?_, ?_,
    fun j hj => ?_, ?_⟩
  · have hval := (hat k hk).at'.sum.value
    have hpart := sqrPartial_row f i k
    rw [hcopyf _ (by omega), hcopyf _ (by omega), hs.wide, hrows, ← hfi] at hval
    rw [← mul_assoc, ← pow_succ, mul_comm _ (sqrPend _)] at hval
    change (sqrBodies B _ k).2.wide B 64 + sqrPend (sqrBodies B _ k).2 * 256 ^ (_ + 1 + 1) + _ = _
      at hval
    change (sqrBodies B _ k).2.wide B 64 + sqrPend (sqrBodies B _ k).2 * 256 ^ (_ + 1 + 1)
      = sqrPartial f i k
    omega
  · exact (sqrCombined_at hs.engine hs.start (hat k hk.le) hk).2
  · have hsum := (sqrCombined_at hs.engine hs.start (hat k hk.le) hk).1
    exact hsum.owes_nothing (by omega) (hs.start.room_at (by omega))
  · have hsum := (sqrCombined_at hs.engine hs.start (hat k hk.le) hk).1
    rcases hs.engine with ⟨-, hrow⟩ | ⟨hdma, -⟩
    · rw [sqrState, hsum.step.var _ (by decide), hrow.bound]
      omega
    · exact absurd (htab.symm.trans hdma) (by decide)
  · exact (h.spent hr hi hs).1
  · obtain ⟨v, hrip, -⟩ := h.outer hr hi hs
    rw [sqrRowEnd, sqrState, hrip]
    rfl
  · obtain ⟨v, hrip, hout⟩ := h.outer hr hi hs
    rw [sqrTurn_succ, hout, sqrRowEnd, sqrState, hrip]
    rfl

/-- **The pending carry is exact.** After every body of every row of a
multiplication and of a squaring, the accumulator and the pending bit are the
partial products added so far; no chain step is entered with more than
three; and nothing is pending when a row ends, so its ripple changes no
byte, nor is anything dropped by a guard. -/
theorem pendingCarry_exact (hr : Ready B s) (h1 : s.ptr B .fe25519Src1 = a.addr)
    (h2 : s.ptr B .fe25519Src2 = b.addr) :
    (∀ i, i < 32 → MulRowChain B a b s i) ∧ ∀ i, i < 31 → SqrRowChain B a s i :=
  ⟨fun _ hi => mulRowChain hr.mul h1 h2 hi, fun _ hi => sqrRowChain hr h1 (by omega)⟩

/-- Two operands of ones in every bit. -/
theorem pendingCarry_exact_standard :
    let s := poised .standard .x25A .x25B .x25A (2 ^ 256 - 1) (2 ^ 256 - 1)
      (tablesInit .standard .blank)
    let a := MemMap.own Build.standard.mem .x25A
    let b := MemMap.own Build.standard.mem .x25B
    s.fe a.addr = 2 ^ 256 - 1 ∧ s.fe b.addr = 2 ^ 256 - 1 ∧
      (∀ i, i < 32 → MulRowChain .standard a b s i) ∧ ∀ i, i < 31 → SqrRowChain .standard a s i :=
  ⟨poised_src1 (by decide) (by norm_num), poised_src2 (by norm_num),
    pendingCarry_exact blank_ready.poised poised_ptr.1 poised_ptr.2.1⟩

/-! ## Two engines for a row -/

/-- The machine with anything at all in the staging pages. -/
def restage (B : Build) (stale : ℕ → Byte) (s : Machine) : Machine :=
  { s with ram := fun x => if B.mem.stage ≤ x ∧ x < B.mem.stage + 0x300 then stale x else s.ram x }

theorem MulInv.restage (h : MulInv B a b s i t) (stale : ℕ → Byte) :
    MulInv B a b s i (restage B stale t) where
  frame := ⟨fun x hx => by
      rw [← h.frame.ram x hx]
      exact if_neg fun hx' => hx (.inl hx'), h.frame.zp, h.frame.var, h.frame.flagI, h.frame.mem,
    h.frame.live⟩
  index := h.index
  src1 := h.src1
  src2 := h.src2
  gen := h.gen
  latch hon := ⟨(h.latch hon).reg, (h.latch hon).latch⟩
  value := h.value

/-- The entries a row reads: those of the bytes of the second operand, and each
the exact product with the byte of the row. -/
structure RowFilled (B : Build) (a b : FieldBuf B.mem) (s : Machine) (i : ℕ) (u : Machine) :
    Prop where
  reads : ∀ y : Body, u.op (.ldySrc2 y) = b.addr
  bytes : ∀ j, j < 32 → u.ram (b.addr + j) = s.ram (b.addr + j)
  entry : ∀ j, j < 32 → staged B u (s.ram (b.addr + j))
    = (s.ram (a.addr + i)).toNat * (s.ram (b.addr + j)).toNat

/-- **A row is filled afresh**, whatever was in the staging pages when it
began. -/
theorem mulRow_filled (hr : MulReady B s) (h1 : s.ptr B .fe25519Src1 = a.addr)
    (h2 : s.ptr B .fe25519Src2 = b.addr) (hi : i < 32) (stale : ℕ → Byte) :
    RowFilled B a b s i (mulHead B (restage B stale (mulTurn B s i))).s := by
  have h := (mulTurn_spec hr h1 h2 hi.le).restage stale
  have hs := h.start hr hi
  set u := (mulHead B (restage B stale (mulTurn B s i))).s with hu
  have hbytes : ∀ j, j < 32 → u.ram (b.addr + j) = s.ram (b.addr + j) := fun j hj =>
    (h.frame.trans hs.frame).ram _ (B.mem.not_work (b.span_add hj))
  refine ⟨hs.ready.ops.src2, hbytes, fun j hj => ?_⟩
  have hentry := hs.ready.entry j hj
  rwa [hbytes j hj] at hentry

/-- **The engines agree.** Two builds, one of which may generate its rows on
chip and the other fetch them, give one product and one result for equal
operands: either fills in row `i` every entry its inner loop reads there. -/
theorem fe25519Mul_engines {B B' : Build} {s t : Machine} {a b d : FieldBuf B.mem}
    {a' b' d' : FieldBuf B'.mem} (hs : MulReady B s) (hs1 : s.ptr B .fe25519Src1 = a.addr)
    (hs2 : s.ptr B .fe25519Src2 = b.addr) (hsd : s.ptr B .fe25519Dst = d.addr)
    (ht : MulReady B' t) (ht1 : t.ptr B' .fe25519Src1 = a'.addr)
    (ht2 : t.ptr B' .fe25519Src2 = b'.addr) (htd : t.ptr B' .fe25519Dst = d'.addr)
    (ha : t.fe a'.addr = s.fe a.addr) (hb : t.fe b'.addr = s.fe b.addr) :
    (∀ i, i < 32 → ∀ stale,
        RowFilled B a b s i (mulHead B (restage B stale (mulTurn B s i))).s ∧
        RowFilled B' a' b' t i (mulHead B' (restage B' stale (mulTurn B' t i))).s) ∧
      (fe25519MulWide B s).wide B 64 = (fe25519MulWide B' t).wide B' 64 ∧
      ∀ i, i < 32 → (fe25519Mul B s).ram (d.addr + i) = (fe25519Mul B' t).ram (d'.addr + i) := by
  have hws := (fe25519MulWide_spec hs hs1 hs2).1
  have hwt := (fe25519MulWide_spec ht ht1 ht2).1
  have hms := (fe25519Mul_spec hs hs1 hs2 hsd).1
  have hmt := (fe25519Mul_spec ht ht1 ht2 htd).1
  rw [ha, hb] at hwt hmt
  refine ⟨fun i hi stale => ⟨mulRow_filled hs hs1 hs2 hi stale, mulRow_filled ht ht1 ht2 hi stale⟩,
    hws.trans hwt.symm, fun i hi => ?_⟩
  exact leNat_inj (n := 32) (f := fun i => (fe25519Mul B s).ram (d.addr + i))
    (g := fun i => (fe25519Mul B' t).ram (d'.addr + i)) (hms.trans hmt.symm) hi

/-- The standard build without a unit. -/
def Build.standardOnchip : Build :=
  { Build.standard with
    onchip := true
    sqrDmaK := 0
    sqrDmaK_lt := by decide
    sqrDmaK_onchip := by decide
    reuBank_le := by decide }

theorem onchip_ready : Ready .standardOnchip (sqtabInit .standardOnchip .blank) := by
  obtain ⟨hq, -, -, hboot⟩ := sqtabInit_spec (B := .standardOnchip) .blank
  exact ⟨hq, nofun, nofun, fun hK => absurd rfl hK, hboot.ram _ fun h => absurd h.1 (by decide)⟩

/-- The product of two operands over the first, on chip and through the
unit. -/
theorem fe25519Mul_engines_inPlace :
    let s := poised .standardOnchip .x25A .x25B .x25A (2 ^ 256 - 1) (p - 1)
      (sqtabInit .standardOnchip .blank)
    let t := poised .standard .x25A .x25B .x25A (2 ^ 256 - 1) (p - 1) (tablesInit .standard .blank)
    let a := MemMap.own Build.standard.mem .x25A
    let b := MemMap.own Build.standard.mem .x25B
    s.fe a.addr = 2 ^ 256 - 1 ∧ s.fe b.addr = p - 1 ∧
      (∀ i, i < 32 → ∀ stale,
        RowFilled .standardOnchip a b s i
          (mulHead .standardOnchip
            (restage .standardOnchip stale (mulTurn .standardOnchip s i))).s ∧
        RowFilled .standard a b t i
          (mulHead .standard (restage .standard stale (mulTurn .standard t i))).s) ∧
      (fe25519MulWide .standardOnchip s).wide .standardOnchip 64
        = (fe25519MulWide .standard t).wide .standard 64 ∧
      ∀ i, i < 32 → (fe25519Mul .standardOnchip s).ram (a.addr + i)
        = (fe25519Mul .standard t).ram (a.addr + i) := by
  intro s t a b
  have hs1 : s.fe a.addr = 2 ^ 256 - 1 :=
    poised_src1 (B := .standardOnchip) (by decide) (by norm_num)
  have hs2 : s.fe b.addr = p - 1 := poised_src2 (B := .standardOnchip) (by norm_num [p])
  have ht1 : t.fe a.addr = 2 ^ 256 - 1 := poised_src1 (by decide) (by norm_num)
  have ht2 : t.fe b.addr = p - 1 := poised_src2 (by norm_num [p])
  exact ⟨hs1, hs2, fe25519Mul_engines onchip_ready.poised.mul poised_ptr.1 poised_ptr.2.1
    poised_ptr.2.2 blank_ready.poised.mul poised_ptr.1 poised_ptr.2.1 poised_ptr.2.2
    (ht1.trans hs1.symm) (ht2.trans hs2.symm)⟩

end C64X25519
