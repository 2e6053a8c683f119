import C64X25519.Helpers.LadderTiming
import C64X25519.Helpers.Prompt
/-!
# The timing of the public calls

The bill of a call is a function of the build, the link and what call it
is. What a settle costs besides is bounded, whatever the unit shows; the
bound is met by a unit that fails throughout, and one that answers at once
has a price for each place.
-/

namespace C64X25519

open Machine

variable {B : Build} {L : Link} {s : Core} {c : Call} {l : Label} {v : Byte} {w : ℕ → Byte} {n : ℕ}

/-- What a call costs. -/
def Call.bill (B : Build) (L : Link) : Call → Bill Label
  | jsr f => f.bill B L
  | fe25519Inv => fe25519InvBill B L
  | fe25519Cswap _ => .tick (fe25519CswapCycles L)
  | x25519Clamp => .tick 22
  | x25519Scalarmult => x25519ScalarmultBill B L
  | x25519Base => x25519BaseBill B L
  | reuFetchMulRow _ => .tick (52 + (4 + L.dma 0x200)) + .wait .fetchSettle
  | reuFetchDoubledRow => .tick (52 + (4 + L.dma 0x200)) + .wait .doubledSettle +
      (.tick (48 + (4 + L.dma 0x100)) + .wait .carrySettle)

/-- **The public calls.** -/
theorem Call.does (hr : Ready B s.m) (hv : c.Valid B s.m) (ha : ∀ v ∈ c.given, s.a = v) :
    Does B L (c.asm B) s (c.bill B L) (c.run B s.m) := by
  cases c with
  | jsr f =>
    obtain ⟨d, hd⟩ := hv.ptr .fe25519Dst (by simp [writes])
    exact FieldOp.ptr_does hr hd fun x hx => hv.ptr x (List.mem_append_left _ hx)
  | fe25519Inv =>
    obtain ⟨a, ha⟩ := hv.ptr .fe25519Src1 (by decide)
    obtain ⟨d, hd⟩ := hv.ptr .fe25519Dst (by decide)
    exact fe25519Inv_does hr ha hd
  | fe25519Cswap m =>
    obtain ⟨a, h1⟩ := hv.ptr .fe25519Src1 (by simp [reads])
    obtain ⟨b, h2⟩ := hv.ptr .fe25519Src2 (by simp [reads])
    obtain rfl : s.a = m := ha m rfl
    exact fe25519Cswap_does h1 h2
  | x25519Clamp => exact x25519Clamp_does
  | x25519Scalarmult => exact x25519Scalarmult_does hr
  | x25519Base => exact x25519Base_does hr
  | reuFetchMulRow a =>
    obtain rfl : s.a = a := ha a rfl
    exact reuFetchMulRow_does (hr.live (hv.mulRow _ rfl))
  | reuFetchDoubledRow =>
    have hK := hv.doubledRow rfl
    have hon : B.onchip = false := by
      by_contra h
      exact hK (B.sqrDmaK_onchip (by simpa using h))
    exact reuFetchDoubledRow_does (hr.live hon)

/-! ## What a settle costs -/

/-- The price of a settle that runs out, with an error in every sample. -/
def settleWorst (B : Build) (L : Link) : ℕ :=
  34 + (47 * (B.settleIter - 1) + (45 + (L.crosses .settleExpired).toNat))

theorem toNat_le_one (b : Bool) : b.toNat ≤ 1 := by
  cases b <;> decide

theorem settleTurnCycles_le :
    settleTurnCycles L (n + 1) v w ≤ 47 * n + (45 + (L.crosses .settleExpired).toNat) := by
  have hb5 := toNat_le_one (L.crosses .noB5)
  have hdone := toNat_le_one (L.crosses .settleDone)
  induction n generalizing v w with
  | zero =>
    rw [settleTurnCycles]
    split <;> split <;> simp <;> omega
  | succ n ih =>
    have hrest := ih (v := w 0) (w := dropFirst w)
    rw [settleTurnCycles, if_neg (Nat.succ_ne_zero n)]
    split <;> split <;> omega

/-- **No settle costs more.** -/
theorem settleCycles_le : settleCycles B L l w ≤ settleWorst B L := by
  obtain ⟨n, hn⟩ : ∃ n, B.settleIter = n + 1 := ⟨B.settleIter - 1, by
    have := B.settleIter_le
    omega⟩
  have hturns := settleTurnCycles_le (L := L) (n := n) (v := w 0) (w := dropFirst w)
  have hl := toNat_le_one (L.crosses l)
  rw [settleCycles, settleWorst, hn, Nat.add_sub_cancel]
  split <;> omega

/-- A unit that never completes, with an error in every sample. -/
def Fails (w : ℕ → Byte) : Prop := ∀ n, w n &&& 0x60 = 0x20

theorem fails_sample : ∀ v : Byte, v &&& 0x60 = 0x20 →
    endOfBlock v = false ∧ verifyError v = true := by
  decide

theorem settleTurnCycles_fails (hv : v &&& 0x60 = 0x20) (hw : Fails w) :
    settleTurnCycles L (n + 1) v w = 47 * n + (45 + (L.crosses .settleExpired).toNat) := by
  induction n generalizing v w with
  | zero =>
    obtain ⟨he, hf⟩ := fails_sample v hv
    rw [settleTurnCycles, he, hf]
    simp
    omega
  | succ n ih =>
    obtain ⟨he, hf⟩ := fails_sample v hv
    have hrest := ih (v := w 0) (w := dropFirst w) (hw 0) fun i => hw (i + 1)
    rw [settleTurnCycles, he, hf, hrest]
    simp
    omega

/-- **And one that fails throughout costs as much.** -/
theorem settleCycles_fails (hw : Fails w) : settleCycles B L l w = settleWorst B L := by
  obtain ⟨n, hn⟩ : ∃ n, B.settleIter = n + 1 := ⟨B.settleIter - 1, by
    have := B.settleIter_le
    omega⟩
  obtain ⟨he, -⟩ := fails_sample _ (hw 0)
  have hturns := settleTurnCycles_fails (L := L) (n := n) (w := dropFirst w) (hw 0)
    fun i => hw (i + 1)
  rw [settleCycles, settleWorst, hn, Nat.add_sub_cancel, hturns, if_neg (by simp [he])]
  omega

/-- The price of a settle after a transfer that has completed. -/
def settlePrompt (L : Link) (l : Label) : ℕ := 11 + (L.crosses l).toNat

theorem settleCycles_prompt (hw : ∀ n, w n &&& 0x60 = 0x40) :
    settleCycles B L l w = settlePrompt L l := by
  have hfast : endOfBlock (w 0) = true ∧ verifyError (w 0) = false := by
    rw [← sample_fast, hw 0]
    rfl
  rw [settleCycles, if_pos hfast, settlePrompt]
  omega

/-- And no settle costs less. -/
theorem settlePrompt_le : settlePrompt L l ≤ settleCycles B L l w := by
  have hl := toNat_le_one (L.crosses l)
  rw [settleCycles, settlePrompt]
  split <;> omega

/-- Waits for transfers that complete. -/
theorem total_prompt {places : List Label} (hw : ∀ n, w n &&& 0x60 = 0x40) :
    (unit B L).total places w = (places.map (settlePrompt L)).sum :=
  Device.total_eq (T := fun w : ℕ → Byte => ∀ n, w n &&& 0x60 = 0x40) (fun _ h _ => h _)
    (fun _ _ h => settleCycles_prompt h) hw

/-- And for a unit that fails. -/
theorem total_fails {places : List Label} (hw : Fails w) :
    (unit B L).total places w = (places.map fun _ => settleWorst B L).sum :=
  Device.total_eq (T := Fails) (fun _ h _ => h _) (fun _ _ h => settleCycles_fails h) hw

/-- **The time of a call** where transfers complete. -/
theorem Call.time_prompt (hr : Ready B s.m) (hv : c.Valid B s.m) (ha : ∀ v ∈ c.given, s.a = v)
    (hw : Completes s.m) : ∃ t, (c.asm B).run (cpu B L) s
      = some (t, (c.bill B L).price (settlePrompt L)) ∧ t.m = c.run B s.m ∧ t.stack = s.stack := by
  obtain ⟨t, hrun, -, htm, hts⟩ := Call.does (L := L) hr hv ha
  exact ⟨t, hrun.trans (congrArg (fun n => some (t, _ + n)) (total_prompt hw)), htm, hts⟩

/-! ## What the scalar multiplication is made of -/

section Price

variable {f : Label → ℕ}

/-- The price of a program, instruction by instruction. -/
theorem execBill_price {K : Type} {code : List (Instr K)} :
    (execBill B L code).price f = (code.map fun i => (i.bill B L).price f).sum := by
  rw [execBill, Bill.price_sum, List.map_map]
  rfl

theorem ladderStep_price : (execBill B L ladderStepCode).price f
    = 5 * (fe25519MulBill B L).price f + 4 * (fe25519SqrBill B L).price f
      + fe25519MulA24Cycles B L + 4 * fe25519AddCycles L + 4 * fe25519SubCycles L
      + 4 * fe25519ReduceFinalCycles L + 664 := by
  rw [execBill_price]
  simp only [ladderStepCode, List.map_cons, List.map_nil, List.sum_cons, List.sum_nil, Instr.bill,
    FieldOp.bill, Bill.price_add, Bill.price_tick]
  omega

/-- A run of squarings of the inversion. -/
theorem feInvSqrn_price {n : Byte} : (feInvSqrnBill B L n).price f
    = turns n * ((fe25519SqrBill B L).price f + 38)
      + (turns n - 1) * (3 + (L.crosses .sqrnLoop).toNat) + 6 := by
  simp only [feInvSqrnBill, feInvSqrnBodyBill, Bill.price_add, Bill.price_tick, Bill.price_nsmul]
  ring

theorem fe25519Inv_price : (fe25519InvBill B L).price f
    = 11 * (fe25519MulBill B L).price f + 254 * (fe25519SqrBill B L).price f
      + 6 * fe25519CopyCycles L + fe25519ReduceFinalCycles L
      + 242 * (L.crosses .sqrnLoop).toNat + 11188 := by
  have h5 : turns (5 : Byte) = 5 := rfl
  have h10 : turns (10 : Byte) = 10 := rfl
  have h20 : turns (20 : Byte) = 20 := rfl
  have h50 : turns (50 : Byte) = 50 := rfl
  have h100 : turns (100 : Byte) = 100 := rfl
  simp only [fe25519InvBill, Bill.price_add, execBill_price, feInvCode, List.map_cons, List.map_nil,
    List.sum_cons, List.sum_nil, Instr.bill, FieldOp.bill, feInvSqrn_price, Bill.price_tick, h5,
    h10, h20, h50, h100]
  omega

/-- **The price of a scalar multiplication** in the prices of its
routines. -/
theorem x25519Scalarmult_price : (x25519ScalarmultBill B L).price f
    = 1287 * (fe25519MulBill B L).price f + 1274 * (fe25519SqrBill B L).price f
      + 255 * fe25519MulA24Cycles B L + 1020 * fe25519AddCycles L + 1020 * fe25519SubCycles L
      + 1022 * fe25519ReduceFinalCycles L + 512 * fe25519CswapCycles L
      + 8 * fe25519CopyCycles L + 2 * fe25519OneCycles L + fe25519ZeroCycles L
      + 242 * (L.crosses .sqrnLoop).toNat + 223 * (L.crosses .bitLoop).toNat
      + 31 * (L.crosses .bitLoopByte).toNat + (if B.onchip then 0 else 10) + 214122 := by
  simp only [x25519ScalarmultBill, ladderDecodeBill, ladderLoopBill, ladderBitBill,
    ladderFinishBill, swapPairsCycles, swapBufsCycles, Bill.price_add, Bill.price_tick,
    Bill.price_nsmul, ladderStep_price, fe25519Inv_price]
  simp only [execBill_price, decodeStartCode, decodeRestCode, finishCode, List.map_cons,
    List.map_nil, List.sum_cons, List.sum_nil, Instr.bill, FieldOp.bill, Bill.price_add,
    Bill.price_tick]
  omega

/-- A multiplication waits for every row. -/
theorem fe25519Mul_waits : (fe25519MulBill B L).waits.length = if B.onchip then 0 else 32 := by
  have hturn : ∀ i, (mulTurnBill B L i).waits.length = if B.onchip then 0 else 1 := by
    intro i
    rw [mulTurnBill, mulRowBill]
    cases B.onchip <;> simp
  simp only [fe25519MulBill, mulOuterBill, Bill.add_waits, Bill.tick_waits, List.length_append,
    Bill.sum_length, List.map_map, Function.comp_def, hturn, List.map_const', List.length_range,
    List.sum_replicate]
  cases B.onchip <;> rfl

theorem sum_threshold (K n x : ℕ) :
    ((List.range n).map fun i => if i < K then x else 0).sum = min K n * x := by
  induction n with
  | zero => rw [Nat.min_zero, Nat.zero_mul]; rfl
  | succ n ih =>
    rw [List.range_succ, List.map_append, List.sum_append, ih, List.map_singleton,
      List.sum_singleton]
    split
    · rw [Nat.min_eq_right (by omega), Nat.min_eq_right (by omega), Nat.succ_mul]
    · rw [Nat.min_eq_left (by omega), Nat.min_eq_left (by omega), Nat.add_zero]

/-- A threshold one higher moves one row. -/
theorem sum_threshold_succ {u c : ℕ → ℕ} {K n : ℕ} (h : K < n) :
    ((List.range n).map fun i => if i < K + 1 then u i else c i).sum + c K
      = ((List.range n).map fun i => if i < K then u i else c i).sum + u K := by
  induction n with
  | zero => omega
  | succ n ih =>
    simp only [List.range_succ, List.map_append, List.sum_append, List.map_singleton,
      List.sum_singleton]
    rcases Nat.lt_succ_iff_lt_or_eq.1 h with hlt | rfl
    · have hrest := ih hlt
      rw [if_neg (show ¬ n < K + 1 by omega), if_neg (show ¬ n < K by omega)]
      omega
    · have hbelow : ∀ i ∈ List.range K, (if i < K + 1 then u i else c i)
          = if i < K then u i else c i := by
        intro i hi
        have hi := List.mem_range.1 hi
        rw [if_pos hi, if_pos (by omega)]
      rw [List.map_congr_left hbelow, if_pos (Nat.lt_succ_self K), if_neg (Nat.lt_irrefl K)]
      omega

/-- And a squaring, twice, for the rows through the unit. -/
theorem fe25519Sqr_waits : (fe25519SqrBill B L).waits.length = 2 * min B.sqrDmaK 31 := by
  have hturn : ∀ i, (sqrTurnBill B L i).waits.length = if i < B.sqrDmaK then 2 else 0 := by
    intro i
    rw [sqrTurnBill, sqrRowBill, sqrSelectBill]
    by_cases hk : B.sqrDmaK = 0
    · simp [hk]
    · by_cases hi : i < B.sqrDmaK <;> simp [hk, hi]
  simp only [fe25519SqrBill, sqrOuterBill, Bill.add_waits, Bill.tick_waits, List.length_append,
    Bill.sum_length, List.map_map, Function.comp_def, hturn, sum_threshold]
  rw [List.length_nil]
  omega

/-- The waits of a scalar multiplication. -/
theorem x25519Scalarmult_waits : (x25519ScalarmultBill B L).waits.length
    = 1287 * (fe25519MulBill B L).waits.length + 1274 * (fe25519SqrBill B L).waits.length := by
  have h0 := x25519Scalarmult_price (B := B) (L := L) (f := fun _ => 0)
  have h1 := x25519Scalarmult_price (B := B) (L := L) (f := fun _ => 1)
  simp only [Bill.price_const] at h0 h1
  omega

/-! ## What a squaring is made of -/

/-- What row `i` of a squaring costs through the unit, from the choice of the
engine to the next row, with a price for each settle. -/
def sqrUnitCycles (L : Link) (f : Label → ℕ) (i : ℕ) : ℕ :=
  185 + (L.dma 0x200 + f .doubledSettle) + (L.dma 0x100 + f .carrySettle) + sqrDmaCycles L i

/-- What row `i` costs on the chip, where the threshold is compared with. -/
def sqrChipCycles (L : Link) (i : ℕ) : ℕ :=
  20 + (L.crosses .sqrUseMult66).toNat + sqrTableCycles L i

/-- What comparing with a threshold costs a squaring on the chip: a build
without one does not compare. -/
def sqrCompareCycles (L : Link) (K : ℕ) : ℕ :=
  if K = 0 then 31 * (8 + (L.crosses .sqrUseMult66).toNat) else 0

/-- The price of a row. -/
theorem sqrTurn_price {i : ℕ} : (sqrTurnBill B L i).price f
      + (if B.sqrDmaK = 0 then 8 + (L.crosses .sqrUseMult66).toNat else 0)
    = 139 + if i < B.sqrDmaK then sqrUnitCycles L f i else sqrChipCycles L i := by
  simp only [sqrTurnBill, sqrRowBill, sqrSelectBill, sqrEngineCycles, sqrUnitCycles, sqrChipCycles]
  by_cases hk : B.sqrDmaK = 0
  · have hi : ¬ i < B.sqrDmaK := by omega
    rw [if_pos hk, if_pos hk, if_neg hi, if_neg hi]
    simp only [Bill.price_add, Bill.price_tick]
    omega
  · rw [if_neg hk, if_neg hk]
    by_cases hi : i < B.sqrDmaK
    · rw [if_pos hi, if_pos hi, if_pos hi]
      simp only [Bill.price_add, Bill.price_tick, Bill.price_wait]
      omega
    · rw [if_neg hi, if_neg hi, if_neg hi]
      simp only [Bill.price_add, Bill.price_tick]
      omega

/-- What a squaring costs besides its rows. -/
def sqrRestCycles (B : Build) (L : Link) : ℕ :=
  (if B.onchip then 0 else 10) + reuClearWideCycles B L + sqrCopySrcCycles L + 31 * 139
    + (L.crosses .sqrCrossDone).toNat + diagOuterCycles L + feReduceWideCycles L
    + copyResultCycles L .sqrCopyResult + 187

/-- **The price of a squaring** in the prices of its rows: those below the
threshold go through the unit, the others are computed on the chip. -/
theorem fe25519Sqr_price : (fe25519SqrBill B L).price f + sqrCompareCycles L B.sqrDmaK
    = sqrRestCycles B L + ((List.range 31).map fun i =>
        if i < B.sqrDmaK then sqrUnitCycles L f i else sqrChipCycles L i).sum := by
  have hrows : ((List.range 31).map fun i => (sqrTurnBill B L i).price f).sum
        + sqrCompareCycles L B.sqrDmaK
      = 31 * 139 + ((List.range 31).map fun i =>
          if i < B.sqrDmaK then sqrUnitCycles L f i else sqrChipCycles L i).sum := by
    have hsum := congrArg List.sum (List.map_congr_left (l := List.range 31)
      fun i _ => sqrTurn_price (B := B) (L := L) (f := f) (i := i))
    simp only [List.sum_map_add, List.map_const', List.length_range, List.sum_replicate,
      smul_eq_mul] at hsum
    rw [← hsum, sqrCompareCycles]
    split <;> rfl
  simp only [fe25519SqrBill, sqrOuterBill, Bill.price_add, Bill.price_tick, Bill.price_sum,
    List.map_map, Function.comp_def, sqrRestCycles]
  omega

/-- **One row more through the unit**: the squarings of two builds whose
thresholds are `K` and `K + 1` differ by what row `K` costs, and by the
comparison if the first of them has none. -/
theorem fe25519Sqr_price_succ {B' : Build} {K : ℕ} (hon : B'.onchip = B.onchip)
    (hK : B.sqrDmaK = K) (hK' : B'.sqrDmaK = K + 1) (hlt : K < 31) :
    (fe25519SqrBill B' L).price f + sqrChipCycles L K
      = (fe25519SqrBill B L).price f + sqrUnitCycles L f K + sqrCompareCycles L K := by
  have h := fe25519Sqr_price (B := B) (L := L) (f := f)
  have h' := fe25519Sqr_price (B := B') (L := L) (f := f)
  have hrows := sum_threshold_succ (u := sqrUnitCycles L f) (c := sqrChipCycles L) hlt
  have hrest : sqrRestCycles B' L = sqrRestCycles B L := by
    simp only [sqrRestCycles, reuClearWideCycles, hon]
  have hcompare : sqrCompareCycles L (K + 1) = 0 := if_neg (Nat.succ_ne_zero K)
  rw [hK] at h
  rw [hK', hrest, hcompare] at h'
  omega

/-- The cycles of body B where its chain step is not past the end. -/
theorem sqrBodyBCycles_inner {i x : ℕ} (h : x + 1 < 63 - i) : sqrBodyBCycles L i x = 193 := by
  rw [sqrBodyBCycles, if_neg (Nat.not_le.2 h)]

/-- Where no branch crosses a page, a row but the last saves 233 cycles a pair
through the unit, and pays for its transfers. -/
theorem sqrUnitCycles_add {i : ℕ} (hL : ∀ l, L.crosses l = false) (hi : i < 30) :
    sqrUnitCycles L (settlePrompt L) i + 233 * sqrPairs i
      = sqrChipCycles L i + (187 + L.dma 0x200 + L.dma 0x100) := by
  have hpairs : 0 < sqrPairs i ∧ i + sqrPairs i ≤ 30 := by
    simp only [sqrPairs]
    omega
  have hbodies : ((List.range (sqrPairs i)).map fun j =>
      177 + sqrBodyBCycles L i (i + 1 + 2 * j + 1)).sum = sqrPairs i * 370 := by
    rw [List.map_congr_left (g := fun _ => 370) fun j hj => by
      have hj := List.mem_range.1 hj
      rw [sqrBodyBCycles_inner (by omega)], List.map_const', List.length_range,
      List.sum_replicate, smul_eq_mul]
  simp only [sqrUnitCycles, sqrChipCycles, sqrDmaCycles, sqrTableCycles, hbodies, settlePrompt,
    rippleCycles, loopCycles, hL, Bool.toNat_false]
  omega

/-- The last row, whose one pair is past the end, saves less. -/
theorem sqrUnitCycles_last (hL : ∀ l, L.crosses l = false) :
    sqrUnitCycles L (settlePrompt L) 30 + 219
      = sqrChipCycles L 30 + (187 + L.dma 0x200 + L.dma 0x100) := by
  have hpairs : sqrPairs 30 = 1 := rfl
  have hbody : sqrBodyBCycles L 30 (30 + 1 + 2 * 0 + 1) = 179 := by
    rw [sqrBodyBCycles, if_pos (by omega), hL]
    rfl
  simp only [sqrUnitCycles, sqrChipCycles, sqrDmaCycles, sqrTableCycles, hpairs, List.range_one,
    List.map_singleton, List.sum_singleton, hbody, settlePrompt, rippleCycles, loopCycles, hL,
    Bool.toNat_false]
  omega

end Price

end C64X25519
