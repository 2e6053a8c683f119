import C64X25519.Helpers.Base
import C64X25519.Helpers.ProgramTiming
/-!
# The timing of the ladder

A turn of the bit loop costs the same whether it swaps or not, and so does
every scalar multiplication: 255 turns, in 32 bytes.
-/

namespace C64X25519

open Machine

variable {B : Build} {L : Link} {s : Core} {m : Machine} {a b : Buf} {l : List Pushed} {v : Byte}
  {i k n : ℕ}

theorem x25519Clamp_does :
    Does B L (x25519ClampAsm B) s (.tick 22) (x25519Clamp B s.m) :=
  Straight.spends (.of_quiet rfl trivial rfl) ⟨rfl, rfl⟩

theorem x25519LadderStep_does (hr : Ready B s.m) : Does B L (x25519LadderStepAsm B) s
    (execBill B L ladderStepCode) (x25519LadderStep B s.m) := by
  obtain ⟨v', hv', -⟩ := ladderStep_eval raw (ownView B s.m)
  exact execOwn_does (l := stepBufs) ladderStepCode hr hv' (by decide)

/-! ## The swaps -/

/-- What the swap of two buffers costs, with `n` for the store of the mask. -/
def swapBufsCycles (L : Link) (n : ℕ) : ℕ := n + (20 + (3 + (fe25519CswapCycles L + 12)))

/-- A swap, behind the store of the mask. -/
theorem swapBufs_spends {first : Op} (hfirst : Spends B L (.block [first, .sta (.slot .feCarry)]) s
      (.tick n) fun t => t.m = s.m.setZp (B.slot .feCarry) v ∧ t.stack = l) :
    Spends B L (swapBufsAsm B first a b) s (.tick (swapBufsCycles L n)) fun t =>
      t.m = swapBufs B a b v s.m ∧ t.stack = l := by
  unfold swapBufsCycles
  set m2 := ((s.m.setZp (B.slot .feCarry) v).setPtr B .fe25519Src1 (B.mem.buf a)).setPtr B
    .fe25519Src2 (B.mem.buf b) with hm2
  have hshow : Shows B B.mem.own _ m2 := (shows_own _).src1_set.src2_set
  refine Takes.seqTick hfirst ?_
  rintro t ⟨htm, hts⟩
  have haim : Does B L (.block (setPtrAsm .fe25519Src1 (B.mem.buf a) ++
      setPtrAsm .fe25519Src2 (B.mem.buf b))) t (.tick (10 + 10)) m2 :=
    Does.append setPtr_does fun u hum hus => setPtr_does.mono fun w hw =>
      ⟨by rw [hw.1, hum, htm], hw.2.trans hus⟩
  refine Takes.seqTick haim ?_
  rintro u ⟨hum, hus⟩
  have hmask : Spends B L (.block [.lda (.slot .feCarry)]) u (.tick 3) fun w =>
      w.m = m2 ∧ w.a = m2.zp (B.slot .feCarry) ∧ w.stack = u.stack :=
    Straight.spends (.of_quiet rfl trivial rfl) ⟨hum, congrArg (fun m => m.zp (B.slot .feCarry)) hum,
      rfl⟩
  refine Takes.seqTick hmask ?_
  rintro w ⟨hwm, hwa, hws⟩
  have h1 : w.m.ptr B .fe25519Src1 = (B.mem.own a).addr := hwm ▸ hshow.src1 a rfl
  have h2 : w.m.ptr B .fe25519Src2 = (B.mem.own b).addr := hwm ▸ hshow.src2 b rfl
  refine (Does.call (fe25519Cswap_does (s := w.push .ret) h1 h2)).mono ?_
  rintro z ⟨hzm, hzs⟩
  refine ⟨?_, hzs.trans (hws.trans (hus.trans hts))⟩
  change z.m = fe25519Cswap B w.a w.m at hzm
  rw [hzm, hwa, hwm]
  rfl

/-- What both swaps of a turn cost. -/
def swapPairsCycles (L : Link) : ℕ := swapBufsCycles L 6 + swapBufsCycles L 7

/-- **Both swaps**, by the mask in A. -/
theorem swapPairs_does : Does B L (swapPairsAsm B) s (.tick (swapPairsCycles L))
    (swapPairs B s.a s.m) := by
  have hpush : Spends B L (.block [.pha, .sta (.slot .feCarry)]) s (.tick 6) fun t =>
      t.m = s.m.setZp (B.slot .feCarry) s.a ∧ t.stack = .byte s.a :: s.stack :=
    Takes.block (ready_of_noPull rfl) rfl rfl ⟨rfl, rfl⟩
  refine Takes.seqTick (swapBufs_spends hpush) ?_
  rintro t ⟨htm, hts⟩
  have hpull : Spends B L (.block [.pla, .sta (.slot .feCarry)]) t (.tick 7) fun u =>
      u.m = t.m.setZp (B.slot .feCarry) s.a ∧ u.stack = s.stack := by
    obtain ⟨ta, tx, ty, tnz, tc, tstack, tm⟩ := t
    obtain rfl : tstack = _ := hts
    exact Takes.block ⟨rfl, rfl, trivial⟩ rfl rfl ⟨rfl, rfl⟩
  refine (swapBufs_spends hpull).mono ?_
  rintro u ⟨hum, hus⟩
  exact ⟨by rw [hum, htm]; rfl, hus⟩

/-! ## The set-up -/

/-- The set-up up to the mask of the top bit. -/
def decodeStartCode : List (Instr Buf) :=
  [.dst .x25X2, .jsr .fe25519One, .dst .x25Z2, .jsr .fe25519Zero, .src1 .x25U, .dst .x25X3,
    .jsr .fe25519Copy]

/-- And behind it. -/
def decodeRestCode : List (Instr Buf) :=
  [.src1 .x25X3, .dst .x25X1, .jsr .fe25519Copy, .dst .x25Z3, .jsr .fe25519One]

/-- What the set-up of `x25519_scalarmult` costs. -/
def ladderDecodeBill (B : Build) (L : Link) : Bill Label :=
  execBill B L decodeStartCode + (.tick 10 + (execBill B L decodeRestCode + .tick 15))

theorem ladderDecode_does (hr : Ready B s.m) : Does B L (ladderDecodeAsm B) s
    (ladderDecodeBill B L) (ladderDecode B s.m) := by
  obtain ⟨-, hk1⟩ := exec_own (l := decodeBufs) decodeStartCode hr rfl (by decide)
  have hstart : Does B L (execAsm B B.mem.buf decodeStartCode) s (execBill B L decodeStartCode)
      (exec B B.mem.buf decodeStartCode s.m) :=
    execOwn_does (l := decodeBufs) decodeStartCode hr rfl (by decide)
  refine Takes.seq hstart ?_
  rintro t ⟨htm, hts⟩
  rw [← htm] at hk1
  have htop : Does B L (.block [.lda (.abs (B.mem.buf .x25U + 31)), .andImm 0x7f,
      .sta (.abs (B.mem.buf .x25X3 + 31))]) t (.tick 10)
      (t.m.setRam (B.mem.buf .x25X3 + 31) (t.m.ram (B.mem.buf .x25U + 31) &&& 0x7f)) :=
    Straight.spends (.of_quiet rfl trivial rfl) ⟨rfl, rfl⟩
  refine Takes.seq htop ?_
  rintro u ⟨hum, hus⟩
  have hk2 : Kept B Slot.prog (dirty B (ownIn B decodeBufs)) s.m u.m := by
    rw [hum]
    exact hk1.setRam (.inl ⟨_, own_mem .x25X3 (by decide), (B.mem.own .x25X3).span_add (by omega)⟩)
  have hrest : Does B L (execAsm B B.mem.buf decodeRestCode) u (execBill B L decodeRestCode)
      (exec B B.mem.buf decodeRestCode u.m) :=
    execOwn_does (l := decodeBufs) decodeRestCode (hr.kept hk2) rfl (by decide)
  refine Takes.seq hrest ?_
  rintro w ⟨hwm, hws⟩
  refine Straight.spends (.of_quiet rfl trivial rfl) ⟨?_, hws.trans (hus.trans hts)⟩
  change ((w.m.setZp (B.slot .x25PrevBit) 0).setZp (B.slot .x25ByteIdx) 31).setZp
    (B.slot .x25BitMask) 0x40 = _
  rw [hwm, hum, htm]
  rfl

/-! ## The turns -/

/-- The bit mask shifted, behind the step of a turn. -/
def ladderShift (B : Build) (s : Machine) : Machine :=
  s.setZp (B.slot .x25BitMask) (lsr (s.zp (B.slot .x25BitMask))).1

/-- The next byte, behind the last turn of one. -/
def ladderByte (B : Build) (s : Machine) : Machine × Bool :=
  let s := s.setZp (B.slot .x25BitMask) 0x80
  let s := s.setZp (B.slot .x25ByteIdx) (s.zp (B.slot .x25ByteIdx) - 1)
  (s, !(s.zp (B.slot .x25ByteIdx)).getLsbD 7)

/-- Which of its two branches a turn ends with. -/
theorem ladderShift_spec (h : AtBit B k m) :
    ((ladderShift B m).zp (B.slot .x25BitMask) != 0) = decide (k % 8 ≠ 0) ∧
      (k % 8 ≠ 0 → ladderNext B m = (ladderShift B m, true)) ∧
      (k % 8 = 0 → ladderNext B m = ladderByte B (ladderShift B m)) := by
  have hj : k % 8 < 8 := Nat.mod_lt _ (by omega)
  have hmask : (ladderShift B m).zp (B.slot .x25BitMask) = BitVec.ofNat 8 (2 ^ (k % 8) / 2) := by
    rw [ladderShift, setZp_zp_self, h.bit, lsr_bit hj]
  have hzero : (ladderShift B m).zp (B.slot .x25BitMask) = 0 ↔ k % 8 = 0 := by
    rw [hmask]
    exact half_bit_eq_zero hj
  refine ⟨?_, fun hne => if_pos fun h0 => hne (hzero.1 h0), fun h0 => if_neg ?_⟩
  · rw [Bool.eq_iff_iff, bne_iff_ne, decide_eq_true_iff]
    exact not_congr hzero
  · exact not_not_intro (hzero.2 h0)

/-- What a turn of the bit loop costs, but for its branches. -/
def ladderBitBill (B : Build) (L : Link) : Bill Label :=
  .tick 26 + (.tick (swapPairsCycles L) + (execBill B L ladderStepCode + .tick 12 + .tick 5))

/-- The step of a turn leaves the position where it was. -/
theorem ladderStepped_at (hr : Ready B m) (h : LadderAt B m i s.m) (hi : i < 255) :
    AtBit B (254 - i) (x25519LadderStep B (ladderSwap B s.m)) := by
  obtain ⟨-, hcan, -, hpos, hk⟩ := ladderSwap_spec h hi
  obtain ⟨-, -, hstep, -⟩ := x25519LadderStep_spec (hr.kept (h.kept.trans hk)) hcan
  exact ⟨by rw [hstep.zp_slot rfl]; exact hpos.byte, by rw [hstep.zp_slot rfl]; exact hpos.bit⟩

/-- **A turn of the bit loop**, up to its branch. -/
theorem ladderBit_does (hr : Ready B m) (h : LadderAt B m i s.m) (hi : i < 255) :
    Spends B L (ladderBitAsm B) s (ladderBitBill B L) fun t =>
      t.m = ladderShift B (x25519LadderStep B (ladderSwap B s.m)) ∧
        t.nz = t.m.zp (B.slot .x25BitMask) ∧ t.stack = s.stack := by
  have hidx : Within (B.mem.buf .x25Scalar) (s.m.zp (B.slot .x25ByteIdx)).toNat :=
    (B.mem.own .x25Scalar).within (by rw [(h.pos hi).byte]; omega)
  have hhead : Spends B L (.block [.ldx (.slot .x25ByteIdx), .lda (.absX (B.mem.buf .x25Scalar)),
      .and (.slot .x25BitMask), .cmpImm 1, .ldaImm 0, .sbcImm 0, .eorImm 0xff, .tax,
      .eor (.slot .x25PrevBit), .stx (.slot .x25PrevBit)]) s (.tick 26) fun t =>
      t.m = (ladderBitMask B s.m).2 ∧ t.a = (ladderBitMask B s.m).1 ∧ t.stack = s.stack := by
    refine Straight.spends (.of_quiet rfl hidx rfl) ⟨?_, ?_, rfl⟩
    · simp [ladderBitMask, hidx.indexed]
    · simp [ladderBitMask, hidx.indexed]
  refine Takes.seq hhead ?_
  rintro t ⟨htm, hta, hts⟩
  refine Takes.seq swapPairs_does ?_
  rintro u ⟨hum, hus⟩
  rw [hta, htm] at hum
  change u.m = ladderSwap B s.m at hum
  have hru : Ready B u.m := by
    rw [hum]
    exact hr.kept (h.kept.trans (ladderSwap_spec h hi).2.2.2.2)
  refine Takes.seq (Does.call (x25519LadderStep_does (s := u.push .ret) hru)) ?_
  rintro w ⟨hwm, hws⟩
  change w.m = x25519LadderStep B u.m at hwm
  refine Straight.spends (.of_quiet rfl trivial rfl) ⟨?_, ?_, hws.trans (hus.trans hts)⟩
  · rw [← hum, ← hwm]
    rfl
  · exact setZp_zp_self.symm

/-! ## The bytes -/

/-- The first turn of byte `31 - j`, whose last is turn `8 * j + 6`. -/
def byteTurn (j : ℕ) : ℕ := 8 * j - 1

/-- What the turns of a byte cost, with their branches. -/
def ladderByteBill (B : Build) (L : Link) (j : ℕ) : Bill Label :=
  (byteTurn (j + 1) - byteTurn j) • ladderBitBill B L
    + .tick ((byteTurn (j + 1) - byteTurn j - 1) * (3 + (L.crosses .bitLoop).toNat) + 2 + 10)

/-- The state in a byte, before its turn `k` or behind the last of its
turns. -/
structure InByte (B : Build) (m : Machine) (j k : ℕ) (l : List Pushed) (t : Core) : Prop where
  before : byteTurn j + k < byteTurn (j + 1) → t.m = ladderTurn B m (byteTurn j + k)
  behind : byteTurn j + k = byteTurn (j + 1) →
    t.m = ladderShift B (x25519LadderStep B (ladderSwap B (ladderTurn B m (8 * j + 6))))
  stack : t.stack = l

/-- **The turns of a byte.** -/
theorem ladderByte_does {j : ℕ} (hr : Ready B m) (h0 : LadderAt B m 0 m) (hj : j < 32)
    (hs : s.m = ladderTurn B m (byteTurn j)) :
    Spends B L (.seqs [.loop (ladderBitAsm B) (.bne .bitLoop),
        .block [.ldaImm 0x80, .sta (.slot .x25BitMask), .dec (.slot .x25ByteIdx)]]) s
      (ladderByteBill B L j) fun t => (t.m = ladderTurn B m (byteTurn (j + 1)) ∧
        t.stack = s.stack) ∧ (!t.nz.getLsbD 7) = decide (j + 1 < 32) := by
  have hfirst : byteTurn j < byteTurn (j + 1) ∧ byteTurn (j + 1) = 8 * j + 7 := by
    simp only [byteTurn]
    omega
  have hcount : byteTurn (j + 1) - byteTurn j ≤ 8 := by
    simp only [byteTurn]
    omega
  have hloop := Takes.loop (P := cpu B L) (D := unit B L) (c := ladderBitAsm B) (s := s)
    (k := .bne .bitLoop) (N := byteTurn (j + 1) - byteTurn j) (b := fun _ => ladderBitBill B L)
    (I := fun k t => InByte B m j k s.stack t) (by omega)
    (hcount.trans (Nat.le_of_ble_eq_true rfl))
    ⟨fun _ => hs, fun _ => by omega, rfl⟩ fun k hk t ht => by
      have htm := ht.before (by omega)
      have hat := ladderTurn_spec (i := byteTurn j + k) hr h0 (by omega)
      rw [← htm] at hat
      have hpos := ladderStepped_at hr hat (by omega)
      obtain ⟨hzero, hsame, -⟩ := ladderShift_spec hpos
      refine (ladderBit_does hr hat (by omega)).mono ?_
      rintro u ⟨hum, hunz, hus⟩
      refine ⟨⟨fun hlt => ?_, fun heq => ?_, hus.trans ht.stack⟩, ?_⟩
      · have hnext : ladderTurn B m (byteTurn j + (k + 1)) = (ladderBit B t.m).1 := by
          rw [htm]
          exact Function.iterate_succ_apply' ..
        rw [hum, hnext, ladderBit, hsame (by simp only [byteTurn] at *; omega)]
      · rw [hum, htm, show byteTurn j + k = 8 * j + 6 by omega]
      · change (u.nz != 0) = _
        rw [hunz, hum, hzero]
        exact decide_eq_decide.2 (by simp only [byteTurn] at *; omega)
  refine (Takes.seq (b := .tick 10) hloop fun t ht => ?_).cast ?_
  · -- the last turn of the byte, and the next byte
    have hat := ladderTurn_spec (i := 8 * j + 6) hr h0 (by omega)
    have hagain := (ladderBit_spec hr hat (by omega)).2.1
    have hpos := ladderStepped_at (s := { t with m := ladderTurn B m (8 * j + 6) }) hr hat (by omega)
    have hbyte : ladderBit B (ladderTurn B m (8 * j + 6)) = ladderByte B t.m := by
      rw [ht.behind (by omega), ladderBit, (ladderShift_spec hpos).2.2 (by omega)]
    rw [hbyte] at hagain
    have hnext : ladderTurn B m (byteTurn (j + 1)) = (ladderByte B t.m).1 := by
      rw [hfirst.2, ← hbyte]
      exact Function.iterate_succ_apply' ..
    refine Straight.spends (n := 10) (.of_quiet rfl trivial rfl) ⟨⟨?_, ht.stack⟩, ?_⟩
    · rw [hnext]
      rfl
    · refine Eq.trans ?_ (hagain.trans (decide_eq_decide.2 (by omega)))
      simp [ladderByte]
  · rw [Bill.sum_const, add_assoc, Bill.tick_add_tick]
    rfl

/-- What the bit loop costs. -/
def ladderLoopBill (B : Build) (L : Link) : Bill Label :=
  255 • ladderBitBill B L + .tick (223 * (3 + (L.crosses .bitLoop).toNat) + 384)
    + .tick (31 * (3 + (L.crosses .bitLoopByte).toNat) + 2)

theorem ladderLoop_bill : ((List.range 32).map (ladderByteBill B L)).sum
      + .tick (31 * (3 + (L.crosses .bitLoopByte).toNat) + 2) = ladderLoopBill B L := by
  have hturns : ((List.range 32).map fun j => byteTurn (j + 1) - byteTurn j).sum = 255 := rfl
  have hagain : ((List.range 32).map fun j => byteTurn (j + 1) - byteTurn j - 1).sum = 223 := rfl
  have hcycles : ∀ x, ((List.range 32).map fun j =>
      (byteTurn (j + 1) - byteTurn j - 1) * x + 2 + 10).sum = 223 * x + 384 := by
    intro x
    simp only [Nat.add_assoc]
    rw [List.sum_map_add, List.sum_map_mul_right, hagain]
    rfl
  have hbytes : ((List.range 32).map (ladderByteBill B L)).sum = 255 • ladderBitBill B L
      + .tick (223 * (3 + (L.crosses .bitLoop).toNat) + 384) := by
    rw [← hcycles, ← hturns, ← Bill.sum_nsmul, ← Bill.sum_add_tick]
    rfl
  rw [hbytes, ladderLoopBill]

/-- **The bit loop.** -/
theorem ladderLoop_does (hr : Ready B m) (h0 : LadderAt B m 0 m) (hs : s.m = m) :
    Does B L (ladderLoopAsm B) s (ladderLoopBill B L) (doWhile (ladderBit B) 0x800 m) := by
  rw [ladderLoop_eq hr h0, ← ladderLoop_bill]
  refine Takes.loop (N := 32) (b := ladderByteBill B L) (I := fun j (t : Core) =>
    t.m = ladderTurn B m (byteTurn j) ∧ t.stack = s.stack) (by omega)
    (Nat.le_of_ble_eq_true rfl) ⟨hs, rfl⟩ ?_
  rintro j hj t ⟨htm, hts⟩
  refine (ladderByte_does hr h0 hj htm).mono ?_
  rintro u ⟨⟨hum, hus⟩, htest⟩
  exact ⟨⟨hum, hus.trans hts⟩, htest⟩

/-! ## The end -/

/-- What is behind the bit loop. -/
def ladderFinishBill (B : Build) (L : Link) : Bill Label :=
  .tick 3 + (.tick (swapPairsCycles L) + (.tick 20 + (fe25519InvBill B L + .tick 12 +
    execBill B L finishCode)))

theorem ladderFinish_does {q : Bool} (hr : Ready B s.m)
    (hp : s.m.zp (B.slot .x25PrevBit) = mask q) :
    Does B L (ladderFinishAsm B) s (ladderFinishBill B L) (ladderFinish B s.m) := by
  have hload : Spends B L (.block [.lda (.slot .x25PrevBit)]) s (.tick 3) fun t =>
      t.m = s.m ∧ t.a = mask q ∧ t.stack = s.stack :=
    Straight.spends (.of_quiet rfl trivial rfl) ⟨rfl, hp, rfl⟩
  set m1 := swapPairs B (mask q) s.m with hm1
  set m2 := (m1.setPtr B .fe25519Src1 (B.mem.buf .x25Z2)).setPtr B .fe25519Dst
    (B.mem.buf .x25Result) with hm2
  obtain ⟨-, -, hk1⟩ := swapPairs_spec (B := B) (s := s.m) (q := q)
  have hr2 : Ready B m2 := hr.kept ((hk1.setPtr rfl rfl).setPtr rfl rfl)
  have hshow : Shows B B.mem.own _ m2 := (shows_own _).src1_set.dst_set
  have hsrc := hshow.src1 .x25Z2 rfl
  have hdst := hshow.dst .x25Result rfl
  refine Takes.seq hload ?_
  rintro t ⟨htm, hta, hts⟩
  refine Takes.seq swapPairs_does ?_
  rintro u ⟨hum, hus⟩
  rw [hta, htm, ← hm1] at hum
  have haim : Does B L (execAsm B B.mem.buf [.src1 .x25Z2, .dst .x25Result]) u (.tick 20) m2 :=
    Takes.seqTick (m := 10) (n := 10) (R := fun w => w.m = u.m.setPtr B .fe25519Src1
        (B.mem.buf .x25Z2) ∧ w.stack = u.stack) setPtr_does fun w hw =>
      setPtr_does.mono fun z hz => ⟨by rw [hz.1, hw.1, hum], hz.2.trans hw.2⟩
  refine Takes.seq haim ?_
  rintro w ⟨hwm, hws⟩
  rw [← hwm] at hr2 hsrc hdst
  refine Takes.seq (Does.call (fe25519Inv_does (s := w.push .ret) hr2 hsrc hdst)) ?_
  rintro z ⟨hzm, hzs⟩
  change z.m = fe25519Inv B w.m at hzm
  have hr4 : Ready B z.m := by
    rw [hzm]
    exact hr2.kept (fe25519Inv_spec hr2 hsrc hdst).2.2
  obtain ⟨v', hv', -⟩ := finish_eval raw (ownView B z.m)
  refine (execOwn_does (l := x25519Bufs) finishCode hr4 hv' (by decide)).mono ?_
  rintro y ⟨hym, hys⟩
  refine ⟨?_, hys.trans (hzs.trans (hws.trans (hus.trans hts)))⟩
  rw [hym, hzm, hwm, ladderFinish, hp]
  rfl

/-! ## The routines -/

/-- What a scalar multiplication costs, whatever the scalar and the
coordinate. -/
def x25519ScalarmultBill (B : Build) (L : Link) : Bill Label :=
  .tick 5 + (.tick (if B.onchip then 0 else 10) + (ladderDecodeBill B L + (ladderLoopBill B L +
    (ladderFinishBill B L + .tick 4))))

/-- **`x25519_scalarmult`.** -/
theorem x25519Scalarmult_does (hr : Ready B s.m) : Does B L (x25519ScalarmultAsm B) s
    (x25519ScalarmultBill B L) (x25519Scalarmult B s.m) := by
  obtain ⟨hr0, h0, -⟩ := ladderStart_spec hr
  have h255 := ladderTurn_spec hr0 h0 (le_refl 255)
  have hr255 := hr0.kept h255.kept
  have hsei : Spends B L (.block [.php, .sei]) s (.tick 5) fun t =>
      t.m = s.m.setFlagI true ∧ t.stack = .status s.nz s.c s.m.flagI :: s.stack :=
    Takes.block (ready_of_noPull rfl) rfl rfl ⟨rfl, rfl⟩
  refine Takes.seq hsei ?_
  rintro t ⟨htm, hts⟩
  refine Takes.seq entryStores_does ?_
  rintro u ⟨hum, hus⟩
  have hru : Ready B u.m := by
    rw [hum, htm]
    exact hr.setFlagI.kept (Kept.of_frame (D := dirty B (ownIn B [])) (entryStores_frame _))
  refine Takes.seq (ladderDecode_does hru) ?_
  rintro w ⟨hwm, hws⟩
  rw [hum, htm] at hwm
  change w.m = ladderStart B s.m at hwm
  refine Takes.seq (ladderLoop_does hr0 h0 hwm) ?_
  rintro x ⟨hxm, hxs⟩
  have hx := hxm
  rw [ladderLoop_eq hr0 h0] at hx
  have hrx : Ready B x.m := hx ▸ hr255
  refine Takes.seq (ladderFinish_does hrx (hx ▸ h255.prev)) ?_
  rintro y ⟨hym, hys⟩
  have hyst := hys.trans (hxs.trans (hws.trans (hus.trans hts)))
  obtain ⟨ya, yx, yy, ynz, yc, ystack, ym⟩ := y
  obtain rfl : ystack = _ := hyst
  refine Takes.block ⟨rfl, trivial⟩ rfl rfl ⟨?_, rfl⟩
  change ym.setFlagI s.m.flagI = _
  rw [show ym = _ from hym, hxm]
  rfl

/-- The copy of the base point. -/
def baseCopyCode : List (Instr Buf) := [.src1 .x25Basepoint, .dst .x25U, .jsr .fe25519Copy]

/-- What `x25519_base` costs. -/
def x25519BaseBill (B : Build) (L : Link) : Bill Label :=
  execBill B L baseCopyCode + (.tick 22 + .tick 12 + (x25519ScalarmultBill B L + .tick 12))

/-- **`x25519_base`.** -/
theorem x25519Base_does (hr : Ready B s.m) :
    Does B L (x25519BaseAsm B) s (x25519BaseBill B L) (x25519Base B s.m) := by
  obtain ⟨-, hk1⟩ := exec_own (l := [.x25U]) baseCopyCode hr rfl (by decide)
  have hcopy : Does B L (execAsm B B.mem.buf baseCopyCode) s (execBill B L baseCopyCode)
      (exec B B.mem.buf baseCopyCode s.m) :=
    execOwn_does (l := [.x25U]) baseCopyCode hr rfl (by decide)
  refine Takes.seq hcopy ?_
  rintro t ⟨htm, hts⟩
  refine Takes.seq (Does.call (x25519Clamp_does (s := t.push .ret))) ?_
  rintro u ⟨hum, hus⟩
  change u.m = x25519Clamp B t.m at hum
  have hru : Ready B u.m := by
    rw [hum, htm]
    exact (hr.kept hk1).kept x25519Clamp_kept
  refine (Does.call (x25519Scalarmult_does (s := u.push .ret) hru)).mono ?_
  rintro w ⟨hwm, hws⟩
  refine ⟨?_, hws.trans (hus.trans hts)⟩
  change w.m = x25519Scalarmult B u.m at hwm
  rw [hwm, hum, htm]
  rfl

end C64X25519
