import C64X25519.Helpers.Stash
import C64X25519.Model.Probe
import C64X25519.Helpers.MulTiming
import C64X25519.Model.InitAsm
/-!
# The timing of the initialisers

The table of squares by its recurrence, turn by turn, and the rows of
products behind it. Nothing an initialiser does depends on what memory
holds: its loops are counted by variables it sets itself.
-/

namespace C64X25519

open Machine

variable {B : Build} {L : Link} {s : Core} {m : Machine} {k : ℕ}

/-! ## `sqtab_init` -/

/-- The cycles of the two table bytes of index `k`. -/
def sqStoreCycles (L : Link) (k : ℕ) : ℕ :=
  if k < 0x100 then 3 + (L.crosses .sqPg0).toNat + 18 else 23

/-- The cycles of `INC lo` / `BNE` / `INC hi` behind the first `INC`. -/
def carryCycles (L : Link) (l : Label) (wraps : Prop) [Decidable wraps] : ℕ :=
  if wraps then 8 else 3 + (L.crosses l).toNat

/-- The cycles of turn `k`, up to the test. -/
def sqtabBodyCycles (L : Link) (k : ℕ) : ℕ :=
  56 + (sqStoreCycles L k + (26 + (carryCycles L .sqAdNoCarry False +
    (42 + (carryCycles L .sqINoCarry (k % 0x100 = 0xff) + 6)))))

/-- The two bytes of an index below 512. -/
theorem index_bytes (h : word .sqI0 .sqI1 m = k) (hk : k < 0x200) :
    (m.var .sqI0).toNat = k % 0x100 ∧ (m.var .sqI1 = 0 ↔ k < 0x100) := by
  have hlo := (m.var .sqI0).isLt
  rw [word] at h
  refine ⟨by omega, fun h0 => ?_, fun hlt => BitVec.eq_of_toNat_eq ?_⟩
  · rw [h0] at h
    change _ + 256 * 0 = k at h
    omega
  · change (m.var .sqI1).toNat = 0
    omega

/-- Two bytes into a page of each table. -/
theorem sqPage_spends {lo hi : ℕ} (hlo : lo + 0x100 ≤ 0x10000) (hhi : hi + 0x100 ≤ 0x10000) :
    Does B L (sqPageAsm lo hi) s (.tick 18) ((s.m.setRam (lo + s.x.toNat) (s.m.var .sqSh0)).setRam
      (hi + s.x.toNat) (s.m.var .sqSh1)) := by
  have hx := s.x.isLt
  have h1 : indexed lo s.x.toNat = lo + s.x.toNat := Nat.mod_eq_of_lt (by omega)
  have h2 : indexed hi s.x.toNat = hi + s.x.toNat := Nat.mod_eq_of_lt (by omega)
  exact Straight.spends (.of_quiet rfl trivial rfl) ⟨by simp [h1, h2], rfl⟩

/-- The store of a turn. -/
theorem sqStore_spends (h : word .sqI0 .sqI1 s.m = k) (hk : k < 0x200) (hx : s.x = s.m.var .sqI0)
    (hz : s.nz = s.m.var .sqI1) :
    Does B L (.either (.beq .sqPg0) (sqPageAsm (B.mem.sqtabLo + 0x100) (B.mem.sqtabHi + 0x100))
      (sqPageAsm B.mem.sqtabLo B.mem.sqtabHi)) s (.tick (sqStoreCycles L k)) (sqStore B s.m) := by
  obtain ⟨-, hpage⟩ := index_bytes h hk
  have hpl := B.mem.placed_sqtab
  have hlo : B.mem.sqtabLo + 0x200 ≤ 0x10000 ∧ B.mem.sqtabHi + 0x200 ≤ 0x10000 := by
    simp only [MemMap.sqtabLo, MemMap.sqtabHi]
    omega
  rw [sqStoreCycles, sqStore]
  by_cases hlt : k < 0x100
  · have h0 := hpage.2 hlt
    have htest : (cpu B L).test (.beq .sqPg0) s = true := by
      change (s.nz == 0) = true
      rw [hz, h0]
      rfl
    rw [if_pos hlt, if_pos h0, ← hx]
    refine (Takes.either_taken htest (sqPage_spends (by omega) (by omega))).cast ?_
    rw [Bill.tick_add_tick, Nat.add_comm]
    rfl
  · have h0 : s.m.var .sqI1 ≠ 0 := fun h0 => hlt (hpage.1 h0)
    have htest : (cpu B L).test (.beq .sqPg0) s = false := by
      change (s.nz == 0) = false
      rw [hz]
      exact beq_false_of_ne h0
    rw [if_neg hlt, if_neg h0, ← hx]
    exact (Takes.either_through htest (sqPage_spends (by omega) (by omega))).cast rfl

/-- The carry of an increment. -/
theorem carry_spends {l : Label} {hi lo : Var} {wraps : Prop} [Decidable wraps]
    (hz : s.nz = s.m.var lo) (hw : s.m.var lo = 0 ↔ wraps) :
    Does B L (.skip (.bne l) (.block [.inc (.var hi)])) s (.tick (carryCycles L l wraps))
      (if s.m.var lo = 0 then s.m.setVar hi (s.m.var hi + 1) else s.m) := by
  rw [carryCycles]
  by_cases h : wraps
  · have h0 := hw.2 h
    have htest : (cpu B L).test (.bne l) s = false := by
      change (s.nz != 0) = false
      rw [hz, h0]
      rfl
    rw [if_pos h, if_pos h0]
    have hinc : Does B L (.block [.inc (.var hi)]) s (.tick 6) (s.m.setVar hi (s.m.var hi + 1)) :=
      Straight.spends (.of_quiet rfl trivial rfl) ⟨rfl, rfl⟩
    exact (Takes.skip_through htest hinc).cast rfl
  · have h0 : s.m.var lo ≠ 0 := fun h0 => h (hw.1 h0)
    have htest : (cpu B L).test (.bne l) s = true := by
      change (s.nz != 0) = true
      rw [hz]
      exact bne_iff_ne.2 h0
    rw [if_neg h, if_neg h0]
    exact Takes.skip_taken htest ⟨rfl, rfl⟩

/-- A doubled byte and one is not zero. -/
theorem asl_add_one_ne (v : Byte) : (asl v).1 + 1 ≠ 0 := by
  intro h
  have hlo := congrArg BitVec.toNat h
  have hv := asl_val v
  have hb := (asl v).1.isLt
  change ((asl v).1.toNat + 1) % 256 = 0 at hlo
  omega

/-- A byte that wraps. -/
theorem add_one_eq_zero_iff {v : Byte} : v + 1 = 0 ↔ v.toNat = 0xff := by
  constructor
  · intro h
    have hlo := congrArg BitVec.toNat h
    have hv := v.isLt
    change (v.toNat + 1) % 256 = 0 at hlo
    omega
  · intro h
    obtain rfl : v = 0xff := BitVec.eq_of_toNat_eq h
    rfl

/-- `INC lo`, and the carry behind it. -/
theorem incVar_eq (lo hi : Var) : incVar lo hi m = (fun m : Machine =>
    if m.var lo = 0 then m.setVar hi (m.var hi + 1) else m) (m.setVar lo (m.var lo + 1)) := rfl

theorem sqShift_index : (sqShift m).var .sqI0 = m.var .sqI0 ∧
    (sqShift m).var .sqI1 = m.var .sqI1 := by
  obtain ⟨-, -, h, -⟩ := sqShift_spec (s := m)
  exact ⟨h _ (by decide) (by decide) (by decide), h _ (by decide) (by decide) (by decide)⟩

/-- `2 * sq_i`. -/
def sqTerm (m : Machine) : Machine :=
  let r := asl (m.var .sqI0)
  let m := m.setVar .sqAd0 r.1
  m.setVar .sqAd1 (rol (m.var .sqI1) r.2).1

/-- `sq_acc += sq_ad`. -/
def sqSum (m : Machine) : Machine :=
  let r := adc (m.var .sqAcc0) (m.var .sqAd0) false
  let m := m.setVar .sqAcc0 r.1
  let r := adc (m.var .sqAcc1) (m.var .sqAd1) r.2
  let m := m.setVar .sqAcc1 r.1
  m.setVar .sqAcc2 (adc (m.var .sqAcc2) 0 r.2).1

theorem sqAdvance_eq : sqAdvance m = sqSum (incVar .sqAd0 .sqAd1 (sqTerm m)) := rfl

theorem sqAdvance_index : (sqAdvance m).var .sqI0 = m.var .sqI0 ∧
    (sqAdvance m).var .sqI1 = m.var .sqI1 := by
  have hinc : ∀ (u : Machine) (x : Var), x ≠ .sqAd0 → x ≠ .sqAd1 →
      (incVar .sqAd0 .sqAd1 u).var x = u.var x := by
    intro u x h0 h1
    rw [incVar_eq]
    dsimp only
    split <;> simp [h0, h1]
  rw [sqAdvance_eq]
  exact ⟨by simp [sqSum, hinc, sqTerm], by simp [sqSum, hinc, sqTerm]⟩

/-- **A turn of `sqtab_init`.** -/
theorem sqtabBody_spends (h : word .sqI0 .sqI1 s.m = k) (hk : k < 0x200) :
    Spends B L (sqtabBodyAsm B) s (.tick (sqtabBodyCycles L k)) fun t =>
      t.m = (sqtabBody B s.m).1 ∧ t.nz = (sqtabBody B s.m).1.var .sqI1 - 2 ∧
        t.stack = s.stack := by
  obtain ⟨hI0, hI1⟩ := sqShift_index (m := s.m)
  refine Takes.seqTick (R := fun t => t.m = sqShift s.m ∧ t.x = (sqShift s.m).var .sqI0 ∧
    t.nz = (sqShift s.m).var .sqI1 ∧ t.stack = s.stack)
    (Straight.spends (.of_quiet rfl trivial rfl) ⟨rfl, rfl, rfl, rfl⟩) ?_
  rintro t ⟨htm, htx, htz, hts⟩
  have hword : word .sqI0 .sqI1 t.m = k := by rw [htm, word, hI0, hI1]; exact h
  refine Takes.seqTick (sqStore_spends hword hk (by rw [htx, htm]) (by rw [htz, htm])) ?_
  rintro u ⟨hum, hus⟩
  rw [htm] at hum
  have hu0 : word .sqI0 .sqI1 u.m = k := by
    rw [hum, sqStore_eq (by rw [← htm]; exact hword) hk]
    rw [htm] at hword
    exact hword
  -- the term, two of the index and one
  set a := sqTerm u.m with ha
  refine Takes.seqTick (R := fun v => v.m = a.setVar .sqAd0 (a.var .sqAd0 + 1) ∧
    v.nz = a.var .sqAd0 + 1 ∧ v.stack = u.stack)
    (Straight.spends (.of_quiet rfl trivial rfl) ⟨rfl, rfl, rfl⟩) ?_
  rintro v ⟨hvm, hvz, hvs⟩
  have hne : v.m.var .sqAd0 = 0 ↔ False :=
    iff_false_intro (by rw [hvm, setVar_var_self]; exact asl_add_one_ne _)
  refine Takes.seqTick (carry_spends (by rw [hvz, hvm, setVar_var_self]) hne) ?_
  rintro w ⟨hwm, hws⟩
  -- the sum, and the index
  set b := sqAdvance u.m with hb
  have hsum : sqSum w.m = b := by rw [hb, sqAdvance_eq, hwm, hvm, incVar_eq]
  obtain ⟨hb0, -⟩ := sqAdvance_index (m := u.m)
  refine Takes.seqTick (R := fun x => x.m = b.setVar .sqI0 (b.var .sqI0 + 1) ∧
    x.nz = b.var .sqI0 + 1 ∧ x.stack = w.stack)
    (Straight.spends (.of_quiet rfl trivial rfl) ⟨by rw [← hsum]; rfl, by rw [← hsum]; rfl, rfl⟩) ?_
  rintro x ⟨hxm, hxz, hxs⟩
  have hwrap : x.m.var .sqI0 = 0 ↔ k % 0x100 = 0xff := by
    rw [hxm, setVar_var_self, hb0, ← (index_bytes hu0 hk).1]
    exact add_one_eq_zero_iff
  refine Takes.seqTick (carry_spends (by rw [hxz, hxm, setVar_var_self]) hwrap) ?_
  rintro y ⟨hym, hys⟩
  have hbody : (sqtabBody B s.m).1 = y.m := by
    rw [hym, hxm, hb, hum]
    rfl
  rw [hbody]
  exact Straight.spends (.of_quiet rfl trivial rfl)
    ⟨rfl, rfl, hys.trans (hxs.trans (hws.trans (hvs.trans (hus.trans hts))))⟩

/-- Where the loop begins. -/
theorem sqAt_zero : SqAt B m 0 (((((m.setVar .sqAcc0 0).setVar .sqAcc1 0).setVar .sqAcc2 0).setVar
    .sqI0 0).setVar .sqI1 0) where
  acc := rfl
  idx := rfl
  lo n hn := by omega
  hi n hn := by omega
  sh n hn := by omega
  ad n hn := by omega
  reu := rfl
  boot := (((((Boot.refl m).setVar (by decide)).setVar (by decide)).setVar (by decide)).setVar
    (by decide)).setVar (by decide)

/-- What `sqtab_init` costs. -/
def sqtabInitCycles (L : Link) : ℕ :=
  22 + (((List.range 0x200).map (sqtabBodyCycles L)).sum +
    (511 * 5 + (3 + (L.crosses .sqDone).toNat)))

/-- The zero flag of a comparison. -/
theorem sub_beq_zero (v w : Byte) : (v - w == 0) = !(v != w) := by
  rw [bne, Bool.not_not, Bool.eq_iff_iff, beq_iff_eq, beq_iff_eq, BitVec.sub_eq_iff_eq_add]
  exact Eq.congr_right (BitVec.zero_add w)

theorem sqtabBody_again : (sqtabBody B m).2 = ((sqtabBody B m).1.var .sqI1 != 2) := by
  simp only [sqtabBody]

/-- **`sqtab_init`.** -/
theorem sqtabInit_does :
    Does B L (sqtabInitAsm B) s (.tick (sqtabInitCycles L)) (sqtabInit B s.m) := by
  set m0 := ((((s.m.setVar .sqAcc0 0).setVar .sqAcc1 0).setVar .sqAcc2 0).setVar .sqI0 0).setVar
    .sqI1 0 with hm0
  have h0 : SqAt B s.m 0 m0 := sqAt_zero
  unfold sqtabInitCycles
  refine Takes.seqTick (R := fun t => t.m = m0 ∧ t.stack = s.stack)
    (Straight.spends (.of_quiet rfl trivial rfl) ⟨rfl, rfl⟩) ?_
  rintro t ⟨htm, hts⟩
  refine ((Takes.loopUntil_doWhile (N := 0x200) (m := 0x10000) (f := sqtabBody B) (v := Core.m)
    (J := SqAt B s.m) (K := fun _ u => u.stack = s.stack)
    (b := fun k => .tick (sqtabBodyCycles L k)) (by omega) (Nat.le_refl _) (by omega)
    (by rw [htm]; exact h0) hts (fun k hk u hu => sqtabBody_spec hu hk) ?_).cast ?_).mono ?_
  · intro k hk u hu hus
    refine (sqtabBody_spends hu.idx hk).mono ?_
    rintro v ⟨hvm, hvz, hvs⟩
    refine ⟨hvm, ?_, hvs.trans hus⟩
    change (v.nz == 0) = _
    rw [hvz, sub_beq_zero, sqtabBody_again]
  · have hout : (0x200 - 1) * ((cpu B L).through (.beq .sqDone) + (cpu B L).jmp)
        + (cpu B L).taken (.beq .sqDone) = 511 * 5 + (3 + (L.crosses .sqDone).toNat) := rfl
    rw [Bill.sum_tick, Bill.tick_add_tick, hout]
  · rintro u ⟨hum, hus⟩
    exact ⟨by rw [hum, htm, sqtabInit], hus⟩

/-! ## Rows into the expansion unit -/

/-- A byte counted up. -/
theorem add_one_bne {v : Byte} (hv : v.toNat = k) : (v + 1 != 0) = decide (k + 1 < 0x100) := by
  have hlt := v.isLt
  rw [Bool.eq_iff_iff, bne_iff_ne, ne_eq, add_one_eq_zero_iff, hv, decide_eq_true_iff]
  omega

/-- One turn of the doubling. -/
theorem doubleEntry_spends (hx : s.x.toNat = k) :
    Spends B L (.block (doubleEntryAsm B ++ [.inx])) s (.tick 39) fun t =>
      t.m = doubleEntry B k s.m ∧ t.x = s.x + 1 ∧ t.nz = s.x + 1 ∧ t.stack = s.stack := by
  subst hx
  have hlo := mulDmaLo_within (B := B)
  have hhi := mulDmaHi_within (B := B)
  have hc := mulDmaCarry_within (B := B)
  refine Straight.spends (.of_quiet rfl ?_ (by simp [doubleEntryAsm])) ⟨?_, rfl, rfl, rfl⟩
  · exact And.intro (hhi _) (And.intro (hlo _) (hhi _))
  · simp [doubleEntryAsm, doubleEntry, fun i => (hlo i).indexed, fun i => (hhi i).indexed,
      fun i => (hc i).indexed]

/-- The doubling of a staged row. -/
theorem doubleRow_does (hx : s.x = 0) :
    Does B L (.loop (.block (doubleEntryAsm B ++ [.inx])) (.bne .dblLoop)) s
      (.tick (loopCycles L .dblLoop 0x100 39)) (loopUp (doubleEntry B) 0x100 s.m) := by
  refine ((Takes.loop (N := 0x100) (b := fun _ => .tick 39) (I := fun j t =>
    t.m = loopUp (doubleEntry B) j s.m ∧ (j < 0x100 → t.x.toNat = j) ∧ t.stack = s.stack)
    (by omega) (Nat.le_of_ble_eq_true rfl) ⟨loopUp_zero.symm, fun _ => by rw [hx]; rfl, rfl⟩
    ?_).cast (loop_bill .dblLoop 0x100 39)).mono fun t ht => ⟨ht.1, ht.2.2⟩
  rintro j hj t ⟨htm, htx, hts⟩
  refine (doubleEntry_spends (htx hj)).mono ?_
  rintro u ⟨hum, hux, huz, hus⟩
  refine ⟨⟨by rw [hum, htm, loopUp_succ], fun hlt => ?_, hus.trans hts⟩, ?_⟩
  · rw [hux]
    exact toNat_add_one (htx hj) (by omega)
  · change (u.nz != 0) = _
    rw [huz]
    exact add_one_bne (htx hj)

/-- A page stashed, behind `n` cycles. -/
def stashBill (L : Link) (live : Bool) (n : ℕ) (l : Label) : Bill Label :=
  .tick (n + (4 + L.moved live 0x100)) + .wait l

/-- What the three stashes of a doubled row cost, with the doubling. -/
def dblStashBill (L : Link) (live : Bool) : Bill Label :=
  .tick 2 + (.tick (loopCycles L .dblLoop 0x100 39) + (stashBill L live 60 .dblLoSettle +
    (stashBill L live 62 .dblHiSettle + stashBill L live 50 .dblCarrySettle)))

theorem stash_live : (stash B m).reu.live = m.reu.live := by
  rw [stash, (reuSettle_settles _).live, reuCommand_live]

/-- The listing of a stash of a page. -/
theorem stash_does {ops : List Op} {l : Label} {n : ℕ} {live : Bool}
    (h : Straight B L (ops ++ [.ldaImm 0b10110000]) n s) (hm : ((cpu B L).exec ops s).m = m)
    (hlive : m.reu.live = live) (h0 : m.reu.reg .lenLo = 0) (h1 : m.reu.reg .lenHi = 1) :
    Does B L (transferAsm B ops 0b10110000 l) s (stashBill L live n l) (stash B m) := by
  rw [stash, ← hm]
  subst hm
  exact transfer_spends h hlive (len_of_regs (k := 1) h0 h1 (by decide))

/-- **`X25519_DBL_STASH_ROW`.** -/
theorem x25519DblStashRow_does {row : Var} {live : Bool} (hlive : s.m.reu.live = live) :
    Does B L (x25519DblStashRowAsm B row) s (dblStashBill L live)
      (x25519DblStashRow B row s.m) := by
  unfold x25519DblStashRow
  extract_lets s0 s1 r s2 s3 s4 u1 s5 r' s6 s7 u2 s8 s9 s10
  have hl0 : s0.reu.live = live :=
    loopUp_inv (fun _ (m : Machine) => m.reu.live = live) hlive fun _ _ _ hm => hm
  have hl4 : s4.reu.live = live := by simp [s4, s3, s2, s1, writeC64, hl0]
  have hl7 : s7.reu.live = live := by simp [s7, s6, s5, writeC64, u1, stash_live, hl4]
  have hl10 : s10.reu.live = live := by simp [s10, s9, s8, writeC64, u2, stash_live, hl7]
  have hrow : ∀ t : Core, t.m = s.m → t.x = 0 → Does B L
      (.loop (.block (doubleEntryAsm B ++ [.inx])) (.bne .dblLoop)) t
      (.tick (loopCycles L .dblLoop 0x100 39)) s0 := by
    intro t htm htx
    rw [show s0 = _ from congrArg (loopUp (doubleEntry B) 0x100) htm.symm]
    exact doubleRow_does htx
  refine Takes.seq (R := fun t => t.m = s.m ∧ t.x = 0 ∧ t.stack = s.stack)
    (Straight.spends (.of_quiet rfl trivial rfl) ⟨rfl, rfl, rfl⟩) ?_
  rintro t ⟨htm, htx, hts⟩
  refine Takes.seq (hrow t htm htx) ?_
  rintro u ⟨hum, hus⟩
  refine Takes.seq (stash_does (m := s4.writeReg .addrCtrl 0)
    (.of_quiet rfl trivial (by simp [staC64Asm])) ?_ (by simp [hl4]) ?_ ?_) ?_
  · simp [staC64Asm, hum, writeC64, s4, s3, s2, r, s1]
  · simp [s4]
  · simp [s4]
  rintro v ⟨hvm, hvs⟩
  refine Takes.seq (stash_does
    (m := ((s7.writeReg .lenLo 0).writeReg .lenHi 1).writeReg .addrCtrl 1)
    (.of_quiet rfl trivial (by simp [staC64Asm])) ?_ (by simp [hl7]) ?_ ?_) ?_
  · simp [staC64Asm, hvm, writeC64, u1, s7, s6, r', s5]
  · simp
  · simp
  rintro w ⟨hwm, hws⟩
  refine Takes.mono (stash_does (m := ((s10.writeReg .lenLo 0).writeReg .lenHi 1).writeReg
    .addrCtrl 1) (.of_quiet rfl trivial (by simp [staC64Asm])) ?_ (by simp [hl10]) ?_ ?_) ?_
  · simp [staC64Asm, hwm, writeC64, u2, s10, s9, s8]
  · simp
  · simp
  rintro x ⟨hxm, hxs⟩
  exact ⟨hxm, hxs.trans (hws.trans (hvs.trans (hus.trans hts)))⟩

/-- The fetch latch as the initialisers leave it. -/
theorem restoreFetchLatch_does :
    Does B L (restoreFetchLatchAsm B) s (.tick 32) (restoreFetchLatch B s.m) :=
  Straight.spends (.of_quiet rfl trivial (by simp [staC64Asm]))
    ⟨by simp [staC64Asm, restoreFetchLatch, writeC64], rfl⟩

/-! ## `reu_mul_init` -/

/-- **An entry of a row**: the product of the baked byte and `reu_init_b`. -/
theorem reuMulEntry_spends : Spends B L (reuMulEntryAsm B) s
    (.tick (4 + (ctMul8x8Cycles + 12 + 28))) fun t => t.m = (reuMulEntry B s.m).1 ∧
      t.nz = (reuMulEntry B s.m).1.var .reuInitB ∧ t.stack = s.stack := by
  refine Takes.seqTick (R := fun t => t.m = s.m ∧ t.y = s.m.var .reuInitB ∧ t.stack = s.stack)
    (Straight.spends (.of_quiet rfl trivial rfl) ⟨rfl, rfl, rfl⟩) ?_
  rintro t ⟨htm, hty, hts⟩
  have hcall : Does B L (.call (ctMul8x8Asm B)) t (.tick (ctMul8x8Cycles + 12))
      (ctMul8x8 B t.y t.m) := Does.call (ctMul8x8_does (s := t.push .ret))
  refine Takes.seqTick hcall ?_
  rintro u ⟨hum, hus⟩
  have hb : u.m.var .reuInitB = s.m.var .reuInitB := by
    rw [hum, htm]
    simp [ctMul8x8]
  rw [hty, htm] at hum
  refine Straight.spends (.of_quiet rfl trivial (by simp)) ⟨?_, ?_, hus.trans hts⟩
  · simp [reuMulEntry, ← hum, hb, fun i => (mulDmaLo_within (B := B) i).indexed,
      fun i => (mulDmaHi_within (B := B) i).indexed]
  · simp [reuMulEntry, ← hum, hb]

/-! ## What the loops are counted by -/

/-- A loop counted by the byte `x`, from 0 through all of its values. -/
theorem byteCount_step {f : Machine → Machine × Bool} {x : Var}
    (hx : (f m).1.var x = m.var x + 1) (hagain : (f m).2 = ((f m).1.var x != 0))
    (h : (m.var x).toNat = k) :
    (k + 1 < 0x100 → ((f m).1.var x).toNat = k + 1) ∧ (f m).2 = decide (k + 1 < 0x100) := by
  refine ⟨fun hlt => ?_, ?_⟩
  · rw [hx]
    exact toNat_add_one h (by omega)
  · rw [hagain, hx]
    exact add_one_bne h

/-- From `m` to `t` the variable `x` and the presence of a unit are the
same. -/
structure Steady (x : Var) (m t : Machine) : Prop where
  var : t.var x = m.var x
  live : t.reu.live = m.reu.live

namespace Steady

variable {x y : Var} {t u : Machine} {v : Byte} {a : ℕ} {l : List Site} {r : Reg}

theorem refl (m : Machine) : Steady x m m := ⟨rfl, rfl⟩

theorem trans (h : Steady x m t) (h' : Steady x t u) : Steady x m u :=
  ⟨h'.var.trans h.var, h'.live.trans h.live⟩

theorem setVar (hy : x ≠ y) (h : Steady x m t) : Steady x m (t.setVar y v) :=
  ⟨(setVar_var_of_ne hy).trans h.var, h.live⟩

theorem setRam (h : Steady x m t) : Steady x m (t.setRam a v) := ⟨h.var, h.live⟩

theorem patchLo (h : Steady x m t) : Steady x m (t.patchLo l v) := ⟨h.var, h.live⟩

theorem patchHi (h : Steady x m t) : Steady x m (t.patchHi l v) := ⟨h.var, h.live⟩

theorem writeReg (h : Steady x m t) : Steady x m (t.writeReg r v) := ⟨h.var, h.live⟩

theorem writeC64 (h : Steady x m t) : Steady x m (writeC64 a t) := h.writeReg.writeReg

/-- A transfer, with the settle behind it. -/
theorem transfer {cmd : Byte} (hx : x ∉ settleVars) (h : Steady x m t) :
    Steady x m (reuSettle B (t.reuCommand cmd)) := by
  have hset := reuSettle_settles (B := B) (t.reuCommand cmd)
  simp only [settleVars, List.mem_cons, List.not_mem_nil, or_false, not_or] at hx
  have hcmd : (t.reuCommand cmd).var = t.var := by
    rw [reuCommand]
    split <;> rfl
  refine ⟨?_, ?_⟩
  · rw [hset.var x hx.1 hx.2.1 hx.2.2, hcmd, h.var]
  · rw [hset.live, reuCommand_live, h.live]

theorem stash (hx : x ∉ settleVars) (h : Steady x m t) : Steady x m (stash B t) := h.transfer hx

end Steady

theorem reuMulEntry_counts : (reuMulEntry B m).1.var .reuInitB = m.var .reuInitB + 1 ∧
    (reuMulEntry B m).2 = ((reuMulEntry B m).1.var .reuInitB != 0) := by
  simp [reuMulEntry, ctMul8x8]

theorem reuMulEntry_steady : Steady .reuInitA m (reuMulEntry B m).1 := by
  unfold reuMulEntry ctMul8x8
  extract_lets sum lo m1 hi m2 diff m3 mask m4 abs pl m5 ph m6 x m7 m8 m9
  have h3 : Steady .reuInitA m m3 := (Steady.refl m).patchHi.patchHi.setVar (by decide)
  have h5 : Steady .reuInitA m m5 := (h3.setVar (by decide)).setVar (by decide)
  have h6 : Steady .reuInitA m m6 := h5.setVar (by decide)
  exact h6.setRam.setRam.setVar (by decide)

theorem reuMulStash_steady : Steady .reuInitA m (reuMulStash B m) := by
  unfold reuMulStash
  extract_lets m1 r m2 m3 m4 m5 r' m6 m7
  have h1 : Steady .reuInitA m m1 := (Steady.refl m).writeC64.writeReg
  have h3 : Steady .reuInitA m m3 := h1.writeReg.writeReg
  have h4 : Steady .reuInitA m m4 := h3.writeReg.writeReg.writeReg.stash (by decide)
  have h7 : Steady .reuInitA m m7 := h4.writeC64.writeReg.writeReg.writeReg
  exact h7.writeReg.writeReg.writeReg.stash (by decide)

theorem x25519DblStashRow_steady {x row : Var} (hx : x ∉ settleVars) :
    Steady x m (x25519DblStashRow B row m) := by
  unfold x25519DblStashRow
  extract_lets s0 s1 r s2 s3 s4 u1 s5 r' s6 s7 u2 s8 s9 s10
  have h0 : Steady x m s0 :=
    loopUp_inv (fun _ t => Steady x m t) (Steady.refl m) fun _ _ _ ht => ht.setRam.setRam.setRam
  have h4 : Steady x m s4 := h0.writeC64.writeReg.writeReg.writeReg.writeReg.writeReg.writeReg
  have h5 : Steady x m u1 := h4.writeReg.stash hx
  have h7 : Steady x m s7 := h5.writeC64.writeReg.writeReg.writeReg
  have h8 : Steady x m u2 := h7.writeReg.writeReg.writeReg.stash hx
  have h10 : Steady x m s10 := h8.writeC64.writeReg.writeReg.writeReg
  exact h10.writeReg.writeReg.writeReg.stash hx

/-! ## `reu_mul_init`, row by row -/

/-- The cycles of a row of products. -/
def reuMulRowCycles (L : Link) : ℕ := loopCycles L .initInner 0x100 (4 + (ctMul8x8Cycles + 12 + 28))

/-- A row of products. -/
theorem reuMulRow_does (h0 : s.m.var .reuInitB = 0) :
    Does B L (.loop (reuMulEntryAsm B) (.bne .initInner)) s (.tick (reuMulRowCycles L))
      (doWhile (reuMulEntry B) 0x100 s.m) := by
  refine ((Takes.loop_doWhile (N := 0x100) (f := reuMulEntry B) (v := Core.m)
    (J := fun j m => j < 0x100 → (m.var .reuInitB).toNat = j) (K := fun _ t => t.stack = s.stack)
    (b := fun _ => .tick (4 + (ctMul8x8Cycles + 12 + 28))) (by omega) (Nat.le_of_ble_eq_true rfl)
    (Nat.le_refl _) (fun _ => by rw [h0]; rfl) rfl ?_ ?_).cast (loop_bill .initInner 0x100 _))
  · intro j hj m hm
    exact byteCount_step reuMulEntry_counts.1 reuMulEntry_counts.2 (hm hj)
  · intro j hj t ht hts
    refine reuMulEntry_spends.mono ?_
    rintro u ⟨hum, huz, hus⟩
    refine ⟨hum, ?_, hus.trans hts⟩
    change (u.nz != 0) = _
    rw [huz, reuMulEntry_counts.2]

/-- What the two stashes of a row cost. -/
def reuMulStashBill (L : Link) (live : Bool) : Bill Label :=
  stashBill L live 56 .initLoSettle + stashBill L live 64 .initHiSettle

theorem reuMulStash_does {d : Bool} (hlive : s.m.reu.live = d) :
    Does B L (reuMulStashAsm B) s (reuMulStashBill L d) (reuMulStash B s.m) := by
  unfold reuMulStash
  extract_lets s1 r s2 s3 s4 s5 r' s6 s7
  have hl3 : s3.reu.live = d := by simp [s3, s2, s1, writeC64, hlive]
  have hl7 : s7.reu.live = d := by simp [s7, s6, s5, writeC64, s4, stash_live, hl3]
  refine Takes.seq (stash_does
    (m := ((s3.writeReg .lenLo 0).writeReg .lenHi 1).writeReg .addrCtrl 0)
    (.of_quiet rfl trivial (by simp [staC64Asm])) ?_ (by simp [hl3]) ?_ ?_) ?_
  · simp [staC64Asm, writeC64, s3, s2, r, s1]
  · simp
  · simp
  rintro t ⟨htm, hts⟩
  refine Takes.mono (stash_does (m := ((s7.writeReg .lenLo 0).writeReg .lenHi 1).writeReg
    .addrCtrl 0) (.of_quiet rfl trivial (by simp [staC64Asm])) ?_ (by simp [hl7]) ?_ ?_) ?_
  · simp [staC64Asm, htm, writeC64, s4, s7, s6, r', s5]
  · simp
  · simp
  rintro u ⟨hum, hus⟩
  exact ⟨hum, hus.trans hts⟩

/-- What a turn of `@outer` costs. -/
def reuMulOuterBill (B : Build) (L : Link) (live : Bool) : Bill Label :=
  .tick 18 + (.tick (reuMulRowCycles L) + (reuMulStashBill L live +
    ((if B.sqrDmaK ≠ 0 then dblStashBill L live else 0) + .tick 6)))

/-- The doubled row behind the row, where the build has one. -/
theorem dblRow_does {d : Bool} (hlive : s.m.reu.live = d) :
    Does B L (if B.sqrDmaK ≠ 0 then x25519DblStashRowAsm B .reuInitA else .block []) s
      (if B.sqrDmaK ≠ 0 then dblStashBill L d else 0)
      (if B.sqrDmaK ≠ 0 then x25519DblStashRow B .reuInitA s.m else s.m) := by
  by_cases hK : B.sqrDmaK ≠ 0
  · rw [if_pos hK, if_pos hK, if_pos hK]
    exact x25519DblStashRow_does hlive
  · rw [if_neg hK, if_neg hK, if_neg hK]
    exact Straight.spends (.of_quiet rfl trivial rfl) ⟨rfl, rfl⟩

/-- **A turn of `@outer`**: the row, its stashes and its double. -/
theorem reuMulOuter_spends {d : Bool} (hlive : s.m.reu.live = d) :
    Spends B L (reuMulOuterAsm B) s (reuMulOuterBill B L d) fun t =>
      t.m = (reuMulOuter B s.m).1 ∧ t.nz = (reuMulOuter B s.m).1.var .reuInitA ∧
        t.stack = s.stack := by
  unfold reuMulOuter
  extract_lets m1 m2 m3 m4 m5 m6
  have hl4 : m4.reu.live = d := by
    have hrow : Steady .reuInitA m2 m3 :=
      doWhile_preserves (Steady .reuInitA m2) (.refl m2) fun _ ht => ht.trans reuMulEntry_steady
    exact ((hrow.trans reuMulStash_steady).live).trans hlive
  have hl3 : m3.reu.live = d := by rw [← hl4, reuMulStash_steady.live]
  refine Takes.seq (R := fun t => t.m = m2 ∧ t.stack = s.stack)
    (Straight.spends (.of_quiet rfl trivial (by simp)) ⟨?_, rfl⟩) ?_
  · simp [m2, m1, patchLo_append]
  rintro t ⟨htm, hts⟩
  refine Takes.seq (reuMulRow_does (by rw [htm]; exact setVar_var_self)) ?_
  rintro u ⟨hum, hus⟩
  rw [htm] at hum
  refine Takes.seq (reuMulStash_does (by rw [hum]; exact hl3)) ?_
  rintro v ⟨hvm, hvs⟩
  rw [hum] at hvm
  refine Takes.seq (dblRow_does (by rw [hvm]; exact hl4)) ?_
  rintro w ⟨hwm, hws⟩
  rw [hvm] at hwm
  refine Straight.spends (.of_quiet rfl trivial rfl) ⟨?_, ?_, ?_⟩
  · simp [hwm, m6, m5, m4, m3]
  · simp [hwm, m6, m5, m4, m3]
  · exact hws.trans (hvs.trans (hus.trans hts))

theorem reuMulOuter_counts : (reuMulOuter B m).1.var .reuInitA = m.var .reuInitA + 1 ∧
    (reuMulOuter B m).1.reu.live = m.reu.live ∧
    (reuMulOuter B m).2 = ((reuMulOuter B m).1.var .reuInitA != 0) := by
  unfold reuMulOuter
  extract_lets m1 m2 m3 m4 m5 m6
  have h2 : Steady .reuInitA m m2 := (Steady.refl m).patchLo.setVar (by decide)
  have h3 : Steady .reuInitA m m3 :=
    doWhile_preserves (Steady .reuInitA m) h2 fun _ ht => ht.trans reuMulEntry_steady
  have h4 : Steady .reuInitA m m4 := h3.trans reuMulStash_steady
  have h5 : Steady .reuInitA m m5 := by
    simp only [m5]
    split
    · exact h4.trans (x25519DblStashRow_steady (by decide))
    · exact h4
  refine ⟨?_, h5.live, rfl⟩
  rw [← h5.var]
  exact setVar_var_self

/-- What a loop of 256 turns with the branch out of it costs. -/
def rowsBill (L : Link) (b : Bill Label) (l : Label) : Bill Label :=
  0x100 • b + .tick (255 * 5 + (3 + (L.crosses l).toNat))

/-- **The loop over the rows**, counted by the byte `x` from 0. -/
theorem rows_does {a : Asm} {f : Machine → Machine × Bool} {x : Var} {b : Bool → Bill Label}
    {l : Label} {d : Bool} (hx : s.m.var x = 0) (hlive : s.m.reu.live = d)
    (hf : ∀ m, (f m).1.var x = m.var x + 1 ∧ (f m).1.reu.live = m.reu.live ∧
      (f m).2 = ((f m).1.var x != 0))
    (hturn : ∀ t : Core, t.m.reu.live = d → Spends B L a t (b d) fun u =>
      u.m = (f t.m).1 ∧ u.nz = (f t.m).1.var x ∧ u.stack = t.stack) :
    Does B L (.loopUntil a (.beq l)) s (rowsBill L (b d) l) (doWhile f 0x100 s.m) := by
  refine (Takes.loopUntil_doWhile (N := 0x100) (f := f) (v := Core.m)
    (J := fun j m => (j < 0x100 → (m.var x).toNat = j) ∧ m.reu.live = d)
    (K := fun _ t => t.stack = s.stack) (b := fun _ => b d) (by omega) (Nat.le_of_ble_eq_true rfl)
    (Nat.le_refl _) ⟨fun _ => by rw [hx]; rfl, hlive⟩ rfl ?_ ?_).cast ?_
  · intro j hj m hm
    obtain ⟨hcount, hkeep, hagain⟩ := hf m
    obtain ⟨hnext, hlast⟩ := byteCount_step hcount hagain (hm.1 hj)
    exact ⟨⟨hnext, hkeep.trans hm.2⟩, hlast⟩
  · intro j hj t ht hts
    refine (hturn t ht.2).mono ?_
    rintro u ⟨hum, huz, hus⟩
    refine ⟨hum, ?_, hus.trans hts⟩
    change (u.nz == 0) = _
    rw [huz, (hf t.m).2.2, bne, Bool.not_not]
  · rw [Bill.sum_const]
    rfl

/-- **An initialiser of rows**: a fresh fault window, the loop, and the latch
the fetches rely on. -/
theorem rowsInit_does {a : Asm} {f : Machine → Machine × Bool} {x : Var} {b : Bool → Bill Label}
    {l : Label} {d : Bool} (hlive : s.m.reu.live = d)
    (hf : ∀ m, (f m).1.var x = m.var x + 1 ∧ (f m).1.reu.live = m.reu.live ∧
      (f m).2 = ((f m).1.var x != 0))
    (hturn : ∀ t : Core, t.m.reu.live = d → Spends B L a t (b d) fun u =>
      u.m = (f t.m).1 ∧ u.nz = (f t.m).1.var x ∧ u.stack = t.stack) :
    Does B L (.seqs
        [ .block [.ldaImm 0, .sta (.var .x25519ReuFault), .sta (.var x)],
          .loopUntil a (.beq l),
          restoreFetchLatchAsm B ]) s (.tick 10 + (rowsBill L (b d) l + .tick 32))
      (restoreFetchLatch B (doWhile f 0x100 ((s.m.setVar .x25519ReuFault 0).setVar x 0))) := by
  refine Takes.seq (R := fun t => t.m = (s.m.setVar .x25519ReuFault 0).setVar x 0 ∧
    t.stack = s.stack) (Straight.spends (.of_quiet rfl trivial rfl) ⟨rfl, rfl⟩) ?_
  rintro t ⟨htm, hts⟩
  have hx : t.m.var x = 0 := by
    rw [htm]
    exact setVar_var_self
  have hlive' : t.m.reu.live = d := by
    rw [htm]
    exact hlive
  refine Takes.seq (rows_does hx hlive' hf hturn) ?_
  rintro u ⟨hum, hus⟩
  refine Takes.mono restoreFetchLatch_does ?_
  rintro v ⟨hvm, hvs⟩
  exact ⟨by rw [hvm, hum, htm], hvs.trans (hus.trans hts)⟩

/-- What `reu_mul_init` costs. -/
def reuMulInitBill (B : Build) (L : Link) (live : Bool) : Bill Label :=
  .tick 10 + (rowsBill L (reuMulOuterBill B L live) .initDone + .tick 32)

/-- **`reu_mul_init`**, with a unit or without. -/
theorem reuMulInit_does {d : Bool} (hlive : s.m.reu.live = d) :
    Does B L (reuMulInitAsm B) s (reuMulInitBill B L d) (reuMulInit B s.m) :=
  rowsInit_does (b := reuMulOuterBill B L) (l := .initDone) hlive (fun _ => reuMulOuter_counts)
    fun _ h => reuMulOuter_spends h

/-! ## `x25519_sqr_tables_init` -/

/-- What a turn of its `@outer` costs. -/
def sqrTablesOuterBill (L : Link) (live : Bool) : Bill Label :=
  .tick (52 + (4 + L.moved live 0x200)) + .wait .tablesSettle + (dblStashBill L live + .tick 6)

/-- **A turn of `@outer`**: the row fetched, and its double stashed. -/
theorem sqrTablesOuter_spends {d : Bool} (hlive : s.m.reu.live = d) :
    Spends B L (sqrTablesOuterAsm B) s (sqrTablesOuterBill L d) fun t =>
      t.m = (sqrTablesOuter B s.m).1 ∧ t.nz = (sqrTablesOuter B s.m).1.var .sqrTablesRow ∧
        t.stack = s.stack := by
  unfold sqrTablesOuter
  extract_lets m1 m2 r m3 m4 m5 m6 m7
  have hl4 : m4.reu.live = d := by simp [m4, m3, m2, m1, writeC64, hlive]
  have hl5 : m5.reu.live = d := by rw [← hl4, (reuSettle_settles _).live, reuCommand_live]
  have hexec : ∀ ops : List Op, ((cpu B L).exec ops s).m = m4 → m5
      = reuSettle B (((cpu B L).exec ops s).m.reuCommand 0b10110001) := by
    intro ops h
    rw [h]
  refine Takes.seq (transfer_spends (k := 0x200)
    (.of_quiet rfl trivial (by simp [staC64Asm])) ?_ ?_) ?_
  · simp [staC64Asm, hlive]
  · exact len_of_regs (k := 2) (by simp [staC64Asm]) (by simp [staC64Asm]) (by decide)
  rintro t ⟨htm, hts⟩
  rw [← hexec _ (by simp [staC64Asm, m4, m3, r, m2, m1, writeC64])] at htm
  refine Takes.seq (x25519DblStashRow_does (by rw [htm]; exact hl5)) ?_
  rintro u ⟨hum, hus⟩
  rw [htm] at hum
  refine Straight.spends (.of_quiet rfl trivial rfl) ⟨?_, ?_, hus.trans hts⟩
  · simp [hum, m7, m6]
  · simp [hum, m7, m6]

theorem sqrTablesOuter_counts : (sqrTablesOuter B m).1.var .sqrTablesRow = m.var .sqrTablesRow + 1 ∧
    (sqrTablesOuter B m).1.reu.live = m.reu.live ∧
    (sqrTablesOuter B m).2 = ((sqrTablesOuter B m).1.var .sqrTablesRow != 0) := by
  unfold sqrTablesOuter
  extract_lets m1 m2 r m3 m4 m5 m6 m7
  have h2 : Steady .sqrTablesRow m m2 :=
    (Steady.refl m).writeC64.writeReg.writeReg.writeReg.writeReg
  have h5 : Steady .sqrTablesRow m m5 := h2.writeReg.writeReg.transfer (by decide)
  have h6 : Steady .sqrTablesRow m m6 := h5.trans (x25519DblStashRow_steady (by decide))
  refine ⟨?_, h6.live, rfl⟩
  rw [← h6.var]
  exact setVar_var_self

/-- What `x25519_sqr_tables_init` costs. -/
def x25519SqrTablesInitBill (L : Link) (live : Bool) : Bill Label :=
  .tick 10 + (rowsBill L (sqrTablesOuterBill L live) .tablesDone + .tick 32)

/-- **`x25519_sqr_tables_init`**, with a unit or without. -/
theorem x25519SqrTablesInit_does {d : Bool} (hlive : s.m.reu.live = d) :
    Does B L (x25519SqrTablesInitAsm B) s (x25519SqrTablesInitBill L d)
      (x25519SqrTablesInit B s.m) :=
  rowsInit_does (b := sqrTablesOuterBill L) (l := .tablesDone) hlive (fun _ => sqrTablesOuter_counts)
    fun _ h => sqrTablesOuter_spends h

/-! ## `reu_probe` -/

/-- A byte moved between `@scratch` and the unit. -/
def probeTransferBill (L : Link) (live : Bool) (l : Label) : Bill Label :=
  .tick (46 + (4 + L.moved live 1)) + .wait l

theorem probeTransfer_does {cmd : Byte} {l : Label} {d : Bool} (hlive : s.m.reu.live = d) :
    Does B L (probeTransferAsm B cmd l) s (probeTransferBill L d l) (probeTransfer B cmd s.m) := by
  unfold probeTransfer
  extract_lets m1 m2 m3 m4
  have hexec : ((cpu B L).exec (staC64Asm B.mem.probeScratch ++ [.ldaImm 0, .staReg .reuLo,
      .staReg .reuHi, .staReg .addrCtrl, .ldaImm (BitVec.ofNat 8 (7 + B.reuBank)),
      .staReg .reuBank, .ldaImm 1, .staReg .lenLo, .ldaImm 0, .staReg .lenHi]) s).m = m4 := by
    simp [staC64Asm, m4, m3, m2, m1, writeC64]
  have hl4 : m4.reu.live = d := by simp [m4, m3, m2, m1, writeC64, hlive]
  have hlen : m4.reu.len = 1 := by
    rw [Reu.len, show m4.reu.reg .lenLo = 1 by simp [m4], show m4.reu.reg .lenHi = 0 by simp [m4]]
    decide
  rw [← hexec] at hl4 hlen ⊢
  exact transfer_spends (.of_quiet rfl trivial (by simp [staC64Asm])) hl4 hlen

theorem probeTransfer_keepsLive {cmd : Byte} :
    (probeTransfer B cmd m).reu.live = m.reu.live := by
  rw [probeTransfer, (reuSettle_settles _).live, reuCommand_live]
  simp [writeC64]

/-- The verdict of the probe, from the byte it reads back on. -/
def probeVerdictCycles (L : Link) (m : Machine) : ℕ :=
  if m.var .rtByte = 0x5a then
    2 + (4 + if m.var .x25519ReuFault = 0 then 4 else 5 + (L.crosses .probeFailFault).toNat)
  else 5 + (L.crosses .probeFailByte).toNat

/-- The branches behind the comparison. -/
theorem probeVerdict_spends (hz : s.nz = s.m.var .rtByte - 0x5a) :
    Spends B L probeVerdictAsm s (.tick (probeVerdictCycles L s.m)) fun t => t.m = s.m ∧
      t.c = (decide (s.m.var .rtByte = 0x5a) && decide (s.m.var .x25519ReuFault = 0)) ∧
      t.stack = s.stack := by
  rw [probeVerdictCycles]
  have hbne : (cpu B L).test (.bne .probeFailByte) s = (s.m.var .rtByte != 0x5a) := by
    change (s.nz != 0) = _
    rw [hz, bne, sub_beq_zero, Bool.not_not]
  by_cases hb : s.m.var .rtByte = 0x5a
  · rw [if_pos hb, decide_eq_true hb, Bool.true_and]
    have hread : Spends B L (.block [.lda (.var .x25519ReuFault)]) s (.tick 4) fun t =>
        t.m = s.m ∧ t.nz = s.m.var .x25519ReuFault ∧ t.stack = s.stack :=
      Straight.spends (.of_quiet rfl trivial rfl) ⟨rfl, rfl, rfl⟩
    have hfault : ∀ t : Core, (t.m = s.m ∧ t.nz = s.m.var .x25519ReuFault ∧ t.stack = s.stack) →
        Spends B L (.exits (.bne .probeFailFault) (.block [.sec]) (.block [.clc])) t
          (.tick (if s.m.var .x25519ReuFault = 0 then 4
            else 5 + (L.crosses .probeFailFault).toNat)) fun u => u.m = s.m ∧
          u.c = decide (s.m.var .x25519ReuFault = 0) ∧ u.stack = s.stack := by
      rintro t ⟨htm, htz, hts⟩
      have htest : (cpu B L).test (.bne .probeFailFault) t = (s.m.var .x25519ReuFault != 0) := by
        change (t.nz != 0) = _
        rw [htz]
      by_cases hf : s.m.var .x25519ReuFault = 0
      · rw [if_pos hf, decide_eq_true hf]
        have hsec : Spends B L (.block [.sec]) t (.tick 2) fun u => u.m = s.m ∧ u.c = true ∧
            u.stack = s.stack := Straight.spends (.of_quiet rfl trivial rfl) ⟨htm, rfl, hts⟩
        refine (Takes.exits_through ?_ hsec).cast rfl
        rw [htest, hf]
        rfl
      · rw [if_neg hf, decide_eq_false hf]
        have hclc : Spends B L (.block [.clc]) t (.tick 2) fun u => u.m = s.m ∧ u.c = false ∧
            u.stack = s.stack := Straight.spends (.of_quiet rfl trivial rfl) ⟨htm, rfl, hts⟩
        refine (Takes.exits_taken ?_ hclc).cast ?_
        · rw [htest]
          exact bne_iff_ne.2 hf
        · change Bill.tick (2 + (3 + _)) = _
          rw [← Nat.add_assoc]
    refine (Takes.exits_through ?_ (Takes.seqTick hread hfault)).cast ?_
    · rw [hbne, hb]
      rfl
    · rw [Bill.tick_add_tick, Nat.add_comm]
      rfl
  · rw [if_neg hb, decide_eq_false hb, Bool.false_and]
    have hclc : Spends B L (.block [.clc]) s (.tick 2) fun u => u.m = s.m ∧ u.c = false ∧
        u.stack = s.stack := Straight.spends (.of_quiet rfl trivial rfl) ⟨rfl, rfl, rfl⟩
    refine (Takes.exits_taken ?_ hclc).cast ?_
    · rw [hbne]
      exact bne_iff_ne.2 hb
    · change Bill.tick (2 + (3 + _)) = _
      rw [← Nat.add_assoc]

/-- The registers saved. -/
theorem probeSave_does : Does B L (.block ([.ldaImm 0, .sta (.var .x25519ReuFault)] ++
      probeSaves.flatMap fun p => [.ldaReg p.1, .sta (.var p.2)])) s (.tick 62)
      (probeSave (s.m.setVar .x25519ReuFault 0)) := by
  simp only [probeSaves, List.flatMap_cons, List.flatMap_nil, List.cons_append, List.nil_append]
  refine Straight.spends (.of_quiet rfl trivial rfl) ⟨?_, rfl⟩
  simp [probeSave, saveReg]

/-- And put back. -/
theorem probeRestore_spends : Spends B L (.block ((probeSaves.flatMap fun p =>
      [.lda (.var p.2), .staReg p.1]) ++ [.ldaImm 0, .staReg .addrCtrl, .lda (.var .rtByte),
        .cmpImm 0x5a])) s (.tick 68) fun t => t.m = probeRestore s.m ∧
      t.nz = t.m.var .rtByte - 0x5a ∧ t.stack = s.stack := by
  simp only [probeSaves, List.flatMap_cons, List.flatMap_nil, List.cons_append, List.nil_append]
  refine Straight.spends (.of_quiet rfl trivial rfl) ⟨?_, ?_, rfl⟩
  · simp [probeRestore]
  · simp

/-- The byte fetched, and the pattern over it. -/
def probePatternBill (L : Link) (live : Bool) : Bill Label :=
  probeTransferBill L live .probeFetchSettle + (.tick 14 +
    probeTransferBill L live .probePatternSettle)

theorem probePattern_does {d : Bool} (hlive : s.m.reu.live = d) :
    Does B L (probePatternAsm B) s (probePatternBill L d) (probePattern B s.m) := by
  refine Takes.seq (probeTransfer_does hlive) ?_
  rintro t ⟨htm, hts⟩
  refine Takes.seq (R := fun u => u.m = (t.m.setVar .origByte (t.m.ram B.mem.probeScratch)).setRam
      B.mem.probeScratch 0x5a ∧ u.stack = t.stack)
    (Straight.spends (.of_quiet rfl trivial rfl) ⟨by simp, rfl⟩) ?_
  rintro u ⟨hum, hus⟩
  refine Takes.mono (probeTransfer_does (d := d) ?_) ?_
  · rw [hum, htm]
    exact probeTransfer_keepsLive.trans hlive
  · rintro v ⟨hvm, hvs⟩
    exact ⟨by rw [hvm, hum, htm, probePattern], hvs.trans (hus.trans hts)⟩

theorem probePattern_keepsLive : (probePattern B m).reu.live = m.reu.live := by
  unfold probePattern
  extract_lets m1 m2 m3
  rw [probeTransfer_keepsLive]
  change m1.reu.live = _
  exact probeTransfer_keepsLive

/-- The pattern read back, and the byte put back. -/
def probeReadBackBill (L : Link) (live : Bool) : Bill Label :=
  .tick 6 + (probeTransferBill L live .probeReadSettle + (.tick 16 +
    probeTransferBill L live .probeRestoreSettle))

theorem probeReadBack_does {d : Bool} (hlive : s.m.reu.live = d) :
    Does B L (probeReadBackAsm B) s (probeReadBackBill L d) (probeReadBack B s.m) := by
  refine Takes.seq (R := fun t => t.m = s.m.setRam B.mem.probeScratch 0 ∧ t.stack = s.stack)
    (Straight.spends (.of_quiet rfl trivial rfl) ⟨by simp, rfl⟩) ?_
  rintro t ⟨htm, hts⟩
  have hl : t.m.reu.live = d := by rw [htm]; exact hlive
  refine Takes.seq (probeTransfer_does hl) ?_
  rintro u ⟨hum, hus⟩
  refine Takes.seq (R := fun v => v.m = (u.m.setVar .rtByte (u.m.ram B.mem.probeScratch)).setRam
      B.mem.probeScratch (u.m.var .origByte) ∧ v.stack = u.stack)
    (Straight.spends (.of_quiet rfl trivial rfl) ⟨by simp, rfl⟩) ?_
  rintro v ⟨hvm, hvs⟩
  refine Takes.mono (probeTransfer_does (d := d) ?_) ?_
  · rw [hvm, hum]
    exact probeTransfer_keepsLive.trans hl
  · rintro w ⟨hwm, hws⟩
    refine ⟨?_, hws.trans (hvs.trans (hus.trans hts))⟩
    rw [hwm, hvm, hum, htm, probeReadBack]
    rfl

/-- What `reu_probe` costs, where it ends with the machine `m`. -/
def reuProbeBill (L : Link) (live : Bool) (m : Machine) : Bill Label :=
  .tick 62 + (probePatternBill L live + (probeReadBackBill L live + (.tick 68 +
    .tick (probeVerdictCycles L m))))

/-- **`reu_probe`**: its carry is the verdict of the routine. -/
theorem reuProbe_spends {d : Bool} (hlive : s.m.reu.live = d) :
    Spends B L (reuProbeAsm B) s (reuProbeBill L d (reuProbe B s.m).2) fun t =>
      t.m = (reuProbe B s.m).2 ∧ t.c = (reuProbe B s.m).1 ∧ t.stack = s.stack := by
  set m1 := probeSave (s.m.setVar .x25519ReuFault 0) with hm1
  set m2 := probePattern B m1 with hm2
  set m3 := probeRestore (probeReadBack B m2) with hm3
  have heq : reuProbe B s.m
      = (decide (m3.var .rtByte = 0x5a) && decide (m3.var .x25519ReuFault = 0), m3) := rfl
  have hl1 : m1.reu.live = d := by
    have hsave : ∀ x v (u : Machine), (saveReg x v u).reu.live = u.reu.live := fun _ _ _ => rfl
    rw [← hlive, hm1]
    simp only [probeSave, hsave]
    rfl
  have hl2 : m2.reu.live = d := probePattern_keepsLive.trans hl1
  rw [heq]
  refine Takes.seq probeSave_does ?_
  rintro t ⟨htm, hts⟩
  refine Takes.seq (probePattern_does (by rw [htm]; exact hl1)) ?_
  rintro u ⟨hum, hus⟩
  rw [htm] at hum
  refine Takes.seq (probeReadBack_does (by rw [hum]; exact hl2)) ?_
  rintro v ⟨hvm, hvs⟩
  rw [hum] at hvm
  refine Takes.seq probeRestore_spends ?_
  rintro w ⟨hwm, hwz, hws⟩
  rw [hvm] at hwm
  have hw3 : w.m = m3 := hwm
  rw [← hw3]
  refine Takes.mono (probeVerdict_spends hwz) ?_
  rintro x ⟨hxm, hxc, hxs⟩
  exact ⟨hxm, hxc, hxs.trans (hws.trans (hvs.trans (hus.trans hts)))⟩

/-! ## Starting up -/

/-- What an initialiser costs, entered with the machine `m`. -/
def Initialiser.bill (B : Build) (L : Link) (m : Machine) : Initialiser → Bill Label
  | sqtabInit => .tick (sqtabInitCycles L)
  | reuMulInit => reuMulInitBill B L m.reu.live
  | x25519SqrTablesInit => x25519SqrTablesInitBill L m.reu.live
  | reuProbe => reuProbeBill L m.reu.live (C64X25519.reuProbe B m).2

/-- **Every initialiser**, from any machine. -/
theorem Initialiser.spends (i : Initialiser) : Spends B L (i.asm B) s (i.bill B L s.m) fun t =>
    t.m = i.run B s.m ∧ t.stack = s.stack ∧
      (i = reuProbe → t.c = (C64X25519.reuProbe B s.m).1) := by
  cases i with
  | sqtabInit => exact sqtabInit_does.mono fun t ht => ⟨ht.1, ht.2, fun h => by cases h⟩
  | reuMulInit => exact (reuMulInit_does rfl).mono fun t ht => ⟨ht.1, ht.2, fun h => by cases h⟩
  | x25519SqrTablesInit =>
    exact (x25519SqrTablesInit_does rfl).mono fun t ht => ⟨ht.1, ht.2, fun h => by cases h⟩
  | reuProbe => exact (reuProbe_spends rfl).mono fun t ht => ⟨ht.1, ht.2.2, fun _ => ht.2.1⟩

/-- What the calls of `start` cost. -/
def startBill (B : Build) (L : Link) (live : Bool) : Bill Label :=
  if B.onchip then .tick (sqtabInitCycles L) + .tick 12
  else .tick (sqtabInitCycles L) + .tick 12 + (reuMulInitBill B L live + .tick 12)

/-- **The calls of `start`** do what `initialise` does. -/
theorem start_does : Does B L (startAsm B) s (startBill B L s.m.reu.live) (initialise B s.m) := by
  have hsq : Does B L (.call (sqtabInitAsm B)) s (.tick (sqtabInitCycles L) + .tick 12)
      (sqtabInit B s.m) := Does.call (sqtabInit_does (s := s.push .ret))
  rw [startAsm, startBill, initialise]
  by_cases hon : B.onchip = true
  · rw [if_pos hon, if_pos hon, if_pos hon]
    exact hsq
  · rw [if_neg hon, if_neg hon, if_neg hon]
    refine Takes.seq hsq ?_
    rintro t ⟨htm, hts⟩
    obtain ⟨-, -, hreu, -⟩ := sqtabInit_spec (B := B) s.m
    have hlive : (t.push .ret).m.reu.live = s.m.reu.live := by
      change t.m.reu.live = _
      rw [htm, hreu]
    refine Takes.mono (Does.call (reuMulInit_does hlive)) ?_
    rintro u ⟨hum, hus⟩
    refine ⟨?_, hus.trans hts⟩
    rw [← htm]
    exact hum

/-- What the calls of `start` cost at the prices `f`. -/
theorem startBill_price {f : Label → ℕ} {d : Bool} : (startBill B L d).price f
    = sqtabInitCycles L + 12 + if B.onchip then 0 else
      1332 + (L.crosses .initDone).toNat + 0x100 * (152 + reuMulRowCycles L
        + 2 * L.moved d 0x100 + f .initLoSettle + f .initHiSettle
        + if B.sqrDmaK ≠ 0 then 186 + loopCycles L .dblLoop 0x100 39 + 3 * L.moved d 0x100
            + f .dblLoSettle + f .dblHiSettle + f .dblCarrySettle else 0) := by
  have hdbl : (dblStashBill L d).price f = 186 + loopCycles L .dblLoop 0x100 39
      + 3 * L.moved d 0x100 + f .dblLoSettle + f .dblHiSettle + f .dblCarrySettle := by
    simp only [dblStashBill, stashBill, Bill.price_add, Bill.price_tick, Bill.price_wait]
    omega
  have hrow : (reuMulStashBill L d).price f
      = 128 + 2 * L.moved d 0x100 + f .initLoSettle + f .initHiSettle := by
    simp only [reuMulStashBill, stashBill, Bill.price_add, Bill.price_tick, Bill.price_wait]
    omega
  rw [startBill]
  split
  · simp
  · simp only [reuMulInitBill, rowsBill, reuMulOuterBill, Bill.price_add, Bill.price_tick,
      Bill.price_nsmul, hrow]
    split
    · rw [hdbl]
      omega
    · rw [Bill.price_zero]
      omega

/-- The settles of `start`. -/
theorem startBill_waits {d : Bool} : (startBill B L d).waits.length
    = if B.onchip then 0 else 0x100 * (2 + if B.sqrDmaK ≠ 0 then 3 else 0) := by
  rw [startBill]
  split
  · rfl
  · simp only [reuMulInitBill, rowsBill, reuMulOuterBill, reuMulStashBill, stashBill,
      Bill.add_waits, Bill.tick_waits, Bill.wait_waits, List.length_append, Bill.nsmul_length]
    split <;> simp [dblStashBill, stashBill]

end C64X25519
