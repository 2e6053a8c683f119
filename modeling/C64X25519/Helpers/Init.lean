import C64X25519.Helpers.RowInit
/-!
# The initialisers

`reu_mul_init` row by row: after `k` rows the tables hold the first `k`,
and what the last of them leaves in memory, in the registers of the unit
and in the byte multiplier depends on nothing else.
-/

namespace C64X25519

open Machine

variable {B : Build} {s t : Machine} {a : Byte} {k : ℕ} {m m' : ℕ → Byte}

/-! ## Rows of a memory of the unit -/

/-- The row of `a` in the pair of banks. -/
def MulRowAt (B : Build) (m : ℕ → Byte) (a : ℕ) : Prop :=
  ∀ x, x < 0x100 → m (B.reuBank * 0x10000 + 0x200 * a + x) = BitVec.ofNat 8 (a * x) ∧
    m (B.reuBank * 0x10000 + 0x200 * a + 0x100 + x) = BitVec.ofNat 8 (a * x / 0x100)

/-- The doubled row of `a`, and its carry row. -/
def DblRowAt (B : Build) (m : ℕ → Byte) (a : ℕ) : Prop :=
  ∀ x, x < 0x100 →
    m (B.reuBankDoubled * 0x10000 + 0x200 * a + x) = BitVec.ofNat 8 (2 * (a * x)) ∧
    m (B.reuBankDoubled * 0x10000 + 0x200 * a + 0x100 + x) = BitVec.ofNat 8 (2 * (a * x) / 0x100) ∧
    m (B.reuBankCarry * 0x10000 + 0x100 * a + x) = BitVec.ofNat 8 (2 * (a * x) / 0x10000)

theorem MulRowAt.congr {b : ℕ} (h : MulRowAt B m b) (hm : ∀ y, B.rowSpan b y → m' y = m y) :
    MulRowAt B m' b := fun x hx => by
  rw [hm _ ⟨by omega, by omega⟩, hm _ ⟨by omega, by omega⟩]
  exact h x hx

theorem DblRowAt.congr {b : ℕ} (h : DblRowAt B m b) (hm : ∀ y, B.dblSpan b y → m' y = m y) :
    DblRowAt B m' b := fun x hx => by
  rw [hm _ (.inl ⟨by omega, by omega⟩), hm _ (.inl ⟨by omega, by omega⟩),
    hm _ (.inr ⟨by omega, by omega⟩)]
  exact h x hx

/-- Different rows share no byte. -/
theorem Build.rowSpan_apart {b c y : ℕ} (hne : b ≠ c) (h : B.rowSpan b y) : ¬ B.rowSpan c y := by
  rw [Build.rowSpan] at *
  omega

theorem Build.dblSpan_apart {b c y : ℕ} (hne : b ≠ c) (hb : b < 0x100) (hc : c < 0x100)
    (h : B.dblSpan b y) : ¬ B.dblSpan c y := by
  have hbanks : B.reuBankDoubled = B.reuBankCarry + 1 := rfl
  rw [Build.dblSpan] at *
  omega

theorem Build.rowSpan_not_dblSpan {b c y : ℕ} (hb : b < 0x100) (h : B.rowSpan b y) :
    ¬ B.dblSpan c y := by
  have hd : B.reuBankDoubled = B.reuBank + 4 := rfl
  have hc : B.reuBankCarry = B.reuBank + 3 := rfl
  rw [Build.rowSpan] at h
  rw [Build.dblSpan]
  omega

/-! ## One row -/

/-- The variables of `reu_mul_init`. -/
def initVars : List Var := .reuInitA :: (rowVars ++ settleVars)

/-- What the row of `a` leaves in the staging pages, in the registers no
later store sets, and in the byte multiplier. -/
structure RowEnd (B : Build) (a : Byte) (t : Machine) : Prop where
  staged : StagedPages B (fun x => if B.sqrDmaK = 0 then a.toNat * x else 2 * (a.toNat * x)) t
  carry : B.sqrDmaK ≠ 0 → ∀ x, x < 0x100 →
    t.ram (B.mem.mulDmaCarry + x) = BitVec.ofNat 8 (2 * (a.toNat * x) / 0x10000)
  count : t.var .reuInitB = 0
  left : CtLeft B a 0xff t
  regHi : ∀ v, v = (if B.sqrDmaK = 0 then (asl a).1 ||| 1 else a) →
    t.reu.reg .reuHi = v ∧ t.reu.latch .reuHi = v
  regBank : ∀ v, v = (if B.sqrDmaK = 0 then (adc (BitVec.ofNat 8 B.reuBank) 0 (asl a).2).1
      else BitVec.ofNat 8 B.reuBankCarry) →
    t.reu.reg .reuBank = v ∧ t.reu.latch .reuBank = v

/-- One row, from the state `s` to the state `t`. -/
structure RowDone (B : Build) (a : Byte) (s t : Machine) : Prop where
  row : MulRowAt B t.reu.mem a.toNat
  dbl : B.sqrDmaK ≠ 0 → DblRowAt B t.reu.mem a.toNat
  mem : ∀ y, ¬ B.rowSpan a.toNat y → (B.sqrDmaK ≠ 0 → ¬ B.dblSpan a.toNat y) →
    t.reu.mem y = s.reu.mem y
  rowEnd : RowEnd B a t
  carryPage : B.sqrDmaK = 0 → ∀ x, t.ram (B.mem.mulDmaCarry + x) = s.ram (B.mem.mulDmaCarry + x)
  opHi : ∀ x, x ≠ .smcLoAddr → x ≠ .smcHiAddr → t.opHi x = s.opHi x
  opLo : ∀ x, x ≠ .smcSumAImm → x ≠ .smcDiffAImm → t.opLo x = s.opLo x
  boot : Boot (rowVars ++ settleVars) B.mem.staging s t

theorem mul_byte_lt (a : Byte) {x : ℕ} (hx : x < 0x100) : a.toNat * x < 0x10000 := by
  calc a.toNat * x ≤ 255 * 255 := Nat.mul_le_mul (by omega) (by omega)
    _ < 0x10000 := by norm_num

/-- The stash of a row, and where the build has doubled rows the stash of
its doubled row. -/
theorem stashRow_spec (hlive : s.reu.live = true) (ha : s.var .reuInitA = a)
    (hst : StagedPages B (fun x => a.toNat * x) s) (hcnt : s.var .reuInitB = 0)
    (hleft : CtLeft B a 0xff s) (h : t = if B.sqrDmaK ≠ 0
      then x25519DblStashRow B .reuInitA (reuMulStash B s) else reuMulStash B s) :
    RowDone B a s t ∧ t.opLo = s.opLo ∧ t.opHi = s.opHi := by
  have hrow := reuMulStash_spec hlive hst
  rw [ha] at hrow
  obtain ⟨u, hu⟩ : ∃ q, q = reuMulStash B s := ⟨_, rfl⟩
  rw [← hu] at hrow h
  have hctu : ∀ x ∈ ctVars, x ∉ settleVars := by decide
  have hbu : Boot (rowVars ++ settleVars) B.mem.staging s u :=
    hrow.boot.mono (List.subset_append_right _ _) fun _ => False.elim
  have hleftu : CtLeft B a 0xff u :=
    hleft.congr (fun x hx => hrow.boot.var x (hctu x hx)) hrow.opLo hrow.opHi
  have hcntu : u.var .reuInitB = 0 := (hrow.boot.var _ (by decide)).trans hcnt
  have hrowu : MulRowAt B u.reu.mem a.toNat := fun x hx => ⟨hrow.lo x hx, hrow.hi x hx⟩
  have hstu : StagedPages B (fun x => a.toNat * x) u := hst.congr hrow.boot.ram_eq
  by_cases hk : B.sqrDmaK = 0
  · rw [if_neg (not_not_intro hk)] at h
    subst h
    refine ⟨⟨hrowu, fun h => absurd hk h, fun y hy _ => hrow.mem y hy, ⟨?_, fun h => absurd hk h,
      hcntu, hleftu, fun v hv => ?_, fun v hv => ?_⟩, fun _ x => ?_, fun x _ _ => ?_,
      fun x _ _ => ?_, hbu⟩, hrow.opLo, hrow.opHi⟩
    · simp only [hk, if_true]
      exact hstu
    · rw [if_pos hk] at hv
      rw [hv]
      exact hrow.regHi
    · rw [if_pos hk] at hv
      rw [hv]
      exact hrow.regBank
    · rw [hrow.boot.ram_eq]
    · rw [hrow.opHi]
    · rw [hrow.opLo]
  · rw [if_pos hk] at h
    have hdbl := x25519DblStashRow_spec .reuInitA
      (by rw [hrow.boot.live]; exact hlive) hk (by decide) (fun x hx => mul_byte_lt a hx) hstu
    have hau : u.var .reuInitA = a := (hrow.boot.var _ (by decide)).trans ha
    rw [hau, ← h] at hdbl
    have halt := a.isLt
    refine ⟨⟨hrowu.congr fun y hy => hdbl.mem y (Build.rowSpan_not_dblSpan halt hy),
      fun _ x hx => ⟨hdbl.lo x hx, hdbl.hi x hx, hdbl.carry x hx⟩,
      fun y hy hy' => (hdbl.mem y (hy' hk)).trans (hrow.mem y hy), ⟨?_, fun _ => hdbl.stagedCarry,
      (hdbl.boot.var _ (by decide)).trans hcntu,
      hleftu.congr (fun x hx => hdbl.boot.var x (hctu x hx)) hdbl.opLo hdbl.opHi,
      fun v hv => ?_, fun v hv => ?_⟩, fun h0 => absurd h0 hk, fun x _ _ => ?_, fun x _ _ => ?_,
      hbu.trans (hdbl.boot.mono (List.subset_append_right _ _) fun _ => id)⟩,
      hdbl.opLo.trans hrow.opLo, hdbl.opHi.trans hrow.opHi⟩
    · simp only [hk, if_false]
      exact hdbl.staged
    · rw [if_neg hk] at hv
      rw [hv]
      exact hdbl.regHi
    · rw [if_neg hk] at hv
      rw [hv]
      exact hdbl.regBank
    · rw [hdbl.opHi, hrow.opHi]
    · rw [hdbl.opLo, hrow.opLo]

/-- The loop `@outer` before row `k`. -/
structure InitAt (B : Build) (s : Machine) (k : ℕ) (t : Machine) : Prop where
  rows : ∀ a, a < k → MulRowAt B t.reu.mem a
  dbl : B.sqrDmaK ≠ 0 → ∀ a, a < k → DblRowAt B t.reu.mem a
  mem : ∀ y, (∀ a, a < 0x100 → ¬ B.rowSpan a y ∧ (B.sqrDmaK ≠ 0 → ¬ B.dblSpan a y)) →
    t.reu.mem y = s.reu.mem y
  count : (t.var .reuInitA).toNat = k % 0x100
  last : ∀ n, k = n + 1 → RowEnd B (BitVec.ofNat 8 n) t
  carryPage : B.sqrDmaK = 0 → ∀ x, t.ram (B.mem.mulDmaCarry + x) = s.ram (B.mem.mulDmaCarry + x)
  opHi : ∀ x, x ≠ .smcLoAddr → x ≠ .smcHiAddr → t.opHi x = s.opHi x
  opLo : ∀ x, x ≠ .smcSumAImm → x ≠ .smcDiffAImm → t.opLo x = s.opLo x
  boot : Boot initVars B.mem.staging s t

theorem RowEnd.congr {u : Machine} (h : RowEnd B a t) (hr : u.ram = t.ram) (hu : u.reu = t.reu)
    (hv : ∀ x ∈ rowVars, u.var x = t.var x) (hlo : u.opLo = t.opLo) (hhi : u.opHi = t.opHi) :
    RowEnd B a u where
  staged := h.staged.congr hr
  carry := by rw [hr]; exact h.carry
  count := (hv _ (by decide)).trans h.count
  left := h.left.congr (fun x hx => hv x (List.mem_cons_of_mem _ hx)) hlo hhi
  regHi := by rw [hu]; exact h.regHi
  regBank := by rw [hu]; exact h.regBank

theorem reuMulOuter_spec (hlive : s.reu.live = true) (hq : Sqtab B s) (h : InitAt B s k t)
    (hk : k < 0x100) : InitAt B s (k + 1) (reuMulOuter B t).1 ∧
      (reuMulOuter B t).2 = decide (k + 1 < 0x100) := by
  obtain ⟨a, ha⟩ : ∃ a, a = t.var .reuInitA := ⟨_, rfl⟩
  have hak : a.toNat = k := by rw [ha, h.count, Nat.mod_eq_of_lt hk]
  have hofNat : BitVec.ofNat 8 k = a := BitVec.eq_of_toNat_eq (by
    rw [BitVec.toNat_ofNat, hak]
    exact Nat.mod_eq_of_lt hk)
  -- the row
  obtain ⟨t1, ht1⟩ : ∃ q, q = t.patchLo [.smcSumAImm, .smcDiffAImm] a := ⟨_, rfl⟩
  have hb1 : Boot initVars B.mem.staging t t1 := by
    rw [ht1]
    exact (Boot.refl t).patchLo (by decide)
  have hbake : t1.opLo .smcSumAImm = a ∧ t1.opLo .smcDiffAImm = a := by
    rw [ht1]
    exact ⟨rfl, rfl⟩
  have hrow := reuMulRow_spec ((hq.boot h.boot).boot hb1) hbake.1 hbake.2
  obtain ⟨t2, ht2⟩ : ∃ q, q = doWhile (reuMulEntry B) 0x100 (t1.setVar .reuInitB 0) := ⟨_, rfl⟩
  rw [← ht2] at hrow
  have hreu2 : t2.reu = t.reu := by
    rw [hrow.reu, ht1]
    rfl
  have ha2 : t2.var .reuInitA = a := by
    rw [hrow.boot.var _ (by decide), ha, ht1]
    rfl
  -- the stashes
  obtain ⟨t3, ht3⟩ : ∃ q, q = if B.sqrDmaK ≠ 0 then x25519DblStashRow B .reuInitA (reuMulStash B t2)
    else reuMulStash B t2 := ⟨_, rfl⟩
  obtain ⟨hdone, hop3, hhi3⟩ := stashRow_spec (by rw [hreu2, h.boot.live, hlive]) ha2 hrow.staged
    hrow.count hrow.left ht3
  have ha3 : t3.var .reuInitA = a := (hdone.boot.var _ (by decide)).trans ha2
  have hbody : reuMulOuter B t = (t3.setVar .reuInitA (a + 1), a + 1 != 0) := by
    rw [← ha3]
    conv_rhs => rw [ht3, ht2, ht1, ha]
    rfl
  have hb3 : Boot initVars B.mem.staging t t3 := by
    refine hb1.trans ((hrow.boot.mono ?_ fun _ => MemMap.staging_of_rowPages).trans
      (hdone.boot.mono ?_ fun _ => id))
    · exact fun x hx => List.mem_cons_of_mem _ (List.mem_append_left _ hx)
    · exact fun x hx => List.mem_cons_of_mem _ hx
  have hmem : ∀ y, ¬ B.rowSpan k y → (B.sqrDmaK ≠ 0 → ¬ B.dblSpan k y) →
      t3.reu.mem y = t.reu.mem y := fun y h1 h2 => by
    rw [← hreu2]
    exact hdone.mem y (by rwa [hak]) (by rwa [hak])
  rw [hbody]
  refine ⟨⟨fun b hb => ?_, fun hK b hb => ?_, fun y hy => ?_, ?_, fun n hn => ?_, fun hK x => ?_,
    fun x hx hx' => ?_, fun x hx hx' => ?_, h.boot.trans (hb3.setVar (by decide))⟩, ?_⟩
  · change MulRowAt B t3.reu.mem b
    rcases Nat.lt_succ_iff_lt_or_eq.1 hb with hlt | rfl
    · exact (h.rows b hlt).congr fun y hy => hmem y (Build.rowSpan_apart (by omega) hy)
        fun _ => Build.rowSpan_not_dblSpan (by omega) hy
    · exact hak ▸ hdone.row
  · change DblRowAt B t3.reu.mem b
    rcases Nat.lt_succ_iff_lt_or_eq.1 hb with hlt | rfl
    · exact (h.dbl hK b hlt).congr fun y hy => hmem y
        (fun hr => Build.rowSpan_not_dblSpan hk hr hy)
        fun _ => Build.dblSpan_apart (by omega) (by omega) hk hy
    · exact hak ▸ hdone.dbl hK
  · exact (hmem y (hy k hk).1 (hy k hk).2).trans (h.mem y hy)
  · rw [setVar_var_self, BitVec.toNat_add, hak]
    rfl
  · obtain rfl : k = n := by omega
    rw [hofNat]
    exact hdone.rowEnd.congr rfl rfl
      (fun x hx => setVar_var_of_ne (by rintro rfl; exact absurd hx (by decide))) rfl rfl
  · refine Eq.trans ?_ (h.carryPage hK x)
    have h2 : t2.ram (B.mem.mulDmaCarry + x) = t1.ram (B.mem.mulDmaCarry + x) :=
      hrow.boot.ram _ fun hx => by
        simp only [MemMap.rowPages, MemMap.mulDmaCarry] at hx
        omega
    have h1 : t1.ram = t.ram := by
      rw [ht1]
      rfl
    rw [← h1, ← h2]
    exact hdone.carryPage hK x
  · refine Eq.trans ?_ (h.opHi x hx hx')
    have h1 : t1.opHi = t.opHi := by
      rw [ht1]
      rfl
    rw [← h1, ← hrow.opHi x hx hx', ← hhi3]
    rfl
  · refine Eq.trans ?_ (h.opLo x hx hx')
    have h1 : t1.opLo x = t.opLo x := by
      rw [ht1, patchLo_opLo]
      exact if_neg (by simp [hx, hx'])
    rw [← h1, ← hrow.opLo, ← hop3]
    rfl
  · rw [bne_zero, BitVec.toNat_add, hak, show (1 : Byte).toNat = 1 from rfl]
    refine decide_eq_decide.2 ?_
    omega

/-! ## `reu_mul_init` -/

/-- The registers and the latch of the unit are set for a row fetch, down to
address control. -/
def LatchReset (B : Build) (t : Machine) : Prop :=
  ∀ x, x ≠ .reuHi → x ≠ .reuBank → t.reu.reg x = fetchReg B x ∧ t.reu.latch x = fetchReg B x

/-- The latch an initialiser leaves. -/
theorem restoreFetchLatch_spec (s : Machine) :
    LatchReset B (restoreFetchLatch B s) ∧
      (restoreFetchLatch B s).reu.reg .reuHi = s.reu.reg .reuHi ∧
      (restoreFetchLatch B s).reu.latch .reuHi = s.reu.latch .reuHi ∧
      (restoreFetchLatch B s).reu.reg .reuBank = s.reu.reg .reuBank ∧
      (restoreFetchLatch B s).reu.latch .reuBank = s.reu.latch .reuBank ∧
      RegsOnly s (restoreFetchLatch B s) := by
  refine ⟨fun x h1 h2 => ?_, rfl, rfl, rfl, rfl,
    RegsOnly.writeRegs (l := latchWrites B.mem.mulDmaLo 2) (.refl s)⟩
  simp only [restoreFetchLatch, writeC64, writeReg_reu_reg, writeReg_reu_latch]
  cases x <;> simp [fetchReg, Function.update] at h1 h2 ⊢

/-- What the initialisation leaves, from the state `s` to the state `t`. -/
structure Initialised (B : Build) (s t : Machine) : Prop where
  rows : ∀ a, a < 0x100 → MulRowAt B t.reu.mem a
  dbl : B.sqrDmaK ≠ 0 → ∀ a, a < 0x100 → DblRowAt B t.reu.mem a
  mem : ∀ y, (∀ a, a < 0x100 → ¬ B.rowSpan a y ∧ (B.sqrDmaK ≠ 0 → ¬ B.dblSpan a y)) →
    t.reu.mem y = s.reu.mem y
  latch : LatchReset B t
  rowEnd : RowEnd B 0xff t
  count : t.var .reuInitA = 0
  carryPage : B.sqrDmaK = 0 → ∀ x, t.ram (B.mem.mulDmaCarry + x) = s.ram (B.mem.mulDmaCarry + x)
  opHi : ∀ x, x ≠ .smcLoAddr → x ≠ .smcHiAddr → t.opHi x = s.opHi x
  opLo : ∀ x, x ≠ .smcSumAImm → x ≠ .smcDiffAImm → t.opLo x = s.opLo x
  boot : Boot initVars B.mem.staging s t

/-- **`reu_mul_init`.** -/
theorem reuMulInit_spec (hlive : s.reu.live = true) (hq : Sqtab B s) :
    Initialised B s (reuMulInit B s) := by
  obtain ⟨u, hu⟩ : ∃ q, q = doWhile (reuMulOuter B) 0x100
    ((s.setVar .x25519ReuFault 0).setVar .reuInitA 0) := ⟨_, rfl⟩
  have h : InitAt B s 0x100 u := by
    rw [hu]
    refine doWhile_inv (N := 0x100) (m := 0x100) (InitAt B s)
      ⟨fun a ha => ?_, fun _ a ha => ?_, fun _ _ => rfl, rfl, fun n hn => ?_, fun _ _ => rfl,
        fun _ _ _ => rfl, fun _ _ _ => rfl, ((Boot.refl s).setVar (by decide)).setVar (by decide)⟩
      (by omega) (by omega) fun k hk t ht => reuMulOuter_spec hlive hq ht hk
    all_goals omega
  have ht : reuMulInit B s = restoreFetchLatch B u := by
    rw [hu]
    rfl
  obtain ⟨hlatch, hr1, hl1, hr2, hl2, hregs⟩ := restoreFetchLatch_spec (B := B) u
  rw [ht]
  obtain ⟨t, htd⟩ : ∃ q, q = restoreFetchLatch B u := ⟨_, rfl⟩
  rw [← htd] at hlatch hr1 hl1 hr2 hl2 hregs ⊢
  clear htd
  have hram : t.ram = u.ram := by rw [hregs.rest]
  have hvar : t.var = u.var := by rw [hregs.rest]
  have hlo : t.opLo = u.opLo := by rw [hregs.rest]
  have hhi : t.opHi = u.opHi := by rw [hregs.rest]
  have hend := h.last 255 rfl
  refine ⟨by rw [hregs.mem]; exact h.rows, by rw [hregs.mem]; exact h.dbl,
    by rw [hregs.mem]; exact h.mem, hlatch, ⟨?_, ?_, ?_, ?_, fun v hv => ?_, fun v hv => ?_⟩, ?_,
    by rw [hram]; exact h.carryPage, by rw [hhi]; exact h.opHi, by rw [hlo]; exact h.opLo, ?_⟩
  · exact ⟨by rw [hram]; exact hend.staged.lo, by rw [hram]; exact hend.staged.hi⟩
  · rw [hram]
    exact hend.carry
  · rw [hvar]
    exact hend.count
  · exact hend.left.congr (fun x _ => by rw [hvar]) hlo hhi
  · rw [hr1, hl1]
    exact hend.regHi v hv
  · rw [hr2, hl2]
    exact hend.regBank v hv
  · rw [hvar]
    exact BitVec.eq_of_toNat_eq h.count
  · refine h.boot.trans ⟨?_, fun _ _ => ?_, fun _ _ => ⟨?_, ?_⟩, ?_, fun _ _ => ?_, ?_, hregs.live⟩
    all_goals rw [hregs.rest]

/-! ## Both initialisers -/

/-- `sqtab_init` and `reu_mul_init`. -/
def tablesInit (B : Build) (s : Machine) : Machine := reuMulInit B (sqtabInit B s)

theorem tablesInit_spec (hlive : s.reu.live = true) :
    Sqtab B (tablesInit B s) ∧ Initialised B (sqtabInit B s) (tablesInit B s) := by
  obtain ⟨hq, -, hreu, hboot⟩ := sqtabInit_spec (B := B) s
  have h := reuMulInit_spec (by rw [hboot.live]; exact hlive) hq
  exact ⟨hq.boot h.boot, h⟩

theorem MulRowAt.rows (h : ∀ a, a < 0x100 → MulRowAt B t.reu.mem a) : MulRows B t :=
  ⟨fun a b => (h a.toNat a.isLt b.toNat b.isLt).1, fun a b => (h a.toNat a.isLt b.toNat b.isLt).2⟩

theorem DblRowAt.rows (h : ∀ a, a < 0x100 → DblRowAt B t.reu.mem a) : DoubledRows B t :=
  ⟨fun a b => (h a.toNat a.isLt b.toNat b.isLt).1, fun a b => (h a.toNat a.isLt b.toNat b.isLt).2.1,
    fun a b => (h a.toNat a.isLt b.toNat b.isLt).2.2⟩

/-- **The tables are ready** after the two initialisers. -/
theorem tablesInit_ready (hlive : s.reu.live = true) (hg : s.ram (B.mem.mulSrc2Buf + 32) = 0) :
    Ready B (tablesInit B s) := by
  obtain ⟨hq, h⟩ := tablesInit_spec (B := B) hlive
  obtain ⟨-, -, hreu, hboot⟩ := sqtabInit_spec (B := B) s
  obtain ⟨⟨hds, hdq, -⟩, -⟩ := B.mem.regions_apart
  refine ⟨hq, fun _ => ?_, fun _ => MulRowAt.rows h.rows, fun hK => DblRowAt.rows (h.dbl hK), ?_⟩
  · rw [h.boot.live, hboot.live, hlive]
  · simp only [Apart] at hds hdq
    rw [h.boot.ram _ (by simp only [MemMap.staging, MemMap.mulSrc2Buf]; omega),
      hboot.ram _ (by simp only [MemMap.table, MemMap.mulSrc2Buf]; omega), hg]

/-! ## One build, and one machine -/

/-- The unrelocated build at the default split, with its segments clear of
each other. -/
def Build.standard : Build where
  zp := .default
  mem :=
    { data := 0x4000
      stage := 0x5000
      sqtab := 0x7800
      code := 0x900
      codeSize := 0x3000
      probeScratch := 0x900
      data_aligned := rfl
      stage_aligned := rfl
      sqtab_aligned := rfl
      probeScratch_mem := by decide
      placed := by decide
      apart := by decide }
  onchip := false
  sqrDmaK := 22
  reuBank := 0
  settleIter := 8
  sqrDmaK_lt := by decide
  sqrDmaK_onchip := by decide
  reuBank_le := by decide
  settleIter_le := by decide

/-- A machine with a unit that answers, and zero everywhere else. -/
def Machine.blank : Machine where
  zp _ := 0
  ram _ := 0
  opLo _ := 0
  opHi _ := 0
  tramp := .sqrInner
  var _ := 0
  flagI := false
  reu :=
    { reg := fun _ => 0
      latch := fun _ => 0
      mem := fun _ => 0
      status := fun _ => 0x40
      live := true
      log := [] }

theorem blank_ready : Ready Build.standard (tablesInit Build.standard .blank) :=
  tablesInit_ready rfl rfl

end C64X25519
