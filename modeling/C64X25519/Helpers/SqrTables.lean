import C64X25519.Helpers.Init
/-!
# The private tables of a deferring build

`x25519_sqr_tables_init` fetches the rows another library stashed, whatever
the state that library left the unit in, and sends the doubled rows behind
them as `reu_mul_init` does.
-/

namespace C64X25519

open Machine

variable {B : Build} {s t : Machine} {a : Byte} {k : ℕ}

/-- The variables of `x25519_sqr_tables_init`. -/
def sqrTablesVars : List Var := .sqrTablesRow :: settleVars

/-- A fetch is an initialiser's step. -/
theorem Fetched.boot {c b l : ℕ} {D : ℕ → Prop} (h : Fetched c b l s t)
    (hD : ∀ x, c ≤ x → x < c + l → D x) : Boot settleVars D s t where
  zp := h.zp
  ram y hy := h.outside fun hin => hy (hD y hin.1 hin.2)
  ops _ _ := ⟨by rw [h.opLo], by rw [h.opHi]⟩
  tramp := h.tramp
  var x hx := h.var x (by revert hx; cases x <;> decide)
  flagI := h.flagI
  live := h.live

/-- **The fetch of a provider's row**, from any registers. -/
theorem fetchRow_spec (hlive : s.reu.live = true) (hrow : MulRowAt B s.reu.mem a.toNat)
    (hr : RegsOnly s t) (hc : t.reu.c64 = B.mem.mulDmaLo)
    (haddr : t.reu.addr = B.reuBank * 0x10000 + 0x200 * a.toNat) (hlen : t.reu.len = 0x200)
    (hctl : t.reu.reg .addrCtrl = 0) :
    StagedPages B (fun x => a.toNat * x) (reuSettle B (t.reuCommand 0b10110001)) ∧
      (reuSettle B (t.reuCommand 0b10110001)).reu.mem = s.reu.mem ∧
      Boot settleVars B.mem.rowPages s (reuSettle B (t.reuCommand 0b10110001)) := by
  have hbank := B.reuBank_lt
  have hpl := B.mem.placed_stage
  have hfetch := (fetch_spec (B := B) (hr.live.trans hlive) hc haddr hlen hctl
    (by rw [MemMap.mulDmaLo]; omega) (by omega)).regsOnly hr
  obtain ⟨u, hu⟩ : ∃ q, q = reuSettle B (t.reuCommand 0b10110001) := ⟨_, rfl⟩
  rw [← hu] at hfetch ⊢
  refine ⟨⟨fun x hx => ?_, fun x hx => ?_⟩, hfetch.mem, hfetch.boot fun x h1 h2 => ⟨h1, h2⟩⟩
  · rw [hfetch.ram, blit_add (Nat.zero_le _) (by omega)]
    exact (hrow x hx).1
  · rw [hfetch.ram, show B.mem.mulDmaHi = B.mem.mulDmaLo + 0x100 from rfl, Nat.add_assoc,
      blit_add (Nat.zero_le _) (by omega), ← Nat.add_assoc]
    exact (hrow x hx).2

/-- The loop of `x25519_sqr_tables_init` before row `k`. -/
structure SqrTablesAt (B : Build) (s : Machine) (k : ℕ) (t : Machine) : Prop where
  dbl : ∀ a, a < k → DblRowAt B t.reu.mem a
  mem : ∀ y, (∀ a, a < 0x100 → ¬ B.dblSpan a y) → t.reu.mem y = s.reu.mem y
  count : (t.var .sqrTablesRow).toNat = k % 0x100
  regHi : ∀ n, k = n + 1 →
    t.reu.reg .reuHi = BitVec.ofNat 8 n ∧ t.reu.latch .reuHi = BitVec.ofNat 8 n
  regBank : ∀ n, k = n + 1 → t.reu.reg .reuBank = BitVec.ofNat 8 B.reuBankCarry ∧
    t.reu.latch .reuBank = BitVec.ofNat 8 B.reuBankCarry
  boot : Boot sqrTablesVars B.mem.staging s t

theorem sqrTablesOuter_spec (hlive : s.reu.live = true) (hK : B.sqrDmaK ≠ 0)
    (hrows : ∀ a, a < 0x100 → MulRowAt B s.reu.mem a) (h : SqrTablesAt B s k t)
    (hk : k < 0x100) : SqrTablesAt B s (k + 1) (sqrTablesOuter B t).1 ∧
      (sqrTablesOuter B t).2 = decide (k + 1 < 0x100) := by
  have hbank := B.reuBank_lt
  have hpl := B.mem.placed_stage
  obtain ⟨a, ha⟩ : ∃ a, a = t.var .sqrTablesRow := ⟨_, rfl⟩
  have hak : a.toNat = k := by rw [ha, h.count, Nat.mod_eq_of_lt hk]
  have hofNat : BitVec.ofNat 8 k = a := BitVec.eq_of_toNat_eq (by
    rw [BitVec.toNat_ofNat, hak]
    exact Nat.mod_eq_of_lt hk)
  have hlivet : t.reu.live = true := h.boot.live.trans hlive
  have hrowt : MulRowAt B t.reu.mem a.toNat := by
    rw [hak]
    exact (hrows k hk).congr fun y hy => h.mem y fun b _ => Build.rowSpan_not_dblSpan hk hy
  unfold sqrTablesOuter
  extract_lets t1 t2 r t3 t4 t5 t6 t7
  -- the fetch
  have hregs : RegsOnly t t4 :=
    (RegsOnly.writeRegs (l := latchWrites B.mem.mulDmaLo 2) (.refl t)).writeReg.writeReg
  have haddr : t4.reu.addr = B.reuBank * 0x10000 + 0x200 * a.toNat := by
    have hhi : t4.reu.reg .reuHi = (asl a).1 := by
      simp [t4, t3, r, t2, t1, writeC64, ha]
    have hbk : t4.reu.reg .reuBank = (adc (BitVec.ofNat 8 B.reuBank) 0 (asl a).2).1 := by
      simp [t4, r, t2, t1, writeC64, ha]
    rw [Reu.addr_of (by simp [t4, t3, t2, t1, writeC64]) rfl rfl, hhi, hbk]
    exact row_addr _ a (by omega)
  obtain ⟨hst, hmem5, hb5⟩ := fetchRow_spec (t := t4) hlivet hrowt hregs
    (Reu.c64_of (c := B.mem.mulDmaLo) (by simp [t4, t3, t2, t1, writeC64])
      (by simp [t4, t3, t2, t1, writeC64]) (by rw [MemMap.mulDmaLo]; omega)) haddr
    (Reu.len_of (l := 2) (by simp [t4, t3, t2, t1, writeC64])
      (by simp [t4, t3, t2, t1, writeC64]) (by omega)) (by simp [t4, t3, t2, t1, writeC64])
  change StagedPages B _ t5 at hst
  change t5.reu.mem = _ at hmem5
  change Boot settleVars _ t t5 at hb5
  have ha5 : t5.var .sqrTablesRow = a := (hb5.var _ (by decide)).trans ha.symm
  clear_value t5
  -- the doubled row
  have hdbl := x25519DblStashRow_spec .sqrTablesRow (hb5.live.trans hlivet) hK (by decide)
    (fun x hx => mul_byte_lt a hx) hst
  rw [ha5] at hdbl
  change DblStashed B _ a t5 t6 at hdbl
  have ha6 : t6.var .sqrTablesRow = a := (hdbl.boot.var _ (by decide)).trans ha5
  clear_value t6
  have h7 : t7.var .sqrTablesRow = a + 1 := by
    rw [show t7 = _ from rfl, setVar_var_self, ha6]
  have hb7 : Boot sqrTablesVars B.mem.staging t t7 := by
    refine (((hb5.mono ?_ fun _ => MemMap.staging_of_rowPages).trans
      (hdbl.boot.mono ?_ fun _ => id))).setVar (by decide)
    all_goals exact fun x hx => List.mem_cons_of_mem _ hx
  have hmem : ∀ y, ¬ B.dblSpan k y → t6.reu.mem y = t.reu.mem y := fun y hy => by
    rw [← hmem5]
    exact hdbl.mem y (by rwa [hak])
  refine ⟨⟨fun b hb => ?_, fun y hy => (hmem y (hy k hk)).trans (h.mem y hy), ?_, fun n hn => ?_,
    fun _ _ => hdbl.regBank, h.boot.trans hb7⟩, ?_⟩
  · change DblRowAt B t6.reu.mem b
    rcases Nat.lt_succ_iff_lt_or_eq.1 hb with hlt | rfl
    · exact (h.dbl b hlt).congr fun y hy =>
        hmem y (Build.dblSpan_apart (by omega) (by omega) hk hy)
    · rw [← hak]
      exact fun x hx => ⟨hdbl.lo x hx, hdbl.hi x hx, hdbl.carry x hx⟩
  · rw [h7, BitVec.toNat_add, hak]
    rfl
  · obtain rfl : k = n := by omega
    rw [hofNat]
    exact hdbl.regHi
  · change (t7.var .sqrTablesRow != 0) = _
    rw [h7, bne_zero, BitVec.toNat_add, hak, show (1 : Byte).toNat = 1 from rfl]
    refine decide_eq_decide.2 ?_
    omega

/-- What `x25519_sqr_tables_init` leaves. -/
structure SqrTablesDone (B : Build) (s t : Machine) : Prop where
  dbl : ∀ a, a < 0x100 → DblRowAt B t.reu.mem a
  mem : ∀ y, (∀ a, a < 0x100 → ¬ B.dblSpan a y) → t.reu.mem y = s.reu.mem y
  latch : LatchReset B t
  regHi : t.reu.reg .reuHi = 0xff ∧ t.reu.latch .reuHi = 0xff
  regBank : t.reu.reg .reuBank = BitVec.ofNat 8 B.reuBankCarry ∧
    t.reu.latch .reuBank = BitVec.ofNat 8 B.reuBankCarry
  boot : Boot sqrTablesVars B.mem.staging s t

/-- **`x25519_sqr_tables_init`.** -/
theorem x25519SqrTablesInit_spec (hlive : s.reu.live = true) (hK : B.sqrDmaK ≠ 0)
    (hrows : ∀ a, a < 0x100 → MulRowAt B s.reu.mem a) :
    SqrTablesDone B s (x25519SqrTablesInit B s) := by
  obtain ⟨u, hu⟩ : ∃ q, q = doWhile (sqrTablesOuter B) 0x100
    ((s.setVar .x25519ReuFault 0).setVar .sqrTablesRow 0) := ⟨_, rfl⟩
  have h : SqrTablesAt B s 0x100 u := by
    rw [hu]
    refine doWhile_inv (N := 0x100) (m := 0x100) (SqrTablesAt B s)
      ⟨fun a ha => ?_, fun _ _ => rfl, rfl, fun n hn => ?_, fun n hn => ?_,
        ((Boot.refl s).setVar (by decide)).setVar (by decide)⟩
      (by omega) (by omega) fun k hk t ht => sqrTablesOuter_spec hlive hK hrows ht hk
    all_goals omega
  have ht : x25519SqrTablesInit B s = restoreFetchLatch B u := by
    rw [hu]
    rfl
  obtain ⟨hlatch, hr1, hl1, hr2, hl2, hregs⟩ := restoreFetchLatch_spec (B := B) u
  rw [ht]
  refine ⟨by rw [hregs.mem]; exact h.dbl, by rw [hregs.mem]; exact h.mem, hlatch, ?_, ?_, ?_⟩
  · rw [hr1, hl1]
    exact h.regHi 255 rfl
  · rw [hr2, hl2]
    exact h.regBank 255 rfl
  · refine h.boot.trans ⟨?_, fun _ _ => ?_, fun _ _ => ⟨?_, ?_⟩, ?_, fun _ _ => ?_, ?_, hregs.live⟩
    all_goals
      rw [hregs.rest]

/-- **A deferring build is ready** like any other. -/
theorem x25519SqrTablesInit_ready (hlive : s.reu.live = true)
    (hK : B.sqrDmaK ≠ 0) (hrows : ∀ a, a < 0x100 → MulRowAt B s.reu.mem a) (hq : Sqtab B s)
    (hg : s.ram (B.mem.mulSrc2Buf + 32) = 0) : Ready B (x25519SqrTablesInit B s) := by
  have h := x25519SqrTablesInit_spec hlive hK hrows
  obtain ⟨⟨hds, -, -⟩, -⟩ := B.mem.regions_apart
  refine ⟨hq.boot h.boot, fun _ => by rw [h.boot.live, hlive], fun _ => MulRowAt.rows fun a ha =>
    (hrows a ha).congr fun y hy => h.mem y fun b _ => Build.rowSpan_not_dblSpan ha hy,
    fun _ => DblRowAt.rows h.dbl, ?_⟩
  simp only [Apart] at hds
  rw [h.boot.ram _ (by simp only [MemMap.staging, MemMap.mulSrc2Buf]; omega), hg]

end C64X25519
