import C64X25519.Helpers.Stash
/-!
# The product rows

`reu_mul_init` bakes one factor into the byte multiplier, fills the staging
pages with its products, and stashes the pages; 256 rows fill the pair of
banks, and the doubled rows theirs.
-/

namespace C64X25519

open Machine

variable {B : Build} {s t : Machine} {a : Byte} {k : ℕ}

/-! ## What a product leaves behind -/

/-- The variables of the byte multiplier. -/
def ctVars : List Var := [.polyProdLo, .polyProdHi, .ctDiffRaw, .ctSignMask]

/-- Their values after the product of `a` and `y`. -/
def ctVar (a y : Byte) (x : Var) : Byte :=
  match x with
  | .polyProdLo => BitVec.ofNat 8 (a.toNat * y.toNat)
  | .polyProdHi => BitVec.ofNat 8 (a.toNat * y.toNat / 0x100)
  | .ctDiffRaw => (sbc y a true).1
  | _ => (sbc 0 0 (sbc y a true).2).1

/-- The pages the product has patched. -/
def ctPage (B : Build) (a y : Byte) (x : Site) : Byte :=
  let lo := adc (BitVec.ofNat 8 (B.mem.sqtabLo / 0x100)) 0 (adc y a false).2
  match x with
  | .smcLoAddr => lo.1
  | _ => (adc lo.1 (BitVec.ofNat 8 (B.mem.sqtabHi / 0x100 - B.mem.sqtabLo / 0x100)) lo.2).1

/-- The byte multiplier holds what the product of `a` and `y` leaves. -/
structure CtLeft (B : Build) (a y : Byte) (t : Machine) : Prop where
  var : ∀ x ∈ ctVars, t.var x = ctVar a y x
  baked : t.opLo .smcSumAImm = a ∧ t.opLo .smcDiffAImm = a
  pages : ∀ x ∈ [Site.smcLoAddr, .smcHiAddr], t.opHi x = ctPage B a y x

/-- **The product as an initialiser's step.** -/
theorem ctMul8x8_boot (h : Sqtab B s) {y : Byte} (h1 : s.opLo .smcSumAImm = a)
    (h2 : s.opLo .smcDiffAImm = a) :
    CtLeft B a y (ctMul8x8 B y s) ∧ (ctMul8x8 B y s).opLo = s.opLo ∧
      (ctMul8x8 B y s).reu = s.reu ∧ Boot ctVars (fun _ => False) s (ctMul8x8 B y s) ∧
      ∀ x, x ≠ .smcLoAddr → x ≠ .smcHiAddr → (ctMul8x8 B y s).opHi x = s.opHi x := by
  obtain ⟨hval, -, hram, hzp, hop, hreu, hkeep⟩ :=
    ctMul8x8_spec (D := fun _ => False) h (y := y) h1 h2
  have hlo := ((ctMul8x8 B y s).var .polyProdLo).isLt
  have hhi := ((ctMul8x8 B y s).var .polyProdHi).isLt
  have hraw : (ctMul8x8 B y s).var .ctDiffRaw = (sbc y (s.opLo .smcDiffAImm) true).1 := rfl
  have hsign : (ctMul8x8 B y s).var .ctSignMask
    = (sbc 0 0 (sbc y (s.opLo .smcDiffAImm) true).2).1 := rfl
  have hplo : (ctMul8x8 B y s).opHi .smcLoAddr
    = (adc (BitVec.ofNat 8 (B.mem.sqtabLo / 0x100)) 0 (adc y (s.opLo .smcSumAImm) false).2).1 := rfl
  refine ⟨⟨fun x hx => ?_, ⟨by rw [hop, h1], by rw [hop, h2]⟩, fun x hx => ?_⟩, hop, hreu,
    ⟨hzp, fun _ _ => by rw [hram], hkeep, ?_, fun x hx => ?_, ?_, by rw [hreu]⟩, fun x h0 h3 => ?_⟩
  · simp only [ctVars, List.mem_cons, List.not_mem_nil, or_false] at hx
    rcases hx with rfl | rfl | rfl | rfl
    · refine BitVec.eq_of_toNat_eq ?_
      rw [ctVar, BitVec.toNat_ofNat, ← hval]
      omega
    · refine BitVec.eq_of_toNat_eq ?_
      rw [ctVar, BitVec.toNat_ofNat, ← hval]
      omega
    · rw [hraw, h2, ctVar]
    · exact hsign.trans (by rw [h2]; rfl)
  · simp only [List.mem_cons, List.not_mem_nil, or_false] at hx
    rcases hx with rfl | rfl
    · exact hplo.trans (by rw [h1]; rfl)
    · rw [← h1]
      rfl
  · simp only [ctMul8x8, setVar_tramp, patchHi_tramp]
  · simp only [ctVars, List.mem_cons, List.not_mem_nil, or_false, not_or] at hx
    obtain ⟨n0, n1, n2, n3⟩ := hx
    simp only [ctMul8x8, setVar_var, patchHi_var, Function.update_of_ne, ne_eq, n0, n1, n2, n3,
      not_false_eq_true]
  · simp only [ctMul8x8, setVar_flagI, patchHi_flagI]
  · simp only [ctMul8x8, setVar_opHi, patchHi_opHi, List.mem_cons, List.not_mem_nil, or_false, h0,
      h3, if_false]

/-! ## One row of products -/

/-- The variables of `reu_mul_init` besides those of settling. -/
def rowVars : List Var := .reuInitB :: ctVars

/-- The two pages a row is staged in. -/
def MemMap.rowPages (M : MemMap) (a : ℕ) : Prop := M.stage ≤ a ∧ a < M.stage + 0x200

theorem MemMap.staging_of_rowPages {M : MemMap} {x : ℕ} (h : M.rowPages x) : M.staging x :=
  ⟨h.1, by have := h.2; omega⟩

/-- The loop `@inner` before the product with `k`, in the row of `a`. -/
structure EntryAt (B : Build) (a : Byte) (s : Machine) (k : ℕ) (t : Machine) : Prop where
  lo : ∀ x, x < k → t.ram (B.mem.mulDmaLo + x) = BitVec.ofNat 8 (a.toNat * x)
  hi : ∀ x, x < k → t.ram (B.mem.mulDmaHi + x) = BitVec.ofNat 8 (a.toNat * x / 0x100)
  count : (t.var .reuInitB).toNat = k % 0x100
  baked : t.opLo = s.opLo
  left : ∀ n, k = n + 1 → CtLeft B a (BitVec.ofNat 8 n) t
  opHi : ∀ x, x ≠ .smcLoAddr → x ≠ .smcHiAddr → t.opHi x = s.opHi x
  reu : t.reu = s.reu
  boot : Boot rowVars B.mem.rowPages s t

/-- The table is out of the way of the staging pages. -/
theorem Sqtab.boot {V : List Var} (h : Sqtab B s) (hb : Boot V B.mem.staging s t) : Sqtab B t := by
  obtain ⟨-, ⟨hst, -⟩, -⟩ := B.mem.regions_apart
  constructor
  · intro n hn
    rw [hb.ram _ (by simp only [MemMap.staging, MemMap.sqtabLo, Apart] at hst ⊢; omega)]
    exact h.lo n hn
  · intro n hn
    rw [hb.ram _ (by simp only [MemMap.staging, MemMap.sqtabHi, Apart] at hst ⊢; omega)]
    exact h.hi n hn

theorem CtLeft.congr {y : Byte} {u : Machine} (h : CtLeft B a y t)
    (hv : ∀ x ∈ ctVars, u.var x = t.var x) (hlo : u.opLo = t.opLo) (hhi : u.opHi = t.opHi) :
    CtLeft B a y u :=
  ⟨fun x hx => (hv x hx).trans (h.var x hx), by rw [hlo]; exact h.baked, by rw [hhi]; exact h.pages⟩

theorem reuMulEntry_spec (hq : Sqtab B s) (h1 : s.opLo .smcSumAImm = a)
    (h2 : s.opLo .smcDiffAImm = a) (h : EntryAt B a s k t) (hk : k < 0x100) :
    EntryAt B a s (k + 1) (reuMulEntry B t).1 ∧
      (reuMulEntry B t).2 = decide (k + 1 < 0x100) := by
  have hcount : (t.var .reuInitB).toNat = k := h.count.trans (Nat.mod_eq_of_lt hk)
  have hy : t.var .reuInitB = BitVec.ofNat 8 k := BitVec.eq_of_toNat_eq (by
    rw [BitVec.toNat_ofNat]
    exact h.count)
  obtain ⟨hleft, hop, hreu, hboot, hpage⟩ := ctMul8x8_boot
    (hq.boot (h.boot.mono (fun _ => id) fun _ => MemMap.staging_of_rowPages)) (y := t.var .reuInitB)
    (by rw [h.baked, h1]) (by rw [h.baked, h2])
  unfold reuMulEntry
  extract_lets t1 x t2 t3 t4
  change CtLeft B a _ t1 at hleft
  change t1.opLo = _ at hop
  change t1.reu = _ at hreu
  change Boot ctVars _ t t1 at hboot
  change ∀ x, _ → _ → t1.opHi x = _ at hpage
  have hx : x = k := by
    simp only [x, hboot.var .reuInitB (by decide), hcount]
  clear_value t1
  have hlo3 : t2.var .polyProdHi = t1.var .polyProdHi := rfl
  have hpl : t1.var .polyProdLo = BitVec.ofNat 8 (a.toNat * k) := by
    rw [hleft.var _ (by decide), ctVar, hcount]
  have hph : t1.var .polyProdHi = BitVec.ofNat 8 (a.toNat * k / 0x100) := by
    rw [hleft.var _ (by decide), ctVar, hcount]
  have hram : t4.ram = Function.update (Function.update t.ram (B.mem.mulDmaLo + k)
      (BitVec.ofNat 8 (a.toNat * k))) (B.mem.mulDmaHi + k)
      (BitVec.ofNat 8 (a.toNat * k / 0x100)) := by
    rw [← hpl, ← hph, ← hboot.ram_eq, ← hx]
    rfl
  have h4b : t4.var .reuInitB = t.var .reuInitB + 1 := by
    rw [show t4 = _ from rfl, setVar_var_self, ← hboot.var .reuInitB (by decide)]
    rfl
  have hvar4 : ∀ x ∈ ctVars, t4.var x = t1.var x := fun x hx =>
    setVar_var_of_ne (by rintro rfl; exact absurd hx (by decide))
  have hb4 : Boot rowVars B.mem.rowPages t t4 := by
    refine (((hboot.mono (fun x hx => List.mem_cons_of_mem _ hx) fun _ => False.elim).setRam
      ?_).setRam ?_).setVar (by decide)
    · simp only [MemMap.rowPages, MemMap.mulDmaLo, hx]
      omega
    · simp only [MemMap.rowPages, MemMap.mulDmaHi, hx]
      omega
  refine ⟨⟨fun n hn => ?_, fun n hn => ?_, ?_, ?_, fun n hn => ?_, fun z hz hz' => ?_, ?_,
    h.boot.trans hb4⟩, ?_⟩
  · rw [hram, Function.update_of_ne (by simp only [MemMap.mulDmaLo, MemMap.mulDmaHi]; omega)]
    rcases Nat.lt_succ_iff_lt_or_eq.1 hn with hlt | rfl
    · rw [Function.update_of_ne (by omega)]
      exact h.lo n hlt
    · exact Function.update_self _ _ _
  · rw [hram]
    rcases Nat.lt_succ_iff_lt_or_eq.1 hn with hlt | rfl
    · rw [Function.update_of_ne (by omega), Function.update_of_ne
        (by simp only [MemMap.mulDmaLo, MemMap.mulDmaHi]; omega)]
      exact h.hi n hlt
    · exact Function.update_self _ _ _
  · rw [h4b, BitVec.toNat_add, hcount]
    rfl
  · exact hop.trans h.baked
  · obtain rfl : k = n := by omega
    rw [hy] at hleft
    exact hleft.congr hvar4 rfl rfl
  · exact (hpage z hz hz').trans (h.opHi z hz hz')
  · exact hreu.trans h.reu
  · change (t4.var .reuInitB != 0) = _
    rw [h4b, bne_zero, BitVec.toNat_add, hcount, show (1 : Byte).toNat = 1 from rfl]
    refine decide_eq_decide.2 ?_
    omega

/-- The staged row of `a`, and what its last product leaves. -/
structure RowStaged (B : Build) (a : Byte) (s t : Machine) : Prop where
  staged : StagedPages B (fun x => a.toNat * x) t
  count : t.var .reuInitB = 0
  left : CtLeft B a 0xff t
  opLo : t.opLo = s.opLo
  opHi : ∀ x, x ≠ .smcLoAddr → x ≠ .smcHiAddr → t.opHi x = s.opHi x
  reu : t.reu = s.reu
  boot : Boot rowVars B.mem.rowPages s t

/-- **One row of products.** -/
theorem reuMulRow_spec (hq : Sqtab B s) (h1 : s.opLo .smcSumAImm = a)
    (h2 : s.opLo .smcDiffAImm = a) :
    RowStaged B a s (doWhile (reuMulEntry B) 0x100 (s.setVar .reuInitB 0)) := by
  have h : EntryAt B a s 0x100 (doWhile (reuMulEntry B) 0x100 (s.setVar .reuInitB 0)) := by
    refine doWhile_inv (N := 0x100) (m := 0x100) (EntryAt B a s)
      ⟨fun x hx => ?_, fun x hx => ?_, ?_, rfl, fun n hn => ?_, fun _ _ _ => rfl, rfl,
        (Boot.refl s).setVar (by decide)⟩ (by omega) (by omega)
      fun k hk t ht => reuMulEntry_spec hq h1 h2 ht hk
    · omega
    · omega
    · rw [setVar_var_self]
      rfl
    · omega
  exact ⟨⟨h.lo, h.hi⟩, BitVec.eq_of_toNat_eq h.count, h.left 0xff rfl, h.baked, h.opHi, h.reu,
    h.boot⟩

/-! ## The stashes of a row -/

/-- The bytes of the unit that hold the row of `a`. -/
def Build.rowSpan (B : Build) (a y : ℕ) : Prop :=
  B.reuBank * 0x10000 + 0x200 * a ≤ y ∧ y < B.reuBank * 0x10000 + 0x200 * a + 0x200

/-- From `s` to `t` the row of `a` has gone to the unit. -/
structure RowStashed (B : Build) (v : ℕ → ℕ) (a : Byte) (s t : Machine) : Prop where
  lo : ∀ x, x < 0x100 → t.reu.mem (B.reuBank * 0x10000 + 0x200 * a.toNat + x) = BitVec.ofNat 8 (v x)
  hi : ∀ x, x < 0x100 → t.reu.mem (B.reuBank * 0x10000 + 0x200 * a.toNat + 0x100 + x)
    = BitVec.ofNat 8 (v x / 0x100)
  mem : ∀ y, ¬ B.rowSpan a.toNat y → t.reu.mem y = s.reu.mem y
  regHi : t.reu.reg .reuHi = (asl a).1 ||| 1 ∧ t.reu.latch .reuHi = (asl a).1 ||| 1
  regBank : t.reu.reg .reuBank = (adc (BitVec.ofNat 8 B.reuBank) 0 (asl a).2).1 ∧
    t.reu.latch .reuBank = (adc (BitVec.ofNat 8 B.reuBank) 0 (asl a).2).1
  opLo : t.opLo = s.opLo
  opHi : t.opHi = s.opHi
  boot : Boot settleVars (fun _ => False) s t

theorem Build.reuBank_lt (B : Build) : B.reuBank ≤ 30 := by
  have h := B.reuBank_le
  split at h <;> omega

theorem reuMulStash_spec {v : ℕ → ℕ} (hlive : s.reu.live = true) (h : StagedPages B v s) :
    RowStashed B v (s.var .reuInitA) s (reuMulStash B s) := by
  have hbank := B.reuBank_lt
  have hpl := B.mem.placed_stage
  unfold reuMulStash
  extract_lets s1 r s2 s3 u1 s4 r' s5 s6
  set a := s.var .reuInitA
  -- the low page
  have hlow : PageStashed B.mem.mulDmaLo (adc (BitVec.ofNat 8 B.reuBank) 0 (asl a).2).1
      (asl a).1 s u1 :=
    page_stashed [0] false (.inl rfl) hlive (by rw [MemMap.mulDmaLo]; omega)
  have hlive1 : u1.reu.live = true := by rw [hlow.boot.live, hlive]
  have ha1 : u1.var .reuInitA = a := hlow.boot.var _ (by decide)
  clear_value u1
  -- the high page
  have hhigh : PageStashed B.mem.mulDmaHi (adc (BitVec.ofNat 8 B.reuBank) 0 (asl a).2).1
      ((asl a).1 ||| 1) u1 (stash B (((s6.writeReg .lenLo 0).writeReg .lenHi 1).writeReg
        .addrCtrl 0)) := by
    rw [← ha1]
    exact page_stashed [0] true (.inl rfl) hlive1 (by rw [MemMap.mulDmaHi]; omega)
  obtain ⟨t, ht⟩ : ∃ q, q = stash B (((s6.writeReg .lenLo 0).writeReg .lenHi 1).writeReg
    .addrCtrl 0) := ⟨_, rfl⟩
  rw [← ht] at hhigh ⊢
  obtain ⟨hlo, hhi, hmem⟩ := pair_stashed (by omega) hlow hhigh h
  exact ⟨hlo, hhi, hmem, hhigh.hi, hhigh.bank, hhigh.opLo.trans hlow.opLo,
    hhigh.opHi.trans hlow.opHi, hlow.boot.trans hhigh.boot⟩

end C64X25519
