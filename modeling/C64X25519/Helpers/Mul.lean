import C64X25519.Helpers.Fetch
import C64X25519.Helpers.MulRow
import C64X25519.Helpers.QuarterSquare
/-!
# The product of two field elements

Each row is staged — fetched from the expansion unit, or generated at the
bytes of the second operand — and accumulated; 32 rows leave the product in
the accumulator, and the reduction its fold in the destination.
-/

namespace C64X25519

open Machine

variable {B : Build} {s t : Machine} {a b d : FieldBuf B.mem} {i j k : ℕ} {v : Byte}

/-! ## Staging a row -/

/-- A row of `A` staged for the second operand in `b`: what the row reads is
there, and of the rest only `mul` scratch has changed. -/
structure Staged (B : Build) (b : FieldBuf B.mem) (A : ℕ) (s t : Machine) : Prop where
  entry : ∀ j, j < 32 → staged B t (t.ram (b.addr + j)) = A * (t.ram (b.addr + j)).toNat
  frame : Frame B B.mem.work s t
  ops : KeepsOps s t
  zp : ∀ x, ¬ B.span .feMulJ x → t.zp x = s.zp x
  latch : B.onchip = false → FetchLatch B s → FetchLatch B t

theorem Staged.slot {A : ℕ} (h : Staged B b A s t) {x : Slot} (hx : x ≠ .feMulJ) :
    t.zp (B.slot x) = s.zp (B.slot x) :=
  h.zp _ (Build.not_span (i := 0) (Ne.symm hx) x.size_pos)

theorem Staged.wide {A : ℕ} (h : Staged B b A s t) : t.wide B 64 = s.wide B 64 :=
  leNat_congr fun _ hi => h.zp _ (Build.not_span (y := .feWide) (by decide) hi)

theorem work_stage {x : ℕ} (h : x < 0x300) : B.mem.work (B.mem.stage + x) := .inl ⟨by omega, by omega⟩

/-- The inlined fetch. -/
theorem mulRowDma_staged (hl : FetchLatch B s) (hlive : s.reu.live = true) (hr : MulRows B s) :
    Staged B b v.toNat s (mulRowDma B v s) := by
  have hfetch := mulRowDma_fetched (v := v) hl hlive
  have hlo : ∀ y : Byte, (mulRowDma B v s).ram (B.mem.mulDmaLo + y.toNat)
      = BitVec.ofNat 8 (v.toNat * y.toNat) := fun y => by
    rw [hfetch.ram, ← hr.lo v y]
    exact blit_add (Nat.zero_le _) (by omega)
  have hhi : ∀ y : Byte, (mulRowDma B v s).ram (B.mem.mulDmaHi + y.toNat)
      = BitVec.ofNat 8 (v.toNat * y.toNat / 0x100) := fun y => by
    rw [hfetch.ram, ← hr.hi v y, MemMap.mulDmaHi, Nat.add_assoc, blit_add (Nat.zero_le _) (by omega),
      ← Nat.add_assoc]
  refine ⟨fun j hj => ?_, hfetch.frame fun x h1 h2 => .inl ⟨h1, by omega⟩,
    fun x _ => ⟨by rw [hfetch.opLo], by rw [hfetch.opHi]⟩, fun x _ => by rw [hfetch.zp],
    fun _ _ => mulRowDma_latch hl hlive⟩
  rw [staged, hlo, hhi, BitVec.toNat_ofNat, BitVec.toNat_ofNat]
  have hle : v.toNat * ((mulRowDma B v s).ram (b.addr + j)).toNat ≤ 255 * 255 :=
    Nat.mul_le_mul (by omega) (by omega)
  omega

/-- One entry of the generated row, at the byte of the second operand at
`k`. -/
theorem mulGenEntry_spec {A : ℕ} (hsq : Sqtab B s) (h1 : s.opLo .smcSumAImm = v)
    (h2 : s.opLo .smcDiffAImm = v) (hA : s.op .genSrc2A = b.addr) (hB : s.op .genSrc2B = b.addr)
    (hk : k < 32) (hv : v.toNat = A)
    (hentry : ∀ j, k + 1 ≤ j → j < 32 →
      staged B s (s.ram (b.addr + j)) = A * (s.ram (b.addr + j)).toNat) :
    let t := mulGenEntry B k s
    (∀ j, k ≤ j → j < 32 → staged B t (t.ram (b.addr + j)) = A * (t.ram (b.addr + j)).toNat) ∧
      Frame B B.mem.work s t ∧ KeepsOps s t ∧ (∀ x, ¬ B.span .feMulJ x → t.zp x = s.zp x) ∧
      t.opLo = s.opLo ∧ t.reu = s.reu := by
  intro t
  have hopA : (s.setZp (B.slot .feMulJ) (BitVec.ofNat 8 k)).op .genSrc2A = b.addr := hA
  set s1 := s.setZp (B.slot .feMulJ) (BitVec.ofNat 8 k) with hs1
  have hsq1 : Sqtab B s1 := ⟨hsq.lo, hsq.hi⟩
  obtain ⟨hprod, hf, hram, hzp, hlo, hreu, hops⟩ :=
    ctMul8x8_spec (D := B.mem.work) (y := s.ram (b.addr + k)) hsq1 h1 h2
  set s2 := ctMul8x8 B (s.ram (b.addr + k)) s1 with hs2
  have hj : (s2.zp (B.slot .feMulJ)).toNat = k := by
    rw [hzp, hs1, setZp_zp_self, BitVec.toNat_ofNat]
    exact Nat.mod_eq_of_lt (by omega)
  have hopB : s2.op .genSrc2B = b.addr := (hops.op (by decide)).trans hB
  set y := s.ram (b.addr + k) with hy
  have ht : t = (s2.setRam (B.mem.mulDmaLo + y.toNat) (s2.var .polyProdLo)).setRam
      (B.mem.mulDmaHi + y.toNat) (s2.var .polyProdHi) := by
    have hyr : s2.ram (b.addr + k) = y := by rw [hram]; rfl
    simp only [t, mulGenEntry, ← hs1, hopA, show s1.ram (b.addr + k) = y from rfl, ← hs2, hj, hopB, hyr,
      setRam_var]
  have htram : t.ram = Function.update (Function.update s.ram (B.mem.mulDmaLo + y.toNat)
      (s2.var .polyProdLo)) (B.mem.mulDmaHi + y.toNat) (s2.var .polyProdHi) := by
    rw [ht, setRam_ram, setRam_ram, hram]
    rfl
  have hframe : Frame B B.mem.work s t := by
    rw [ht]
    exact ((((Frame.refl s).setSlot rfl).trans hf).setRam (work_stage (x := y.toNat) (by omega))).setRam
      (by
        rw [MemMap.mulDmaHi, Nat.add_assoc]
        exact work_stage (by omega))
  have hbyte : ∀ j, j < 32 → t.ram (b.addr + j) = s.ram (b.addr + j) := fun j hj =>
    hframe.ram _ (B.mem.not_work (b.span_add hj))
  refine ⟨fun j hkj hj32 => ?_, hframe, ?_, fun x hx => ?_, ?_, ?_⟩
  · rw [hbyte j hj32]
    set z := s.ram (b.addr + j) with hz
    rcases eq_or_ne z y with hzy | hzy
    · -- the entry this turn writes
      have hne : B.mem.mulDmaLo + y.toNat ≠ B.mem.mulDmaHi + y.toNat := by
        simp only [MemMap.mulDmaLo, MemMap.mulDmaHi]
        omega
      rw [staged, hzy, htram, Function.update_self, Function.update_of_ne hne,
        Function.update_self, hprod, ← hv]
    · -- an entry of an earlier turn, at another byte
      have hjk : j ≠ k := fun h => hzy (by rw [hz, h])
      have hzn : z.toNat ≠ y.toNat := fun h => hzy (BitVec.eq_of_toNat_eq h)
      have hold := hentry j (by omega) hj32
      rw [← hz] at hold
      rw [← hold, staged, staged, htram]
      simp only [MemMap.mulDmaLo, MemMap.mulDmaHi]
      rw [Function.update_of_ne (by omega), Function.update_of_ne (by omega),
        Function.update_of_ne (by omega), Function.update_of_ne (by omega)]
  · rw [ht]
    exact fun x hx => hops x hx
  · rw [ht, setRam_zp, setRam_zp, hzp, hs1, setZp_zp]
    refine Function.update_of_ne ?_ _ _
    rintro rfl
    exact hx (Build.span_slot (i := 0) (by decide))
  · rw [ht, setRam_opLo, setRam_opLo, hlo]
    rfl
  · rw [ht, setRam_reu, setRam_reu, hreu]
    rfl

/-- The generated row: every entry the second operand asks for is written,
repeated and zero bytes included. -/
theorem mulRowGen_staged (hsq : Sqtab B s) (hA : s.op .genSrc2A = b.addr)
    (hB : s.op .genSrc2B = b.addr) (hon : B.onchip = true) :
    Staged B b v.toNat s (mulRowGen B v s) := by
  set s0 := s.patchLo [.smcSumAImm, .smcDiffAImm] v with hs0
  have hkeep : KeepsOps s s0 := fun x hx => by
    simp only [smcSites, List.mem_cons, List.not_mem_nil, or_false, not_or] at hx
    simp [hs0, hx.1, hx.2.1]
  have hrun := loopDown_inv (s := s0) (n := 32) (f := mulGenEntry B)
    (fun k t => (∀ j, k ≤ j → j < 32 →
        staged B t (t.ram (b.addr + j)) = v.toNat * (t.ram (b.addr + j)).toNat) ∧
      Frame B B.mem.work s t ∧ KeepsOps s t ∧ (∀ x, ¬ B.span .feMulJ x → t.zp x = s.zp x) ∧
      t.opLo = s0.opLo ∧ t.reu = s.reu)
    ⟨fun j h1 h2 => by omega, (Frame.refl s).patchLo, hkeep, fun _ _ => rfl, rfl, rfl⟩ ?_
  · obtain ⟨he, hf, ho, hz, -, hr⟩ := hrun
    exact ⟨fun j hj => he j (Nat.zero_le _) hj, hf, ho, hz, fun h => by rw [hon] at h; cases h⟩
  · rintro k hk t ⟨he, hf, ho, hz, hlo, hr⟩
    have hsqt : Sqtab B t := hsq.frame hf fun x hx => by
      obtain ⟨⟨-, hdq, -⟩, ⟨hsq, -⟩, -⟩ := B.mem.regions_apart
      simp only [MemMap.work, Apart, MemMap.mulSrc2Buf] at hx hdq hsq
      omega
    obtain ⟨he', hf', ho', hz', hlo', hr'⟩ := mulGenEntry_spec (A := v.toNat) (v := v) (k := k) hsqt
      (by rw [hlo]; simp [hs0]) (by rw [hlo]; simp [hs0]) ((ho.op (by decide)).trans hA)
      ((ho.op (by decide)).trans hB) hk rfl he
    exact ⟨he', hf.trans hf', ho.trans ho', fun x hx => (hz' x hx).trans (hz x hx),
      hlo'.trans hlo, hr'.trans hr⟩

/-! ## A row -/

/-- The operand bytes a row patches in: the accumulator's address from byte
`i`, and from the byte after it, neither sum with a carry. -/
theorem rowByte_spec {y : Byte} (hy : y.toNat = i) (hlt : i < 32) :
    (adc (BitVec.ofNat 8 (B.slot .feWide)) y false).1.toNat = B.slot .feWide + i ∧
      (adc (adc (BitVec.ofNat 8 (B.slot .feWide)) y false).1 1 false).1.toNat
        = B.slot .feWide + i + 1 ∧
      (adc (adc (BitVec.ofNat 8 (B.slot .feWide)) y false).1 1 false).2 = false := by
  have hw := B.wide_span
  have hb : (BitVec.ofNat 8 (B.slot .feWide)).toNat = B.slot .feWide := by
    rw [BitVec.toNat_ofNat]
    exact Nat.mod_eq_of_lt (by omega)
  have hl : (adc (BitVec.ofNat 8 (B.slot .feWide)) y false).1.toNat = B.slot .feWide + i := by
    rw [adc_fst_of_lt, hb, hy]
    · rfl
    · rw [hb, hy]
      change _ + _ + 0 < 256
      omega
  set l := (adc (BitVec.ofNat 8 (B.slot .feWide)) y false).1 with hldef
  have hm : (adc l 1 false).1.toNat + 256 * (adc l 1 false).2.toNat = l.toNat + 1 + 0 :=
    adc_val l 1 false
  refine ⟨hl, by omega, ?_⟩
  cases h : (adc l 1 false).2
  · rfl
  · rw [h] at hm
    simp only [Bool.toNat_true] at hm
    omega

theorem zpx_of {y : Site} (h : (s.opLo y).toNat = B.slot .feWide + i) (x : ℕ) :
    s.zpx y x = B.wideAt (i + x) := by
  rw [zpx, h, Build.wideAt, Nat.add_assoc]

/-- The patches of row `i`, and the clear carry behind the second sum. -/
theorem mulPatch_spec (hi : (s.zp (B.slot .feMulI)).toNat = i) (hlt : i < 32)
    (h2 : ∀ u, s.op (.ldySrc2 u) = b.addr) :
    (mulPatch B s).1 = false ∧ MulOps B b i (mulPatch B s).2 := by
  obtain ⟨hl, hm, hc⟩ := rowByte_spec (B := B) hi hlt
  have hx1 : ∀ {t : Machine} {y : Site}, t.opLo y
      = (adc (BitVec.ofNat 8 (B.slot .feWide)) (s.zp (B.slot .feMulI)) false).1 →
        ∀ x, t.zpx y x = B.wideAt (i + x) := fun h => zpx_of (by rw [h, hl])
  have hx2 : ∀ {t : Machine} {y : Site}, t.opLo y
      = (adc (adc (BitVec.ofNat 8 (B.slot .feWide)) (s.zp (B.slot .feMulI)) false).1 1 false).1 →
        ∀ x, t.zpx y x = B.wideAt (i + 1 + x) := fun h => zpx_of (by rw [h, hm, Nat.add_assoc])
  unfold mulPatch
  extract_lets l s1 m
  refine ⟨hc, ⟨fun u => ?_, fun u => hx1 ?_, fun u => hx1 ?_, fun u => hx2 ?_, fun u => hx2 ?_,
    fun u => hx2 ?_, fun u => hx2 ?_⟩⟩
  · rw [← h2 u]
    cases u <;> simp [op, s1]
  all_goals cases u <;> simp [s1, l, m]

/-- With no carry pending, the end-of-row ripple adds nothing. -/
theorem mulRipple_spec {w : Inner} (hp : pending B w.s = 0) :
    ∃ v, mulRipple B w = w.s.setZp (B.slot .mulRippleStart) v := by
  have hz : ∀ v, (w.s.setZp (B.slot .mulRippleStart) v).zp (B.slot .mulPending) = 0 := fun v => by
    rw [setZp_zp_slot (by decide)]
    exact BitVec.eq_of_toNat_eq hp
  unfold mulRipple
  extract_lets l start s1 n
  refine ⟨start.1, ?_⟩
  split
  · rfl
  · rw [show s1.zp (B.slot .mulPending) = 0 from hz _, ripple_zero]

/-- The multiplication before row `i`, from the state `s`: the product of
the first `i` bytes of the first operand and the whole second one. -/
structure MulInv (B : Build) (a b : FieldBuf B.mem) (s : Machine) (i : ℕ) (t : Machine) :
    Prop where
  frame : Frame B B.mem.work s t
  index : (t.zp (B.slot .feMulI)).toNat = i
  src1 : t.op .loadSrc1 = a.addr
  src2 : ∀ u, t.op (.ldySrc2 u) = b.addr
  gen : B.onchip = true → t.op .genSrc2A = b.addr ∧ t.op .genSrc2B = b.addr
  latch : B.onchip = false → FetchLatch B t
  value : t.wide B 64 = leNat (fun k => s.ram (a.addr + k)) i * s.fe b.addr

theorem work_not_sqtab {x : ℕ} (h : B.mem.work x) :
    ¬ (B.mem.sqtab ≤ x ∧ x < B.mem.sqtab + 0x400) := by
  obtain ⟨⟨-, hdq, -⟩, ⟨hsq, -⟩, -⟩ := B.mem.regions_apart
  simp only [MemMap.work, Apart, MemMap.mulSrc2Buf] at h hdq hsq
  omega

theorem not_work_guard : ¬ B.mem.work (B.mem.mulSrc2Buf + 32) := by
  obtain ⟨⟨hds, -⟩, -⟩ := B.mem.regions_apart
  simp only [MemMap.work, Apart, MemMap.mulSrc2Buf] at hds ⊢
  omega

theorem Ready.work (h : Ready B s) (hf : Frame B B.mem.work s t) : Ready B t :=
  h.frame hf (fun _ => work_not_sqtab) not_work_guard

theorem MulReady.work (h : MulReady B s) (hf : Frame B B.mem.work s t) : MulReady B t where
  sqtab hb := (h.sqtab hb).frame hf fun _ => work_not_sqtab
  live hb := hf.live.trans (h.live hb)
  mulRows hb := ⟨by rw [hf.mem]; exact (h.mulRows hb).lo, by rw [hf.mem]; exact (h.mulRows hb).hi⟩

/-- The head of row `i`: the row of the first operand's byte is staged, the
bound is set and no carry is pending. -/
theorem mulRow_spec (hr : MulReady B s) (h : MulInv B a b s i t) (hi : i < 32) :
    ∃ t1, Staged B b (s.ram (a.addr + i)).toNat t1 (mulRow B t) ∧
      t1 = (t.setZp (B.slot .mulPending) 0).setZp (B.slot .mulBound)
        (sbc 63 ((t.setZp (B.slot .mulPending) 0).zp (B.slot .feMulI)) true).1 := by
  refine ⟨_, ?_, rfl⟩
  have hidx : ((t.setZp (B.slot .mulPending) 0).zp (B.slot .feMulI)).toNat = i := by
    rw [setZp_zp_slot (by decide)]
    exact h.index
  set t1 := (t.setZp (B.slot .mulPending) 0).setZp (B.slot .mulBound)
    (sbc 63 ((t.setZp (B.slot .mulPending) 0).zp (B.slot .feMulI)) true).1 with ht1
  have hf1 : Frame B B.mem.work s t1 := (h.frame.setSlot rfl).setSlot rfl
  have hrow : mulRow B t
      = if B.onchip then mulRowGen B (s.ram (a.addr + i)) t1
        else mulRowDma B (s.ram (a.addr + i)) t1 := by
    have hidx1 : (t1.zp (B.slot .feMulI)).toNat = i := by
      rw [ht1, setZp_zp_slot (by decide)]
      exact hidx
    have hbyte : t1.ram (a.addr + i) = s.ram (a.addr + i) :=
      hf1.ram _ (B.mem.not_work (a.span_add hi))
    simp only [mulRow, ← ht1, hidx1, show t1.op .loadSrc1 = a.addr from h.src1, hbyte]
  rw [hrow]
  cases hon : B.onchip
  · exact mulRowDma_staged ((h.latch hon).congr rfl rfl) ((hr.work hf1).live hon)
      ((hr.work hf1).mulRows hon)
  · exact mulRowGen_staged ((hr.work hf1).sqtab hon) (h.gen hon).1 (h.gen hon).2 hon

theorem mulPatch_frame {D : ℕ → Prop} (h : Frame B D s t) : Frame B D s (mulPatch B t).2 :=
  h.patchLo.patchLo

theorem mulPatch_op {x : Site} (hx : x = .loadSrc1 ∨ x = .genSrc2A ∨ x = .genSrc2B ∨
    ∃ u, x = .ldySrc2 u) : (mulPatch B s).2.op x = s.op x := by
  rcases hx with rfl | rfl | rfl | ⟨u, rfl⟩
  · simp [mulPatch, op]
  · simp [mulPatch, op]
  · simp [mulPatch, op]
  · cases u <;> simp [mulPatch, op]

theorem MulInv.partial_lt (a b : FieldBuf B.mem) (s : Machine) (i : ℕ) :
    leNat (fun k => s.ram (a.addr + k)) i * s.fe b.addr < 256 ^ (i + 32) := by
  rw [pow_add]
  exact Nat.mul_lt_mul'' leNat_lt leNat_lt

/-- What `@mul_inner` is entered with in a row. -/
def mulHead (B : Build) (t : Machine) : Inner :=
  let p := mulPatch B (mulRow B t)
  ⟨0, p.1, p.2⟩

/-- The operands a row leaves aimed. -/
def mulSites : List Site :=
  [.loadSrc1, .genSrc2A, .genSrc2B, .ldySrc2 .a, .ldySrc2 .b, .ldySrc2 .c, .ldySrc2 .d]

/-- The head of row `i`, from the state `t` and with the byte `A` of the first
operand: the row is ready, nothing is pending, and there is room for its
products. -/
structure MulStart (B : Build) (b : FieldBuf B.mem) (i A : ℕ) (t u : Machine) : Prop where
  head : mulHead B t = ⟨0, false, u⟩
  ready : RowReady B b i A u
  pend : pending B u = 0
  wide : u.wide B 64 = t.wide B 64
  room : u.wide B 64 + 256 ^ i * (A * u.fe b.addr) < 256 ^ 64
  frame : Frame B B.mem.work t u
  index : (u.zp (B.slot .feMulI)).toNat = i
  op : ∀ x ∈ mulSites, u.op x = t.op x
  latch : B.onchip = false → FetchLatch B u

/-- The products of one more row. -/
theorem mulRow_next {f : ℕ → Byte} {n i : ℕ} :
    leNat f i * n + 256 ^ i * ((f i).toNat * n) = leNat f (i + 1) * n := by
  rw [leNat_succ]
  ring

theorem MulInv.start (hr : MulReady B s) (h : MulInv B a b s i t) (hi : i < 32) :
    MulStart B b i (s.ram (a.addr + i)).toNat t (mulHead B t).s := by
  obtain ⟨t1, hst, ht1⟩ := mulRow_spec hr h hi
  have hhead : mulHead B t = ⟨0, (mulPatch B (mulRow B t)).1, (mulPatch B (mulRow B t)).2⟩ := rfl
  rw [hhead]
  set t2 := mulRow B t with ht2
  have hf1 : Frame B B.mem.work t t1 := by
    rw [ht1]
    exact ((Frame.refl t).setSlot rfl).setSlot rfl
  have hf2 := hf1.trans hst.frame
  -- the slots after the head of the row
  have hidx : (t2.zp (B.slot .feMulI)).toNat = i := by
    rw [hst.slot (by decide), ht1, setZp_zp_slot (by decide), setZp_zp_slot (by decide)]
    exact h.index
  have hpend : pending B t2 = 0 := by
    rw [pending, hst.slot (by decide), ht1, setZp_zp_slot (by decide), setZp_zp_self]
    rfl
  have hbound : (t2.zp (B.slot .mulBound)).toNat = 63 - i := by
    rw [hst.slot (by decide), ht1, setZp_zp_self, setZp_zp_slot (by decide),
      sbc_fst_of_le (by rw [h.index]; change i ≤ 63; omega), h.index]
    rfl
  have hwide : t2.wide B 64 = t.wide B 64 := by
    rw [hst.wide, ht1, wide_setSlot (by decide) le_rfl, wide_setSlot (by decide) le_rfl]
  have hop : ∀ x ∈ mulSites, t2.op x = t.op x := fun x hx => by
    have hsmc : x ∉ smcSites := by
      revert hx
      revert x
      decide
    rw [hst.ops.op hsmc, ht1]
    rfl
  -- the patched row
  obtain ⟨hcar, hops⟩ := mulPatch_spec (s := t2) hidx hi fun u =>
    (hop _ (by cases u <;> decide)).trans (h.src2 u)
  have hfeb : (mulPatch B t2).2.fe b.addr = s.fe b.addr :=
    (h.frame.trans hf2).fe_eq fun k hk => B.mem.not_work (b.span_add hk)
  refine ⟨by rw [hhead, hcar], ⟨hops, hbound, hst.entry⟩, hpend, hwide, ?_, mulPatch_frame hf2, hidx,
    fun x hx => ?_, fun hon => ?_⟩
  · have hlt := MulInv.partial_lt a b s (i + 1)
    have hpow : 256 ^ (i + 1 + 32) ≤ 256 ^ 64 := Nat.pow_le_pow_right (by omega) (by omega)
    have hnext := mulRow_next (f := fun k => s.ram (a.addr + k)) (n := s.fe b.addr) (i := i)
    change t2.wide B 64 + _ < _
    rw [hfeb, hwide, h.value, hnext]
    exact lt_of_lt_of_le hlt hpow
  · rw [← hop x hx]
    refine mulPatch_op ?_
    revert hx
    cases x <;> simp [mulSites]
  · have hl1 : FetchLatch B t1 := by
      rw [ht1]
      exact (h.latch hon).congr rfl rfl
    exact (hst.latch hon hl1).congr rfl rfl

/-- **The carry of a row is spent at its end**: the magnitude of the products
so far leaves nothing pending. -/
theorem MulInv.spent (h : MulInv B a b s i t) (hi : i < 32) {u : Machine}
    (hs : MulStart B b i (s.ram (a.addr + i)).toNat t u) :
    pending B (mulBodies B ⟨0, false, u⟩ 32).s = 0 ∧
      (mulBodies B ⟨0, false, u⟩ 32).s.wide B 64
        = leNat (fun k => s.ram (a.addr + k)) (i + 1) * s.fe b.addr := by
  have hat := (mulBodies_at hs.ready hs.pend hi hs.room (le_refl 32)).1
  set w := mulBodies B ⟨0, false, u⟩ 32 with hw
  have hfeb : u.fe b.addr = s.fe b.addr :=
    (h.frame.trans hs.frame).fe_eq fun k hk => B.mem.not_work (b.span_add hk)
  have hval : w.s.wide B 64 + 256 ^ (i + 32 + 2) * pending B w.s
      = leNat (fun k => s.ram (a.addr + k)) (i + 1) * s.fe b.addr := by
    rw [hat.value, ← Machine.fe, hfeb, hs.wide, h.value,
      mulRow_next (f := fun k => s.ram (a.addr + k))]
  have hzero : pending B w.s = 0 := by
    by_contra hne
    have hge : 256 ^ (i + 32 + 2) ≤ 256 ^ (i + 32 + 2) * pending B w.s :=
      Nat.le_mul_of_pos_right _ (Nat.pos_of_ne_zero hne)
    have hpow : 256 ^ (i + 1 + 32) ≤ 256 ^ (i + 32 + 2) :=
      Nat.pow_le_pow_right (by omega) (by omega)
    have hlt := MulInv.partial_lt a b s (i + 1)
    omega
  refine ⟨hzero, ?_⟩
  rw [← hval, hzero, mul_zero, add_zero]

/-- A row, from its bodies: the ripple finds nothing to do. -/
theorem MulInv.outer (h : MulInv B a b s i t) (hi : i < 32) {u : Machine}
    (hs : MulStart B b i (s.ram (a.addr + i)).toNat t u) :
    ∃ v, mulRipple B (mulBodies B ⟨0, false, u⟩ 32)
        = (mulBodies B ⟨0, false, u⟩ 32).s.setZp (B.slot .mulRippleStart) v ∧
      (mulOuter B t).1 = ((mulBodies B ⟨0, false, u⟩ 32).s.setZp (B.slot .mulRippleStart)
        v).setZp (B.slot .feMulI) ((mulBodies B ⟨0, false, u⟩ 32).s.zp (B.slot .feMulI) + 1) := by
  obtain ⟨v, hrip⟩ := mulRipple_spec (h.spent hi hs).1
  have heq := mulInner_eq hs.ready hs.pend hi hs.room
  refine ⟨v, hrip, ?_⟩
  have hout : (mulOuter B t).1 = (mulRipple B (doWhile (mulInner B) 0x100 (mulHead B t))).setZp
      (B.slot .feMulI) ((mulRipple B (doWhile (mulInner B) 0x100 (mulHead B t))).zp
        (B.slot .feMulI) + 1) := rfl
  rw [hout, hs.head, heq, hrip, setZp_zp_slot (by decide)]

/-- **One row of the multiplication.** -/
theorem mulOuter_spec (hr : MulReady B s) (h : MulInv B a b s i t) (hi : i < 32) :
    MulInv B a b s (i + 1) (mulOuter B t).1 ∧ (mulOuter B t).2 = decide (i + 1 < 32) := by
  have hs := h.start hr hi
  set u := (mulHead B t).s with hu
  obtain ⟨hzero, hwide⟩ := h.spent hi hs
  obtain ⟨v, -, hout⟩ := h.outer hi hs
  have hat := (mulBodies_at hs.ready hs.pend hi hs.room (le_refl 32)).1
  set w := mulBodies B ⟨0, false, u⟩ 32 with hw
  have hidx : (w.s.zp (B.slot .feMulI)).toNat = i := by
    rw [hat.inZp.slot (by simp)]
    exact hs.index
  have hidx' : ((mulOuter B t).1.zp (B.slot .feMulI)).toNat = i + 1 := by
    rw [hout, setZp_zp_self]
    exact toNat_add_one hidx (by omega)
  have hop : ∀ x ∈ mulSites, (mulOuter B t).1.op x = t.op x := fun x hx => by
    rw [hout]
    exact (hat.inZp.op _).trans (hs.op x hx)
  refine ⟨⟨?_, hidx', ?_, fun u => ?_, fun hon => ⟨?_, ?_⟩, fun hon => ?_, ?_⟩, ?_⟩
  · rw [hout]
    exact (((h.frame.trans hs.frame).trans (hat.inZp.frame (by decide))).setSlot rfl).setSlot rfl
  · exact (hop _ (by decide)).trans h.src1
  · exact (hop _ (by cases u <;> decide)).trans (h.src2 u)
  · exact (hop _ (by decide)).trans (h.gen hon).1
  · exact (hop _ (by decide)).trans (h.gen hon).2
  · have hreu : (mulOuter B t).1.reu = u.reu := by
      rw [hout]
      exact hat.inZp.reu
    exact (hs.latch hon).congr (by rw [hreu]) (by rw [hreu])
  · rw [hout, wide_setSlot (by decide) le_rfl, wide_setSlot (by decide) le_rfl, hwide]
  · have hagain : (mulOuter B t).2 = !cmp ((mulOuter B t).1.zp (B.slot .feMulI)) 32 := rfl
    rw [hagain, cmp, hidx', ← decide_not]
    exact decide_eq_decide.2 not_le

/-! ## The routine -/

/-- The accumulator after it is cleared, up to `n` bytes of it. -/
theorem clear_spec {n m : ℕ} (hn : n ≤ 64) (hm : m ≤ n) :
    (loopDown (fun x s => s.setZp (B.wideAt x) 0) n s).wide B m = 0 ∧
      InZp B [.feWide] s (loopDown (fun x s => s.setZp (B.wideAt x) 0) n s) := by
  have hrun := loopDown_inv (s := s) (n := n) (f := fun x s => s.setZp (B.wideAt x) 0)
    (fun k t => (∀ j, k ≤ j → j < n → t.zp (B.slot .feWide + j) = 0) ∧ InZp B [.feWide] s t)
    ⟨fun j h1 h2 => by omega, InZp.refl s⟩ ?_
  · refine ⟨?_, hrun.2⟩
    rw [wide, leNat_congr (g := fun _ => 0) fun i hi => hrun.1 i (Nat.zero_le _) (by omega)]
    exact Radix.value_const_zero
  · rintro k hk t ⟨hz, hin⟩
    refine ⟨fun j h1 h2 => ?_, hin.setWide (by simp) (by omega)⟩
    rw [setZp_zp, Build.wideAt_eq (by omega)]
    rcases eq_or_ne j k with rfl | hne
    · exact Function.update_self _ _ _
    · rw [Function.update_of_ne (by omega)]
      exact hz j (by omega) h2

theorem entryStores_frame {D : ℕ → Prop} (s : Machine) : Frame B D s (entryStores B s) := by
  rw [entryStores]
  split
  · exact Frame.refl s
  · exact (Frame.refl s).writeReg.writeReg

theorem reuClearWide_spec {D : ℕ → Prop} (s : Machine) :
    (reuClearWide B s).wide B 64 = 0 ∧ Frame B D s (reuClearWide B s) := by
  obtain ⟨hw, hin⟩ := clear_spec (B := B) (s := s) (le_refl 64) (le_refl 64)
  rw [reuClearWide]
  simp only
  split
  · exact ⟨hw, hin.frame (by decide)⟩
  · exact ⟨hw, (hin.frame (by decide)).writeReg.writeReg.writeReg.writeReg⟩

/-- `fe25519_mul` up to its loop over the rows. -/
def mulEntry (B : Build) (s : Machine) : Machine :=
  let s := entryStores B s
  let s := reuClearWide B s
  let s := s.patchPtr B [.ldySrc2 .a, .ldySrc2 .b, .ldySrc2 .c, .ldySrc2 .d] .fe25519Src2
  let s := if B.onchip then s.patchPtr B [.genSrc2A, .genSrc2B] .fe25519Src2 else s
  let s := s.patchPtr B [.loadSrc1] .fe25519Src1
  s.setZp (B.slot .feMulI) 0

theorem mulEntry_spec (h1 : s.ptr B .fe25519Src1 = a.addr) (h2 : s.ptr B .fe25519Src2 = b.addr) :
    MulInv B a b s 0 (mulEntry B s) := by
  obtain ⟨hw, hfc⟩ := reuClearWide_spec (B := B) (D := B.mem.work) (entryStores B s)
  unfold mulEntry
  set s1 := reuClearWide B (entryStores B s) with hs1
  have hf1 : Frame B B.mem.work s s1 := (entryStores_frame s).trans hfc
  set s2 := s1.patchPtr B [.ldySrc2 .a, .ldySrc2 .b, .ldySrc2 .c, .ldySrc2 .d] .fe25519Src2 with hs2
  set s3 := (if B.onchip then s2.patchPtr B [.genSrc2A, .genSrc2B] .fe25519Src2 else s2) with hs3
  set s4 := (s3.patchPtr B [.loadSrc1] .fe25519Src1).setZp (B.slot .feMulI) 0 with hs4
  have hp1 : s1.ptr B .fe25519Src1 = a.addr := (hf1.ptr rfl rfl).trans h1
  have hp2 : s1.ptr B .fe25519Src2 = b.addr := (hf1.ptr rfl rfl).trans h2
  have hs3f : Frame B B.mem.work s s3 ∧ s3.reu = s1.reu ∧ s3.zp = s1.zp ∧
      (∀ u, s3.op (.ldySrc2 u) = b.addr) ∧
      (B.onchip = true → s3.op .genSrc2A = b.addr ∧ s3.op .genSrc2B = b.addr) := by
    have hld : ∀ u, s2.op (.ldySrc2 u) = b.addr := fun u =>
      (op_patchPtr (by cases u <;> decide)).trans hp2
    rw [hs3]
    split
    · refine ⟨hf1.patchPtr.patchPtr, rfl, rfl, fun u => ?_, fun _ => ⟨?_, ?_⟩⟩
      · exact (op_patchPtr_of_not_mem (by cases u <;> decide)).trans (hld u)
      · exact (op_patchPtr (by decide)).trans hp2
      · exact (op_patchPtr (by decide)).trans hp2
    · rename_i hon
      exact ⟨hf1.patchPtr, rfl, rfl, hld, fun h => absurd h hon⟩
  obtain ⟨hf3, hreu3, hzp3, hld3, hgen3⟩ := hs3f
  refine ⟨hf3.patchPtr.setSlot rfl, ?_, ?_, fun u => ?_, fun hon => ⟨?_, ?_⟩, fun hon => ?_, ?_⟩
  · rw [hs4, setZp_zp_self]
    rfl
  · exact (op_patchPtr (by decide)).trans ((ptr_congr hzp3 _).trans hp1)
  · exact (op_patchPtr_of_not_mem (by simp)).trans (hld3 u)
  · exact (op_patchPtr_of_not_mem (by decide)).trans (hgen3 hon).1
  · exact (op_patchPtr_of_not_mem (by decide)).trans (hgen3 hon).2
  · exact (fetchLatch_entry (s := s) hon).congr (congrArg Reu.reg hreu3)
      (congrArg Reu.latch hreu3)
  · rw [hs4, wide_setSlot (by decide) le_rfl, wide_congr (zp_patchPtr.trans hzp3), hw]
    simp

/-- The state in which row `i` of a multiplication begins. -/
def mulTurn (B : Build) (s : Machine) (i : ℕ) : Machine :=
  (fun t => (mulOuter B t).1)^[i] (mulEntry B s)

theorem mulTurn_succ : mulTurn B s (i + 1) = (mulOuter B (mulTurn B s i)).1 :=
  Function.iterate_succ_apply' ..

/-- **The rows of a multiplication.** -/
theorem mulTurn_spec (hr : MulReady B s) (h1 : s.ptr B .fe25519Src1 = a.addr)
    (h2 : s.ptr B .fe25519Src2 = b.addr) (hi : i ≤ 32) : MulInv B a b s i (mulTurn B s i) := by
  induction i with
  | zero => exact mulEntry_spec h1 h2
  | succ i ih =>
    rw [mulTurn_succ]
    exact (mulOuter_spec hr (ih (by omega)) (by omega)).1

theorem fe25519MulWide_eq (hr : MulReady B s) (h1 : s.ptr B .fe25519Src1 = a.addr)
    (h2 : s.ptr B .fe25519Src2 = b.addr) : fe25519MulWide B s = mulTurn B s 32 :=
  doWhile_eq_iterate (N := 32) (by omega) (by omega) fun _ hk =>
    (mulOuter_spec hr (mulTurn_spec hr h1 h2 hk.le) hk).2

/-- **The product is exact** when the reduction begins, whatever the
accumulator held before and wherever the destination is. -/
theorem fe25519MulWide_spec (hr : MulReady B s) (h1 : s.ptr B .fe25519Src1 = a.addr)
    (h2 : s.ptr B .fe25519Src2 = b.addr) :
    (fe25519MulWide B s).wide B 64 = s.fe a.addr * s.fe b.addr ∧
      Frame B B.mem.work s (fe25519MulWide B s) := by
  have hrun := mulTurn_spec hr h1 h2 (le_refl 32)
  rw [fe25519MulWide_eq hr h1 h2]
  exact ⟨hrun.value, hrun.frame⟩

/-- The addresses `fe25519_mul` and its kin may change: the destination and
the working memory. -/
def FieldBuf.dirty (d : FieldBuf B.mem) (x : ℕ) : Prop := d.span x ∨ B.mem.work x

/-- The end of a multiplication: reduced and copied. -/
theorem copyReduced_spec (hf : Frame B B.mem.work s t) (hd : s.ptr B .fe25519Dst = d.addr) :
    (copyResult B (feReduceWide B t)).fe d.addr = reduceWide (t.wide B 64) ∧
      Frame B d.dirty s (copyResult B (feReduceWide B t)) := by
  obtain ⟨hv, hin⟩ := feReduceWide_spec (B := B) (s := t)
  have hf1 : Frame B B.mem.work s (feReduceWide B t) := hf.trans (hin.frame (by decide))
  obtain ⟨hfe, hfd⟩ := copyResult_spec (B := B) ((hf1.ptr rfl rfl).trans hd)
  exact ⟨hfe.trans hv, (hf1.mono fun _ => .inr).trans (hfd.mono fun _ => .inl)⟩

/-- **`fe25519_mul`**, for any destination and any aliasing. -/
theorem fe25519Mul_spec (hr : MulReady B s) (h1 : s.ptr B .fe25519Src1 = a.addr)
    (h2 : s.ptr B .fe25519Src2 = b.addr) (hd : s.ptr B .fe25519Dst = d.addr) :
    (fe25519Mul B s).fe d.addr = reduceWide (s.fe a.addr * s.fe b.addr) ∧
      Frame B d.dirty s (fe25519Mul B s) := by
  obtain ⟨hw, hf⟩ := fe25519MulWide_spec hr h1 h2
  rw [← hw]
  exact copyReduced_spec hf hd

end C64X25519
