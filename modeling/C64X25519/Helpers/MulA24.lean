import C64X25519.Helpers.Mul
/-!
# The product with the curve constant

The product of 32 bytes and a 17-bit constant ends in byte 34, so two folds
reduce it, with three bytes to fold in the first. The carry of each stage is
kept in `fe_carry` and weighted by the byte it is owed to.
-/

namespace C64X25519

open Machine

variable {B : Build} {s t : Machine} {a d : FieldBuf B.mem} {i k : ℕ} {D : ℕ → Prop}

/-! ## The product -/

/-- The four bytes of a product with the constant. -/
theorem a24_val (y : Byte) :
    (a24B0 y).toNat + 256 * (a24B1 y).toNat + 65536 * (a24B2 y).toNat + 16777216 * (a24B3 y).toNat
      = 121665 * y.toNat := by
  have hlt : 121665 * y.toNat < 0x100000000 := by omega
  simp only [a24B0, a24B1, a24B2, a24B3, BitVec.toNat_ofNat]
  generalize 121665 * y.toNat = n at hlt ⊢
  have h2 : n / 0x10000 = n / 0x100 / 0x100 := (Nat.div_div_eq_div_mul n 0x100 0x100).symm
  have h3 : n / 0x1000000 = n / 0x100 / 0x100 / 0x100 := by
    rw [← h2]
    exact (Nat.div_div_eq_div_mul n 0x10000 0x100).symm
  rw [h2, h3]
  omega

/-- The rows before row `i`, from the state `s`. -/
structure A24Inv (B : Build) (a : FieldBuf B.mem) (s : Machine) (i : ℕ) (t : Machine) : Prop where
  frame : Frame B B.mem.work s t
  index : i < 32 → (t.zp (B.slot .feMulI)).toNat = i
  value : t.wide B 37 = 121665 * leNat (fun k => s.ram (a.addr + k)) i

/-- **One row.** The two absorptions carry nothing out, by the magnitude of
the sum. -/
theorem a24Outer_spec (h1 : s.ptr B .fe25519Src1 = a.addr) (h : A24Inv B a s i t) (hi : i < 32) :
    A24Inv B a s (i + 1) (a24Outer B t).1 ∧ (a24Outer B t).2 = decide (i + 1 < 32) := by
  have hidx := h.index hi
  have hbyte : t.ram (t.ptr B .fe25519Src1 + i) = s.ram (a.addr + i) := by
    rw [h.frame.ptr rfl rfl, h1]
    exact h.frame.ram _ (B.mem.not_work (a.span_add hi))
  have hvalue := h.value
  set f := fun k => s.ram (a.addr + k) with hf
  set y := s.ram (a.addr + i) with hy
  -- the four bytes of the product and the two absorptions
  obtain ⟨t1, ht1⟩ : ∃ u, u = adcWide B i (a24B0 y) (false, t) := ⟨_, rfl⟩
  obtain ⟨t2, ht2⟩ : ∃ u, u = adcWide B (i + 1) (a24B1 y) t1 := ⟨_, rfl⟩
  obtain ⟨t3, ht3⟩ : ∃ u, u = adcWide B (i + 2) (a24B2 y) t2 := ⟨_, rfl⟩
  obtain ⟨t4, ht4⟩ : ∃ u, u = adcWide B (i + 3) (a24B3 y) t3 := ⟨_, rfl⟩
  obtain ⟨t5, ht5⟩ : ∃ u, u = adcWide B (i + 4) 0 t4 := ⟨_, rfl⟩
  obtain ⟨t6, ht6⟩ : ∃ u, u = adcWide B (i + 5) 0 t5 := ⟨_, rfl⟩
  have hstep : ∀ {k v} {u u' : Bool × Machine}, u' = adcWide B k v u → k < 37 →
      u'.2.wide B 37 + 256 ^ (k + 1) * u'.1.toNat
        = u.2.wide B 37 + 256 ^ k * (v.toNat + u.1.toNat) := fun h hk => by
    rw [h]
    exact adcWide_spec hk (by omega)
  have hin : InZp B [.feWide] t t6.2 := by
    rw [ht6, ht5, ht4, ht3, ht2, ht1]
    exact ((((((InZp.refl t).adcWide (w := (false, t)) (by simp) (by omega)).adcWide (by simp)
      (by omega)).adcWide (by simp) (by omega)).adcWide (by simp) (by omega)).adcWide (by simp)
      (by omega)).adcWide (by simp) (by omega)
  have hsum : t6.2.wide B 37 + 256 ^ (i + 6) * t6.1.toNat
      = 121665 * leNat f (i + 1) := by
    have e1 := hstep ht1 (by omega)
    have e2 := hstep ht2 (by omega)
    have e3 := hstep ht3 (by omega)
    have e4 := hstep ht4 (by omega)
    have e5 := hstep ht5 (by omega)
    have e6 := hstep ht6 (by omega)
    have hval := a24_val y
    have hq : 256 ^ i * (121665 * y.toNat) = 256 ^ i * ((a24B0 y).toNat + 256 * (a24B1 y).toNat
      + 65536 * (a24B2 y).toNat + 16777216 * (a24B3 y).toNat) := by rw [hval]
    rw [leNat_succ, show f i = y from rfl]
    simp only [Bool.toNat_false, add_zero, pow_succ, show (0 : Byte).toNat = 0 from rfl,
      zero_add] at e1 e2 e3 e4 e5 e6 ⊢
    linarith
  have hcarry : t6.1.toNat = 0 := by
    by_contra hne
    have hlt : leNat f (i + 1) < 256 ^ (i + 1) := leNat_lt
    have hge : 256 ^ (i + 6) ≤ 256 ^ (i + 6) * t6.1.toNat :=
      Nat.le_mul_of_pos_right _ (Nat.pos_of_ne_zero hne)
    have hpow : 256 ^ (i + 6) = 256 ^ (i + 1) * 1099511627776 := by
      rw [show i + 6 = i + 1 + 5 by omega, pow_add]
      norm_num
    omega
  rw [hcarry, mul_zero, add_zero] at hsum
  have hout : a24Outer B t = if i + 1 < 32
      then (t6.2.setZp (B.slot .feMulI) (BitVec.ofNat 8 (i + 1)), true) else (t6.2, false) := by
    simp only [a24Outer, hidx, hbyte, ← ht1, ← ht2, ← ht3, ← ht4, ← ht5, ← ht6]
  have hframe : Frame B B.mem.work s t6.2 := h.frame.trans (hin.frame (by decide))
  rw [hout]
  split
  · rename_i hlt
    refine ⟨⟨hframe.setSlot rfl, fun _ => ?_, ?_⟩, (decide_eq_true hlt).symm⟩
    · rw [setZp_zp_self, BitVec.toNat_ofNat]
      exact Nat.mod_eq_of_lt (by omega)
    · rw [wide_setSlot (by decide) (by omega)]
      exact hsum
  · rename_i hlt
    exact ⟨⟨hframe, fun h => absurd h hlt, hsum⟩, (decide_eq_false hlt).symm⟩

/-- **The product is exact** when the fold begins. -/
theorem fe25519MulA24Wide_spec (h1 : s.ptr B .fe25519Src1 = a.addr) :
    (fe25519MulA24Wide B s).wide B 37 = 121665 * s.fe a.addr ∧
      Frame B B.mem.work s (fe25519MulA24Wide B s) := by
  obtain ⟨hw, hin⟩ := clear_spec (B := B) (s := entryStores B s) (n := 37) (by omega) le_rfl
  have hrun := doWhile_inv (N := 32) (m := 0x100) (g := a24Outer B) (A24Inv B a s)
    (s := (loopDown (fun x s => s.setZp (B.wideAt x) 0) 37 (entryStores B s)).setZp
      (B.slot .feMulI) 0) ?_ (by omega) (by omega) fun k hk t ht => a24Outer_spec h1 ht hk
  · exact ⟨hrun.value, hrun.frame⟩
  · refine ⟨((entryStores_frame s).trans (hin.frame (by decide))).setSlot rfl, fun _ => ?_, ?_⟩
    · rw [setZp_zp_self]
      rfl
    · rw [wide_setSlot (by decide) (by omega), hw]
      rfl

/-! ## The fold -/

/-- The carry kept between the stages. -/
def kept (B : Build) (s : Machine) : ℕ := (s.zp (B.slot .feCarry)).toNat

/-- The bytes of the high half are as they were. -/
def SameHigh (B : Build) (s t : Machine) : Prop :=
  ∀ j, 32 ≤ j → j < 64 → t.zp (B.wideAt j) = s.zp (B.wideAt j)

theorem SameHigh.trans {u : Machine} (h : SameHigh B s t) (h' : SameHigh B t u) :
    SameHigh B s u :=
  fun j h0 h1 => (h' j h0 h1).trans (h j h0 h1)

/-- **A stage** adds `38` times its byte, and keeps its carry. -/
theorem a24Stage_spec (hk : k + 1 < 32) (hc : kept B s < 255) :
    (a24Stage B k s).wide B 32 + 256 ^ (k + 2) * kept B (a24Stage B k s)
        = s.wide B 32 + 256 ^ k * (38 * (s.zp (B.wideAt (32 + k))).toNat)
          + 256 ^ (k + 2) * kept B s ∧
      kept B (a24Stage B k s) ≤ kept B s + 1 ∧ SameHigh B s (a24Stage B k s) ∧
      Frame B D s (a24Stage B k s) := by
  unfold a24Stage
  extract_lets y s1 s2 t1 t2
  have hlo : s2.var .polyProdLo = mul38LoTab y := by simp [s2, s1]
  have hhi : s2.var .polyProdHi = mul38HiTab y := by simp [s2]
  have e1 := adcWide_spec (B := B) (u := (false, s2)) (v := s2.var .polyProdLo) (k := k) (n := 32)
    (by omega) (by omega)
  have e2 := adcWide_spec (B := B) (u := t1) (v := s2.var .polyProdHi) (k := k + 1) (n := 32)
    hk (by omega)
  have hin : InZp B [.feWide] s2 t2.2 :=
    ((InZp.refl s2).adcWide (w := (false, s2)) (by simp) (by omega)).adcWide (by simp) (by omega)
  have hkept : t2.2.zp (B.slot .feCarry) = s.zp (B.slot .feCarry) := hin.slot (by simp)
  have htab := mul38_val y
  have hc2 := carry_le t2.1
  have hsum : kept B (t2.2.setZp (B.slot .feCarry) (adc (t2.2.zp (B.slot .feCarry)) 0 t2.1).1)
      = kept B s + t2.1.toNat := by
    rw [kept, setZp_zp_self, hkept, adc_fst_of_lt]
    · rfl
    · change kept B s + 0 + _ < 256
      omega
  refine ⟨?_, by omega, fun j h1 h2 => ?_, ?_⟩
  · rw [hsum, wide_setSlot (by decide) (by omega), show s.zp (B.wideAt (32 + k)) = y from rfl,
      ← htab]
    rw [hlo] at e1
    rw [hhi] at e2
    change t1.2.wide B 32 + _ * t1.1.toNat = s.wide B 32 + _ at e1
    change t2.2.wide B 32 + _ * t2.1.toNat = _ at e2
    simp only [Bool.toNat_false, add_zero, pow_succ] at e1 e2 ⊢
    linarith
  · rw [setZp_zp_wideAt h2 (by decide)]
    have h3 : t2.2.zp (B.wideAt j) = t1.2.zp (B.wideAt j) :=
      setWide_zp_wideAt h2 (by omega) (by omega)
    have h4 : t1.2.zp (B.wideAt j) = s2.zp (B.wideAt j) :=
      setWide_zp_wideAt h2 (by omega) (by omega)
    rw [h3, h4]
    rfl
  · exact ((((Frame.refl s).setVar rfl).setVar rfl).trans (hin.frame (by decide))).setSlot rfl

/-- **A bridge** pays the kept carry to byte `k`. -/
theorem a24Bridge_spec (hk : k < 32) :
    (a24Bridge B k s).wide B 32 + 256 ^ (k + 1) * kept B (a24Bridge B k s)
        = s.wide B 32 + 256 ^ k * kept B s ∧
      kept B (a24Bridge B k s) ≤ 1 ∧ SameHigh B s (a24Bridge B k s) ∧
      Frame B D s (a24Bridge B k s) := by
  unfold a24Bridge
  extract_lets t1
  have e1 := adcWide_spec (B := B) (u := (false, s)) (v := s.zp (B.slot .feCarry)) (k := k)
    (n := 32) (by omega) (by omega)
  have hin : InZp B [.feWide] s t1.2 :=
    (InZp.refl s).adcWide (w := (false, s)) (by simp) (by omega)
  have hc := carry_le t1.1
  have hsum : kept B (t1.2.setZp (B.slot .feCarry) (adc 0 0 t1.1).1) = t1.1.toNat := by
    rw [kept, setZp_zp_self, adc_zero_fst]
  refine ⟨?_, by omega, fun j h1 h2 => ?_, (hin.frame (by decide)).setSlot rfl⟩
  · rw [hsum, wide_setSlot (by decide) (by omega)]
    exact e1
  · rw [setZp_zp_wideAt h2 (by decide)]
    exact setWide_zp_wideAt h2 (by omega) (by omega)

/-- The second fold, of a carry that leaves little behind it. -/
theorem fold38_of_small {L H o c r : ℕ} (c' : ℕ) (h : o + 256 ^ 32 * c = L + 38 * H) (hL : L < 256 ^ 32)
    (hH : H < 2 ^ 24) (ho : o < 256 ^ 32) (hc : c ≤ 1) (h' : r + 256 ^ 32 * c' = o + 38 * c)
    (hr : r < 256 ^ 32) : r = fold38 (L + 38 * H) := by
  rw [fold38]
  omega

/-- The three stages of the fold, with the bridges between them. -/
def a24Stages (B : Build) (s : Machine) : Machine :=
  a24Stage B 2 (a24Bridge B 3 (a24Stage B 1 (a24Bridge B 2 (a24Stage B 0
    (s.setZp (B.slot .feCarry) 0)))))

/-- The stages leave the high bytes alone until they have read them, so all
three of them count. -/
theorem a24Stages_spec {h0 h1 h2 : Byte} (e0 : s.zp (B.wideAt 32) = h0)
    (e1 : s.zp (B.wideAt 33) = h1) (e2 : s.zp (B.wideAt 34) = h2) :
    (a24Stages B s).wide B 32 + 256 ^ 4 * kept B (a24Stages B s)
        = s.wide B 32 + 38 * (h0.toNat + 256 * h1.toNat + 65536 * h2.toNat) ∧
      Frame B D s (a24Stages B s) := by
  unfold a24Stages
  obtain ⟨s0, hs0⟩ : ∃ q, q = s.setZp (B.slot .feCarry) 0 := ⟨_, rfl⟩
  have hk0 : kept B s0 = 0 := by
    rw [kept, hs0, setZp_zp_self]
    rfl
  have hw0 : s0.wide B 32 = s.wide B 32 := by
    rw [hs0]
    exact wide_setSlot (by decide) (by omega)
  have hh0 : SameHigh B s s0 := fun j _ h => by
    rw [hs0]
    exact setZp_zp_wideAt h (by decide)
  have f0 : Frame B D s s0 := by
    rw [hs0]
    exact (Frame.refl s).setSlot rfl
  rw [← hs0]
  -- byte 32
  obtain ⟨v1, c1, g1, f1⟩ := a24Stage_spec (B := B) (D := D) (s := s0) (k := 0) (by omega) (by omega)
  obtain ⟨v2, c2, g2, f2⟩ := a24Bridge_spec (B := B) (D := D) (s := a24Stage B 0 s0) (k := 2)
    (by omega)
  generalize a24Bridge B 2 (a24Stage B 0 s0) = s1 at v2 c2 g2 f2 ⊢
  have h10 : SameHigh B s s1 := (hh0.trans g1).trans g2
  -- byte 33
  obtain ⟨v3, c3, g3, f3⟩ := a24Stage_spec (B := B) (D := D) (s := s1) (k := 1) (by omega) (by omega)
  obtain ⟨v4, c4, g4, f4⟩ := a24Bridge_spec (B := B) (D := D) (s := a24Stage B 1 s1) (k := 3)
    (by omega)
  generalize a24Bridge B 3 (a24Stage B 1 s1) = s2 at v4 c4 g4 f4 ⊢
  have h20 : SameHigh B s s2 := (h10.trans g3).trans g4
  -- byte 34
  obtain ⟨v5, c5, g5, f5⟩ := a24Stage_spec (B := B) (D := D) (s := s2) (k := 2) (by omega) (by omega)
  have b0 : s0.zp (B.wideAt (32 + 0)) = h0 := (hh0 32 (by omega) (by omega)).trans e0
  have b1 : s1.zp (B.wideAt (32 + 1)) = h1 := (h10 33 (by omega) (by omega)).trans e1
  have b2 : s2.zp (B.wideAt (32 + 2)) = h2 := (h20 34 (by omega) (by omega)).trans e2
  rw [b0, hk0, hw0] at v1
  rw [b1] at v3
  rw [b2] at v5
  refine ⟨?_, ((((f0.trans f1).trans f2).trans f3).trans f4).trans f5⟩
  simp only [Nat.zero_add, Nat.reduceAdd, Nat.reducePow] at v1 v2 v3 v4 v5 ⊢
  omega

/-- **The fold**: three bytes of it, and the carry of that. -/
theorem a24Fold_spec {h0 h1 h2 : Byte} (e0 : s.zp (B.wideAt 32) = h0) (e1 : s.zp (B.wideAt 33) = h1)
    (e2 : s.zp (B.wideAt 34) = h2) :
    (a24Fold B s).wide B 32
        = fold38 (s.wide B 32 + 38 * (h0.toNat + 256 * h1.toNat + 65536 * h2.toNat)) ∧
      Frame B D s (a24Fold B s) := by
  unfold a24Fold
  extract_lets s0 s1 s2 s3 t u y r s4
  obtain ⟨v5, f5⟩ := a24Stages_spec (B := B) (D := D) e0 e1 e2
  change s3.wide B 32 + 256 ^ 4 * kept B s3 = _ at v5
  change Frame B D s s3 at f5
  -- the ripple to byte 31
  have v6 := adcWide_spec (B := B) (u := (false, s3)) (v := s3.zp (B.slot .feCarry)) (k := 4)
    (n := 32) (by omega) (by omega)
  change t.2.wide B 32 + 256 ^ 5 * t.1.toNat = s3.wide B 32 + 256 ^ 4 * (kept B s3 + 0) at v6
  obtain ⟨v7, hin7⟩ := cascade_spec (B := B) (s := t.2) (c := t.1) (x := 5) (n := 27) (m := 32)
    (by omega) (by omega)
  change u.2.wide B 32 + 256 ^ 32 * u.1.toNat = _ at v7
  have hsum : u.2.wide B 32 + 256 ^ 32 * u.1.toNat
      = s.wide B 32 + 38 * (h0.toNat + 256 * h1.toNat + 65536 * h2.toNat) := by
    simp only [Nat.reducePow] at v5 v6 v7 ⊢
    omega
  -- the carry out of it, folded once more
  have hu := wide_lt (B := B) (s := u.2) (n := 32)
  have hs := wide_lt (B := B) (s := s) (n := 32)
  have hc := carry_le u.1
  have v8 := adcWide_spec (B := B) (u := (false, u.2)) (v := mul38LoTab y) (k := 0) (n := 32)
    (by omega) (by omega)
  have hr : adcWide B 0 (mul38LoTab y) (false, u.2) = (r.2, s4) := by
    have hadc : adc (u.2.zp (B.wideAt 0)) (mul38LoTab y) false
        = adc (mul38LoTab y) (u.2.zp (B.wideAt 0)) false := by
      simp only [adc, Nat.add_comm (u.2.zp (B.wideAt 0)).toNat]
    simp only [adcWide, hadc]
    rfl
  rw [hr] at v8
  obtain ⟨v9, hin9⟩ := cascade_spec (B := B) (s := s4) (c := r.2) (x := 1) (n := 31) (m := 32)
    (by omega) (by omega)
  have htab := mul38_val y
  have hy : y.toNat = u.1.toNat := adc_zero_fst _
  have hlast := wide_lt (B := B) (s := (cascade B 1 31 r.2 s4).2) (n := 32)
  refine ⟨?_, ?_⟩
  · change s4.wide B 32 + 256 ^ 1 * r.2.toNat = u.2.wide B 32 + 256 ^ 0 * (_ + 0) at v8
    have hlo : (mul38LoTab y).toNat = 38 * u.1.toNat := by omega
    refine fold38_of_small (cascade B 1 31 r.2 s4).1.toNat hsum hs (by omega) hu hc ?_ hlast
    rw [show 256 ^ 32 = 256 ^ (1 + 31) from rfl, v9, v8, hlo, pow_zero, one_mul, add_zero]
  · have hin8 : InZp B [.feWide] u.2 s4 := (InZp.refl u.2).setWide (by simp) (by omega)
    have hin6 : InZp B [.feWide] s3 t.2 :=
      (InZp.refl s3).adcWide (w := (false, s3)) (by simp) (by omega)
    exact f5.trans ((((hin6.trans hin7).trans hin8).trans hin9).frame (by decide))

/-- A number that ends in byte 34 folds by three bytes. -/
theorem fold38_of_bytes {n L b0 b1 b2 b3 b4 : ℕ} (h : n = L + 2 ^ 256 * (b0 + 256 * b1 + 65536 * b2
    + 16777216 * b3 + 4294967296 * b4)) (hL : L < 2 ^ 256) (hn : n < 2 ^ 256 * 2 ^ 17) :
    fold38 n = L + 38 * (b0 + 256 * b1 + 65536 * b2) := by
  have hb3 : b3 = 0 := by omega
  have hb4 : b4 = 0 := by omega
  subst hb3 hb4
  rw [fold38, h, Nat.add_mul_mod_self_left, Nat.mod_eq_of_lt hL, Nat.add_mul_div_left _ _ (by norm_num),
    Nat.div_eq_of_lt hL]
  ring

/-- The fold of the exact product: bytes 35 and 36 are zero, so the number
ends in byte 34. -/
theorem fe25519MulA24Fold_spec (h1 : s.ptr B .fe25519Src1 = a.addr) :
    (a24Fold B (fe25519MulA24Wide B s)).wide B 32 = fold38 (fold38 (121665 * s.fe a.addr)) ∧
      Frame B B.mem.work s (a24Fold B (fe25519MulA24Wide B s)) := by
  obtain ⟨hw, hf⟩ := fe25519MulA24Wide_spec (B := B) h1
  set t := fe25519MulA24Wide B s with ht
  have hlt : s.fe a.addr < 256 ^ 32 := leNat_lt
  obtain ⟨hfold, hff⟩ := a24Fold_spec (B := B) (D := B.mem.work) (s := t) rfl rfl rfl
  have hsplit : t.wide B 37 = t.wide B 32 + 2 ^ 256 * ((t.zp (B.wideAt 32)).toNat
      + 256 * (t.zp (B.wideAt 33)).toNat + 65536 * (t.zp (B.wideAt 34)).toNat
      + 16777216 * (t.zp (B.wideAt 35)).toNat + 4294967296 * (t.zp (B.wideAt 36)).toNat) := by
    rw [Machine.wide, Machine.wide, Build.wideAt_eq (by omega), Build.wideAt_eq (by omega),
      Build.wideAt_eq (by omega), Build.wideAt_eq (by omega), Build.wideAt_eq (by omega)]
    simp only [leNat_succ, Nat.reducePow]
    ring
  have hn : fold38 (121665 * s.fe a.addr) = t.wide B 32 + 38 * ((t.zp (B.wideAt 32)).toNat
      + 256 * (t.zp (B.wideAt 33)).toNat + 65536 * (t.zp (B.wideAt 34)).toNat) := by
    have hlow := wide_lt (B := B) (s := t) (n := 32)
    rw [← hw]
    refine fold38_of_bytes hsplit (by omega) ?_
    rw [hw]
    omega
  rw [← hn] at hfold
  exact ⟨hfold, hf.trans hff⟩

/-- **`fe25519_mul_a24`** is canonical, for any 32 bytes and any
destination. -/
theorem fe25519MulA24_spec (h1 : s.ptr B .fe25519Src1 = a.addr) (hd : s.ptr B .fe25519Dst = d.addr) :
    (fe25519MulA24 B s).fe d.addr = 121665 * s.fe a.addr % p ∧
      Frame B d.dirty s (fe25519MulA24 B s) := by
  obtain ⟨hfold, hfu⟩ := fe25519MulA24Fold_spec (B := B) h1
  set u := a24Fold B (fe25519MulA24Wide B s) with hu
  obtain ⟨hfe, hfd⟩ := copyResult_spec (B := B) ((hfu.ptr rfl rfl).trans hd)
  obtain ⟨hred, hfr⟩ := fe25519ReduceFinal_spec (B := B) (s := copyResult B u) (d := d)
    ((hfd.ptr rfl rfl).trans ((hfu.ptr rfl rfl).trans hd))
  refine ⟨?_, (hfu.mono fun _ => .inr).trans ((hfd.trans hfr).mono fun _ => .inl)⟩
  rw [fe25519MulA24, ← hu, hred, hfe, hfold, fold38_mod, fold38_mod]

end C64X25519
