import C64X25519.Helpers.Wide
/-!
# The wide reduction

`2 ^ 256` is `38` modulo `p`, so the high half of a number folds onto the
low half. `fe_reduce_wide` folds three times: the high bytes, the carry out
of that, and the carry out of that again, which leaves no carry at all.
-/

namespace C64X25519

open Machine

/-- The high part of a number folded onto its low 32 bytes. -/
def fold38 (n : ℕ) : ℕ := n % 2 ^ 256 + 38 * (n / 2 ^ 256)

/-- What `fe_reduce_wide` computes. -/
def reduceWide (n : ℕ) : ℕ := fold38 (fold38 (fold38 n))

theorem fold38_mod (n : ℕ) : fold38 n % p = n % p := by
  have h := Nat.mod_add_div n (2 ^ 256)
  have hp : 2 ^ 256 = 38 + p * 2 := by norm_num [p]
  calc fold38 n % p = (fold38 n + p * (2 * (n / 2 ^ 256))) % p := (Nat.add_mul_mod_self_left ..).symm
    _ = n % p := by
      congr 1
      rw [← h, fold38, h, ← mul_assoc, add_assoc, ← add_mul, ← hp]
      exact h

theorem reduceWide_mod (n : ℕ) : reduceWide n % p = n % p := by
  rw [reduceWide, fold38_mod, fold38_mod, fold38_mod]

/-- **Three folds are enough**: the last one carries nothing. -/
theorem reduceWide_lt {n : ℕ} (h : n < 256 ^ 64) : reduceWide n < 2 ^ 256 := by
  have h1 : n / 2 ^ 256 < 2 ^ 256 := Nat.div_lt_of_lt_mul (by norm_num at h ⊢; exact h)
  simp only [reduceWide, fold38]
  omega

variable {B : Build} {s t : Machine} {k : ℕ}

theorem mul38_val (y : Byte) : (mul38LoTab y).toNat + 256 * (mul38HiTab y).toNat = 38 * y.toNat := by
  simp only [mul38LoTab, mul38HiTab, BitVec.toNat_ofNat]
  omega

/-- One turn of `@reduce1`: the digit and the running carry. -/
theorem reduce1_spec (hk : k < 32) :
    (reduce1 B k s).wide B 32 + 256 ^ (k + 1) * ((reduce1 B k s).zp (B.slot .feCarry)).toNat
        = s.wide B 32
          + 256 ^ k * (38 * (s.zp (B.wideAt (32 + k))).toNat + (s.zp (B.slot .feCarry)).toNat) ∧
      (∀ j, 32 ≤ j → j < 64 → (reduce1 B k s).zp (B.wideAt j) = s.zp (B.wideAt j)) ∧
      InZp B [.feWide, .feCarry, .feMulJ] s (reduce1 B k s) := by
  unfold reduce1
  extract_lets y r s1 h s2 w s3 d
  have hin1 : InZp B [.feWide, .feCarry, .feMulJ] s s1 := (InZp.refl s).setSlot (by simp)
  have hin2 := hin1.setSlot (v := h.1) (y := .feMulJ) (by simp)
  have hin3 := hin2.setWide (k := k) (v := w.1) (by simp) (by omega)
  -- the bytes the turn reads back
  have hs2c : s2.zp (B.slot .feCarry) = r.1 := by
    rw [show s2 = _ from rfl, setZp_zp_slot (by decide), show s1 = _ from rfl, setZp_zp_self]
  have hs3j : s3.zp (B.slot .feMulJ) = h.1 := by
    rw [show s3 = _ from rfl, setWide_zp_slot (by omega) (by decide), show s2 = _ from rfl,
      setZp_zp_self]
  have hlow : s2.zp (B.wideAt k) = s.zp (B.wideAt k) := by
    rw [show s2 = _ from rfl, setZp_zp_wideAt (by omega) (by decide), show s1 = _ from rfl,
      setZp_zp_wideAt (by omega) (by decide)]
  -- the additions of the table bytes
  have hr : r.1.toNat + 256 * r.2.toNat
      = (mul38LoTab y).toNat + (s.zp (B.slot .feCarry)).toNat + 0 := adc_val _ _ false
  have hw : w.1.toNat + 256 * w.2.toNat
      = (s2.zp (B.wideAt k)).toNat + (s2.zp (B.slot .feCarry)).toNat + 0 := adc_val _ _ false
  rw [hlow, hs2c] at hw
  have htab := mul38_val y
  have hcr := carry_le r.2
  have hcw := carry_le w.2
  have hh : h.1.toNat = (mul38HiTab y).toNat + 0 + r.2.toNat :=
    adc_fst_of_lt (show (mul38HiTab y).toNat + 0 + r.2.toNat < 256 by omega)
  have hd : d.1.toNat = h.1.toNat + 0 + w.2.toNat := by
    rw [show d = adc (s3.zp (B.slot .feMulJ)) 0 w.2 from rfl, hs3j]
    exact adc_fst_of_lt (show h.1.toNat + 0 + w.2.toNat < 256 by omega)
  refine ⟨?_, fun j h1 h2 => ?_, hin3.setSlot (by simp)⟩
  · rw [setZp_zp_self, wide_setSlot (by decide) (by omega), pow_succ, mul_comm (256 ^ k) 256]
    have hset := wide_setWide (B := B) (s := s2) (n := 32) (v := w.1) hk (by omega)
    have hw2 : s2.wide B 32 = s.wide B 32 := by
      rw [show s2 = _ from rfl, wide_setSlot (by decide) (by omega), show s1 = _ from rfl,
        wide_setSlot (by decide) (by omega)]
    rw [hw2, hlow] at hset
    refine digit_step hset ?_
    rw [show s.zp (B.wideAt (32 + k)) = y from rfl]
    clear_value r h w d y
    omega
  · rw [setZp_zp_wideAt (by omega) (by decide), show s3 = _ from rfl,
      setWide_zp_wideAt (by omega) (by omega) (by omega), show s2 = _ from rfl,
      setZp_zp_wideAt (by omega) (by decide), show s1 = _ from rfl,
      setZp_zp_wideAt (by omega) (by decide)]

/-- The number in the high half of the accumulator. -/
def Machine.wideHigh (B : Build) (s : Machine) : ℕ :=
  leNat (fun i => s.zp (B.slot .feWide + (32 + i))) 32

theorem wide_split (s : Machine) :
    s.wide B 64 = s.wide B 32 + 2 ^ 256 * s.wideHigh B := by
  rw [Machine.wide, show 64 = 32 + 32 from rfl, leNat_split]
  norm_num [Machine.wide, Machine.wideHigh]

/-- The loop of `fe_reduce_wide`: the first fold, its carry in `fe_carry`. -/
theorem reduceLoop_spec (h0 : s.zp (B.slot .feCarry) = 0) :
    (loopUp (reduce1 B) 32 s).wide B 32
        + 256 ^ 32 * ((loopUp (reduce1 B) 32 s).zp (B.slot .feCarry)).toNat
        = s.wide B 32 + 38 * s.wideHigh B ∧
      InZp B [.feWide, .feCarry, .feMulJ] s (loopUp (reduce1 B) 32 s) := by
  -- after `k` turns the low `k` high bytes are folded and the high half is as it was
  have h := loopUp_inv (f := reduce1 B) (s := s) (n := 32) (fun k t =>
    t.wide B 32 + 256 ^ k * (t.zp (B.slot .feCarry)).toNat
        = s.wide B 32 + 38 * leNat (fun i => s.zp (B.slot .feWide + (32 + i))) k ∧
      (∀ j, 32 ≤ j → j < 64 → t.zp (B.wideAt j) = s.zp (B.wideAt j)) ∧
      InZp B [.feWide, .feCarry, .feMulJ] s t) ?_ ?_
  · exact ⟨h.1, h.2.2⟩
  · refine ⟨?_, fun _ _ _ => rfl, InZp.refl s⟩
    rw [h0]
    simp
  · rintro k hk t ⟨hv, hhigh, hin⟩
    obtain ⟨hv', hhigh', hin'⟩ := reduce1_spec (B := B) (s := t) hk
    refine ⟨?_, fun j h1 h2 => (hhigh' j h1 h2).trans (hhigh j h1 h2), hin.trans hin'⟩
    rw [hv', hhigh _ (by omega) (by omega), Build.wideAt_eq (by omega), leNat_succ]
    linarith

/-- One more fold of a small carry, at bytes 0 and up. -/
theorem fold38_of_carry {w n c o : ℕ} (h : o + 256 ^ 32 * c = w + 38 * (n / 2 ^ 256))
    (hw : w = n % 2 ^ 256) (ho : o < 256 ^ 32) :
    o = fold38 n % 2 ^ 256 ∧ c = fold38 n / 2 ^ 256 := by
  simp only [fold38]
  omega

/-- `fe_reduce_wide` with the carry its last cascade leaves, which the source
drops. -/
def reduceWideLast (B : Build) (s : Machine) : Bool × Machine :=
  let s := s.setZp (B.slot .feCarry) 0
  let s := loopUp (reduce1 B) 32 s
  let y := s.zp (B.slot .feCarry)
  let r := adc (s.zp (B.wideAt 0)) (mul38LoTab y) false
  let s := s.setZp (B.wideAt 0) r.1
  let q := adc (s.zp (B.wideAt 1)) (mul38HiTab y) r.2
  let s := s.setZp (B.wideAt 1) q.1
  let t := cascade B 2 30 q.2 s
  let y := (adc 0 0 t.1).1
  let r := adc (t.2.zp (B.wideAt 0)) (mul38LoTab y) false
  let s := t.2.setZp (B.wideAt 0) r.1
  cascade B 1 31 r.2 s

theorem feReduceWide_eq : feReduceWide B s = (reduceWideLast B s).2 := rfl

/-- The whole of `fe_reduce_wide`: three folds, and nothing left to carry. -/
theorem reduceWideLast_spec :
    (reduceWideLast B s).2.wide B 32 = reduceWide (s.wide B 64) ∧
      (reduceWideLast B s).1 = false ∧
      InZp B [.feWide, .feCarry, .feMulJ] s (reduceWideLast B s).2 := by
  unfold reduceWideLast
  extract_lets s0 t y r s1 q s2 u y' r' s3
  have hin0 : InZp B [.feWide, .feCarry, .feMulJ] s s0 := (InZp.refl s).setSlot (by simp)
  -- the first fold
  obtain ⟨ht, hint⟩ := reduceLoop_spec (B := B) (s := s0) setZp_zp_self
  have hfold : s0.wide B 32 + 38 * s0.wideHigh B = fold38 (s.wide B 64) := by
    have hsplit := wide_split (B := B) s0
    have hlt := wide_lt (B := B) (s := s0) (n := 32)
    rw [← wide_setSlot (B := B) (s := s) (v := 0) (x := .feCarry) (by decide) le_rfl,
      show s.setZp (B.slot .feCarry) 0 = s0 from rfl, hsplit, fold38]
    omega
  rw [hfold] at ht
  have hlt := wide_lt (B := B) (s := t) (n := 32)
  change t.wide B 32 + 256 ^ 32 * y.toNat = _ at ht
  -- the second, at bytes 0 and 1, and its cascade
  have h1 := adcWide_spec (B := B) (u := (false, t)) (v := mul38LoTab y) (k := 0) (n := 32)
    (by omega) (by omega)
  have h2 := adcWide_spec (B := B) (u := (r.2, s1)) (v := mul38HiTab y) (k := 1) (n := 32)
    (by omega) (by omega)
  obtain ⟨h3, hin3⟩ := cascade_spec (B := B) (s := s2) (c := q.2) (x := 2) (n := 30) (m := 32)
    (by omega) (by omega)
  have htab := mul38_val y
  change s1.wide B 32 + 256 ^ 1 * r.2.toNat = t.wide B 32 + 256 ^ 0 * (_ + 0) at h1
  change s2.wide B 32 + 256 ^ 2 * q.2.toNat = s1.wide B 32 + 256 ^ 1 * (_ + r.2.toNat) at h2
  change u.2.wide B 32 + 256 ^ 32 * u.1.toNat = s2.wide B 32 + 256 ^ 2 * q.2.toNat at h3
  obtain ⟨hu, huc⟩ := fold38_of_carry (n := fold38 (s.wide B 64)) (w := t.wide B 32)
    (o := u.2.wide B 32) (c := u.1.toNat) (by omega) (by omega) wide_lt
  -- the third, at byte 0
  have h4 := adcWide_spec (B := B) (u := (false, u.2)) (v := mul38LoTab y') (k := 0) (n := 32)
    (by omega) (by omega)
  obtain ⟨h5, hin5⟩ := cascade_spec (B := B) (s := s3) (c := r'.2) (x := 1) (n := 31) (m := 32)
    (by omega) (by omega)
  have htab' := mul38_val y'
  have hy' : y'.toNat = u.1.toNat := adc_zero_fst _
  have hc := carry_le u.1
  change s3.wide B 32 + 256 ^ 1 * r'.2.toNat = u.2.wide B 32 + 256 ^ 0 * (_ + 0) at h4
  obtain ⟨hv, hvc⟩ := fold38_of_carry (n := fold38 (fold38 (s.wide B 64))) (w := u.2.wide B 32)
    (o := (cascade B 1 31 r'.2 s3).2.wide B 32) (c := (cascade B 1 31 r'.2 s3).1.toNat)
    (by omega) hu wide_lt
  have hfit : reduceWide (s.wide B 64) < 2 ^ 256 := reduceWide_lt wide_lt
  refine ⟨hv.trans (Nat.mod_eq_of_lt hfit), ?_, ?_⟩
  · rw [← Bool.toNat_eq_zero, hvc]
    exact Nat.div_eq_of_lt hfit
  · have hin1 : InZp B [.feWide, .feCarry, .feMulJ] s s2 :=
      ((hin0.trans hint).setWide (by simp) (by omega)).setWide (by simp) (by omega)
    have hin2 := (hin1.trans (hin3.mono (by simp))).setWide (k := 0) (v := r'.1) (by simp)
      (by omega)
    exact hin2.trans (hin5.mono (by simp))

/-- **`fe_reduce_wide`** folds the number in the accumulator three times. -/
theorem feReduceWide_spec :
    (feReduceWide B s).wide B 32 = reduceWide (s.wide B 64) ∧
      InZp B [.feWide, .feCarry, .feMulJ] s (feReduceWide B s) := by
  obtain ⟨hv, -, hin⟩ := reduceWideLast_spec (B := B) (s := s)
  rw [feReduceWide_eq]
  exact ⟨hv, hin⟩

end C64X25519
