import C64X25519.Helpers.Tables
import Mathlib.Data.Nat.Dist
/-!
# Products by quarter squares

`a * b` is the difference of two quarter squares, at the sum and at the
absolute difference, and the rounding of the two cancels. Both byte-wide
multipliers read the same table, with the page of the sum selected by its
carry.
-/

namespace C64X25519

open Machine

variable {B : Build} {s t : Machine} {D : ℕ → Prop}

/-- **The identity of the table.** Sum and difference have one parity. -/
theorem quarter_add (a b : ℕ) : quarter (a + b) = quarter (Nat.dist a b) + a * b := by
  have hsq : (a + b) * (a + b) = Nat.dist a b * Nat.dist a b + a * b * 4 := by
    rcases Nat.le_total a b with h | h
    · obtain ⟨c, rfl⟩ := Nat.exists_eq_add_of_le h
      rw [Nat.dist_eq_sub_of_le h, Nat.add_sub_cancel_left]
      ring
    · obtain ⟨c, rfl⟩ := Nat.exists_eq_add_of_le h
      rw [Nat.dist_eq_sub_of_le_right h, Nat.add_sub_cancel_left]
      ring
  rw [quarter, hsq, Nat.add_mul_div_right _ _ (by omega), quarter]

/-- `SBC` of a byte and `EOR`/`SBC` of its sign mask: the absolute
difference. -/
theorem abs_diff (x y : Byte) :
    (sbc ((sbc x y true).1 ^^^ mask (!(sbc x y true).2)) (mask (!(sbc x y true).2)) true).1.toNat
      = Nat.dist x.toNat y.toNat := by
  have hd := sbc_val x y true
  generalize sbc x y true = d at hd ⊢
  obtain ⟨d, c⟩ := d
  rw [Nat.dist]
  cases c
  · have h := sbc_val (d ^^^ 0xff) 0xff true
    have hnot : (d ^^^ 0xff).toNat = 255 - d.toNat := by
      rw [show d ^^^ (0xff : Byte) = ~~~d from BitVec.xor_allOnes, BitVec.toNat_not]
    rw [hnot] at h
    simp only [Bool.not_false, Bool.not_true, Bool.toNat_false, Bool.toNat_true, mask, if_true,
      show (0xff : Byte).toNat = 255 from rfl] at hd h ⊢
    have hc := carry_le (!(sbc (d ^^^ 0xff) 0xff true).2)
    omega
  · have h := sbc_val (d ^^^ 0) 0 true
    rw [show d ^^^ (0 : Byte) = d from BitVec.xor_zero] at h
    simp only [Bool.not_true, Bool.toNat_false, mask, Bool.false_eq_true, if_false,
      show (0 : Byte).toNat = 0 from rfl] at hd h ⊢
    rw [show d ^^^ (0 : Byte) = d from BitVec.xor_zero]
    have hc := carry_le (!(sbc d 0 true).2)
    omega

/-- Two-byte subtraction of table entries. -/
theorem sbc_word {q r v : ℕ} (h : q = r + v) (hq : q < 0x10000) :
    (sbc (BitVec.ofNat 8 q) (BitVec.ofNat 8 r) true).1.toNat
      + 256 * (sbc (BitVec.ofNat 8 (q / 0x100)) (BitVec.ofNat 8 (r / 0x100))
          (sbc (BitVec.ofNat 8 q) (BitVec.ofNat 8 r) true).2).1.toNat = v := by
  have h1 := sbc_val (BitVec.ofNat 8 q) (BitVec.ofNat 8 r) true
  generalize sbc (BitVec.ofNat 8 q) (BitVec.ofNat 8 r) true = l at h1 ⊢
  have h2 := sbc_val (BitVec.ofNat 8 (q / 0x100)) (BitVec.ofNat 8 (r / 0x100)) l.2
  generalize sbc (BitVec.ofNat 8 (q / 0x100)) (BitVec.ofNat 8 (r / 0x100)) l.2 = m at h2 ⊢
  have hc := carry_le (!m.2)
  simp only [BitVec.toNat_ofNat, Bool.not_true, Bool.toNat_false] at h1 h2
  omega

theorem quarter_sum_lt (x y : Byte) : quarter (x.toNat + y.toNat) < 0x10000 := by
  have hle : (x.toNat + y.toNat) * (x.toNat + y.toNat) ≤ 510 * 510 :=
    Nat.mul_le_mul (by omega) (by omega)
  rw [quarter]
  omega

/-! ## The table in memory -/

/-- A load through a page-patched operand, at the sum of two bytes. -/
theorem Sqtab.lo_sum (h : Sqtab B s) {q r : Byte × Bool} {n : ℕ} {x : Site}
    (hq : q.1.toNat + 256 * q.2.toNat = n) (hn : n < 512)
    (hr : r = adc (BitVec.ofNat 8 (B.mem.sqtabLo / 0x100)) 0 q.2) (hx : t.opHi x = r.1)
    (ht : t.ram = s.ram) :
    t.ram (pageOp t x B.mem.sqtabLo + q.1.toNat) = BitVec.ofNat 8 (quarter n) ∧
      r.1.toNat = B.mem.sqtabLo / 0x100 + q.2.toNat ∧ r.2 = false := by
  have hpl := B.mem.placed_sqtab
  have hal := B.mem.sqtab_aligned
  have hc := carry_le q.2
  have hb : (BitVec.ofNat 8 (B.mem.sqtabLo / 0x100)).toNat = B.mem.sqtabLo / 0x100 := by
    rw [BitVec.toNat_ofNat]
    simp only [MemMap.sqtabLo]
    omega
  have hv := adc_val (BitVec.ofNat 8 (B.mem.sqtabLo / 0x100)) 0 q.2
  rw [← hr, hb, show (0 : Byte).toNat = 0 from rfl] at hv
  have hc2 := carry_le r.2
  have hlo : B.mem.sqtabLo = B.mem.sqtab := rfl
  have h2 : r.2.toNat = 0 := by omega
  refine ⟨?_, by omega, ?_⟩
  · rw [ht, pageOp, hx, ← h.lo n hn]
    congr 1
    omega
  · cases hr2 : r.2
    · rfl
    · rw [hr2] at h2
      cases h2

/-- The same in the high table, its page two on. -/
theorem Sqtab.hi_sum (h : Sqtab B s) {q r : Byte × Bool} {n : ℕ} {x : Site} {m : Byte}
    (hq : q.1.toNat + 256 * q.2.toNat = n) (hn : n < 512)
    (hr : r.1.toNat = B.mem.sqtabLo / 0x100 + q.2.toNat) (hm : m.toNat = 2)
    (hx : t.opHi x = (adc r.1 m false).1) (ht : t.ram = s.ram) :
    t.ram (pageOp t x B.mem.sqtabHi + q.1.toNat) = BitVec.ofNat 8 (quarter n / 0x100) := by
  have hpl := B.mem.placed_sqtab
  have hal := B.mem.sqtab_aligned
  have hc := carry_le q.2
  have hlo : B.mem.sqtabLo = B.mem.sqtab := rfl
  have hhi : B.mem.sqtabHi = B.mem.sqtab + 0x200 := rfl
  have hv : (adc r.1 m false).1.toNat = r.1.toNat + m.toNat + 0 :=
    adc_fst_of_lt (by rw [hr, hm]; change _ + 2 + 0 < 256; omega)
  rw [ht, pageOp, hx, hv, hr, hm, ← h.hi n hn]
  congr 1
  omega

/-- The entries at an absolute difference are read without a patch. -/
theorem Sqtab.dist (h : Sqtab B s) {q : Byte} {n : ℕ} (hq : q.toNat = n) (ht : t.ram = s.ram) :
    t.ram (B.mem.sqtabLo + q.toNat) = BitVec.ofNat 8 (quarter n) ∧
      t.ram (B.mem.sqtabHi + q.toNat) = BitVec.ofNat 8 (quarter n / 0x100) := by
  rw [ht, hq]
  exact ⟨h.lo n (by omega), h.hi n (by omega)⟩

/-! ## `ct_mul_8x8` -/

/-- The sites of `ct_mul_8x8`: the baked operand and the two patched pages. -/
def smcSites : List Site := [.smcSumAImm, .smcDiffAImm, .smcLoAddr, .smcHiAddr]

/-- The operands outside `ct_mul_8x8` are as they were. -/
def KeepsOps (s t : Machine) : Prop :=
  ∀ x ∉ smcSites, t.opLo x = s.opLo x ∧ t.opHi x = s.opHi x

theorem KeepsOps.op (h : KeepsOps s t) {x : Site} (hx : x ∉ smcSites) : t.op x = s.op x := by
  rw [Machine.op, Machine.op, (h x hx).1, (h x hx).2]

theorem KeepsOps.trans {u : Machine} (h : KeepsOps s t) (h' : KeepsOps t u) : KeepsOps s u :=
  fun x hx => ⟨(h' x hx).1.trans (h x hx).1, (h' x hx).2.trans (h x hx).2⟩

/-- **The product.** Only the product, the two patched pages and the scratch
of the sign mask have changed. -/
theorem ctMul8x8_spec (h : Sqtab B s) {a y : Byte} (h1 : s.opLo .smcSumAImm = a)
    (h2 : s.opLo .smcDiffAImm = a) :
    ((ctMul8x8 B y s).var .polyProdLo).toNat + 256 * ((ctMul8x8 B y s).var .polyProdHi).toNat
        = a.toNat * y.toNat ∧
      Frame B D s (ctMul8x8 B y s) ∧ (ctMul8x8 B y s).ram = s.ram ∧
      (ctMul8x8 B y s).zp = s.zp ∧ (ctMul8x8 B y s).opLo = s.opLo ∧
      (ctMul8x8 B y s).reu = s.reu ∧ KeepsOps s (ctMul8x8 B y s) := by
  subst h1
  unfold ctMul8x8
  extract_lets sum lo s1 hi s2 diff s3 msk s4 abs pl s5 ph
  have hsum : sum.1.toNat + 256 * sum.2.toNat = y.toNat + (s.opLo .smcSumAImm).toNat :=
    adc_val y (s.opLo .smcSumAImm) false
  have hdiff : diff = sbc y (s.opLo .smcSumAImm) true := by
    change sbc y (s.opLo .smcDiffAImm) true = _
    rw [h2]
  have hraw : s4.var .ctDiffRaw = diff.1 := by simp [s4, s3]
  have hmask : s4.var .ctSignMask = msk.1 := by simp [s4]
  have hdist : abs.1.toNat = Nat.dist y.toNat (s.opLo .smcSumAImm).toNat := by
    rw [← abs_diff, ← hdiff, ← sbc_zero_zero]
    simp only [abs, hraw, hmask]
    rw [BitVec.xor_comm]
  -- the pages of the sum
  obtain ⟨hlo, hlo1, hlo2⟩ := h.lo_sum (t := s4) (x := .smcLoAddr) (r := lo) hsum (by omega) rfl
    (by simp [s4, s3, s2, s1]) rfl
  have hm : (BitVec.ofNat 8 (B.mem.sqtabHi / 0x100 - B.mem.sqtabLo / 0x100)).toNat = 2 := by
    simp only [MemMap.sqtabLo, MemMap.sqtabHi, BitVec.toNat_ofNat]
    omega
  have hhi := h.hi_sum (t := s5) (x := .smcHiAddr) (r := lo) hsum (by omega) hlo1 hm
    (by simp [s5, s4, s3, s2, hi, hlo2]) rfl
  have hd := h.dist (t := s4) hdist rfl
  have hpl : pl = sbc (BitVec.ofNat 8 (quarter (y.toNat + (s.opLo .smcSumAImm).toNat)))
      (BitVec.ofNat 8 (quarter (Nat.dist y.toNat (s.opLo .smcSumAImm).toNat))) true := by
    simp only [pl, hlo, hd.1]
  have hph : ph = sbc (BitVec.ofNat 8 (quarter (y.toNat + (s.opLo .smcSumAImm).toNat) / 0x100))
      (BitVec.ofNat 8 (quarter (Nat.dist y.toNat (s.opLo .smcSumAImm).toNat) / 0x100)) pl.2 := by
    rw [← hhi, ← hd.2]
    rfl
  have hword := sbc_word (quarter_add y.toNat (s.opLo .smcSumAImm).toNat) (quarter_sum_lt _ _)
  rw [← hpl, ← hph] at hword
  refine ⟨?_, ?_, ?_⟩
  · rw [mul_comm (s.opLo .smcSumAImm).toNat, ← hword]
    simp [s5]
  · exact ((((((Frame.refl s).patchHi).patchHi).setVar rfl).setVar rfl).setVar rfl).setVar rfl
  · refine ⟨by simp [s5, s4, s3, s2, s1], by simp [s5, s4, s3, s2, s1],
      by simp [s5, s4, s3, s2, s1], by simp [s5, s4, s3, s2, s1], fun x hx => ⟨rfl, ?_⟩⟩
    simp only [smcSites, List.mem_cons, List.not_mem_nil, or_false, not_or] at hx
    simp [s5, s4, s3, s2, s1, hx.2.2.1, hx.2.2.2]

end C64X25519
