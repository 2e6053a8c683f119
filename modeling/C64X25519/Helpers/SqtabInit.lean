import C64X25519.Helpers.QuarterSquare
import C64X25519.Model.Init
/-!
# The quarter-square table

`sqtab_init` keeps the square of its index in three bytes and moves it on by
the recurrence `(i + 1)^2 = i^2 + 2i + 1`; the entry is that square shifted
right by two.
-/

namespace C64X25519

open Machine

variable {B : Build} {s t u : Machine}

/-! ## What an initialiser leaves alone -/

/-- From `s` to `t` memory has changed only in `D`, the variables only in
`V`, the patched operands only inside the byte multiplier, and of the unit
its registers and its memory at most. -/
structure Boot (V : List Var) (D : ℕ → Prop) (s t : Machine) : Prop where
  zp : t.zp = s.zp
  ram : ∀ a, ¬ D a → t.ram a = s.ram a
  ops : KeepsOps s t
  tramp : t.tramp = s.tramp
  var : ∀ x, x ∉ V → t.var x = s.var x
  flagI : t.flagI = s.flagI
  live : t.reu.live = s.reu.live

namespace Boot

variable {V W : List Var} {D E : ℕ → Prop} {x : Var} {v : Byte} {a : ℕ}

@[refl] theorem refl (s : Machine) : Boot V D s s :=
  ⟨rfl, fun _ _ => rfl, fun _ _ => ⟨rfl, rfl⟩, rfl, fun _ _ => rfl, rfl, rfl⟩

theorem trans (h : Boot V D s t) (h' : Boot V D t u) : Boot V D s u where
  zp := h'.zp.trans h.zp
  ram a ha := (h'.ram a ha).trans (h.ram a ha)
  ops := h.ops.trans h'.ops
  tramp := h'.tramp.trans h.tramp
  var x hx := (h'.var x hx).trans (h.var x hx)
  flagI := h'.flagI.trans h.flagI
  live := h'.live.trans h.live

theorem mono (hV : V ⊆ W) (hD : ∀ a, D a → E a) (h : Boot V D s t) : Boot W E s t :=
  { h with
    ram := fun a ha => h.ram a fun hd => ha (hD a hd)
    var := fun x hx => h.var x fun hv => hx (hV hv) }

theorem setVar (hx : x ∈ V) (h : Boot V D s t) : Boot V D s (t.setVar x v) :=
  { h with
    var := fun y hy => by
      rw [← h.var y hy]
      refine Function.update_of_ne ?_ _ _
      rintro rfl
      exact hy hx }

theorem setRam (ha : D a) (h : Boot V D s t) : Boot V D s (t.setRam a v) :=
  { h with
    ram := fun b hb => by
      rw [← h.ram b hb]
      refine Function.update_of_ne ?_ _ _
      rintro rfl
      exact hb ha }

theorem patchLo {l : List Site} (hl : ∀ x ∈ l, x ∈ smcSites) (h : Boot V D s t) :
    Boot V D s (t.patchLo l v) :=
  { h with
    ops := fun x hx => by
      refine ⟨?_, (h.ops x hx).2⟩
      rw [patchLo_opLo]
      exact (if_neg fun hm => hx (hl x hm)).trans (h.ops x hx).1 }

theorem ram_eq (h : Boot V (fun _ => False) s t) : t.ram = s.ram := funext fun a => h.ram a id

end Boot

/-! ## One turn -/

/-- The number in two variables, low byte first. -/
def word (lo hi : Var) (s : Machine) : ℕ := (s.var lo).toNat + 256 * (s.var hi).toNat

/-- The number in three variables, low byte first. -/
def triple (lo mid hi : Var) (s : Machine) : ℕ :=
  (s.var lo).toNat + 256 * (s.var mid).toNat + 65536 * (s.var hi).toNat

/-- The variables of `sqtab_init`. -/
def sqVars : List Var :=
  [.sqAcc0, .sqAcc1, .sqAcc2, .sqSh0, .sqSh1, .sqSh2, .sqAd0, .sqAd1, .sqI0, .sqI1]

/-- **Two shifts right divide by four.** -/
theorem sqShift_spec : triple .sqSh0 .sqSh1 .sqSh2 (sqShift s)
      = triple .sqAcc0 .sqAcc1 .sqAcc2 s / 4 ∧
    (sqShift s).reu = s.reu ∧ (∀ x, x ≠ .sqSh0 → x ≠ .sqSh1 → x ≠ .sqSh2 →
      (sqShift s).var x = s.var x) ∧ Boot sqVars (fun _ => False) s (sqShift s) := by
  unfold sqShift
  extract_lets r2 s1 r1 s2 r0 s3 q2 s4 q1 s5
  have h2 : 2 * r2.1.toNat + r2.2.toNat = (s.var .sqAcc2).toNat := lsr_val _
  have h1 : 2 * r1.1.toNat + r1.2.toNat = (s.var .sqAcc1).toNat + 256 * r2.2.toNat := ror_val _ _
  have h0 : 2 * r0.1.toNat + r0.2.toNat = (s.var .sqAcc0).toNat + 256 * r1.2.toNat := ror_val _ _
  have g2 : 2 * q2.1.toNat + q2.2.toNat = r2.1.toNat := lsr_val _
  have g1 : 2 * q1.1.toNat + q1.2.toNat = r1.1.toNat + 256 * q2.2.toNat := ror_val _ _
  obtain ⟨q0, hq0⟩ : ∃ q, q = ror (s5.var .sqSh0) q1.2 := ⟨_, rfl⟩
  have g0 : 2 * q0.1.toNat + q0.2.toNat = r0.1.toNat + 256 * q1.2.toNat := by
    rw [hq0]
    exact ror_val _ _
  rw [← hq0]
  refine ⟨?_, by simp only [s5, s4, s3, s2, s1, setVar_reu], fun x n0 n1 n2 => ?_, ?_⟩
  · have e1 : (s5.setVar .sqSh0 q0.1).var .sqSh1 = q1.1 :=
      (setVar_var_of_ne (by decide)).trans setVar_var_self
    have e2 : (s5.setVar .sqSh0 q0.1).var .sqSh2 = q2.1 := (setVar_var_of_ne (by decide)).trans
      ((setVar_var_of_ne (by decide)).trans setVar_var_self)
    rw [triple, triple, setVar_var_self, e1, e2]
    have hc := carry_le q0.2
    have hd := carry_le r0.2
    omega
  · simp only [s5, s4, s3, s2, s1, setVar_var_of_ne, n0, n1, n2, ne_eq, not_false_eq_true]
  · exact ((((((Boot.refl s).setVar (by decide)).setVar (by decide)).setVar (by decide)).setVar
      (by decide)).setVar (by decide)).setVar (by decide)

/-- A two-byte count goes up by one. -/
theorem incVar_spec (lo hi : Var) (hne : lo ≠ hi) (hlt : word lo hi s + 1 < 0x10000) :
    word lo hi (incVar lo hi s) = word lo hi s + 1 ∧ (incVar lo hi s).reu = s.reu ∧
      (∀ x, x ≠ lo → x ≠ hi → (incVar lo hi s).var x = s.var x) ∧
      ∀ {V : List Var}, lo ∈ V → hi ∈ V → Boot V (fun _ => False) s (incVar lo hi s) := by
  unfold incVar
  extract_lets s1
  have hlo : s1.var lo = s.var lo + 1 := setVar_var_self
  have hhi : s1.var hi = s.var hi := setVar_var_of_ne hne.symm
  have hb := (s.var hi).isLt
  have hinc : (s.var lo + 1).toNat = ((s.var lo).toNat + 1) % 256 := BitVec.toNat_add _ _
  rw [word] at hlt
  split
  · rename_i hz
    have h0 : (s.var lo + 1).toNat = 0 := by rw [← hlo, hz]; rfl
    have hhi' : (s.var hi + 1).toNat = (s.var hi).toNat + 1 := by
      rw [BitVec.toNat_add]
      exact Nat.mod_eq_of_lt (by change (s.var hi).toNat + 1 < 256; omega)
    refine ⟨?_, rfl, fun x hx hx' => ?_, fun h h' => ((Boot.refl s).setVar h).setVar h'⟩
    · rw [word, word, setVar_var_self, setVar_var_of_ne hne, hlo, hhi, h0, hhi']
      omega
    · exact (setVar_var_of_ne hx').trans (setVar_var_of_ne hx)
  · rename_i hz
    have h0 : (s.var lo + 1).toNat ≠ 0 := fun h => hz (by
      rw [hlo]
      exact BitVec.eq_of_toNat_eq h)
    refine ⟨?_, rfl, fun x hx _ => setVar_var_of_ne hx, fun h _ => (Boot.refl s).setVar h⟩
    rw [word, word, hlo, hhi]
    omega

/-- **The recurrence.** -/
theorem sqAdvance_spec (hi : word .sqI0 .sqI1 s < 0x200)
    (hacc : triple .sqAcc0 .sqAcc1 .sqAcc2 s < 0x100000) :
    triple .sqAcc0 .sqAcc1 .sqAcc2 (sqAdvance s)
        = triple .sqAcc0 .sqAcc1 .sqAcc2 s + (2 * word .sqI0 .sqI1 s + 1) ∧
      word .sqAd0 .sqAd1 (sqAdvance s) = 2 * word .sqI0 .sqI1 s + 1 ∧
      (sqAdvance s).reu = s.reu ∧
      (∀ x ∈ [Var.sqI0, .sqI1, .sqSh0, .sqSh1, .sqSh2], (sqAdvance s).var x = s.var x) ∧
      Boot sqVars (fun _ => False) s (sqAdvance s) := by
  unfold sqAdvance
  extract_lets r0 s1 s2 s3 a0 s4 a1 s5
  have h0 : r0.1.toNat + 256 * r0.2.toNat = 2 * (s.var .sqI0).toNat := asl_val _
  have h1 := rol_val (s.var .sqI1) r0.2
  have hI1 : s1.var .sqI1 = s.var .sqI1 := setVar_var_of_ne (by decide)
  have hword : word .sqAd0 .sqAd1 s2 = 2 * word .sqI0 .sqI1 s := by
    have e0 : s2.var .sqAd0 = r0.1 := (setVar_var_of_ne (by decide)).trans setVar_var_self
    have e1 : s2.var .sqAd1 = (rol (s1.var .sqI1) r0.2).1 := setVar_var_self
    rw [word] at hi ⊢
    rw [e0, e1, hI1, word]
    have := carry_le (rol (s.var .sqI1) r0.2).2
    omega
  obtain ⟨hinc, hreu, hvar, hboot⟩ := incVar_spec (s := s2) .sqAd0 .sqAd1
    (by decide) (by omega)
  change word .sqAd0 .sqAd1 s3 = _ at hinc
  change s3.reu = _ at hreu
  change ∀ x, _ → _ → s3.var x = s2.var x at hvar
  have hb3 : Boot sqVars (fun _ => False) s s3 :=
    (((Boot.refl s).setVar (by decide)).setVar (by decide)).trans (hboot (by decide) (by decide))
  have hkeep : ∀ x, x ≠ .sqAd0 → x ≠ .sqAd1 → s3.var x = s.var x := fun x n0 n1 =>
    (hvar x n0 n1).trans ((setVar_var_of_ne n1).trans (setVar_var_of_ne n0))
  have hreu3 : s3.reu = s.reu := hreu.trans rfl
  clear_value s3
  -- the three-byte addition
  have ha0 : a0.1.toNat + 256 * a0.2.toNat
      = (s3.var .sqAcc0).toNat + (s3.var .sqAd0).toNat + 0 := adc_val _ _ false
  have ha1 := adc_val (s4.var .sqAcc1) (s4.var .sqAd1) a0.2
  have e1 : s4.var .sqAcc1 = s3.var .sqAcc1 := setVar_var_of_ne (by decide)
  have e2 : s4.var .sqAd1 = s3.var .sqAd1 := setVar_var_of_ne (by decide)
  have e3 : s5.var .sqAcc2 = s3.var .sqAcc2 :=
    (setVar_var_of_ne (by decide)).trans (setVar_var_of_ne (by decide))
  rw [e1, e2] at ha1
  have ha1' : a1.1.toNat + 256 * a1.2.toNat
      = (s3.var .sqAcc1).toNat + (s3.var .sqAd1).toNat + a0.2.toNat := by
    rw [← ha1]
    simp only [a1, e1, e2]
  have ha2 := adc_val (s5.var .sqAcc2) 0 a1.2
  obtain ⟨a2, ha2d⟩ : ∃ q, q = adc (s5.var .sqAcc2) 0 a1.2 := ⟨_, rfl⟩
  rw [← ha2d] at ha2 ⊢
  rw [e3, show (0 : Byte).toNat = 0 from rfl] at ha2
  refine ⟨?_, ?_, ?_, fun x hx => ?_, ?_⟩
  · have f0 : (s5.setVar .sqAcc2 a2.1).var .sqAcc0 = a0.1 := (setVar_var_of_ne (by decide)).trans
      ((setVar_var_of_ne (by decide)).trans setVar_var_self)
    have f1 : (s5.setVar .sqAcc2 a2.1).var .sqAcc1 = a1.1 :=
      (setVar_var_of_ne (by decide)).trans setVar_var_self
    rw [hkeep _ (by decide) (by decide)] at ha0 ha1' ha2
    rw [hword, word] at hinc
    rw [triple] at hacc ⊢
    rw [triple, setVar_var_self, f0, f1]
    have := carry_le a2.2
    omega
  · rw [← hword, ← hinc, word, word, setVar_var_of_ne (by decide), setVar_var_of_ne (by decide)]
    simp only [s5, s4, setVar_var_of_ne, ne_eq, reduceCtorEq, not_false_eq_true]
  · simp only [s5, s4, setVar_reu, hreu3]
  · have hne : x ≠ .sqAcc0 ∧ x ≠ .sqAcc1 ∧ x ≠ .sqAcc2 ∧ x ≠ .sqAd0 ∧ x ≠ .sqAd1 := by
      simp only [List.mem_cons, List.not_mem_nil, or_false] at hx
      rcases hx with rfl | rfl | rfl | rfl | rfl <;> decide
    obtain ⟨n0, n1, n2, n3, n4⟩ := hne
    rw [setVar_var_of_ne n2]
    exact (setVar_var_of_ne n1).trans ((setVar_var_of_ne n0).trans (hkeep x n3 n4))
  · exact ((hb3.setVar (by decide)).setVar (by decide)).setVar (by decide)

/-- The entry of the index, whichever page it is in. -/
theorem sqStore_eq {k : ℕ} (h : word .sqI0 .sqI1 s = k) (hk : k < 0x200) :
    sqStore B s = (s.setRam (B.mem.sqtabLo + k) (s.var .sqSh0)).setRam (B.mem.sqtabHi + k)
      (s.var .sqSh1) := by
  have hlo := (s.var .sqI0).isLt
  rw [word] at h
  rw [sqStore]
  simp only [setRam_var]
  split
  · rename_i hz
    rw [hz, show (0 : Byte).toNat = 0 from rfl] at h
    rw [show (s.var .sqI0).toNat = k by omega]
  · rename_i hnz
    have hpos : (s.var .sqI1).toNat ≠ 0 := fun h0 => hnz (BitVec.eq_of_toNat_eq h0)
    rw [show B.mem.sqtabLo + 0x100 + (s.var .sqI0).toNat = B.mem.sqtabLo + k by omega,
      show B.mem.sqtabHi + 0x100 + (s.var .sqI0).toNat = B.mem.sqtabHi + k by omega]

/-! ## The loop -/

/-- The addresses of the table. -/
def MemMap.table (M : MemMap) (a : ℕ) : Prop := M.sqtab ≤ a ∧ a < M.sqtab + 0x400

/-- The loop of `sqtab_init` before turn `k`. Past the first turn the
scratch variables are those of the turn before. -/
structure SqAt (B : Build) (s : Machine) (k : ℕ) (t : Machine) : Prop where
  acc : triple .sqAcc0 .sqAcc1 .sqAcc2 t = k * k
  idx : word .sqI0 .sqI1 t = k
  lo : ∀ n, n < k → t.ram (B.mem.sqtabLo + n) = BitVec.ofNat 8 (quarter n)
  hi : ∀ n, n < k → t.ram (B.mem.sqtabHi + n) = BitVec.ofNat 8 (quarter n / 0x100)
  sh : ∀ n, k = n + 1 → triple .sqSh0 .sqSh1 .sqSh2 t = quarter n
  ad : ∀ n, k = n + 1 → word .sqAd0 .sqAd1 t = 2 * n + 1
  reu : t.reu = s.reu
  boot : Boot sqVars B.mem.table s t

/-- The store of entry `k`, its earlier entries as they were. -/
structure SqStored (B : Build) (k : ℕ) (t t' : Machine) : Prop where
  lo : t'.ram (B.mem.sqtabLo + k) = BitVec.ofNat 8 (quarter k)
  hi : t'.ram (B.mem.sqtabHi + k) = BitVec.ofNat 8 (quarter k / 0x100)
  old : ∀ n, n < k → t'.ram (B.mem.sqtabLo + n) = t.ram (B.mem.sqtabLo + n) ∧
    t'.ram (B.mem.sqtabHi + n) = t.ram (B.mem.sqtabHi + n)
  var : t'.var = t.var
  reu : t'.reu = t.reu
  boot : Boot sqVars B.mem.table t t'

theorem sqStore_spec {k : ℕ} (hidx : word .sqI0 .sqI1 t = k) (hk : k < 0x200)
    (hsh : triple .sqSh0 .sqSh1 .sqSh2 t = quarter k) : SqStored B k t (sqStore B t) := by
  have hqlt : quarter k < 0x10000 := by
    have hkk : k * k ≤ 511 * 511 := Nat.mul_le_mul (by omega) (by omega)
    rw [quarter]
    omega
  have hb0 := (t.var .sqSh0).isLt
  have hb1 := (t.var .sqSh1).isLt
  rw [sqStore_eq hidx hk]
  refine ⟨?_, ?_, fun n hn => ?_, rfl, rfl, ?_⟩
  · rw [setRam_ram, Function.update_of_ne (by simp only [MemMap.sqtabLo, MemMap.sqtabHi]; omega),
      setRam_ram, Function.update_self]
    refine BitVec.eq_of_toNat_eq ?_
    rw [BitVec.toNat_ofNat, ← hsh, triple]
    omega
  · rw [setRam_ram, Function.update_self]
    refine BitVec.eq_of_toNat_eq ?_
    rw [BitVec.toNat_ofNat, ← hsh, triple]
    rw [triple] at hsh
    omega
  · simp only [setRam_ram, MemMap.sqtabLo, MemMap.sqtabHi]
    rw [Function.update_of_ne (by omega), Function.update_of_ne (by omega),
      Function.update_of_ne (by omega), Function.update_of_ne (by omega)]
    exact ⟨rfl, rfl⟩
  · exact ((Boot.refl t).setRam ⟨by simp only [MemMap.sqtabLo]; omega,
      by simp only [MemMap.sqtabLo]; omega⟩).setRam ⟨by simp only [MemMap.sqtabHi]; omega,
      by simp only [MemMap.sqtabHi]; omega⟩

/-- The test at the end of a turn. -/
theorem sqIndex_last {k : ℕ} (h : word .sqI0 .sqI1 t = k + 1) (hk : k < 0x200) :
    (t.var .sqI1 != 2) = decide (k + 1 < 0x200) := by
  have hI := (t.var .sqI0).isLt
  rw [word] at h
  by_cases hlast : k + 1 < 0x200
  · rw [decide_eq_true hlast, bne_iff_ne]
    intro h2
    rw [h2, show (2 : Byte).toNat = 2 from rfl] at h
    omega
  · rw [decide_eq_false hlast, bne_eq_false_iff_eq]
    refine BitVec.eq_of_toNat_eq ?_
    change _ = 2
    omega

theorem sqtabBody_spec {k : ℕ} (h : SqAt B s k t) (hk : k < 0x200) :
    SqAt B s (k + 1) (sqtabBody B t).1 ∧ (sqtabBody B t).2 = decide (k + 1 < 0x200) := by
  have hkk : k * k < 0x40000 := by
    calc k * k ≤ 511 * 511 := Nat.mul_le_mul (by omega) (by omega)
      _ < 0x40000 := by norm_num
  -- the shift
  obtain ⟨hsh, hreu1, hvar1, hb1⟩ := sqShift_spec (s := t)
  obtain ⟨t1, ht1⟩ : ∃ q, q = sqShift t := ⟨_, rfl⟩
  rw [← ht1] at hsh hreu1 hvar1 hb1
  have hidx1 : word .sqI0 .sqI1 t1 = k := by
    rw [word, hvar1 _ (by decide) (by decide) (by decide),
      hvar1 _ (by decide) (by decide) (by decide)]
    exact h.idx
  have hacc1 : triple .sqAcc0 .sqAcc1 .sqAcc2 t1 = k * k := by
    rw [triple, hvar1 _ (by decide) (by decide) (by decide),
      hvar1 _ (by decide) (by decide) (by decide), hvar1 _ (by decide) (by decide) (by decide)]
    exact h.acc
  rw [h.acc] at hsh
  -- the stores
  have hst : SqStored B k t1 (sqStore B t1) := sqStore_spec hidx1 hk hsh
  obtain ⟨t2, ht2⟩ : ∃ q, q = sqStore B t1 := ⟨_, rfl⟩
  rw [← ht2] at hst
  have hword : ∀ lo hi, word lo hi t2 = word lo hi t1 := fun lo hi => by
    rw [word, word, hst.var]
  have htrip : ∀ lo mid hi, triple lo mid hi t2 = triple lo mid hi t1 := fun lo mid hi => by
    rw [triple, triple, hst.var]
  -- the recurrence
  obtain ⟨hacc3, had3, hreu3, hvar3, hb3⟩ := sqAdvance_spec (s := t2)
    (by rw [hword, hidx1]; exact hk) (by rw [htrip, hacc1]; omega)
  rw [hword, hidx1] at hacc3 had3
  rw [htrip, hacc1] at hacc3
  obtain ⟨t3, ht3⟩ : ∃ q, q = sqAdvance t2 := ⟨_, rfl⟩
  rw [← ht3] at hacc3 had3 hreu3 hvar3 hb3
  have hidx3 : word .sqI0 .sqI1 t3 = k := by
    rw [word, hvar3 _ (by decide), hvar3 _ (by decide), ← hidx1, ← hword, word]
  -- the index
  obtain ⟨hidx4, hreu4, hvar4, hb4⟩ := incVar_spec (s := t3) .sqI0 .sqI1
    (by decide) (by omega)
  rw [hidx3] at hidx4
  obtain ⟨t4, ht4⟩ : ∃ q, q = incVar .sqI0 .sqI1 t3 := ⟨_, rfl⟩
  rw [← ht4] at hidx4 hreu4 hvar4 hb4
  have hb4' : Boot sqVars (fun _ => False) t3 t4 := hb4 (by decide) (by decide)
  have hbody : sqtabBody B t = (t4, t4.var .sqI1 != 2) := by
    rw [ht4, ht3, ht2, ht1]
    rfl
  have hnone : ∀ a, False → B.mem.table a := fun _ => False.elim
  have hsub : sqVars ⊆ sqVars := fun _ => id
  have hboot : Boot sqVars B.mem.table t t4 := ((hb1.mono hsub hnone).trans hst.boot).trans
    ((hb3.mono hsub hnone).trans (hb4'.mono hsub hnone))
  have hram : t4.ram = t2.ram := hb4'.ram_eq.trans hb3.ram_eq
  rw [hbody]
  refine ⟨⟨?_, hidx4, fun n hn => ?_, fun n hn => ?_, fun n hn => ?_, fun n hn => ?_, ?_,
    h.boot.trans hboot⟩, sqIndex_last hidx4 hk⟩
  · rw [triple, hvar4 _ (by decide) (by decide), hvar4 _ (by decide) (by decide),
      hvar4 _ (by decide) (by decide)]
    refine hacc3.trans ?_
    ring
  · rw [hram]
    rcases Nat.lt_succ_iff_lt_or_eq.1 hn with hlt | rfl
    · rw [(hst.old n hlt).1, hb1.ram_eq]
      exact h.lo n hlt
    · exact hst.lo
  · rw [hram]
    rcases Nat.lt_succ_iff_lt_or_eq.1 hn with hlt | rfl
    · rw [(hst.old n hlt).2, hb1.ram_eq]
      exact h.hi n hlt
    · exact hst.hi
  · obtain rfl : k = n := by omega
    rw [triple, hvar4 _ (by decide) (by decide), hvar4 _ (by decide) (by decide),
      hvar4 _ (by decide) (by decide), hvar3 _ (by decide), hvar3 _ (by decide),
      hvar3 _ (by decide), hst.var]
    exact hsh
  · obtain rfl : k = n := by omega
    rw [word, hvar4 _ (by decide) (by decide), hvar4 _ (by decide) (by decide)]
    exact had3
  · rw [hreu4, hreu3, hst.reu, hreu1]
    exact h.reu

/-- What the last turn leaves in the variables of `sqtab_init`. -/
def sqFinal (x : Var) : Byte :=
  match x with
  | .sqAcc2 => 4
  | .sqSh1 => 0xff
  | .sqAd0 => 0xff
  | .sqAd1 => 3
  | .sqI1 => 2
  | _ => 0

/-- **`sqtab_init`** builds the table, from any state, and leaves its
variables as it always does. -/
theorem sqtabInit_spec (s : Machine) :
    Sqtab B (sqtabInit B s) ∧ (∀ x ∈ sqVars, (sqtabInit B s).var x = sqFinal x) ∧
      (sqtabInit B s).reu = s.reu ∧ Boot sqVars B.mem.table s (sqtabInit B s) := by
  have hin : Boot sqVars B.mem.table s (((((s.setVar .sqAcc0 0).setVar .sqAcc1 0).setVar
      .sqAcc2 0).setVar .sqI0 0).setVar .sqI1 0) :=
    (((((Boot.refl s).setVar (by decide)).setVar (by decide)).setVar (by decide)).setVar
      (by decide)).setVar (by decide)
  have h : SqAt B s 0x200 (sqtabInit B s) := by
    refine doWhile_inv (N := 0x200) (m := 0x10000) (SqAt B s) ⟨?_, ?_, fun n hn => ?_,
      fun n hn => ?_, fun n hn => ?_, fun n hn => ?_, rfl, hin⟩ (by omega) (by omega)
      fun k hk t ht => sqtabBody_spec ht hk
    · rfl
    · rfl
    all_goals omega
  refine ⟨⟨fun n hn => h.lo n hn, fun n hn => h.hi n hn⟩, fun x hx => ?_, h.reu, h.boot⟩
  have hacc := h.acc
  have hidx := h.idx
  have hsh : _ = 65280 := h.sh 511 rfl
  have had := h.ad 511 rfl
  simp only [triple, word] at hacc hidx hsh had
  have hlt : ∀ y, ((sqtabInit B s).var y).toNat < 256 := fun y => ((sqtabInit B s).var y).isLt
  have := hlt .sqAcc0; have := hlt .sqAcc1; have := hlt .sqSh0; have := hlt .sqSh1
  have := hlt .sqAd0; have := hlt .sqI0
  refine BitVec.eq_of_toNat_eq ?_
  simp only [sqVars, List.mem_cons, List.not_mem_nil, or_false] at hx
  rcases hx with rfl | rfl | rfl | rfl | rfl | rfl | rfl | rfl | rfl | rfl <;>
    simp only [sqFinal, BitVec.reduceToNat] <;> omega

/-- The loop patches nothing. -/
theorem sqtabBody_ops : (sqtabBody B t).1.opLo = t.opLo ∧ (sqtabBody B t).1.opHi = t.opHi := by
  have hinc : ∀ (lo hi : Var) (u : Machine), (incVar lo hi u).opLo = u.opLo ∧
      (incVar lo hi u).opHi = u.opHi := fun lo hi u => by
    unfold incVar
    extract_lets u1
    split <;> exact ⟨rfl, rfl⟩
  have hstore : (sqStore B (sqShift t)).opLo = t.opLo ∧ (sqStore B (sqShift t)).opHi = t.opHi := by
    unfold sqStore
    split <;> simp only [sqShift, setRam_opLo, setRam_opHi, setVar_opLo, setVar_opHi, and_self]
  constructor
  · simp only [sqtabBody, sqAdvance, setVar_opLo, (hinc _ _ _).1, hstore.1]
  · simp only [sqtabBody, sqAdvance, setVar_opHi, (hinc _ _ _).2, hstore.2]

theorem sqtabInit_ops (s : Machine) :
    (sqtabInit B s).opLo = s.opLo ∧ (sqtabInit B s).opHi = s.opHi := by
  unfold sqtabInit
  refine doWhile_preserves (fun t : Machine => t.opLo = s.opLo ∧ t.opHi = s.opHi) ?_ fun t ht => ?_
  · simp only [setVar_opLo, setVar_opHi, and_self]
  · exact ⟨sqtabBody_ops.1.trans ht.1, sqtabBody_ops.2.trans ht.2⟩

end C64X25519
