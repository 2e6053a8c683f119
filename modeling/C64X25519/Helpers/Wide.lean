import C64X25519.Helpers.Moves
import C64X25519.Model.MulA24
/-!
# The accumulator as a number

Every routine that multiplies adds bytes into `fe_wide` one at a time and
hands the carry on. `adcWide` is that step: the number in the accumulator
and the carry, weighted by its place, grow by exactly what was added. The
ripples and cascades are runs of the step.
-/

namespace C64X25519

open Machine

variable {B : Build} {s t : Machine} {k m n x : ℕ} {v : Byte} {c : Bool}

/-! ## One byte of the accumulator -/

theorem setWide_window (hk : k < 64) :
    (fun i => (s.setZp (B.wideAt k) v).zp (B.slot .feWide + i))
      = Function.update (fun i => s.zp (B.slot .feWide + i)) k v := by
  funext i
  rw [setZp_zp, Build.wideAt_eq hk]
  rcases eq_or_ne i k with rfl | hne
  · rw [Function.update_self, Function.update_self]
  · rw [Function.update_of_ne (by omega), Function.update_of_ne hne]

/-- A store to a byte of the accumulator replaces one digit. -/
theorem wide_setWide (hk : k < n) (hn : n ≤ 64) :
    (s.setZp (B.wideAt k) v).wide B n + (s.zp (B.wideAt k)).toNat * 256 ^ k
      = s.wide B n + v.toNat * 256 ^ k := by
  rw [wide, setWide_window (by omega), Build.wideAt_eq (by omega)]
  exact leNat_update v hk

theorem wide_setSlot {x : Slot} (hx : x ≠ .feWide) (hn : n ≤ 64) :
    (s.setZp (B.slot x) v).wide B n = s.wide B n :=
  leNat_congr fun i hi => by
    have h := setZp_zp_wideAt (B := B) (s := s) (v := v) (show i < 64 by omega) hx
    rwa [Build.wideAt_eq (by omega)] at h

theorem wide_congr (h : t.zp = s.zp) : t.wide B n = s.wide B n := by rw [wide, wide, h]

theorem wide_lt : s.wide B n < 256 ^ n := leNat_lt

/-- The arithmetic of one step: a digit replaced by the byte of its sum. -/
theorem digit_step {w w' q o r a c c' : ℕ} (h : w' + o * q = w + r * q)
    (hd : r + 256 * c' = o + a + c) : w' + 256 * q * c' = w + q * (a + c) := by
  have hq : q * (r + 256 * c') = q * (o + a + c) := by rw [hd]
  linarith

/-- **One addition into the accumulator** loses nothing: the carry counts
the next place. -/
theorem adcWide_spec {u : Bool × Machine} (hk : k < n) (hn : n ≤ 64) :
    (adcWide B k v u).2.wide B n + 256 ^ (k + 1) * (adcWide B k v u).1.toNat
      = u.2.wide B n + 256 ^ k * (v.toNat + u.1.toNat) := by
  have h := wide_setWide (B := B) (s := u.2)
    (v := (adc (u.2.zp (B.wideAt k)) v u.1).1) hk hn
  rw [pow_succ, mul_comm (256 ^ k) 256]
  exact digit_step h (adc_val _ _ _)

/-! ## What the accumulator's routines leave alone -/

/-- From `s` to `t` only page zero has changed, and there only the slots of
`S`. -/
structure InZp (B : Build) (S : List Slot) (s t : Machine) : Prop where
  rest : t = { s with zp := t.zp }
  zp : ∀ a, (∀ x ∈ S, ¬ B.span x a) → t.zp a = s.zp a

namespace InZp

variable {S : List Slot} {y : Slot} {u : Machine}

@[refl] theorem refl (s : Machine) : InZp B S s s := ⟨rfl, fun _ _ => rfl⟩

theorem trans (h : InZp B S s t) (h' : InZp B S t u) : InZp B S s u where
  rest := by rw [h'.rest, h.rest]
  zp a ha := (h'.zp a ha).trans (h.zp a ha)

theorem mono {S' : List Slot} (hS : S ⊆ S') (h : InZp B S s t) : InZp B S' s t :=
  ⟨h.rest, fun a ha => h.zp a fun x hx => ha x (hS hx)⟩

theorem setSlot (hy : y ∈ S) (h : InZp B S s t) : InZp B S s (t.setZp (B.slot y) v) where
  rest := by rw [h.rest]; rfl
  zp a ha := by
    rw [← h.zp a ha]
    refine Function.update_of_ne ?_ _ _
    rintro rfl
    exact ha y hy (Build.span_slot (i := 0) y.size_pos)

theorem setWide (hy : Slot.feWide ∈ S) (hk : k < 64) (h : InZp B S s t) :
    InZp B S s (t.setZp (B.wideAt k) v) where
  rest := by rw [h.rest]; rfl
  zp a ha := by
    rw [← h.zp a ha]
    refine Function.update_of_ne ?_ _ _
    rw [Build.wideAt_eq hk]
    rintro rfl
    exact ha _ hy (Build.span_slot (x := .feWide) hk)

theorem adcWide {w : Bool × Machine} (hy : Slot.feWide ∈ S) (hk : k < 64)
    (h : InZp B S s w.2) : InZp B S s (adcWide B k v w).2 := h.setWide hy hk

theorem zp_slot (h : InZp B S s t) (hy : y ∉ S) (hk : k < y.size) :
    t.zp (B.slot y + k) = s.zp (B.slot y + k) :=
  h.zp _ fun _ hx => Build.not_span (fun he => hy (he ▸ hx)) hk

theorem slot (h : InZp B S s t) (hy : y ∉ S) : t.zp (B.slot y) = s.zp (B.slot y) :=
  h.zp_slot (k := 0) hy y.size_pos

theorem ram (h : InZp B S s t) : t.ram = s.ram := by rw [h.rest]
theorem opLo (h : InZp B S s t) : t.opLo = s.opLo := by rw [h.rest]
theorem opHi (h : InZp B S s t) : t.opHi = s.opHi := by rw [h.rest]
theorem var (h : InZp B S s t) : t.var = s.var := by rw [h.rest]
theorem reu (h : InZp B S s t) : t.reu = s.reu := by rw [h.rest]

theorem op (h : InZp B S s t) (y : Site) : t.op y = s.op y := by
  rw [Machine.op, Machine.op, h.opLo, h.opHi]

theorem frame {D : ℕ → Prop} (h : InZp B S s t) (hS : ∀ x ∈ S, x.work = true) :
    Frame B D s t where
  ram a _ := by rw [h.ram]
  zp a ha := h.zp a fun x hx => ha x (hS x hx)
  var _ _ := by rw [h.var]
  flagI := by rw [h.rest]
  mem := by rw [h.reu]
  live := by rw [h.reu]

end InZp

/-- **A 16-bit number** goes into two adjacent bytes, and its carry counts
the byte after them. -/
theorem adcPair_spec (lo hi : Byte) (hk : k + 1 < 64) :
    (adcWide B (k + 1) hi (adcWide B k lo (false, s))).2.wide B 64
        + 256 ^ (k + 2) * (adcWide B (k + 1) hi (adcWide B k lo (false, s))).1.toNat
        = s.wide B 64 + 256 ^ k * (lo.toNat + 256 * hi.toNat) ∧
      InZp B [.feWide] s (adcWide B (k + 1) hi (adcWide B k lo (false, s))).2 := by
  have h1 := adcWide_spec (B := B) (u := (false, s)) (v := lo) (k := k) (n := 64) (by omega) le_rfl
  have h2 := adcWide_spec (B := B) (u := adcWide B k lo (false, s)) (v := hi) (k := k + 1) (n := 64)
    hk le_rfl
  refine ⟨?_, ((InZp.refl s).adcWide (by simp) (by omega)).adcWide (by simp) hk⟩
  simp only [Bool.toNat_false, add_zero, pow_succ] at h1 h2 ⊢
  linarith

/-! ## Cascades and ripples -/

/-- **A cascade** carries to the end of its run. -/
theorem cascade_spec (hn : x + n ≤ m) (hm : m ≤ 64) :
    (cascade B x n c s).2.wide B m + 256 ^ (x + n) * (cascade B x n c s).1.toNat
        = s.wide B m + 256 ^ x * c.toNat ∧
      InZp B [.feWide] s (cascade B x n c s).2 := by
  refine loopUp_inv (fun k (t : Bool × Machine) =>
    t.2.wide B m + 256 ^ (x + k) * t.1.toNat = s.wide B m + 256 ^ x * c.toNat ∧
      InZp B [.feWide] s t.2) ⟨rfl, InZp.refl s⟩ ?_
  rintro k hk t ⟨hv, hz⟩
  refine ⟨?_, hz.adcWide (v := 0) (by simp) (by omega)⟩
  have h := adcWide_spec (B := B) (v := 0) (u := t) (show x + k < m by omega) hm
  rw [show (0 : Byte).toNat = 0 from rfl, zero_add] at h
  exact h.trans hv

/-- **A ripple** adds the byte it is entered with at its first place. -/
theorem ripple_spec {a : Byte} (hn : x + n = m) (hm : m ≤ 64) (h0 : 0 < n) :
    (∃ c : Bool, (ripple B x n a s).wide B m + 256 ^ m * c.toNat
        = s.wide B m + 256 ^ x * a.toNat) ∧
      InZp B [.feWide] s (ripple B x n a s) := by
  -- after the first turn the byte in the accumulator is zero
  unfold ripple
  generalize hr : loopUp _ n (a, false, s) = r
  have hrun : r.2.2.wide B m + 256 ^ (x + n) * (r.1.toNat + r.2.1.toNat)
      = s.wide B m + 256 ^ x * a.toNat ∧ (0 < n → r.1 = 0) ∧ InZp B [.feWide] s r.2.2 := by
    rw [← hr]
    refine loopUp_inv (fun k (t : Byte × Bool × Machine) =>
      t.2.2.wide B m + 256 ^ (x + k) * (t.1.toNat + t.2.1.toNat)
        = s.wide B m + 256 ^ x * a.toNat ∧ (0 < k → t.1 = 0) ∧ InZp B [.feWide] s t.2.2)
      ⟨by simp, by omega, InZp.refl s⟩ ?_
    rintro k hk ⟨b, c, t⟩ ⟨hv, -, hin⟩
    refine ⟨?_, fun _ => rfl, hin.setWide (by simp) (by omega)⟩
    have h := wide_setWide (B := B) (s := t) (n := m) (k := x + k)
      (v := (adc b (t.zp (B.wideAt (x + k))) c).1) (by omega) hm
    rw [← hv]
    simp only [show (0 : Byte).toNat = 0 from rfl, zero_add, ← Nat.add_assoc, pow_succ,
      mul_comm (256 ^ (x + k)) 256]
    refine digit_step h ?_
    rw [adc_val]
    ring
  obtain ⟨hv, hz, hin⟩ := hrun
  rw [hz h0, show (0 : Byte).toNat = 0 from rfl, zero_add, hn] at hv
  exact ⟨⟨_, hv⟩, hin⟩

/-- A ripple of nothing changes nothing. -/
theorem ripple_zero : ripple B x n 0 s = s := by
  have hadc : ∀ v : Byte, adc 0 v false = (v, false) := by decide
  unfold ripple
  generalize hr : loopUp _ n ((0 : Byte), false, s) = r
  have hrun : r = (0, false, s) := by
    rw [← hr]
    refine loopUp_inv (fun _ t => t = (0, false, s)) rfl ?_
    rintro k hk _ rfl
    simp only [hadc, setZp, Function.update_eq_self]
  rw [hrun]

end C64X25519
