import C64X25519.Helpers.Frame
import C64X25519.Model.Cpu
/-!
# The registers of the processor

Instruction by instruction the settle and the two row fetches do to the
machine what their definitions on the machine do, with X and Y as they were;
and a settle keeps the carry too.
-/

namespace C64X25519

open Machine

variable {B : Build}

namespace Cpu

variable {s t u : Cpu} {m : Machine}

/-- `u` is over the machine `m`, with X and Y those of `t`. -/
structure Keeps (t u : Cpu) (m : Machine) : Prop where
  x : u.x = t.x
  y : u.y = t.y
  m : u.m = m

/-- And with the carry of `t`. -/
structure KeepsC (t u : Cpu) (m : Machine) : Prop extends Keeps t u m where
  c : u.c = t.c

/-- The bit of a verify error, recorded on both levels alike. -/
theorem verify_keeps (u : Cpu) :
    let t := (u.lda (u.m.var .x25519ReuSettleSmp)).and' 0x20
    KeepsC u (if t.z then t else
        ((t.lda 0x02).ora (t.m.var .x25519ReuFault)).staVar .x25519ReuFault)
      (if u.m.var .x25519ReuSettleSmp &&& 0x20 = 0 then u.m
        else u.m.setVar .x25519ReuFault (0x02 ||| u.m.var .x25519ReuFault)) := by
  simp only [lda, and', ora, staVar]
  by_cases h : u.m.var .x25519ReuSettleSmp &&& 0x20 = 0
  · simp only [h, decide_true, if_true]
    exact ⟨⟨rfl, rfl, rfl⟩, rfl⟩
  · simp only [h, decide_false, if_false, Bool.false_eq_true]
    exact ⟨⟨rfl, rfl, rfl⟩, rfl⟩

/-- **A turn of the slow path** spares X, Y and the carry. -/
theorem settleCheck_keeps (h : KeepsC t u m) :
    KeepsC t (settleCheck u).1 (C64X25519.settleCheck m).1 ∧
      (settleCheck u).2 = (C64X25519.settleCheck m).2 := by
  obtain ⟨⟨hx, hy, rfl⟩, hc⟩ := h
  obtain ⟨⟨hx1, hy1, hm1⟩, hc1⟩ := verify_keeps u
  unfold settleCheck C64X25519.settleCheck
  extract_lets t0 _ t1 t2 t3 t4 t5 m1 m2 p
  change t1.x = u.x at hx1
  change t1.y = u.y at hy1
  change t1.c = u.c at hc1
  change t1.m = m1 at hm1
  have hz2 : (!t2.z) = true ↔ m1.var .x25519ReuSettleSmp &&& 0x40 ≠ 0 := by
    rw [← hm1]
    change (!decide (t1.m.var .x25519ReuSettleSmp &&& 0x40 = 0)) = true ↔ _
    simp
  have hz3 : t3.z = true ↔ m2.var .x25519ReuSettleCnt = 0 := by
    change decide (t1.m.var .x25519ReuSettleCnt - 1 = 0) = true ↔ _
    rw [decide_eq_true_iff, hm1, setVar_var_self]
  have hm3 : t3.m = m2 := by
    change t1.m.setVar .x25519ReuSettleCnt (t1.m.var .x25519ReuSettleCnt - 1) = m2
    rw [hm1]
  by_cases h2 : m1.var .x25519ReuSettleSmp &&& 0x40 ≠ 0
  · rw [if_pos h2, if_pos (hz2.mpr h2)]
    exact ⟨⟨⟨hx1.trans hx, hy1.trans hy, hm1⟩, hc1.trans hc⟩, rfl⟩
  · rw [if_neg h2, if_neg (mt hz2.mp h2)]
    by_cases h3 : m2.var .x25519ReuSettleCnt = 0
    · rw [if_pos h3, if_pos (hz3.mpr h3)]
      refine ⟨⟨⟨hx1.trans hx, hy1.trans hy, ?_⟩, hc1.trans hc⟩, rfl⟩
      change t3.m.setVar .x25519ReuFault (0x01 ||| t3.m.var .x25519ReuFault) = _
      rw [hm3]
    · rw [if_neg h3, if_neg (mt hz3.mp h3)]
      refine ⟨⟨⟨hx1.trans hx, hy1.trans hy, ?_⟩, hc1.trans hc⟩, rfl⟩
      change t3.m.readStatus.2.setVar .x25519ReuSettleSmp (t3.m.readStatus.1 &&& 0x60) = _
      rw [hm3]

/-- **A settle** does on the machine what it does there, and spares X, Y and
the carry. -/
theorem reuSettle_keeps (t : Cpu) : KeepsC t (reuSettle B t) (C64X25519.reuSettle B t.m) := by
  unfold reuSettle C64X25519.reuSettle
  extract_lets u p a
  have hz : u.z = true ↔ a = 0 := by
    change decide (a = 0) = true ↔ _
    rw [decide_eq_true_iff]
  by_cases h : a = 0
  · rw [if_pos h, if_pos (hz.mpr h)]
    exact ⟨⟨rfl, rfl, rfl⟩, rfl⟩
  · rw [if_neg h, if_neg (mt hz.mp h)]
    unfold x25519ReuSettleSlow C64X25519.x25519ReuSettleSlow
    exact doWhile_sim (KeepsC t) ⟨⟨rfl, rfl, rfl⟩, rfl⟩ fun _ _ => settleCheck_keeps

/-! ## The row fetches -/

theorem KeepsC.keeps (h : KeepsC u s m) (hx : u.x = t.x) (hy : u.y = t.y) : Keeps t s m :=
  ⟨h.x.trans hx, h.y.trans hy, h.m⟩

/-- **`reu_fetch_mul_row`** spares X and Y. -/
theorem reuFetchMulRow_keeps (t : Cpu) :
    Keeps t (reuFetchMulRow B t) (C64X25519.reuFetchMulRow B t.a t.m) := by
  unfold reuFetchMulRow C64X25519.reuFetchMulRow
  exact (reuSettle_keeps _).keeps rfl rfl

/-- **`reu_fetch_doubled_row`** does too. -/
theorem reuFetchDoubledRow_keeps (t : Cpu) :
    Keeps t (reuFetchDoubledRow B t) (C64X25519.reuFetchDoubledRow B t.m) := by
  unfold reuFetchDoubledRow C64X25519.reuFetchDoubledRow
  extract_lets _ _ _ _ _ u6 u7 u8 u9 u10 u11 u12 u13 _ _ _ _ _ _ _ m6 m7 m8 m9 m10 m11 m12 m13
  have h7 : Keeps t u7 m7 := (reuSettle_keeps u6).keeps rfl rfl
  -- behind the first settle the two levels are in step again
  have h13 : u13.m = m13 := by
    simp only [u13, u12, u11, u10, u9, u8, m13, m12, m11, m10, m9, m8, ← h7.m]
    rfl
  have h := (reuSettle_keeps (B := B) u13).keeps (t := t) h7.x h7.y
  rwa [h13] at h

end Cpu

end C64X25519
