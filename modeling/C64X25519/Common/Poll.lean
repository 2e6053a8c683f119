import Mathlib.Data.List.Basic
import Mathlib.Data.Nat.Notation
import Mathlib.Tactic.TypeStar
/-!
# Bounded polling

A reader that samples a stream until a sample satisfies a predicate, and
gives up after a fixed number of samples. `polled p n σ` is the list of the
samples it takes.
-/

namespace C64X25519

variable {α : Type*}

/-- A stream from its second sample on. -/
def dropFirst (σ : ℕ → α) : ℕ → α := fun i => σ (i + 1)

/-- The samples taken under a budget of `n`, in order. -/
def polled (p : α → Bool) : ℕ → (ℕ → α) → List α
  | 0, _ => []
  | n + 1, σ => σ 0 :: if p (σ 0) then [] else polled p n (dropFirst σ)

namespace Poll

variable {p : α → Bool} {n : ℕ} {σ : ℕ → α} {x : α}

theorem polled_hit (h : p (σ 0) = true) : polled p (n + 1) σ = [σ 0] := by
  rw [polled, if_pos h]

theorem polled_miss (h : p (σ 0) = false) :
    polled p (n + 1) σ = σ 0 :: polled p n (dropFirst σ) := by
  rw [polled, if_neg (by rw [h]; decide)]

/-- **The samples are the first of the stream.** -/
theorem polled_getElem? {i : ℕ} (hi : i < (polled p n σ).length) :
    (polled p n σ)[i]? = some (σ i) := by
  induction n generalizing σ i with
  | zero => exact absurd hi (by rw [polled]; exact Nat.not_lt_zero i)
  | succ n ih =>
      cases h : p (σ 0) with
      | true =>
          rw [polled_hit h] at hi ⊢
          obtain rfl : i = 0 := by simpa using hi
          rfl
      | false =>
          rw [polled_miss h] at hi ⊢
          cases i with
          | zero => rfl
          | succ i => exact ih (by simpa using hi)

theorem length_polled_le : (polled p n σ).length ≤ n := by
  induction n generalizing σ with
  | zero => exact Nat.le_refl 0
  | succ n ih =>
      cases h : p (σ 0) with
      | true =>
          rw [polled_hit h]
          simp
      | false =>
          rw [polled_miss h, List.length_cons]
          exact Nat.succ_le_succ ih

theorem length_polled_pos (hn : 0 < n) : 0 < (polled p n σ).length := by
  cases n with
  | zero => omega
  | succ n => simp [polled]

/-- No sample but the last is a hit. -/
theorem polled_early {i : ℕ} (hi : i + 1 < (polled p n σ).length) : p (σ i) = false := by
  induction n generalizing σ i with
  | zero => exact absurd hi (by rw [polled]; exact Nat.not_lt_zero _)
  | succ n ih =>
      cases h : p (σ 0) with
      | true =>
          rw [polled_hit h] at hi
          exact absurd hi (by simp)
      | false =>
          rw [polled_miss h] at hi
          cases i with
          | zero => exact h
          | succ i => exact ih (i := i) (by simpa using hi)

/-- **A hit in the budget is a hit among the samples.** -/
theorem any_polled : (polled p n σ).any p = true ↔ ∃ i, i < n ∧ p (σ i) = true := by
  induction n generalizing σ with
  | zero => simp [polled]
  | succ n ih =>
      cases h : p (σ 0) with
      | true =>
          rw [polled_hit h, List.any_cons, h, Bool.true_or]
          exact iff_of_true rfl ⟨0, Nat.succ_pos n, h⟩
      | false =>
          rw [polled_miss h, List.any_cons, h, Bool.false_or, ih]
          constructor
          · rintro ⟨i, hi, hp⟩
            exact ⟨i + 1, by omega, hp⟩
          · rintro ⟨i, hi, hp⟩
            cases i with
            | zero => exact absurd (h.symm.trans hp) (by decide)
            | succ i => exact ⟨i, by omega, hp⟩

/-- **Without a hit the budget is spent.** -/
theorem length_polled (h : (polled p n σ).any p = false) : (polled p n σ).length = n := by
  induction n generalizing σ with
  | zero => rfl
  | succ n ih =>
      cases h0 : p (σ 0) with
      | true =>
          rw [polled_hit h0, List.any_cons, h0, Bool.true_or] at h
          exact absurd h (by decide)
      | false =>
          rw [polled_miss h0] at h ⊢
          rw [List.any_cons, h0, Bool.false_or] at h
          rw [List.length_cons, ih h]

/-- A hit ends the samples. -/
theorem polled_getLast (h : (polled p n σ).any p = true) :
    ∃ l, polled p n σ = l ++ [σ l.length] ∧ p (σ l.length) = true ∧ ∀ y ∈ l, p y = false := by
  induction n generalizing σ with
  | zero => exact absurd h (by simp [polled])
  | succ n ih =>
      cases h0 : p (σ 0) with
      | true => exact ⟨[], by rw [polled_hit h0]; rfl, h0, by simp⟩
      | false =>
          rw [polled_miss h0, List.any_cons, h0, Bool.false_or] at h
          obtain ⟨l, hl, hp, hn⟩ := ih h
          refine ⟨σ 0 :: l, by rw [polled_miss h0, hl]; rfl, hp, fun y hy => ?_⟩
          rcases List.mem_cons.mp hy with rfl | hy
          · exact h0
          · exact hn y hy

end Poll

end C64X25519
