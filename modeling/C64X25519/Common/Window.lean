import Mathlib.Data.Nat.Notation
import Mathlib.Logic.Function.Basic
import Mathlib.Tactic.TypeStar
/-!
# Windows of a memory

A loop that stores `f i` at `d + i` has, part way through, overwritten a
window of the memory it started from. `blit m d f lo hi` is that memory,
with the indices from `lo` up to `hi` stored, so a rising loop moves `hi`
and a falling one moves `lo`.
-/

namespace C64X25519

variable {α : Type*}

/-- `m` with `f i` at `d + i` for `lo ≤ i < hi`. -/
def blit (m : ℕ → α) (d : ℕ) (f : ℕ → α) (lo hi : ℕ) : ℕ → α :=
  fun x => if d + lo ≤ x ∧ x < d + hi then f (x - d) else m x

variable {m : ℕ → α} {f g : ℕ → α} {d lo hi i x : ℕ}

@[simp] theorem blit_self : blit m d f lo lo = m := by
  funext x
  exact if_neg fun h => absurd h.2 (by omega)

theorem blit_add (h1 : lo ≤ i) (h2 : i < hi) : blit m d f lo hi (d + i) = f i := by
  rw [blit, if_pos (by omega), Nat.add_sub_cancel_left]

theorem blit_of_not (h : ¬ (d + lo ≤ x ∧ x < d + hi)) : blit m d f lo hi x = m x := if_neg h

theorem blit_of_lt (h : x < d + lo) : blit m d f lo hi x = m x :=
  if_neg fun hx => by omega

theorem blit_of_ge (h : d + hi ≤ x) : blit m d f lo hi x = m x :=
  if_neg fun hx => by omega

/-- One more store above. -/
theorem update_blit_up (h : lo ≤ hi) :
    Function.update (blit m d f lo hi) (d + hi) (f hi) = blit m d f lo (hi + 1) := by
  funext x
  rcases eq_or_ne x (d + hi) with rfl | hne
  · rw [Function.update_self, blit_add h (by omega)]
  · rw [Function.update_of_ne hne]
    simp only [blit]
    by_cases hx : d + lo ≤ x ∧ x < d + hi
    · rw [if_pos hx, if_pos (by omega)]
    · rw [if_neg hx, if_neg (by omega)]

/-- One more store below. -/
theorem update_blit_down (h : lo < hi) :
    Function.update (blit m d f (lo + 1) hi) (d + lo) (f lo) = blit m d f lo hi := by
  funext x
  rcases eq_or_ne x (d + lo) with rfl | hne
  · rw [Function.update_self, blit_add (Nat.le_refl _) h]
  · rw [Function.update_of_ne hne]
    simp only [blit]
    by_cases hx : d + (lo + 1) ≤ x ∧ x < d + hi
    · rw [if_pos hx, if_pos (by omega)]
    · rw [if_neg hx, if_neg (by omega)]

end C64X25519
