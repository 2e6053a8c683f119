import Mathlib.Data.Nat.Notation
import Mathlib.Logic.Function.Iterate
import Mathlib.Logic.Relation
import Mathlib.Tactic.TypeStar
/-!
# Counted loops and runs

Three shapes of loop a small processor runs: an index counting up, an
index counting down, and a body that is repeated while it asks for
another turn. Each comes with its invariant rule, and the last takes its
fuel from the width of the counter that stops it. A run of steps in any
order and number has the rule of its step.
-/

namespace C64X25519

variable {σ : Type*}

/-- The body at `0, 1, …, n - 1`, in that order. -/
def loopUp (body : ℕ → σ → σ) : ℕ → σ → σ
  | 0, s => s
  | n + 1, s => body n (loopUp body n s)

/-- The body at `n - 1, …, 1, 0`, in that order. -/
def loopDown (body : ℕ → σ → σ) : ℕ → σ → σ
  | 0, s => s
  | n + 1, s => loopDown body n (body n s)

/-- The body once, and again for as long as it returns `true`. -/
def doWhile (body : σ → σ × Bool) : ℕ → σ → σ
  | 0, s => s
  | fuel + 1, s => if (body s).2 then doWhile body fuel (body s).1 else (body s).1

variable {f : ℕ → σ → σ} {s : σ} {n : ℕ}

@[simp] theorem loopUp_zero : loopUp f 0 s = s := rfl

@[simp] theorem loopUp_succ : loopUp f (n + 1) s = f n (loopUp f n s) := rfl

@[simp] theorem loopDown_zero : loopDown f 0 s = s := rfl

@[simp] theorem loopDown_succ : loopDown f (n + 1) s = loopDown f n (f n s) := rfl

/-- **The rule of the rising loop.** `I k` holds before the body runs at
`k`. -/
theorem loopUp_inv (I : ℕ → σ → Prop) (h0 : I 0 s)
    (hstep : ∀ k, k < n → ∀ t, I k t → I (k + 1) (f k t)) : I n (loopUp f n s) := by
  induction n with
  | zero => exact h0
  | succ n ih =>
      exact hstep n (by omega) _ (ih fun k hk => hstep k (by omega))

/-- **The rule of the falling loop.** `I k` holds once the body has run
at every index from `k` up. -/
theorem loopDown_inv (I : ℕ → σ → Prop) (hn : I n s)
    (hstep : ∀ k, k < n → ∀ t, I (k + 1) t → I k (f k t)) : I 0 (loopDown f n s) := by
  induction n generalizing s with
  | zero => exact hn
  | succ n ih =>
      exact ih (hstep n (by omega) s hn) fun k hk => hstep k (by omega)

variable {g : σ → σ × Bool} {m N : ℕ}

/-- **The rule of the repeated body.** A body that asks for another turn
exactly until its `N`-th run leaves the loop with `I N`, provided the fuel
covers the `N` runs. -/
theorem doWhile_inv (I : ℕ → σ → Prop) (h0 : I 0 s) (hN : 0 < N) (hm : N ≤ m)
    (hstep : ∀ k, k < N → ∀ t, I k t → I (k + 1) (g t).1 ∧ (g t).2 = decide (k + 1 < N)) :
    I N (doWhile g m s) := by
  induction N generalizing I s m with
  | zero => omega
  | succ N ih =>
      obtain ⟨m, rfl⟩ : ∃ l, m = l + 1 := ⟨m - 1, by omega⟩
      obtain ⟨h1, hagain⟩ := hstep 0 (by omega) s h0
      rw [doWhile]
      by_cases hlast : N = 0
      · subst hlast
        simpa [hagain] using h1
      · rw [hagain, if_pos (by simp; omega)]
        refine ih (fun k => I (k + 1)) h1 (by omega) (by omega) fun k hk t ht => ?_
        obtain ⟨h, ha⟩ := hstep (k + 1) (by omega) t ht
        exact ⟨h, by rw [ha]; simp⟩

/-- **A counted loop is an iterate of its body.** -/
theorem doWhile_eq_iterate (hN : 0 < N) (hm : N ≤ m)
    (h : ∀ k, k < N → (g ((fun t => (g t).1)^[k] s)).2 = decide (k + 1 < N)) :
    doWhile g m s = (fun t => (g t).1)^[N] s :=
  doWhile_inv (fun k t => t = (fun t => (g t).1)^[k] s) rfl hN hm fun k hk t ht =>
    ⟨by rw [Function.iterate_succ_apply', ht], by rw [ht]; exact h k hk⟩

/-- **A loop with an invariant that counts its turns**: the state before
each turn, and the loop as the last of them. -/
theorem doWhile_turns (J : ℕ → σ → Prop) (h0 : J 0 s) (hN : 0 < N) (hm : N ≤ m)
    (hstep : ∀ k, k < N → ∀ t, J k t → J (k + 1) (g t).1 ∧ (g t).2 = decide (k + 1 < N)) :
    (∀ k, k ≤ N → J k ((fun t => (g t).1)^[k] s)) ∧
      doWhile g m s = (fun t => (g t).1)^[N] s := by
  have hturn : ∀ k, k ≤ N → J k ((fun t => (g t).1)^[k] s) := by
    intro k
    induction k with
    | zero => exact fun _ => h0
    | succ k ih =>
      intro hk
      rw [Function.iterate_succ_apply']
      exact (hstep k hk _ (ih (by omega))).1
  exact ⟨hturn, doWhile_eq_iterate hN hm fun k hk => (hstep k hk _ (hturn k (Nat.le_of_lt hk))).2⟩

/-- What every run of the body preserves the loop preserves, whatever the
fuel. -/
theorem doWhile_preserves (P : σ → Prop) (h0 : P s) (hstep : ∀ t, P t → P (g t).1) :
    P (doWhile g m s) := by
  induction m generalizing s with
  | zero => exact h0
  | succ m ih =>
      rw [doWhile]
      split
      · exact ih (hstep s h0)
      · exact hstep s h0

/-- **Two loops in lockstep**: bodies that keep a relation, and agree on
another turn, make loops that keep it. -/
theorem doWhile_sim {τ : Type*} {h : τ → τ × Bool} {t : τ} (R : σ → τ → Prop) (h0 : R s t)
    (hstep : ∀ s t, R s t → R (g s).1 (h t).1 ∧ (g s).2 = (h t).2) :
    R (doWhile g m s) (doWhile h m t) := by
  induction m generalizing s t with
  | zero => exact h0
  | succ m ih =>
      obtain ⟨h1, hagain⟩ := hstep s t h0
      rw [doWhile, doWhile, hagain]
      split
      · exact ih h1
      · exact h1

/-- The body once, when it asks for no other turn. -/
theorem doWhile_stop (hm : 0 < m) (h : (g s).2 = false) : doWhile g m s = (g s).1 := by
  obtain ⟨m, rfl⟩ : ∃ l, m = l + 1 := ⟨m - 1, by omega⟩
  rw [doWhile, if_neg (by rw [h]; decide)]

/-- The body once and the loop again, when it asks for another. -/
theorem doWhile_again (h : (g s).2 = true) : doWhile g (m + 1) s = doWhile g m (g s).1 := by
  rw [doWhile, if_pos h]

/-- **The rule of a run**: what every step preserves, every run does. -/
theorem run_preserves {r : σ → σ → Prop} {t : σ} (P : σ → Prop)
    (hstep : ∀ s t, r s t → P s → P t) (h : Relation.ReflTransGen r s t) (h0 : P s) : P t := by
  induction h with
  | refl => exact h0
  | tail _ hst ih => exact hstep _ _ hst ih

-- a loop is opened by its rule, never by running it
attribute [irreducible] loopUp loopDown doWhile

end C64X25519
