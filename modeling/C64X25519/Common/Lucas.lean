import Mathlib.Algebra.BigOperators.Associated
import Mathlib.NumberTheory.LucasPrimality
/-!
# Primality by a factorisation

Lucas's test asks about every prime factor of `n - 1`. Given `n - 1` as a
product of primes, those are the primes of the product.
-/

namespace C64X25519

variable {n : ℕ}

/-- **Lucas's test on a factorisation.** `a` has order `n - 1` modulo `n` once
its powers at the cofactors of a complete factorisation differ from one. -/
theorem prime_of_factors (a : ZMod n) (l : List ℕ) (hprod : l.prod = n - 1)
    (hprime : ∀ q ∈ l, q.Prime) (ha : a ^ (n - 1) = 1)
    (hne : ∀ q ∈ l, a ^ ((n - 1) / q) ≠ 1) : n.Prime := by
  refine lucas_primality n a ha fun q hq hdvd => ?_
  rw [← hprod] at hdvd
  obtain ⟨r, hr, hqr⟩ := (Nat.Prime.prime hq).dvd_prod_iff.1 hdvd
  rw [(Nat.prime_dvd_prime_iff_eq hq (hprime r hr)).1 hqr]
  exact hne r hr

end C64X25519
