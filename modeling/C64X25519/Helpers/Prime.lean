import C64X25519.Common.Lucas
import C64X25519.Helpers.AddSub
import Mathlib.Tactic.NormNum.Prime
import Mathlib.Tactic.ReduceModChar
/-!
# The prime of the field

`2 ^ 255 - 19` is prime, by Lucas's test down its factorisation: a factor
beyond trial division has a test of its own.
-/

namespace C64X25519

/-! ## Its factors, from the small ones up -/

theorem prime_2773320623 : Nat.Prime 2773320623 := by
  refine prime_of_factors 5 [2, 2437, 569003] (by norm_num) ?_ ?_ ?_
  · simp only [List.forall_mem_cons]
    norm_num
  · norm_num
    reduce_mod_char
  · simp only [List.forall_mem_cons, List.not_mem_nil, false_imp_iff, implies_true, and_true]
    norm_num
    and_intros <;> reduce_mod_char <;> decide

theorem prime_72106336199 : Nat.Prime 72106336199 := by
  refine prime_of_factors 7 [2, 13, 2773320623] (by norm_num) ?_ ?_ ?_
  · simp only [List.forall_mem_cons, prime_2773320623]
    norm_num
  · norm_num
    reduce_mod_char
  · simp only [List.forall_mem_cons, List.not_mem_nil, false_imp_iff, implies_true, and_true]
    norm_num
    and_intros <;> reduce_mod_char <;> decide

theorem prime_1919519569386763 : Nat.Prime 1919519569386763 := by
  refine prime_of_factors 2 [2, 3, 7, 19, 47, 47, 127, 8574133] (by norm_num) ?_ ?_ ?_
  · simp only [List.forall_mem_cons]
    norm_num
  · norm_num
    reduce_mod_char
  · simp only [List.forall_mem_cons, List.not_mem_nil, false_imp_iff, implies_true, and_true]
    norm_num
    and_intros <;> reduce_mod_char <;> decide

theorem prime_31757755568855353 : Nat.Prime 31757755568855353 := by
  refine prime_of_factors 10 [2, 2, 2, 3, 31, 107, 223, 4153, 430751] (by norm_num) ?_ ?_ ?_
  · simp only [List.forall_mem_cons]
    norm_num
  · norm_num
    reduce_mod_char
  · simp only [List.forall_mem_cons, List.not_mem_nil, false_imp_iff, implies_true, and_true]
    norm_num
    and_intros <;> reduce_mod_char <;> decide

/-- The factor of 116 bits. -/
theorem prime_116 : Nat.Prime 75445702479781427272750846543864801 := by
  refine prime_of_factors 7
    [2, 2, 2, 2, 2, 3, 3, 5, 5, 75707, 72106336199, 1919519569386763]
    (by norm_num) ?_ ?_ ?_
  · simp only [List.forall_mem_cons, prime_72106336199, prime_1919519569386763]
    norm_num
  · norm_num
    reduce_mod_char
  · simp only [List.forall_mem_cons, List.not_mem_nil, false_imp_iff, implies_true, and_true]
    norm_num
    and_intros <;> reduce_mod_char <;> decide

/-- The factor of 236 bits. -/
theorem prime_236 :
    Nat.Prime 74058212732561358302231226437062788676166966415465897661863160754340907 := by
  refine prime_of_factors 2
    [2, 3, 353, 57467, 132049, 1923133, 31757755568855353, 75445702479781427272750846543864801]
    (by norm_num) ?_ ?_ ?_
  · simp only [List.forall_mem_cons, prime_31757755568855353, prime_116]
    norm_num
  · norm_num
    reduce_mod_char
  · simp only [List.forall_mem_cons, List.not_mem_nil, false_imp_iff, implies_true, and_true]
    norm_num
    and_intros <;> reduce_mod_char <;> decide

/-! ## The prime -/

/-- **The field is a field.** -/
theorem p_prime : p.Prime := by
  have hp : p = 57896044618658097711785492504343953926634992332820282019728792003956564819949 := by
    norm_num [p]
  rw [hp]
  refine prime_of_factors 2
    [2, 2, 3, 65147,
      74058212732561358302231226437062788676166966415465897661863160754340907]
    (by norm_num) ?_ ?_ ?_
  · simp only [List.forall_mem_cons, prime_236]
    norm_num
  · norm_num
    reduce_mod_char
  · simp only [List.forall_mem_cons, List.not_mem_nil, false_imp_iff, implies_true, and_true]
    norm_num
    and_intros <;> reduce_mod_char <;> decide

instance : Fact p.Prime := ⟨p_prime⟩

end C64X25519
