import C64X25519.Helpers.Operands
import C64X25519.Helpers.Prime
import Mathlib.FieldTheory.Finite.Basic
/-!
# Multiplication, squaring and inversion

The first two leave the exact product in `fe_wide`, for any operands and any
aliasing, and reduce it to 32 bytes. Squaring reaches the product through
other rows, so the two agree byte for byte. The inversion is a power, and an
inverse because `p` is prime.
-/

namespace C64X25519

open Machine

variable {B : Build} {s : Machine} {a b d : FieldBuf B.mem}

/-- `fe_reduce_wide` leaves 32 bytes, congruent to the number it was given. -/
theorem reduceWide_mul_spec {m n : ℕ} (hm : m < 2 ^ 256) (hn : n < 2 ^ 256) :
    reduceWide (m * n) < 2 ^ 256 ∧ reduceWide (m * n) % p = m * n % p :=
  ⟨reduceWide_lt (mul_lt_pow hm hn), reduceWide_mod _⟩

/-- **`fe25519_mul` loses no carry.** It enters `fe_reduce_wide` with the
exact product, and its result is a 32-byte number congruent to it. -/
theorem fe25519Mul_exact (hr : MulReady B s) (h1 : s.ptr B .fe25519Src1 = a.addr)
    (h2 : s.ptr B .fe25519Src2 = b.addr) (hd : s.ptr B .fe25519Dst = d.addr) :
    fe25519Mul B s = copyResult B (feReduceWide B (fe25519MulWide B s)) ∧
      (fe25519MulWide B s).wide B 64 = s.fe a.addr * s.fe b.addr ∧
      (fe25519Mul B s).fe d.addr < 2 ^ 256 ∧
      (fe25519Mul B s).fe d.addr % p = s.fe a.addr * s.fe b.addr % p := by
  have hres := (fe25519Mul_spec hr h1 h2 hd).1
  obtain ⟨hlt, hmod⟩ := reduceWide_mul_spec (fe_lt (s := s) (k := a.addr))
    (fe_lt (s := s) (k := b.addr))
  rw [hres]
  exact ⟨rfl, (fe25519MulWide_spec hr h1 h2).1, hlt, hmod⟩

/-- The product of the largest operand and `p - 1`, over the first. -/
theorem fe25519Mul_exact_inPlace :
    let s := poised .standard .x25A .x25B .x25A (2 ^ 256 - 1) (p - 1) (tablesInit .standard .blank)
    let a := MemMap.own Build.standard.mem .x25A
    let b := MemMap.own Build.standard.mem .x25B
    s.fe a.addr = 2 ^ 256 - 1 ∧ s.fe b.addr = p - 1 ∧
      fe25519Mul .standard s
        = copyResult .standard (feReduceWide .standard (fe25519MulWide .standard s)) ∧
      (fe25519MulWide .standard s).wide .standard 64 = s.fe a.addr * s.fe b.addr ∧
      (fe25519Mul .standard s).fe a.addr < 2 ^ 256 ∧
      (fe25519Mul .standard s).fe a.addr % p = s.fe a.addr * s.fe b.addr % p :=
  ⟨poised_src1 (by decide) (by norm_num), poised_src2 (by norm_num [p]),
    fe25519Mul_exact blank_ready.poised.mul poised_ptr.1 poised_ptr.2.1 poised_ptr.2.2⟩

/-- **`fe25519_sqr` is `fe25519_mul` of an operand with itself**, byte for
byte: the exact square in `fe_wide`, and the same raw result wherever the two
destinations are. -/
theorem fe25519Sqr_eq_mul {t : Machine} {c : FieldBuf B.mem} (hs : Ready B s)
    (hs1 : s.ptr B .fe25519Src1 = a.addr) (hsd : s.ptr B .fe25519Dst = d.addr)
    (ht : MulReady B t) (ht1 : t.ptr B .fe25519Src1 = b.addr)
    (ht2 : t.ptr B .fe25519Src2 = b.addr) (htd : t.ptr B .fe25519Dst = c.addr)
    (hab : t.fe b.addr = s.fe a.addr) :
    fe25519Sqr B s = copyResult B (feReduceWide B (fe25519SqrWide B s)) ∧
      (fe25519SqrWide B s).wide B 64 = s.fe a.addr ^ 2 ∧
      ∀ i, i < 32 → (fe25519Sqr B s).ram (d.addr + i) = (fe25519Mul B t).ram (c.addr + i) := by
  refine ⟨rfl, (fe25519SqrWide_spec hs hs1).1, fun i hi => ?_⟩
  have hsq := (fe25519Sqr_spec hs hs1 hsd).1
  have hmul := (fe25519Mul_spec ht ht1 ht2 htd).1
  rw [hab, ← sq] at hmul
  exact leNat_inj (n := 32) (f := fun i => (fe25519Sqr B s).ram (d.addr + i))
    (g := fun i => (fe25519Mul B t).ram (c.addr + i)) (hsq.trans hmul.symm) hi

/-- The square of the largest operand, over it. -/
theorem fe25519Sqr_eq_mul_inPlace :
    let s := poised .standard .x25A .x25A .x25A (2 ^ 256 - 1) (2 ^ 256 - 1)
      (tablesInit .standard .blank)
    let a := MemMap.own Build.standard.mem .x25A
    s.fe a.addr = 2 ^ 256 - 1 ∧
      fe25519Sqr .standard s
        = copyResult .standard (feReduceWide .standard (fe25519SqrWide .standard s)) ∧
      (fe25519SqrWide .standard s).wide .standard 64 = s.fe a.addr ^ 2 ∧
      ∀ i, i < 32 → (fe25519Sqr .standard s).ram (a.addr + i)
        = (fe25519Mul .standard s).ram (a.addr + i) :=
  ⟨poised_src2 (by norm_num), fe25519Sqr_eq_mul blank_ready.poised poised_ptr.1 poised_ptr.2.2
    blank_ready.poised.mul poised_ptr.1 poised_ptr.2.1 poised_ptr.2.2 rfl⟩

/-! ## Inversion -/

/-- The power `p - 2` modulo `p`. -/
def inverse (n : ℕ) : ℕ := n ^ (p - 2) % p

theorem inverse_eq_val (n : ℕ) : ((n : ZMod p) ^ (p - 2)).val = inverse n := by
  rw [← Nat.cast_pow, ZMod.val_natCast, inverse]

theorem inverse_lt (n : ℕ) : inverse n < p := Nat.mod_lt _ (NeZero.pos p)

theorem inverse_of_zero {n : ℕ} (h : n % p = 0) : inverse n = 0 := by
  rw [inverse, Nat.pow_mod, h, Nat.zero_pow (by norm_num [p]), Nat.zero_mod]

/-- **Fermat.** -/
theorem mul_inverse {n : ℕ} (h : n % p ≠ 0) : n * inverse n % p = 1 := by
  have hne : (n : ZMod p) ≠ 0 := by
    rw [Ne, ZMod.natCast_eq_zero_iff, Nat.dvd_iff_mod_eq_zero]
    exact h
  have hone : ((n * inverse n : ℕ) : ZMod p) = ((1 : ℕ) : ZMod p) := by
    rw [inverse, Nat.cast_mul, natCast_mod_p, Nat.cast_pow, ← pow_succ',
      show p - 2 + 1 = p - 1 by norm_num [p], ZMod.pow_card_sub_one_eq_one hne, Nat.cast_one]
  have hmod := (ZMod.natCast_eq_natCast_iff' _ _ _).1 hone
  rwa [Nat.mod_eq_of_lt p_prime.one_lt] at hmod

theorem inverse_pos {n : ℕ} (h : n % p ≠ 0) : 1 ≤ inverse n := by
  rw [Nat.one_le_iff_ne_zero]
  intro hz
  have hmul := mul_inverse h
  rw [hz, mul_zero, Nat.zero_mod] at hmul
  exact absurd hmul zero_ne_one

/-- An inverse below `p` is the inverse. -/
theorem inverse_unique {n r : ℕ} (hr : r < p) (h : n * r % p = 1) : r = inverse n := by
  have hn : n % p ≠ 0 := by
    intro hz
    rw [Nat.mul_mod, hz, zero_mul, Nat.zero_mod] at h
    cases h
  have hmul := mul_inverse hn
  calc r = r * (n * inverse n % p) % p := by rw [hmul, mul_one, Nat.mod_eq_of_lt hr]
    _ = n * r % p * inverse n % p := by
        rw [Nat.mul_mod_mod, Nat.mod_mul_mod, mul_left_comm, mul_assoc]
    _ = inverse n := by rw [h, one_mul, Nat.mod_eq_of_lt (inverse_lt n)]

/-- **`fe25519_inv` inverts**: the canonical power `p - 2` of its operand, which
is zero for zero and otherwise the only inverse below `p`. The source and the
destination may be its own temporaries; the destination pointer is restored,
and no other buffer changes. -/
theorem fe25519Inv_correct (hr : Ready B s) (h1 : s.ptr B .fe25519Src1 = a.addr)
    (hd : s.ptr B .fe25519Dst = d.addr) :
    (fe25519Inv B s).fe d.addr = s.fe a.addr ^ (p - 2) % p ∧
      (s.fe a.addr % p = 0 → (fe25519Inv B s).fe d.addr = 0) ∧
      (s.fe a.addr % p ≠ 0 → ∀ r, r = (fe25519Inv B s).fe d.addr ↔
        (1 ≤ r ∧ r < p) ∧ s.fe a.addr * r % p = 1) ∧
      (fe25519Inv B s).ptr B .fe25519Dst = d.addr ∧
      ∀ e : FieldBuf B.mem, e ≠ d → (∀ k ∈ invBufs, e ≠ B.mem.own k) →
        ∀ i, i < 32 → (fe25519Inv B s).ram (e.addr + i) = s.ram (e.addr + i) := by
  obtain ⟨hres, hptr, hk⟩ := fe25519Inv_spec hr h1 hd
  rw [inverse_eq_val] at hres
  refine ⟨hres, fun hz => hres.trans (inverse_of_zero hz), fun hn r => ?_, hptr,
    fun e hed htmp i hi => hk.ram _ (not_dirty (a := e) ?_ hi)⟩
  · rw [hres]
    constructor
    · intro he
      rw [he]
      exact ⟨⟨inverse_pos hn, inverse_lt _⟩, mul_inverse hn⟩
    · rintro ⟨⟨-, hlt⟩, hmul⟩
      exact inverse_unique hlt hmul
  · rintro (rfl | ⟨k, hk, rfl⟩)
    · exact hed rfl
    · exact htmp k hk rfl

/-- The inverse of nine, from one temporary into another. -/
theorem fe25519Inv_correct_temporaries :
    let s := poised .standard .x25A .x25A .fe25519Tmp2 9 9 (tablesInit .standard .blank)
    let a := MemMap.own Build.standard.mem .x25A
    let d := MemMap.own Build.standard.mem .fe25519Tmp2
    s.fe a.addr = 9 ∧
      (fe25519Inv .standard s).fe d.addr = s.fe a.addr ^ (p - 2) % p ∧
      (s.fe a.addr % p = 0 → (fe25519Inv .standard s).fe d.addr = 0) ∧
      (s.fe a.addr % p ≠ 0 → ∀ r, r = (fe25519Inv .standard s).fe d.addr ↔
        (1 ≤ r ∧ r < p) ∧ s.fe a.addr * r % p = 1) ∧
      (fe25519Inv .standard s).ptr .standard .fe25519Dst = d.addr ∧
      ∀ e : FieldBuf Build.standard.mem, e ≠ d → (∀ k ∈ invBufs, e ≠ MemMap.own _ k) →
        ∀ i, i < 32 → (fe25519Inv .standard s).ram (e.addr + i) = s.ram (e.addr + i) :=
  ⟨poised_src2 (by norm_num), fe25519Inv_correct blank_ready.poised poised_ptr.1 poised_ptr.2.2⟩

end C64X25519
