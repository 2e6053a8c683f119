import C64X25519.Common.Window
import C64X25519.Helpers.Frame
/-!
# Carry chains in memory

A byte operation run along two strings of bytes, as functions of the
strings: the bytes it stores and the carry it hands on. With `ADC` and
`SBC` the chain is an addition and a subtraction of the numbers the
strings spell. A loop of the machine that stores the bytes of a chain
refines it (`loopUp_chain`), in place or not.
-/

namespace C64X25519

variable {op : Byte → Byte → Bool → Byte × Bool} {f g : ℕ → Byte} {c : Bool} {n : ℕ}

/-- The carry into position `n`. -/
def carries (op : Byte → Byte → Bool → Byte × Bool) (f g : ℕ → Byte) (c : Bool) : ℕ → Bool
  | 0 => c
  | n + 1 => (op (f n) (g n) (carries op f g c n)).2

/-- The byte stored at position `n`. -/
def chain (op : Byte → Byte → Bool → Byte × Bool) (f g : ℕ → Byte) (c : Bool) (n : ℕ) : Byte :=
  (op (f n) (g n) (carries op f g c n)).1

/-- **A chain of `ADC` is an addition.** -/
theorem adc_chain :
    leNat (chain adc f g c) n + 256 ^ n * (carries adc f g c n).toNat
      = leNat f n + leNat g n + c.toNat := by
  have h := Radix.value_chain (b := 256) (n := n)
    (f := fun i => (chain adc f g c i).toNat) (g := fun i => (f i).toNat + (g i).toNat)
    (c := fun i => (carries adc f g c i).toNat)
    fun i _ => adc_val (f i) (g i) (carries adc f g c i)
  rw [Radix.value_add] at h
  exact h

/-- **A chain of `SBC` is a subtraction**, its borrow the complement of the
carry. -/
theorem sbc_chain :
    leNat (chain sbc f g c) n + leNat g n + (!c).toNat
      = leNat f n + 256 ^ n * (!carries sbc f g c n).toNat := by
  have h := Radix.value_chain (b := 256) (n := n)
    (f := fun i => (f i).toNat) (g := fun i => (chain sbc f g c i).toNat + (g i).toNat)
    (c := fun i => (!carries sbc f g c i).toNat)
    fun i _ => (sbc_val (f i) (g i) (carries sbc f g c i)).symm
  rw [Radix.value_add] at h
  exact h.symm

/-- **A loop that stores a chain.** Each turn, wherever the earlier turns
have stored, reads the two bytes of its position and stores the chain's
byte; what the rest of the turn and the stores keep, the loop keeps. -/
theorem loopUp_chain (op : Byte → Byte → Bool → Byte × Bool) (f g : ℕ → Byte) (c : Bool)
    (body : ℕ → Machine × Bool → Machine × Bool) {s : Machine} {d : ℕ} (I : Machine → Prop)
    (hI : I s) (hstore : ∀ t k v, k < n → I t → I (t.setRam (d + k) v))
    (hbody : ∀ k, k < n → ∀ t b, I t → t.ram = blit s.ram d (chain op f g c) 0 k →
      ∃ t', I t' ∧ t'.ram = t.ram ∧
        body k (t, b) = (t'.setRam (d + k) (op (f k) (g k) b).1, (op (f k) (g k) b).2)) :
    (loopUp body n (s, c)).1.ram = blit s.ram d (chain op f g c) 0 n ∧
      (loopUp body n (s, c)).2 = carries op f g c n ∧ I (loopUp body n (s, c)).1 := by
  refine loopUp_inv (fun k (t : Machine × Bool) => t.1.ram = blit s.ram d (chain op f g c) 0 k ∧
    t.2 = carries op f g c k ∧ I t.1) ⟨blit_self.symm, rfl, hI⟩ ?_
  rintro k hk ⟨t, b⟩ ⟨hram, hb, hIt⟩
  obtain ⟨t', hIt', hram', heq⟩ := hbody k hk t b hIt hram
  simp only at hb
  rw [heq, hb]
  refine ⟨?_, rfl, hstore t' k _ hk hIt'⟩
  change Function.update t'.ram (d + k) (chain op f g c k) = _
  rw [hram', hram, update_blit_up (Nat.zero_le k)]

/-- The number a store of a whole window leaves there. -/
theorem leNat_blit {m : ℕ → Byte} {d : ℕ} :
    leNat (fun i => blit m d f 0 n (d + i)) n = leNat f n :=
  leNat_congr fun i hi => blit_add (Nat.zero_le i) hi

/-- Part way through a chain stored over a buffer, an operand's buffer —
the same or another — still shows its later bytes. -/
theorem FieldBuf.blit_read {M : MemMap} (a d : FieldBuf M) {m : ℕ → Byte} {k : ℕ} (hk : k < 32) :
    blit m d.addr f 0 k (a.addr + k) = m (a.addr + k) := by
  rcases eq_or_ne a d with rfl | hne
  · exact blit_of_ge le_rfl
  · have h := FieldBuf.not_span hne (a.span_add hk)
    simp only [FieldBuf.span, not_and_or, not_le, not_lt] at h
    rcases h with h | h
    · exact blit_of_lt (by omega)
    · exact blit_of_ge (by omega)

end C64X25519
