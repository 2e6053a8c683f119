import C64X25519.Helpers.Scalarmult
/-!
# The clamp and the base point

`x25519_clamp` on the number in `x25_scalar`, and `x25519_base` as the
scalar multiplication it ends in.
-/

namespace C64X25519

open Machine

variable {B : Build} {s : Machine}

/-- The clamp of a scalar: its low three bits and bit 255 cleared, bit 254
set. -/
def clampScalar (n : ℕ) : ℕ := n % 2 ^ 254 / 8 * 8 + 2 ^ 254

theorem clampScalar_mod_eight (n : ℕ) : clampScalar n % 8 = 0 := by
  rw [clampScalar]
  omega

/-- A store to the bottom byte of a buffer. -/
theorem fe_setRam_bottom {k : ℕ} {v : Byte} :
    (s.setRam k v).fe k + (s.ram k).toNat = s.fe k + v.toNat := by
  have hwin : (fun j => (s.setRam k v).ram (k + j))
      = Function.update (fun j => s.ram (k + j)) 0 v := by
    funext j
    rw [setRam_ram]
    rcases eq_or_ne j 0 with rfl | hne
    · rw [Function.update_self, Nat.add_zero, Function.update_self]
    · rw [Function.update_of_ne (by omega), Function.update_of_ne hne]
  have hset := leNat_update (f := fun j => s.ram (k + j)) (n := 32) (k := 0) v (by omega)
  rw [pow_zero, mul_one, mul_one] at hset
  rw [Machine.fe, hwin]
  exact hset

/-- **`x25519_clamp`** clamps the number in `x25_scalar`, and changes
nothing else. -/
theorem x25519Clamp_spec : scalar B (x25519Clamp B s) = clampScalar (scalar B s) ∧
    Frame B (B.mem.own .x25Scalar).span s (x25519Clamp B s) := by
  unfold x25519Clamp
  extract_lets a s1
  have hf1 : Frame B (B.mem.own .x25Scalar).span s s1 :=
    (Frame.refl s).setRam ((B.mem.own .x25Scalar).span_add (i := 0) (by omega))
  refine ⟨?_, hf1.setRam ((B.mem.own .x25Scalar).span_add (by omega))⟩
  have hbot : s1.fe a + (s.ram a).toNat = s.fe a + (s.ram a &&& 0xf8).toNat := fe_setRam_bottom
  have htop := fe_setRam_top (s := s1) (k := a) (v := (s1.ram (a + 31) &&& 0x7f) ||| 0x40)
  have hram : s1.ram (a + 31) = s.ram (a + 31) := Function.update_of_ne (by omega) _ _
  rw [hram] at htop ⊢
  -- the two bytes as digits of the number
  have h0 : (s.ram a).toNat = s.fe a % 256 := by
    have h := byte_of_leNat (f := fun j => s.ram (a + j)) (n := 32) (k := 0) (by omega)
    rw [Nat.add_zero, pow_zero, Nat.div_one] at h
    rw [h, BitVec.toNat_ofNat]
    rfl
  have h31 : (s.ram (a + 31)).toNat = s.fe a / 256 ^ 31 := by
    have h := byte_of_leNat (f := fun j => s.ram (a + j)) (n := 32) (k := 31) (by omega)
    have hlt : s.fe a < 2 ^ 256 := fe_lt
    rw [h, BitVec.toNat_ofNat]
    exact Nat.mod_eq_of_lt (show s.fe a / 256 ^ 31 < 256 by omega)
  have hand : ∀ b : Byte, (b &&& 0xf8).toNat = b.toNat / 8 * 8 := by decide
  have hor : ∀ b : Byte, ((b &&& 0x7f) ||| 0x40).toNat = b.toNat % 64 + 64 := by decide
  rw [hand] at hbot
  rw [hor] at htop
  have hlt : s.fe a < 2 ^ 256 := fe_lt
  change Machine.fe _ a = clampScalar (s.fe a)
  rw [clampScalar]
  omega

theorem x25519Clamp_kept :
    Kept B Slot.prog (dirty B (ownIn B [.x25Scalar])) s (x25519Clamp B s) :=
  (Kept.of_frame x25519Clamp_spec.2).mono fun _ hx => .inl ⟨_, own_mem .x25Scalar (by decide), hx⟩

/-- The base point is in place. -/
def BasePoint (B : Build) (s : Machine) : Prop := s.fe (B.mem.buf .x25Basepoint) = 9

/-- The buffers `x25519_base` writes. -/
def baseBufs : List Buf := .x25U :: .x25Scalar :: x25519Bufs

/-- **`x25519_base`** is the multiple of 9 by the clamped scalar. It leaves
the base point in `x25_u` and the scalar clamped. -/
theorem x25519Base_spec (hr : Ready B s) (hb : BasePoint B s) :
    (x25519Base B s).fe (B.mem.buf .x25Result) = (x25519 (clampScalar (scalar B s)) 9).val ∧
      (x25519Base B s).fe (B.mem.buf .x25U) = 9 ∧
      scalar B (x25519Base B s) = clampScalar (scalar B s) ∧
      Kept B (fun _ => true) (dirty B (ownIn B baseBufs)) s (x25519Base B s) := by
  unfold x25519Base
  extract_lets s1
  obtain ⟨hfe, hk1⟩ := exec_own (l := [.x25U]) [.src1 .x25Basepoint, .dst .x25U, .jsr .fe25519Copy]
    hr rfl (by decide)
  change ∀ b, s1.fe (B.mem.buf b) = _ at hfe
  change Kept B _ _ s s1 at hk1
  have hu : s1.fe (B.mem.buf .x25U) = 9 := (hfe .x25U).trans hb
  have hn : scalar B s1 = scalar B s := hk1.own_fe (by decide)
  have hclamp := (x25519Clamp_spec (B := B) (s := s1)).1
  have hk2 := x25519Clamp_kept (B := B) (s := s1)
  have hu2 : (x25519Clamp B s1).fe (B.mem.buf .x25U) = 9 :=
    (hk2.own_fe (k := .x25U) (by decide)).trans hu
  have hcoord : uCoord B (x25519Clamp B s1) = 9 := by
    rw [uCoord, hu2, Nat.mod_eq_of_lt (by norm_num)]
    exact Nat.cast_ofNat
  obtain ⟨hres, hk3⟩ := x25519Scalarmult_spec ((hr.kept hk1).kept hk2)
  rw [hclamp, hn, hcoord] at hres
  refine ⟨hres, (hk3.own_fe (by decide)).trans hu2, ?_,
    ((hk1.mono fun x => dirty_mono (by decide)).widen.trans
      (hk2.mono fun x => dirty_mono (by decide)).widen).trans
      (hk3.mono fun x => dirty_mono (by decide))⟩
  rw [← hn, ← hclamp]
  exact hk3.own_fe (by decide)

end C64X25519
