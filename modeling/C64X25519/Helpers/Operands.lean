import C64X25519.Helpers.Base
import C64X25519.Helpers.Init
/-!
# What a caller sets up

Before a call its operands are stored in their buffers and the pointers are
aimed at them. Neither touches what the library relies on.
-/

namespace C64X25519

open Machine

variable {B : Build} {s : Machine} {b x y z w : Buf} {f : ℕ → Byte} {m n : ℕ}

/-! ## Operands stored -/

/-- The 32 bytes `f`, stored by the caller into a buffer. -/
def storeBuf (B : Build) (b : Buf) (f : ℕ → Byte) (s : Machine) : Machine :=
  { s with ram := blit s.ram (B.mem.buf b) f 0 32 }

/-- The bytes of a number. -/
def bytesOf (n i : ℕ) : Byte := BitVec.ofNat 8 (n / 256 ^ i)

theorem storeBuf_fe : (storeBuf B b f s).fe (B.mem.buf b) = leNat f 32 := leNat_blit

/-- A number that fits its buffer. -/
theorem storeBuf_bytesOf (hn : n < 2 ^ 256) :
    (storeBuf B b (bytesOf n) s).fe (B.mem.buf b) = n := by
  rw [storeBuf_fe]
  exact (leNat_ofNat n).trans (Nat.mod_eq_of_lt hn)

theorem storeBuf_frame : Frame B (B.mem.own b).span s (storeBuf B b f s) where
  ram a ha := blit_of_not (by simpa only [FieldBuf.span, MemMap.own_addr, Nat.add_zero] using ha)
  zp _ _ := rfl
  var _ _ := rfl
  flagI := rfl
  mem := rfl
  live := rfl

theorem storeBuf_kept : Kept B Slot.prog (dirty B (ownIn B [b])) s (storeBuf B b f s) :=
  (Kept.of_frame storeBuf_frame).mono fun _ hx => .inl ⟨_, own_mem b List.mem_cons_self, hx⟩

/-- The other buffers are as they were. -/
theorem storeBuf_fe_of_ne (h : w ≠ b) :
    (storeBuf B b f s).fe (B.mem.buf w) = s.fe (B.mem.buf w) :=
  storeBuf_kept.own_fe fun hw => h (List.mem_singleton.1 hw)

/-! ## Pointers aimed -/

/-- A machine whose pointers are aimed at three of the library's buffers. -/
def aimed (B : Build) (x y z : Buf) (s : Machine) : Machine :=
  ((s.setPtr B .fe25519Src1 (B.mem.buf x)).setPtr B .fe25519Src2 (B.mem.buf y)).setPtr B
    .fe25519Dst (B.mem.buf z)

theorem buf_lt (b : Buf) : B.mem.buf b < 0x10000 := by
  have hfit := (B.mem.own b).fits
  rw [MemMap.own_addr] at hfit
  omega

theorem aimed_ptr : (aimed B x y z s).ptr B .fe25519Src1 = B.mem.buf x ∧
    (aimed B x y z s).ptr B .fe25519Src2 = B.mem.buf y ∧
    (aimed B x y z s).ptr B .fe25519Dst = B.mem.buf z := by
  refine ⟨?_, ?_, ptr_setPtr (buf_lt z)⟩
  · exact (ptr_setPtr_of_ne (by decide) rfl rfl).trans
      ((ptr_setPtr_of_ne (by decide) rfl rfl).trans (ptr_setPtr (buf_lt x)))
  · exact (ptr_setPtr_of_ne (by decide) rfl rfl).trans (ptr_setPtr (buf_lt y))

theorem aimed_kept {D : ℕ → Prop} : Kept B Slot.prog D s (aimed B x y z s) :=
  (((Kept.refl s).setPtr rfl rfl).setPtr rfl rfl).setPtr rfl rfl

theorem aimed_fe : (aimed B x y z s).fe (B.mem.buf w) = s.fe (B.mem.buf w) :=
  (aimed_kept (D := fun _ => False)).fe_eq fun _ _ => id

/-! ## A call prepared -/

/-- The machine in front of a call: `m` stored in `x` and `n` in `y`, and the
pointers aimed at `x`, `y` and `z`. -/
def poised (B : Build) (x y z : Buf) (m n : ℕ) (s : Machine) : Machine :=
  aimed B x y z (storeBuf B y (bytesOf n) (storeBuf B x (bytesOf m) s))

theorem poised_ptr : (poised B x y z m n s).ptr B .fe25519Src1 = B.mem.buf x ∧
    (poised B x y z m n s).ptr B .fe25519Src2 = B.mem.buf y ∧
    (poised B x y z m n s).ptr B .fe25519Dst = B.mem.buf z := aimed_ptr

/-- The second operand. -/
theorem poised_src2 (hn : n < 2 ^ 256) : (poised B x y z m n s).fe (B.mem.buf y) = n :=
  aimed_fe.trans (storeBuf_bytesOf hn)

/-- And the first, in a buffer of its own. -/
theorem poised_src1 (hxy : x ≠ y) (hm : m < 2 ^ 256) :
    (poised B x y z m n s).fe (B.mem.buf x) = m :=
  aimed_fe.trans ((storeBuf_fe_of_ne hxy).trans (storeBuf_bytesOf hm))

theorem Ready.poised (hr : Ready B s) : Ready B (poised B x y z m n s) :=
  ((hr.kept storeBuf_kept).kept storeBuf_kept).kept (W := fun _ => False) aimed_kept

end C64X25519
