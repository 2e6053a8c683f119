import C64X25519.Helpers.AddSub
/-!
# Moves and the conditional swap

The routines that compute nothing: copies and constants, the copy of the
accumulator's low half to the destination, and the swap of two buffers
under a mask, which does the same stores whatever the mask.
-/

namespace C64X25519

open Machine

variable {B : Build} {s t : Machine} {d a b : FieldBuf B.mem} {f : ℕ → Byte} {n : ℕ}

/-- **A falling loop of stores.** -/
theorem loopDown_store (f : ℕ → Byte) (body : ℕ → Machine → Machine) {D : ℕ → Prop} {d : ℕ}
    (hD : ∀ k, k < n → D (d + k))
    (hbody : ∀ k, k < n → ∀ t, Frame B D s t → t.zp = s.zp → t.ram = blit s.ram d f (k + 1) n →
      body k t = t.setRam (d + k) (f k)) :
    (loopDown body n s).ram = blit s.ram d f 0 n ∧ Frame B D s (loopDown body n s) ∧
      (loopDown body n s).zp = s.zp := by
  refine loopDown_inv (fun k t => t.ram = blit s.ram d f k n ∧ Frame B D s t ∧ t.zp = s.zp)
    ⟨blit_self.symm, Frame.refl s, rfl⟩ ?_
  rintro k hk t ⟨hram, hf, hz⟩
  rw [hbody k hk t hf hz hram]
  refine ⟨?_, hf.setRam (hD k hk), hz⟩
  rw [setRam_ram, hram, update_blit_down hk]

theorem ptr_congr (h : t.zp = s.zp) (x : Slot) : t.ptr B x = s.ptr B x := by
  rw [ptr, ptr, h]

theorem fe_blit {m : ℕ → Byte} {d : ℕ} (h : t.ram = blit m d f 0 32) : t.fe d = leNat f 32 := by
  rw [Machine.fe, h]
  exact leNat_blit

/-- **`fe25519_copy`.** A copy onto the source itself stores what it reads. -/
theorem fe25519Copy_spec (h1 : s.ptr B .fe25519Src1 = a.addr) (hd : s.ptr B .fe25519Dst = d.addr) :
    (fe25519Copy B s).fe d.addr = s.fe a.addr ∧ Frame B d.span s (fe25519Copy B s) := by
  have h := loopDown_store (B := B) (s := s) (D := d.span) (d := d.addr) (n := 32)
    (fun i => s.ram (a.addr + i))
    (fun y s => s.setRam (s.ptr B .fe25519Dst + y) (s.ram (s.ptr B .fe25519Src1 + y)))
    (fun k hk => d.span_add hk) ?_
  · exact ⟨fe_blit h.1, h.2.1⟩
  · intro k hk t hf hz hram
    have hread : t.ram (a.addr + k) = s.ram (a.addr + k) := by
      rw [hram]
      rcases eq_or_ne a d with rfl | hne
      · exact blit_of_lt (by omega)
      · have hspan := FieldBuf.not_span hne (a.span_add hk)
        simp only [FieldBuf.span, not_and_or, not_le, not_lt] at hspan
        rcases hspan with h | h
        · exact blit_of_lt (by omega)
        · exact blit_of_ge h
    simp only [ptr_congr hz, h1, hd, hread]

theorem fe25519Zero_spec (hd : s.ptr B .fe25519Dst = d.addr) :
    (fe25519Zero B s).ram = blit s.ram d.addr (fun _ => 0) 0 32 ∧
      Frame B d.span s (fe25519Zero B s) ∧ (fe25519Zero B s).zp = s.zp :=
  loopDown_store _ _ (fun k hk => d.span_add hk) fun k hk t hf hz hram => by
    simp only [ptr_congr hz, hd]

theorem fe25519Zero_fe (hd : s.ptr B .fe25519Dst = d.addr) : (fe25519Zero B s).fe d.addr = 0 :=
  (fe_blit (fe25519Zero_spec hd).1).trans Radix.value_const_zero

theorem fe25519One_spec (hd : s.ptr B .fe25519Dst = d.addr) :
    (fe25519One B s).fe d.addr = 1 ∧ Frame B d.span s (fe25519One B s) := by
  obtain ⟨hram, hf, hz⟩ := fe25519Zero_spec (B := B) hd
  have hone : (fe25519One B s).ram = blit s.ram d.addr (fun i => if i = 0 then 1 else 0) 0 32 := by
    funext x
    simp only [fe25519One, setRam_ram, ptr_congr hz, hd, hram, Nat.add_zero]
    rcases eq_or_ne x d.addr with rfl | hne
    · rw [Function.update_self, ← Nat.add_zero d.addr, blit_add le_rfl (by omega), if_pos rfl]
    · rw [Function.update_of_ne hne]
      simp only [blit]
      split
      · rw [if_neg (by omega)]
      · rfl
  refine ⟨(fe_blit hone).trans (by decide), ?_⟩
  have hp : (fe25519Zero B s).ptr B .fe25519Dst = d.addr := (ptr_congr hz _).trans hd
  simp only [fe25519One, hp]
  exact hf.setRam (d.span_add (by omega))

/-- **The accumulator's low half** goes to the destination. -/
theorem copyResult_spec (hd : s.ptr B .fe25519Dst = d.addr) :
    (copyResult B s).fe d.addr = s.wide B 32 ∧ Frame B d.span s (copyResult B s) := by
  have h := loopDown_store (B := B) (s := s) (D := d.span) (d := d.addr) (n := 32)
    (fun i => s.zp (B.slot .feWide + i))
    (fun y s => s.setRam (s.ptr B .fe25519Dst + y) (s.zp (B.wideAt y)))
    (fun k hk => d.span_add hk) ?_
  · exact ⟨fe_blit h.1, h.2.1⟩
  · intro k hk t hf hz hram
    simp only [ptr_congr hz, hd, hz, Build.wideAt_eq (show k < 64 by omega)]

/-! ## The conditional swap -/

/-- The byte a swap under `m` stores over `x`, with `y` opposite. -/
def swapByte (m x y : Byte) : Byte := x ^^^ ((x ^^^ y) &&& m)

theorem swapByte_self (m x : Byte) : swapByte m x x = x := by simp [swapByte]

theorem swapByte_mask (b : Bool) (x y : Byte) :
    swapByte (mask b) x y = if b then y else x := by
  cases b
  · simp [swapByte, mask]
  · have h : (x ^^^ y) &&& 0xff = x ^^^ y := BitVec.and_allOnes
    simp only [swapByte, mask, if_true, h, ← BitVec.xor_assoc, BitVec.xor_self, BitVec.zero_xor]

/-- The buffers with the bytes from `k` up swapped under `m`, from the state
`s`. -/
structure Swapped (a b : FieldBuf B.mem) (m : Byte) (s : Machine) (k : ℕ) (t : Machine) :
    Prop where
  fst : ∀ i, i < 32 → t.ram (a.addr + i) =
    if k ≤ i then swapByte m (s.ram (a.addr + i)) (s.ram (b.addr + i)) else s.ram (a.addr + i)
  snd : ∀ i, i < 32 → t.ram (b.addr + i) =
    if k ≤ i then swapByte m (s.ram (b.addr + i)) (s.ram (a.addr + i)) else s.ram (b.addr + i)
  frame : Frame B (fun x => a.span x ∨ b.span x) s t
  mask : t.zp (B.slot .feCarry) = m
  opA : ∀ u : Body, t.op (.ldA u) = a.addr ∧ t.op (.stA u) = a.addr
  opB : ∀ u : Body, t.op (.eorB u) = b.addr ∧ t.op (.ldB u) = b.addr ∧ t.op (.stB u) = b.addr

/-- One byte, in any copy of the body. -/
theorem Swapped.step {m : Byte} {k : ℕ} (h : Swapped a b m s (k + 1) t) (u : Body) (hk : k < 32) :
    Swapped a b m s k (cswapByte B u k t) := by
  have hla := (h.opA u).1
  have hsa := (h.opA u).2
  obtain ⟨heb, hlb, hsb⟩ := h.opB u
  have ha := h.fst k hk
  have hb := h.snd k hk
  rw [if_neg (by omega)] at ha hb
  -- the state after the byte, its loads resolved
  have hst : cswapByte B u k t = ((t.setZp (B.slot .feLoop)
      ((s.ram (a.addr + k) ^^^ s.ram (b.addr + k)) &&& m)).setRam (a.addr + k)
        (swapByte m (s.ram (a.addr + k)) (s.ram (b.addr + k)))).setRam (b.addr + k)
        (swapByte m (s.ram (b.addr + k)) (s.ram (a.addr + k))) := by
    have hread : Function.update t.ram (a.addr + k)
        (swapByte m (s.ram (a.addr + k)) (s.ram (b.addr + k))) (b.addr + k)
          = s.ram (b.addr + k) := by
      rcases eq_or_ne a b with rfl | hne
      · rw [Function.update_self, swapByte_self]
      · rw [Function.update_of_ne, hb]
        intro he
        exact FieldBuf.not_span hne (a.span_add hk) (he ▸ b.span_add hk)
    simp only [cswapByte, setZp_ram, setRam_ram, setRam_zp, setZp_zp_self, op, setZp_opHi,
      setZp_opLo, setRam_opHi, setRam_opLo] at *
    rw [hla, hsa, heb, hlb, hsb, ha, hb, h.mask]
    rw [← swapByte, hread]
    rw [swapByte, swapByte, BitVec.xor_comm (s.ram (b.addr + k)) (s.ram (a.addr + k))]
  rw [hst]
  refine ⟨fun i hi => ?_, fun i hi => ?_, ?_, ?_, h.opA, h.opB⟩
  · simp only [setRam_ram, setZp_ram]
    rcases eq_or_ne i k with rfl | hik
    · rw [if_pos le_rfl]
      rcases eq_or_ne a b with rfl | hne
      · rw [Function.update_self]
      · rw [Function.update_of_ne, Function.update_self]
        intro he
        exact FieldBuf.not_span hne (a.span_add hk) (he ▸ b.span_add hk)
    · have hne1 : a.addr + i ≠ a.addr + k := by omega
      have hne2 : a.addr + i ≠ b.addr + k := by
        rcases eq_or_ne a b with rfl | hne
        · exact hne1
        · intro he
          exact FieldBuf.not_span hne (a.span_add hi) (he ▸ b.span_add hk)
      rw [Function.update_of_ne hne2, Function.update_of_ne hne1, h.fst i hi]
      simp only [show (k + 1 ≤ i) = (k ≤ i) from propext (by omega)]
  · simp only [setRam_ram, setZp_ram]
    rcases eq_or_ne i k with rfl | hik
    · rw [if_pos le_rfl, Function.update_self]
    · have hne1 : b.addr + i ≠ b.addr + k := by omega
      have hne2 : b.addr + i ≠ a.addr + k := by
        rcases eq_or_ne a b with rfl | hne
        · exact hne1
        · intro he
          exact FieldBuf.not_span hne (a.span_add hk) (he ▸ b.span_add hi)
      rw [Function.update_of_ne hne1, Function.update_of_ne hne2, h.snd i hi]
      simp only [show (k + 1 ≤ i) = (k ≤ i) from propext (by omega)]
  · exact ((h.frame.setSlot rfl).setRam (.inl (a.span_add hk))).setRam (.inr (b.span_add hk))
  · rw [← h.mask]
    exact setZp_zp_slot (by decide)

/-- **`fe25519_cswap`**, for any mask byte and for any two buffers, one
buffer twice included. -/
theorem fe25519Cswap_spec {m : Byte} (h1 : s.ptr B .fe25519Src1 = a.addr)
    (h2 : s.ptr B .fe25519Src2 = b.addr) : Swapped a b m s 0 (fe25519Cswap B m s) := by
  rw [fe25519Cswap]
  refine loopDown_inv (fun k t => Swapped a b m s (4 * k) t) ?_ fun k hk t ht => ?_
  · have hp1 : (s.setZp (B.slot .feCarry) m).ptr B .fe25519Src1 = a.addr :=
      (((Frame.refl (D := a.span) s).setSlot rfl).ptr rfl rfl).trans h1
    have hp2 : (s.setZp (B.slot .feCarry) m).ptr B .fe25519Src2 = b.addr :=
      (((Frame.refl (D := a.span) s).setSlot rfl).ptr rfl rfl).trans h2
    refine ⟨fun i hi => (if_neg (by omega)).symm, fun i hi => (if_neg (by omega)).symm,
      (((Frame.refl s).setSlot rfl).patchPtr).patchPtr, setZp_zp_self, fun u => ?_, fun u => ?_⟩
    · cases u <;> simp [op_patchPtr_of_not_mem, op_patchPtr, hp1]
    · cases u <;> simp [op_patchPtr, hp2]
  · have h3 := Swapped.step (k := 4 * k + 3) ht .a (by omega)
    have h2 := h3.step (k := 4 * k + 2) .b (by omega)
    have h1 := h2.step (k := 4 * k + 1) .c (by omega)
    exact h1.step (k := 4 * k) .d (by omega)

/-- With a true mask the buffers have changed places, with a false one
nothing has moved. -/
theorem fe25519Cswap_fe {q : Bool} (h1 : s.ptr B .fe25519Src1 = a.addr)
    (h2 : s.ptr B .fe25519Src2 = b.addr) :
    (fe25519Cswap B (mask q) s).fe a.addr = (if q then s.fe b.addr else s.fe a.addr) ∧
      (fe25519Cswap B (mask q) s).fe b.addr = if q then s.fe a.addr else s.fe b.addr := by
  have h := fe25519Cswap_spec (m := mask q) h1 h2
  constructor
  · refine (leNat_congr fun i hi => h.fst i hi).trans ?_
    simp only [Nat.zero_le, if_true, swapByte_mask]
    cases q <;> rfl
  · refine (leNat_congr fun i hi => h.snd i hi).trans ?_
    simp only [Nat.zero_le, if_true, swapByte_mask]
    cases q <;> rfl

end C64X25519
