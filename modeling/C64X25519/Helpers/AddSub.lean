import C64X25519.Helpers.Chain
/-!
# Copy, add, subtract and the last reduction

What the byte-by-byte routines compute, as functions of the numbers in
their operands, for every destination, an operand's own buffer included.
Addition subtracts `p` at most once and subtraction adds it at most once,
so neither is the sum or difference modulo `p` on all 32-byte operands.
-/

namespace C64X25519

/-- The prime of the field. -/
def p : ℕ := 2 ^ 255 - 19

/-- What `fe25519_add` computes. -/
def addMod (a b : ℕ) : ℕ :=
  if 2 ^ 256 ≤ a + b ∨ p ≤ (a + b) % 2 ^ 256 then ((a + b) % 2 ^ 256 + 2 ^ 256 - p) % 2 ^ 256
  else (a + b) % 2 ^ 256

/-- What `fe25519_sub` computes. -/
def subMod (a b : ℕ) : ℕ :=
  if a < b then ((a + 2 ^ 256 - b) % 2 ^ 256 + p) % 2 ^ 256 else (a + 2 ^ 256 - b) % 2 ^ 256

theorem leNat_feP : leNat feP 32 = p := by
  simp only [leNat, Radix.value, Finset.sum_range_succ, Finset.sum_range_zero, feP]
  rfl

/-- `p` under a mask. -/
def maskedP (b : Bool) (y : ℕ) : Byte := feP y &&& mask b

theorem leNat_maskedP (b : Bool) : leNat (maskedP b) 32 = if b then p else 0 := by
  cases b
  · have hz : ∀ y, maskedP false y = 0 := fun y => BitVec.and_zero
    rw [leNat_congr (g := fun _ => 0) fun i _ => hz i]
    exact Radix.value_const_zero
  · have hp : ∀ y, maskedP true y = feP y := fun y => BitVec.and_allOnes
    rw [leNat_congr fun i _ => hp i, leNat_feP]
    rfl

theorem add_of_chain {o v g w : ℕ} (h : o + 256 ^ 32 * w = v + g + 0) (ho : o < 256 ^ 32) :
    o = (v + g) % 2 ^ 256 := by omega

theorem carry_of_chain {o v g : ℕ} {c : Bool} (h : o + 256 ^ 32 * c.toNat = v + g + 0)
    (ho : o < 256 ^ 32) : c = decide (2 ^ 256 ≤ v + g) := by
  cases c
  · simp only [Bool.toNat_false] at h
    exact (decide_eq_false (by omega)).symm
  · simp only [Bool.toNat_true] at h
    exact (decide_eq_true (by omega)).symm

theorem sub_of_chain {o v g : ℕ} {c : Bool} (h : o + g + 0 = v + 256 ^ 32 * (!c).toNat)
    (ho : o < 256 ^ 32) : o = (v + 2 ^ 256 - g) % 2 ^ 256 := by
  have hc := carry_le (!c)
  omega

theorem ge_of_chain {o v g : ℕ} {c : Bool} (h : o + g + 0 = v + 256 ^ 32 * (!c).toNat)
    (ho : o < 256 ^ 32) : c = decide (g ≤ v) := by
  cases c
  · simp only [Bool.not_false, Bool.toNat_true] at h
    exact (decide_eq_false (by omega)).symm
  · simp only [Bool.not_true, Bool.toNat_false] at h
    exact (decide_eq_true (by omega)).symm

/-- A conditional subtraction, with the condition outside. -/
theorem sub_ite_mod {q : Prop} [Decidable q] {v : ℕ} :
    (v % 2 ^ 256 + 2 ^ 256 - if q then p else 0) % 2 ^ 256
      = if q then (v % 2 ^ 256 + 2 ^ 256 - p) % 2 ^ 256 else v % 2 ^ 256 := by
  split
  · rfl
  · rw [Nat.sub_zero, Nat.add_mod_right, Nat.mod_mod]

variable {B : Build} {s t : Machine} {d a b : FieldBuf B.mem} {x : Slot} {l : List Site}
variable {site : Site}

open Machine

/-! ## Patched operands -/

theorem op_patchPtr (h : site ∈ l) : (s.patchPtr B l x).op site = s.ptr B x := by
  simp only [patchPtr, op, patchHi, patchLo, if_pos h, ptr]

theorem op_patchPtr_of_not_mem (h : site ∉ l) : (s.patchPtr B l x).op site = s.op site := by
  simp only [patchPtr, op, patchHi, patchLo, if_neg h]

@[simp] theorem ptr_patchPtr {y : Slot} : (s.patchPtr B l x).ptr B y = s.ptr B y := rfl
@[simp] theorem ram_patchPtr : (s.patchPtr B l x).ram = s.ram := rfl
@[simp] theorem zp_patchPtr : (s.patchPtr B l x).zp = s.zp := rfl

/-- The patched operands of a loop, and its pointers, as it entered. -/
def SameOps (s t : Machine) : Prop := t.opLo = s.opLo ∧ t.opHi = s.opHi

theorem SameOps.op (h : SameOps s t) (site : Site) : t.op site = s.op site := by
  rw [Machine.op, Machine.op, h.1, h.2]

/-! ## The masked passes -/

/-- What a masked pass leaves: the window of the chain, the frame, and the
patched operands. -/
theorem maskedSubP_spec {ld st : Site} {q : Bool} (hld : s.op ld = d.addr)
    (hst : s.op st = d.addr) (hm : s.zp (B.slot .feCmpMask) = mask q) :
    (maskedSubP B ld st s).fe d.addr
        = (s.fe d.addr + 2 ^ 256 - if q then p else 0) % 2 ^ 256 ∧
      Frame B d.span s (maskedSubP B ld st s) ∧ SameOps s (maskedSubP B ld st s) := by
  have h := loopUp_chain (n := 32) (s := s) (d := d.addr) sbc (fun i => s.ram (d.addr + i))
    (maskedP q) true (fun y (t : Machine × Bool) =>
      let s := maskP B y t.1
      let r := sbc (s.ram (s.op ld + y)) (s.zp (B.slot .feSubpRhs)) t.2
      (s.setRam (s.op st + y) r.1, r.2))
    (fun t => Frame B d.span s t ∧ SameOps s t ∧
      t.zp (B.slot .feCmpMask) = mask q)
    ⟨Frame.refl s, ⟨rfl, rfl⟩, hm⟩
    (fun t k v hk ⟨hf, ho, hz⟩ => ⟨hf.setRam (d.span_add hk), ho, hz⟩) ?_
  · obtain ⟨hram, -, hf, ho, -⟩ := h
    refine ⟨?_, hf, ho⟩
    have hfe : (maskedSubP B ld st s).fe d.addr
        = leNat (chain sbc (fun i => s.ram (d.addr + i)) (maskedP q) true) 32 :=
      (leNat_congr fun i _ => congrFun hram _).trans leNat_blit
    rw [hfe, ← leNat_maskedP q]
    exact sub_of_chain (sbc_chain (c := true)) leNat_lt
  · rintro k hk t e ⟨hf, ho, hz⟩ hram
    refine ⟨maskP B k t, ⟨hf.setSlot rfl, ho, ?_⟩, rfl, ?_⟩
    · rw [← hz]
      exact setZp_zp_slot (by decide)
    · have h1 : (maskP B k t).op ld = d.addr := (ho.op ld).trans hld
      have h2 : (maskP B k t).op st = d.addr := (ho.op st).trans hst
      have h3 : (maskP B k t).zp (B.slot .feSubpRhs) = maskedP q k := by
        rw [maskP, setZp_zp_self, hz, maskedP]
      have h4 : (maskP B k t).ram (d.addr + k) = s.ram (d.addr + k) :=
        (congrFun hram _).trans (d.blit_read d hk)
      simp only [h1, h2, h3, h4]

theorem maskedAddP_spec {ld st : Site} {q : Bool} (hld : s.op ld = d.addr)
    (hst : s.op st = d.addr) (hm : s.zp (B.slot .feCmpMask) = mask q) :
    (maskedAddP B ld st s).fe d.addr = (s.fe d.addr + if q then p else 0) % 2 ^ 256 ∧
      Frame B d.span s (maskedAddP B ld st s) := by
  have h := loopUp_chain (n := 32) (s := s) (d := d.addr) adc (fun i => s.ram (d.addr + i))
    (maskedP q) false (fun y (t : Machine × Bool) =>
      let s := maskP B y t.1
      let r := adc (s.ram (s.op ld + y)) (s.zp (B.slot .feSubpRhs)) t.2
      (s.setRam (s.op st + y) r.1, r.2))
    (fun t => Frame B d.span s t ∧ SameOps s t ∧
      t.zp (B.slot .feCmpMask) = mask q)
    ⟨Frame.refl s, ⟨rfl, rfl⟩, hm⟩
    (fun t k v hk ⟨hf, ho, hz⟩ => ⟨hf.setRam (d.span_add hk), ho, hz⟩) ?_
  · obtain ⟨hram, -, hf, -⟩ := h
    refine ⟨?_, hf⟩
    have hfe : (maskedAddP B ld st s).fe d.addr
        = leNat (chain adc (fun i => s.ram (d.addr + i)) (maskedP q) false) 32 :=
      (leNat_congr fun i _ => congrFun hram _).trans leNat_blit
    rw [hfe, ← leNat_maskedP q]
    exact add_of_chain (adc_chain (c := false)) leNat_lt
  · rintro k hk t e ⟨hf, ho, hz⟩ hram
    refine ⟨maskP B k t, ⟨hf.setSlot rfl, ho, ?_⟩, rfl, ?_⟩
    · rw [← hz]
      exact setZp_zp_slot (by decide)
    · have h1 : (maskP B k t).op ld = d.addr := (ho.op ld).trans hld
      have h2 : (maskP B k t).op st = d.addr := (ho.op st).trans hst
      have h3 : (maskP B k t).zp (B.slot .feSubpRhs) = maskedP q k := by
        rw [maskP, setZp_zp_self, hz, maskedP]
      have h4 : (maskP B k t).ram (d.addr + k) = s.ram (d.addr + k) :=
        (congrFun hram _).trans (d.blit_read d hk)
      simp only [h1, h2, h3, h4]

/-! ## The comparison with `p` -/

theorem feCmpPCt_fst (hd : s.ptr B .fe25519Dst = d.addr) :
    (feCmpPCt B s).1 = mask (decide (p ≤ s.fe d.addr)) := by
  have hop : (s.patchPtr B [.cmpLdDst] .fe25519Dst).op .cmpLdDst = d.addr :=
    (op_patchPtr (by simp)).trans hd
  have hc : loopUp (fun y c => (sbc (s.ram (d.addr + y)) (feP y) c).2) 32 true
      = carries sbc (fun i => s.ram (d.addr + i)) feP true 32 :=
    loopUp_inv (fun k c => c = carries sbc (fun i => s.ram (d.addr + i)) feP true k) rfl
      fun k _ c hc => by rw [hc]; rfl
  have hge : carries sbc (fun i => s.ram (d.addr + i)) feP true 32 = decide (p ≤ s.fe d.addr) := by
    have hsum := sbc_chain (f := fun i => s.ram (d.addr + i)) (g := feP) (c := true) (n := 32)
    rw [leNat_feP] at hsum
    exact ge_of_chain hsum leNat_lt
  simp only [feCmpPCt, hop, ram_patchPtr, hc, hge, sbc_zero_zero, mask_xor_ff, Bool.not_not]

theorem feCmpPCt_snd : (feCmpPCt B s).2
    = (s.patchPtr B [.cmpLdDst] .fe25519Dst).setZp (B.slot .feCmpMask) (feCmpPCt B s).1 := rfl

theorem feCmpPCt_frame {D : ℕ → Prop} (h : Frame B D s t) : Frame B D s (feCmpPCt B t).2 := by
  rw [feCmpPCt_snd]
  exact h.patchPtr.setSlot rfl

theorem feCmpPCt_op (h : site ≠ .cmpLdDst) : (feCmpPCt B s).2.op site = s.op site := by
  rw [feCmpPCt_snd]
  exact op_patchPtr_of_not_mem (by simpa using h)

theorem feCmpPCt_mask : (feCmpPCt B s).2.zp (B.slot .feCmpMask) = (feCmpPCt B s).1 := by
  rw [feCmpPCt_snd, setZp_zp_self]

/-! ## The routines -/

/-- The first pass of `fe25519_add`: the sum of the operands, its carry, and
the frame. -/
theorem addLoop_spec {body : ℕ → Machine × Bool → Machine × Bool}
    (hbody : ∀ y t, body y t =
      let r := adc (t.1.ram (t.1.op .addLdSrc1 + y)) (t.1.ram (t.1.op .addLdSrc2 + y)) t.2
      (t.1.setRam (t.1.op .addStDst + y) r.1, r.2))
    (h1 : s.op .addLdSrc1 = a.addr) (h2 : s.op .addLdSrc2 = b.addr) (hd : s.op .addStDst = d.addr) :
    (loopUp body 32 (s, false)).1.fe d.addr = (s.fe a.addr + s.fe b.addr) % 2 ^ 256 ∧
      (loopUp body 32 (s, false)).2 = decide (2 ^ 256 ≤ s.fe a.addr + s.fe b.addr) ∧
      Frame B d.span s (loopUp body 32 (s, false)).1 ∧
      SameOps s (loopUp body 32 (s, false)).1 := by
  have h := loopUp_chain (n := 32) (s := s) (d := d.addr) adc (fun i => s.ram (a.addr + i))
    (fun i => s.ram (b.addr + i)) false body (fun t => Frame B d.span s t ∧ SameOps s t) ⟨Frame.refl s, ⟨rfl, rfl⟩⟩
    (fun t k v hk ⟨hf, ho⟩ => ⟨hf.setRam (d.span_add hk), ho⟩) ?_
  · obtain ⟨hram, hc, hf, ho⟩ := h
    refine ⟨?_, ?_, hf, ho⟩
    · refine ((leNat_congr fun i _ => congrFun hram _).trans leNat_blit).trans ?_
      exact add_of_chain (adc_chain (c := false)) leNat_lt
    · rw [hc]
      exact carry_of_chain (adc_chain (c := false)) leNat_lt
  · rintro k hk t e ⟨hf, ho⟩ hram
    refine ⟨t, ⟨hf, ho⟩, rfl, ?_⟩
    have hra : t.ram (a.addr + k) = s.ram (a.addr + k) :=
      (congrFun hram _).trans (a.blit_read d hk)
    have hrb : t.ram (b.addr + k) = s.ram (b.addr + k) :=
      (congrFun hram _).trans (b.blit_read d hk)
    simp only [hbody, (ho.op _).trans h1, (ho.op _).trans h2, (ho.op _).trans hd, hra, hrb]

/-- **`fe25519_add`**, for any destination and any aliasing. -/
theorem fe25519Add_spec (h1 : s.ptr B .fe25519Src1 = a.addr) (h2 : s.ptr B .fe25519Src2 = b.addr)
    (hd : s.ptr B .fe25519Dst = d.addr) :
    (fe25519Add B s).fe d.addr = addMod (s.fe a.addr) (s.fe b.addr) ∧
      Frame B d.span s (fe25519Add B s) := by
  set s1 := ((s.patchPtr B [.addLdSrc1] .fe25519Src1).patchPtr B [.addLdSrc2]
    .fe25519Src2).patchPtr B [.addStDst, .addSubLdDst, .addSubStDst] .fe25519Dst with hs1
  have hf1 : Frame B d.span s s1 := (((Frame.refl s).patchPtr).patchPtr).patchPtr
  have hop : s1.op .addLdSrc1 = a.addr ∧ s1.op .addLdSrc2 = b.addr ∧ s1.op .addStDst = d.addr ∧
      s1.op .addSubLdDst = d.addr ∧ s1.op .addSubStDst = d.addr := by
    simp [hs1, op_patchPtr, op_patchPtr_of_not_mem, h1, h2, hd]
  obtain ⟨ho1, ho2, hod, hold, host⟩ := hop
  obtain ⟨hfe, hc, hf2, hops⟩ := addLoop_spec (B := B) (d := d) (fun _ _ => rfl) ho1 ho2 hod
  rw [fe25519Add]
  simp only [← hs1]
  generalize loopUp _ 32 (s1, false) = t at hfe hc hf2 hops ⊢
  obtain ⟨t, c⟩ := t
  simp only at hfe hc hf2 hops ⊢
  -- the masks of the two conditions, and their union
  set s2 := t.setZp (B.slot .feAddCarryMask) ((sbc 0 0 c).1 ^^^ 0xff) with hs2
  have hf2' : Frame B d.span s s2 := (hf1.trans hf2).setSlot rfl
  have hsum : s2.fe d.addr = (s.fe a.addr + s.fe b.addr) % 2 ^ 256 := hfe
  have hcmp := feCmpPCt_fst (B := B) (d := d) ((hf2'.ptr rfl rfl).trans hd)
  have hcarry : (feCmpPCt B s2).2.zp (B.slot .feAddCarryMask) = mask c := by
    rw [feCmpPCt_snd, setZp_zp_slot (by decide), zp_patchPtr, hs2, setZp_zp_self, sbc_zero_zero,
      mask_xor_ff, Bool.not_not]
  set s3 := (feCmpPCt B s2).2.setZp (B.slot .feCmpMask)
    ((feCmpPCt B s2).1 ||| (feCmpPCt B s2).2.zp (B.slot .feAddCarryMask)) with hs3
  have hmask : s3.zp (B.slot .feCmpMask) = mask (decide (p ≤ s2.fe d.addr) || c) := by
    rw [hs3, setZp_zp_self, hcmp, hcarry, mask_or]
  have hld : s3.op .addSubLdDst = d.addr :=
    (feCmpPCt_op (s := s2) (by decide)).trans ((hops.op _).trans hold)
  have hst : s3.op .addSubStDst = d.addr :=
    (feCmpPCt_op (s := s2) (by decide)).trans ((hops.op _).trans host)
  obtain ⟨hval, hf3, -⟩ := maskedSubP_spec (B := B) hld hst hmask
  refine ⟨?_, ((feCmpPCt_frame hf2').setSlot rfl).trans hf3⟩
  rw [hval, show s3.fe d.addr = s2.fe d.addr from rfl, hsum, hc, addMod]
  simp only [Bool.or_eq_true, decide_eq_true_eq, or_comm (a := p ≤ _)]
  exact sub_ite_mod

/-- The first pass of `fe25519_sub`: the difference of the operands, its
borrow, and the frame. -/
theorem subLoop_spec {body : ℕ → Machine × Bool → Machine × Bool}
    (hbody : ∀ y t, body y t =
      let r := sbc (t.1.ram (t.1.op .subLdSrc1 + y)) (t.1.ram (t.1.op .subLdSrc2 + y)) t.2
      (t.1.setRam (t.1.op .subStDst + y) r.1, r.2))
    (h1 : s.op .subLdSrc1 = a.addr) (h2 : s.op .subLdSrc2 = b.addr) (hd : s.op .subStDst = d.addr) :
    (loopUp body 32 (s, true)).1.fe d.addr = (s.fe a.addr + 2 ^ 256 - s.fe b.addr) % 2 ^ 256 ∧
      (loopUp body 32 (s, true)).2 = decide (s.fe b.addr ≤ s.fe a.addr) ∧
      Frame B d.span s (loopUp body 32 (s, true)).1 ∧
      SameOps s (loopUp body 32 (s, true)).1 := by
  have h := loopUp_chain (n := 32) (s := s) (d := d.addr) sbc (fun i => s.ram (a.addr + i))
    (fun i => s.ram (b.addr + i)) true body (fun t => Frame B d.span s t ∧ SameOps s t) ⟨Frame.refl s, ⟨rfl, rfl⟩⟩
    (fun t k v hk ⟨hf, ho⟩ => ⟨hf.setRam (d.span_add hk), ho⟩) ?_
  · obtain ⟨hram, hc, hf, ho⟩ := h
    refine ⟨?_, ?_, hf, ho⟩
    · refine ((leNat_congr fun i _ => congrFun hram _).trans leNat_blit).trans ?_
      exact sub_of_chain (sbc_chain (c := true)) leNat_lt
    · rw [hc]
      exact ge_of_chain (sbc_chain (c := true)) leNat_lt
  · rintro k hk t e ⟨hf, ho⟩ hram
    refine ⟨t, ⟨hf, ho⟩, rfl, ?_⟩
    have hra : t.ram (a.addr + k) = s.ram (a.addr + k) :=
      (congrFun hram _).trans (a.blit_read d hk)
    have hrb : t.ram (b.addr + k) = s.ram (b.addr + k) :=
      (congrFun hram _).trans (b.blit_read d hk)
    simp only [hbody, (ho.op _).trans h1, (ho.op _).trans h2, (ho.op _).trans hd, hra, hrb]

/-- **`fe25519_sub`**, likewise. -/
theorem fe25519Sub_spec (h1 : s.ptr B .fe25519Src1 = a.addr) (h2 : s.ptr B .fe25519Src2 = b.addr)
    (hd : s.ptr B .fe25519Dst = d.addr) :
    (fe25519Sub B s).fe d.addr = subMod (s.fe a.addr) (s.fe b.addr) ∧
      Frame B d.span s (fe25519Sub B s) := by
  set s1 := ((s.patchPtr B [.subLdSrc1] .fe25519Src1).patchPtr B [.subLdSrc2]
    .fe25519Src2).patchPtr B [.subStDst, .subAddLdDst, .subAddStDst] .fe25519Dst with hs1
  have hf1 : Frame B d.span s s1 := (((Frame.refl s).patchPtr).patchPtr).patchPtr
  have hop : s1.op .subLdSrc1 = a.addr ∧ s1.op .subLdSrc2 = b.addr ∧ s1.op .subStDst = d.addr ∧
      s1.op .subAddLdDst = d.addr ∧ s1.op .subAddStDst = d.addr := by
    simp [hs1, op_patchPtr, op_patchPtr_of_not_mem, h1, h2, hd]
  obtain ⟨ho1, ho2, hod, hold, host⟩ := hop
  obtain ⟨hfe, hc, hf2, hops⟩ := subLoop_spec (B := B) (d := d) (fun _ _ => rfl) ho1 ho2 hod
  rw [fe25519Sub]
  simp only [← hs1]
  generalize loopUp _ 32 (s1, true) = t at hfe hc hf2 hops ⊢
  obtain ⟨t, c⟩ := t
  simp only at hfe hc hf2 hops ⊢
  set s2 := t.setZp (B.slot .feCmpMask) (sbc 0 0 c).1 with hs2
  have hmask : s2.zp (B.slot .feCmpMask) = mask (!c) := by
    rw [hs2, setZp_zp_self, sbc_zero_zero]
  obtain ⟨hval, hf3⟩ := maskedAddP_spec (B := B) (d := d) (s := s2) ((hops.op _).trans hold)
    ((hops.op _).trans host) hmask
  refine ⟨?_, (((hf1.trans hf2).setSlot rfl).trans hf3)⟩
  have hdiff : s2.fe d.addr = (s.fe a.addr + 2 ^ 256 - s.fe b.addr) % 2 ^ 256 := hfe
  have hborrow : (!c) = decide (s.fe a.addr < s.fe b.addr) := by
    rw [hc, ← decide_not]
    exact decide_eq_decide.2 not_le
  rw [hval, hborrow, hdiff, subMod]
  simp only [decide_eq_true_eq]
  split
  · rfl
  · rw [Nat.add_zero, Nat.mod_mod]

/-- **`fe25519_reduce_final`** is the residue: two conditional
subtractions are enough below `2 ^ 256`. -/
theorem fe25519ReduceFinal_spec (hd : s.ptr B .fe25519Dst = d.addr) :
    (fe25519ReduceFinal B s).fe d.addr = s.fe d.addr % p ∧
      Frame B d.span s (fe25519ReduceFinal B s) := by
  set s1 := s.patchPtr B [.subLdDst1, .subStDst1, .subLdDst2, .subStDst2] .fe25519Dst with hs1
  have hf1 : Frame B d.span s s1 := (Frame.refl s).patchPtr
  have hop : ∀ x ∈ [Site.subLdDst1, .subStDst1, .subLdDst2, .subStDst2], s1.op x = d.addr :=
    fun x hx => (op_patchPtr hx).trans hd
  -- one conditional subtraction
  have hpass : ∀ {t : Machine} (ld st : Site), Frame B d.span s t → t.op ld = d.addr →
      t.op st = d.addr → ld ≠ .cmpLdDst → st ≠ .cmpLdDst →
      (maskedSubP B ld st (feCmpPCt B t).2).fe d.addr
          = (if p ≤ t.fe d.addr then t.fe d.addr - p else t.fe d.addr) ∧
        Frame B d.span t (maskedSubP B ld st (feCmpPCt B t).2) ∧
        ∀ x ≠ .cmpLdDst, (maskedSubP B ld st (feCmpPCt B t).2).op x = t.op x := by
    intro t ld st hf hld hst hld' hst'
    have hm : (feCmpPCt B t).2.zp (B.slot .feCmpMask) = mask (decide (p ≤ t.fe d.addr)) := by
      rw [feCmpPCt_mask, feCmpPCt_fst ((hf.ptr rfl rfl).trans hd)]
    obtain ⟨hval, hfr, hops⟩ := maskedSubP_spec (B := B) ((feCmpPCt_op hld').trans hld)
      ((feCmpPCt_op hst').trans hst) hm
    have hlt : t.fe d.addr < 256 ^ 32 := leNat_lt
    refine ⟨?_, (feCmpPCt_frame (Frame.refl t)).trans hfr,
      fun x hx => (hops.op x).trans (feCmpPCt_op hx)⟩
    rw [hval, show (feCmpPCt B t).2.fe d.addr = t.fe d.addr from rfl]
    simp only [decide_eq_true_eq]
    split <;> omega
  obtain ⟨hv1, hf2, hops2⟩ := hpass .subLdDst1 .subStDst1 hf1
    (hop _ (by simp)) (hop _ (by simp)) (by decide) (by decide)
  obtain ⟨hv2, hf3, -⟩ := hpass .subLdDst2 .subStDst2 (hf1.trans hf2)
    ((hops2 _ (by decide)).trans (hop _ (by simp)))
    ((hops2 _ (by decide)).trans (hop _ (by simp))) (by decide) (by decide)
  refine ⟨?_, hf1.trans (hf2.trans hf3)⟩
  have hlt : s.fe d.addr < 256 ^ 32 := leNat_lt
  rw [show (fe25519ReduceFinal B s).fe d.addr = _ from hv2, hv1,
    show s1.fe d.addr = s.fe d.addr from rfl, p]
  split_ifs <;> omega

end C64X25519
