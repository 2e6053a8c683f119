import C64X25519.Helpers.Program
/-!
# The inversion

Every value the chain computes is a power of the operand, with an exponent
that does not depend on it. The exponents are computed once, and the last
product is the power `p - 2`.
-/

namespace C64X25519

open Machine

variable {B : Build} {s t : Machine} {a d : FieldBuf B.mem}

/-! ## The library's buffers -/

theorem own_injective : B.mem.own.Injective := fun _ _ h => MemMap.own_inj.1 h

/-- The numbers in the library's buffers, with no pointer set. -/
def ownView (B : Build) (s : Machine) : View Buf ℕ :=
  ⟨none, none, none, fun b => s.fe (B.mem.buf b)⟩

theorem shows_own (s : Machine) : Shows B B.mem.own (ownView B s) s where
  src1 _ h := by cases h
  src2 _ h := by cases h
  dst _ h := by cases h
  val _ := rfl

theorem fe_lt {k : ℕ} : s.fe k < 2 ^ 256 := by
  have h : s.fe k < 256 ^ 32 := leNat_lt
  norm_num at h ⊢
  exact h

/-! ## The exponents -/

/-- The buffers the inversion works in. -/
def invBufs : List Buf :=
  [.fe25519Tmp1, .fe25519Tmp2, .fe25519Tmp3, .x25A, .x25B, .x25Da, .x25Cb]

/-- The inversion behind its first copy. -/
def feInvChain : List (Instr Buf) := feInvCode.drop 2

/-- The chain computes the powers `2 ^ 255 - 32` and `11`. -/
theorem feInvChain_exponents :
    (evals exponents Buf.fe25519Tmp2 feInvChain ⟨none, none, some .fe25519Tmp1,
        Function.update (fun _ => none) .fe25519Tmp1 (some 1)⟩).map
      (fun w => (w.src1, w.src2, w.val .fe25519Tmp2, w.val .x25A))
      = some (some .fe25519Tmp2, some .x25A, some (2 ^ 255 - 2 ^ 5), some 11) := by
  decide +kernel

/-- The base is its own first power, and of the rest nothing is known. -/
theorem powerOf_base {f : Buf → ZMod p} (b : Buf) : PowerOf (f .fe25519Tmp1) (f b)
    (Function.update (fun _ => none) Buf.fe25519Tmp1 (some 1) b) := by
  intro n hn
  rcases eq_or_ne b .fe25519Tmp1 with rfl | hne
  · rw [Function.update_self] at hn
    obtain rfl : 1 = n := Option.some.inj hn
    exact (pow_one _).symm
  · rw [Function.update_of_ne hne] at hn
    cases hn

/-- **The chain on the raw numbers**, whatever they are. -/
theorem feInvChain_raw {v : View Buf ℕ} (hsrc1 : v.src1 = none) (hsrc2 : v.src2 = none)
    (hdst : v.dst = some .fe25519Tmp1) (hv : ∀ b, v.val b < 2 ^ 256) :
    ∃ v', evals raw Buf.fe25519Tmp2 feInvChain v = some v' ∧ v'.src1 = some .fe25519Tmp2 ∧
      v'.src2 = some .x25A ∧
      (v'.val .fe25519Tmp2 : ZMod p) = (v.val .fe25519Tmp1 : ZMod p) ^ (2 ^ 255 - 2 ^ 5) ∧
      (v'.val .x25A : ZMod p) = (v.val .fe25519Tmp1 : ZMod p) ^ 11 := by
  set x := (v.val .fe25519Tmp1 : ZMod p) with hx
  have hexp := feInvChain_exponents
  rw [Option.map_eq_some_iff] at hexp
  obtain ⟨e1, he1, hproj⟩ := hexp
  simp only [Prod.mk.injEq] at hproj
  obtain ⟨hp1, hp2, hn1, hn2⟩ := hproj
  obtain ⟨v1, hv1, hptr⟩ := evals_runs raw he1 (w := v)
    ⟨hsrc1.symm, hsrc2.symm, hdst.symm, fun _ => trivial⟩
  -- the residues of the raw run, and their exponents
  obtain ⟨w1, hw1, hres⟩ := evals_rel raw_residues (w := ⟨none, none, some .fe25519Tmp1,
    fun b => (v.val b : ZMod p)⟩) ⟨hsrc1, hsrc2, hdst, fun b => ⟨hv b, rfl⟩⟩
    (safe_of_free (by decide)) hv1
  obtain ⟨e2, he2, hpow⟩ := evals_rel (residues_exponents x) (w := ⟨none, none,
    some .fe25519Tmp1, Function.update (fun _ => none) .fe25519Tmp1 (some 1)⟩)
    ⟨rfl, rfl, rfl, powerOf_base⟩ safe_true hw1
  obtain rfl : e1 = e2 := Option.some.inj (he1.symm.trans he2)
  refine ⟨v1, hv1, hptr.src1.symm.trans hp1, hptr.src2.symm.trans hp2, ?_, ?_⟩
  · rw [(hres.val .fe25519Tmp2).2]
    exact hpow.val _ _ hn1
  · rw [(hres.val .x25A).2]
    exact hpow.val _ _ hn2

/-! ## The routine -/

/-- The library's buffers of a list. -/
def ownIn (B : Build) (l : List Buf) (b : FieldBuf B.mem) : Prop := ∃ k ∈ l, b = B.mem.own k

theorem not_ownIn {l : List Buf} {k : Buf} (h : k ∉ l) : ¬ ownIn B l (B.mem.own k) := by
  rintro ⟨j, hj, he⟩
  exact h (MemMap.own_inj.1 he ▸ hj)

/-- The buffers an instruction stores to, or aims the destination at. -/
def Instr.writes : Instr Buf → List Buf
  | .dst b => [b]
  | .sqrn _ => [.fe25519Tmp2]
  | _ => []

theorem own_within {W : FieldBuf B.mem → Prop} {l : List Buf} {code : List (Instr Buf)}
    (hW : ∀ b ∈ l, W (B.mem.own b)) (h : ∀ i ∈ code, i.writes ⊆ l) :
    ∀ i ∈ code, i.Within B.mem.own W ∧ i.Named B.mem.own .fe25519Tmp2 := by
  intro i hi
  have hl := h i hi
  cases i with
  | dst b => exact ⟨hW b (hl (by simp [Instr.writes])), trivial⟩
  | sqrn n => exact ⟨hW _ (hl (by simp [Instr.writes])), rfl⟩
  | src1 | src2 | jsr => exact ⟨trivial, trivial⟩

theorem own_mem {l : List Buf} : ∀ b ∈ l, ownIn B l (B.mem.own b) := fun b hb => ⟨b, hb, rfl⟩

/-- The buffers an inversion into `d` may change. -/
def invWrites (d : FieldBuf B.mem) (b : FieldBuf B.mem) : Prop := b = d ∨ ownIn B invBufs b

/-- The bytes of a pointer. -/
theorem ptr_bytes {x : Slot} {k : ℕ} (h : s.ptr B x = k) :
    s.zp (B.slot x) = BitVec.ofNat 8 k ∧ s.zp (B.slot x + 1) = BitVec.ofNat 8 (k / 0x100) := by
  have hlo := (s.zp (B.slot x)).isLt
  have hhi := (s.zp (B.slot x + 1)).isLt
  rw [ptr] at h
  constructor
  · refine BitVec.eq_of_toNat_eq ?_
    rw [BitVec.toNat_ofNat]
    omega
  · refine BitVec.eq_of_toNat_eq ?_
    rw [BitVec.toNat_ofNat]
    omega

/-- `fe25519_inv` up to the call of its first copy. -/
def feInvStart (B : Build) (s : Machine) : Machine :=
  ((s.setVar .feInvDstLo (s.zp (B.slot .fe25519Dst))).setVar .feInvDstHi
    (s.zp (B.slot .fe25519Dst + 1))).setPtr B .fe25519Dst (B.mem.buf .fe25519Tmp1)

/-- The view the chain starts from. -/
def feInvView (B : Build) (s : Machine) : View Buf ℕ :=
  ⟨none, none, some .fe25519Tmp1, fun b => s.fe (B.mem.buf b)⟩

/-- The first copy, from wherever the operand is. -/
theorem feInvStart_spec (h1 : s.ptr B .fe25519Src1 = a.addr) :
    (feInvStart B s).ptr B .fe25519Src1 = a.addr ∧
      (feInvStart B s).ptr B .fe25519Dst = (B.mem.own .fe25519Tmp1).addr := by
  have hfit := (B.mem.own .fe25519Tmp1).fits
  exact ⟨(ptr_setPtr_of_ne (by decide) rfl rfl).trans h1,
    ptr_setPtr (by rw [MemMap.own_addr] at hfit; omega)⟩

theorem feInvCopied_spec (h1 : s.ptr B .fe25519Src1 = a.addr) :
    let c := fe25519Copy B (feInvStart B s)
    c.fe (B.mem.buf .fe25519Tmp1) = s.fe a.addr ∧ Shows B B.mem.own (feInvView B c) c ∧
      Kept B Slot.prog (dirty B (invWrites d)) s c ∧
      c.var .feInvDstLo = s.zp (B.slot .fe25519Dst) ∧
      c.var .feInvDstHi = s.zp (B.slot .fe25519Dst + 1) := by
  obtain ⟨hc1, hc2⟩ := feInvStart_spec (B := B) h1
  obtain ⟨hcopy, hfc⟩ := fe25519Copy_spec hc1 hc2
  refine ⟨hcopy, ⟨fun _ h => (by cases h), fun _ h => (by cases h), fun b hb => ?_, fun _ => rfl⟩,
    ?_, hfc.var .feInvDstLo rfl, hfc.var .feInvDstHi rfl⟩
  · obtain rfl : Buf.fe25519Tmp1 = b := Option.some.inj hb
    exact (hfc.ptr rfl rfl).trans hc2
  · exact (((Kept.refl s).setVar.setVar).setPtr rfl rfl).trans ((Kept.of_frame hfc).mono
      fun x hx => dirty_of (.inr ⟨.fe25519Tmp1, by decide, rfl⟩) (.inl hx))

/-- The chain may write where the view aims it. -/
theorem feInvView_within : ∀ b ∈ (feInvView B s).dst, invWrites d (B.mem.own b) := fun b hb => by
  obtain rfl : Buf.fe25519Tmp1 = b := Option.some.inj hb
  exact .inr ⟨_, by decide, rfl⟩

theorem feInvChain_within :
    ∀ i ∈ feInvChain, i.Within B.mem.own (invWrites d) ∧ i.Named B.mem.own .fe25519Tmp2 :=
  own_within (l := invBufs) (fun b hb => .inr ⟨b, hb, rfl⟩) (by decide)

/-- The state of the last product: the destination restored behind the
chain. -/
def feInvEnd (B : Build) (s : Machine) : Machine :=
  let s := exec B B.mem.buf feInvChain (fe25519Copy B (feInvStart B s))
  let s := s.setZp (B.slot .fe25519Dst) (s.var .feInvDstLo)
  s.setZp (B.slot .fe25519Dst + 1) (s.var .feInvDstHi)

theorem fe25519Inv_end : fe25519Inv B s = fe25519ReduceFinal B (fe25519Mul B (feInvEnd B s)) := rfl

theorem feInvEnd_spec (hr : Ready B s) (h1 : s.ptr B .fe25519Src1 = a.addr)
    (hd : s.ptr B .fe25519Dst = d.addr) :
    let t := feInvEnd B s
    (t.ptr B .fe25519Src1 = (B.mem.own .fe25519Tmp2).addr ∧
      t.ptr B .fe25519Src2 = (B.mem.own .x25A).addr ∧ t.ptr B .fe25519Dst = d.addr) ∧
      Kept B Slot.prog (dirty B (invWrites d)) s t ∧
      (t.fe (B.mem.buf .fe25519Tmp2) : ZMod p) = (s.fe a.addr : ZMod p) ^ (2 ^ 255 - 2 ^ 5) ∧
      (t.fe (B.mem.buf .x25A) : ZMod p) = (s.fe a.addr : ZMod p) ^ 11 := by
  obtain ⟨hcopy, hshow, hkc, hlo, hhi⟩ := feInvCopied_spec (B := B) (d := d) h1
  set c := fe25519Copy B (feInvStart B s) with hc
  -- the chain
  obtain ⟨v1, hv1, hsrc1, hsrc2, hval2, hvalA⟩ := feInvChain_raw (v := feInvView B c) rfl rfl rfl
    fun _ => fe_lt
  obtain ⟨hshow3, hk3, hsv3⟩ := exec_sim (W := invWrites d) own_injective (hr.kept hkc) hshow hv1
    feInvView_within feInvChain_within
  set s3 := exec B B.mem.buf feInvChain c with hs3
  change Shows B B.mem.own v1 s3 at hshow3
  change Kept B _ _ c s3 at hk3
  -- the destination restored
  have hs5 : feInvEnd B s = s3.setPtr B .fe25519Dst d.addr := by
    obtain ⟨hdlo, hdhi⟩ := ptr_bytes hd
    have h3lo : s3.var .feInvDstLo = BitVec.ofNat 8 d.addr := (hsv3.1.trans hlo).trans hdlo
    have h3hi : s3.var .feInvDstHi = BitVec.ofNat 8 (d.addr / 0x100) := (hsv3.2.trans hhi).trans hdhi
    simp only [feInvEnd, ← hc, ← hs3, setZp_var, h3lo, h3hi]
    rfl
  intro t
  have hk5 : Kept B Slot.prog (dirty B (invWrites d)) s t := by
    rw [show t = _ from hs5]
    exact (hkc.trans hk3).setPtr rfl rfl
  have h5 : ∀ b, t.fe (B.mem.buf b) = v1.val b := fun b => by
    rw [show t = _ from hs5]
    exact hshow3.val b
  refine ⟨⟨?_, ?_, ?_⟩, hk5, ?_, ?_⟩
  · rw [show t = _ from hs5]
    exact (ptr_setPtr_of_ne (by decide) rfl rfl).trans (hshow3.src1 _ hsrc1)
  · rw [show t = _ from hs5]
    exact (ptr_setPtr_of_ne (by decide) rfl rfl).trans (hshow3.src2 _ hsrc2)
  · have hfit := d.fits
    rw [show t = _ from hs5]
    exact ptr_setPtr (by omega)
  · rw [h5, hval2]
    exact congrArg (fun n : ℕ => (n : ZMod p) ^ (2 ^ 255 - 2 ^ 5)) hcopy
  · rw [h5, hvalA]
    exact congrArg (fun n : ℕ => (n : ZMod p) ^ 11) hcopy

/-- **`fe25519_inv`** is the power `p - 2`, canonical, for any operand and
any destination, and leaves the destination pointer where it was. -/
theorem fe25519Inv_spec (hr : Ready B s) (h1 : s.ptr B .fe25519Src1 = a.addr)
    (hd : s.ptr B .fe25519Dst = d.addr) :
    (fe25519Inv B s).fe d.addr = ((s.fe a.addr : ZMod p) ^ (p - 2)).val ∧
      (fe25519Inv B s).ptr B .fe25519Dst = d.addr ∧
      Kept B Slot.prog (dirty B (invWrites d)) s (fe25519Inv B s) := by
  obtain ⟨⟨h51, h52, hd5⟩, hk5, hval2, hvalA⟩ := feInvEnd_spec hr h1 hd
  rw [fe25519Inv_end]
  set t := feInvEnd B s with ht
  obtain ⟨hmul, hfm⟩ := fe25519Mul_spec (hr.kept hk5).mul h51 h52 hd5
  obtain ⟨hred, hfr⟩ := fe25519ReduceFinal_spec ((hfm.ptr rfl rfl).trans hd5)
  refine ⟨?_, (hfr.ptr rfl rfl).trans ((hfm.ptr rfl rfl).trans hd5), ?_⟩
  · rw [hred, hmul]
    refine mod_p_eq_val ?_
    have hexp : 2 ^ 255 - 2 ^ 5 + 11 = p - 2 := by norm_num [p]
    rw [MemMap.own_addr, MemMap.own_addr, reduceWide_cast, Nat.cast_mul, hval2, hvalA, ← pow_add,
      hexp]
  · exact hk5.trans (((Kept.of_frame hfm).trans ((Kept.of_frame hfr).mono fun _ => .inl)).mono
      fun x => dirty_of (.inl rfl))

end C64X25519
