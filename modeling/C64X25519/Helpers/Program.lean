import C64X25519.Helpers.MulA24
import C64X25519.Helpers.Sqr
import C64X25519.Helpers.View
/-!
# Field programs on the machine

The machine does to its buffers what the raw evaluation of a program does
to its view (`exec_sim`), byte for byte, so nothing an earlier call left
behind reaches a result.
-/

namespace C64X25519

open Machine

variable {B : Build} {K : Type} [DecidableEq K] {buf : K → FieldBuf B.mem} {s t u : Machine}
  {v v' : View K ℕ} {acc x : K} {a d : FieldBuf B.mem} {n : ℕ}

/-- The machine shows the view, with the buffers named by `K` where `buf`
has them. -/
structure Shows (B : Build) (buf : K → FieldBuf B.mem) (v : View K ℕ) (s : Machine) : Prop where
  src1 : ∀ a ∈ v.src1, s.ptr B .fe25519Src1 = (buf a).addr
  src2 : ∀ a ∈ v.src2, s.ptr B .fe25519Src2 = (buf a).addr
  dst : ∀ a ∈ v.dst, s.ptr B .fe25519Dst = (buf a).addr
  val : ∀ a, s.fe (buf a).addr = v.val a

/-! ## What a program leaves alone -/

/-- The slots a program may change: all but the state of the bit loop. -/
def Slot.prog : Slot → Bool
  | x25PrevBit | x25ByteIdx | x25BitMask => false
  | _ => true

theorem Slot.prog_of_work {x : Slot} (h : x.work = true) : x.prog = true := by
  cases x <;> first | rfl | cases h

/-- From `s` to `t` memory has changed only in `D`, page zero only in the
slots of `S`, and the interrupt flag and the memory of the
expansion unit not at all. -/
structure Kept (B : Build) (S : Slot → Bool) (D : ℕ → Prop) (s t : Machine) : Prop where
  ram : ∀ a, ¬ D a → t.ram a = s.ram a
  zp : ∀ a, (∀ x : Slot, S x → ¬ B.span x a) → t.zp a = s.zp a
  flagI : t.flagI = s.flagI
  mem : t.reu.mem = s.reu.mem
  live : t.reu.live = s.reu.live

namespace Kept

variable {S : Slot → Bool} {D D' : ℕ → Prop} {x : Slot} {y : Byte} {k : ℕ}

@[refl] theorem refl (s : Machine) : Kept B S D s s :=
  ⟨fun _ _ => rfl, fun _ _ => rfl, rfl, rfl, rfl⟩

theorem trans (h : Kept B S D s t) (h' : Kept B S D t u) : Kept B S D s u where
  ram a ha := (h'.ram a ha).trans (h.ram a ha)
  zp a ha := (h'.zp a ha).trans (h.zp a ha)
  flagI := h'.flagI.trans h.flagI
  mem := h'.mem.trans h.mem
  live := h'.live.trans h.live

theorem mono (hD : ∀ a, D a → D' a) (h : Kept B S D s t) : Kept B S D' s t where
  ram a ha := h.ram a fun hd => ha (hD a hd)
  zp := h.zp
  flagI := h.flagI
  mem := h.mem
  live := h.live

/-- A change of programs is a change of the whole library. -/
theorem widen (h : Kept B S D s t) : Kept B (fun _ => true) D s t where
  ram := h.ram
  zp a ha := h.zp a fun x _ => ha x rfl
  flagI := h.flagI
  mem := h.mem
  live := h.live

theorem of_frame (h : Frame B D s t) : Kept B Slot.prog D s t where
  ram := h.ram
  zp a ha := h.zp a fun x hx => ha x (Slot.prog_of_work hx)
  flagI := h.flagI
  mem := h.mem
  live := h.live

theorem setZp (hx : S x = true) (hk : k < x.size) (h : Kept B S D s t) :
    Kept B S D s (t.setZp (B.slot x + k) y) where
  ram := h.ram
  zp a ha := by
    rw [← h.zp a ha]
    refine Function.update_of_ne ?_ _ _
    rintro rfl
    exact ha x hx (Build.span_slot hk)
  flagI := h.flagI
  mem := h.mem
  live := h.live

theorem setSlot (hx : S x = true) (h : Kept B S D s t) : Kept B S D s (t.setZp (B.slot x) y) :=
  setZp (k := 0) hx x.size_pos h

theorem setPtr (hx : S x = true) (h2 : x.size = 2) (h : Kept B S D s t) :
    Kept B S D s (t.setPtr B x k) := setZp hx (by omega) (setSlot hx h)

theorem setVar {z : Var} (h : Kept B S D s t) : Kept B S D s (t.setVar z y) :=
  ⟨h.ram, h.zp, h.flagI, h.mem, h.live⟩

theorem setRam (ha : D k) (h : Kept B S D s t) : Kept B S D s (t.setRam k y) where
  ram b hb := by
    rw [← h.ram b hb]
    refine Function.update_of_ne ?_ _ _
    rintro rfl
    exact hb ha
  zp := h.zp
  flagI := h.flagI
  mem := h.mem
  live := h.live

theorem zp_slot (h : Kept B S D s t) (hx : S x = false) : t.zp (B.slot x) = s.zp (B.slot x) :=
  h.zp _ fun y hy => Build.not_span (i := 0) (fun he => by rw [he, hx] at hy; cases hy) x.size_pos

theorem fe_eq (h : Kept B S D s t) (hD : ∀ i, i < 32 → ¬ D (k + i)) : t.fe k = s.fe k :=
  leNat_congr fun i hi => h.ram _ (hD i hi)

end Kept

/-- The addresses programs with destinations in `W` may change. -/
def dirty (B : Build) (W : FieldBuf B.mem → Prop) (x : ℕ) : Prop :=
  (∃ d, W d ∧ d.span x) ∨ B.mem.work x

theorem dirty_of {W : FieldBuf B.mem → Prop} (hd : W d) {x : ℕ} (h : d.dirty x) : dirty B W x :=
  h.imp (fun h => ⟨d, hd, h⟩) id

theorem not_dirty {W : FieldBuf B.mem → Prop} (ha : ¬ W a) {k : ℕ} (hk : k < 32) :
    ¬ dirty B W (a.addr + k) := by
  rintro (⟨d, hd, hs⟩ | hw)
  · rcases eq_or_ne d a with rfl | hne
    · exact ha hd
    · exact FieldBuf.not_span hne hs (a.span_add hk)
  · exact B.mem.not_work (a.span_add hk) hw

/-- **Programs keep the tables.** -/
theorem Ready.kept {S : Slot → Bool} {W : FieldBuf B.mem → Prop} (h : Ready B s)
    (hk : Kept B S (dirty B W) s t) : Ready B t := by
  have hsq : ∀ x, B.mem.sqtab ≤ x → x < B.mem.sqtab + 0x400 → t.ram x = s.ram x := by
    intro x h1 h2
    refine hk.ram x ?_
    rintro (⟨d, -, hs⟩ | hw)
    · obtain ⟨-, hq, -⟩ := B.mem.buf_apart d
      simp only [Apart, FieldBuf.span] at hq hs
      omega
    · exact work_not_sqtab hw ⟨h1, h2⟩
  refine ⟨⟨fun n hn => ?_, fun n hn => ?_⟩, fun hb => hk.live.trans (h.live hb), fun hb => ?_,
    fun hb => ?_, ?_⟩
  · rw [hsq _ (by simp only [MemMap.sqtabLo]; omega) (by simp only [MemMap.sqtabLo]; omega)]
    exact h.sqtab.lo n hn
  · rw [hsq _ (by simp only [MemMap.sqtabHi]; omega) (by simp only [MemMap.sqtabHi]; omega)]
    exact h.sqtab.hi n hn
  · have hm := h.mulRows hb
    exact ⟨by rw [hk.mem]; exact hm.lo, by rw [hk.mem]; exact hm.hi⟩
  · have hm := h.doubled hb
    exact ⟨by rw [hk.mem]; exact hm.lo, by rw [hk.mem]; exact hm.hi, by rw [hk.mem]; exact hm.carry⟩
  · rw [hk.ram]
    · exact h.guard
    · rintro (⟨d, -, hs⟩ | hw)
      · obtain ⟨-, -, h3⟩ := B.mem.buf_apart d
        simp only [Apart, FieldBuf.span] at h3 hs
        omega
      · exact not_work_guard hw

/-! ## The simulation -/

theorem Shows.store (hb : buf.Injective) (h : Shows B buf v s) (hf : Frame B (buf x).dirty s t)
    (hfe : t.fe (buf x).addr = n) : Shows B buf (v.store x n) t where
  src1 a ha := (hf.ptr rfl rfl).trans (h.src1 a ha)
  src2 a ha := (hf.ptr rfl rfl).trans (h.src2 a ha)
  dst a ha := (hf.ptr rfl rfl).trans (h.dst a ha)
  val a := by
    rcases eq_or_ne a x with rfl | hne
    · rw [View.store_val, Function.update_self]
      exact hfe
    · rw [View.store_val, Function.update_of_ne hne, ← h.val a]
      refine hf.fe_eq fun i hi => ?_
      rintro (hs | hw)
      · exact FieldBuf.not_span (hb.ne hne) ((buf a).span_add hi) hs
      · exact B.mem.not_work ((buf a).span_add hi) hw

/-- **A call does to the machine what it does to the view.** -/
theorem FieldOp.sim {f : FieldOp} (hb : buf.Injective) (hr : Ready B s) (h : Shows B buf v s)
    (he : f.eval raw v = some v') :
    Shows B buf v' (f.run B s) ∧ ∃ d ∈ v.dst, Frame B (buf d).dirty s (f.run B s) := by
  have hspan : ∀ {d : FieldBuf B.mem} {t}, Frame B d.span s t → Frame B d.dirty s t :=
    fun hf => hf.mono fun _ => .inl
  cases f
  all_goals
    simp only [FieldOp.eval, Option.bind_eq_bind, Option.bind_eq_some_iff, Option.pure_def,
      Option.some.injEq] at he
  case fe25519Copy =>
    obtain ⟨d, hd, a, ha, rfl⟩ := he
    obtain ⟨hfe, hf⟩ := fe25519Copy_spec (h.src1 a ha) (h.dst d hd)
    exact ⟨h.store hb (hspan hf) (hfe.trans (h.val a)), d, hd, hspan hf⟩
  case fe25519Zero =>
    obtain ⟨d, hd, rfl⟩ := he
    have hf := (fe25519Zero_spec (h.dst d hd)).2.1
    exact ⟨h.store hb (hspan hf) (fe25519Zero_fe (h.dst d hd)), d, hd, hspan hf⟩
  case fe25519One =>
    obtain ⟨d, hd, rfl⟩ := he
    obtain ⟨hfe, hf⟩ := fe25519One_spec (h.dst d hd)
    exact ⟨h.store hb (hspan hf) hfe, d, hd, hspan hf⟩
  case fe25519Add =>
    obtain ⟨d, hd, a, ha, b, hb', rfl⟩ := he
    obtain ⟨hfe, hf⟩ := fe25519Add_spec (h.src1 a ha) (h.src2 b hb') (h.dst d hd)
    rw [h.val, h.val, ← raw_add] at hfe
    exact ⟨h.store hb (hspan hf) hfe, d, hd, hspan hf⟩
  case fe25519Sub =>
    obtain ⟨d, hd, a, ha, b, hb', rfl⟩ := he
    obtain ⟨hfe, hf⟩ := fe25519Sub_spec (h.src1 a ha) (h.src2 b hb') (h.dst d hd)
    rw [h.val, h.val, ← raw_sub] at hfe
    exact ⟨h.store hb (hspan hf) hfe, d, hd, hspan hf⟩
  case fe25519Mul =>
    obtain ⟨d, hd, a, ha, b, hb', rfl⟩ := he
    obtain ⟨hfe, hf⟩ := fe25519Mul_spec hr.mul (h.src1 a ha) (h.src2 b hb') (h.dst d hd)
    rw [h.val, h.val, ← raw_mul] at hfe
    exact ⟨h.store hb hf hfe, d, hd, hf⟩
  case fe25519Sqr =>
    obtain ⟨d, hd, a, ha, rfl⟩ := he
    obtain ⟨hfe, hf⟩ := fe25519Sqr_spec hr (h.src1 a ha) (h.dst d hd)
    rw [h.val, ← raw_sqr] at hfe
    exact ⟨h.store hb hf hfe, d, hd, hf⟩
  case fe25519MulA24 =>
    obtain ⟨d, hd, a, ha, rfl⟩ := he
    obtain ⟨hfe, hf⟩ := fe25519MulA24_spec (h.src1 a ha) (h.dst d hd)
    rw [h.val, ← raw_mulA24] at hfe
    exact ⟨h.store hb hf hfe, d, hd, hf⟩
  case fe25519ReduceFinal =>
    obtain ⟨d, hd, d', hd', rfl⟩ := he
    obtain rfl : d = d' := Option.some.inj (hd.symm.trans hd')
    obtain ⟨hfe, hf⟩ := fe25519ReduceFinal_spec (h.dst d hd)
    rw [h.val, ← raw_reduce] at hfe
    exact ⟨h.store hb (hspan hf) hfe, d, hd, hspan hf⟩

theorem ptr_setPtr {x : Slot} {k : ℕ} (hk : k < 0x10000) :
    (s.setPtr B x k).ptr B x = k := by
  have hlo : (s.setPtr B x k).zp (B.slot x) = BitVec.ofNat 8 k := by
    rw [setPtr, setZp_zp, Function.update_of_ne (by omega), setZp_zp_self]
  have hhi : (s.setPtr B x k).zp (B.slot x + 1) = BitVec.ofNat 8 (k / 0x100) := setZp_zp_self
  rw [ptr, hlo, hhi, BitVec.toNat_ofNat, BitVec.toNat_ofNat]
  omega

theorem ptr_setPtr_of_ne {x y : Slot} (hxy : y ≠ x) (hx : x.size = 2) (hy : y.size = 2) {k : ℕ} :
    (s.setPtr B x k).ptr B y = s.ptr B y := by
  have hz : ∀ i, i < 2 → (s.setPtr B x k).zp (B.slot y + i) = s.zp (B.slot y + i) := fun i hi => by
    have hne0 : B.slot y + i ≠ B.slot x :=
      Build.slot_add_ne (j := 0) hxy (by omega) (by omega)
    have hne1 : B.slot y + i ≠ B.slot x + 1 := Build.slot_add_ne hxy (by omega) (by omega)
    rw [setPtr, setZp_zp, Function.update_of_ne hne1, setZp_zp, Function.update_of_ne hne0]
  have h0 := hz 0 (by omega)
  rw [Nat.add_zero] at h0
  rw [ptr, ptr, h0, hz 1 (by omega)]

omit [DecidableEq K] in
theorem Shows.src1_set (h : Shows B buf v s) :
    Shows B buf { v with src1 := some x } (s.setPtr B .fe25519Src1 (buf x).addr) where
  src1 b hb := by
    obtain rfl : x = b := Option.some.inj hb
    have hfit := (buf x).fits
    exact ptr_setPtr (by omega)
  src2 b hb := (ptr_setPtr_of_ne (by decide) rfl rfl).trans (h.src2 b hb)
  dst b hb := (ptr_setPtr_of_ne (by decide) rfl rfl).trans (h.dst b hb)
  val := h.val

omit [DecidableEq K] in
theorem Shows.src2_set (h : Shows B buf v s) :
    Shows B buf { v with src2 := some x } (s.setPtr B .fe25519Src2 (buf x).addr) where
  src1 b hb := (ptr_setPtr_of_ne (by decide) rfl rfl).trans (h.src1 b hb)
  src2 b hb := by
    obtain rfl : x = b := Option.some.inj hb
    have hfit := (buf x).fits
    exact ptr_setPtr (by omega)
  dst b hb := (ptr_setPtr_of_ne (by decide) rfl rfl).trans (h.dst b hb)
  val := h.val

omit [DecidableEq K] in
theorem Shows.dst_set (h : Shows B buf v s) :
    Shows B buf { v with dst := some x } (s.setPtr B .fe25519Dst (buf x).addr) where
  src1 b hb := (ptr_setPtr_of_ne (by decide) rfl rfl).trans (h.src1 b hb)
  src2 b hb := (ptr_setPtr_of_ne (by decide) rfl rfl).trans (h.src2 b hb)
  dst b hb := by
    obtain rfl : x = b := Option.some.inj hb
    have hfit := (buf x).fits
    exact ptr_setPtr (by omega)
  val := h.val

/-! ## The squaring loop -/

/-- The saved destination of the inversion is as it was. -/
def Saved (s t : Machine) : Prop :=
  t.var .feInvDstLo = s.var .feInvDstLo ∧ t.var .feInvDstHi = s.var .feInvDstHi

theorem Saved.trans (h : Saved s t) (h' : Saved t u) : Saved s u :=
  ⟨h'.1.trans h.1, h'.2.trans h.2⟩

theorem Saved.of_frame {D : ℕ → Prop} (h : Frame B D s t) : Saved s t := ⟨h.var _ rfl, h.var _ rfl⟩

/-- Both pointers aimed at the accumulator of the loop. -/
theorem View.squared_aim (v : View K ℕ) (k : ℕ) :
    { (if k = 0 then v else v.squared raw acc k) with src1 := some acc, dst := some acc }
      = v.squared raw acc k := by
  split
  · rename_i h
    subst h
    refine View.ext rfl rfl rfl ?_
    exact (Function.update_eq_self _ _).symm
  · rfl

/-- One squaring of the accumulator. -/
theorem View.squared_succ (v : View K ℕ) (k : ℕ) :
    (v.squared raw acc k).store acc (raw.sqr ((v.squared raw acc k).val acc))
      = v.squared raw acc (k + 1) := by
  refine View.ext rfl rfl rfl ?_
  simp only [View.squared, View.store_val, Function.update_self, Function.update_idem]
  rw [Function.iterate_succ_apply']

/-- The squaring loop before turn `k`, from the state `s` it was entered
in. -/
structure SqrnInv (B : Build) (buf : K → FieldBuf B.mem) (acc : K) (W : FieldBuf B.mem → Prop)
    (v : View K ℕ) (s : Machine) (n : Byte) (k : ℕ) (t : Machine) : Prop where
  shows : Shows B buf (if k = 0 then v else v.squared raw acc k) t
  kept : Kept B Slot.prog (dirty B W) s t
  saved : Saved s t
  count : (t.var .feInvSqrCnt).toNat = (n.toNat + 256 - k) % 256

theorem sqrnBody_sim {W : FieldBuf B.mem → Prop} {n : Byte} {k : ℕ} (hb : buf.Injective)
    (hacc : buf acc = B.mem.own .fe25519Tmp2) (hr : Ready B s) (hW : W (B.mem.own .fe25519Tmp2))
    (h : SqrnInv B buf acc W v s n k t) (hk : k < turns n) :
    SqrnInv B buf acc W v s n (k + 1) (feInvSqrnBody B t).1 ∧
      (feInvSqrnBody B t).2 = decide (k + 1 < turns n) := by
  have hn := n.isLt
  have hk256 : k < 256 := by
    simp only [turns] at hk
    split at hk <;> omega
  have haddr : B.mem.buf .fe25519Tmp2 = (buf acc).addr := (congrArg FieldBuf.addr hacc).symm
  unfold feInvSqrnBody
  extract_lets t1 t2 t3 t4
  have hshow2 : Shows B buf (v.squared raw acc k) t2 := by
    rw [← v.squared_aim k]
    simp only [t2, t1, haddr]
    exact h.shows.src1_set.dst_set
  have hkept2 : Kept B Slot.prog (dirty B W) s t2 := (h.kept.setPtr rfl rfl).setPtr rfl rfl
  obtain ⟨hshow3, d, hd, hf⟩ := FieldOp.sim (f := .fe25519Sqr) hb (hr.kept hkept2) hshow2 rfl
  obtain rfl : acc = d := Option.some.inj hd
  change Frame B _ t2 t3 at hf
  rw [v.squared_succ k] at hshow3
  have hcnt : (t4.var .feInvSqrCnt).toNat = (n.toNat + 256 - (k + 1)) % 256 := by
    have h3 : t3.var .feInvSqrCnt = t.var .feInvSqrCnt := hf.var _ rfl
    have hone : (1 : Byte).toNat = 1 := rfl
    rw [show t4 = _ from rfl, setVar_var, Function.update_self, h3, BitVec.toNat_sub, h.count, hone]
    omega
  refine ⟨⟨?_, ?_, ?_, hcnt⟩, ?_⟩
  · rw [if_neg (by omega)]
    exact ⟨hshow3.src1, hshow3.src2, hshow3.dst, hshow3.val⟩
  · rw [hacc] at hf
    exact (hkept2.trans ((Kept.of_frame hf).mono fun _ => dirty_of hW)).setVar
  · have hs2 : Saved t t2 := ⟨rfl, rfl⟩
    have hs : Saved s t3 := (h.saved.trans hs2).trans (Saved.of_frame hf)
    exact hs.trans ⟨by simp [t4], by simp [t4]⟩
  · change (t4.var .feInvSqrCnt != 0) = _
    rw [bne_zero, hcnt]
    refine decide_eq_decide.2 ?_
    simp only [turns] at hk ⊢
    split at hk <;> split <;> omega

/-- **The squaring loop.** -/
theorem feInvSqrnTmp2_sim {W : FieldBuf B.mem → Prop} {n : Byte} (hb : buf.Injective)
    (hacc : buf acc = B.mem.own .fe25519Tmp2) (hr : Ready B s) (hW : W (B.mem.own .fe25519Tmp2))
    (h : Shows B buf v s) :
    Shows B buf (v.squared raw acc (turns n)) (feInvSqrnTmp2 B n s) ∧
      Kept B Slot.prog (dirty B W) s (feInvSqrnTmp2 B n s) ∧ Saved s (feInvSqrnTmp2 B n s) := by
  have hn := n.isLt
  have hpos : 0 < turns n := by
    simp only [turns]
    split <;> omega
  have hrun := doWhile_inv (N := turns n) (m := 0x100) (g := feInvSqrnBody B)
    (s := s.setVar .feInvSqrCnt n) (SqrnInv B buf acc W v s n) ?_ hpos ?_
    fun k hk t ht => sqrnBody_sim hb hacc hr hW ht hk
  · have hshow := hrun.shows
    rw [if_neg (by omega)] at hshow
    exact ⟨hshow, hrun.kept, hrun.saved⟩
  · refine ⟨⟨h.src1, h.src2, h.dst, h.val⟩, (Kept.refl s).setVar, ⟨rfl, rfl⟩, ?_⟩
    rw [setVar_var, Function.update_self]
    omega
  · simp only [turns]
    split <;> omega

/-! ## Programs -/

/-- The destinations of an instruction are among those of `W`. -/
def Instr.Within (buf : K → FieldBuf B.mem) (W : FieldBuf B.mem → Prop) : Instr K → Prop
  | .dst d => W (buf d)
  | .sqrn _ => W (B.mem.own .fe25519Tmp2)
  | _ => True

/-- The name of the loop's accumulator, where the program runs the loop. -/
def Instr.Named (buf : K → FieldBuf B.mem) (acc : K) : Instr K → Prop
  | .sqrn _ => buf acc = B.mem.own .fe25519Tmp2
  | _ => True

/-- One instruction. -/
theorem Instr.sim {W : FieldBuf B.mem → Prop} {i : Instr K} (hb : buf.Injective) (hr : Ready B s)
    (h : Shows B buf v s) (he : i.eval raw acc v = some v') (hv : ∀ d ∈ v.dst, W (buf d))
    (hi : i.Within buf W) (hacc : i.Named buf acc) :
    Shows B buf v' (i.run B (fun k => (buf k).addr) s) ∧
      Kept B Slot.prog (dirty B W) s (i.run B (fun k => (buf k).addr) s) ∧
      Saved s (i.run B (fun k => (buf k).addr) s) ∧ ∀ d ∈ v'.dst, W (buf d) := by
  cases i with
  | src1 a =>
    obtain rfl : _ = v' := Option.some.inj he
    exact ⟨h.src1_set, (Kept.refl s).setPtr rfl rfl, ⟨rfl, rfl⟩, hv⟩
  | src2 a =>
    obtain rfl : _ = v' := Option.some.inj he
    exact ⟨h.src2_set, (Kept.refl s).setPtr rfl rfl, ⟨rfl, rfl⟩, hv⟩
  | dst a =>
    obtain rfl : _ = v' := Option.some.inj he
    refine ⟨h.dst_set, (Kept.refl s).setPtr rfl rfl, ⟨rfl, rfl⟩, fun d hd => ?_⟩
    obtain rfl : a = d := Option.some.inj hd
    exact hi
  | jsr f =>
    obtain ⟨hs, d, hd, hf⟩ := FieldOp.sim hb hr h he
    refine ⟨hs, (Kept.of_frame hf).mono fun _ => dirty_of (hv d hd), Saved.of_frame hf, ?_⟩
    obtain ⟨e, -, m, rfl⟩ := FieldOp.eval_eq he
    exact hv
  | sqrn n =>
    obtain rfl : _ = v' := Option.some.inj he
    obtain ⟨hs, hk, hsv⟩ := feInvSqrnTmp2_sim (n := n) hb hacc hr hi h
    refine ⟨hs, hk, hsv, fun d hd => ?_⟩
    obtain rfl : acc = d := Option.some.inj hd
    rw [hacc]
    exact hi

/-- **A program does to the machine what it does to the view.** -/
theorem exec_sim {W : FieldBuf B.mem → Prop} {code : List (Instr K)} (hb : buf.Injective)
    (hr : Ready B s) (h : Shows B buf v s) (he : evals raw acc code v = some v')
    (hv : ∀ d ∈ v.dst, W (buf d)) (hc : ∀ i ∈ code, i.Within buf W ∧ i.Named buf acc) :
    Shows B buf v' (exec B (fun k => (buf k).addr) code s) ∧
      Kept B Slot.prog (dirty B W) s (exec B (fun k => (buf k).addr) code s) ∧
      Saved s (exec B (fun k => (buf k).addr) code s) := by
  induction code generalizing s v with
  | nil =>
    obtain rfl : v = v' := Option.some.inj he
    exact ⟨h, Kept.refl s, ⟨rfl, rfl⟩⟩
  | cons i code ih =>
    rw [evals_cons, Option.bind_eq_some_iff] at he
    obtain ⟨w, hw, he⟩ := he
    obtain ⟨hi, hacc⟩ := hc i (List.mem_cons_self ..)
    obtain ⟨hs, hk, hsv, hd⟩ := Instr.sim hb hr h hw hv hi hacc
    obtain ⟨hs', hk', hsv'⟩ := ih (hr.kept hk) hs he hd fun j hj => hc j (List.mem_cons_of_mem _ hj)
    exact ⟨hs', hk.trans hk', hsv.trans hsv'⟩

end C64X25519
