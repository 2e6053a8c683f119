import C64X25519.Helpers.Inv
import C64X25519.Helpers.MulA24Timing
import C64X25519.Helpers.SqrTiming
import C64X25519.Model.LadderAsm
/-!
# The timing of field programs

What an instruction of a field program costs is in the instruction: the
pointers it sets and the values it works on decide nothing. A program costs
the sum.
-/

namespace C64X25519

open Machine

variable {B : Build} {L : Link} {s : Core} {a d : FieldBuf B.mem} {K : Type} [DecidableEq K]
  {buf : K → FieldBuf B.mem} {v v' : View K ℕ} {acc : K} {W : FieldBuf B.mem → Prop} {n : Byte}

/-! ## Instructions -/

/-- What a field routine costs. -/
def FieldOp.bill (B : Build) (L : Link) : FieldOp → Bill Label
  | .fe25519Copy => .tick (fe25519CopyCycles L)
  | .fe25519Zero => .tick (fe25519ZeroCycles L)
  | .fe25519One => .tick (fe25519OneCycles L)
  | .fe25519Add => .tick (fe25519AddCycles L)
  | .fe25519Sub => .tick (fe25519SubCycles L)
  | .fe25519Mul => fe25519MulBill B L
  | .fe25519Sqr => fe25519SqrBill B L
  | .fe25519MulA24 => .tick (fe25519MulA24Cycles B L)
  | .fe25519ReduceFinal => .tick (fe25519ReduceFinalCycles L)

/-- A turn of the squaring loop, but for its branch. -/
def feInvSqrnBodyBill (B : Build) (L : Link) : Bill Label :=
  .tick 20 + (fe25519SqrBill B L + .tick 12 + .tick 6)

/-- What `n` squarings by `fe_inv_sqrn_tmp2` cost. -/
def feInvSqrnBill (B : Build) (L : Link) (n : Byte) : Bill Label :=
  .tick 4 + (turns n • feInvSqrnBodyBill B L
    + .tick ((turns n - 1) * (3 + (L.crosses .sqrnLoop).toNat) + 2))

/-- What a step of a program costs. -/
def Instr.bill (B : Build) (L : Link) : Instr K → Bill Label
  | .src1 _ | .src2 _ | .dst _ => .tick 10
  | .jsr f => f.bill B L + .tick 12
  | .sqrn n => .tick 2 + (feInvSqrnBill B L n + .tick 12)

/-- What a program costs. -/
def execBill (B : Build) (L : Link) (code : List (Instr K)) : Bill Label :=
  (code.map (Instr.bill B L)).sum

theorem setPtr_does {x : Slot} {k : ℕ} :
    Does B L (.block (setPtrAsm x k)) s (.tick 10) (s.m.setPtr B x k) :=
  Straight.spends (.of_quiet rfl trivial rfl) ⟨rfl, rfl⟩

/-- A field routine, from its pointers. -/
theorem FieldOp.ptr_does {f : FieldOp} (hr : Ready B s.m) (hd : s.m.ptr B .fe25519Dst = d.addr)
    (hsrc : ∀ x ∈ f.reads, ∃ a : FieldBuf B.mem, s.m.ptr B x = a.addr) :
    Does B L (f.asm B) s (f.bill B L) (f.run B s.m) := by
  have h1 : .fe25519Src1 ∈ f.reads → ∃ a : FieldBuf B.mem, s.m.ptr B .fe25519Src1 = a.addr :=
    fun hx => hsrc _ hx
  have h2 : .fe25519Src2 ∈ f.reads → ∃ b : FieldBuf B.mem, s.m.ptr B .fe25519Src2 = b.addr :=
    fun hx => hsrc _ hx
  cases f with
  | fe25519Copy =>
    obtain ⟨a, ha⟩ := h1 (by decide)
    exact fe25519Copy_does ha hd
  | fe25519Zero => exact fe25519Zero_does hd
  | fe25519One => exact fe25519One_does hd
  | fe25519Add =>
    obtain ⟨a, ha⟩ := h1 (by decide)
    obtain ⟨b, hb⟩ := h2 (by decide)
    exact fe25519Add_does ha hb hd
  | fe25519Sub =>
    obtain ⟨a, ha⟩ := h1 (by decide)
    obtain ⟨b, hb⟩ := h2 (by decide)
    exact fe25519Sub_does ha hb hd
  | fe25519Mul =>
    obtain ⟨a, ha⟩ := h1 (by decide)
    obtain ⟨b, hb⟩ := h2 (by decide)
    exact fe25519Mul_does hr.mul ha hb hd
  | fe25519Sqr =>
    obtain ⟨a, ha⟩ := h1 (by decide)
    exact fe25519Sqr_does hr ha hd
  | fe25519MulA24 =>
    obtain ⟨a, ha⟩ := h1 (by decide)
    exact fe25519MulA24_does ha hd
  | fe25519ReduceFinal => exact fe25519ReduceFinal_does hd

/-- A routine that can be evaluated in a view has its pointers set there. -/
theorem FieldOp.eval_ptrs {f : FieldOp} (he : f.eval raw v = some v') :
    (∃ d, v.dst = some d) ∧ (.fe25519Src1 ∈ f.reads → ∃ a, v.src1 = some a) ∧
      (.fe25519Src2 ∈ f.reads → ∃ b, v.src2 = some b) := by
  cases f
  all_goals
    simp only [FieldOp.eval, Option.bind_eq_bind, Option.bind_eq_some_iff] at he
    obtain ⟨d, hd, he⟩ := he
    refine ⟨⟨d, hd⟩, ?_⟩
  case fe25519Copy | fe25519Sqr | fe25519MulA24 =>
    obtain ⟨a, ha, -⟩ := he
    exact ⟨fun _ => ⟨a, ha⟩, fun h => absurd h (by decide)⟩
  case fe25519Add | fe25519Sub | fe25519Mul =>
    obtain ⟨a, ha, b, hb, -⟩ := he
    exact ⟨fun _ => ⟨a, ha⟩, fun _ => ⟨b, hb⟩⟩
  all_goals exact ⟨fun h => absurd h (by decide), fun h => absurd h (by decide)⟩

/-- And from the pointers a view shows. -/
theorem FieldOp.does {f : FieldOp} (hr : Ready B s.m) (h : Shows B buf v s.m)
    (he : f.eval raw v = some v') : Does B L (f.asm B) s (f.bill B L) (f.run B s.m) := by
  obtain ⟨⟨d, hd⟩, h1, h2⟩ := FieldOp.eval_ptrs he
  have hdst := h.dst d hd
  refine FieldOp.ptr_does hr hdst fun x hx => ?_
  have hcases : ∀ f : FieldOp, ∀ x ∈ f.reads,
      x = .fe25519Src1 ∨ x = .fe25519Src2 ∨ x = .fe25519Dst := by
    intro f
    cases f <;> decide
  rcases hcases f x hx with rfl | rfl | rfl
  · obtain ⟨a, ha⟩ := h1 hx
    exact ⟨buf a, h.src1 a ha⟩
  · obtain ⟨b, hb⟩ := h2 hx
    exact ⟨buf b, h.src2 b hb⟩
  · exact ⟨buf d, hdst⟩

/-- A turn of the squaring loop. -/
theorem feInvSqrnBody_does {m : Machine} {k : ℕ}
    (hacc : buf acc = B.mem.own .fe25519Tmp2) (hr : Ready B m)
    (h : SqrnInv B buf acc W v m n k s.m) :
    Spends B L (feInvSqrnBodyAsm B) s (feInvSqrnBodyBill B L) fun t =>
      t.m = (feInvSqrnBody B s.m).1 ∧ t.nz = t.m.var .feInvSqrCnt ∧ t.stack = s.stack := by
  set m2 := (s.m.setPtr B .fe25519Src1 (B.mem.buf .fe25519Tmp2)).setPtr B .fe25519Dst
    (B.mem.buf .fe25519Tmp2) with hm2
  have haddr : B.mem.buf .fe25519Tmp2 = (buf acc).addr := (congrArg FieldBuf.addr hacc).symm
  have hshow : Shows B buf (v.squared raw acc k) m2 := by
    rw [← v.squared_aim k, hm2, haddr]
    exact h.shows.src1_set.dst_set
  have hr2 : Ready B m2 := hr.kept ((h.kept.setPtr rfl rfl).setPtr rfl rfl)
  have haim : Does B L (.block (setPtrAsm .fe25519Src1 (B.mem.buf .fe25519Tmp2) ++
      setPtrAsm .fe25519Dst (B.mem.buf .fe25519Tmp2))) s (.tick (10 + 10)) m2 :=
    Does.append setPtr_does fun t htm hts => setPtr_does.mono fun u hu =>
      ⟨by rw [hu.1, htm], hu.2.trans hts⟩
  refine Takes.seq haim ?_
  rintro t ⟨htm, hts⟩
  have hsqr : Does B L (.call (fe25519SqrAsm B)) t (fe25519SqrBill B L + .tick 12)
      (fe25519Sqr B t.m) :=
    Does.call (FieldOp.does (f := .fe25519Sqr) (s := t.push .ret) (by rw [← htm] at hr2; exact hr2)
      (by rw [← htm] at hshow; exact hshow) rfl)
  refine Takes.seq hsqr ?_
  rintro u ⟨hum, hus⟩
  refine Straight.spends (.of_quiet rfl trivial rfl)
    ⟨?_, ?_, hus.trans hts⟩
  · rw [feInvSqrnBody, ← hm2, ← htm, ← hum]
    rfl
  · exact (setVar_var_self ..).symm

/-- **The squaring loop.** -/
theorem feInvSqrnTmp2_does (hb : buf.Injective) (hacc : buf acc = B.mem.own .fe25519Tmp2)
    (hr : Ready B s.m) (hW : W (B.mem.own .fe25519Tmp2)) (h : Shows B buf v s.m) :
    Does B L (feInvSqrnTmp2Asm B) s (feInvSqrnBill B L s.a) (feInvSqrnTmp2 B s.a s.m) := by
  set n := s.a with hn
  have hpos : 0 < turns n ∧ turns n ≤ 0x100 := by
    have hlt := n.isLt
    simp only [turns]
    split <;> omega
  have h0 : SqrnInv B buf acc W v s.m n 0 (s.m.setVar .feInvSqrCnt n) := by
    refine ⟨⟨h.src1, h.src2, h.dst, h.val⟩, (Kept.refl s.m).setVar, ⟨rfl, rfl⟩, ?_⟩
    rw [setVar_var_self]
    have hlt := n.isLt
    omega
  refine Takes.seq (R := fun t => t.m = s.m.setVar .feInvSqrCnt n ∧ t.stack = s.stack)
    (Straight.spends (.of_quiet rfl trivial rfl) ⟨rfl, rfl⟩) ?_
  rintro t ⟨htm, hts⟩
  rw [← htm] at h0
  refine ((Takes.loop_doWhile (N := turns n) (m := 0x100) (f := feInvSqrnBody B) (v := Core.m)
    (J := SqrnInv B buf acc W v s.m n) (K := fun _ u => u.stack = s.stack)
    (b := fun _ => feInvSqrnBodyBill B L) hpos.1 (hpos.2.trans (Nat.le_of_ble_eq_true rfl)) hpos.2
    h0 hts (fun k hk u hu => sqrnBody_sim hb hacc hr hW hu hk) ?_).cast ?_).mono ?_
  · intro k hk u hu hus
    refine (feInvSqrnBody_does hacc hr hu).mono ?_
    rintro w ⟨hwm, hwz, hws⟩
    refine ⟨hwm, ?_, hws.trans hus⟩
    change (w.nz != 0) = _
    rw [hwz, hwm]
    rfl
  · rw [Bill.sum_const]
    rfl
  · rintro u ⟨hum, hus⟩
    exact ⟨by rw [hum, htm, feInvSqrnTmp2], hus⟩

/-- **A step of a program** costs what the instruction says. -/
theorem Instr.does {i : Instr K} (hb : buf.Injective) (hr : Ready B s.m) (h : Shows B buf v s.m)
    (he : i.eval raw acc v = some v') (hi : i.Within buf W) (hacc : i.Named buf acc) :
    Does B L (i.asm B fun k => (buf k).addr) s (i.bill B L)
      (i.run B (fun k => (buf k).addr) s.m) := by
  cases i with
  | src1 a => exact setPtr_does
  | src2 a => exact setPtr_does
  | dst a => exact setPtr_does
  | jsr f => exact Does.call (FieldOp.does (s := s.push .ret) hr h he)
  | sqrn n =>
    refine Takes.seq (R := fun t => t.m = s.m ∧ t.a = n ∧ t.stack = s.stack)
      (Straight.spends (.of_quiet rfl trivial rfl) ⟨rfl, rfl, rfl⟩) ?_
    rintro t ⟨htm, hta, hts⟩
    have hsqrn : Does B L (.call (feInvSqrnTmp2Asm B)) t (feInvSqrnBill B L t.a + .tick 12)
        (feInvSqrnTmp2 B t.a t.m) :=
      Does.call (feInvSqrnTmp2_does (s := t.push .ret) hb hacc (by rw [← htm] at hr; exact hr) hi
        (by rw [← htm] at h; exact h))
    rw [hta, htm] at hsqrn
    refine hsqrn.mono ?_
    rintro u ⟨hum, hus⟩
    exact ⟨hum, hus.trans hts⟩

/-! ## Programs -/

/-- What holds of the state a program `code` is to go on from, on its way to
the machine `m`. -/
structure Running (B : Build) (buf : K → FieldBuf B.mem) (acc : K) (W : FieldBuf B.mem → Prop)
    (m : Machine) (l : List Pushed) (code : List (Instr K)) (t : Core) : Prop where
  ready : Ready B t.m
  view : ∃ v v', Shows B buf v t.m ∧ evals raw acc code v = some v' ∧ ∀ d ∈ v.dst, W (buf d)
  within : ∀ i ∈ code, i.Within buf W ∧ i.Named buf acc
  rest : exec B (fun k => (buf k).addr) code t.m = m
  stack : t.stack = l

theorem Running.step {m : Machine} {l : List Pushed} {i : Instr K} {code : List (Instr K)}
    (hb : buf.Injective) (h : Running B buf acc W m l (i :: code) s) :
    Spends B L (i.asm B fun k => (buf k).addr) s (i.bill B L) (Running B buf acc W m l code) := by
  obtain ⟨v, v', hshow, he, hv⟩ := h.view
  rw [evals_cons, Option.bind_eq_some_iff] at he
  obtain ⟨w, hw, he⟩ := he
  obtain ⟨hi, hacc⟩ := h.within i List.mem_cons_self
  obtain ⟨hshow', hk, -, hdst⟩ := Instr.sim hb h.ready hshow hw hv hi hacc
  refine (Instr.does hb h.ready hshow hw hi hacc).mono ?_
  rintro t ⟨htm, hts⟩
  rw [← htm] at hshow' hk
  exact ⟨h.ready.kept hk, ⟨w, v', hshow', he, hdst⟩,
    fun j hj => h.within j (List.mem_cons_of_mem _ hj), by rw [htm]; exact h.rest, hts.trans h.stack⟩

/-- **A field program** costs the sum of its instructions. -/
theorem exec_does {code : List (Instr K)} (hb : buf.Injective) (hr : Ready B s.m)
    (h : Shows B buf v s.m) (he : evals raw acc code v = some v') (hv : ∀ d ∈ v.dst, W (buf d))
    (hc : ∀ i ∈ code, i.Within buf W ∧ i.Named buf acc) :
    Does B L (execAsm B (fun k => (buf k).addr) code) s (execBill B L code)
      (exec B (fun k => (buf k).addr) code s.m) :=
  (Takes.seqs (I := Running B buf acc W (exec B (fun k => (buf k).addr) code s.m) s.stack)
    (fun _ _ _ ht => ht.step hb) ⟨hr, ⟨v, v', h, he, hv⟩, hc, rfl, rfl⟩).mono
    fun _ ht => ⟨ht.rest, ht.stack⟩

/-- A program over the library's buffers. -/
theorem execOwn_does {w : View Buf ℕ} {l : List Buf} (code : List (Instr Buf)) (hr : Ready B s.m)
    (he : evals raw Buf.fe25519Tmp2 code (ownView B s.m) = some w)
    (hl : ∀ i ∈ code, i.writes ⊆ l) :
    Does B L (execAsm B B.mem.buf code) s (execBill B L code) (exec B B.mem.buf code s.m) :=
  exec_does (W := ownIn B l) own_injective hr (shows_own s.m) he (fun _ h => by cases h)
    (own_within own_mem hl)

/-! ## Inversion -/

/-- What `fe25519_inv` costs. -/
def fe25519InvBill (B : Build) (L : Link) : Bill Label :=
  .tick 14 + (execBill B L feInvCode + (.tick 14 + (fe25519MulBill B L + .tick 12 +
    .tick (fe25519ReduceFinalCycles L + 12))))

/-- The chain behind its first copy is a listing of its own. -/
theorem feInvCode_asm : execAsm B B.mem.buf feInvCode = .seq
    (.block (setPtrAsm .fe25519Dst (B.mem.buf .fe25519Tmp1)))
    (.seq (.call fe25519CopyAsm) (execAsm B B.mem.buf feInvChain)) := rfl

theorem feInvCode_bill : execBill B L feInvCode
    = .tick 10 + (.tick (fe25519CopyCycles L) + .tick 12 + execBill B L feInvChain) := by
  have hcode : feInvCode = .dst .fe25519Tmp1 :: .jsr .fe25519Copy :: feInvChain := rfl
  rw [execBill, hcode, List.map_cons, List.map_cons, List.sum_cons, List.sum_cons]
  rfl

/-- **`fe25519_inv`.** -/
theorem fe25519Inv_does (hr : Ready B s.m) (h1 : s.m.ptr B .fe25519Src1 = a.addr)
    (hd : s.m.ptr B .fe25519Dst = d.addr) :
    Does B L (fe25519InvAsm B) s (fe25519InvBill B L) (fe25519Inv B s.m) := by
  set m1 := (s.m.setVar .feInvDstLo (s.m.zp (B.slot .fe25519Dst))).setVar .feInvDstHi
    (s.m.zp (B.slot .fe25519Dst + 1)) with hm1
  have hsave : Does B L (.block [.lda (.slot .fe25519Dst), .sta (.var .feInvDstLo),
      .lda (.slotHi .fe25519Dst), .sta (.var .feInvDstHi)]) s (.tick 14) m1 :=
    Straight.spends (.of_quiet rfl trivial rfl) ⟨rfl, rfl⟩
  have hcode : ∀ t : Core, t.m = m1 → Does B L (execAsm B B.mem.buf feInvCode) t
      (execBill B L feInvCode) (exec B B.mem.buf feInvChain (fe25519Copy B (feInvStart B s.m))) := by
    intro t htm
    rw [feInvCode_asm, feInvCode_bill]
    have hstart := setPtr_does (B := B) (L := L) (s := t) (x := .fe25519Dst)
      (k := B.mem.buf .fe25519Tmp1)
    rw [htm] at hstart
    refine Takes.seq hstart ?_
    rintro u ⟨hum, hus⟩
    change u.m = feInvStart B s.m at hum
    obtain ⟨hs1, hsd⟩ := feInvStart_spec (B := B) h1
    rw [← hum] at hs1 hsd
    refine Takes.seq (Does.call (fe25519Copy_does (s := u.push .ret) hs1 hsd)) ?_
    rintro w ⟨hwm, hws⟩
    change w.m = fe25519Copy B u.m at hwm
    rw [hum] at hwm
    obtain ⟨-, hshow, hk, -, -⟩ := feInvCopied_spec (B := B) (d := d) h1
    rw [← hwm] at hshow hk ⊢
    obtain ⟨v', hv', -⟩ := feInvChain_raw (v := feInvView B w.m) rfl rfl rfl fun _ => fe_lt
    refine (exec_does own_injective (hr.kept hk) hshow hv' feInvView_within
      (feInvChain_within (d := d))).mono ?_
    rintro z ⟨hzm, hzs⟩
    exact ⟨hzm, hzs.trans (hws.trans hus)⟩
  obtain ⟨⟨he1, he2, hed⟩, hek, -⟩ := feInvEnd_spec hr h1 hd
  refine Takes.seq hsave ?_
  rintro t ⟨htm, hts⟩
  refine Takes.seq (hcode t htm) ?_
  rintro u ⟨hum, hus⟩
  have hrestore : Does B L (.block [.lda (.var .feInvDstLo), .sta (.slot .fe25519Dst),
      .lda (.var .feInvDstHi), .sta (.slotHi .fe25519Dst)]) u (.tick 14) (feInvEnd B s.m) := by
    refine Straight.spends (.of_quiet rfl trivial rfl) ⟨?_, rfl⟩
    rw [feInvEnd, ← hum]
    rfl
  refine Takes.seq hrestore ?_
  rintro w ⟨hwm, hws⟩
  rw [← hwm] at he1 he2 hed hek
  refine Takes.seq (Does.call (fe25519Mul_does (s := w.push .ret) (hr.kept hek).mul he1 he2 hed)) ?_
  rintro z ⟨hzm, hzs⟩
  have hzd : z.m.ptr B .fe25519Dst = d.addr := by
    rw [hzm]
    exact ((fe25519Mul_spec (hr.kept hek).mul he1 he2 hed).2.ptr rfl rfl).trans hed
  refine (Does.call (fe25519ReduceFinal_does (s := z.push .ret) hzd)).mono ?_
  rintro y ⟨hym, hys⟩
  refine ⟨?_, hys.trans (hzs.trans (hws.trans (hus.trans hts)))⟩
  rw [hym, fe25519Inv_end, ← hwm]
  exact congrArg (fe25519ReduceFinal B) hzm

end C64X25519
