import C64X25519.Helpers.Base
import C64X25519.Helpers.SqrTables
import C64X25519.Model.Api
/-!
# What each call computes

Every public call is a function of its documented inputs, written down
without a machine: `Call.fn`. The machine computes it from any state in
which the library is ready, whatever else that state holds.
-/

namespace C64X25519

open Machine

variable {B : Build} {s t : Machine} {a d : FieldBuf B.mem} {n : ℕ}

/-! ## Bytes and numbers -/

/-- The number in a list of bytes, low byte first. -/
def leNum (l : List Byte) : ℕ := leNat (fun i => l.getD i 0) l.length

/-- The first `n` bytes of a number. -/
def leBytes (n m : ℕ) : List Byte := (List.range n).map fun i => BitVec.ofNat 8 (m / 256 ^ i)

theorem leNum_window (k : ℕ) : leNum (s.window k n) = leNat (fun i => s.ram (k + i)) n := by
  rw [leNum, Machine.window, List.length_map, List.length_range]
  refine leNat_congr fun i hi => ?_
  simp [hi]

theorem window_eq {k m : ℕ} (h : leNat (fun i => s.ram (k + i)) n = m) :
    s.window k n = leBytes n m := by
  refine List.map_congr_left fun i hi => ?_
  rw [← h]
  exact byte_of_leNat (f := fun i => s.ram (k + i)) (List.mem_range.1 hi)

/-! ## The functions -/

/-- The number a field routine leaves, from those of its operands. -/
def FieldOp.value : FieldOp → List ℕ → ℕ
  | .fe25519Copy, [a] => a
  | .fe25519One, [] => 1
  | .fe25519Add, [a, b] => addMod a b
  | .fe25519Sub, [a, b] => subMod a b
  | .fe25519Mul, [a, b] => reduceWide (a * b)
  | .fe25519Sqr, [a] => reduceWide (a ^ 2)
  | .fe25519MulA24, [a] => 121665 * a % p
  | .fe25519ReduceFinal, [a] => a % p
  | _, _ => 0

/-- A page of a row, from its entries. -/
def rowPage (f : ℕ → ℕ) : List Byte := (List.range 0x100).map fun x => BitVec.ofNat 8 (f x)

/-- **The outputs of a call from its inputs.** -/
def Call.fn : Call → List (List Byte) → List (List Byte)
  | .jsr f, l => [leBytes 32 (f.value (l.map leNum))]
  | .fe25519Inv, [a] => [leBytes 32 ((leNum a : ZMod p) ^ (p - 2)).val]
  | .fe25519Cswap m, [a, b] => [List.zipWith (swapByte m) a b, List.zipWith (swapByte m) b a]
  | .x25519Clamp, [k] => [leBytes 32 (clampScalar (leNum k))]
  | .x25519Scalarmult, [k, u] =>
      [leBytes 32 (x25519 (leNum k) ((leNum u % 2 ^ 255 : ℕ) : ZMod p)).val]
  | .x25519Base, [k] =>
      [leBytes 32 (x25519 (clampScalar (leNum k)) 9).val, leBytes 32 9,
        leBytes 32 (clampScalar (leNum k))]
  | .reuFetchMulRow a, _ =>
      [rowPage fun x => a.toNat * x, rowPage fun x => a.toNat * x / 0x100]
  | .reuFetchDoubledRow, [[v]] =>
      [rowPage fun x => 2 * (v.toNat * x), rowPage fun x => 2 * (v.toNat * x) / 0x100,
        rowPage fun x => 2 * (v.toNat * x) / 0x10000]
  | _, _ => []

/-! ## Field routines -/

/-- **The field routines**, from their pointers. -/
theorem FieldOp.run_spec {f : FieldOp} (hr : Ready B s) (hd : s.ptr B .fe25519Dst = d.addr)
    (hsrc : ∀ x ∈ f.reads, ∃ a : FieldBuf B.mem, s.ptr B x = a.addr) :
    (f.run B s).fe d.addr = f.value (f.reads.map fun x => s.fe (s.ptr B x)) ∧
      Frame B d.dirty s (f.run B s) := by
  have hspan : ∀ {t}, Frame B d.span s t → Frame B d.dirty s t :=
    fun hf => hf.mono fun _ => .inl
  have h1 : .fe25519Src1 ∈ f.reads → ∃ a : FieldBuf B.mem, s.ptr B .fe25519Src1 = a.addr :=
    fun hx => hsrc _ hx
  have h2 : .fe25519Src2 ∈ f.reads → ∃ b : FieldBuf B.mem, s.ptr B .fe25519Src2 = b.addr :=
    fun hx => hsrc _ hx
  cases f
  case fe25519Copy =>
    obtain ⟨a, ha⟩ := h1 (by decide)
    obtain ⟨hfe, hf⟩ := fe25519Copy_spec ha hd
    refine ⟨hfe.trans ?_, hspan hf⟩
    simp [reads, value, ha]
  case fe25519Zero =>
    exact ⟨fe25519Zero_fe hd, hspan (fe25519Zero_spec hd).2.1⟩
  case fe25519One =>
    obtain ⟨hfe, hf⟩ := fe25519One_spec hd
    exact ⟨hfe, hspan hf⟩
  case fe25519Add =>
    obtain ⟨a, ha⟩ := h1 (by decide)
    obtain ⟨b, hb⟩ := h2 (by decide)
    obtain ⟨hfe, hf⟩ := fe25519Add_spec ha hb hd
    refine ⟨hfe.trans ?_, hspan hf⟩
    simp [reads, value, ha, hb]
  case fe25519Sub =>
    obtain ⟨a, ha⟩ := h1 (by decide)
    obtain ⟨b, hb⟩ := h2 (by decide)
    obtain ⟨hfe, hf⟩ := fe25519Sub_spec ha hb hd
    refine ⟨hfe.trans ?_, hspan hf⟩
    simp [reads, value, ha, hb]
  case fe25519Mul =>
    obtain ⟨a, ha⟩ := h1 (by decide)
    obtain ⟨b, hb⟩ := h2 (by decide)
    obtain ⟨hfe, hf⟩ := fe25519Mul_spec hr.mul ha hb hd
    refine ⟨hfe.trans ?_, hf⟩
    simp [reads, value, ha, hb]
  case fe25519Sqr =>
    obtain ⟨a, ha⟩ := h1 (by decide)
    obtain ⟨hfe, hf⟩ := fe25519Sqr_spec hr ha hd
    refine ⟨hfe.trans ?_, hf⟩
    simp [reads, value, ha]
  case fe25519MulA24 =>
    obtain ⟨a, ha⟩ := h1 (by decide)
    obtain ⟨hfe, hf⟩ := fe25519MulA24_spec ha hd
    refine ⟨hfe.trans ?_, hf⟩
    simp [reads, value, ha]
  case fe25519ReduceFinal =>
    obtain ⟨hfe, hf⟩ := fe25519ReduceFinal_spec hd
    refine ⟨hfe.trans ?_, hspan hf⟩
    simp [reads, value, hd]

/-! ## Row fetches -/

theorem Kept.of_boot {S : Slot → Bool} {V : List Var} {D : ℕ → Prop} (h : Boot V D s t)
    (hm : t.reu.mem = s.reu.mem) : Kept B S D s t :=
  ⟨h.ram, fun _ _ => by rw [h.zp], h.flagI, hm, h.live⟩

theorem MulRows.rowAt (h : MulRows B s) (a : Byte) : MulRowAt B s.reu.mem a.toNat := by
  intro x hx
  have hlo := h.lo a (BitVec.ofNat 8 x)
  have hhi := h.hi a (BitVec.ofNat 8 x)
  rw [BitVec.toNat_ofNat, Nat.mod_eq_of_lt hx] at hlo hhi
  exact ⟨hlo, hhi⟩

/-- **`reu_fetch_mul_row`**, from any registers. -/
theorem reuFetchMulRow_spec (hlive : s.reu.live = true) (hrows : MulRows B s) (a : Byte) :
    StagedPages B (fun x => a.toNat * x) (reuFetchMulRow B a s) ∧
      Kept B (fun _ => true) B.mem.staging s (reuFetchMulRow B a s) := by
  have hfetch := reuFetchMulRow_fetched (B := B) hlive a
  obtain ⟨t, ht⟩ : ∃ q, q = reuFetchMulRow B a s := ⟨_, rfl⟩
  rw [← ht] at hfetch ⊢
  have hrow := hrows.rowAt a
  have hkept : Kept B (fun _ => true) B.mem.staging (s.setVar .mulCachedA a) t :=
    .of_boot (hfetch.boot fun x h1 h2 => ⟨h1, by omega⟩) hfetch.mem
  refine ⟨⟨fun x hx => ?_, fun x hx => ?_⟩, (Kept.refl s).setVar.trans hkept⟩
  · rw [hfetch.ram, ← (hrow x hx).1]
    exact blit_add (Nat.zero_le _) (by omega)
  · rw [hfetch.ram, ← (hrow x hx).2, MemMap.mulDmaHi, Nat.add_assoc,
      blit_add (Nat.zero_le _) (by omega), ← Nat.add_assoc]
    rfl

/-- The entries of a fetched doubled row, page by page. -/
theorem DoubledAt.pages {v : Byte} (h : DoubledAt B v s t) {x : ℕ} (hx : x < 0x100) :
    t.ram (B.mem.mulDmaLo + x) = BitVec.ofNat 8 (2 * (v.toNat * x)) ∧
      t.ram (B.mem.mulDmaHi + x) = BitVec.ofNat 8 (2 * (v.toNat * x) / 0x100) ∧
      t.ram (B.mem.mulDmaCarry + x) = BitVec.ofNat 8 (2 * (v.toNat * x) / 0x10000) := by
  have hentry := h.entry (BitVec.ofNat 8 x)
  have hcarry := h.carry (BitVec.ofNat 8 x)
  rw [BitVec.toNat_ofNat, Nat.mod_eq_of_lt hx] at hentry hcarry
  rw [Nat.mul_assoc] at hentry
  have hlo := (t.ram (B.mem.mulDmaLo + x)).isLt
  have hhi := (t.ram (B.mem.mulDmaHi + x)).isLt
  refine ⟨BitVec.eq_of_toNat_eq ?_, BitVec.eq_of_toNat_eq ?_, BitVec.eq_of_toNat_eq ?_⟩
  all_goals
    rw [BitVec.toNat_ofNat]
    omega

/-! ## Every call -/

/-- The library's buffers a call works in. -/
def Call.worksOwn : Call → List Buf
  | .fe25519Inv => invBufs
  | .x25519Clamp => [.x25Scalar]
  | .x25519Scalarmult => x25519Bufs
  | .x25519Base => baseBufs
  | _ => []

/-- The buffers a call made in the state `s` may change. -/
def Call.touched (B : Build) (c : Call) (s : Machine) (a : FieldBuf B.mem) : Prop :=
  (∃ x ∈ c.writes, s.ptr B x = a.addr) ∨ ownIn B c.worksOwn a

theorem window_rowPage {k : ℕ} {f : ℕ → ℕ}
    (h : ∀ x, x < 0x100 → s.ram (k + x) = BitVec.ofNat 8 (f x)) : s.window k 0x100 = rowPage f :=
  List.map_congr_left fun x hx => h x (List.mem_range.1 hx)

theorem window_swapByte {k l e : ℕ} {m : Byte}
    (h : ∀ i, i < n → t.ram (e + i) = swapByte m (s.ram (k + i)) (s.ram (l + i))) :
    t.window e n = List.zipWith (swapByte m) (s.window k n) (s.window l n) := by
  rw [Machine.window, Machine.window, Machine.window, List.zipWith_map, List.zipWith_self]
  exact List.map_congr_left fun i hi => h i (List.mem_range.1 hi)

/-- From `s` to `t` a call has computed its function, and changed no more
than its results and what it works in. -/
structure Call.Computes (B : Build) (c : Call) (s t : Machine) : Prop where
  outputs : c.outputs B s t = c.fn (c.inputs B s)
  kept : Kept B (fun _ => true) (dirty B (c.touched B s)) s t

section Run

variable {c : Call}

/-- What a call in the library's own buffers changes. -/
theorem Call.touched_own {l : List Buf} (hl : l ⊆ c.worksOwn) {x : ℕ} (h : dirty B (ownIn B l) x) :
    dirty B (c.touched B s) x := by
  rcases h with ⟨d, ⟨k, hk, rfl⟩, hs⟩ | hw
  · exact .inl ⟨_, .inr ⟨k, hl hk, rfl⟩, hs⟩
  · exact .inr hw

theorem Call.jsr_spec {f : FieldOp} (hr : Ready B s) (hv : (Call.jsr f).Valid B s) :
    (Call.jsr f).Computes B s (f.run B s) := by
  obtain ⟨d, hd⟩ := hv.ptr .fe25519Dst (List.mem_append_right _ (List.mem_singleton_self _))
  obtain ⟨hfe, hf⟩ := FieldOp.run_spec hr hd fun x hx => hv.ptr x (List.mem_append_left _ hx)
  have hin : (List.map (fun x => s.window (s.ptr B x) 32) f.reads).map leNum
      = f.reads.map fun x => s.fe (s.ptr B x) := by
    rw [List.map_map]
    refine List.map_congr_left fun x _ => ?_
    rw [Function.comp_apply, leNum_window, Machine.fe]
  refine ⟨?_, (Kept.of_frame hf).widen.mono fun x => dirty_of (.inl ⟨_, by simp [writes], hd⟩)⟩
  simp only [Call.outputs, inputs, fn, writes, reads, readsOwn, writesOwn, pages, List.map_cons,
    List.map_nil, List.append_nil, reduceCtorEq, if_false, hin, hd]
  rw [window_eq hfe]

theorem Call.fe25519Inv_spec (hr : Ready B s) (hv : Call.fe25519Inv.Valid B s) :
    Call.fe25519Inv.Computes B s (C64X25519.fe25519Inv B s) := by
  obtain ⟨a, ha⟩ := hv.ptr .fe25519Src1 (by decide)
  obtain ⟨d, hd⟩ := hv.ptr .fe25519Dst (by decide)
  obtain ⟨hfe, -, hk⟩ := C64X25519.fe25519Inv_spec hr ha hd
  refine ⟨?_, hk.widen.mono fun x => ?_⟩
  · simp only [Call.outputs, inputs, fn, writes, reads, readsOwn, writesOwn, pages, List.map_cons,
      List.map_nil, List.append_nil, reduceCtorEq, if_false, leNum_window, ha, hd]
    rw [window_eq hfe, Machine.fe]
  · rintro (⟨e, rfl | he, hs⟩ | hw)
    · exact .inl ⟨_, .inl ⟨_, by decide, hd⟩, hs⟩
    · exact .inl ⟨_, .inr he, hs⟩
    · exact .inr hw

theorem Call.fe25519Cswap_spec {m : Byte} (hv : (Call.fe25519Cswap m).Valid B s) :
    (Call.fe25519Cswap m).Computes B s (C64X25519.fe25519Cswap B m s) := by
  obtain ⟨a, ha⟩ := hv.ptr .fe25519Src1 (by simp [reads])
  obtain ⟨b, hb⟩ := hv.ptr .fe25519Src2 (by simp [reads])
  have h := C64X25519.fe25519Cswap_spec (m := m) ha hb
  refine ⟨?_, (Kept.of_frame h.frame).widen.mono fun x hx => ?_⟩
  · simp only [Call.outputs, inputs, fn, writes, reads, readsOwn, writesOwn, pages, List.map_cons,
      List.map_nil, List.append_nil, reduceCtorEq, if_false, ha, hb]
    rw [window_swapByte fun i hi => (h.fst i hi).trans (if_pos (Nat.zero_le i)),
      window_swapByte fun i hi => (h.snd i hi).trans (if_pos (Nat.zero_le i))]
  · rcases hx with hx | hx
    · exact .inl ⟨a, .inl ⟨_, by simp [writes], ha⟩, hx⟩
    · exact .inl ⟨b, .inl ⟨_, by simp [writes], hb⟩, hx⟩

theorem Call.x25519Clamp_spec :
    Call.x25519Clamp.Computes B s (C64X25519.x25519Clamp B s) := by
  obtain ⟨hres, hf⟩ := C64X25519.x25519Clamp_spec (B := B) (s := s)
  refine ⟨?_, (Kept.of_frame hf).widen.mono fun x hx =>
    .inl ⟨_, .inr (own_mem .x25Scalar (by decide)), hx⟩⟩
  simp only [Call.outputs, inputs, fn, writes, reads, readsOwn, writesOwn, pages, List.map_cons,
    List.map_nil, List.append_nil, List.nil_append, reduceCtorEq, if_false, leNum_window]
  rw [window_eq hres, scalar, Machine.fe]

theorem Call.x25519Scalarmult_spec (hr : Ready B s) :
    Call.x25519Scalarmult.Computes B s (C64X25519.x25519Scalarmult B s) := by
  obtain ⟨hres, hk⟩ := C64X25519.x25519Scalarmult_spec hr
  refine ⟨?_, hk.mono fun x => touched_own fun _ => id⟩
  simp only [Call.outputs, inputs, fn, writes, reads, readsOwn, writesOwn, pages, List.map_cons,
    List.map_nil, List.append_nil, List.nil_append, reduceCtorEq, if_false, leNum_window]
  rw [window_eq hres, scalar, uCoord, Machine.fe, Machine.fe]

theorem Call.x25519Base_spec (hr : Ready B s) (hb : BasePoint B s) :
    Call.x25519Base.Computes B s (C64X25519.x25519Base B s) := by
  obtain ⟨hres, hu, hn, hk⟩ := C64X25519.x25519Base_spec hr hb
  refine ⟨?_, hk.mono fun x => touched_own fun _ => id⟩
  simp only [Call.outputs, inputs, fn, writes, reads, readsOwn, writesOwn, pages, List.map_cons,
    List.map_nil, List.append_nil, List.nil_append, reduceCtorEq, if_false, leNum_window]
  rw [window_eq hres, window_eq hu, window_eq hn, scalar, Machine.fe]

theorem Call.reuFetchMulRow_spec {a : Byte} (hr : Ready B s)
    (hv : (Call.reuFetchMulRow a).Valid B s) :
    (Call.reuFetchMulRow a).Computes B s (C64X25519.reuFetchMulRow B a s) := by
  have hon := hv.mulRow a rfl
  obtain ⟨hst, hk⟩ := C64X25519.reuFetchMulRow_spec (hr.live hon) (hr.mulRows hon) a
  refine ⟨?_, hk.mono fun _ hx => .inr (staging_work hx)⟩
  simp only [Call.outputs, fn, writes, writesOwn, pages, List.map_cons, List.map_nil, List.nil_append]
  rw [window_rowPage hst.lo, window_rowPage hst.hi]

theorem Call.reuFetchDoubledRow_spec (hr : Ready B s) (hv : Call.reuFetchDoubledRow.Valid B s) :
    Call.reuFetchDoubledRow.Computes B s (C64X25519.reuFetchDoubledRow B s) := by
  have hK := hv.doubledRow rfl
  have hon : B.onchip = false := by
    by_contra h
    exact hK (B.sqrDmaK_onchip (by simpa using h))
  have h := C64X25519.reuFetchDoubledRow_spec (hr.live hon) hK (hr.doubled hK)
  refine ⟨?_, (Kept.of_frame h.frame).widen.mono fun _ hx => .inr (.inl hx)⟩
  simp only [Call.outputs, inputs, fn, writes, reads, readsOwn, writesOwn, pages, List.map_cons,
    List.map_nil, List.nil_append, if_true]
  rw [window_rowPage fun x hx => (h.pages hx).1, window_rowPage fun x hx => (h.pages hx).2.1,
    window_rowPage fun x hx => (h.pages hx).2.2]

/-- **Every call computes its function**, in any state in which the library
is ready. -/
theorem Call.run_spec (hr : Ready B s) (hb : BasePoint B s) (hv : c.Valid B s) :
    c.Computes B s (c.run B s) := by
  cases c with
  | jsr f => exact jsr_spec hr hv
  | fe25519Inv => exact fe25519Inv_spec hr hv
  | fe25519Cswap m => exact fe25519Cswap_spec hv
  | x25519Clamp => exact x25519Clamp_spec
  | x25519Scalarmult => exact x25519Scalarmult_spec hr
  | x25519Base => exact x25519Base_spec hr hb
  | reuFetchMulRow a => exact reuFetchMulRow_spec hr hv
  | reuFetchDoubledRow => exact reuFetchDoubledRow_spec hr hv

end Run

end C64X25519
