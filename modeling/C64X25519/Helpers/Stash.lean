import C64X25519.Helpers.DoubledRow
import C64X25519.Helpers.SqtabInit
/-!
# Rows into the expansion unit

One page is stashed wherever the registers say, and autoload leaves them as
they were written. The doubling of a staged row and its three stashes follow.
-/

namespace C64X25519

open Machine

variable {B : Build} {s t u : Machine} {V W : List Var} {D : ℕ → Prop} {c a l : ℕ}

/-! ## One stash -/

/-- The variables settling reports with, as a list. -/
def settleVars : List Var := [.x25519ReuFault, .x25519ReuSettleCnt, .x25519ReuSettleSmp]

/-- What settles is an initialiser's step. -/
theorem Settles.boot (h : Settles s t) : Boot settleVars D s t where
  zp := h.zp
  ram a _ := congrFun h.ram a
  ops x _ := ⟨congrFun h.opLo x, congrFun h.opHi x⟩
  tramp := h.tramp
  var x hx := by
    simp only [settleVars, List.mem_cons, List.not_mem_nil, or_false, not_or] at hx
    exact h.var x hx.1 hx.2.1 hx.2.2
  flagI := h.flagI
  live := h.live

/-- From `s` to `t` the page at `c` has gone to the unit at bank `b` and page
`h`, and the registers that say so are what autoload puts back. -/
structure PageStashed (c : ℕ) (b h : Byte) (s t : Machine) : Prop where
  mem : t.reu.mem = blit s.reu.mem (b.toNat * 0x10000 + h.toNat * 0x100) (fun i => s.ram (c + i))
    0 0x100
  hi : t.reu.reg .reuHi = h ∧ t.reu.latch .reuHi = h
  bank : t.reu.reg .reuBank = b ∧ t.reu.latch .reuBank = b
  opLo : t.opLo = s.opLo
  opHi : t.opHi = s.opHi
  boot : Boot settleVars (fun _ => False) s t

/-- The registers of `s` are set for the stash of a page. -/
structure PageReady (c : ℕ) (b h : Byte) (s : Machine) : Prop where
  c64Lo : s.reu.reg .c64Lo = BitVec.ofNat 8 c
  c64Hi : s.reu.reg .c64Hi = BitVec.ofNat 8 (c / 0x100)
  reuLo : s.reu.reg .reuLo = 0
  lenLo : s.reu.reg .lenLo = 0
  lenHi : s.reu.reg .lenHi = 1
  ctrl : s.reu.reg .addrCtrl = 0 ∨ s.reu.reg .addrCtrl = 1
  hi : s.reu.reg .reuHi = h ∧ s.reu.latch .reuHi = h
  bank : s.reu.reg .reuBank = b ∧ s.reu.latch .reuBank = b

/-- The registers written for the stash of the page at `c` to bank `b` and page
`h`: the bank before the page or behind it, and address control last, once or
twice. -/
def pageWrites (c : ℕ) (b h : Byte) (ctrl : List Byte) (bankFirst : Bool) : List (Reg × Byte) :=
  [(.c64Lo, BitVec.ofNat 8 c), (.c64Hi, BitVec.ofNat 8 (c / 0x100)), (.reuLo, 0)] ++
    (if bankFirst then [(.reuBank, b), (.reuHi, h)] else [(.reuHi, h), (.reuBank, b)]) ++
    [(.lenLo, 0), (.lenHi, 1)] ++ ctrl.map fun v => (.addrCtrl, v)

theorem pageWrites_ready {b h : Byte} {ctrl : List Byte} {bankFirst : Bool}
    (hctrl : ctrl = [0] ∨ ctrl = [1] ∨ ctrl = [1, 0]) :
    PageReady c b h (writeRegs (pageWrites c b h ctrl bankFirst) s) := by
  rcases hctrl with rfl | rfl | rfl <;> cases bankFirst
  all_goals
    refine ⟨rfl, rfl, rfl, rfl, rfl, ?_, ⟨rfl, rfl⟩, rfl, rfl⟩
    first
      | exact .inl rfl
      | exact .inr rfl

theorem stash_spec {b h : Byte} (hlive : s.reu.live = true) (hr : RegsOnly s t)
    (hp : PageReady c b h t) (hc : c + 0x100 ≤ 0x10000) :
    PageStashed c b h s (stash B t) := by
  have hb := b.isLt
  have hh := h.isLt
  have hc64 : t.reu.c64 = c := Reu.c64_of hp.c64Lo hp.c64Hi (by omega)
  have haddr : t.reu.addr = b.toNat * 0x10000 + h.toNat * 0x100 :=
    Reu.addr_of hp.reuLo (by rw [hp.hi.1]) (by rw [hp.bank.1])
  have hlen : t.reu.len = 0x100 := Reu.len_of (l := 1) hp.lenLo (by rw [hp.lenHi]; rfl) (by omega)
  have hctl : (t.reu.reg .addrCtrl).getLsbD 7 = false ∧
      (t.reu.reg .addrCtrl).getLsbD 6 = false := by
    rcases hp.ctrl with h0 | h0 <;> rw [h0] <;> exact ⟨rfl, rfl⟩
  have hset := settles_stash (B := B) (hr.live.trans hlive)
    ⟨hctl.1, hctl.2, by omega, by omega⟩
  change Settles (stashed t) (stash B t) at hset
  have hram : t.ram = s.ram := by rw [hr.rest]
  refine ⟨?_, ⟨?_, ?_⟩, ⟨?_, ?_⟩, ?_, ?_, ?_⟩
  · rw [hset.mem, ← hr.mem, ← hram, ← haddr, ← hlen, ← hc64]
    rfl
  · rw [hset.reg]
    exact hp.hi.2
  · rw [hset.latch]
    exact hp.hi.2
  · rw [hset.reg]
    exact hp.bank.2
  · rw [hset.latch]
    exact hp.bank.2
  · rw [hset.opLo, hr.rest]
    rfl
  · rw [hset.opHi, hr.rest]
    rfl
  · have hs : Boot settleVars (fun _ => False) s (stashed t) := by
      refine ⟨?_, fun x _ => ?_, fun x _ => ⟨?_, ?_⟩, ?_, fun x _ => ?_, ?_, hr.live⟩
      all_goals
        rw [hr.rest]
        rfl
    exact hs.trans hset.boot

/-- **The stash of a page** behind the writes of its registers. -/
theorem page_stashed {b h : Byte} (ctrl : List Byte) (bankFirst : Bool)
    (hctrl : ctrl = [0] ∨ ctrl = [1] ∨ ctrl = [1, 0]) (hlive : s.reu.live = true)
    (hc : c + 0x100 ≤ 0x10000) :
    PageStashed c b h s (stash B (writeRegs (pageWrites c b h ctrl bankFirst) s)) :=
  stash_spec hlive (.writeRegs (.refl s)) (pageWrites_ready hctrl) hc

/-! ## The doubled row -/

/-- The staged pages hold the low two bytes of `v x`, for every `x`. -/
structure StagedPages (B : Build) (v : ℕ → ℕ) (s : Machine) : Prop where
  lo : ∀ x, x < 0x100 → s.ram (B.mem.mulDmaLo + x) = BitVec.ofNat 8 (v x)
  hi : ∀ x, x < 0x100 → s.ram (B.mem.mulDmaHi + x) = BitVec.ofNat 8 (v x / 0x100)

theorem StagedPages.congr {v : ℕ → ℕ} (h : StagedPages B v s) (hr : t.ram = s.ram) :
    StagedPages B v t where
  lo := fun x hx => by rw [hr]; exact h.lo x hx
  hi := fun x hx => by rw [hr]; exact h.hi x hx

/-- The doubling loop before turn `k`. -/
structure DoubleAt (B : Build) (v : ℕ → ℕ) (s : Machine) (k : ℕ) (t : Machine) : Prop where
  lo : ∀ x, x < 0x100 → t.ram (B.mem.mulDmaLo + x)
    = BitVec.ofNat 8 (if x < k then 2 * v x else v x)
  hi : ∀ x, x < 0x100 → t.ram (B.mem.mulDmaHi + x)
    = BitVec.ofNat 8 ((if x < k then 2 * v x else v x) / 0x100)
  carry : ∀ x, x < k → t.ram (B.mem.mulDmaCarry + x) = BitVec.ofNat 8 (2 * v x / 0x10000)
  rest : t = { s with ram := t.ram }
  ram : ∀ a, ¬ B.mem.staging a → t.ram a = s.ram a

/-- The bytes of a doubled word. -/
theorem double_bytes {v : ℕ} (hv : v < 0x10000) :
    (asl (BitVec.ofNat 8 v)).1 = BitVec.ofNat 8 (2 * v) ∧
      (rol (BitVec.ofNat 8 (v / 0x100)) (asl (BitVec.ofNat 8 v)).2).1
        = BitVec.ofNat 8 (2 * v / 0x100) ∧
      (rol 0 (asl (BitVec.ofNat 8 (v / 0x100))).2).1 = BitVec.ofNat 8 (2 * v / 0x10000) := by
  have h0 := asl_val (BitVec.ofNat 8 v)
  have h1 := rol_val (BitVec.ofNat 8 (v / 0x100)) (asl (BitVec.ofNat 8 v)).2
  have h2 := asl_val (BitVec.ofNat 8 (v / 0x100))
  have h3 := rol_val 0 (asl (BitVec.ofNat 8 (v / 0x100))).2
  simp only [BitVec.toNat_ofNat, show (0 : Byte).toNat = 0 from rfl] at h0 h1 h2 h3
  have hc0 := carry_le (asl (BitVec.ofNat 8 v)).2
  have hc1 := carry_le (rol (BitVec.ofNat 8 (v / 0x100)) (asl (BitVec.ofNat 8 v)).2).2
  have hc2 := carry_le (asl (BitVec.ofNat 8 (v / 0x100))).2
  have hc3 := carry_le (rol 0 (asl (BitVec.ofNat 8 (v / 0x100))).2).2
  refine ⟨BitVec.eq_of_toNat_eq ?_, BitVec.eq_of_toNat_eq ?_, BitVec.eq_of_toNat_eq ?_⟩
  all_goals
    rw [BitVec.toNat_ofNat]
    omega

theorem doubleEntry_spec {v : ℕ → ℕ} {k : ℕ} (hv : ∀ x, x < 0x100 → v x < 0x10000)
    (h : DoubleAt B v s k t) (hk : k < 0x100) : DoubleAt B v s (k + 1) (doubleEntry B k t) := by
  unfold doubleEntry
  extract_lets lo hi t1 r t2
  have hlo1 : t1.ram lo = BitVec.ofNat 8 (v k) := by
    have h0 := h.lo k hk
    rw [if_neg (lt_irrefl k)] at h0
    rw [← h0]
    exact Function.update_of_ne (by simp only [lo, MemMap.mulDmaLo, MemMap.mulDmaCarry]; omega) _ _
  have hhi0 : t.ram hi = BitVec.ofNat 8 (v k / 0x100) := by
    have h0 := h.hi k hk
    rwa [if_neg (lt_irrefl k)] at h0
  have hhi2 : t2.ram hi = BitVec.ofNat 8 (v k / 0x100) := by
    rw [← hhi0]
    exact (Function.update_of_ne (by simp only [lo, hi, MemMap.mulDmaLo, MemMap.mulDmaHi]; omega)
      _ _).trans (Function.update_of_ne
      (by simp only [hi, MemMap.mulDmaHi, MemMap.mulDmaCarry]; omega) _ _)
  obtain ⟨hb0, hb1, hb2⟩ := double_bytes (hv k hk)
  have hr : r = asl (BitVec.ofNat 8 (v k)) := by rw [← hlo1]
  have hram : (t2.setRam hi (rol (t2.ram hi) r.2).1).ram
      = Function.update (Function.update (Function.update t.ram (B.mem.mulDmaCarry + k)
          (BitVec.ofNat 8 (2 * v k / 0x10000))) lo (BitVec.ofNat 8 (2 * v k))) hi
          (BitVec.ofNat 8 (2 * v k / 0x100)) := by
    have e0 : (rol 0 (asl (t.ram hi)).2).1 = BitVec.ofNat 8 (2 * v k / 0x10000) := by
      rw [hhi0, hb2]
    have e1 : r.1 = BitVec.ofNat 8 (2 * v k) := by rw [hr, hb0]
    have e2 : (rol (t2.ram hi) r.2).1 = BitVec.ofNat 8 (2 * v k / 0x100) := by
      rw [hhi2, hr, hb1]
    rw [setRam_ram, e2, ← e0, ← e1]
    rfl
  refine ⟨fun x hx => ?_, fun x hx => ?_, fun x hx => ?_, ?_, fun a ha => ?_⟩
  · rw [hram, Function.update_of_ne (by simp only [hi, MemMap.mulDmaHi, MemMap.mulDmaLo]; omega)]
    rcases eq_or_ne x k with rfl | hne
    · rw [Function.update_self, if_pos (by omega)]
    · rw [Function.update_of_ne (by omega), Function.update_of_ne
        (by simp only [MemMap.mulDmaCarry, MemMap.mulDmaLo]; omega), h.lo x hx]
      simp only [show x < k + 1 ↔ x < k by omega]
  · rw [hram]
    rcases eq_or_ne x k with rfl | hne
    · rw [Function.update_self, if_pos (by omega)]
    · rw [Function.update_of_ne (by omega), Function.update_of_ne
        (by simp only [lo, MemMap.mulDmaHi, MemMap.mulDmaLo]; omega), Function.update_of_ne
        (by simp only [MemMap.mulDmaCarry, MemMap.mulDmaHi]; omega), h.hi x hx]
      simp only [show x < k + 1 ↔ x < k by omega]
  · rw [hram, Function.update_of_ne (by simp only [hi, MemMap.mulDmaHi, MemMap.mulDmaCarry]; omega),
      Function.update_of_ne (by simp only [lo, MemMap.mulDmaLo, MemMap.mulDmaCarry]; omega)]
    rcases eq_or_ne x k with rfl | hne
    · rw [Function.update_self]
    · rw [Function.update_of_ne (by omega)]
      exact h.carry x (by omega)
  · have hset : ∀ {w : Machine} {a : ℕ} {y : Byte}, w = { s with ram := w.ram } →
        w.setRam a y = { s with ram := (w.setRam a y).ram } := fun hw => by
      rw [hw]
      rfl
    exact hset (hset (hset h.rest))
  · rw [hram]
    simp only [lo, hi, MemMap.staging, MemMap.mulDmaLo, MemMap.mulDmaHi, MemMap.mulDmaCarry] at ha ⊢
    rw [Function.update_of_ne (by omega), Function.update_of_ne (by omega),
      Function.update_of_ne (by omega)]
    exact h.ram a ha

/-- **The doubling loop** doubles the staged row, and keeps the 17th bits. -/
theorem doubleRow_spec {v : ℕ → ℕ} (hv : ∀ x, x < 0x100 → v x < 0x10000) (h : StagedPages B v s) :
    StagedPages B (fun x => 2 * v x) (loopUp (doubleEntry B) 0x100 s) ∧
      (∀ x, x < 0x100 → (loopUp (doubleEntry B) 0x100 s).ram (B.mem.mulDmaCarry + x)
        = BitVec.ofNat 8 (2 * v x / 0x10000)) ∧
      loopUp (doubleEntry B) 0x100 s = { s with ram := (loopUp (doubleEntry B) 0x100 s).ram } ∧
      ∀ a, ¬ B.mem.staging a → (loopUp (doubleEntry B) 0x100 s).ram a = s.ram a := by
  have hrun : DoubleAt B v s 0x100 (loopUp (doubleEntry B) 0x100 s) := by
    refine loopUp_inv (DoubleAt B v s) ⟨fun x hx => ?_, fun x hx => ?_, fun x hx => ?_, rfl,
      fun _ _ => rfl⟩ fun k hk t ht => doubleEntry_spec hv ht hk
    · rw [if_neg (by omega)]
      exact h.lo x hx
    · rw [if_neg (by omega)]
      exact h.hi x hx
    · omega
  refine ⟨⟨fun x hx => ?_, fun x hx => ?_⟩, hrun.carry, hrun.rest, hrun.ram⟩
  · rw [hrun.lo x hx, if_pos hx]
  · rw [hrun.hi x hx, if_pos hx]

/-! ## The stashes of a doubled row -/

/-- The bytes of the unit that hold the doubled row of `a`: two pages in the
doubled banks, one in the carry bank. -/
def Build.dblSpan (B : Build) (a y : ℕ) : Prop :=
  (B.reuBankDoubled * 0x10000 + 0x200 * a ≤ y ∧
    y < B.reuBankDoubled * 0x10000 + 0x200 * a + 0x200) ∨
  (B.reuBankCarry * 0x10000 + 0x100 * a ≤ y ∧ y < B.reuBankCarry * 0x10000 + 0x100 * a + 0x100)

/-- From `s` to `t` the doubled row of `a` has gone to the unit. -/
structure DblStashed (B : Build) (v : ℕ → ℕ) (a : Byte) (s t : Machine) : Prop where
  lo : ∀ x, x < 0x100 → t.reu.mem (B.reuBankDoubled * 0x10000 + 0x200 * a.toNat + x)
    = BitVec.ofNat 8 (2 * v x)
  hi : ∀ x, x < 0x100 → t.reu.mem (B.reuBankDoubled * 0x10000 + 0x200 * a.toNat + 0x100 + x)
    = BitVec.ofNat 8 (2 * v x / 0x100)
  carry : ∀ x, x < 0x100 → t.reu.mem (B.reuBankCarry * 0x10000 + 0x100 * a.toNat + x)
    = BitVec.ofNat 8 (2 * v x / 0x10000)
  mem : ∀ y, ¬ B.dblSpan a.toNat y → t.reu.mem y = s.reu.mem y
  regHi : t.reu.reg .reuHi = a ∧ t.reu.latch .reuHi = a
  regBank : t.reu.reg .reuBank = BitVec.ofNat 8 B.reuBankCarry ∧
    t.reu.latch .reuBank = BitVec.ofNat 8 B.reuBankCarry
  staged : StagedPages B (fun x => 2 * v x) t
  stagedCarry : ∀ x, x < 0x100 → t.ram (B.mem.mulDmaCarry + x) = BitVec.ofNat 8 (2 * v x / 0x10000)
  opLo : t.opLo = s.opLo
  opHi : t.opHi = s.opHi
  boot : Boot settleVars B.mem.staging s t

/-- The high page of a row is the odd one. -/
theorem odd_page (a : Byte) : ((asl a).1 ||| 1).toNat = (asl a).1.toNat + 1 := by
  revert a
  decide

/-- The two stashes of a staged row put it at row `a` of its bank. -/
theorem pair_stashed {v : ℕ → ℕ} {bank : ℕ} {a : Byte} (hb : bank < 0xff)
    (hlow : PageStashed B.mem.mulDmaLo (adc (BitVec.ofNat 8 bank) 0 (asl a).2).1 (asl a).1 s t)
    (hhigh : PageStashed B.mem.mulDmaHi (adc (BitVec.ofNat 8 bank) 0 (asl a).2).1
      ((asl a).1 ||| 1) t u) (h : StagedPages B v s) :
    (∀ x, x < 0x100 → u.reu.mem (bank * 0x10000 + 0x200 * a.toNat + x) = BitVec.ofNat 8 (v x)) ∧
    (∀ x, x < 0x100 → u.reu.mem (bank * 0x10000 + 0x200 * a.toNat + 0x100 + x)
      = BitVec.ofNat 8 (v x / 0x100)) ∧
    ∀ y, ¬ (bank * 0x10000 + 0x200 * a.toNat ≤ y ∧
      y < bank * 0x10000 + 0x200 * a.toNat + 0x200) → u.reu.mem y = s.reu.mem y := by
  have hrow := row_addr bank a hb
  have hm1 := hlow.mem
  have hm2 := hhigh.mem
  rw [hrow] at hm1
  rw [odd_page, Nat.add_mul, ← Nat.add_assoc, hrow, Nat.one_mul] at hm2
  have hram : t.ram = s.ram := hlow.boot.ram_eq
  refine ⟨fun x hx => ?_, fun x hx => ?_, fun y hy => ?_⟩
  · rw [hm2, blit_of_lt (by omega), hm1, blit_add (Nat.zero_le _) hx]
    exact h.lo x hx
  · rw [hm2, blit_add (Nat.zero_le _) hx, hram]
    exact h.hi x hx
  · rw [hm2, blit_of_not fun hx => hy ⟨by omega, by omega⟩, hm1,
      blit_of_not fun hx => hy ⟨by omega, by omega⟩]

theorem x25519DblStashRow_spec {v : ℕ → ℕ} (row : Var) (hlive : s.reu.live = true)
    (hk : B.sqrDmaK ≠ 0) (hrow : row ∉ settleVars) (hv : ∀ x, x < 0x100 → v x < 0x10000)
    (h : StagedPages B v s) : DblStashed B v (s.var row) s (x25519DblStashRow B row s) := by
  have hbank := B.reuBank_le
  rw [if_neg hk] at hbank
  have hpl := B.mem.placed_stage
  obtain ⟨hst, hcy, hrest, hout⟩ := doubleRow_spec hv h
  unfold x25519DblStashRow
  extract_lets s0 s1 r s2 s3 s4 u1 s5 r' s6 s7 u2 s8 s9 s10
  set a := s.var row
  change StagedPages B _ s0 at hst
  change ∀ x, _ → s0.ram _ = _ at hcy
  change s0 = { s with ram := s0.ram } at hrest
  change ∀ a, _ → s0.ram a = _ at hout
  have hb0 : Boot settleVars B.mem.staging s s0 := by
    refine ⟨?_, hout, fun x _ => ⟨?_, ?_⟩, ?_, fun x _ => ?_, ?_, ?_⟩ <;> rw [hrest]
  have hv0 : s0.var row = a := by rw [hrest]
  have hreu0 : s0.reu = s.reu := by rw [hrest]
  have hop0 : s0.opLo = s.opLo ∧ s0.opHi = s.opHi := by
    constructor <;> rw [hrest]
  clear_value s0
  -- the low page
  have hlow : PageStashed B.mem.mulDmaLo (adc (BitVec.ofNat 8 B.reuBankDoubled) 0 (asl a).2).1
      (asl a).1 s0 u1 := by
    rw [← hv0]
    exact page_stashed [1, 0] false (.inr (.inr rfl)) (by rw [hreu0]; exact hlive)
      (by rw [MemMap.mulDmaLo]; omega)
  have hlive1 : u1.reu.live = true := by rw [hlow.boot.live, hreu0, hlive]
  have hv1 : u1.var row = a := (hlow.boot.var row hrow).trans hv0
  clear_value u1
  -- the high page
  have hhigh : PageStashed B.mem.mulDmaHi (adc (BitVec.ofNat 8 B.reuBankDoubled) 0 (asl a).2).1
      ((asl a).1 ||| 1) u1 u2 := by
    rw [← hv1]
    exact page_stashed [1] true (.inr (.inl rfl)) hlive1 (by rw [MemMap.mulDmaHi]; omega)
  have hlive2 : u2.reu.live = true := by rw [hhigh.boot.live, hlive1]
  have hv2 : u2.var row = a := (hhigh.boot.var row hrow).trans hv1
  clear_value u2
  -- the carry page
  have hcar : PageStashed B.mem.mulDmaCarry (BitVec.ofNat 8 B.reuBankCarry) a u2
      (stash B (((s10.writeReg .lenLo 0).writeReg .lenHi 1).writeReg .addrCtrl 1)) := by
    rw [← hv2]
    exact page_stashed [1] false (.inr (.inl rfl)) hlive2 (by rw [MemMap.mulDmaCarry]; omega)
  obtain ⟨t, ht⟩ : ∃ q, q = stash B (((s10.writeReg .lenLo 0).writeReg .lenHi 1).writeReg
    .addrCtrl 1) := ⟨_, rfl⟩
  rw [← ht] at hcar ⊢
  -- what the three have moved
  obtain ⟨hlo, hhi, hrest2⟩ := pair_stashed (by simp only [Build.reuBankDoubled]; omega)
    hlow hhigh hst
  have hcb : (BitVec.ofNat 8 B.reuBankCarry).toNat = B.reuBankCarry := by
    rw [BitVec.toNat_ofNat]
    exact Nat.mod_eq_of_lt (by simp only [Build.reuBankCarry]; omega)
  have hm3 := hcar.mem
  rw [hcb, Nat.mul_comm a.toNat] at hm3
  have hram2 : u2.ram = s0.ram := hhigh.boot.ram_eq.trans hlow.boot.ram_eq
  have hram3 : t.ram = s0.ram := hcar.boot.ram_eq.trans hram2
  have halt := a.isLt
  have hbanks : B.reuBankDoubled = B.reuBankCarry + 1 := rfl
  have hnone : ∀ y, False → B.mem.staging y := fun _ => False.elim
  have hsub : settleVars ⊆ settleVars := fun _ => id
  refine ⟨fun x hx => ?_, fun x hx => ?_, fun x hx => ?_, fun y hy => ?_, hcar.hi, hcar.bank,
    hst.congr hram3, fun x hx => ?_, ?_, ?_, ?_⟩
  · rw [hm3, blit_of_ge (by omega)]
    exact hlo x hx
  · rw [hm3, blit_of_ge (by omega)]
    exact hhi x hx
  · rw [hm3, blit_add (Nat.zero_le _) hx, hram2]
    exact hcy x hx
  · rw [Build.dblSpan, not_or] at hy
    rw [hm3, blit_of_not (by omega), hrest2 y hy.1, hreu0]
  · rw [hram3]
    exact hcy x hx
  · rw [hcar.opLo, hhigh.opLo, hlow.opLo, hop0.1]
  · rw [hcar.opHi, hhigh.opHi, hlow.opHi, hop0.2]
  · exact (hb0.trans (hlow.boot.mono hsub hnone)).trans ((hhigh.boot.mono hsub hnone).trans
      (hcar.boot.mono hsub hnone))

end C64X25519
