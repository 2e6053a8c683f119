import C64X25519.Helpers.Prompt
import C64X25519.Helpers.SqrTables
/-!
# The tables of the expansion unit

What the two initialisers build from any state, that a second run changes
nothing, and that a build which takes its product rows from another library
reaches the same tables.
-/

namespace C64X25519

open Machine

variable {B : Build} {s t : Machine}

/-! ## Banks -/

/-- The row of `a` starts in the bank its bit 7 selects. -/
theorem row_offset (bank : ℕ) (a : Byte) :
    (bank + a.toNat / 0x80) * 0x10000 + a.toNat * 0x200 % 0x10000
      = bank * 0x10000 + 0x200 * a.toNat := by
  omega

/-- What the rows cover lies in the banks the build claims. -/
theorem banksUsed_of_span {a y : ℕ} (hon : B.onchip = false) (ha : a < 0x100)
    (h : B.rowSpan a y ∨ (B.sqrDmaK ≠ 0 ∧ B.dblSpan a y)) :
    B.reuBanksUsed.testBit (y / 0x10000) = true := by
  have hd : B.reuBankDoubled = B.reuBank + 4 := rfl
  have hc : B.reuBankCarry = B.reuBank + 3 := rfl
  have hbit : ∀ {m i : ℕ}, m.testBit i = true → y / 0x10000 = B.reuBank + i →
      (m <<< B.reuBank).testBit (y / 0x10000) = true := fun {m i} hi hy => by
    rw [hy, Nat.testBit_shiftLeft, Nat.add_sub_cancel_left, hi]
    simp
  rw [Build.reuBanksUsed, hon, if_neg Bool.false_ne_true]
  rw [Build.rowSpan, Build.dblSpan] at h
  by_cases hk : B.sqrDmaK = 0
  · rw [if_neg (not_not_intro hk)]
    have hy : y / 0x10000 = B.reuBank ∨ y / 0x10000 = B.reuBank + 1 := by omega
    rcases hy with hy | hy
    · exact hbit (i := 0) (by decide) hy
    · exact hbit (by decide) hy
  · rw [if_pos hk]
    have hy : y / 0x10000 = B.reuBank ∨ y / 0x10000 = B.reuBank + 1 ∨
        y / 0x10000 = B.reuBank + 3 ∨ y / 0x10000 = B.reuBank + 4 ∨
        y / 0x10000 = B.reuBank + 5 := by omega
    rcases hy with hy | hy | hy | hy | hy
    · exact hbit (i := 0) (by decide) hy
    all_goals exact hbit (by decide) hy

/-! ## A second run -/

/-- A table is where its entries say. -/
theorem Sqtab.ram_eq (h : Sqtab B s) (h' : Sqtab B t) {x : ℕ} (hx : B.mem.table x) :
    t.ram x = s.ram x := by
  obtain ⟨h1, h2⟩ := hx
  obtain ⟨n, rfl⟩ := Nat.exists_eq_add_of_le h1
  rcases Nat.lt_or_ge n 0x200 with hlt | hge
  · exact (h'.lo n hlt).trans (h.lo n hlt).symm
  · obtain ⟨m, rfl⟩ := Nat.exists_eq_add_of_le hge
    rw [← Nat.add_assoc]
    exact (h'.hi m (by omega)).trans (h.hi m (by omega)).symm

theorem StagedPages.ram_eq {v : ℕ → ℕ} (h : StagedPages B v s) (h' : StagedPages B v t) {x : ℕ}
    (hx : B.mem.rowPages x) : t.ram x = s.ram x := by
  obtain ⟨h1, h2⟩ := hx
  obtain ⟨n, rfl⟩ := Nat.exists_eq_add_of_le h1
  rcases Nat.lt_or_ge n 0x100 with hlt | hge
  · exact (h'.lo n hlt).trans (h.lo n hlt).symm
  · obtain ⟨m, rfl⟩ := Nat.exists_eq_add_of_le hge
    rw [← Nat.add_assoc]
    exact (h'.hi m (by omega)).trans (h.hi m (by omega)).symm

theorem RowEnd.ram_eq {a : Byte} (h : RowEnd B a s) (h' : RowEnd B a t)
    (hk : B.sqrDmaK = 0 → ∀ x, x < 0x100 →
      t.ram (B.mem.mulDmaCarry + x) = s.ram (B.mem.mulDmaCarry + x))
    {x : ℕ} (hx : B.mem.staging x) : t.ram x = s.ram x := by
  obtain ⟨h1, h2⟩ := hx
  rcases Nat.lt_or_ge x (B.mem.stage + 0x200) with hlt | hge
  · exact h.staged.ram_eq h'.staged ⟨h1, hlt⟩
  · obtain ⟨n, rfl⟩ := Nat.exists_eq_add_of_le hge
    by_cases h0 : B.sqrDmaK = 0
    · exact hk h0 n (by omega)
    · exact (h'.carry h0 n (by omega)).trans (h.carry h0 n (by omega)).symm

theorem MulRowAt.mem_eq {m m' : ℕ → Byte} {a y : ℕ} (h : MulRowAt B m a) (h' : MulRowAt B m' a)
    (hy : B.rowSpan a y) : m' y = m y := by
  obtain ⟨h1, h2⟩ := hy
  obtain ⟨n, rfl⟩ := Nat.exists_eq_add_of_le h1
  rcases Nat.lt_or_ge n 0x100 with hlt | hge
  · exact (h' n hlt).1.trans (h n hlt).1.symm
  · obtain ⟨m, rfl⟩ := Nat.exists_eq_add_of_le hge
    rw [← Nat.add_assoc]
    exact (h' m (by omega)).2.trans (h m (by omega)).2.symm

theorem DblRowAt.mem_eq {m m' : ℕ → Byte} {a y : ℕ} (h : DblRowAt B m a) (h' : DblRowAt B m' a)
    (hy : B.dblSpan a y) : m' y = m y := by
  rcases hy with ⟨h1, h2⟩ | ⟨h1, h2⟩
  · obtain ⟨n, rfl⟩ := Nat.exists_eq_add_of_le h1
    rcases Nat.lt_or_ge n 0x100 with hlt | hge
    · exact (h' n hlt).1.trans (h n hlt).1.symm
    · obtain ⟨m, rfl⟩ := Nat.exists_eq_add_of_le hge
      rw [← Nat.add_assoc]
      exact (h' m (by omega)).2.1.trans (h m (by omega)).2.1.symm
  · obtain ⟨n, rfl⟩ := Nat.exists_eq_add_of_le h1
    exact (h' n (by omega)).2.2.trans (h n (by omega)).2.2.symm

/-- **A second run changes nothing** but what settling reports with. -/
theorem tablesInit_settles (hlive : s.reu.live = true) :
    Settles (tablesInit B s) (tablesInit B (tablesInit B s)) := by
  obtain ⟨hq, h⟩ := tablesInit_spec (B := B) hlive
  obtain ⟨-, hvar0, -, hboot0⟩ := sqtabInit_spec (B := B) s
  obtain ⟨t, ht⟩ : ∃ q, q = tablesInit B s := ⟨_, rfl⟩
  rw [← ht] at hq h ⊢
  have hlivet : t.reu.live = true := by rw [h.boot.live, hboot0.live, hlive]
  obtain ⟨hq', h'⟩ := tablesInit_spec (B := B) hlivet
  obtain ⟨-, hvar1, hreu1, hboot1⟩ := sqtabInit_spec (B := B) t
  obtain ⟨hlo1, hhi1⟩ := sqtabInit_ops (B := B) t
  obtain ⟨w, hw⟩ : ∃ q, q = tablesInit B t := ⟨_, rfl⟩
  rw [← hw] at hq' h' ⊢
  obtain ⟨u, hu⟩ : ∃ q, q = sqtabInit B t := ⟨_, rfl⟩
  rw [← hu] at h' hvar1 hreu1 hboot1 hlo1 hhi1
  obtain ⟨-, ⟨hsq, -⟩, -⟩ := B.mem.regions_apart
  have hram1 : ∀ x, ¬ B.mem.table x → u.ram x = t.ram x := hboot1.ram
  have hcarry : B.sqrDmaK = 0 → ∀ x, x < 0x100 →
      w.ram (B.mem.mulDmaCarry + x) = t.ram (B.mem.mulDmaCarry + x) := fun h0 x hx => by
    simp only [Apart] at hsq
    refine (h'.carryPage h0 x).trans (hram1 _ ?_)
    simp only [MemMap.table, MemMap.mulDmaCarry]
    omega
  refine ⟨h'.boot.zp.trans hboot1.zp, funext fun x => ?_, funext fun x => ?_, funext fun x => ?_,
    h'.boot.tramp.trans hboot1.tramp, fun x hx0 hx1 hx2 => ?_, h'.boot.flagI.trans hboot1.flagI,
    funext fun x => ?_, funext fun x => ?_, funext fun y => ?_, h'.boot.live.trans hboot1.live⟩
  · by_cases htab : B.mem.table x
    · exact hq.ram_eq hq' htab
    by_cases hst : B.mem.staging x
    · exact h.rowEnd.ram_eq h'.rowEnd hcarry hst
    · exact (h'.boot.ram x hst).trans (hram1 x htab)
  · by_cases hsum : x = .smcSumAImm
    · rw [hsum, h'.rowEnd.left.baked.1, h.rowEnd.left.baked.1]
    by_cases hdiff : x = .smcDiffAImm
    · rw [hdiff, h'.rowEnd.left.baked.2, h.rowEnd.left.baked.2]
    · rw [h'.opLo x hsum hdiff, hlo1]
  · by_cases hlo : x = .smcLoAddr
    · rw [hlo, h'.rowEnd.left.pages _ (by simp), h.rowEnd.left.pages _ (by simp)]
    by_cases hhi : x = .smcHiAddr
    · rw [hhi, h'.rowEnd.left.pages _ (by simp), h.rowEnd.left.pages _ (by simp)]
    · rw [h'.opHi x hlo hhi, hhi1]
  · have hset : x ∉ settleVars := by simp [settleVars, hx0, hx1, hx2]
    by_cases ha : x = .reuInitA
    · rw [ha, h'.count, h.count]
    by_cases hb : x = .reuInitB
    · rw [hb, h'.rowEnd.count, h.rowEnd.count]
    by_cases hct : x ∈ ctVars
    · rw [h'.rowEnd.left.var x hct, h.rowEnd.left.var x hct]
    have hinit : x ∉ initVars := by simp [initVars, rowVars, ha, hb, hct, hset]
    rw [h'.boot.var x hinit]
    by_cases hsqv : x ∈ sqVars
    · rw [hvar1 x hsqv, h.boot.var x hinit, hvar0 x hsqv]
    · exact hboot1.var x hsqv
  · by_cases hhi : x = .reuHi
    · rw [hhi, (h'.rowEnd.regHi _ rfl).1, (h.rowEnd.regHi _ rfl).1]
    by_cases hbk : x = .reuBank
    · rw [hbk, (h'.rowEnd.regBank _ rfl).1, (h.rowEnd.regBank _ rfl).1]
    · rw [(h'.latch x hhi hbk).1, (h.latch x hhi hbk).1]
  · by_cases hhi : x = .reuHi
    · rw [hhi, (h'.rowEnd.regHi _ rfl).2, (h.rowEnd.regHi _ rfl).2]
    by_cases hbk : x = .reuBank
    · rw [hbk, (h'.rowEnd.regBank _ rfl).2, (h.rowEnd.regBank _ rfl).2]
    · rw [(h'.latch x hhi hbk).2, (h.latch x hhi hbk).2]
  · by_cases hrow : ∃ a, a < 0x100 ∧ B.rowSpan a y
    · obtain ⟨a, ha, hy⟩ := hrow
      exact (h.rows a ha).mem_eq (h'.rows a ha) hy
    by_cases hdbl : B.sqrDmaK ≠ 0 ∧ ∃ a, a < 0x100 ∧ B.dblSpan a y
    · obtain ⟨h0, a, ha, hy⟩ := hdbl
      exact (h.dbl h0 a ha).mem_eq (h'.dbl h0 a ha) hy
    · rw [h'.mem y fun a ha => ⟨fun hy => hrow ⟨a, ha, hy⟩, fun h0 hy => hdbl ⟨h0, a, ha, hy⟩⟩,
        hreu1]

/-- Where every transfer completes, settling has nothing to report either. -/
theorem tablesInit_prompt (hlive : s.reu.live = true) (hc : Completes s) (x : Var) :
    (tablesInit B (tablesInit B s)).var x = (tablesInit B s).var x := by
  have hboot := fun u : Machine => (sqtabInit_spec (B := B) u)
  have hstatus : ∀ {u : Machine}, Completes u → Completes (sqtabInit B u) := fun {u} hu => by
    rw [Completes, (hboot u).2.2.1]
    exact hu
  obtain ⟨hc1, hv1⟩ := reuMulInit_prompt (B := B) (hstatus hc)
  change Completes (tablesInit B s) at hc1
  by_cases hx : x ∈ settleVars
  · obtain ⟨-, hv2⟩ := reuMulInit_prompt (B := B) (hstatus hc1)
    have hsq : x ∉ sqVars := by
      revert hx
      cases x <;> decide
    refine (hv2 x hx).trans ?_
    rw [(hboot _).2.2.2.var x hsq]
    split
    · next he => exact ((hv1 x hx).trans (if_pos he)).symm
    · rfl
  · simp only [settleVars, List.mem_cons, List.not_mem_nil, or_false, not_or] at hx
    exact (tablesInit_settles hlive).var x hx.1 hx.2.1 hx.2.2

/-- The fetch latch: the staging pages, a row of 512 bytes at the start of a
page, both addresses counting up, and the same behind autoload. -/
structure CanonicalLatch (B : Build) (t : Machine) : Prop where
  c64 : t.reu.c64 = B.mem.mulDmaLo
  len : t.reu.len = 0x200
  reuLo : t.reu.reg .reuLo = 0
  addrCtrl : t.reu.reg .addrCtrl = 0
  latch : t.reu.latch = t.reu.reg

theorem LatchReset.canonical (h : LatchReset B t)
    (hhi : t.reu.latch .reuHi = t.reu.reg .reuHi)
    (hbank : t.reu.latch .reuBank = t.reu.reg .reuBank) : CanonicalLatch B t := by
  have hpl := B.mem.placed_stage
  have hreg := fun x h1 h2 => (h x h1 h2).1
  refine ⟨Reu.c64_of (hreg _ (by decide) (by decide)) (hreg _ (by decide) (by decide)) ?_,
    Reu.len_of (l := 2) (hreg _ (by decide) (by decide)) ?_ (by omega),
    hreg _ (by decide) (by decide), hreg _ (by decide) (by decide), funext fun x => ?_⟩
  · rw [MemMap.mulDmaLo]
    omega
  · rw [hreg _ (by decide) (by decide)]
    rfl
  · by_cases h1 : x = .reuHi
    · rw [h1, hhi]
    by_cases h2 : x = .reuBank
    · rw [h2, hbank]
    · rw [(h x h1 h2).1, (h x h1 h2).2]

/-- What the initialisers build, from the state `s` to the state `t`: every
product row, and where the build has them every doubled row and carry row,
at its place, and no byte outside the banks of the manifest. -/
structure TablesBuilt (B : Build) (s t : Machine) : Prop where
  mul : ∀ a b : Byte,
    t.reu.mem ((B.reuBank + a.toNat / 0x80) * 0x10000 + a.toNat * 0x200 % 0x10000 + b.toNat)
      = BitVec.ofNat 8 (a.toNat * b.toNat) ∧
    t.reu.mem ((B.reuBank + a.toNat / 0x80) * 0x10000 + a.toNat * 0x200 % 0x10000 + 0x100
      + b.toNat) = BitVec.ofNat 8 (a.toNat * b.toNat / 0x100)
  doubled : B.sqrDmaK ≠ 0 → ∀ a b : Byte,
    t.reu.mem ((B.reuBank + 4 + a.toNat / 0x80) * 0x10000 + a.toNat * 0x200 % 0x10000 + b.toNat)
      = BitVec.ofNat 8 (2 * (a.toNat * b.toNat)) ∧
    t.reu.mem ((B.reuBank + 4 + a.toNat / 0x80) * 0x10000 + a.toNat * 0x200 % 0x10000 + 0x100
      + b.toNat) = BitVec.ofNat 8 (2 * (a.toNat * b.toNat) / 0x100)
  carry : B.sqrDmaK ≠ 0 → ∀ a b : Byte,
    t.reu.mem ((B.reuBank + 3) * 0x10000 + a.toNat * 0x100 + b.toNat)
      = BitVec.ofNat 8 (2 * (a.toNat * b.toNat) / 0x10000)
  outside : ∀ y, B.reuBanksUsed.testBit (y / 0x10000) = false → t.reu.mem y = s.reu.mem y

/-- **The two initialisers**, from any memory, registers and rows, build the
tables and leave the fetch latch. A second run changes nothing but what
settling reports with, and where the transfers complete not that either. -/
theorem tablesInit_correct (hon : B.onchip = false) (hlive : s.reu.live = true) :
    TablesBuilt B s (tablesInit B s) ∧ CanonicalLatch B (tablesInit B s) ∧
      Settles (tablesInit B s) (tablesInit B (tablesInit B s)) ∧
      (Completes s → (tablesInit B (tablesInit B s)).var = (tablesInit B s).var) := by
  obtain ⟨-, h⟩ := tablesInit_spec (B := B) hlive
  obtain ⟨-, -, hreu, -⟩ := sqtabInit_spec (B := B) s
  refine ⟨⟨fun a b => ?_, fun hK a b => ?_, fun hK a b => ?_, fun y hy => ?_⟩,
    h.latch.canonical ?_ ?_, tablesInit_settles hlive,
    fun hc => funext (tablesInit_prompt hlive hc)⟩
  · rw [row_offset]
    exact h.rows a.toNat a.isLt b.toNat b.isLt
  · rw [row_offset]
    obtain ⟨hlo, hhi, -⟩ := h.dbl hK a.toNat a.isLt b.toNat b.isLt
    exact ⟨hlo, hhi⟩
  · rw [Nat.mul_comm a.toNat 0x100]
    exact (h.dbl hK a.toNat a.isLt b.toNat b.isLt).2.2
  · rw [h.mem y fun a ha => ⟨fun hrow => ?_, fun hK hdbl => ?_⟩, hreu]
    · rw [banksUsed_of_span hon ha (.inl hrow)] at hy
      cases hy
    · rw [banksUsed_of_span hon ha (.inr ⟨hK, hdbl⟩)] at hy
      cases hy
  · rw [(h.rowEnd.regHi _ rfl).1, (h.rowEnd.regHi _ rfl).2]
  · rw [(h.rowEnd.regBank _ rfl).1, (h.rowEnd.regBank _ rfl).2]

theorem tablesInit_correct_standard :
    let t := tablesInit .standard .blank
    TablesBuilt .standard .blank t ∧ CanonicalLatch .standard t ∧
      Settles t (tablesInit .standard t) ∧
      (Completes .blank → (tablesInit .standard t).var = t.var) :=
  tablesInit_correct rfl rfl

end C64X25519
