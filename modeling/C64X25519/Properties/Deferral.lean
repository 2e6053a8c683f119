import C64X25519.Helpers.SqrTables
import C64X25519.Properties.History
import C64X25519.Properties.Tables
/-!
# Deferral to a shared provider

A deferring build takes the product banks from a provider and derives its
private banks from them with `x25519_sqr_tables_init`. Whatever else the
provider leaves in the unit, the private banks and the fetch latch end as
`reu_mul_init` leaves them in an owning build, and from there on no call can
tell the two builds apart.
-/

namespace C64X25519

open Machine Relation

variable {B B' : Build} {s t : Machine}

/-! ## The two states before -/

/-- **What a provider owes**: the product rows in the pair of banks, in the
documented layout. Nothing is said of the registers of the unit, of the
private banks or of any other. -/
structure Provided (B : Build) (t : Machine) : Prop extends Booted B t where
  rows : ∀ a, a < 0x100 → MulRowAt B t.reu.mem a

/-- A build that has private banks has a unit. -/
theorem Build.offchip (hK : B.sqrDmaK ≠ 0) : B.onchip = false :=
  Bool.eq_false_of_not_eq_true fun hon => hK (B.sqrDmaK_onchip hon)

/-- The banks of the product rows. -/
def Build.pairBank (B : Build) (y : ℕ) : Prop :=
  B.reuBank ≤ y / 0x10000 ∧ y / 0x10000 ≤ B.reuBank + 1

/-- The private banks: the carry rows and the doubled rows. -/
def Build.privateBank (B : Build) (y : ℕ) : Prop :=
  B.reuBankCarry ≤ y / 0x10000 ∧ y / 0x10000 ≤ B.reuBankDoubled + 1

theorem Build.pairBank_iff {y : ℕ} : B.pairBank y ↔ ∃ a, a < 0x100 ∧ B.rowSpan a y := by
  unfold Build.pairBank Build.rowSpan
  constructor
  · intro h
    refine ⟨(y - B.reuBank * 0x10000) / 0x200, ?_, ?_, ?_⟩ <;> omega
  · rintro ⟨a, ha, h1, h2⟩
    omega

theorem Build.privateBank_iff {y : ℕ} : B.privateBank y ↔ ∃ a, a < 0x100 ∧ B.dblSpan a y := by
  have hbanks : B.reuBankDoubled = B.reuBankCarry + 1 := rfl
  unfold Build.privateBank Build.dblSpan
  constructor
  · intro h
    rcases Nat.lt_or_ge y (B.reuBankDoubled * 0x10000) with hy | hy
    · refine ⟨(y - B.reuBankCarry * 0x10000) / 0x100, ?_, Or.inr ?_⟩ <;> omega
    · refine ⟨(y - B.reuBankDoubled * 0x10000) / 0x200, ?_, Or.inl ?_⟩ <;> omega
  · rintro ⟨a, ha, h⟩
    omega

/-! ## The two states after -/

/-- A deferring build is usable, like an owning one. -/
theorem x25519SqrTablesInit_usable (hK : B.sqrDmaK ≠ 0) (h : Provided B t) :
    Usable B (x25519SqrTablesInit B t) :=
  ⟨x25519SqrTablesInit_ready (h.live (B.offchip hK)) hK h.rows h.sqtab h.guard,
    h.basepoint.boot (x25519SqrTablesInit_spec (h.live (B.offchip hK)) hK h.rows).boot⟩

/-- The last row's registers, whichever initialiser wrote it. -/
theorem reuMulInit_regs (hK : B.sqrDmaK ≠ 0) (h : Booted B s) :
    ((reuMulInit B s).reu.reg .reuHi = 0xff ∧ (reuMulInit B s).reu.latch .reuHi = 0xff) ∧
      (reuMulInit B s).reu.reg .reuBank = BitVec.ofNat 8 B.reuBankCarry ∧
        (reuMulInit B s).reu.latch .reuBank = BitVec.ofNat 8 B.reuBankCarry := by
  have hend := (reuMulInit_spec (h.live (B.offchip hK)) h.sqtab).rowEnd
  exact ⟨hend.regHi _ (by rw [if_neg hK]), hend.regBank _ (by rw [if_neg hK])⟩

/-- **Deferral against ownership**: `o` is the owning build's state, and `d`
the deferring one's, made from what the provider left in `t`. -/
structure Deferred (B B' : Build) (o t d : Machine) : Prop where
  privateBanks : ∀ y, B.privateBank y → d.reu.mem y = o.reu.mem y
  pairBanks : ∀ y, B.pairBank y → d.reu.mem y = o.reu.mem y
  untouched : ∀ y, ¬ B.privateBank y → d.reu.mem y = t.reu.mem y
  ownLatch : CanonicalLatch B o
  latch : CanonicalLatch B' d
  regs : ∀ x, B'.mem.stage = B.mem.stage ∨ x ≠ .c64Lo ∧ x ≠ .c64Hi →
    d.reu.reg x = o.reu.reg x ∧ d.reu.latch x = o.reu.latch x

theorem fetchReg_stage {x : Reg} (h : B'.mem.stage = B.mem.stage ∨ x ≠ .c64Lo ∧ x ≠ .c64Hi) :
    fetchReg B' x = fetchReg B x := by
  rcases h with h | ⟨h1, h2⟩
  · simp only [fetchReg, MemMap.mulDmaLo, h]
  · cases x <;> first | rfl | contradiction

theorem deferred (hK : B.sqrDmaK ≠ 0) (hK' : B'.sqrDmaK ≠ 0) (hbank : B'.reuBank = B.reuBank)
    (hs : Booted B s) (ht : Provided B' t) :
    Deferred B B' (reuMulInit B s) t (x25519SqrTablesInit B' t) := by
  have ho := reuMulInit_spec (hs.live (B.offchip hK)) hs.sqtab
  have hd := x25519SqrTablesInit_spec (ht.live (B'.offchip hK')) hK' ht.rows
  obtain ⟨hhi, hbk⟩ := reuMulInit_regs hK hs
  have hdbl : B'.reuBankDoubled = B.reuBankDoubled := by
    rw [Build.reuBankDoubled, Build.reuBankDoubled, hbank]
  have hcar : B'.reuBankCarry = B.reuBankCarry := by
    rw [Build.reuBankCarry, Build.reuBankCarry, hbank]
  have hspan : ∀ a y, B'.dblSpan a y ↔ B.dblSpan a y := fun a y => by
    unfold Build.dblSpan
    rw [hdbl, hcar]
  have hrow : ∀ a y, B'.rowSpan a y ↔ B.rowSpan a y := fun a y => by
    unfold Build.rowSpan
    rw [hbank]
  refine ⟨fun y hy => ?_, fun y hy => ?_, fun y hy => ?_, ho.latch.canonical ?_ ?_,
    hd.latch.canonical ?_ ?_, fun x hx => ?_⟩
  · obtain ⟨a, ha, hay⟩ := Build.privateBank_iff.mp hy
    have hrow' : DblRowAt B (x25519SqrTablesInit B' t).reu.mem a := by
      have h := hd.dbl a ha
      unfold DblRowAt at h ⊢
      rw [hdbl, hcar] at h
      exact h
    exact (ho.dbl hK a ha).mem_eq hrow' hay
  · obtain ⟨a, ha, hay⟩ := Build.pairBank_iff.mp hy
    have hay' := (hrow a y).mpr hay
    have hrow' : MulRowAt B t.reu.mem a := by
      have h := ht.rows a ha
      unfold MulRowAt at h ⊢
      rw [hbank] at h
      exact h
    rw [hd.mem y fun b _ => Build.rowSpan_not_dblSpan ha hay']
    exact (ho.rows a ha).mem_eq hrow' hay
  · refine hd.mem y fun a ha hay => hy (Build.privateBank_iff.mpr ⟨a, ha, (hspan a y).mp hay⟩)
  · rw [hhi.1, hhi.2]
  · rw [hbk.1, hbk.2]
  · rw [hd.regHi.1, hd.regHi.2]
  · rw [hd.regBank.1, hd.regBank.2]
  · by_cases h1 : x = .reuHi
    · rw [h1, hd.regHi.1, hd.regHi.2, hhi.1, hhi.2]
      exact ⟨rfl, rfl⟩
    · by_cases h2 : x = .reuBank
      · rw [h2, hd.regBank.1, hd.regBank.2, hbk.1, hbk.2, hcar]
        exact ⟨rfl, rfl⟩
      · obtain ⟨hr, hl⟩ := hd.latch x h1 h2
        obtain ⟨hr', hl'⟩ := ho.latch x h1 h2
        rw [hr, hl, hr', hl', fetchReg_stage hx]
        exact ⟨rfl, rfl⟩

/-! ## Calls behind them -/

/-- **Deferral is equivalent to ownership.** The private banks and the fetch
latch come out the same and the provider's banks are as it left them; and a
call made anywhere behind the two initialisers, from equal inputs, leaves the
same bytes in both builds. -/
theorem deferral_equivalent (hK : B.sqrDmaK ≠ 0) (hK' : B'.sqrDmaK ≠ 0)
    (hbank : B'.reuBank = B.reuBank) (hs : Booted B s) (ht : Provided B' t) :
    Deferred B B' (reuMulInit B s) t (x25519SqrTablesInit B' t) ∧
      ∀ (c : Call) (u u' : Machine), ReflTransGen (CallerStep B) (reuMulInit B s) u →
        ReflTransGen (CallerStep B') (x25519SqrTablesInit B' t) u' →
        c.Valid B u → c.Valid B' u' → c.inputs B' u' = c.inputs B u →
        c.outputs B' u' (c.run B' u') = c.outputs B u (c.run B u) := by
  refine ⟨deferred hK hK' hbank hs ht, fun c u u' hu hu' hv hv' hin => ?_⟩
  have ho := (reuMulInit_usable (B.offchip hK) hs).run hu
  have hd := (x25519SqrTablesInit_usable hK' ht).run hu'
  rw [(Call.run_spec hd.ready hd.basepoint hv').outputs, hin,
    (Call.run_spec ho.ready ho.basepoint hv).outputs]

/-- The owning build's own tables are a provider's. -/
theorem reuMulInit_provided (hon : B.onchip = false) (h : Booted B s) :
    Provided B (reuMulInit B s) :=
  ⟨⟨(reuMulInit_usable hon h).ready.live, (reuMulInit_usable hon h).ready.sqtab,
    (reuMulInit_usable hon h).basepoint, (reuMulInit_usable hon h).ready.guard⟩,
    (reuMulInit_spec (h.live hon) h.sqtab).rows⟩

/-- What a provider may leave in the unit: the banks of the product rows as
they are, and `x` in every other byte and in every register. -/
def leftover (B : Build) (x : Byte) (t : Machine) : Machine :=
  { t with
    reu := { t.reu with
      reg := fun _ => x
      latch := fun _ => x
      mem := fun y =>
        if B.reuBank ≤ y / 0x10000 ∧ y / 0x10000 ≤ B.reuBank + 1 then t.reu.mem y else x } }

theorem Provided.leftover {x : Byte} (h : Provided B t) : Provided B (leftover B x t) :=
  ⟨⟨h.live, ⟨h.sqtab.lo, h.sqtab.hi⟩, h.basepoint, h.guard⟩, fun a ha =>
    (h.rows a ha).congr fun _ hy => if_pos (Build.pairBank_iff.2 ⟨a, ha, hy⟩)⟩

/-- One machine booted; and a provider whose private banks and registers hold
`0xc3` throughout. -/
theorem deferral_equivalent_standard :
    let s := sqtabInit .standard .loaded
    let o := reuMulInit .standard s
    let t := leftover .standard 0xc3 o
    Deferred .standard .standard o t (x25519SqrTablesInit .standard t) ∧
      ∀ (c : Call) (u u' : Machine), ReflTransGen (CallerStep .standard) o u →
        ReflTransGen (CallerStep .standard) (x25519SqrTablesInit .standard t) u' →
        c.Valid .standard u → c.Valid .standard u' →
        c.inputs .standard u' = c.inputs .standard u →
        c.outputs .standard u' (c.run .standard u') = c.outputs .standard u (c.run .standard u) :=
  deferral_equivalent (by decide) (by decide) rfl (sqtabInit_booted loaded_loaded)
    (reuMulInit_provided rfl (sqtabInit_booted loaded_loaded)).leftover

end C64X25519
