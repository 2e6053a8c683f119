import C64X25519.Helpers.Cpu
import C64X25519.Properties.History
/-!
# The row fetches, in any order

Whatever a caller leaves in the registers of the unit, and whichever fetches
came before, a fetch loads its own row and touches nothing else; and each of
the 32 fetches inlined in a multiplication finds the latch it relies on.
-/

namespace C64X25519

open Machine Relation

variable {B : Build} {s t : Machine} {a b : FieldBuf B.mem} {i : ℕ} {v : Byte}

/-! ## What a fetch does -/

/-- From `s` to `t` the row of `v` in the banks from `bank` on has come to
the two staging pages, byte for byte. -/
def RowLoaded (B : Build) (bank : ℕ) (v : Byte) (s t : Machine) : Prop :=
  ∀ i, i < 0x200 → t.ram (B.mem.mulDmaLo + i) = s.reu.mem (bank * 0x10000 + 0x200 * v.toNat + i)

/-- And its carry row to the third. -/
def CarryLoaded (B : Build) (v : Byte) (s t : Machine) : Prop :=
  ∀ i, i < 0x100 →
    t.ram (B.mem.mulDmaCarry + i) = s.reu.mem (B.reuBankCarry * 0x10000 + 0x100 * v.toNat + i)

/-- From `s` to `t` no byte of memory has changed but those of `D` and the
variables `V`, and no byte of the unit. -/
structure TouchesOnly (V : List Var) (D : ℕ → Prop) (s t : Machine) : Prop where
  zp : t.zp = s.zp
  ram : ∀ y, ¬ D y → t.ram y = s.ram y
  opLo : t.opLo = s.opLo
  opHi : t.opHi = s.opHi
  tramp : t.tramp = s.tramp
  var : ∀ x, x ∉ V → t.var x = s.var x
  mem : t.reu.mem = s.reu.mem

theorem TouchesOnly.trans {V : List Var} {D : ℕ → Prop} {u : Machine} (h : TouchesOnly V D s t)
    (h' : TouchesOnly V D t u) : TouchesOnly V D s u where
  zp := h'.zp.trans h.zp
  ram y hy := (h'.ram y hy).trans (h.ram y hy)
  opLo := h'.opLo.trans h.opLo
  opHi := h'.opHi.trans h.opHi
  tramp := h'.tramp.trans h.tramp
  var x hx := (h'.var x hx).trans (h.var x hx)
  mem := h'.mem.trans h.mem

theorem Fetched.touches {V : List Var} {D : ℕ → Prop} {c r l : ℕ} (h : Fetched c r l s t)
    (hV : settleVars ⊆ V) (hD : ∀ y, c ≤ y → y < c + l → D y) : TouchesOnly V D s t where
  zp := h.zp
  ram y hy := h.outside fun hin => hy (hD y hin.1 hin.2)
  opLo := h.opLo
  opHi := h.opHi
  tramp := h.tramp
  var x hx := h.var x (by
    have hx' : x ∉ settleVars := fun hin => hx (hV hin)
    revert hx'
    cases x <;> decide)
  mem := h.mem

theorem Fetched.row {bank : ℕ}
    (h : Fetched B.mem.stage (bank * 0x10000 + 0x200 * v.toNat) 0x200 s t) :
    RowLoaded B bank v s t := fun i hi => by
  rw [h.ram, MemMap.mulDmaLo]
  exact blit_add (Nat.zero_le _) (by omega)

/-- `reu_fetch_mul_row`, on the processor. -/
theorem reuFetchMulRow_law (hlive : s.reu.live = true) {u : Cpu} (hu : u.m = s) :
    let w := u.reuFetchMulRow B
    RowLoaded B B.reuBank u.a s w.m ∧
      TouchesOnly (.mulCachedA :: settleVars) B.mem.rowPages s w.m ∧
      w.m.var .mulCachedA = u.a ∧ w.x = u.x ∧ w.y = u.y := by
  intro w
  have hkeep := Cpu.reuFetchMulRow_keeps (B := B) u
  have hfetch := reuFetchMulRow_fetched (B := B) (s := s) hlive u.a
  rw [← hu, ← hkeep.m] at hfetch
  have hset : TouchesOnly (.mulCachedA :: settleVars) B.mem.rowPages s (s.setVar .mulCachedA u.a) :=
    ⟨rfl, fun _ _ => rfl, rfl, rfl, rfl,
      fun x hx => setVar_var_of_ne fun he => hx (he ▸ List.mem_cons_self), rfl⟩
  rw [hu] at hfetch
  refine ⟨hfetch.row,
    hset.trans (hfetch.touches (List.subset_cons_self _ _) fun y h1 h2 => ⟨h1, h2⟩),
    (hfetch.var .mulCachedA rfl).trans setVar_var_self, hkeep.x, hkeep.y⟩

/-- `reu_fetch_doubled_row`, likewise. -/
theorem reuFetchDoubledRow_law (hK : B.sqrDmaK ≠ 0) (hlive : s.reu.live = true) {u : Cpu}
    (hu : u.m = s) :
    let w := u.reuFetchDoubledRow B
    RowLoaded B B.reuBankDoubled (s.var .mulCachedA) s w.m ∧
      CarryLoaded B (s.var .mulCachedA) s w.m ∧
      TouchesOnly settleVars B.mem.staging s w.m ∧ w.x = u.x ∧ w.y = u.y := by
  intro w
  have hkeep := Cpu.reuFetchDoubledRow_keeps (B := B) u
  obtain ⟨t, hrow, hcarry⟩ := reuFetchDoubledRow_fetched (B := B) (s := s) hlive hK rfl
  rw [← hu, ← hkeep.m] at hcarry
  rw [hu] at hcarry
  refine ⟨fun i hi => ?_, fun i hi => ?_, ?_, hkeep.x, hkeep.y⟩
  · rw [hcarry.outside (by rw [MemMap.mulDmaLo]; omega)]
    exact hrow.row i hi
  · rw [hcarry.ram, ← hrow.mem, MemMap.mulDmaCarry]
    exact blit_add (Nat.zero_le _) (by omega)
  · exact (hrow.touches (List.Subset.refl _) fun y h1 h2 => ⟨h1, by omega⟩).trans
      (hcarry.touches (List.Subset.refl _) fun y h1 h2 => ⟨by omega, by omega⟩)

/-! ## The fetches of a multiplication -/

/-- Row `i` of a multiplication made in `s`, where its fetch stands before
the command. -/
def mulFetch (B : Build) (s : Machine) (i : ℕ) : Machine :=
  let t := (mulTurn B s i).setZp (B.slot .mulPending) 0
  let t := t.setZp (B.slot .mulBound) (sbc 63 (t.zp (B.slot .feMulI)) true).1
  mulRowReady B (t.ram (t.op .loadSrc1 + (t.zp (B.slot .feMulI)).toNat)) t

/-- The head of a row is its fetch, settled. -/
theorem mulRow_fetch (hon : B.onchip = false) :
    mulRow B (mulTurn B s i) = reuSettle B ((mulFetch B s i).reuCommand 0b10110001) := by
  unfold mulRow
  extract_lets s1 s2 v
  rw [if_neg (by rw [hon]; decide)]
  rfl

/-- **An inlined fetch** of a multiplication made in `s`: what it sees in the
registers, and what it does. -/
structure InlinedFetch (B : Build) (v : Byte) (s t : Machine) : Prop where
  c64 : t.reu.c64 = B.mem.mulDmaLo
  len : t.reu.len = 0x200
  reuLo : t.reu.reg .reuLo = 0
  counting : (t.reu.reg .addrCtrl).getLsbD 7 = false ∧ (t.reu.reg .addrCtrl).getLsbD 6 = false
  mem : t.reu.mem = s.reu.mem
  row : RowLoaded B B.reuBank v s (reuSettle B (t.reuCommand 0b10110001))
  touches : TouchesOnly settleVars B.mem.rowPages t (reuSettle B (t.reuCommand 0b10110001))

theorem mulFetch_law (hon : B.onchip = false) (hr : MulReady B s)
    (h1 : s.ptr B .fe25519Src1 = a.addr) (h2 : s.ptr B .fe25519Src2 = b.addr) (hi : i < 32) :
    InlinedFetch B (s.ram (a.addr + i)) s (mulFetch B s i) := by
  have hinv := mulTurn_spec hr h1 h2 hi.le
  unfold mulFetch
  extract_lets t1 t2
  have hf2 : Frame B B.mem.work s t2 := (hinv.frame.setSlot rfl).setSlot rfl
  have hidx : (t2.zp (B.slot .feMulI)).toNat = i := by
    rw [setZp_zp_slot (by decide), setZp_zp_slot (by decide)]
    exact hinv.index
  have hbyte : t2.ram (t2.op .loadSrc1 + (t2.zp (B.slot .feMulI)).toNat) = s.ram (a.addr + i) := by
    rw [hidx, show t2.op .loadSrc1 = a.addr from hinv.src1]
    exact hf2.ram _ (B.mem.not_work (a.span_add hi))
  have hl : FetchLatch B t2 := (hinv.latch hon).congr rfl rfl
  have hlive : t2.reu.live = true := hf2.live.trans (hr.live hon)
  rw [hbyte]
  obtain ⟨hc, hlen, hlo, hctl, -⟩ := mulRowReady_regs (v := s.ram (a.addr + i)) hl
  have hfetch := mulRowDma_fetched (v := s.ram (a.addr + i)) hl hlive
  rw [mulRowDma_eq] at hfetch
  set t3 := mulRowReady B (s.ram (a.addr + i)) t2
  have hregs : RegsOnly t2 t3 := mulRowReady_only
  have hback : TouchesOnly settleVars B.mem.rowPages t3 t2 :=
    ⟨by rw [hregs.rest], fun _ _ => by rw [hregs.rest], by rw [hregs.rest], by rw [hregs.rest],
      by rw [hregs.rest], fun _ _ => by rw [hregs.rest], hregs.mem.symm⟩
  refine ⟨hc, hlen, hlo, by rw [hctl]; decide, hregs.mem.trans hf2.mem, fun j hj => ?_,
    hback.trans (hfetch.touches (List.Subset.refl _) fun y h1 h2 => ⟨h1, h2⟩)⟩
  rw [← hf2.mem]
  exact hfetch.row j hj

/-! ## Any order -/

theorem DoubledRows.rowAt (h : DoubledRows B s) (a : Byte) : DblRowAt B s.reu.mem a.toNat := by
  intro x hx
  have hlo := h.lo a (BitVec.ofNat 8 x)
  have hhi := h.hi a (BitVec.ofNat 8 x)
  have hcarry := h.carry a (BitVec.ofNat 8 x)
  rw [BitVec.toNat_ofNat, Nat.mod_eq_of_lt hx] at hlo hhi hcarry
  exact ⟨hlo, hhi, hcarry⟩

/-- A step between fetches: one of a caller's, or the registers of the unit
and the latch behind them left at anything. -/
inductive FetchStep (B : Build) : Machine → Machine → Prop
  | caller {s t : Machine} (h : CallerStep B s t) : FetchStep B s t
  | clobber (s : Machine) (reg latch : Reg → Byte) :
      FetchStep B s (s.setReu { s.reu with reg := reg, latch := latch })

theorem Usable.fetchStep (hst : FetchStep B s t) (h : Usable B s) : Usable B t := by
  cases hst with
  | caller hc => exact h.step hc
  | clobber reg latch => exact h.congr (fun _ _ => rfl) rfl rfl

/-- **The row-fetch law** in a state `s`: the rows are in their tables, and
each of the three fetches, made there, loads the row it is asked for and
touches nothing else. -/
structure FetchLaw (B : Build) (s : Machine) : Prop where
  tables : (∀ r, r < 0x100 → MulRowAt B s.reu.mem r) ∧
    (B.sqrDmaK ≠ 0 → ∀ r, r < 0x100 → DblRowAt B s.reu.mem r)
  fetchMulRow : ∀ u : Cpu, u.m = s →
    let w := u.reuFetchMulRow B
    RowLoaded B B.reuBank u.a s w.m ∧
      TouchesOnly (.mulCachedA :: settleVars) B.mem.rowPages s w.m ∧
      w.m.var .mulCachedA = u.a ∧ w.x = u.x ∧ w.y = u.y
  fetchDoubledRow : B.sqrDmaK ≠ 0 → ∀ u : Cpu, u.m = s →
    let w := u.reuFetchDoubledRow B
    RowLoaded B B.reuBankDoubled (s.var .mulCachedA) s w.m ∧
      CarryLoaded B (s.var .mulCachedA) s w.m ∧
      TouchesOnly settleVars B.mem.staging s w.m ∧ w.x = u.x ∧ w.y = u.y
  inlined : ∀ a b : FieldBuf B.mem, s.ptr B .fe25519Src1 = a.addr →
    s.ptr B .fe25519Src2 = b.addr →
    fe25519Mul B s = copyResult B (feReduceWide B (mulTurn B s 32)) ∧
      ∀ i, i < 32 →
        mulRow B (mulTurn B s i) = reuSettle B ((mulFetch B s i).reuCommand 0b10110001) ∧
          InlinedFetch B (s.ram (a.addr + i)) s (mulFetch B s i)

theorem Usable.fetchLaw (hon : B.onchip = false) (h : Usable B s) : FetchLaw B s := by
  have hlive := h.ready.live hon
  refine ⟨⟨fun r hr => ?_, fun hK r hr => ?_⟩, fun u hu => reuFetchMulRow_law hlive hu,
    fun hK u hu => reuFetchDoubledRow_law hK hlive hu, fun a b h1 h2 => ⟨?_, fun i hi =>
      ⟨mulRow_fetch hon, mulFetch_law hon h.ready.mul h1 h2 hi⟩⟩⟩
  · have hrow := (h.ready.mulRows hon).rowAt (BitVec.ofNat 8 r)
    rwa [BitVec.toNat_ofNat, Nat.mod_eq_of_lt hr] at hrow
  · have hrow := (h.ready.doubled hK).rowAt (BitVec.ofNat 8 r)
    rwa [BitVec.toNat_ofNat, Nat.mod_eq_of_lt hr] at hrow
  · rw [fe25519Mul, fe25519MulWide_eq h.ready.mul h1 h2]

/-- **The row-fetch law holds in every run**: of calls and fetches in any
order, with the registers of the unit left at anything in between. -/
theorem rowFetch_law {s₀ : Machine} (hon : B.onchip = false) (h0 : Usable B s₀)
    (hrun : ReflTransGen (FetchStep B) s₀ s) : FetchLaw B s :=
  (run_preserves (Usable B) (fun _ _ hst h => h.fetchStep hst) hrun h0).fetchLaw hon

/-- Behind a doubled fetch, and registers of no sense. -/
theorem rowFetch_law_doubled :
    let s := Call.reuFetchDoubledRow.run .standard (initialise .standard .loaded)
    FetchLaw .standard (s.setReu { s.reu with reg := fun _ => 0xff, latch := fun _ => 0x5a }) :=
  rowFetch_law rfl (initialise_usable loaded_loaded)
    (.tail (.single (.caller ⟨.call .reuFetchDoubledRow,
      ⟨nofun, nofun, nofun, fun _ => by decide⟩, rfl⟩)) (.clobber _ _ _))

end C64X25519
