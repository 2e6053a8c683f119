import C64X25519.Model.Machine
import C64X25519.Model.Rows
import C64X25519.Model.Inv
/-!
# The layout — what the assertions give

The assertions of `zp_config.s` accept exactly the assignments whose spans
lie in `$02..$FF` and are pairwise disjoint; so a store to one slot is not
seen through another. Likewise two field buffers are one buffer or share no
byte, and no buffer meets the staging pages, the tables or the copy of the
second operand.
-/

namespace C64X25519

/-! ## The assertions of the roster -/

namespace Slot

/-- The position of a slot in the roster. -/
def index : Slot → ℕ
  | fe25519Src1 => 0
  | fe25519Src2 => 1
  | fe25519Dst => 2
  | mulPending => 3
  | mulBound => 4
  | feCarry => 5
  | feLoop => 6
  | feMulI => 7
  | feMulJ => 8
  | mulRippleStart => 9
  | x25PrevBit => 10
  | x25ByteIdx => 11
  | x25BitMask => 12
  | feSqrPairs => 13
  | feCmpMask => 14
  | feSubpRhs => 15
  | feAddCarryMask => 16
  | mulCarry => 17
  | feWide => 18

theorem mem_roster (x : Slot) : x ∈ roster := by cases x <;> decide

theorem mem_zipIdx (x : Slot) : (x, x.index) ∈ roster.zipIdx := by cases x <;> decide

theorem index_of_mem_zipIdx : ∀ p ∈ roster.zipIdx, p.2 = p.1.index := by decide

theorem index_injective : Function.Injective index := by
  intro x y h
  cases x <;> cases y <;> first | rfl | exact absurd h (by decide)

theorem size_pos (x : Slot) : 0 < x.size := by cases x <;> decide

end Slot

section Accepts

variable {addr : Slot → ℕ}

theorem x25519ZpCheckPair_iff {x y : Slot} :
    x25519ZpCheckPair addr x y = true ↔ Apart (addr x, x.size) (addr y, y.size) := by
  simp [x25519ZpCheckPair, Apart]

/-- **What the roster assertions accept.** Every span inside `$02..$FF`, and
every two spans disjoint. The check of ordered positions covers a pair
either way round, and the last assertion is the first one at `fe_wide`. -/
theorem x25519ZpAccepts_iff :
    x25519ZpAccepts addr = true ↔
      (∀ x : Slot, 2 ≤ addr x ∧ addr x + x.size ≤ 0x100) ∧
        ∀ x y : Slot, x ≠ y → Apart (addr x, x.size) (addr y, y.size) := by
  simp only [x25519ZpAccepts, x25519ZpDefine, Bool.and_eq_true, List.all_eq_true,
    decide_eq_true_eq, Bool.or_eq_true, Bool.not_eq_true', decide_eq_false_iff_not]
  constructor
  · rintro ⟨⟨hspan, hpair⟩, -⟩
    refine ⟨fun x => (hspan x x.mem_roster).symm, fun x y hxy => ?_⟩
    rcases Nat.lt_or_gt_of_ne (fun h => hxy (Slot.index_injective h)) with hlt | hgt
    · exact x25519ZpCheckPair_iff.1
        ((hpair _ x.mem_zipIdx _ y.mem_zipIdx).resolve_left (not_not_intro hlt))
    · exact (x25519ZpCheckPair_iff.1
        ((hpair _ y.mem_zipIdx _ x.mem_zipIdx).resolve_left (not_not_intro hgt))).symm
  · rintro ⟨hspan, hpair⟩
    refine ⟨⟨fun x _ => (hspan x).symm, fun p hp q hq => ?_⟩, (hspan .feWide).2⟩
    by_cases hlt : p.2 < q.2
    · refine Or.inr (x25519ZpCheckPair_iff.2 (hpair _ _ fun h => ?_))
      rw [Slot.index_of_mem_zipIdx p hp, Slot.index_of_mem_zipIdx q hq, h] at hlt
      exact absurd hlt (lt_irrefl _)
    · exact Or.inl hlt

end Accepts

/-! ## Slots of a build -/

namespace Build

variable {B : Build} {x y : Slot} {i j k a : ℕ}

theorem slot_span (x : Slot) : 2 ≤ B.slot x ∧ B.slot x + x.size ≤ 0x100 :=
  (x25519ZpAccepts_iff.1 B.zp.accepted).1 x

/-- **Bytes of different slots are different bytes.** -/
theorem slot_add_ne (h : x ≠ y) (hi : i < x.size) (hj : j < y.size) :
    B.slot x + i ≠ B.slot y + j := by
  have hap := (x25519ZpAccepts_iff.1 B.zp.accepted).2 x y h
  simp only [Apart] at hap
  change B.zp.addr x + i ≠ B.zp.addr y + j
  omega

theorem slot_ne (h : x ≠ y) : B.slot x ≠ B.slot y :=
  slot_add_ne (i := 0) (j := 0) h x.size_pos y.size_pos

theorem wide_span : 2 ≤ B.slot .feWide ∧ B.slot .feWide + 64 ≤ 0x100 := slot_span .feWide

theorem wideAt_eq (hk : k < 64) : B.wideAt k = B.slot .feWide + k := by
  have h := B.wide_span
  rw [wideAt, Nat.mod_eq_of_lt (by omega)]

theorem wideAt_ne_slot (hk : k < 64) (h : x ≠ .feWide) (hi : i < x.size) :
    B.wideAt k ≠ B.slot x + i := by
  rw [wideAt_eq hk]
  exact slot_add_ne h.symm hk hi

/-- The addresses of a slot. -/
def span (B : Build) (x : Slot) (a : ℕ) : Prop := B.slot x ≤ a ∧ a < B.slot x + x.size

theorem span_slot (h : i < x.size) : B.span x (B.slot x + i) := ⟨by omega, by omega⟩

theorem not_span (h : x ≠ y) (hi : i < y.size) : ¬ B.span x (B.slot y + i) := by
  rintro ⟨h1, h2⟩
  refine slot_add_ne (B := B) (x := x) (y := y) (i := B.slot y + i - B.slot x) (j := i) h
    (by omega) hi (by omega)

end Build

/-! ## Reading back through the setters -/

namespace Machine

variable {B : Build} {s : Machine} {x y : Slot} {v : Byte} {i j k a : ℕ}

theorem setZp_zp_self : (s.setZp a v).zp a = v := Function.update_self _ _ _

theorem setZp_zp_slot (h : y ≠ x) : (s.setZp (B.slot x) v).zp (B.slot y) = s.zp (B.slot y) :=
  Function.update_of_ne (Build.slot_ne h) _ _

theorem setZp_zp_wideAt (hk : k < 64) (h : x ≠ .feWide) :
    (s.setZp (B.slot x) v).zp (B.wideAt k) = s.zp (B.wideAt k) :=
  Function.update_of_ne (Build.wideAt_ne_slot (i := 0) hk h x.size_pos) _ _

theorem setWide_zp_slot (hk : k < 64) (h : x ≠ .feWide) :
    (s.setZp (B.wideAt k) v).zp (B.slot x) = s.zp (B.slot x) :=
  Function.update_of_ne (Build.wideAt_ne_slot (i := 0) hk h x.size_pos).symm _ _

theorem setWide_zp_wideAt (hj : j < 64) (hk : k < 64) (h : j ≠ k) :
    (s.setZp (B.wideAt k) v).zp (B.wideAt j) = s.zp (B.wideAt j) := by
  refine Function.update_of_ne ?_ _ _
  rw [Build.wideAt_eq hj, Build.wideAt_eq hk]
  omega


end Machine

/-! ## Buffers -/

/-- The addresses of the staging pages. -/
def MemMap.staging (M : MemMap) (a : ℕ) : Prop := M.stage ≤ a ∧ a < M.stage + 0x300

/-- The addresses a field routine may change besides its destination: the
staging pages, and the copy of the second operand without its guard byte. -/
def MemMap.work (M : MemMap) (a : ℕ) : Prop :=
  (M.stage ≤ a ∧ a < M.stage + 0x300) ∨ (M.mulSrc2Buf ≤ a ∧ a < M.mulSrc2Buf + 32)

namespace FieldBuf

variable {M : MemMap} {a b : FieldBuf M} {x i : ℕ}

/-- The addresses of a buffer. -/
def span (a : FieldBuf M) (x : ℕ) : Prop := a.addr ≤ x ∧ x < a.addr + 32

theorem span_add (h : i < 32) : a.span (a.addr + i) := ⟨by omega, by omega⟩

theorem ext_addr (h : a.addr = b.addr) : a = b := by
  cases a; cases b; cases h; rfl

instance : DecidableEq (FieldBuf M) := fun a b =>
  decidable_of_iff (a.addr = b.addr) ⟨ext_addr, fun h => h ▸ rfl⟩

/-- **Different buffers are disjoint**, both starting at multiples of 32. -/
theorem not_span (h : a ≠ b) (hx : a.span x) : ¬ b.span x := by
  have hne : a.addr ≠ b.addr := fun he => h (ext_addr he)
  have ha := a.aligned
  have hb := b.aligned
  simp only [span] at hx ⊢
  omega

end FieldBuf

theorem Buf.offset_le (b : Buf) : b.offset ≤ 0x240 := by cases b <;> decide

theorem Buf.offset_injective : Function.Injective Buf.offset := by
  intro b c h
  cases b <;> cases c <;> first | rfl | exact absurd h (by decide)

namespace MemMap

/-- A library buffer as a field buffer. -/
def own (M : MemMap) (b : Buf) : FieldBuf M where
  addr := M.buf b
  aligned := by
    have h := M.data_aligned
    have hb : b.offset % 32 = 0 := by cases b <;> rfl
    simp only [buf]
    omega
  high := by
    have h := (M.placed (M.data, 0xb00) (by simp)).1
    simp only [buf]
    omega
  fits := by
    have h := (M.placed (M.data, 0xb00) (by simp)).2.1
    have hb : b.offset ≤ 0x240 := by cases b <;> decide
    simp only [buf]
    omega
  visible := by
    have h := (M.placed (M.data, 0xb00) (by simp)).2.2
    have hb : b.offset ≤ 0x240 := by cases b <;> decide
    simp only [Apart, buf] at h ⊢
    omega
  free := Or.inl ⟨b, rfl⟩

variable {M : MemMap}

@[simp] theorem own_addr (b : Buf) : (M.own b).addr = M.buf b := rfl

@[simp] theorem own_inj {b c : Buf} : M.own b = M.own c ↔ b = c := by
  constructor
  · intro h
    have haddr : M.buf b = M.buf c := congrArg FieldBuf.addr h
    exact Buf.offset_injective (Nat.add_left_cancel haddr)
  · rintro rfl; rfl

/-- The regions of the library, pair by pair. -/
theorem regions_apart :
    (Apart (M.data, 0xb00) (M.stage, 0x300) ∧ Apart (M.data, 0xb00) (M.sqtab, 0x400) ∧
      Apart (M.data, 0xb00) (M.code, M.codeSize)) ∧
    (Apart (M.stage, 0x300) (M.sqtab, 0x400) ∧ Apart (M.stage, 0x300) (M.code, M.codeSize)) ∧
    Apart (M.sqtab, 0x400) (M.code, M.codeSize) := by
  have h := M.apart
  simp only [List.pairwise_cons, List.mem_cons, List.not_mem_nil, or_false] at h
  obtain ⟨hd, hs, hq, -⟩ := h
  exact ⟨⟨hd _ (.inl rfl), hd _ (.inr (.inl rfl)), hd _ (.inr (.inr rfl))⟩,
    ⟨hs _ (.inl rfl), hs _ (.inr rfl)⟩, hq _ rfl⟩

theorem placed_stage : 0x200 ≤ M.stage ∧ M.stage + 0x300 ≤ 0x10000 :=
  have h := M.placed (M.stage, 0x300) (by simp)
  ⟨h.1, h.2.1⟩

theorem placed_sqtab : 0x200 ≤ M.sqtab ∧ M.sqtab + 0x400 ≤ 0x10000 :=
  have h := M.placed (M.sqtab, 0x400) (by simp)
  ⟨h.1, h.2.1⟩

/-- A buffer meets neither the staging pages, nor the table, nor the copy of
the second operand and its guard. -/
theorem buf_apart (a : FieldBuf M) :
    Apart (a.addr, 32) (M.stage, 0x300) ∧ Apart (a.addr, 32) (M.sqtab, 0x400) ∧
      Apart (a.addr, 32) (M.mulSrc2Buf, 33) := by
  obtain ⟨⟨hds, hdq, -⟩, -⟩ := M.regions_apart
  rcases a.free with ⟨b, hb⟩ | hfree
  · have hoff := b.offset_le
    simp only [Apart, buf, mulSrc2Buf] at *
    omega
  · have h1 := hfree (M.data, 0xb00) (by simp [regions])
    have h2 := hfree (M.stage, 0x300) (by simp [regions])
    have h3 := hfree (M.sqtab, 0x400) (by simp [regions])
    simp only [Apart, mulSrc2Buf] at *
    omega

theorem not_work {a : FieldBuf M} {x : ℕ} (hx : a.span x) : ¬ M.work x := by
  obtain ⟨h1, -, h3⟩ := M.buf_apart a
  simp only [Apart, FieldBuf.span, work] at *
  omega

end MemMap

end C64X25519
