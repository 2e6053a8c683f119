import C64X25519.Helpers.LadderStep
import Mathlib.Logic.Equiv.Basic
import Mathlib.Tactic.IntervalCases
/-!
# The scalar multiplication

One turn of the bit loop swaps by the change of the scalar bit, runs the
step, and moves the position on; 255 turns run the ladder over bits 254 to
0, and the end divides.
-/

namespace C64X25519

open Machine

variable {B : Build} {s t : Machine} {a b : Buf} {q : Bool} {i : ℕ}

/-! ## The swaps -/

/-- **A swap of two buffers by a mask.** -/
theorem swapBufs_spec :
    (∀ c, (swapBufs B a b (mask q) s).fe (B.mem.buf c)
      = s.fe (B.mem.buf (if q then Equiv.swap a b c else c))) ∧
      Kept B Slot.prog (dirty B (ownIn B [a, b])) s (swapBufs B a b (mask q) s) := by
  set s1 := (((s.setZp (B.slot .feCarry) (mask q)).setPtr B .fe25519Src1 (B.mem.buf a)).setPtr B
    .fe25519Src2 (B.mem.buf b)) with hs1
  have hcarry : s1.zp (B.slot .feCarry) = mask q := by
    have hne : ∀ y : Slot, y ≠ .feCarry → ∀ j, j < y.size → B.slot .feCarry ≠ B.slot y + j :=
      fun y hy j hj => Build.slot_add_ne (i := 0) (Ne.symm hy) (Slot.size_pos _) hj
    rw [hs1, setPtr, setZp_zp, Function.update_of_ne (hne .fe25519Src2 (by decide) 1 (by decide)),
      setZp_zp_slot (by decide), setPtr, setZp_zp,
      Function.update_of_ne (hne .fe25519Src1 (by decide) 1 (by decide)),
      setZp_zp_slot (by decide), setZp_zp_self]
  have hswap : swapBufs B a b (mask q) s = fe25519Cswap B (mask q) s1 := by
    have hdef : swapBufs B a b (mask q) s = fe25519Cswap B (s1.zp (B.slot .feCarry)) s1 := rfl
    rw [hdef, hcarry]
  have hptr1 : s1.ptr B .fe25519Src1 = (B.mem.own a).addr := by
    have hfit := (B.mem.own a).fits
    rw [hs1, ptr_setPtr_of_ne (by decide) rfl rfl]
    exact ptr_setPtr (by rw [MemMap.own_addr] at hfit; omega)
  have hptr2 : s1.ptr B .fe25519Src2 = (B.mem.own b).addr := by
    have hfit := (B.mem.own b).fits
    exact ptr_setPtr (by rw [MemMap.own_addr] at hfit; omega)
  obtain ⟨ha, hb⟩ := fe25519Cswap_fe (q := q) hptr1 hptr2
  have hf := (fe25519Cswap_spec (m := mask q) hptr1 hptr2).frame
  rw [hswap]
  refine ⟨fun c => ?_, ?_⟩
  · by_cases hca : c = a
    · subst hca
      rw [Equiv.swap_apply_left]
      refine ha.trans ?_
      split <;> rfl
    by_cases hcb : c = b
    · subst hcb
      rw [Equiv.swap_apply_right]
      refine hb.trans ?_
      split <;> rfl
    · rw [Equiv.swap_apply_of_ne_of_ne hca hcb, ite_self]
      have hne : ∀ {d : Buf}, c ≠ d → B.mem.own c ≠ B.mem.own d :=
        fun h he => h (MemMap.own_inj.1 he)
      refine (hf.fe_eq (a := (B.mem.own c).addr) fun j hj => ?_).trans rfl
      rintro (hs | hs)
      · exact FieldBuf.not_span (hne hca) ((B.mem.own c).span_add hj) hs
      · exact FieldBuf.not_span (hne hcb) ((B.mem.own c).span_add hj) hs
  · refine ((((Kept.refl s).setSlot rfl).setPtr rfl rfl).setPtr rfl rfl).trans
      ((Kept.of_frame hf).mono fun x hx => .inl ?_)
    rcases hx with hx | hx
    · exact ⟨_, ⟨a, by simp, rfl⟩, hx⟩
    · exact ⟨_, ⟨b, by simp, rfl⟩, hx⟩

theorem dirty_mono {l l' : List Buf} (h : l ⊆ l') {x : ℕ} (hx : dirty B (ownIn B l) x) :
    dirty B (ownIn B l') x := by
  rcases hx with ⟨d, ⟨k, hk, rfl⟩, hs⟩ | hw
  · exact .inl ⟨_, ⟨k, h hk, rfl⟩, hs⟩
  · exact .inr hw

/-- **Both swaps of the ladder.** -/
theorem swapPairs_spec :
    residueCoords B (swapPairs B (mask q) s) = (residueCoords B s).swap q ∧
      (Canonical B s → Canonical B (swapPairs B (mask q) s)) ∧
      Kept B Slot.prog (dirty B (ownIn B stepBufs)) s (swapPairs B (mask q) s) := by
  obtain ⟨h1, hk1⟩ := swapBufs_spec (B := B) (s := s) (a := .x25X2) (b := .x25X3) (q := q)
  obtain ⟨h2, hk2⟩ := swapBufs_spec (B := B) (s := swapBufs B .x25X2 .x25X3 (mask q) s)
    (a := .x25Z2) (b := .x25Z3) (q := q)
  have hval : ∀ c, (swapPairs B (mask q) s).fe (B.mem.buf c) = s.fe (B.mem.buf (if q then
      Equiv.swap .x25X2 .x25X3 (Equiv.swap .x25Z2 .x25Z3 c) else c)) := fun c => by
    refine (h2 c).trans ((h1 _).trans ?_)
    split <;> rfl
  refine ⟨?_, fun hz => ?_, ?_⟩
  · simp only [residueCoords, View.coords, View.residues, ownView, hval]
    cases q <;> rfl
  · rw [Canonical, hval, hval]
    cases q
    · exact hz
    · exact ⟨hz.2, hz.1⟩
  · exact (hk1.mono fun x => dirty_mono (by decide)).trans
      (hk2.mono fun x => dirty_mono (by decide))

/-! ## The bits of the scalar -/

theorem leNat_testBit {f : ℕ → Byte} {n k j : ℕ} (hk : k < n) (hj : j < 8) :
    (leNat f n).testBit (8 * k + j) = (f k).getLsbD j := by
  have h256 : 256 ^ k = 2 ^ (8 * k) := by
    rw [pow_mul]
    norm_num
  rw [byte_of_leNat (f := f) hk, BitVec.getLsbD_ofNat, h256, Nat.testBit_div_two_pow, Nat.add_comm]
  simp [hj]

/-- The test of one bit, as the source makes it. -/
theorem cmp_and_bit (y : Byte) {j : ℕ} (hj : j < 8) :
    cmp (y &&& BitVec.ofNat 8 (2 ^ j)) 1 = y.getLsbD j := by
  have hpow : BitVec.ofNat 8 (2 ^ j) = BitVec.twoPow 8 j := by
    interval_cases j <;> rfl
  rw [hpow, BitVec.and_twoPow]
  split
  · rename_i h
    rw [h, ← hpow]
    interval_cases j <;> rfl
  · rename_i h
    rw [Bool.eq_false_iff.2 h]
    rfl

theorem lsr_bit {j : ℕ} (hj : j < 8) :
    (lsr (BitVec.ofNat 8 (2 ^ j))).1 = BitVec.ofNat 8 (2 ^ j / 2) := by
  interval_cases j <;> rfl

theorem half_bit_eq_zero {j : ℕ} (hj : j < 8) : BitVec.ofNat 8 (2 ^ j / 2) = 0 ↔ j = 0 := by
  interval_cases j <;> decide

/-- The scalar in `x25_scalar`. -/
def scalar (B : Build) (s : Machine) : ℕ := s.fe (B.mem.buf .x25Scalar)

/-- The position of scalar bit `k`, as the bit loop keeps it. -/
structure AtBit (B : Build) (k : ℕ) (s : Machine) : Prop where
  byte : (s.zp (B.slot .x25ByteIdx)).toNat = k / 8
  bit : s.zp (B.slot .x25BitMask) = BitVec.ofNat 8 (2 ^ (k % 8))

/-- **The head of a turn**: the mask of the scalar bit, and the mask of its
change. -/
theorem ladderBitMask_spec {k : ℕ} (hp : s.zp (B.slot .x25PrevBit) = mask q) (h : AtBit B k s)
    (hk : k < 256) :
    ladderBitMask B s = (mask ((scalar B s).testBit k ^^ q),
      s.setZp (B.slot .x25PrevBit) (mask ((scalar B s).testBit k))) := by
  have hbit : cmp (s.ram (B.mem.buf .x25Scalar + (s.zp (B.slot .x25ByteIdx)).toNat) &&&
      s.zp (B.slot .x25BitMask)) 1 = (scalar B s).testBit k := by
    rw [h.byte, h.bit, cmp_and_bit _ (Nat.mod_lt _ (by omega)), scalar, Machine.fe]
    have hsplit : 8 * (k / 8) + k % 8 = k := Nat.div_add_mod k 8
    rw [← leNat_testBit (n := 32) (f := fun j => s.ram (B.mem.buf .x25Scalar + j)) (k := k / 8)
      (by omega) (Nat.mod_lt _ (by omega)), hsplit]
  simp only [ladderBitMask, hbit, sbc_zero_zero, mask_xor_ff, Bool.not_not, hp, mask_xor]

/-- **The tail of a turn**: the next position, and whether there is one. -/
theorem ladderNext_spec {k : ℕ} (h : AtBit B k s) (hk : k < 255) :
    (ladderNext B s).2 = decide (0 < k) ∧ (0 < k → AtBit B (k - 1) (ladderNext B s).1) ∧
      (ladderNext B s).1.zp (B.slot .x25PrevBit) = s.zp (B.slot .x25PrevBit) ∧
      (ladderNext B s).1.ram = s.ram ∧
      ∀ D, Kept B (fun _ => true) D s (ladderNext B s).1 := by
  have hj : k % 8 < 8 := Nat.mod_lt _ (by omega)
  unfold ladderNext
  extract_lets s1 s2 s3
  have hmask : s1.zp (B.slot .x25BitMask) = BitVec.ofNat 8 (2 ^ (k % 8) / 2) := by
    rw [show s1 = _ from rfl, setZp_zp_self, h.bit, lsr_bit hj]
  have hbyte : s1.zp (B.slot .x25ByteIdx) = s.zp (B.slot .x25ByteIdx) := setZp_zp_slot (by decide)
  have hprev : s1.zp (B.slot .x25PrevBit) = s.zp (B.slot .x25PrevBit) := setZp_zp_slot (by decide)
  split
  · rename_i hne
    -- the same byte
    have hpos : k % 8 ≠ 0 := fun h0 => hne (hmask.trans ((half_bit_eq_zero hj).2 h0))
    refine ⟨(decide_eq_true (by omega)).symm, fun _ => ⟨?_, ?_⟩, hprev, rfl, fun D => ?_⟩
    · rw [hbyte, h.byte]
      omega
    · rw [hmask, show (k - 1) % 8 = k % 8 - 1 by omega]
      obtain ⟨m, hm⟩ := Nat.exists_eq_succ_of_ne_zero hpos
      rw [hm, Nat.succ_eq_add_one, pow_succ, Nat.mul_div_cancel _ (by omega), Nat.add_sub_cancel]
    · exact (Kept.refl s).setSlot rfl
  · rename_i heq
    -- the byte before
    have hzero : k % 8 = 0 := by
      by_contra hne
      exact heq fun hz => hne ((half_bit_eq_zero hj).1 (hmask.symm.trans hz))
    have h3 : s3.zp (B.slot .x25ByteIdx) = s.zp (B.slot .x25ByteIdx) - 1 := by
      rw [show s3 = _ from rfl, setZp_zp_self, show s2 = _ from rfl, setZp_zp_slot (by decide), hbyte]
    have hkept : ∀ D, Kept B (fun _ => true) D s s3 := fun D =>
      (((Kept.refl s).setSlot rfl).setSlot rfl).setSlot rfl
    have hprev3 : s3.zp (B.slot .x25PrevBit) = s.zp (B.slot .x25PrevBit) := by
      rw [show s3 = _ from rfl, setZp_zp_slot (by decide), show s2 = _ from rfl,
        setZp_zp_slot (by decide), hprev]
    refine ⟨?_, fun hpos => ⟨?_, ?_⟩, hprev3, rfl, hkept⟩
    · rw [h3]
      rcases Nat.eq_zero_or_pos k with rfl | hpos
      · have hb : s.zp (B.slot .x25ByteIdx) = 0 := BitVec.eq_of_toNat_eq h.byte
        rw [hb]
        rfl
      · have hb : (s.zp (B.slot .x25ByteIdx) - 1).toNat = k / 8 - 1 :=
          toNat_sub_one (by rw [h.byte]; omega)
        have hlow : (s.zp (B.slot .x25ByteIdx) - 1).getLsbD 7 = false := by
          rw [BitVec.getLsbD, hb]
          exact Nat.testBit_lt_two_pow (by omega)
        rw [hlow]
        exact (decide_eq_true hpos).symm
    · rw [h3, toNat_sub_one (n := k / 8 - 1) (by rw [h.byte]; omega)]
      omega
    · rw [show (k - 1) % 8 = 7 by omega, show s3 = _ from rfl, setZp_zp_slot (by decide),
        show s2 = _ from rfl, setZp_zp_self]
      rfl

/-! ## The set-up -/

/-- A store to the top byte of a buffer. -/
theorem fe_setRam_top {k : ℕ} {v : Byte} : (s.setRam (k + 31) v).fe k
    + (s.ram (k + 31)).toNat * 256 ^ 31 = s.fe k + v.toNat * 256 ^ 31 := by
  have hwin : (fun j => (s.setRam (k + 31) v).ram (k + j))
      = Function.update (fun j => s.ram (k + j)) 31 v := by
    funext j
    rw [setRam_ram]
    rcases eq_or_ne j 31 with rfl | hne
    · rw [Function.update_self, Function.update_self]
    · rw [Function.update_of_ne (by omega), Function.update_of_ne hne]
  rw [Machine.fe, hwin]
  exact leNat_update v (by omega)

/-- Masking the top bit of a buffer reduces its number modulo `2 ^ 255`. -/
theorem fe_mask_top {k : ℕ} :
    (s.setRam (k + 31) (s.ram (k + 31) &&& 0x7f)).fe k = s.fe k % 2 ^ 255 := by
  have hset := fe_setRam_top (s := s) (k := k) (v := s.ram (k + 31) &&& 0x7f)
  have hand : (s.ram (k + 31) &&& 0x7f).toNat = (s.ram (k + 31)).toNat % 128 := by
    rw [BitVec.toNat_and]
    exact Nat.and_two_pow_sub_one_eq_mod _ 7
  have hsplit : s.fe k = leNat (fun j => s.ram (k + j)) 31 + (s.ram (k + 31)).toNat * 256 ^ 31 :=
    leNat_succ
  have hlow : leNat (fun j => s.ram (k + j)) 31 < 256 ^ 31 := leNat_lt
  rw [hand] at hset
  omega

/-- The buffers the set-up writes. -/
def decodeBufs : List Buf := [.x25X2, .x25Z2, .x25X3, .x25X1, .x25Z3]

/-- **The set-up of the ladder.** -/
theorem ladderDecode_spec (hr : Ready B s) :
    let t := ladderDecode B s
    t.fe (B.mem.buf .x25X1) = s.fe (B.mem.buf .x25U) % 2 ^ 255 ∧
      t.fe (B.mem.buf .x25X3) = s.fe (B.mem.buf .x25U) % 2 ^ 255 ∧
      t.fe (B.mem.buf .x25X2) = 1 ∧ t.fe (B.mem.buf .x25Z2) = 0 ∧
      t.fe (B.mem.buf .x25Z3) = 1 ∧ t.zp (B.slot .x25PrevBit) = mask false ∧ AtBit B 254 t ∧
      Kept B (fun _ => true) (dirty B (ownIn B decodeBufs)) s t := by
  intro t
  -- (1 : 0), and the copy of the coordinate
  obtain ⟨hs1, hk1⟩ := exec_own (l := decodeBufs) [.dst .x25X2, .jsr .fe25519One, .dst .x25Z2,
    .jsr .fe25519Zero, .src1 .x25U, .dst .x25X3, .jsr .fe25519Copy] hr rfl (by decide)
  set s1 := exec B B.mem.buf [.dst .x25X2, .jsr .fe25519One, .dst .x25Z2, .jsr .fe25519Zero,
    .src1 .x25U, .dst .x25X3, .jsr .fe25519Copy] s with hs1d
  have hU : s1.fe (B.mem.buf .x25X3) = s.fe (B.mem.buf .x25U) := hs1 .x25X3
  have hUU : s1.fe (B.mem.buf .x25U) = s.fe (B.mem.buf .x25U) := hs1 .x25U
  -- its top bit
  set s2 := s1.setRam (B.mem.buf .x25X3 + 31) (s1.ram (B.mem.buf .x25X3 + 31) &&& 0x7f) with hs2d
  have hk2 : Kept B Slot.prog (dirty B (ownIn B decodeBufs)) s s2 :=
    hk1.setRam (.inl ⟨_, own_mem .x25X3 (by decide), (B.mem.own .x25X3).span_add (by omega)⟩)
  have hX3 : s2.fe (B.mem.buf .x25X3) = s.fe (B.mem.buf .x25U) % 2 ^ 255 := by
    rw [hs2d, fe_mask_top, hU]
  have hother : ∀ b, b ≠ .x25X3 → s2.fe (B.mem.buf b) = s1.fe (B.mem.buf b) := fun b hb => by
    refine leNat_congr fun j hj => Function.update_of_ne ?_ _ _
    intro he
    have hne : B.mem.own b ≠ B.mem.own .x25X3 := fun h => hb (MemMap.own_inj.1 h)
    exact FieldBuf.not_span hne ((B.mem.own b).span_add hj)
      (he ▸ (B.mem.own .x25X3).span_add (by omega))
  -- the second copy, and the other one
  obtain ⟨hs3, hk3⟩ := exec_own (l := decodeBufs) [.src1 .x25X3, .dst .x25X1, .jsr .fe25519Copy,
    .dst .x25Z3, .jsr .fe25519One] (hr.kept hk2) rfl (by decide)
  set s3 := exec B B.mem.buf [.src1 .x25X3, .dst .x25X1, .jsr .fe25519Copy, .dst .x25Z3,
    .jsr .fe25519One] s2 with hs3d
  have ht : t = ((s3.setZp (B.slot .x25PrevBit) 0).setZp (B.slot .x25ByteIdx) 31).setZp
      (B.slot .x25BitMask) 0x40 := by
    have htop : s1.ram (B.mem.buf .x25X3 + 31) = s1.ram (B.mem.buf .x25U + 31) :=
      leNat_inj (n := 32) (f := fun j => s1.ram (B.mem.buf .x25X3 + j))
        (g := fun j => s1.ram (B.mem.buf .x25U + j)) (hU.trans hUU.symm) (by omega)
    simp only [t, ladderDecode, ← hs1d, ← htop, ← hs2d, ← hs3d]
  have hval : ∀ b, t.fe (B.mem.buf b) = s3.fe (B.mem.buf b) := fun b => by
    rw [ht]
    rfl
  refine ⟨?_, ?_, ?_, ?_, ?_, ?_, ⟨?_, ?_⟩, ?_⟩
  · exact (hval _).trans ((hs3 .x25X1).trans hX3)
  · exact (hval _).trans ((hs3 .x25X3).trans hX3)
  · exact (hval _).trans ((hs3 .x25X2).trans ((hother _ (by decide)).trans (hs1 .x25X2)))
  · exact (hval _).trans ((hs3 .x25Z2).trans ((hother _ (by decide)).trans (hs1 .x25Z2)))
  · exact (hval _).trans (hs3 .x25Z3)
  · rw [ht, setZp_zp_slot (by decide), setZp_zp_slot (by decide), setZp_zp_self]
    rfl
  · rw [ht, setZp_zp_slot (by decide), setZp_zp_self]
    rfl
  · rw [ht, setZp_zp_self]
    rfl
  · rw [ht]
    exact ((((hk2.trans hk3).widen).setSlot rfl).setSlot rfl).setSlot rfl

/-! ## The turns -/

/-- The scalar bits of the first `i` turns. -/
def ladderBits (n i : ℕ) : List Bool := (List.range i).map fun j => n.testBit (254 - j)

theorem ladderBits_succ (n i : ℕ) :
    ladderBits n (i + 1) = ladderBits n i ++ [n.testBit (254 - i)] := by
  rw [ladderBits, List.range_succ, List.map_append]
  rfl

/-- The residue of `x25_x1`. -/
def baseX (B : Build) (s : Machine) : ZMod p := (s.fe (B.mem.buf .x25X1) : ZMod p)

/-- The machine before turn `i` of the bit loop, from the state `s` the
set-up left. -/
structure LadderAt (B : Build) (s : Machine) (i : ℕ) (t : Machine) : Prop where
  kept : Kept B (fun _ => true) (dirty B (ownIn B stepBufs)) s t
  coords : residueCoords B t
    = (Ladder.turns 121665 (baseX B s) (ladderBits (scalar B s) i)).1
  prev : t.zp (B.slot .x25PrevBit)
    = mask (Ladder.turns 121665 (baseX B s) (ladderBits (scalar B s) i)).2
  canonical : Canonical B t
  pos : i < 255 → AtBit B (254 - i) t

theorem Kept.own_fe {S : Slot → Bool} {l : List Buf} (h : Kept B S (dirty B (ownIn B l)) s t)
    {k : Buf} (hk : k ∉ l) : t.fe (B.mem.buf k) = s.fe (B.mem.buf k) :=
  h.fe_eq fun _ hi => not_dirty (a := B.mem.own k) (not_ownIn hk) hi

/-- The swaps at the head of turn `i`. -/
theorem ladderSwap_spec (h : LadderAt B s i t) (hi : i < 255) :
    let k := (scalar B s).testBit (254 - i)
    let st := Ladder.turns 121665 (baseX B s) (ladderBits (scalar B s) i)
    residueCoords B (ladderSwap B t) = st.1.swap (k ^^ st.2) ∧ Canonical B (ladderSwap B t) ∧
      (ladderSwap B t).zp (B.slot .x25PrevBit) = mask k ∧ AtBit B (254 - i) (ladderSwap B t) ∧
      Kept B (fun _ => true) (dirty B (ownIn B stepBufs)) t (ladderSwap B t) := by
  intro k st
  have hscalar : scalar B t = scalar B s := h.kept.own_fe (by decide)
  have hmask := ladderBitMask_spec h.prev (h.pos hi) (by omega)
  rw [hscalar] at hmask
  set t1 := t.setZp (B.slot .x25PrevBit) (mask k) with ht1
  have hswap : ladderSwap B t = swapPairs B (mask (k ^^ st.2)) t1 := by
    rw [ladderSwap, hmask]
  obtain ⟨hc, hcan, hk⟩ := swapPairs_spec (B := B) (s := t1) (q := k ^^ st.2)
  rw [hswap]
  refine ⟨?_, hcan h.canonical, ?_, ⟨?_, ?_⟩, ((Kept.refl t).setSlot rfl).trans hk.widen⟩
  · rw [hc, ← h.coords]
    rfl
  · rw [hk.zp_slot rfl, ht1, setZp_zp_self]
  · rw [hk.zp_slot rfl, ht1, setZp_zp_slot (by decide)]
    exact (h.pos hi).byte
  · rw [hk.zp_slot rfl, ht1, setZp_zp_slot (by decide)]
    exact (h.pos hi).bit

/-- The set-up leaves the loop before its first turn. -/
theorem ladderAt_zero (hr : Ready B s) : LadderAt B (ladderDecode B s) 0 (ladderDecode B s) := by
  obtain ⟨hX1, hX3, hX2, hZ2, hZ3, hprev, hpos, -⟩ := ladderDecode_spec hr
  refine ⟨Kept.refl _, ?_, hprev, ?_, fun _ => hpos⟩
  · have hnil : ladderBits (scalar B (ladderDecode B s)) 0 = [] := rfl
    rw [hnil, Ladder.turns_nil]
    refine Ladder.ext ?_ ?_ ?_ ?_
    · exact (congrArg Nat.cast hX2).trans Nat.cast_one
    · exact (congrArg Nat.cast hZ2).trans Nat.cast_zero
    · exact congrArg Nat.cast (hX3.trans hX1.symm)
    · exact (congrArg Nat.cast hZ3).trans Nat.cast_one
  · rw [Canonical, hZ2, hZ3]
    norm_num [p]

/-- **One turn of the bit loop** is one turn of the ladder. -/
theorem ladderBit_spec (hr : Ready B s) (h : LadderAt B s i t) (hi : i < 255) :
    LadderAt B s (i + 1) (ladderBit B t).1 ∧ (ladderBit B t).2 = decide (i + 1 < 255) ∧
      InRange B B.mem.buf ladderStepCode (ladderSwap B t) := by
  obtain ⟨hc1, hcan1, hp1, hpos1, hk1⟩ := ladderSwap_spec h hi
  have hkept1 := h.kept.trans hk1
  have hbase : ((ladderSwap B t).fe (B.mem.buf .x25X1) : ZMod p) = baseX B s :=
    congrArg _ (hkept1.own_fe (by decide))
  obtain ⟨hc2, hcan2, hk2, hrange⟩ := x25519LadderStep_spec (hr.kept hkept1) hcan1
  have hpos2 : AtBit B (254 - i) (x25519LadderStep B (ladderSwap B t)) :=
    ⟨by rw [hk2.zp_slot rfl]; exact hpos1.byte, by rw [hk2.zp_slot rfl]; exact hpos1.bit⟩
  obtain ⟨hagain, hpos3, hp3, hram3, hk3⟩ := ladderNext_spec hpos2 (by omega)
  have hfe : ∀ a, (ladderBit B t).1.fe a = (x25519LadderStep B (ladderSwap B t)).fe a := fun a => by
    rw [Machine.fe, Machine.fe]
    exact leNat_congr fun j _ => congrFun hram3 _
  refine ⟨⟨hkept1.trans (hk2.widen.trans (hk3 _)), ?_, ?_, ?_, fun hlt => ?_⟩, ?_, hrange⟩
  · rw [ladderBits_succ, Ladder.turns_concat, Ladder.turn, ← hc1, ← hbase, ← hc2]
    simp only [residueCoords, View.residues, View.coords, ownView, hfe]
  · rw [ladderBits_succ, Ladder.turns_concat, Ladder.turn]
    exact hp3.trans ((hk2.zp_slot rfl).trans hp1)
  · rw [Canonical, hfe, hfe]
    exact hcan2
  · rw [show 254 - (i + 1) = 254 - i - 1 by omega]
    exact hpos3 (by omega)
  · rw [show (ladderBit B t).2 = _ from hagain]
    exact decide_eq_decide.2 (by omega)

/-- The machine before turn `i`. -/
def ladderTurn (B : Build) (s : Machine) (i : ℕ) : Machine := (fun t => (ladderBit B t).1)^[i] s

/-- **Every turn of the bit loop.** -/
theorem ladderTurn_spec (hr : Ready B s) (h0 : LadderAt B s 0 s) (hi : i ≤ 255) :
    LadderAt B s i (ladderTurn B s i) := by
  induction i with
  | zero => exact h0
  | succ i ih =>
    rw [ladderTurn, Function.iterate_succ_apply']
    exact (ladderBit_spec hr (ih (by omega)) (by omega)).1

/-- **The bit loop** takes 255 turns. -/
theorem ladderLoop_eq (hr : Ready B s) (h0 : LadderAt B s 0 s) :
    doWhile (ladderBit B) 0x800 s = ladderTurn B s 255 :=
  doWhile_eq_iterate (by omega) (by omega) fun _ hk =>
    (ladderBit_spec hr (ladderTurn_spec hr h0 (by omega)) hk).2.1

/-! ## The end -/

/-- The buffers the scalar multiplication writes. -/
def x25519Bufs : List Buf := .x25X1 :: .x25Result :: stepBufs

/-- The last product as a program. -/
def finishCode : List (Instr Buf) :=
  [.src1 .x25X2, .src2 .x25Result, .dst .x25Result, .jsr .fe25519Mul, .jsr .fe25519ReduceFinal]

theorem finish_eval {α : Type} (I : Interp α) (v : View Buf α) :
    ∃ v', evals I Buf.fe25519Tmp2 finishCode v = some v' ∧
      v'.val .x25Result = I.reduce (I.mul (v.val .x25X2) (v.val .x25Result)) :=
  ⟨_, rfl, rfl⟩

/-- **The end of the ladder**: the last swap, and `x2 / z2` in canonical
form. -/
theorem ladderFinish_spec (hr : Ready B s) (hp : s.zp (B.slot .x25PrevBit) = mask q) :
    (ladderFinish B s).fe (B.mem.buf .x25Result)
        = (((residueCoords B s).swap q).x2 * ((residueCoords B s).swap q).z2 ^ (p - 2)).val ∧
      Kept B Slot.prog (dirty B (ownIn B x25519Bufs)) s (ladderFinish B s) := by
  unfold ladderFinish
  rw [hp]
  extract_lets s1 s2 s3
  obtain ⟨hswap, -, hk1⟩ := swapPairs_spec (B := B) (s := s) (q := q)
  change residueCoords B s1 = _ at hswap
  change Kept B _ _ s s1 at hk1
  -- the pointers of the inversion
  have hs2 : s2 = (s1.setPtr B .fe25519Src1 (B.mem.buf .x25Z2)).setPtr B .fe25519Dst
    (B.mem.buf .x25Result) := rfl
  have hfits : ∀ b, B.mem.buf b < 0x10000 := fun b => by
    have hfit := (B.mem.own b).fits
    rw [MemMap.own_addr] at hfit
    omega
  have hk2 : Kept B Slot.prog (dirty B (ownIn B x25519Bufs)) s s2 := by
    rw [hs2]
    exact ((hk1.mono fun x => dirty_mono (by decide)).setPtr rfl rfl).setPtr rfl rfl
  have h21 : s2.ptr B .fe25519Src1 = (B.mem.own .x25Z2).addr := by
    rw [hs2]
    exact (ptr_setPtr_of_ne (by decide) rfl rfl).trans (ptr_setPtr (hfits _))
  have h2d : s2.ptr B .fe25519Dst = (B.mem.own .x25Result).addr := by
    rw [hs2]
    exact ptr_setPtr (hfits _)
  have hinv := fe25519Inv_spec (hr.kept hk2) h21 h2d
  obtain ⟨hres, -, hk3⟩ := hinv
  change s3.fe _ = _ at hres
  change Kept B _ _ s2 s3 at hk3
  have hX2 : s3.fe (B.mem.buf .x25X2) = s1.fe (B.mem.buf .x25X2) := by
    refine (hk3.fe_eq fun _ hi => not_dirty (a := B.mem.own .x25X2) ?_ hi).trans (by rw [hs2]; rfl)
    rintro (he | he)
    · exact absurd (MemMap.own_inj.1 he) (by decide)
    · exact not_ownIn (by decide) he
  have hk3' : Kept B Slot.prog (dirty B (ownIn B x25519Bufs)) s s3 := by
    refine hk2.trans (hk3.mono fun x hx => ?_)
    rcases hx with ⟨d, rfl | ⟨k, hk, rfl⟩, hd⟩ | hw
    · exact .inl ⟨_, own_mem .x25Result (by decide), hd⟩
    · exact .inl ⟨_, own_mem k ((by decide : invBufs ⊆ x25519Bufs) hk), hd⟩
    · exact .inr hw
  -- the product
  obtain ⟨v', hv', hval⟩ := finish_eval raw (ownView B s3)
  change _ = raw.reduce (raw.mul (s3.fe (B.mem.buf .x25X2)) (s3.fe (B.mem.buf .x25Result))) at hval
  obtain ⟨hshow, hk4⟩ := exec_own (l := x25519Bufs) finishCode (hr.kept hk3') hv' (by decide)
  refine ⟨?_, hk3'.trans hk4⟩
  refine ((hshow .x25Result).trans hval).trans (mod_p_eq_val ?_)
  have hz2 : s2.fe (B.mem.own .x25Z2).addr = s1.fe (B.mem.buf .x25Z2) := rfl
  have hinv' : (s3.fe (B.mem.buf .x25Result) : ZMod p)
      = (s1.fe (B.mem.buf .x25Z2) : ZMod p) ^ (p - 2) := by
    rw [show s3.fe (B.mem.buf .x25Result) = _ from hres, hz2, ZMod.natCast_zmod_val]
  rw [raw_mul, reduceWide_cast, Nat.cast_mul, hinv', hX2, ← hswap]
  rfl

/-! ## The routine -/

/-- X25519 on residues: the ladder of RFC 7748 over bits 254 to 0 of `n`,
and its last division. -/
def x25519 (n : ℕ) (u : ZMod p) : ZMod p :=
  (Ladder.run 121665 u (ladderBits n 255)).x2 * (Ladder.run 121665 u (ladderBits n 255)).z2 ^ (p - 2)

/-- The u-coordinate in `x25_u`, as the routine reads it. -/
def uCoord (B : Build) (s : Machine) : ZMod p := ((s.fe (B.mem.buf .x25U) % 2 ^ 255 : ℕ) : ZMod p)

/-- The state the bit loop starts in. -/
def ladderStart (B : Build) (s : Machine) : Machine :=
  ladderDecode B (entryStores B (s.setFlagI true))

theorem Ready.setFlagI {f : Bool} (h : Ready B s) : Ready B (s.setFlagI f) :=
  ⟨⟨h.sqtab.lo, h.sqtab.hi⟩, h.live, fun hb => ⟨(h.mulRows hb).lo, (h.mulRows hb).hi⟩,
    fun hb => ⟨(h.doubled hb).lo, (h.doubled hb).hi, (h.doubled hb).carry⟩, h.guard⟩

/-- **The bit loop entered.** -/
theorem ladderStart_spec (hr : Ready B s) :
    Ready B (ladderStart B s) ∧ LadderAt B (ladderStart B s) 0 (ladderStart B s) ∧
      baseX B (ladderStart B s) = uCoord B s ∧
      Kept B (fun _ => true) (dirty B (ownIn B decodeBufs)) (s.setFlagI true)
        (ladderStart B s) := by
  have he : Kept B Slot.prog (dirty B (ownIn B decodeBufs)) (s.setFlagI true)
      (entryStores B (s.setFlagI true)) := Kept.of_frame (entryStores_frame _)
  have hre := (hr.setFlagI (f := true)).kept he
  have hu : (entryStores B (s.setFlagI true)).fe (B.mem.buf .x25U) = s.fe (B.mem.buf .x25U) :=
    he.own_fe (by decide)
  obtain ⟨hX1, -, -, -, -, -, -, hk⟩ := ladderDecode_spec hre
  refine ⟨hre.kept hk, ladderAt_zero hre, ?_, he.widen.trans hk⟩
  rw [baseX, uCoord, ← hu]
  exact congrArg Nat.cast hX1

/-- **`x25519_scalarmult`.** -/
theorem x25519Scalarmult_spec (hr : Ready B s) :
    (x25519Scalarmult B s).fe (B.mem.buf .x25Result) = (x25519 (scalar B s) (uCoord B s)).val ∧
      Kept B (fun _ => true) (dirty B (ownIn B x25519Bufs)) s (x25519Scalarmult B s) := by
  obtain ⟨hr0, h0, hbase, hk0⟩ := ladderStart_spec hr
  have h255 := ladderTurn_spec hr0 h0 (le_refl 255)
  obtain ⟨hres, hkf⟩ := ladderFinish_spec (hr0.kept h255.kept) h255.prev
  have hrun : x25519Scalarmult B s
      = (ladderFinish B (ladderTurn B (ladderStart B s) 255)).setFlagI s.flagI := by
    rw [← ladderLoop_eq hr0 h0]
    rfl
  have hn : scalar B (ladderStart B s) = scalar B s := hk0.own_fe (by decide)
  have hk : Kept B (fun _ => true) (dirty B (ownIn B x25519Bufs)) (s.setFlagI true)
      (ladderFinish B (ladderTurn B (ladderStart B s) 255)) :=
    ((hk0.mono fun x => dirty_mono (by decide)).trans (h255.kept.mono fun x =>
      dirty_mono (by decide))).trans hkf.widen
  rw [hrun]
  refine ⟨?_, ⟨hk.ram, hk.zp, rfl, hk.mem, hk.live⟩⟩
  rw [h255.coords, hbase, hn] at hres
  exact hres

end C64X25519
