import C64X25519.Helpers.SqrRow
/-!
# The inner loops of a squaring

A row runs pairs of bodies, through the quarter squares or through a row of
the doubled tables. Either engine adds the same products under the same
invariant; they differ in the last body of row 30, which stands one byte
past the operand.
-/

namespace C64X25519

open Machine

variable {B : Build} {s t : Machine} {a b d : FieldBuf B.mem} {i j k x A : ℕ} {v : Byte}

/-! ## The pairs of a row -/

/-- The pairs of bodies in row `i`. -/
def sqrPairs (i : ℕ) : ℕ := (32 - i) / 2

/-- What a row starts from: nothing pending, the cursor past the diagonal,
the pairs counted. -/
structure RowStart (B : Build) (i A : ℕ) (s : Machine) : Prop where
  pend : sqrPend s = 0
  cursor : sqrCursor B s = i + 1
  pairs : (s.zp (B.slot .feSqrPairs)).toNat = sqrPairs i
  row : i ≤ 30
  room : s.wide B 64 + 256 ^ i * (2 * A * copyNat B s 33)
    < 256 ^ 64 + 256 ^ i * (2 * A * copyNat B s (i + 1))

theorem RowStart.at (h : RowStart B i A s) : SqrAt B i A s (i + 1) s where
  sum := ⟨SqrStep.refl s, by rw [h.pend]; ring⟩
  bit := by rw [h.pend]; omega

theorem copyNat_mono (h : j ≤ k) : copyNat B s j ≤ copyNat B s k := leNat_mono h

theorem RowStart.room_at (h : RowStart B i A s) (hx : x ≤ 32) :
    s.wide B 64 + 256 ^ i * (2 * A * copyNat B s (x + 1))
      < 256 ^ 64 + 256 ^ i * (2 * A * copyNat B s (i + 1)) := by
  have hle : 256 ^ i * (2 * A * copyNat B s (x + 1)) ≤ 256 ^ i * (2 * A * copyNat B s 33) :=
    Nat.mul_le_mul_left _ (Nat.mul_le_mul_left _ (copyNat_mono (by omega)))
  have hroom := h.room
  omega

/-! ## The DMA engine -/

/-- What the rows through the doubled tables rely on: the staged entries, 17
bits each, at the bytes of the copy and at the guard byte. -/
structure DmaRow (B : Build) (i A : ℕ) (s : Machine) : Prop where
  entry : ∀ x, x < 33 →
    (s.ram (B.mem.mulDmaLo + (s.ram (B.mem.mulSrc2Buf + x)).toNat)).toNat
      + 256 * (s.ram (B.mem.mulDmaHi + (s.ram (B.mem.mulSrc2Buf + x)).toNat)).toNat
      + 65536 * (s.ram (B.mem.mulDmaCarry + (s.ram (B.mem.mulSrc2Buf + x)).toNat)).toNat
      = 2 * A * (s.ram (B.mem.mulSrc2Buf + x)).toNat
  carry : ∀ x, x < 33 →
    (s.ram (B.mem.mulDmaCarry + (s.ram (B.mem.mulSrc2Buf + x)).toNat)).toNat ≤ 1
  ops : ∀ u, u = .a ∨ u = .b → RowOps B i (.sqrDmaLd1 u) (.sqrDmaSt1 u) (.sqrDmaLd2 u)
    (.sqrDmaSt2 u) (.sqrDmaChainLd u) (.sqrDmaChainSt u) s

/-- The additions of a body through the doubled row, and the carry they
combine. -/
def sqrDmaAccum (B : Build) (u : Body) (x : ℕ) (s : Machine) : Byte × Machine :=
  let y := s.ram (B.mem.mulSrc2Buf + x)
  let s := s.setZp (B.slot .mulCarry) (s.ram (B.mem.mulDmaCarry + y.toNat))
  let r := adc (s.zp (s.zpx (.sqrDmaLd1 u) x)) (s.ram (B.mem.mulDmaLo + y.toNat)) false
  let s := s.setZp (s.zpx (.sqrDmaSt1 u) x) r.1
  let q := adc (s.zp (s.zpx (.sqrDmaLd2 u) x)) (s.ram (B.mem.mulDmaHi + y.toNat)) r.2
  let s := s.setZp (s.zpx (.sqrDmaSt2 u) x) q.1
  let a := adc 0 (s.zp (B.slot .mulCarry)) q.2
  ((adc a.1 (s.var .sqrPending) false).1, s)

theorem sqrDmaBody_chain {u : Body} : sqrDmaBody B u x t
    = sqrChain (.sqrDmaChainLd u) (.sqrDmaChainSt u) (sqrDmaAccum B u x t).1 (x + 1)
      (sqrDmaAccum B u x t).2 := rfl

theorem sqrDmaAccum_eq {u : Body} {w : Machine} {y : Byte} (hy : t.ram (B.mem.mulSrc2Buf + x) = y)
    (hw : w = t.setZp (B.slot .mulCarry) (t.ram (B.mem.mulDmaCarry + y.toNat)))
    (ho : RowOps B i (.sqrDmaLd1 u) (.sqrDmaSt1 u) (.sqrDmaLd2 u) (.sqrDmaSt2 u)
      (.sqrDmaChainLd u) (.sqrDmaChainSt u) w) (hx : i + x + 1 < 64) :
    ∀ q, q = adcWide B (i + x + 1) (w.ram (B.mem.mulDmaHi + y.toNat))
        (adcWide B (i + x) (w.ram (B.mem.mulDmaLo + y.toNat)) (false, w)) →
      sqrDmaAccum B u x t = ((adc (adc 0 (t.ram (B.mem.mulDmaCarry + y.toNat)) q.1).1
        (w.var .sqrPending) false).1, q.2) := by
  intro q hq
  have hzq : InZp B [.feWide] w q.2 := by
    rw [hq]
    exact (adcPair_spec _ _ hx).2
  have hcar : q.2.zp (B.slot .mulCarry) = t.ram (B.mem.mulDmaCarry + y.toNat) := by
    rw [hzq.slot (by simp), hw]
    exact setZp_zp_self
  have h1 : w.setZp (B.wideAt (i + x)) (adc (w.zp (B.wideAt (i + x)))
      (w.ram (B.mem.mulDmaLo + y.toNat)) false).1
        = (adcWide B (i + x) (w.ram (B.mem.mulDmaLo + y.toNat)) (false, w)).2 := rfl
  have ho1 := ho.step ((SqrStep.refl w).setWide (k := i + x)
    (v := (adc (w.zp (B.wideAt (i + x))) (w.ram (B.mem.mulDmaLo + y.toNat)) false).1) (by omega))
  rw [h1] at ho1
  simp only [sqrDmaAccum, hy, ← hw]
  rw [← hcar]
  simp only [ho.ld1, ho.st1, h1, ho1.ld2, ho1.st2, show i + 1 + x = i + x + 1 by omega, hq]
  rfl

/-- The additions of a body through the doubled row. -/
theorem sqrDmaAccum_at {u : Body} (hr : DmaRow B i A s) (h : SqrAt B i A s x t)
    (hu : u = .a ∨ u = .b) (hx : i + x + 1 < 64) (hx33 : x < 33) :
    RowSum B i A s (x + 1) (sqrDmaAccum B u x t).1.toNat (sqrDmaAccum B u x t).2 ∧
      (sqrDmaAccum B u x t).1.toNat ≤ 3 ∧
      (sqrDmaAccum B u x t).2.zp (B.slot .feSqrPairs) = t.zp (B.slot .feSqrPairs) := by
  have hram := h.sum.step.ram
  have hprod := hr.entry x hx33
  have hcy := hr.carry x hx33
  rw [← hram] at hprod hcy
  set y := t.ram (B.mem.mulSrc2Buf + x) with hy
  set cy := t.ram (B.mem.mulDmaCarry + y.toNat) with hcyd
  set w := t.setZp (B.slot .mulCarry) cy with hw
  have hstep : SqrStep B t w := (SqrStep.refl t).setSlot (by decide)
  obtain ⟨q, hq⟩ : ∃ q, q = adcWide B (i + x + 1) (w.ram (B.mem.mulDmaHi + y.toNat))
    (adcWide B (i + x) (w.ram (B.mem.mulDmaLo + y.toNat)) (false, w)) := ⟨_, rfl⟩
  obtain ⟨hsum, hle⟩ := sqrAdd_at h hx (by rw [← hram]; exact hprod) hcy hstep
    (wide_setSlot (by decide) le_rfl) rfl q hq
  have hzq : InZp B [.feWide] w q.2 := by
    rw [hq]
    exact (adcPair_spec _ _ hx).2
  rw [sqrDmaAccum_eq rfl hw ((hr.ops u hu).step (h.sum.step.trans hstep)) hx q hq]
  exact ⟨hsum, hle, (hzq.slot (by simp)).trans (setZp_zp_slot (by decide))⟩

/-- **A body through the doubled row.** It has no guard: past the last byte
of the accumulator it owes nothing, and stores back the byte it reads
there. -/
theorem sqrDmaBody_at {u : Body} (hr : DmaRow B i A s) (h : SqrAt B i A s x t)
    (hu : u = .a ∨ u = .b) (hx : i + x + 1 < 64) (hx33 : x < 33)
    (hlt : s.wide B 64 + 256 ^ i * (2 * A * copyNat B s (x + 1))
      < 256 ^ 64 + 256 ^ i * (2 * A * copyNat B s (i + 1))) :
    SqrAt B i A s (x + 1) (sqrDmaBody B u x t) ∧
      (sqrDmaBody B u x t).zp (B.slot .feSqrPairs) = t.zp (B.slot .feSqrPairs) := by
  obtain ⟨hsum, -, hpairs⟩ := sqrDmaAccum_at (u := u) hr h hu hx hx33
  have ho := (hr.ops u hu).step hsum.step
  rw [sqrDmaBody_chain]
  rcases Nat.lt_or_ge (i + (x + 1) + 1) 64 with hin | hout
  · refine ⟨sqrChain_at hsum (hr.ops u hu) hin, ?_⟩
    rw [sqrChain_slot (k := i + 1 + (x + 1)) (by omega) (ho.stc (x + 1)) (by decide), hpairs]
  · have hzero := hsum.owes_nothing (by omega) hlt
    have hz := sqrZero_at hsum hzero
    rw [hzero, sqrChain_zero ((ho.stc (x + 1)).trans (ho.ldc (x + 1)).symm)]
    exact ⟨hz, hpairs⟩

/-! ## Body by body -/

/-- The end of a pair. -/
def sqrCount (B : Build) (s : Machine) : Machine :=
  s.setZp (B.slot .feSqrPairs) (s.zp (B.slot .feSqrPairs) - 1)

/-- The cursor and the machine the bodies of a row start from. -/
def sqrHead (B : Build) (s : Machine) : ℕ × Machine :=
  match s.tramp with
  | .sqrInner => (0, s)
  | .sqrInnerDma => (sqrCursor B s, s)

/-- The `k`-th body of a row, in the engine of the row, with the count of
pairs behind the second copy. -/
def sqrStep (B : Build) (k : ℕ) (t : ℕ × Machine) : ℕ × Machine :=
  match t.2.tramp with
  | .sqrInner =>
      if k % 2 = 0 then (t.1, sqrBodyA B t.2)
      else
        let t := sqrBodyB B t.2
        (t.1, sqrCount B t.2)
  | .sqrInnerDma =>
      if k % 2 = 0 then (t.1 + 1, sqrDmaBody B .a t.1 t.2)
      else (t.1 + 1, sqrCount B (sqrDmaBody B .b t.1 t.2))

/-- A row after its first `k` bodies. -/
def sqrBodies (B : Build) (t : ℕ × Machine) (k : ℕ) : ℕ × Machine := loopUp (sqrStep B) k t

@[simp] theorem sqrBodies_zero (t : ℕ × Machine) : sqrBodies B t 0 = t := by
  rw [sqrBodies, loopUp_zero]

theorem sqrBodies_succ (t : ℕ × Machine) (k : ℕ) :
    sqrBodies B t (k + 1) = sqrStep B k (sqrBodies B t k) := by
  rw [sqrBodies, loopUp_succ, sqrBodies]

/-- The engine of a row, with what it relies on. -/
def SqrEngine (B : Build) (i A : ℕ) (s : Machine) : Prop :=
  (s.tramp = .sqrInner ∧ TableRow B i A s) ∨ (s.tramp = .sqrInnerDma ∧ DmaRow B i A s)

/-- A row part way: after `k` bodies. -/
structure RowAt (B : Build) (i A : ℕ) (s : Machine) (k : ℕ) (t : ℕ × Machine) : Prop where
  at' : SqrAt B i A s (i + 1 + k) t.2
  pairs : (t.2.zp (B.slot .feSqrPairs)).toNat = sqrPairs i - k / 2
  cursor : s.tramp = .sqrInner → sqrCursor B t.2 = i + 1 + k
  cursorX : s.tramp = .sqrInnerDma → t.1 = i + 1 + k

theorem SqrAt.count (h : SqrAt B i A s x t) : SqrAt B i A s x (sqrCount B t) :=
  h.setSlot (by decide) (by decide)

theorem sqrCount_pairs (h : (t.zp (B.slot .feSqrPairs)).toNat = k + 1) :
    ((sqrCount B t).zp (B.slot .feSqrPairs)).toNat = k := by
  rw [sqrCount, setZp_zp_self]
  exact toNat_sub_one h

theorem sqrCount_cursor : sqrCursor B (sqrCount B t) = sqrCursor B t := by
  rw [sqrCursor, sqrCount, setZp_zp_slot (by decide), sqrCursor]

/-- **One body of a row**, in either engine. -/
theorem sqrStep_at {w : ℕ × Machine} (hr : SqrEngine B i A s) (h : RowStart B i A s)
    (hw : RowAt B i A s k w) (hk : k < 2 * sqrPairs i) : RowAt B i A s (k + 1) (sqrStep B k w) := by
  obtain ⟨x, t⟩ := w
  have hi := h.row
  have hbound : i + 1 + 2 * sqrPairs i ≤ 33 ∧ i + (i + 1 + 2 * sqrPairs i) ≤ 63 := by
    simp only [sqrPairs]
    omega
  have hroom := h.room_at (x := i + 1 + k) (by omega)
  have htr : t.tramp = s.tramp := hw.at'.sum.step.tramp
  have hat := hw.at'
  have hp := hw.pairs
  simp only at hat hp
  rcases hr with ⟨htab, hrow⟩ | ⟨hdma, hrow⟩
  · have hcur := hw.cursor htab
    simp only at hcur
    simp only [sqrStep, htr, htab]
    split
    · next heven =>
      obtain ⟨hA, hcA, hpA⟩ := sqrBodyA_at hrow hat hcur (by omega)
      refine ⟨hA, ?_, fun _ => hcA, fun h => ?_⟩
      · rw [hpA, hp, show (k + 1) / 2 = k / 2 by omega]
      · exact absurd (htab.symm.trans h) (by decide)
    · obtain ⟨hB, hcB, hpB⟩ := sqrBodyB_at hrow hat hcur (by omega) hroom
      refine ⟨hB.count, ?_, fun _ => sqrCount_cursor.trans hcB, fun h => ?_⟩
      · exact sqrCount_pairs (by rw [hpB, hp]; omega)
      · exact absurd (htab.symm.trans h) (by decide)
  · have hcur := hw.cursorX hdma
    simp only at hcur
    subst hcur
    simp only [sqrStep, htr, hdma]
    split
    · next heven =>
      obtain ⟨hA, hpA⟩ := sqrDmaBody_at (u := .a) hrow hat (.inl rfl) (by omega) (by omega) hroom
      refine ⟨hA, ?_, fun h => ?_, fun _ => rfl⟩
      · rw [hpA, hp, show (k + 1) / 2 = k / 2 by omega]
      · exact absurd (hdma.symm.trans h) (by decide)
    · obtain ⟨hB, hpB⟩ := sqrDmaBody_at (u := .b) hrow hat (.inr rfl) (by omega) (by omega) hroom
      refine ⟨hB.count, ?_, fun h => ?_, fun _ => rfl⟩
      · exact sqrCount_pairs (by rw [hpB, hp]; omega)
      · exact absurd (hdma.symm.trans h) (by decide)

/-- **The bodies of a row.** -/
theorem sqrBodies_at (hr : SqrEngine B i A s) (h : RowStart B i A s) (hk : k ≤ 2 * sqrPairs i) :
    RowAt B i A s k (sqrBodies B (sqrHead B s) k) := by
  induction k with
  | zero =>
    rw [sqrBodies_zero]
    rcases hr with ⟨htr, -⟩ | ⟨htr, -⟩
    · rw [sqrHead, htr]
      exact ⟨h.at, h.pairs, fun _ => h.cursor, fun h => absurd (htr.symm.trans h) (by decide)⟩
    · rw [sqrHead, htr]
      exact ⟨h.at, h.pairs, fun h => absurd (htr.symm.trans h) (by decide), fun _ => h.cursor⟩
  | succ k ih =>
    rw [sqrBodies_succ]
    exact sqrStep_at hr h (ih (by omega)) hk

/-- Whether a pair is the last of its row. -/
theorem RowAt.again {w : ℕ × Machine} (h : RowAt B i A s (2 * k) w) (hk : k ≤ sqrPairs i) :
    (w.2.zp (B.slot .feSqrPairs) != 0) = decide (k < sqrPairs i) := by
  rw [bne_zero, h.pairs, Nat.mul_div_cancel_left k (by omega)]
  exact decide_eq_decide.2 (by omega)

/-- A pair of bodies of the quarter-square engine. -/
theorem sqrInner_bodies {w : ℕ × Machine} (htr : (sqrBodies B w (2 * k)).2.tramp = .sqrInner)
    (htr' : (sqrBodies B w (2 * k + 1)).2.tramp = .sqrInner) :
    sqrInner B (sqrBodies B w (2 * k)) = (sqrBodies B w (2 * (k + 1)),
      (sqrBodies B w (2 * (k + 1))).2.zp (B.slot .feSqrPairs) != 0) := by
  have hodd : sqrBodies B w (2 * (k + 1)) = sqrStep B (2 * k + 1) (sqrBodies B w (2 * k + 1)) :=
    sqrBodies_succ ..
  have heven : sqrBodies B w (2 * k + 1)
      = ((sqrBodies B w (2 * k)).1, sqrBodyA B (sqrBodies B w (2 * k)).2) := by
    rw [sqrBodies_succ]
    simp only [sqrStep, htr, Nat.mul_mod_right, if_true]
  rw [heven] at htr'
  simp only at htr'
  rw [hodd, heven]
  simp only [sqrInner, sqrStep, htr, htr', show (2 * k + 1) % 2 ≠ 0 by omega, if_false, sqrCount]

/-- And of the DMA engine. -/
theorem sqrDmaPair_bodies {w : ℕ × Machine}
    (htr : (sqrBodies B w (2 * k)).2.tramp = .sqrInnerDma)
    (htr' : (sqrBodies B w (2 * k + 1)).2.tramp = .sqrInnerDma) :
    sqrDmaPair B (sqrBodies B w (2 * k)) = (sqrBodies B w (2 * (k + 1)),
      (sqrBodies B w (2 * (k + 1))).2.zp (B.slot .feSqrPairs) != 0) := by
  have hodd : sqrBodies B w (2 * (k + 1)) = sqrStep B (2 * k + 1) (sqrBodies B w (2 * k + 1)) :=
    sqrBodies_succ ..
  have heven : sqrBodies B w (2 * k + 1) = ((sqrBodies B w (2 * k)).1 + 1,
      sqrDmaBody B .a (sqrBodies B w (2 * k)).1 (sqrBodies B w (2 * k)).2) := by
    rw [sqrBodies_succ]
    simp only [sqrStep, htr, Nat.mul_mod_right, if_true]
  rw [heven] at htr'
  simp only at htr'
  rw [hodd, heven]
  simp only [sqrDmaPair, sqrStep, htr', show (2 * k + 1) % 2 ≠ 0 by omega, if_false, sqrCount]

/-- **The inner loop of a row** is its bodies, two for each pair. -/
theorem sqrInner_eq (hr : SqrEngine B i A s) (h : RowStart B i A s) :
    doWhile (sqrInner B) 0x100 (0, s) = sqrBodies B (sqrHead B s) (2 * sqrPairs i) := by
  have hi := h.row
  have hpos : 0 < sqrPairs i ∧ sqrPairs i ≤ 16 := by
    simp only [sqrPairs]
    omega
  have hat : ∀ k, k ≤ 2 * sqrPairs i → RowAt B i A s k (sqrBodies B (sqrHead B s) k) :=
    fun k hk => sqrBodies_at hr h hk
  have htr : ∀ k, k ≤ 2 * sqrPairs i → (sqrBodies B (sqrHead B s) k).2.tramp = s.tramp :=
    fun k hk => (hat k hk).at'.sum.step.tramp
  rcases hr with ⟨htab, -⟩ | ⟨hdma, -⟩
  · refine doWhile_inv (N := sqrPairs i) (fun k w => w = sqrBodies B (sqrHead B s) (2 * k)) ?_
      hpos.1 (by omega) fun k hk w hw => ?_
    · rw [mul_zero, sqrBodies_zero, sqrHead, htab]
    · rw [hw, sqrInner_bodies ((htr _ (by omega)).trans htab) ((htr _ (by omega)).trans htab)]
      exact ⟨rfl, (hat (2 * (k + 1)) (by omega)).again (by omega)⟩
  · have hpairs : doWhile (sqrDmaPair B) 0x100 (sqrHead B s)
        = sqrBodies B (sqrHead B s) (2 * sqrPairs i) := by
      refine doWhile_inv (N := sqrPairs i) (fun k w => w = sqrBodies B (sqrHead B s) (2 * k))
        (by rw [mul_zero, sqrBodies_zero]) hpos.1 (by omega) fun k hk w hw => ?_
      rw [hw, sqrDmaPair_bodies ((htr _ (by omega)).trans hdma) ((htr _ (by omega)).trans hdma)]
      exact ⟨rfl, (hat (2 * (k + 1)) (by omega)).again (by omega)⟩
    have hinner : sqrInner B (0, s) = (doWhile (sqrDmaPair B) 0x100 (sqrHead B s), false) := by
      simp only [sqrInner, sqrHead, hdma, sqrCursor]
    refine doWhile_inv (N := 1) (m := 0x100) (fun k w => if k = 0 then w = (0, s)
      else w = sqrBodies B (sqrHead B s) (2 * sqrPairs i)) rfl (by omega) (by omega) ?_
    rintro k hk w hw
    obtain rfl : k = 0 := by omega
    rw [if_pos rfl] at hw
    rw [hw, hinner]
    exact ⟨hpairs, rfl⟩

end C64X25519
