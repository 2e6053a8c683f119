import C64X25519.Properties.Field
/-!
# The reductions, and where a sum is right

What the routines that reduce promise on every input: `fe_reduce_wide` and
`fe25519_reduce_final`, the multiplication by the curve constant, and the
exact ranges of the modular adder and subtractor, which reduce at most once.
-/

namespace C64X25519

open Machine

variable {B : Build} {s t : Machine} {a b d : FieldBuf B.mem}

/-! ## The wide reduction and the last one -/

/-- **Every 64-byte number reduces.** The carry `fe_reduce_wide` drops is
clear, its 32 bytes are congruent to the number, and
`fe25519_reduce_final`, which changes nothing the second time, makes any 32
bytes canonical. -/
theorem feReduceWide_exact (hd : s.ptr B .fe25519Dst = d.addr) :
    feReduceWide B s = (reduceWideLast B s).2 ∧ (reduceWideLast B s).1 = false ∧
      (feReduceWide B s).wide B 32 < 2 ^ 256 ∧
      (feReduceWide B s).wide B 32 % p = s.wide B 64 % p ∧
      (fe25519ReduceFinal B s).fe d.addr = s.fe d.addr % p ∧
      (∀ i, i < 32 → (fe25519ReduceFinal B (fe25519ReduceFinal B s)).ram (d.addr + i)
        = (fe25519ReduceFinal B s).ram (d.addr + i)) ∧
      (fe25519ReduceFinal B (copyResult B (feReduceWide B s))).fe d.addr = s.wide B 64 % p := by
  obtain ⟨hwide, hcarry, hin⟩ := reduceWideLast_spec (B := B) (s := s)
  rw [← feReduceWide_eq] at hwide hin
  obtain ⟨hfin, hff⟩ := fe25519ReduceFinal_spec (B := B) hd
  have hagain := (fe25519ReduceFinal_spec (B := B) ((hff.ptr rfl rfl).trans hd)).1
  rw [hfin, Nat.mod_mod, ← hfin] at hagain
  -- the result copied out, and reduced
  have hfw : Frame B d.span s (feReduceWide B s) := hin.frame (by decide)
  obtain ⟨hcopy, hfc⟩ := copyResult_spec (B := B) ((hfw.ptr rfl rfl).trans hd)
  have hlast := (fe25519ReduceFinal_spec (B := B)
    ((hfc.ptr rfl rfl).trans ((hfw.ptr rfl rfl).trans hd))).1
  rw [hcopy, hwide, reduceWide_mod] at hlast
  refine ⟨feReduceWide_eq, hcarry, ?_, ?_, hfin, fun i hi => ?_, hlast⟩
  · rw [hwide]
    exact reduceWide_lt wide_lt
  · rw [hwide, reduceWide_mod]
  · exact leNat_inj (n := 32)
      (f := fun i => (fe25519ReduceFinal B (fe25519ReduceFinal B s)).ram (d.addr + i))
      (g := fun i => (fe25519ReduceFinal B s).ram (d.addr + i)) hagain hi

/-- Every byte of `fe_wide` at `0xff`, and `2 * p + 1` in the destination. -/
theorem feReduceWide_exact_full :
    let s := poised .standard .x25A .x25A .x25A (2 * p + 1) (2 * p + 1)
      { Machine.blank with zp := fun _ => 0xff }
    let d := MemMap.own Build.standard.mem .x25A
    s.wide .standard 64 = 256 ^ 64 - 1 ∧ s.fe d.addr = 2 * p + 1 ∧
      feReduceWide .standard s = (reduceWideLast .standard s).2 ∧
      (reduceWideLast .standard s).1 = false ∧
      (feReduceWide .standard s).wide .standard 32 < 2 ^ 256 ∧
      (feReduceWide .standard s).wide .standard 32 % p = s.wide .standard 64 % p ∧
      (fe25519ReduceFinal .standard s).fe d.addr = s.fe d.addr % p ∧
      (∀ i, i < 32 →
        (fe25519ReduceFinal .standard (fe25519ReduceFinal .standard s)).ram (d.addr + i)
          = (fe25519ReduceFinal .standard s).ram (d.addr + i)) ∧
      (fe25519ReduceFinal .standard (copyResult .standard (feReduceWide .standard s))).fe d.addr
        = s.wide .standard 64 % p :=
  ⟨by decide +kernel, poised_src2 (by norm_num [p]), feReduceWide_exact poised_ptr.2.2⟩

/-! ## Multiplication by the curve constant -/

/-- **`fe25519_mul_a24` is canonical on every input.** The 37 bytes it
accumulates into hold the exact product, so its top two are clear; the folds
leave an exact number again; and the result is the product modulo `p`. -/
theorem fe25519MulA24_canonical (h1 : s.ptr B .fe25519Src1 = a.addr)
    (hd : s.ptr B .fe25519Dst = d.addr) :
    fe25519MulA24 B s
        = fe25519ReduceFinal B (copyResult B (a24Fold B (fe25519MulA24Wide B s))) ∧
      (fe25519MulA24Wide B s).wide B 37 = 121665 * s.fe a.addr ∧
      (fe25519MulA24Wide B s).wide B 37 < 256 ^ 35 ∧
      (a24Fold B (fe25519MulA24Wide B s)).wide B 32 = fold38 (fold38 (121665 * s.fe a.addr)) ∧
      (fe25519MulA24 B s).fe d.addr = 121665 * s.fe a.addr % p ∧
      (fe25519MulA24 B s).fe d.addr < p := by
  have hwide := (fe25519MulA24Wide_spec (B := B) h1).1
  have hres := (fe25519MulA24_spec (B := B) h1 hd).1
  have hlt : s.fe a.addr < 2 ^ 256 := fe_lt
  refine ⟨rfl, hwide, ?_, (fe25519MulA24Fold_spec h1).1, hres, ?_⟩
  · rw [hwide]
    omega
  · rw [hres]
    exact Nat.mod_lt _ (NeZero.pos p)

/-- The largest operand, multiplied in place. -/
theorem fe25519MulA24_canonical_inPlace :
    let s := poised .standard .x25A .x25A .x25A (2 ^ 256 - 1) (2 ^ 256 - 1) .blank
    let a := MemMap.own Build.standard.mem .x25A
    s.fe a.addr = 2 ^ 256 - 1 ∧
      fe25519MulA24 .standard s = fe25519ReduceFinal .standard
        (copyResult .standard (a24Fold .standard (fe25519MulA24Wide .standard s))) ∧
      (fe25519MulA24Wide .standard s).wide .standard 37 = 121665 * s.fe a.addr ∧
      (fe25519MulA24Wide .standard s).wide .standard 37 < 256 ^ 35 ∧
      (a24Fold .standard (fe25519MulA24Wide .standard s)).wide .standard 32
        = fold38 (fold38 (121665 * s.fe a.addr)) ∧
      (fe25519MulA24 .standard s).fe a.addr = 121665 * s.fe a.addr % p ∧
      (fe25519MulA24 .standard s).fe a.addr < p :=
  ⟨poised_src2 (by norm_num), fe25519MulA24_canonical poised_ptr.1 poised_ptr.2.2⟩

/-! ## The adder and the subtractor -/

/-- **Where a sum and a difference are right**: exactly below `2 ^ 256 + p`
and down to `-p`, whatever buffers the operands and the result share; and
canonical operands give canonical results. -/
theorem fe25519AddSub_domain (h1 : s.ptr B .fe25519Src1 = a.addr)
    (h2 : s.ptr B .fe25519Src2 = b.addr) (hd : s.ptr B .fe25519Dst = d.addr) :
    (((fe25519Add B s).fe d.addr : ZMod p) = (s.fe a.addr : ZMod p) + s.fe b.addr ↔
        s.fe a.addr + s.fe b.addr < 2 ^ 256 + p) ∧
      (((fe25519Sub B s).fe d.addr : ZMod p) = (s.fe a.addr : ZMod p) - s.fe b.addr ↔
        s.fe b.addr ≤ s.fe a.addr + p) ∧
      (s.fe a.addr < p → s.fe b.addr < p →
        (fe25519Add B s).fe d.addr < p ∧ (fe25519Sub B s).fe d.addr < p) := by
  rw [(fe25519Add_spec h1 h2 hd).1, (fe25519Sub_spec h1 h2 hd).1]
  exact ⟨addMod_cast_iff fe_lt fe_lt, subMod_cast_iff fe_lt fe_lt,
    fun ha hb => ⟨addMod_canonical ha hb, subMod_canonical ha hb⟩⟩

/-- The sum and the difference of `p - 1` and 2, over the first. -/
theorem fe25519AddSub_domain_inPlace :
    let s := poised .standard .x25A .x25B .x25A (p - 1) 2 .blank
    let a := MemMap.own Build.standard.mem .x25A
    let b := MemMap.own Build.standard.mem .x25B
    s.fe a.addr = p - 1 ∧ s.fe b.addr = 2 ∧
      (((fe25519Add .standard s).fe a.addr : ZMod p) = (s.fe a.addr : ZMod p) + s.fe b.addr ↔
        s.fe a.addr + s.fe b.addr < 2 ^ 256 + p) ∧
      (((fe25519Sub .standard s).fe a.addr : ZMod p) = (s.fe a.addr : ZMod p) - s.fe b.addr ↔
        s.fe b.addr ≤ s.fe a.addr + p) ∧
      (s.fe a.addr < p → s.fe b.addr < p →
        (fe25519Add .standard s).fe a.addr < p ∧ (fe25519Sub .standard s).fe a.addr < p) :=
  ⟨poised_src1 (by decide) (by norm_num [p]), poised_src2 (by norm_num),
    fe25519AddSub_domain poised_ptr.1 poised_ptr.2.1 poised_ptr.2.2⟩

end C64X25519
