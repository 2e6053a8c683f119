import C64X25519.Helpers.Fetch
import C64X25519.Model.Sqr
/-!
# The doubled row

`reu_fetch_doubled_row` fetches the low sixteen bits of a doubled row, two
pages, and then its carry row, one; together they hold the doubled products.
-/

namespace C64X25519

open Machine

variable {B : Build} {s t : Machine}

/-- What the fetch of the doubled row of `v` leaves in the staging pages,
and all it changes. -/
structure DoubledAt (B : Build) (v : Byte) (s t : Machine) : Prop where
  entry : ∀ y : Byte, (t.ram (B.mem.mulDmaLo + y.toNat)).toNat
    + 256 * (t.ram (B.mem.mulDmaHi + y.toNat)).toNat
    + 65536 * (t.ram (B.mem.mulDmaCarry + y.toNat)).toNat = 2 * v.toNat * y.toNat
  carry : ∀ y : Byte, (t.ram (B.mem.mulDmaCarry + y.toNat)).toNat ≤ 1
  frame : Frame B (fun x => B.mem.stage ≤ x ∧ x < B.mem.stage + 0x300) s t
  zp : t.zp = s.zp
  opLo : t.opLo = s.opLo
  var : ∀ x : Var, x.settle = false → t.var x = s.var x

/-- The three bytes of an entry make up the doubled product. -/
theorem doubled_bytes (v y : Byte) :
    (BitVec.ofNat 8 (2 * (v.toNat * y.toNat))).toNat
        + 256 * (BitVec.ofNat 8 (2 * (v.toNat * y.toNat) / 0x100)).toNat
        + 65536 * (BitVec.ofNat 8 (2 * (v.toNat * y.toNat) / 0x10000)).toNat
        = 2 * v.toNat * y.toNat ∧
      (BitVec.ofNat 8 (2 * (v.toNat * y.toNat) / 0x10000)).toNat ≤ 1 := by
  have hle : v.toNat * y.toNat ≤ 255 * 255 := Nat.mul_le_mul (by omega) (by omega)
  rw [BitVec.toNat_ofNat, BitVec.toNat_ofNat, BitVec.toNat_ofNat, Nat.mul_assoc 2]
  omega

/-- **The fetch of a doubled row.** -/
theorem reuFetchDoubledRow_spec (hlive : s.reu.live = true) (hk : B.sqrDmaK ≠ 0)
    (hd : DoubledRows B s) : DoubledAt B (s.var .mulCachedA) s (reuFetchDoubledRow B s) := by
  obtain ⟨u, hrow, hcarry⟩ := reuFetchDoubledRow_fetched (B := B) hlive hk rfl
  obtain ⟨v, hv⟩ : ∃ q, q = s.var .mulCachedA := ⟨_, rfl⟩
  obtain ⟨w, hw⟩ : ∃ q, q = reuFetchDoubledRow B s := ⟨_, rfl⟩
  rw [← hv] at hrow hcarry ⊢
  rw [← hw] at hcarry ⊢
  have hlo : ∀ y : Byte, w.ram (B.mem.mulDmaLo + y.toNat)
      = BitVec.ofNat 8 (2 * (v.toNat * y.toNat)) := fun y => by
    rw [hcarry.ram, MemMap.mulDmaLo, blit_of_lt (by omega), hrow.ram,
      blit_add (Nat.zero_le _) (by omega), ← hd.lo v y]
  have hhi : ∀ y : Byte, w.ram (B.mem.mulDmaHi + y.toNat)
      = BitVec.ofNat 8 (2 * (v.toNat * y.toNat) / 0x100) := fun y => by
    rw [hcarry.ram, MemMap.mulDmaHi, blit_of_lt (by omega), hrow.ram, Nat.add_assoc,
      blit_add (Nat.zero_le _) (by omega), ← hd.hi v y, ← Nat.add_assoc]
  have hcy : ∀ y : Byte, w.ram (B.mem.mulDmaCarry + y.toNat)
      = BitVec.ofNat 8 (2 * (v.toNat * y.toNat) / 0x10000) := fun y => by
    rw [hcarry.ram, MemMap.mulDmaCarry, blit_add (Nat.zero_le _) (by omega), hrow.mem,
      ← hd.carry v y]
  refine ⟨fun y => ?_, fun y => ?_, ?_, hcarry.zp.trans hrow.zp, hcarry.opLo.trans hrow.opLo,
    fun x hx => (hcarry.var x hx).trans (hrow.var x hx)⟩
  · rw [hlo, hhi, hcy]
    exact (doubled_bytes v y).1
  · rw [hcy]
    exact (doubled_bytes v y).2
  · exact (hrow.frame fun x h1 h2 => ⟨h1, by omega⟩).trans
      (hcarry.frame fun x h1 h2 => ⟨by omega, by omega⟩)

end C64X25519
