import C64X25519.Helpers.Curve
import C64X25519.Helpers.Operands
import C64X25519.Properties.History
/-!
# Key agreement

Two parties, each with a machine and a build of its own, derive the same
shared secret from what the other publishes. Nothing about the point matters
to it: on the curve or on its twist, of low order or not, canonical or not.
A point of low order gives 32 zero bytes.
-/

namespace C64X25519

open Machine Montgomery

variable {B B' : Build} {s s' t t' : Machine} {b : Buf} {k u f : ℕ → Byte}

/-! ## A party's calls -/

/-- The bytes of `x25_result`, from the first. -/
def resultOf (B : Build) (s : Machine) (i : ℕ) : Byte := s.ram (B.mem.buf .x25Result + i)

/-- A private key and a coordinate stored, the key clamped, and
`x25519_scalarmult`. -/
def deriveSecret (B : Build) (k u : ℕ → Byte) (s : Machine) : Machine :=
  x25519Scalarmult B (x25519Clamp B (storeBuf B .x25U u (storeBuf B .x25Scalar k s)))

/-- A private key stored, and `x25519_base`. -/
def publishKey (B : Build) (k : ℕ → Byte) (s : Machine) : Machine :=
  x25519Base B (storeBuf B .x25Scalar k s)

/-- The coordinate 9, in 32 bytes. -/
def nine (i : ℕ) : Byte := if i = 0 then 9 else 0

/-- The key a private key is clamped to. -/
def keyOf (k : ℕ → Byte) : ℕ := clampScalar (leNat k 32)

/-- The residue a coordinate stands for. -/
def coordOf (u : ℕ → Byte) : ZMod p := ((leNat u 32 % 2 ^ 255 : ℕ) : ZMod p)

theorem coordOf_nine : coordOf nine = 9 := by
  have h9 : leNat nine 32 = 9 := by decide
  rw [coordOf, h9, Nat.mod_eq_of_lt (by norm_num)]
  exact Nat.cast_ofNat

/-- Bytes below `p` stand for the residue they spell. -/
theorem coordOf_val {z : ZMod p} (h : leNat u 32 = z.val) : coordOf u = z := by
  have hlt : z.val < 2 ^ 255 := (ZMod.val_lt z).trans (by norm_num [p])
  rw [coordOf, h, Nat.mod_eq_of_lt hlt, ZMod.natCast_zmod_val]

/-- **What a party derives.** -/
theorem deriveSecret_spec (hr : Ready B s) :
    leNat (resultOf B (deriveSecret B k u s)) 32 = (x25519 (keyOf k) (coordOf u)).val := by
  have hk1 := storeBuf_kept (B := B) (b := .x25Scalar) (f := k) (s := s)
  set s1 := storeBuf B .x25Scalar k s with hs1
  have hk2 := storeBuf_kept (B := B) (b := .x25U) (f := u) (s := s1)
  set s2 := storeBuf B .x25U u s1 with hs2
  have hscalar : scalar B s2 = leNat k 32 :=
    (hk2.own_fe (by decide)).trans (by rw [hs1, storeBuf_fe])
  have hcoord : uCoord B (x25519Clamp B s2) = coordOf u := by
    have hu : (x25519Clamp B s2).fe (B.mem.buf .x25U) = leNat u 32 :=
      (x25519Clamp_kept.own_fe (by decide)).trans (by rw [hs2, storeBuf_fe])
    rw [uCoord, coordOf, hu]
  have hres := (x25519Scalarmult_spec (((hr.kept hk1).kept hk2).kept x25519Clamp_kept)).1
  rw [x25519Clamp_spec.1, hscalar, hcoord] at hres
  exact hres

/-- **What a party publishes.** -/
theorem publishKey_spec (h : Usable B s) :
    leNat (resultOf B (publishKey B k s)) 32 = (x25519 (keyOf k) 9).val := by
  have hk := storeBuf_kept (B := B) (b := .x25Scalar) (f := k) (s := s)
  have hbase : BasePoint B (storeBuf B .x25Scalar k s) := by
    rw [BasePoint, ← h.basepoint]
    exact hk.own_fe (by decide)
  have hscalar : scalar B (storeBuf B .x25Scalar k s) = leNat k 32 := storeBuf_fe
  have hres := (x25519Base_spec (h.ready.kept hk) hbase).1
  rw [hscalar] at hres
  exact hres

/-! ## Agreement -/

/-- **Both parties derive the same 32 bytes**, from any common coordinate
and from each other's public keys; and a public key is what the party
derives from the coordinate 9. -/
theorem x25519_agreement (hs : Usable B s) (hs' : Usable B s') (ht : Usable B' t)
    (ht' : Usable B' t') (k l u : ℕ → Byte) :
    (∀ i, i < 32 → resultOf B (deriveSecret B k (resultOf B' (deriveSecret B' l u t)) s) i
      = resultOf B' (deriveSecret B' l (resultOf B (deriveSecret B k u s')) t') i) ∧
    (∀ i, i < 32 → resultOf B (publishKey B k s) i = resultOf B (deriveSecret B k nine s') i) ∧
    ∀ i, i < 32 → resultOf B (deriveSecret B k (resultOf B' (publishKey B' l t)) s) i
      = resultOf B' (deriveSecret B' l (resultOf B (publishKey B k s')) t') i := by
  refine ⟨fun i hi => leNat_inj ?_ hi, fun i hi => leNat_inj ?_ hi, fun i hi => leNat_inj ?_ hi⟩
  · rw [deriveSecret_spec hs.ready, deriveSecret_spec ht'.ready,
      coordOf_val (deriveSecret_spec ht.ready), coordOf_val (deriveSecret_spec hs'.ready),
      x25519_comm]
  · rw [publishKey_spec hs, deriveSecret_spec hs'.ready, coordOf_nine]
  · rw [deriveSecret_spec hs.ready, deriveSecret_spec ht'.ready, coordOf_val (publishKey_spec ht),
      coordOf_val (publishKey_spec hs'), x25519_comm]

/-- A fresh machine, and one that has already published a key. -/
theorem x25519_agreement_standard :
    let B := Build.standard
    let s := initialise B .loaded
    let t := Call.x25519Base.run B s
    let k : ℕ → Byte := BitVec.ofNat 8
    (∀ i, i < 32 → resultOf B (deriveSecret B k (resultOf B (deriveSecret B nine nine t)) s) i
      = resultOf B (deriveSecret B nine (resultOf B (deriveSecret B k nine s)) t) i) ∧
    (∀ i, i < 32 → resultOf B (publishKey B k s) i = resultOf B (deriveSecret B k nine s) i) ∧
    ∀ i, i < 32 → resultOf B (deriveSecret B k (resultOf B (publishKey B nine t)) s) i
      = resultOf B (deriveSecret B nine (resultOf B (publishKey B k s)) t) i :=
  have h := initialise_usable loaded_loaded
  have ht := h.call (x25519Base_valid _)
  x25519_agreement h h ht ht _ nine nine

/-! ## Points of low order -/

/-- The coordinates of low order, below `p`. -/
def lowOrderCoords : List ℕ :=
  [0, 1, p - 1,
    325606250916557431795983626356110631294008115727848805560023387167927233504,
    39382357235489614581723060781553021112529911719440698176882885853963445705823]

/-- The test of order eight, on a representative. -/
theorem lowOrder_eight {n : ℕ} (h : ((n + 1) ^ 2 * (n - 1) ^ 2) % p
    = (4 * n * (n ^ 2 + 486662 * n + 1)) % p) (hn : 1 ≤ n) :
    LowOrder 486662 (n : ZMod p) := by
  have hcast := (ZMod.natCast_eq_natCast_iff' _ _ p).2 h
  push_cast [Nat.cast_sub hn] at hcast
  exact .inr (.inr (.inr hcast))

theorem lowOrderCoords_lowOrder : ∀ n ∈ lowOrderCoords, LowOrder 486662 (n : ZMod p) := by
  simp only [lowOrderCoords, List.forall_mem_cons, List.not_mem_nil, false_imp_iff, implies_true,
    and_true]
  refine ⟨.inl Nat.cast_zero, .inr (.inl Nat.cast_one), .inr (.inr (.inl ?_)),
    lowOrder_eight ?_ (by norm_num), lowOrder_eight ?_ (by norm_num)⟩
  · rw [Nat.cast_sub p_prime.one_lt.le, cast_p, Nat.cast_one, zero_sub]
  · norm_num [p]
  · norm_num [p]

/-- The result is 32 zero bytes. -/
def ZeroResult (B : Build) (s : Machine) : Prop := ∀ i, i < 32 → resultOf B s i = 0

theorem zeroResult_of_fe (h : s.fe (B.mem.buf .x25Result) = 0) : ZeroResult B s := fun i hi => by
  have h0 : leNat (fun _ => (0 : Byte)) 32 = 0 := by decide
  exact leNat_inj (f := resultOf B s) (g := fun _ => 0) (h.trans h0.symm) hi

theorem x25519Scalarmult_zero (hr : Ready B s)
    (hu : s.fe (B.mem.buf .x25U) % 2 ^ 255 % p ∈ lowOrderCoords)
    (hk : s.fe (B.mem.buf .x25Scalar) % 8 = 0) : ZeroResult B (x25519Scalarmult B s) := by
  have hlow : LowOrder 486662 (uCoord B s) := by
    rw [uCoord, ← natCast_mod_p]
    exact lowOrderCoords_lowOrder _ hu
  refine zeroResult_of_fe ?_
  have hzero : x25519 (scalar B s) (uCoord B s) = 0 := x25519_lowOrder hlow hk
  rw [(x25519Scalarmult_spec hr).1, hzero, ZMod.val_zero]

/-- **A point of low order gives 32 zero bytes**: every encoding of it, under
every scalar that is a multiple of eight, and so under every clamped one. -/
theorem x25519Scalarmult_lowOrder (hr : Ready B s)
    (hu : s.fe (B.mem.buf .x25U) % 2 ^ 255 % p ∈ lowOrderCoords) :
    (s.fe (B.mem.buf .x25Scalar) % 8 = 0 → ZeroResult B (x25519Scalarmult B s)) ∧
      ZeroResult B (x25519Scalarmult B (x25519Clamp B s)) := by
  refine ⟨x25519Scalarmult_zero hr hu, x25519Scalarmult_zero (hr.kept x25519Clamp_kept) ?_ ?_⟩
  · rwa [x25519Clamp_kept.own_fe (by decide)]
  · exact (congrArg (· % 8) x25519Clamp_spec.1).trans (clampScalar_mod_eight _)

/-- The point of coordinate one, from `p + 1` and bit 255. -/
theorem x25519Scalarmult_lowOrder_noncanonical :
    let B := Build.standard
    let s := storeBuf B .x25U (fun i => BitVec.ofNat 8 ((p + 1 + 2 ^ 255) / 256 ^ i))
      (initialise B .loaded)
    (s.fe (B.mem.buf .x25Scalar) % 8 = 0 → ZeroResult B (x25519Scalarmult B s)) ∧
      ZeroResult B (x25519Scalarmult B (x25519Clamp B s)) :=
  x25519Scalarmult_lowOrder ((initialise_usable loaded_loaded).ready.kept storeBuf_kept) (by
    rw [storeBuf_fe, leNat_ofNat]
    norm_num [p, lowOrderCoords])

end C64X25519
