import C64X25519.Common.Loop
import Mathlib.Algebra.Ring.Nat
import Mathlib.Algebra.BigOperators.Group.List.Basic
import Mathlib.Data.List.Basic
import Mathlib.Logic.Function.Iterate
/-!
# Structured assembly with a cycle count

Programs of a small processor — runs of instructions, subroutine calls, the
loops and forward branches a branch instruction closes, a loop through a
patched jump and one with two ways out — over any instruction set `Isa`. A run gives the final state
and the cycles it took, and is stuck where an instruction is, where a return
finds no return address, or where a loop outlasts its fuel.

`Takes` is total correctness with the exact cost. The cost of a run is a
`Bill`: the cycles of the instructions, and the places where the program
waited for a device, in order. What a wait costs is read off the tape of
the device alone, so that two runs with one bill and one tape take the same
time. Each construct has its rule.
-/

namespace C64X25519

/-! ## Programs -/

/-- A program over the instructions `ι` and the branch instructions `κ`. -/
inductive Code (ι κ : Type*)
  | block (l : List ι)
  | seq (a b : Code ι κ)
  /-- `JSR`, the routine with its `RTS`. -/
  | call (a : Code ι κ)
  /-- `top: a` / `k top`. -/
  | loop (a : Code ι κ) (k : κ)
  /-- `top: a` / `k out` / `JMP top` / `out:`. -/
  | loopUntil (a : Code ι κ) (k : κ)
  /-- `k past` / `a` / `past:`. -/
  | skip (k : κ) (a : Code ι κ)
  /-- `k other` / `a` / `JMP done` / `other: b` / `done:`. -/
  | either (k : κ) (a b : Code ι κ)
  /-- `k other` / `a` / `RTS` / `other: b` / `RTS`, the end of a routine. -/
  | exits (k : κ) (a b : Code ι κ)
  /-- `JMP` to what follows. -/
  | jmp
  /-- `top: JMP (pointer)`, to `a` / `k out` / `JMP top` without the `JMP` —
  `a` stands in front of `top` — or, where the pointer fails the test `sel`,
  to `b`; behind `out:` comes `e`. -/
  | dispatch (sel : κ) (a : Code ι κ) (k : κ) (e b : Code ι κ)
  /-- `top: a` / `k out` / `b` / `k' late` / `c` / `JMP top` / `late: e` /
  `out:`. -/
  | poll (a : Code ι κ) (k : κ) (b : Code ι κ) (k' : κ) (c e : Code ι κ)

/-- An instruction set over the states `σ`. -/
structure Isa (ι κ σ : Type*) where
  /-- Whether an instruction can run. -/
  ready : ι → σ → Bool
  act : ι → σ → σ
  cycles : ι → σ → ℕ
  /-- Whether a branch is taken. -/
  test : κ → σ → Bool
  /-- The cycles of a branch taken, and of one that is not. -/
  taken : κ → ℕ
  through : κ → ℕ
  jmp : ℕ
  /-- The return address on the stack, and off it. -/
  enter : σ → σ
  leave : σ → Option σ
  /-- The cycles of `JSR` and `RTS`. -/
  call : ℕ
  /-- The turns a loop is given. -/
  fuel : ℕ

/-- The body, for as long as it asks for another turn; the cycles of the
turns together. -/
def rounds {σ : Type*} (body : σ → Option (σ × ℕ × Bool)) : ℕ → σ → Option (σ × ℕ)
  | 0, _ => none
  | fuel + 1, s => (body s).bind fun t =>
      if t.2.2 then (rounds body fuel t.1).map fun u => (u.1, t.2.1 + u.2)
      else some (t.1, t.2.1)

theorem rounds_succ {σ : Type*} {body : σ → Option (σ × ℕ × Bool)} {m : ℕ} {s : σ} :
    rounds body (m + 1) s = (body s).bind fun t =>
      if t.2.2 then (rounds body m t.1).map fun u => (u.1, t.2.1 + u.2)
      else some (t.1, t.2.1) := rfl

namespace Isa

variable {ι κ σ : Type*} (P : Isa ι κ σ)

/-- A run of instructions. -/
def exec (l : List ι) (s : σ) : σ := l.foldl (fun s i => P.act i s) s

/-- Every instruction of a run is ready where it comes. -/
def Ready : List ι → σ → Prop
  | [], _ => True
  | i :: l, s => P.ready i s = true ∧ Ready l (P.act i s)

instance : ∀ (l : List ι) (s : σ), Decidable (P.Ready l s)
  | [], _ => inferInstanceAs (Decidable True)
  | i :: l, s => by
      haveI := instDecidableReady l (P.act i s)
      exact inferInstanceAs (Decidable (_ ∧ _))

/-- What a run costs. -/
def cost : List ι → σ → ℕ
  | [], _ => 0
  | i :: l, s => P.cycles i s + cost l (P.act i s)

variable {P} {l l' : List ι} {i : ι} {s : σ}

@[simp] theorem exec_nil : P.exec [] s = s := rfl

@[simp] theorem exec_cons : P.exec (i :: l) s = P.exec l (P.act i s) := rfl

theorem exec_append : P.exec (l ++ l') s = P.exec l' (P.exec l s) := List.foldl_append

@[simp] theorem cost_nil : P.cost [] s = 0 := rfl

@[simp] theorem cost_cons : P.cost (i :: l) s = P.cycles i s + P.cost l (P.act i s) := rfl

theorem cost_append : P.cost (l ++ l') s = P.cost l s + P.cost l' (P.exec l s) := by
  induction l generalizing s with
  | nil => simp
  | cons i l ih => simp [ih, Nat.add_assoc]

@[simp] theorem ready_nil : P.Ready [] s := trivial

@[simp] theorem ready_cons : P.Ready (i :: l) s ↔ P.ready i s = true ∧ P.Ready l (P.act i s) :=
  Iff.rfl

theorem ready_append : P.Ready (l ++ l') s ↔ P.Ready l s ∧ P.Ready l' (P.exec l s) := by
  induction l generalizing s with
  | nil => simp
  | cons i l ih => simp [ih, and_assoc]

/-- Instructions that are never stuck. -/
theorem ready_of_forall (h : ∀ i ∈ l, ∀ s, P.ready i s = true) : P.Ready l s := by
  induction l generalizing s with
  | nil => trivial
  | cons i l ih =>
    exact ⟨h i List.mem_cons_self s, ih fun j hj => h j (List.mem_cons_of_mem _ hj)⟩

end Isa

/-- One turn of a loop with two ways out. -/
def Isa.pollTurn {ι κ σ : Type*} (P : Isa ι κ σ) (a : σ → Option (σ × ℕ)) (k : κ)
    (b : σ → Option (σ × ℕ)) (k' : κ) (c e : σ → Option (σ × ℕ)) (s : σ) :
    Option (σ × ℕ × Bool) :=
  (a s).bind fun t =>
    if P.test k t.1 then some (t.1, t.2 + P.taken k, false)
    else (b t.1).bind fun u =>
      if P.test k' u.1 then (e u.1).map fun v =>
        (v.1, t.2 + P.through k + u.2 + P.taken k' + v.2, false)
      else (c u.1).map fun v => (v.1, t.2 + P.through k + u.2 + P.through k' + v.2 + P.jmp, true)

namespace Code

variable {ι κ σ : Type*} (P : Isa ι κ σ)

/-- A run: the final state and the cycles. -/
def run : Code ι κ → σ → Option (σ × ℕ)
  | block l, s => if P.Ready l s then some (P.exec l s, P.cost l s) else none
  | seq a b, s => (run a s).bind fun t => (run b t.1).map fun u => (u.1, t.2 + u.2)
  | call a, s => (run a (P.enter s)).bind fun t => (P.leave t.1).map fun u => (u, t.2 + P.call)
  | loop a k, s => rounds (fun s => (run a s).map fun t =>
      if P.test k t.1 then (t.1, t.2 + P.taken k, true)
      else (t.1, t.2 + P.through k, false)) P.fuel s
  | loopUntil a k, s => rounds (fun s => (run a s).map fun t =>
      if P.test k t.1 then (t.1, t.2 + P.taken k, false)
      else (t.1, t.2 + (P.through k + P.jmp), true)) P.fuel s
  | skip k a, s =>
      if P.test k s then some (s, P.taken k)
      else (run a s).map fun t => (t.1, P.through k + t.2)
  | either k a b, s =>
      if P.test k s then (run b s).map fun t => (t.1, P.taken k + t.2)
      else (run a s).map fun t => (t.1, P.through k + P.jmp + t.2)
  | exits k a b, s =>
      if P.test k s then (run b s).map fun t => (t.1, P.taken k + t.2)
      else (run a s).map fun t => (t.1, P.through k + t.2)
  | jmp, s => some (s, P.jmp)
  | dispatch sel a k e b, s => rounds (fun s =>
      if P.test sel s then (run a s).bind fun t =>
        if P.test k t.1 then (run e t.1).map fun u => (u.1, P.jmp + t.2 + P.taken k + u.2, false)
        else some (t.1, P.jmp + t.2 + P.through k, true)
      else (run b s).map fun u => (u.1, P.jmp + u.2, false)) P.fuel s
  | poll a k b k' c e, s => rounds (P.pollTurn (run a) k (run b) k' (run c) (run e)) P.fuel s

/-- Programs one after another. -/
def seqs : List (Code ι κ) → Code ι κ
  | [] => block []
  | [a] => a
  | a :: l => seq a (seqs l)

variable {P} {l : List ι} {a b c e d : Code ι κ} {k k' sel : κ} {s : σ}

theorem run_block : (block l).run P s
    = if P.Ready l s then some (P.exec l s, P.cost l s) else none := rfl

theorem run_seq : (seq a b).run P s
    = (a.run P s).bind fun t => (b.run P t.1).map fun u => (u.1, t.2 + u.2) := rfl

theorem run_call : (call a).run P s
    = (a.run P (P.enter s)).bind fun t => (P.leave t.1).map fun u => (u, t.2 + P.call) := rfl

theorem run_skip : (skip k a).run P s = if P.test k s then some (s, P.taken k)
    else (a.run P s).map fun t => (t.1, P.through k + t.2) := rfl

theorem run_either : (either k a b).run P s
    = if P.test k s then (b.run P s).map fun t => (t.1, P.taken k + t.2)
      else (a.run P s).map fun t => (t.1, P.through k + P.jmp + t.2) := rfl

theorem run_exits : (exits k a b).run P s
    = if P.test k s then (b.run P s).map fun t => (t.1, P.taken k + t.2)
      else (a.run P s).map fun t => (t.1, P.through k + t.2) := rfl

theorem run_dispatch : (dispatch sel a k e b).run P s = rounds (fun s =>
    if P.test sel s then (a.run P s).bind fun t =>
      if P.test k t.1 then (e.run P t.1).map fun u => (u.1, P.jmp + t.2 + P.taken k + u.2, false)
      else some (t.1, P.jmp + t.2 + P.through k, true)
    else (b.run P s).map fun u => (u.1, P.jmp + u.2, false)) P.fuel s := rfl

end Code

/-! ## What a run costs -/

/-- Cycles, and waits at the places `ω`. -/
@[ext] structure Bill (ω : Type*) where
  cycles : ℕ
  waits : List ω
deriving DecidableEq, Repr

namespace Bill

variable {ω : Type*}

instance : Zero (Bill ω) := ⟨⟨0, []⟩⟩

instance : Add (Bill ω) := ⟨fun a b => ⟨a.cycles + b.cycles, a.waits ++ b.waits⟩⟩

instance : AddMonoid (Bill ω) where
  add_assoc a b c := Bill.ext (Nat.add_assoc ..) (List.append_assoc ..)
  zero_add a := Bill.ext (Nat.zero_add _) (List.nil_append _)
  add_zero a := Bill.ext (Nat.add_zero _) (List.append_nil _)
  nsmul := nsmulRec

/-- Cycles without a wait. -/
def tick (n : ℕ) : Bill ω := ⟨n, []⟩

/-- A wait. -/
def wait (x : ω) : Bill ω := ⟨0, [x]⟩

variable {a b : Bill ω} {m n : ℕ}

@[simp] theorem add_cycles : (a + b).cycles = a.cycles + b.cycles := rfl

@[simp] theorem add_waits : (a + b).waits = a.waits ++ b.waits := rfl

@[simp] theorem zero_cycles : (0 : Bill ω).cycles = 0 := rfl

@[simp] theorem zero_waits : (0 : Bill ω).waits = [] := rfl

@[simp] theorem tick_cycles : (tick n : Bill ω).cycles = n := rfl

@[simp] theorem tick_waits : (tick n : Bill ω).waits = [] := rfl

@[simp] theorem wait_cycles {x : ω} : (wait x).cycles = 0 := rfl

@[simp] theorem wait_waits {x : ω} : (wait x).waits = [x] := rfl

@[simp] theorem tick_add_tick : (tick m + tick n : Bill ω) = tick (m + n) := rfl

@[simp] theorem tick_zero : (tick 0 : Bill ω) = 0 := rfl

/-- Cycles move past anything. -/
theorem tick_add (n : ℕ) (a : Bill ω) : tick n + a = a + tick n :=
  Bill.ext (Nat.add_comm ..) (List.append_nil _).symm

@[simp] theorem nsmul_tick : n • (tick m : Bill ω) = tick (n * m) := by
  induction n with
  | zero => simp
  | succ n ih => rw [succ_nsmul, ih, tick_add_tick, Nat.succ_mul]

theorem nsmul_length : (n • a).waits.length = n * a.waits.length := by
  induction n with
  | zero => simp
  | succ n ih => rw [succ_nsmul, add_waits, List.length_append, ih, Nat.succ_mul]

@[simp] theorem sum_tick {α : Type*} {l : List α} {f : α → ℕ} :
    (l.map fun k => (tick (f k) : Bill ω)).sum = tick (l.map f).sum := by
  induction l with
  | nil => rfl
  | cons a l ih => simp [ih]

/-- The cycles of the turns apart from the rest of them. -/
theorem sum_add_tick {l : List ℕ} {f : ℕ → Bill ω} {g : ℕ → ℕ} :
    (l.map fun j => f j + tick (g j)).sum = (l.map f).sum + tick (l.map g).sum := by
  induction l with
  | nil => simp
  | cons j l ih =>
    simp only [List.map_cons, List.sum_cons, ih, ← tick_add_tick, add_assoc]
    rw [← add_assoc (tick (g j)), tick_add, add_assoc]

/-- All turns but the last cost `x`, and the last `y`. -/
theorem sum_last {n x y : ℕ} (hn : 0 < n) :
    ((List.range n).map fun j => if j + 1 < n then x else y).sum = (n - 1) * x + y := by
  obtain ⟨n, rfl⟩ : ∃ m, n = m + 1 := ⟨n - 1, by omega⟩
  rw [List.range_succ, List.map_append, List.sum_append, List.map_singleton, List.sum_singleton,
    if_neg (Nat.lt_irrefl _), List.map_congr_left (g := fun _ => x)
      fun j hj => if_pos (Nat.succ_lt_succ (List.mem_range.1 hj)), List.map_const',
    List.length_range, List.sum_replicate, Nat.add_sub_cancel]
  rfl

/-- What the last turn costs besides. -/
theorem sum_add_last {n : ℕ} {f : ℕ → Bill ω} (hn : 0 < n) :
    ((List.range n).map fun j => f j + if j + 1 < n then 0 else a).sum
      = ((List.range n).map f).sum + a := by
  obtain ⟨n, rfl⟩ : ∃ m, n = m + 1 := ⟨n - 1, by omega⟩
  rw [List.range_succ, List.map_append, List.map_append, List.sum_append, List.sum_append,
    List.map_congr_left (g := f) fun j hj => ?_]
  · simp [add_assoc]
  · rw [if_pos (Nat.succ_lt_succ (List.mem_range.1 hj)), add_zero]

/-- Turns of one price. -/
theorem sum_const (n : ℕ) (a : Bill ω) : ((List.range n).map fun _ => a).sum = n • a := by
  rw [List.map_const', List.length_range, List.sum_replicate]

theorem sum_length {l : List (Bill ω)} :
    l.sum.waits.length = (l.map fun a => a.waits.length).sum := by
  induction l with
  | nil => rfl
  | cons a l ih => simp [ih]

/-- What a bill comes to, with a price for each place. -/
def price (f : ω → ℕ) (a : Bill ω) : ℕ := a.cycles + (a.waits.map f).sum

section Price

variable {f : ω → ℕ}

@[simp] theorem price_add : (a + b).price f = a.price f + b.price f := by
  simp only [price, add_cycles, add_waits, List.map_append, List.sum_append]
  omega

@[simp] theorem price_zero : (0 : Bill ω).price f = 0 := rfl

@[simp] theorem price_tick : (tick n : Bill ω).price f = n := rfl

@[simp] theorem price_wait {x : ω} : (wait x).price f = f x := by
  simp [price]

@[simp] theorem price_nsmul : (n • a).price f = n * a.price f := by
  induction n with
  | zero => simp
  | succ n ih => rw [succ_nsmul, price_add, ih, Nat.succ_mul]

theorem price_sum {l : List (Bill ω)} : l.sum.price f = (l.map (price f)).sum := by
  induction l with
  | nil => rfl
  | cons a l ih => rw [List.sum_cons, price_add, ih, List.map_cons, List.sum_cons]

/-- One price for all places. -/
theorem price_const : a.price (fun _ => n) = a.cycles + a.waits.length * n := by
  rw [price, List.map_const', List.sum_replicate, Nat.nsmul_eq_mul]

end Price

/-- Turns by the run. -/
theorem sum_nsmul {α : Type*} {l : List α} {f : α → ℕ} (a : Bill ω) :
    (l.map fun k => f k • a).sum = (l.map f).sum • a := by
  induction l with
  | nil => exact (zero_nsmul a).symm
  | cons k l ih => rw [List.map_cons, List.map_cons, List.sum_cons, List.sum_cons, ih, add_nsmul]

end Bill

/-- A device the states `σ` hold: its tape, how a wait moves it, and what a
wait at a place costs. -/
structure Device (σ τ ω : Type*) where
  tape : σ → τ
  next : τ → τ
  wait : ω → τ → ℕ

namespace Device

variable {σ τ ω : Type*} (D : Device σ τ ω)

/-- The cost of waits one after another. -/
def total : List ω → τ → ℕ
  | [], _ => 0
  | x :: l, w => D.wait x w + total l (D.next w)

variable {D}

theorem total_append {l l' : List ω} {w : τ} :
    D.total (l ++ l') w = D.total l w + D.total l' (D.next^[l.length] w) := by
  induction l generalizing w with
  | nil => simp [total]
  | cons x l ih => simp [total, ih, Nat.add_assoc]

/-- Waits with a greatest price for each place. -/
theorem total_le {f : ω → ℕ} (h : ∀ x w, D.wait x w ≤ f x) {l : List ω} {w : τ} :
    D.total l w ≤ (l.map f).sum := by
  induction l generalizing w with
  | nil => exact Nat.le_refl _
  | cons x l ih => exact Nat.add_le_add (h x w) ih

/-- And with a least. -/
theorem le_total {f : ω → ℕ} (h : ∀ x w, f x ≤ D.wait x w) {l : List ω} {w : τ} :
    (l.map f).sum ≤ D.total l w := by
  induction l generalizing w with
  | nil => exact Nat.le_refl _
  | cons x l ih => exact Nat.add_le_add (h x w) ih

/-- Waits on tapes of a kind, on which each place has its price. -/
theorem total_eq {T : τ → Prop} {f : ω → ℕ} (hnext : ∀ w, T w → T (D.next w))
    (hwait : ∀ x w, T w → D.wait x w = f x) {l : List ω} {w : τ} (hw : T w) :
    D.total l w = (l.map f).sum := by
  induction l generalizing w with
  | nil => rfl
  | cons x l ih => rw [total, hwait x w hw, ih (hnext w hw), List.map_cons, List.sum_cons]

end Device

/-! ## Total correctness with the exact cost -/

section Takes

variable {ι κ σ τ ω : Type*} {P : Isa ι κ σ} {D : Device σ τ ω}

/-- Run from `s`, the program ends, at the cost `b`, in a state with `Q`. -/
def Takes (P : Isa ι κ σ) (D : Device σ τ ω) (c : Code ι κ) (s : σ) (b : Bill ω)
    (Q : σ → Prop) : Prop :=
  ∃ t, c.run P s = some (t, b.cycles + D.total b.waits (D.tape s)) ∧
    D.tape t = D.next^[b.waits.length] (D.tape s) ∧ Q t

variable {c c' e d : Code ι κ} {s s' : σ} {a b : Bill ω} {Q R : σ → Prop} {k sel : κ} {n N : ℕ}
  {l : List ι}

/-- A run that does not wait. -/
theorem Takes.run_tick (h : Takes P D c s (.tick n) Q) :
    ∃ t, c.run P s = some (t, n) ∧ D.tape t = D.tape s ∧ Q t := h

theorem Takes.mono (h : Takes P D c s b Q) (hQ : ∀ t, Q t → R t) : Takes P D c s b R := by
  obtain ⟨t, hrun, ht, h⟩ := h
  exact ⟨t, hrun, ht, hQ t h⟩

theorem Takes.cast (h : Takes P D c s b Q) (hb : b = a) : Takes P D c s a Q := hb ▸ h

theorem Takes.block (hr : P.Ready l s) (ht : D.tape (P.exec l s) = D.tape s)
    (hn : P.cost l s = n) (hQ : Q (P.exec l s)) : Takes P D (.block l) s (.tick n) Q := by
  refine ⟨P.exec l s, ?_, ht, hQ⟩
  rw [Code.run_block, if_pos hr, hn]
  rfl

theorem Takes.jmp (hQ : Q s) : Takes P D .jmp s (.tick P.jmp) Q := ⟨s, rfl, rfl, hQ⟩

theorem Takes.seq (h : Takes P D c s a R) (h' : ∀ t, R t → Takes P D c' t b Q) :
    Takes P D (.seq c c') s (a + b) Q := by
  obtain ⟨t, hrun, ht, hR⟩ := h
  obtain ⟨u, hrun', hu, hQ⟩ := h' t hR
  refine ⟨u, ?_, ?_, hQ⟩
  · rw [Code.run_seq, hrun, Option.bind_some, hrun', ht, Bill.add_waits, Device.total_append]
    simp only [Option.map_some, Bill.add_cycles, Option.some.injEq, Prod.mk.injEq, true_and]
    omega
  · rw [hu, ht, ← Function.iterate_add_apply, Bill.add_waits, List.length_append, Nat.add_comm]

/-- The same, where neither part waits. -/
theorem Takes.seqTick {m : ℕ} (h : Takes P D c s (.tick m) R)
    (h' : ∀ t, R t → Takes P D c' t (.tick n) Q) :
    Takes P D (.seq c c') s (.tick (m + n)) Q := h.seq h'

/-- A block in two parts. -/
theorem Takes.append {l' : List ι} {m : ℕ} (h : Takes P D (.block l) s (.tick m) R)
    (h' : ∀ t, R t → Takes P D (.block l') t (.tick n) Q) :
    Takes P D (.block (l ++ l')) s (.tick (m + n)) Q := by
  obtain ⟨t, hrun, ht, hR⟩ := h
  obtain ⟨u, hrun', hu, hQ⟩ := h' t hR
  rw [Code.run_block, Option.ite_none_right_eq_some] at hrun hrun'
  obtain ⟨hready, heq⟩ := hrun
  obtain ⟨hready', heq'⟩ := hrun'
  obtain ⟨rfl, hm⟩ := Prod.mk.inj (Option.some.inj heq)
  obtain ⟨rfl, hn⟩ := Prod.mk.inj (Option.some.inj heq')
  have hexec : P.exec (l ++ l') s = P.exec l' (P.exec l s) := Isa.exec_append
  refine Takes.block (Isa.ready_append.2 ⟨hready, hready'⟩) ?_ ?_ ?_
  · rw [hexec]
    exact hu.trans ht
  · rw [Isa.cost_append, hm, hn]
    rfl
  · rw [hexec]
    exact hQ

/-- **The rule of a listing**: what holds before an item, with those to come. -/
theorem Takes.seqs {α : Type*} {f : α → Code ι κ} {g : α → Bill ω} {I : List α → σ → Prop}
    (hstep : ∀ x l s, I (x :: l) s → Takes P D (f x) s (g x) (I l)) {l : List α} (h : I l s) :
    Takes P D (.seqs (l.map f)) s (l.map g).sum (I []) := by
  induction l generalizing s with
  | nil => exact Takes.block trivial rfl rfl h
  | cons x l ih =>
    have hx := hstep x l s h
    cases l with
    | nil => exact hx.cast (add_zero _).symm
    | cons y l => exact hx.seq fun t ht => ih ht

theorem Takes.call (htape : D.tape (P.enter s) = D.tape s)
    (h : Takes P D c (P.enter s) b fun t =>
      ∃ u, P.leave t = some u ∧ D.tape u = D.tape t ∧ Q u) :
    Takes P D (.call c) s (b + .tick P.call) Q := by
  obtain ⟨t, hrun, ht, u, hu, hut, hQ⟩ := h
  rw [htape] at hrun ht
  refine ⟨u, ?_, ?_, hQ⟩
  · rw [Code.run_call, hrun, Option.bind_some, hu]
    simp only [Option.map_some, Bill.add_cycles, Bill.add_waits, Bill.tick_cycles,
      Bill.tick_waits, List.append_nil, Option.some.injEq, Prod.mk.injEq, true_and]
    omega
  · rw [hut, ht]
    simp

/-! ### Forward branches -/

theorem Takes.skip_taken (hk : P.test k s = true) (hQ : Q s) :
    Takes P D (.skip k c) s (.tick (P.taken k)) Q :=
  ⟨s, by rw [Code.run_skip, if_pos hk]; rfl, rfl, hQ⟩

theorem Takes.skip_through (hk : P.test k s = false) (h : Takes P D c s b Q) :
    Takes P D (.skip k c) s (b + .tick (P.through k)) Q := by
  obtain ⟨t, hrun, ht, hQ⟩ := h
  refine ⟨t, ?_, ?_, hQ⟩
  · rw [Code.run_skip, if_neg (by rw [hk]; exact Bool.false_ne_true), hrun]
    simp only [Option.map_some, Bill.add_cycles, Bill.add_waits, Bill.tick_cycles,
      Bill.tick_waits, List.append_nil, Option.some.injEq, Prod.mk.injEq, true_and]
    omega
  · rw [ht]
    simp

theorem Takes.either_taken (hk : P.test k s = true) (h : Takes P D c' s b Q) :
    Takes P D (.either k c c') s (b + .tick (P.taken k)) Q := by
  obtain ⟨t, hrun, ht, hQ⟩ := h
  refine ⟨t, ?_, ?_, hQ⟩
  · rw [Code.run_either, if_pos hk, hrun]
    simp only [Option.map_some, Bill.add_cycles, Bill.add_waits, Bill.tick_cycles,
      Bill.tick_waits, List.append_nil, Option.some.injEq, Prod.mk.injEq, true_and]
    omega
  · rw [ht]
    simp

theorem Takes.either_through (hk : P.test k s = false) (h : Takes P D c s b Q) :
    Takes P D (.either k c c') s (b + .tick (P.through k + P.jmp)) Q := by
  obtain ⟨t, hrun, ht, hQ⟩ := h
  refine ⟨t, ?_, ?_, hQ⟩
  · rw [Code.run_either, if_neg (by rw [hk]; exact Bool.false_ne_true), hrun]
    simp only [Option.map_some, Bill.add_cycles, Bill.add_waits, Bill.tick_cycles,
      Bill.tick_waits, List.append_nil, Option.some.injEq, Prod.mk.injEq, true_and]
    omega
  · rw [ht]
    simp

theorem Takes.exits_taken (hk : P.test k s = true) (h : Takes P D c' s b Q) :
    Takes P D (.exits k c c') s (b + .tick (P.taken k)) Q := by
  obtain ⟨t, hrun, ht⟩ := Takes.either_taken (c := c) hk h
  refine ⟨t, ?_, ht⟩
  rw [← hrun, Code.run_exits, Code.run_either, if_pos hk, if_pos hk]

theorem Takes.exits_through (hk : P.test k s = false) (h : Takes P D c s b Q) :
    Takes P D (.exits k c c') s (b + .tick (P.through k)) Q := by
  obtain ⟨t, hrun, ht⟩ := Takes.skip_through hk h
  refine ⟨t, ?_, ht⟩
  rw [← hrun, Code.run_exits, Code.run_skip, if_neg (by rw [hk]; exact Bool.false_ne_true),
    if_neg (by rw [hk]; exact Bool.false_ne_true)]

/-! ### Loops -/

/-- One turn of a loop: its cost, whether another follows, and where it
ends. -/
def TakesTurn (D : Device σ τ ω) (body : σ → Option (σ × ℕ × Bool)) (s : σ) (b : Bill ω)
    (again : Bool) (Q : σ → Prop) : Prop :=
  ∃ t, body s = some (t, b.cycles + D.total b.waits (D.tape s), again) ∧
    D.tape t = D.next^[b.waits.length] (D.tape s) ∧ Q t

/-- **The rule of the turns**: `I j` holds before turn `j`, and turn `N`
does not follow. -/
theorem rounds_takes {body : σ → Option (σ × ℕ × Bool)} {I : ℕ → σ → Prop} {b : ℕ → Bill ω}
    {m : ℕ} (hN : 0 < N) (hm : N ≤ m) (h0 : I 0 s)
    (hstep : ∀ j, j < N → ∀ t, I j t →
      TakesTurn D body t (b j) (decide (j + 1 < N)) (I (j + 1))) :
    ∃ t, rounds body m s = some (t, ((List.range N).map b).sum.cycles
        + D.total ((List.range N).map b).sum.waits (D.tape s)) ∧
      D.tape t = D.next^[((List.range N).map b).sum.waits.length] (D.tape s) ∧ I N t := by
  induction N generalizing I b s m with
  | zero => omega
  | succ N ih =>
    obtain ⟨m, rfl⟩ : ∃ l, m = l + 1 := ⟨m - 1, by omega⟩
    obtain ⟨t, hbody, ht, hI⟩ := hstep 0 (by omega) s h0
    rcases Nat.eq_zero_or_pos N with rfl | hpos
    · refine ⟨t, ?_, by simpa using ht, hI⟩
      rw [rounds_succ, hbody]
      simp
    · obtain ⟨u, hrun, hu, hIN⟩ := ih (I := fun j => I (j + 1)) (b := fun j => b (j + 1)) (s := t)
        (m := m) hpos (by omega) hI fun j hj v hv => by
          obtain ⟨w, hw, hwt, hwI⟩ := hstep (j + 1) (by omega) v hv
          exact ⟨w, by rw [hw]; simp, hwt, hwI⟩
      have hsum : ((List.range (N + 1)).map b).sum
          = b 0 + ((List.range N).map fun j => b (j + 1)).sum := by
        rw [List.range_succ_eq_map, List.map_cons, List.sum_cons, List.map_map]
        rfl
      refine ⟨u, ?_, ?_, hIN⟩
      · rw [rounds_succ, hbody, Option.bind_some, hsum]
        simp only [Nat.zero_add, Nat.lt_add_left_iff_pos, hpos, decide_true, if_true]
        rw [hrun, ht, Bill.add_waits, Device.total_append]
        simp only [Option.map_some, Bill.add_cycles, Option.some.injEq, Prod.mk.injEq, true_and]
        omega
      · rw [hu, ht, ← Function.iterate_add_apply, hsum, Bill.add_waits, List.length_append,
          Nat.add_comm]

theorem TakesTurn.congr {body : σ → Option (σ × ℕ × Bool)} {again : Bool} {t : σ} {m : ℕ}
    (hbody : body s = some (t, m, again)) (hm : m = b.cycles + D.total b.waits (D.tape s))
    (ht : D.tape t = D.next^[b.waits.length] (D.tape s)) (hQ : Q t) :
    TakesTurn D body s b again Q := ⟨t, by rw [hbody, hm], ht, hQ⟩

/-- **The rule of the loop**, `N` turns long. -/
theorem Takes.loop {I : ℕ → σ → Prop} {b : ℕ → Bill ω} (hN : 0 < N) (hm : N ≤ P.fuel)
    (h0 : I 0 s) (hstep : ∀ j, j < N → ∀ t, I j t →
      Takes P D c t (b j) fun u => I (j + 1) u ∧ P.test k u = decide (j + 1 < N)) :
    Takes P D (.loop c k) s
      (((List.range N).map b).sum + .tick ((N - 1) * P.taken k + P.through k)) (I N) := by
  rw [← Bill.sum_last hN, ← Bill.sum_add_tick]
  refine rounds_takes hN hm h0 fun j hj t ht => ?_
  obtain ⟨u, hrun, hu, hI, htest⟩ := hstep j hj t ht
  have hbill : D.next^[(b j + .tick (if j + 1 < N then P.taken k else P.through k)).waits.length]
      (D.tape t) = D.next^[(b j).waits.length] (D.tape t) := by simp
  refine .congr (t := u) (m := (b j).cycles + D.total (b j).waits (D.tape t)
    + if j + 1 < N then P.taken k else P.through k) ?_ ?_ (hu.trans hbill.symm) hI
  · rw [hrun, Option.map_some, htest]
    by_cases h : j + 1 < N <;> simp [h]
  · simp only [Bill.add_cycles, Bill.add_waits, Bill.tick_cycles, Bill.tick_waits, List.append_nil]
    omega

/-- And of the loop with the branch out of it. -/
theorem Takes.loopUntil {I : ℕ → σ → Prop} {b : ℕ → Bill ω} (hN : 0 < N) (hm : N ≤ P.fuel)
    (h0 : I 0 s) (hstep : ∀ j, j < N → ∀ t, I j t →
      Takes P D c t (b j) fun u => I (j + 1) u ∧ P.test k u = decide (N ≤ j + 1)) :
    Takes P D (.loopUntil c k) s (((List.range N).map b).sum
      + .tick ((N - 1) * (P.through k + P.jmp) + P.taken k)) (I N) := by
  rw [← Bill.sum_last hN, ← Bill.sum_add_tick]
  refine rounds_takes hN hm h0 fun j hj t ht => ?_
  obtain ⟨u, hrun, hu, hI, htest⟩ := hstep j hj t ht
  have hbill : D.next^[(b j + .tick (if j + 1 < N then P.through k + P.jmp
      else P.taken k)).waits.length] (D.tape t) = D.next^[(b j).waits.length] (D.tape t) := by simp
  refine .congr (t := u) (m := (b j).cycles + D.total (b j).waits (D.tape t)
    + if j + 1 < N then P.through k + P.jmp else P.taken k) ?_ ?_ (hu.trans hbill.symm) hI
  · rw [hrun, Option.map_some, htest]
    by_cases h : j + 1 < N
    · simp [h, Nat.not_le.2 h]
    · simp [h, Nat.not_lt.1 h]
  · simp only [Bill.add_cycles, Bill.add_waits, Bill.tick_cycles, Bill.tick_waits, List.append_nil]
    omega

section Routine

variable {μ : Type*} {f : μ → μ × Bool} {v : σ → μ} {J : ℕ → μ → Prop} {K : ℕ → σ → Prop}
  {b : ℕ → Bill ω} {m : ℕ}

/-- **A loop of a listing is the loop of its routine**, where the listing of
the body is its body and the branch its test. `J j` is what the routine has
before turn `j`, `K j` what the listing has besides. -/
theorem Takes.loop_doWhile (hN : 0 < N) (hm : N ≤ P.fuel) (hm' : N ≤ m) (hJ : J 0 (v s))
    (hK : K 0 s)
    (hbody : ∀ j, j < N → ∀ x, J j x → J (j + 1) (f x).1 ∧ (f x).2 = decide (j + 1 < N))
    (hturn : ∀ j, j < N → ∀ t, J j (v t) → K j t → Takes P D c t (b j) fun u =>
      v u = (f (v t)).1 ∧ P.test k u = (f (v t)).2 ∧ K (j + 1) u) :
    Takes P D (.loop c k) s
      (((List.range N).map b).sum + .tick ((N - 1) * P.taken k + P.through k))
      fun t => v t = doWhile f m (v s) ∧ K N t := by
  obtain ⟨hat, heq⟩ := doWhile_turns J hJ hN hm' hbody
  rw [heq]
  refine Takes.loop (I := fun j t => v t = (fun x => (f x).1)^[j] (v s) ∧ K j t) hN hm
    ⟨rfl, hK⟩ ?_
  rintro j hj t ⟨ht, hKt⟩
  have hJt : J j (v t) := by rw [ht]; exact hat j hj.le
  refine (hturn j hj t hJt hKt).mono ?_
  rintro u ⟨hu, htest, hKu⟩
  refine ⟨⟨?_, hKu⟩, htest.trans (hbody j hj _ hJt).2⟩
  rw [hu, Function.iterate_succ_apply', ht]

/-- And of the loop with the branch out of it. -/
theorem Takes.loopUntil_doWhile (hN : 0 < N) (hm : N ≤ P.fuel) (hm' : N ≤ m) (hJ : J 0 (v s))
    (hK : K 0 s)
    (hbody : ∀ j, j < N → ∀ x, J j x → J (j + 1) (f x).1 ∧ (f x).2 = decide (j + 1 < N))
    (hturn : ∀ j, j < N → ∀ t, J j (v t) → K j t → Takes P D c t (b j) fun u =>
      v u = (f (v t)).1 ∧ P.test k u = (!(f (v t)).2) ∧ K (j + 1) u) :
    Takes P D (.loopUntil c k) s
      (((List.range N).map b).sum + .tick ((N - 1) * (P.through k + P.jmp) + P.taken k))
      fun t => v t = doWhile f m (v s) ∧ K N t := by
  obtain ⟨hat, heq⟩ := doWhile_turns J hJ hN hm' hbody
  rw [heq]
  refine Takes.loopUntil (I := fun j t => v t = (fun x => (f x).1)^[j] (v s) ∧ K j t) hN hm
    ⟨rfl, hK⟩ ?_
  rintro j hj t ⟨ht, hKt⟩
  have hJt : J j (v t) := by rw [ht]; exact hat j hj.le
  refine (hturn j hj t hJt hKt).mono ?_
  rintro u ⟨hu, htest, hKu⟩
  refine ⟨⟨?_, hKu⟩, ?_⟩
  · rw [hu, Function.iterate_succ_apply', ht]
  · rw [htest, (hbody j hj _ hJt).2, ← decide_not]
    exact decide_eq_decide.2 Nat.not_lt

end Routine

/-! ### The loop through a patched jump -/

/-- Where the pointer leads elsewhere. -/
theorem Takes.dispatch_other (hm : 0 < P.fuel) (hsel : P.test sel s = false)
    (h : Takes P D d s b Q) : Takes P D (.dispatch sel c k e d) s (b + .tick P.jmp) Q := by
  obtain ⟨t, hrun, ht, hQ⟩ := h
  obtain ⟨m, hfuel⟩ : ∃ l, P.fuel = l + 1 := ⟨P.fuel - 1, by omega⟩
  refine ⟨t, ?_, by rw [ht]; simp, hQ⟩
  rw [Code.run_dispatch, hfuel, rounds_succ, if_neg (by rw [hsel]; exact Bool.false_ne_true), hrun]
  simp only [Option.map_some, Option.bind_some, Bool.false_eq_true, if_false, Bill.add_cycles,
    Bill.add_waits, Bill.tick_cycles, Bill.tick_waits, List.append_nil, Option.some.injEq,
    Prod.mk.injEq, true_and]
  omega

/-- **The rule of the loop through the jump**: `N` turns by way of `c`, the
last of them leaving by way of `e`. -/
theorem Takes.dispatch {I : ℕ → σ → Prop} {b : ℕ → Bill ω} (hN : 0 < N) (hm : N ≤ P.fuel)
    (h0 : I 0 s) (hsel : ∀ j, j < N → ∀ t, I j t → P.test sel t = true)
    (hstep : ∀ j, j < N → ∀ t, I j t →
      Takes P D c t (b j) fun u => I (j + 1) u ∧ P.test k u = decide (N ≤ j + 1))
    (hout : ∀ t, I N t → Takes P D e t a Q) :
    Takes P D (.dispatch sel c k e d) s (((List.range N).map b).sum + a
      + .tick ((N - 1) * (P.jmp + P.through k) + (P.jmp + P.taken k))) Q := by
  have hsum := Bill.sum_last (x := P.jmp + P.through k) (y := P.jmp + P.taken k) hN
  rw [← hsum, ← Bill.sum_add_last hN, ← Bill.sum_add_tick]
  refine rounds_takes (I := fun j t => if j < N then I j t else Q t) hN hm ?_ ?_ |>.imp fun t h =>
    ⟨h.1, h.2.1, by simpa using h.2.2⟩
  · rw [if_pos hN]
    exact h0
  intro j hj t ht
  rw [if_pos hj] at ht
  obtain ⟨u, hrun, hu, hI, htest⟩ := hstep j hj t ht
  by_cases h : j + 1 < N
  · refine .congr (t := u) (m := P.jmp + ((b j).cycles + D.total (b j).waits (D.tape t))
      + P.through k) ?_ ?_ ?_ ?_
    · rw [if_pos (hsel j hj t ht), hrun, Option.bind_some]
      simp [htest, h]
    · simp only [if_pos h, Bill.add_cycles, Bill.add_waits, Bill.tick_cycles, Bill.tick_waits,
        List.append_nil, Bill.zero_cycles, Bill.zero_waits]
      omega
    · rw [hu, if_pos h]
      simp
    · rw [if_pos h]
      exact hI
  · obtain rfl : j + 1 = N := by omega
    obtain ⟨v, hrun', hv, hQ⟩ := hout u hI
    refine .congr (t := v) (m := P.jmp + ((b j).cycles + D.total (b j).waits (D.tape t))
      + P.taken k + (a.cycles + D.total a.waits (D.tape u))) ?_ ?_ ?_ ?_
    · rw [if_pos (hsel j hj t ht), hrun, Option.bind_some]
      simp [htest, hrun']
    · simp only [if_neg h, Bill.add_cycles, Bill.add_waits, Bill.tick_cycles, Bill.tick_waits,
        List.append_nil, Device.total_append, hu]
      omega
    · rw [hv, hu, if_neg h, ← Function.iterate_add_apply]
      simp [Nat.add_comm]
    · rw [if_neg h]
      exact hQ

/-! ### The loop with two ways out -/

variable {g h : Code ι κ} {k' : κ} {m : ℕ}

theorem rounds_stop {body : σ → Option (σ × ℕ × Bool)} {t : σ} (hm : 0 < m)
    (h : body s = some (t, n, false)) : rounds body m s = some (t, n) := by
  obtain ⟨m, rfl⟩ : ∃ l, m = l + 1 := ⟨m - 1, by omega⟩
  rw [rounds_succ, h]
  rfl

theorem rounds_again {body : σ → Option (σ × ℕ × Bool)} {t : σ}
    (h : body s = some (t, n, true)) :
    rounds body (m + 1) s = (rounds body m t).map fun u => (u.1, n + u.2) := by
  rw [rounds_succ, h]
  rfl

/-- Out by the first branch. -/
theorem pollTurn_out {t : σ} (hc : c.run P s = some (t, n)) (hk : P.test k t = true) :
    P.pollTurn (c.run P) k (d.run P) k' (g.run P) (h.run P) s
      = some (t, n + P.taken k, false) := by
  rw [Isa.pollTurn, hc, Option.bind_some, if_pos hk]

/-- Out by the second. -/
theorem pollTurn_late {t u v : σ} {n' n'' : ℕ} (hc : c.run P s = some (t, n))
    (hk : P.test k t = false) (hd : d.run P t = some (u, n')) (hk' : P.test k' u = true)
    (hh : h.run P u = some (v, n'')) :
    P.pollTurn (c.run P) k (d.run P) k' (g.run P) (h.run P) s
      = some (v, n + P.through k + n' + P.taken k' + n'', false) := by
  rw [Isa.pollTurn, hc, Option.bind_some, if_neg (by rw [hk]; exact Bool.false_ne_true), hd,
    Option.bind_some, if_pos hk', hh]
  rfl

/-- Around again. -/
theorem pollTurn_again {t u v : σ} {n' n'' : ℕ} (hc : c.run P s = some (t, n))
    (hk : P.test k t = false) (hd : d.run P t = some (u, n')) (hk' : P.test k' u = false)
    (hg : g.run P u = some (v, n'')) :
    P.pollTurn (c.run P) k (d.run P) k' (g.run P) (h.run P) s
      = some (v, n + P.through k + n' + P.through k' + n'' + P.jmp, true) := by
  rw [Isa.pollTurn, hc, Option.bind_some, if_neg (by rw [hk]; exact Bool.false_ne_true), hd,
    Option.bind_some, if_neg (by rw [hk']; exact Bool.false_ne_true), hg]
  rfl

/-- A run on its own is a wait, as the device counts it. -/
theorem Takes.of_wait {t : σ} {x : ω} (hrun : c.run P s = some (t, D.wait x (D.tape s)))
    (ht : D.tape t = D.next (D.tape s)) (hQ : Q t) : Takes P D c s (.wait x) Q :=
  ⟨t, by rw [hrun]; simp [Device.total], by simpa using ht, hQ⟩

end Takes

end C64X25519
