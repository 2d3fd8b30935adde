import Mathlib.Algebra.Order.BigOperators.Group.List
import Mathlib.Data.Set.Card
import Mathlib.Data.Set.Finite.Lattice
import TeachPendant.Proofs.Cell.Sound
import TeachPendant.Proofs.Instruction.Transfers

namespace TeachPendant

namespace Program

/-- The line holds a jump or a call that is not commented out. -/
def Transfers (p : Program) (line : Nat) (flow : Flow) : Prop :=
  ∃ i, p.instruction? line = some i ∧ flow ∈ i.transfers

/-- The jumps and calls of all lines. -/
def transfers (p : Program) : List Flow := p.lines.flatMap (·.instruction.transfers)

theorem Transfers.mem {p : Program} {line : Nat} {flow : Flow} (h : p.Transfers line flow) :
    flow ∈ p.transfers := by
  obtain ⟨i, hi, hmem⟩ := h
  obtain ⟨written, hline, rfl⟩ := Option.map_eq_some_iff.mp hi
  exact List.mem_flatMap.mpr ⟨written, List.mem_of_getElem? hline, hmem⟩

/-- Jumps that are not commented out go to later lines, or nowhere. -/
def JumpsAhead (p : Program) : Prop :=
  ∀ line label k, p.Transfers line (.jump label) → p.findLabel label = some k → line < k

/-- Whether the flow, if it is a jump, goes to a line after this one. -/
def goesAhead (p : Program) (line : Nat) : Flow → Bool
  | .jump label => (p.findLabel label).all fun k => decide (line < k)
  | .next | .call _ | .move _ => true

theorem jumpsAhead_iff (p : Program) : p.JumpsAhead ↔
    ∀ line < p.length, ∀ flow ∈ (p.instruction? line).elim [] (·.transfers),
      p.goesAhead line flow = true := by
  constructor
  · intro h line _ flow hflow
    cases hi : p.instruction? line with
    | none =>
      rw [hi] at hflow
      cases hflow
    | some i =>
      rw [hi] at hflow
      cases flow with
      | jump label =>
        rw [goesAhead, Option.all_eq_true]
        exact fun k hk => decide_eq_true (h line label k ⟨i, hi, hflow⟩ hk)
      | next | call | move => rfl
  · rintro h line label k ⟨i, hi, hflow⟩ hk
    obtain ⟨written, hline, -⟩ := Option.map_eq_some_iff.mp hi
    have hlt : line < p.length := (List.getElem?_eq_some_iff.mp hline).1
    have hahead := h line hlt (.jump label) (by rw [hi]; exact hflow)
    simpa [goesAhead, hk] using hahead

instance (p : Program) : Decidable p.JumpsAhead := decidable_of_iff' _ p.jumpsAhead_iff

end Program

/-- What the lines of a program from line `i` on cost. -/
def Library.costFrom (l : Library) (cost : Nat → Nat) (k i : Nat) : Nat :=
  match l.get? k with
  | none => 0
  | some p => (p.length - i) * cost k

theorem Library.costFrom_of_some {l : Library} {k : Nat} {p : Program} (h : l.get? k = some p)
    (cost : Nat → Nat) (i : Nat) : l.costFrom cost k i = (p.length - i) * cost k := by
  rw [costFrom, h]

/-- The device and the place in its library to which a call leads. -/
def callee? (l : Side → Library) : Flow → Option (Side × Nat)
  | .call target =>
    match Side.ofId? target.device with
    | none => none
    | some r =>
      match (l r).resolve target with
      | .ok ref => some (r, ref.index)
      | .error _ => none
  | .next | .jump _ | .move _ => none

def callees (l : Side → Library) (P : Side × Nat) : List (Side × Nat) :=
  match (l P.1).get? P.2 with
  | none => []
  | some p => p.transfers.filterMap (callee? l)

/-- The program at the first place holds a call, not commented out, to that at the second one. Both
are given by a device and the place in its library. -/
def Calls (l : Side → Library) (P Q : Side × Nat) : Prop := Q ∈ callees l P

/-- No program leads back to itself through calls. -/
def Acyclic (l : Side → Library) : Prop := ∀ P, ¬ Relation.TransGen (Calls l) P P

/-- The programs that are called from this one, directly or not. -/
def reached (l : Side → Library) (P : Side × Nat) : Set (Side × Nat) :=
  {Q | Relation.TransGen (Calls l) P Q}

/-- What a line costs from which calls go on through at most `r` programs in a row, if no program
has more than `n` lines. -/
def lineCost (n : Nat) : Nat → Nat
  | 0 => 2
  | r + 1 => n * lineCost n r + 2

/-- What a run of the called program costs; nothing if the call does not find it. -/
def callCost (l : Side → Library) (cost : Side → Nat → Nat) (target : CallTarget) : Nat :=
  match callee? l (.call target) with
  | none => 0
  | some (r, k) => (l r).costFrom (cost r) k 0

/-- Prices for the lines of programs that are enough for a run of whatever a line calls. -/
structure Affordable (l : Side → Library) (cost : Side → Nat → Nat) : Prop where
  two_le : ∀ s k, 2 ≤ cost s k
  call : ∀ s k r i p, Calls l (s, k) (r, i) → (l r).get? i = some p →
    p.length * cost r i + 1 < cost s k

variable {l : Side → Library} {P Q : Side × Nat}

theorem callee?_of_resolve {target : CallTarget} {s : Side} {ref : ProgramRef}
    (hs : target.device = s.id) (h : (l s).resolve target = .ok ref) :
    callee? l (.call target) = some (s, ref.index) := by
  simp only [callee?, hs, Side.ofId?_id, h]

theorem get?_of_callee? {flow : Flow} (h : callee? l flow = some Q) :
    ∃ p, (l Q.1).get? Q.2 = some p := by
  unfold callee? at h
  split at h
  · next target =>
    split at h
    · cases h
    · next r _ =>
      split at h
      · next ref hresolve =>
        cases h
        obtain ⟨-, p, hp, -⟩ := Library.link_of_resolve hresolve
        exact ⟨p, hp⟩
      · cases h
  all_goals cases h

theorem calls_iff : Calls l P Q ↔
    ∃ p, (l P.1).get? P.2 = some p ∧ ∃ flow ∈ p.transfers, callee? l flow = some Q := by
  unfold Calls callees
  cases hp : (l P.1).get? P.2 with
  | none => simp
  | some p => simp

theorem Calls.lt_length (h : Calls l P Q) : Q.2 < (l Q.1).length := by
  obtain ⟨-, -, flow, -, hflow⟩ := calls_iff.mp h
  obtain ⟨q, hq⟩ := get?_of_callee? hflow
  exact (List.getElem?_eq_some_iff.mp hq).1

theorem finite_reached (l : Side → Library) (P : Side × Nat) : (reached l P).Finite := by
  have hside (s : Side) : {Q | Q.1 = s ∧ Q ∈ reached l P}.Finite := by
    refine ((Set.finite_lt_nat (l s).length).image (Prod.mk s)).subset ?_
    rintro ⟨_, k⟩ ⟨rfl, hQ⟩
    obtain ⟨R, -, hcall⟩ := Relation.TransGen.tail'_iff.mp hQ
    exact ⟨k, hcall.lt_length, rfl⟩
  refine ((hside .first).union (hside .second)).subset fun Q hQ => ?_
  cases hQ1 : Q.1 with
  | first => exact Or.inl ⟨hQ1, hQ⟩
  | second => exact Or.inr ⟨hQ1, hQ⟩

/-- What a called program reaches is reached by its caller, which reaches the callee besides. -/
theorem Acyclic.ncard_reached_lt (h : Acyclic l) (hcall : Calls l P Q) :
    (reached l Q).ncard < (reached l P).ncard := by
  refine Set.ncard_lt_ncard ⟨fun R hR => .head hcall hR, fun hsubset => ?_⟩ (finite_reached l P)
  exact h Q (hsubset (Relation.TransGen.single hcall))

theorem two_le_lineCost (n r : Nat) : 2 ≤ lineCost n r := by
  cases r with
  | zero => exact Nat.le_refl 2
  | succ r => exact Nat.le_add_left 2 _

theorem lineCost_mono (n : Nat) : Monotone (lineCost n) := by
  refine monotone_nat_of_le_succ fun r => ?_
  induction r with
  | zero => exact two_le_lineCost n 1
  | succ r ih => exact Nat.add_le_add_right (Nat.mul_le_mul_left n ih) 2

theorem exists_length_le (l : Side → Library) :
    ∃ n, ∀ s k p, (l s).get? k = some p → p.length ≤ n := by
  have hside (s : Side) : ∃ n, ∀ p ∈ (l s).programs, p.length ≤ n :=
    ⟨_, fun p hp => List.single_le_sum (by simp) _ (List.mem_map_of_mem hp)⟩
  obtain ⟨m, hm⟩ := hside .first
  obtain ⟨n, hn⟩ := hside .second
  refine ⟨m + n, fun s k p hp => ?_⟩
  have hmem : p ∈ (l s).programs := List.mem_of_getElem? hp
  cases s with
  | first => exact (hm p hmem).trans (Nat.le_add_right m n)
  | second => exact (hn p hmem).trans (Nat.le_add_left n m)

theorem Acyclic.exists_affordable (h : Acyclic l) : ∃ cost, Affordable l cost := by
  obtain ⟨n, hn⟩ := exists_length_le l
  refine ⟨fun s k => lineCost n (reached l (s, k)).ncard, fun s k => two_le_lineCost n _, ?_⟩
  intro s k r i p hcall hp
  calc p.length * lineCost n (reached l (r, i)).ncard + 1
      < n * lineCost n (reached l (r, i)).ncard + 2 := by
        have hlength := Nat.mul_le_mul_right (lineCost n (reached l (r, i)).ncard) (hn r i p hp)
        omega
    _ = lineCost n ((reached l (r, i)).ncard + 1) := rfl
    _ ≤ lineCost n (reached l (s, k)).ncard := lineCost_mono n (h.ncard_reached_lt hcall)

/-- A line pays for its call, and for two steps more. -/
theorem Affordable.callCost_lt {cost : Side → Nat → Nat} (h : Affordable l cost) {s : Side} {k : Nat}
    {p : Program} (hp : (l s).get? k = some p) {target : CallTarget}
    (ht : .call target ∈ p.transfers) : callCost l cost target + 1 < cost s k := by
  unfold callCost
  cases hcallee : callee? l (.call target) with
  | none => exact h.two_le s k
  | some Q =>
    obtain ⟨q, hq⟩ := get?_of_callee? hcallee
    have hcall : Calls l (s, k) Q := calls_iff.mpr ⟨p, hp, _, ht, hcallee⟩
    dsimp only
    rw [Library.costFrom_of_some hq]
    exact h.call s k Q.1 Q.2 q hcall hq

/-- Ranks that calls lower leave no way back. -/
theorem acyclic_of_rank (rank : Side × Nat → Nat)
    (h : ∀ s, ∀ k < (l s).length, ∀ Q ∈ callees l (s, k), rank Q < rank (s, k)) : Acyclic l := by
  have hlower {P Q : Side × Nat} (hPQ : Relation.TransGen (Calls l) P Q) : rank Q < rank P := by
    have hcalls {P Q : Side × Nat} (hcall : Calls l P Q) : rank Q < rank P := by
      obtain ⟨p, hp, -⟩ := calls_iff.mp hcall
      exact h P.1 P.2 (List.getElem?_eq_some_iff.mp hp).1 Q hcall
    induction hPQ with
    | single hcall => exact hcalls hcall
    | tail _ hcall ih => exact (hcalls hcall).trans ih
  exact fun P hP => Nat.lt_irrefl _ (hlower hP)

end TeachPendant
