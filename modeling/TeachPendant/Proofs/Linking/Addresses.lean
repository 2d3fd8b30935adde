import Mathlib.Data.List.Lex
import TeachPendant.Proofs.Linking.Relinking

namespace TeachPendant

section Addresses

variable {α β γ : Type}

/-- What is found at an address in one of the items of a list, which the first number picks. -/
def below? (f : α → List Nat → Option β) (xs : List α) : List Nat → Option β
  | [] => none
  | k :: rest => (xs[k]?).bind fun x => f x rest

/-- All that stands at addresses, each once, in ascending order of the addresses. -/
def Enumerates (f : List Nat → Option β) (ys : List β) : Prop :=
  ∃ addresses : List (List Nat), addresses.Pairwise (· < ·) ∧
    (∀ a, a ∈ addresses ↔ (f a).isSome) ∧ addresses.map f = ys.map some

namespace Enumerates

variable {f : List Nat → Option β} {ys : List β}

theorem mem_iff (h : Enumerates f ys) (y : β) : y ∈ ys ↔ ∃ a, f a = some y := by
  obtain ⟨addresses, -, hmem, hmap⟩ := h
  have hy : y ∈ ys ↔ some y ∈ addresses.map f := by simp [hmap]
  rw [hy, List.mem_map]
  refine ⟨fun ⟨a, _, ha⟩ => ⟨a, ha⟩, fun ⟨a, ha⟩ => ⟨a, (hmem a).mpr ?_, ha⟩⟩
  rw [ha]
  rfl

theorem none (h : ∀ a, f a = none) : Enumerates f [] :=
  ⟨[], .nil, by simp [h], rfl⟩

theorem single {y : β} (h : f [] = some y) (hrest : ∀ k rest, f (k :: rest) = .none) :
    Enumerates f [y] := by
  refine ⟨[[]], List.pairwise_singleton _ _, fun a => ?_, by simp [h]⟩
  cases a with
  | nil => simp [h]
  | cons k rest => simp [hrest]

/-- The addresses of the items after the first one. -/
def next : List Nat → List Nat
  | [] => []
  | k :: rest => (k + 1) :: rest

theorem next_lt_next {a b : List Nat} (h : a < b) : next a < next b := by
  cases b with
  | nil => exact absurd h (List.not_lt_nil a)
  | cons l b =>
    cases a with
    | nil => exact List.nil_lt_cons _ _
    | cons k a =>
      rw [next, next, List.cons_lt_cons_iff]
      rcases List.cons_lt_cons_iff.mp h with hk | ⟨rfl, hrest⟩
      · exact Or.inl (Nat.succ_lt_succ hk)
      · exact Or.inr ⟨rfl, hrest⟩

/-- Item by item. -/
theorem below {g : α → List Nat → Option β} {ys : α → List β} {xs : List α}
    (h : ∀ x ∈ xs, Enumerates (g x) (ys x)) : Enumerates (below? g xs) (xs.flatMap ys) := by
  induction xs with
  | nil => exact none fun a => by cases a <;> rfl
  | cons x xs ih =>
    obtain ⟨hx, hxs⟩ := List.forall_mem_cons.mp h
    obtain ⟨as, hsorted, hmem, hmap⟩ := hx
    obtain ⟨bs, hsorted', hmem', hmap'⟩ := ih hxs
    have hfirst (a : List Nat) : below? g (x :: xs) (0 :: a) = g x a := rfl
    have hnext (b : List Nat) : below? g (x :: xs) (next b) = below? g xs b := by cases b <;> rfl
    refine ⟨as.map (0 :: ·) ++ bs.map next, ?_, fun a => ?_, ?_⟩
    · rw [List.pairwise_append, List.pairwise_map, List.pairwise_map]
      refine ⟨hsorted.imp fun hab => List.cons_lt_cons_iff.mpr (Or.inr ⟨rfl, hab⟩),
        hsorted'.imp next_lt_next, fun a ha b hb => ?_⟩
      obtain ⟨a, -, rfl⟩ := List.mem_map.mp ha
      obtain ⟨b, hbs, rfl⟩ := List.mem_map.mp hb
      cases b with
      | nil => cases (hmem' []).mp hbs
      | cons k b => exact List.cons_lt_cons_iff.mpr (Or.inl (Nat.succ_pos k))
    · have hnil : [] ∉ bs := fun hb => by cases (hmem' []).mp hb
      rw [List.mem_append, List.mem_map, List.mem_map]
      cases a with
      | nil =>
        refine ⟨?_, nofun⟩
        rintro (⟨a, -, ha⟩ | ⟨b, hb, hn⟩)
        · cases ha
        · cases b with
          | nil => exact absurd hb hnil
          | cons => cases hn
      | cons k a =>
        cases k with
        | zero =>
          rw [hfirst, ← hmem a]
          constructor
          · rintro (⟨a', ha, he⟩ | ⟨b, hb, hn⟩)
            · cases he
              exact ha
            · cases b <;> cases hn
          · exact fun ha => Or.inl ⟨a, ha, rfl⟩
        | succ k =>
          rw [show (k + 1) :: a = next (k :: a) from rfl, hnext, ← hmem' (k :: a)]
          constructor
          · rintro (⟨a', -, he⟩ | ⟨b, hb, hn⟩)
            · cases he
            · cases b with
              | nil => cases hn
              | cons l b =>
                cases hn
                exact hb
          · exact fun hb => Or.inr ⟨k :: a, hb, rfl⟩
    · simp [Function.comp_def, hfirst, hnext, hmap, hmap']

/-- What is made of some of the things at addresses. -/
theorem filterMap (h : Enumerates f ys) (p : β → Option γ) :
    Enumerates (fun a => (f a).bind p) (ys.filterMap p) := by
  obtain ⟨addresses, hsorted, hmem, hmap⟩ := h
  refine ⟨addresses.filter fun a => ((f a).bind p).isSome, hsorted.filter _, fun a => ?_, ?_⟩
  · rw [List.mem_filter, hmem a]
    cases hf : f a <;> simp [hf]
  · clear hsorted hmem
    induction addresses generalizing ys with
    | nil =>
      obtain rfl : ys = [] := by simpa using hmap.symm
      rfl
    | cons a addresses ih =>
      cases ys with
      | nil => cases hmap
      | cons y ys =>
        obtain ⟨hy, hys⟩ := List.cons.inj hmap
        have hrest := ih hys
        cases hp : p y <;> simp [hy, hp, hrest]

end Enumerates

end Addresses

def SelectCase.body : SelectCase → Instruction
  | .mk _ body => body

namespace Instruction

/-- The instructions that an instruction holds. -/
def bodies : Instruction → List Instruction
  | .mk (.ifThen _ body) _ => [body]
  | .mk (.select _ cases) _ => cases.map (·.body)
  | _ => []

/-- The target of a call. -/
def target? : Instruction → Option CallTarget
  | .mk (.call target) _ => some target
  | _ => none

/-- The call at the end of a path of bodies. -/
def callAt? : Instruction → List Nat → Option CallTarget
  | i, [] => i.target?
  | i, k :: path => (i.bodies[k]?).bind fun body => body.callAt? path

end Instruction

def Program.callAt? (p : Program) : List Nat → Option CallTarget :=
  below? (fun line => line.instruction.callAt?) p.lines

def Library.callAt? (l : Library) : List Nat → Option CallTarget :=
  below? Program.callAt? l.programs

/-- The call at an address in libraries. -/
def callAt? (libraries : List Library) : List Nat → Option CallTarget :=
  below? Library.callAt? libraries

namespace Instruction

theorem caseCalls_eq (cases : List SelectCase) :
    caseCalls cases = (cases.map (·.body)).flatMap calls := by
  induction cases with
  | nil => rfl
  | cons c cases ih =>
    obtain ⟨value, body⟩ := c
    rw [caseCalls, ih]
    rfl

/-- The bodies of an instruction that is no call. -/
theorem enumerates_bodies {i : Instruction} (ht : i.target? = none)
    (h : ∀ body ∈ i.bodies, Enumerates body.callAt? body.calls) :
    Enumerates i.callAt? (i.bodies.flatMap calls) := by
  have hbelow : i.callAt? = below? callAt? i.bodies := by
    funext path
    cases path with
    | nil => exact ht
    | cons k path => rfl
  rw [hbelow]
  exact .below h

theorem enumerates_calls (i : Instruction) : Enumerates i.callAt? i.calls := by
  induction i using Instruction.induction with
  | single action commented hi hs =>
    cases action with
    | ifThen condition body => exact absurd rfl (hi condition body)
    | select argument cases => exact absurd rfl (hs argument cases)
    | call target => exact .single rfl fun k path => rfl
    | _ => exact enumerates_bodies rfl nofun
  | ifThen condition body commented hb =>
    have hcalls : (mk (.ifThen condition body) commented).calls = [body].flatMap calls := by
      simp [calls, actionCalls]
    rw [hcalls]
    refine enumerates_bodies rfl fun b hm => ?_
    obtain rfl := List.mem_singleton.mp hm
    exact hb
  | select argument cases commented hb =>
    rw [calls, actionCalls, caseCalls_eq]
    refine enumerates_bodies rfl fun b hm => ?_
    obtain ⟨⟨value, body⟩, hc, rfl⟩ := List.mem_map.mp hm
    exact hb value body hc

end Instruction

theorem Program.enumerates_calls (p : Program) : Enumerates p.callAt? p.calls :=
  .below fun line _ => line.instruction.enumerates_calls

theorem Library.enumerates_calls (l : Library) : Enumerates l.callAt? l.calls :=
  .below fun p _ => p.enumerates_calls

theorem enumerates_calls (libraries : List Library) :
    Enumerates (callAt? libraries) (libraries.flatMap (·.calls)) :=
  .below fun l _ => l.enumerates_calls

end TeachPendant
