import TeachPendant.Proofs.Linking.Addresses
import TeachPendant.Proofs.Linking.Names
import TeachPendant.Proofs.Linking.SameButLinks

namespace TeachPendant

theorem below?_map {α β γ : Type} {f : α → List Nat → Option β} {g : β → γ} {h : α → α}
    {f' : α → List Nat → Option γ} (hf : ∀ x a, f' (h x) a = (f x a).map g) (xs : List α)
    (a : List Nat) : below? f' (xs.map h) a = (below? f xs a).map g := by
  cases a with
  | nil => rfl
  | cons k a =>
    rw [below?, below?, List.getElem?_map]
    cases xs[k]? with
    | none => rfl
    | some x => exact hf x a

namespace Instruction

variable (f : CallTarget → CallTarget)

theorem target?_mapCalls (i : Instruction) : (i.mapCalls f).target? = i.target?.map f := by
  obtain ⟨action, commented⟩ := i
  cases action <;> rfl

theorem bodies_mapCalls (i : Instruction) :
    (i.mapCalls f).bodies = i.bodies.map (·.mapCalls f) := by
  obtain ⟨action, commented⟩ := i
  cases action with
  | select argument cases =>
    have hbody : ∀ c : SelectCase, (c.mapCalls f).body = c.body.mapCalls f := by
      rintro ⟨value, body⟩
      rfl
    simp [mapCalls, mapActionCalls, mapCaseCalls_eq, bodies, hbody, Function.comp_def]
  | _ => rfl

theorem callAt?_mapCalls (i : Instruction) (path : List Nat) :
    (i.mapCalls f).callAt? path = (i.callAt? path).map f := by
  induction path generalizing i with
  | nil => exact i.target?_mapCalls f
  | cons k path ih =>
    rw [callAt?, callAt?, bodies_mapCalls, List.getElem?_map]
    cases i.bodies[k]? with
    | none => rfl
    | some body => exact ih body

end Instruction

theorem callAt?_mapCalls (f : CallTarget → CallTarget) (libraries : List Library) (a : List Nat) :
    callAt? (libraries.map (·.mapCalls f)) a = (callAt? libraries a).map f := by
  have hlines (p : Program) (a : List Nat) :
      (p.mapCalls f).callAt? a = (p.callAt? a).map f :=
    below?_map (fun line => line.instruction.callAt?_mapCalls f) p.lines a
  have hprograms (l : Library) (a : List Nat) :
      (l.mapCalls f).callAt? a = (l.callAt? a).map f := below?_map hlines l.programs a
  exact below?_map hprograms libraries a

@[simp] theorem Library.find?_mapCalls (l : Library) (f : CallTarget → CallTarget) (name : String) :
    (l.mapCalls f).find? name = l.find? name := by
  simp only [find?, mapCalls, List.findIdx?_map]
  rfl

open Linking

theorem callAt?_linkCalls (libraries : List Library) (a : List Nat) :
    callAt? (linkCalls libraries).1 a = (callAt? libraries a).map (linkTarget libraries) :=
  callAt?_mapCalls _ libraries a

/-- What is said of a call without a link. -/
def CallTarget.unresolved? (t : CallTarget) : Option Error :=
  if t.link = none then some (.unresolvedCall t.program t.device) else none

/-- What a pass gives back is said of the calls that it leaves without a link. -/
theorem errors_linkCalls (libraries : List Library) :
    (linkCalls libraries).2 =
      ((linkCalls libraries).1.flatMap (·.calls)).filterMap CallTarget.unresolved? := by
  have hcalls : (linkCalls libraries).1.flatMap (·.calls) =
      (libraries.flatMap (·.calls)).map (linkTarget libraries) := by
    simp [linkCalls, List.flatMap_map, List.map_flatMap]
  rw [hcalls, linkCalls]
  generalize libraries.flatMap (·.calls) = ts
  induction ts with
  | nil => rfl
  | cons t ts ih =>
    rw [List.map_cons, List.filterMap_cons, ← ih, List.filter_cons]
    cases hl : linkOf libraries t <;> simp [CallTarget.unresolved?, linkTarget, hl]

/-- The link of a call in libraries that keep names apart. -/
theorem linkOf_eq_some_iff {first second : Library} (hfirst : first.names.Nodup)
    (hsecond : second.names.Nodup) (t : CallTarget) (ref : ProgramRef) :
    linkOf [first, second] t = some ref ↔ ∃ l, [first, second][t.device.toNat]? = some l ∧
      ref.device = t.device ∧ l.find? t.program = some ref.index := by
  have hnodup : ∀ l, [first, second][t.device.toNat]? = some l → l.names.Nodup := by
    intro l hl
    rcases List.mem_pair.mp (List.mem_of_getElem? hl) with rfl | rfl
    · exact hfirst
    · exact hsecond
  rw [linkOf_eq, Option.bind_eq_some_iff]
  refine exists_congr fun l => and_congr_right fun hl => ?_
  rw [(lastNamed_eq_find?_iff l t.program).mpr (List.nodup_iff_count_le_one.mp (hnodup l hl) _),
    Option.map_eq_some_iff]
  obtain ⟨device, index⟩ := ref
  constructor
  · rintro ⟨i, hi, he⟩
    cases he
    exact ⟨rfl, hi⟩
  · rintro ⟨rfl, hi⟩
    exact ⟨index, hi, rfl⟩

/-- In libraries made of the operations that keep names apart, linking is looking up by name; it
changes nothing but links, and doing it again changes nothing. -/
theorem linkCalls_grown (first second : List LibraryOperation) :
    let libraries := [Library.grown first, Library.grown second]
    let linked := (linkCalls libraries).1
    (∀ l ∈ libraries, l.names.Nodup ∧ ∀ o : LibraryOperation,
      ((∃ e, o.apply l = .error e) ↔ o.Refused l) ∧ (o.Refused l → l.perform o = l)) ∧
    (∀ a t, callAt? linked a = some t → ∀ ref, t.link = some ref ↔
      ∃ l, linked[t.device.toNat]? = some l ∧ ref.device = t.device ∧
        l.find? t.program = some ref.index) ∧
    Enumerates (fun a => (callAt? linked a).bind CallTarget.unresolved?) (linkCalls libraries).2 ∧
    List.Forall₂ Library.SameButLinks libraries linked ∧
    linkCalls linked = linkCalls libraries := by
  intro libraries linked
  have hfirst := Library.nodup_grown first
  have hsecond := Library.nodup_grown second
  refine ⟨fun l hl => ?_, fun a t ht ref => ?_, ?_, ?_, linkCalls_linkCalls libraries⟩
  · have hn : l.names.Nodup := by
      rcases List.mem_pair.mp hl with rfl | rfl
      · exact hfirst
      · exact hsecond
    refine ⟨hn, fun o => ?_⟩
    rcases o.apply_cases hn with ⟨ho, e, he⟩ | ⟨ho, l', hl', -⟩
    · exact ⟨⟨fun _ => ho, fun _ => ⟨e, he⟩⟩, fun _ => by rw [Library.perform, he]⟩
    · refine ⟨⟨fun ⟨e, he⟩ => ?_, fun h => absurd h ho⟩, fun h => absurd h ho⟩
      cases hl'.symm.trans he
  · obtain ⟨t, -, rfl⟩ := Option.map_eq_some_iff.mp ((callAt?_linkCalls libraries a).symm.trans ht)
    have hlinked : linked[t.device.toNat]? =
        (libraries[t.device.toNat]?).map (·.mapCalls (linkTarget libraries)) := List.getElem?_map
    have hlink := linkOf_eq_some_iff hfirst hsecond t ref
    simp only [linkTarget, hlinked, Option.map_eq_some_iff]
    simpa using hlink
  · rw [errors_linkCalls]
    exact (enumerates_calls linked).filterMap CallTarget.unresolved?
  · refine List.forall₂_map_right_iff.mpr (List.forall₂_same.mpr fun l _ => ?_)
    exact Library.sameButLinks_mapCalls (f := linkTarget libraries) (fun _ => rfl) l

end TeachPendant
