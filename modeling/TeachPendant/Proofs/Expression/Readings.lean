import TeachPendant.Proofs.Expression.Terms

namespace TeachPendant

open Number

/-- A place from which an operand takes its value. -/
inductive Reading
  | data (index : UInt64)
  | io (index : UInt64)
  | position (index : UInt64)
  | component (index axis : UInt64)
  | pose
  deriving DecidableEq

/-- The place reads alike in both contexts: the same value comes out of it, or the same error. -/
def Reading.Alike (c c' : Context) : Reading → Prop
  | .data i => c.registers.getData i = c'.registers.getData i
  | .io i => c.registers.getIo i = c'.registers.getIo i
  | .position i => c.registers.getPosition i = c'.registers.getPosition i
  | .component i axis => c.registers.getComponent i axis = c'.registers.getComponent i axis
  | .pose => c.pose = c'.pose

mutual

/-- Everything that is named in an operand, at any depth. -/
def Operand.readings : Operand → List Reading
  | .blank | .number _ | .flag _ | .point _ => []
  | .data i => [.data i]
  | .io i => [.io i]
  | .position i => [.position i]
  | .component i axis => [.component i axis]
  | .pose _ => [.pose]
  | .nested e => e.readings

def Expression.readings : Expression → List Reading
  | .tree left _ right => left.readings ++ right.readings
  | .sequence tokens => tokenReadings tokens

def tokenReadings : List Token → List Reading
  | [] => []
  | .operand o :: rest => o.readings ++ tokenReadings rest
  | .operator _ :: rest => tokenReadings rest

end

theorem mem_tokenReadings {r : Reading} {terms : List Term} :
    r ∈ tokenReadings (Term.tokens terms) ↔ ∃ t ∈ terms, r ∈ t.2.readings := by
  induction terms with
  | nil => simp [Term.tokens, tokenReadings]
  | cons t terms ih => simp [Term.tokens, tokenReadings, ih]

theorem Term.foldlM_congr {c c' : Context} {terms : List Term}
    (h : ∀ t ∈ terms, t.2.resolve c = t.2.resolve c') (x : Value) :
    terms.foldlM (Term.apply c) x = terms.foldlM (Term.apply c') x := by
  induction terms generalizing x with
  | nil => rfl
  | cons t terms ih =>
    have hstep : Term.apply c x t = Term.apply c' x t := by
      rw [Term.apply, Term.apply, h t List.mem_cons_self]
    rw [List.foldlM_cons, List.foldlM_cons, hstep]
    exact congrArg (Term.apply c' x t >>= ·)
      (funext fun y => ih (fun u hu => h u (List.mem_cons_of_mem t hu)) y)

theorem Operand.resolve_congr {c c' : Context} (o : Operand)
    (h : ∀ r ∈ o.readings, r.Alike c c') : o.resolve c = o.resolve c' := by
  induction o using Operand.induction with
  | leaf o hleaf =>
    cases o with
    | nested e => exact absurd rfl (hleaf e)
    | blank | number | flag | point => rfl
    | data i | io i | position i | component i axis | pose cartesian =>
      have hread := h _ (List.mem_singleton_self _)
      simp only [Reading.Alike] at hread
      simp only [resolve, hread]
  | tree left op right hl hr =>
    have hleft := hl fun r hm => h r (List.mem_append_left _ hm)
    have hright := hr fun r hm => h r (List.mem_append_right _ hm)
    simp only [resolve, Expression.evaluate, hleft, hright]
  | malformed s e hs =>
    rw [resolve, resolve, Sequence.evaluate_of_malformed hs, Sequence.evaluate_of_malformed hs]
  | terms first terms hfirst hterms =>
    have hhead := hfirst fun r hm => h r (List.mem_append_left _ hm)
    have hfold : ∀ x, terms.foldlM (Term.apply c) x = terms.foldlM (Term.apply c') x := by
      refine Term.foldlM_congr fun t ht => hterms t ht fun r hm => ?_
      exact h r (List.mem_append_right _ (mem_tokenReadings.mpr ⟨t, ht, hm⟩))
    rw [resolve, resolve, Sequence.evaluate_ofTerms, Sequence.evaluate_ofTerms, hhead]
    exact congrArg (first.resolve c' >>= ·) (funext hfold)

theorem Expression.evaluate_congr {c c' : Context} (e : Expression)
    (h : ∀ r ∈ e.readings, r.Alike c c') : e.evaluate c = e.evaluate c' :=
  Operand.resolve_congr (.nested e) h

/-- The direct readings evaluate nothing: they look at the place that the operand itself is. -/
theorem Operand.direct_congr {c c' : Context} (o : Operand) (h : ∀ r ∈ o.readings, r.Alike c c') :
    o.asNumber? c = o.asNumber? c' ∧ o.asFlag? c = o.asFlag? c' ∧ o.asPoint? c = o.asPoint? c' := by
  cases o with
  | blank | number | flag | point | nested => exact ⟨rfl, rfl, rfl⟩
  | data i | io i | position i | component i axis | pose cartesian =>
    have hread := h _ (List.mem_singleton_self _)
    simp only [Reading.Alike] at hread
    simp only [asNumber?, asFlag?, asPoint?, hread, and_self]

/-- A value comes out of the place. -/
def Reading.isPresent (c : Context) : Reading → Bool
  | .data i => (c.registers.getData i).isOk
  | .io i => (c.registers.getIo i).isOk
  | .position i => (c.registers.getPosition i).isOk
  | .component i axis => (c.registers.getComponent i axis).isOk
  | .pose => true

theorem isOk_map {α β : Type} (r : Except Error α) (f : α → β) : (r.map f).isOk = r.isOk := by
  cases r <;> rfl

theorem exists_of_isOk_bind {α β : Type} {r : Except Error α} {f : α → Except Error β}
    (h : (r >>= f).isOk) : ∃ a, r = .ok a ∧ (f a).isOk := by
  cases r with
  | error e => cases h
  | ok a => exact ⟨a, rfl, h⟩

theorem Term.isOk_of_foldlM {c : Context} {terms : List Term} {x : Value}
    (h : (terms.foldlM (Term.apply c) x).isOk) : ∀ t ∈ terms, (t.2.resolve c).isOk := by
  induction terms generalizing x with
  | nil => nofun
  | cons t terms ih =>
    rw [List.foldlM_cons] at h
    obtain ⟨y, hstep, hrest⟩ := exists_of_isOk_bind h
    have hterm : (t.2.resolve c >>= t.1.apply x).isOk := by
      rw [← Term.apply, hstep]
      rfl
    obtain ⟨z, hz, -⟩ := exists_of_isOk_bind hterm
    intro u hu
    rcases List.mem_cons.mp hu with rfl | hu
    · rw [hz]
      rfl
    · exact ih hrest u hu

theorem Operand.isPresent_of_resolve {c : Context} (o : Operand) (h : (o.resolve c).isOk) :
    ∀ r ∈ o.readings, r.isPresent c := by
  induction o using Operand.induction with
  | leaf o hleaf =>
    intro r hr
    cases o with
    | nested e => exact absurd rfl (hleaf e)
    | blank | number | flag | point => cases hr
    | data i | io i | position i | component i axis =>
      obtain rfl := List.mem_singleton.mp hr
      rw [resolve, isOk_map] at h
      exact h
    | pose cartesian =>
      obtain rfl := List.mem_singleton.mp hr
      rfl
  | tree left op right hl hr =>
    -- The right side is read too where the left one decides, as there is no short circuit.
    rw [resolve, Expression.evaluate] at h
    obtain ⟨x, hleft, h⟩ := exists_of_isOk_bind h
    obtain ⟨y, hright, -⟩ := exists_of_isOk_bind h
    intro r hm
    rcases List.mem_append.mp hm with hm | hm
    · exact hl (hleft ▸ rfl) r hm
    · exact hr (hright ▸ rfl) r hm
  | malformed s e hs =>
    rw [resolve, Sequence.evaluate_of_malformed hs] at h
    cases h
  | terms first terms hfirst hterms =>
    rw [resolve, Sequence.evaluate_ofTerms] at h
    obtain ⟨x, hhead, h⟩ := exists_of_isOk_bind h
    intro r hm
    rcases List.mem_append.mp hm with hm | hm
    · exact hfirst (hhead ▸ rfl) r hm
    · obtain ⟨t, ht, hm⟩ := mem_tokenReadings.mp hm
      exact hterms t ht (Term.isOk_of_foldlM h t ht) r hm

/-- What an operand or an expression comes to hangs on what it names, at any depth, and on nothing
else: contexts in which all of that reads alike give the same value or the same error, and a value
comes out only where all of it is there. -/
theorem determined_by_readings (o : Operand) (e : Expression) (c : Context) :
    (∀ c', (∀ r ∈ o.readings, r.Alike c c') → o.resolve c = o.resolve c' ∧
      o.asNumber? c = o.asNumber? c' ∧ o.asFlag? c = o.asFlag? c' ∧ o.asPoint? c = o.asPoint? c') ∧
    (∀ c', (∀ r ∈ e.readings, r.Alike c c') → e.evaluate c = e.evaluate c') ∧
    ((o.resolve c).isOk → ∀ r ∈ o.readings, r.isPresent c) ∧
    ((e.evaluate c).isOk → ∀ r ∈ e.readings, r.isPresent c) := by
  refine ⟨?_, ?_, o.isPresent_of_resolve, Operand.isPresent_of_resolve (.nested e)⟩
  · intro c' h
    exact ⟨o.resolve_congr h, o.direct_congr h⟩
  · intro c' h
    exact e.evaluate_congr h

/-- `3 * (2 + 1) > 8`, with the `3` and the `2` read from registers. -/
def Expression.counted : Expression :=
  .sequence [.operand (.data 0), .operator .mul,
    .operand (.nested (.tree (.component 0 0) .add (.number (.ofNat 1)))), .operator .gt,
    .operand (.number (.ofNat 8))]

/-- The tool tip, moved by a position register that is not there. -/
def Operand.movedTip : Operand :=
  .nested (.tree (.pose true) .sub (.nested (.sequence
    [.operand (.point .origin), .operator .add, .operand (.position 4)])))

/-- Contexts that share what `Expression.counted` and `Operand.movedTip` name, and little else. -/
def Context.sharing (other : Single) (signal : Bool) (height : Single) (user : UInt64) :
    Context where
  registers :=
    { data := [{ value := .ofNat 3 }, { value := other }]
      io := [{ value := signal }]
      positions := [{ value := { Point.origin with x := .ofNat 2, z := height } }] }
  frames := { user }
  pose := { tip := { Point.origin with z := .ofNat 7 }, joints := .origin }
  device := 0

theorem determined_by_readings_counted :
    let o := Operand.movedTip
    let e := Expression.counted
    let c : Context := .sharing (.ofNat 5) false (.ofNat 1) 0
    let c' : Context := .sharing (.ofNat 6) true (.ofNat 9) 2
    c.registers ≠ c'.registers ∧ c.frames ≠ c'.frames ∧
      o.readings = [.pose, .position 4] ∧ e.readings = [.data 0, .component 0 0] ∧
      (∀ r ∈ o.readings, r.Alike c c') ∧ (∀ r ∈ e.readings, r.Alike c c') ∧
      o.resolve c = o.resolve c' ∧ e.evaluate c = e.evaluate c' ∧
      o.resolve c' = .error (.outside "position register" 4 1) ∧
      e.evaluate c' = .ok (.flag true) ∧ (∀ r ∈ e.readings, r.isPresent c) ∧
      ∀ r ∈ (Operand.nested e).readings, r.isPresent c' := by
  intro o e c c'
  have ho : ∀ r ∈ o.readings, r.Alike c c' :=
    List.forall_mem_cons.mpr ⟨rfl, List.forall_mem_singleton.mpr rfl⟩
  have he : ∀ r ∈ e.readings, r.Alike c c' :=
    List.forall_mem_cons.mpr ⟨rfl, List.forall_mem_singleton.mpr rfl⟩
  obtain ⟨hoperand, hexpression, -, hpresent⟩ := determined_by_readings o e c
  obtain ⟨-, -, hpresent', -⟩ := determined_by_readings (.nested e) e c'
  exact ⟨by decide, by decide, rfl, rfl, ho, he, (hoperand c' ho).1, hexpression c' he, rfl, rfl,
    hpresent (by decide), hpresent' (by decide)⟩

end TeachPendant
