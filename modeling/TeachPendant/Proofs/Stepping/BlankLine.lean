import TeachPendant.Proofs.Stepping.Full

namespace TeachPendant

/-- Where line `n` stands after a blank line was put in, if one was. -/
def shifted (blank : Option Nat) (n : Nat) : Nat :=
  match blank with
  | some j => if j ≤ n then n + 1 else n
  | none => n

/-- Where a run stands that goes on with line `n`: on the blank line, if that was put before it. -/
def entered (blank : Option Nat) (n : Nat) : Nat :=
  match blank with
  | some j => if j < n then n + 1 else n
  | none => n

theorem shifted_lt (blank : Option Nat) {n m : Nat} (h : n < m) :
    shifted blank n < shifted blank m := by
  cases blank with
  | none => exact h
  | some j =>
    simp only [shifted]
    split_ifs <;> omega

theorem shifted_le (blank : Option Nat) {n m : Nat} (h : n ≤ m) :
    shifted blank n ≤ shifted blank m := by
  rcases Nat.lt_or_eq_of_le h with hlt | rfl
  · exact Nat.le_of_lt (shifted_lt blank hlt)
  · exact Nat.le_refl _

theorem entered_succ (blank : Option Nat) (n : Nat) :
    entered blank (n + 1) = shifted blank n + 1 := by
  cases blank with
  | none => rfl
  | some j =>
    simp only [shifted, entered]
    split_ifs <;> omega

theorem entered_of_ne {blank : Option Nat} {n : Nat} (h : blank ≠ some n) :
    entered blank n = shifted blank n := by
  cases blank with
  | none => rfl
  | some j =>
    have hne : j ≠ n := fun he => h (by rw [he])
    simp only [shifted, entered]
    split_ifs <;> omega

theorem entered_self (n : Nat) : entered (some n) n = n := if_neg (Nat.lt_irrefl n)

theorem shifted_self (n : Nat) : shifted (some n) n = n + 1 := if_pos (Nat.le_refl n)

theorem entered_zero (blank : Option Nat) : entered blank 0 = 0 := by
  cases blank <;> rfl

/-- Every line is the blank one, or one that was there before. -/
theorem exists_shifted (blank : Option Nat) (m : Nat) : blank = some m ∨ ∃ n, m = shifted blank n := by
  cases blank with
  | none => exact Or.inr ⟨m, rfl⟩
  | some j =>
    rcases Nat.lt_trichotomy m j with hlt | rfl | hgt
    · exact Or.inr ⟨m, (if_neg (Nat.not_le.mpr hlt)).symm⟩
    · exact Or.inl rfl
    · refine Or.inr ⟨m - 1, ?_⟩
      rw [shifted, if_pos (by omega)]
      omega

theorem Instruction.execute_blank (commented : Bool) (c : Context) (table : PositionTable) :
    (Instruction.mk .blank commented).execute c table = .ok (c.goOn .next) := by
  cases commented <;> rfl

namespace Program

/-- The second program is the first one with a blank line before line `j`, or the same if `blank` is
none. -/
structure Padded (blank : Option Nat) (p q : Program) : Prop where
  name : q.name = p.name
  positions : q.positions = p.positions
  length : q.length = shifted blank p.length
  line : ∀ n, q.instruction? (shifted blank n) = p.instruction? n
  label : ∀ number, q.findLabel number = (p.findLabel number).map (shifted blank)
  blank : ∀ j, blank = some j →
    j ≤ p.length ∧ 0 < p.length ∧ ∃ commented, q.instruction? j = some (.mk .blank commented)

theorem padded_refl (p : Program) : Padded none p p :=
  ⟨rfl, rfl, rfl, fun _ => rfl, fun number => by cases p.findLabel number <;> rfl, nofun⟩

/-- What is looked for is found in the same line, wherever that stands now. -/
theorem findIdx?_insertIdx {l : List Line} {line : Line} {f : Line → Bool} (hline : f line = false)
    {j : Nat} (hj : j ≤ l.length) :
    (l.insertIdx j line).findIdx? f = (l.findIdx? f).map (shifted (some j)) := by
  induction l generalizing j with
  | nil =>
    obtain rfl : j = 0 := Nat.le_zero.mp hj
    simp [hline]
  | cons first rest ih =>
    cases j with
    | zero =>
      have hshift : shifted (some 0) = (· + 1) := funext fun n => by simp [shifted]
      rw [List.insertIdx_zero, List.findIdx?_cons, hline, hshift]
      rfl
    | succ j =>
      have hshift (n : Nat) : shifted (some j) n + 1 = shifted (some (j + 1)) (n + 1) := by
        simp only [shifted]
        split_ifs <;> omega
      rw [List.insertIdx_succ_cons, List.findIdx?_cons, List.findIdx?_cons]
      split_ifs
      · rfl
      · rw [ih (Nat.le_of_succ_le_succ hj), Option.map_map, Option.map_map]
        simp only [Function.comp_def, hshift]

theorem padded_insert {p : Program} {j : Nat} (hp : 0 < p.length) (hj : j ≤ p.length)
    (commented : Bool) : ∃ q id, p.insert j (.mk .blank commented) = .ok (q, id) ∧
      Padded (some j) p q := by
  have hinsert : ¬ p.length < j := Nat.not_lt.mpr hj
  have hlines : j ≤ p.lines.length := hj
  refine ⟨_, _, if_neg hinsert, rfl, rfl, ?_, fun n => ?_, fun number => ?_, ?_⟩
  · simp [Program.length, List.length_insertIdx, shifted, hlines]
  · simp only [instruction?, shifted, List.getElem?_insertIdx]
    split_ifs <;> first | omega | rfl
  · refine findIdx?_insertIdx ?_ hlines
    cases commented <;> rfl
  · rintro _ ⟨⟩
    exact ⟨hj, hp, commented, by simp [instruction?, List.getElem?_insertIdx_self, hlines]⟩

theorem isEmpty_iff_length (p : Program) : p.isEmpty = true ↔ p.length = 0 := by
  rw [isEmpty, List.isEmpty_iff, Program.length, List.length_eq_zero_iff]

theorem Padded.length_of_some {j : Nat} {p q : Program} (h : Padded (some j) p q) :
    j ≤ p.length ∧ q.length = p.length + 1 := by
  obtain ⟨hj, -, -⟩ := h.blank j rfl
  exact ⟨hj, by rw [h.length, shifted, if_pos hj]⟩

theorem Padded.length_eq_zero_iff {blank : Option Nat} {p q : Program} (h : Padded blank p q) :
    q.length = 0 ↔ p.length = 0 := by
  cases blank with
  | none =>
    rw [h.length]
    rfl
  | some j =>
    obtain ⟨-, hpos, -⟩ := h.blank j rfl
    have hlength := h.length_of_some.2
    omega

theorem Padded.isEmpty_eq {blank : Option Nat} {p q : Program} (h : Padded blank p q) :
    q.isEmpty = p.isEmpty := by
  rw [Bool.eq_iff_iff, isEmpty_iff_length, isEmpty_iff_length, h.length_eq_zero_iff]

end Program

namespace Library

/-- Puts a line before line `i` of the program at `k`, or at its end. -/
def insertLine (l : Library) (k i : Nat) (instruction : Instruction) : Except Error (Library × Nat) :=
  match l.get? k with
  | none => .error (l.noProgram k)
  | some p => (p.insert i instruction).map fun (q, id) => (l.replace k q, id)

/-- Every program of the second library is that of the first one, or that with a blank line. -/
def Padded (blank : Nat → Option Nat) (l m : Library) : Prop :=
  ∀ k, Option.Rel (Program.Padded (blank k)) (l.get? k) (m.get? k)

theorem padded_refl (l : Library) : Padded (fun _ => none) l l := fun k => by
  cases l.get? k with
  | none => exact .none
  | some p => exact .some p.padded_refl

theorem padded_replace {l : Library} {k : Nat} {p q : Program} {blank : Option Nat}
    (hp : l.get? k = some p) (h : Program.Padded blank p q) :
    Padded (fun i => if i = k then blank else none) l (l.replace k q) := by
  have hk : k < l.programs.length := (List.getElem?_eq_some_iff.mp hp).choose
  intro i
  by_cases hi : i = k
  · subst hi
    have hget : (l.replace i q).get? i = some q := by simp [replace, get?, hk]
    simp only [hget, hp]
    simpa using Option.Rel.some h
  · have hget : (l.replace k q).get? i = l.get? i := by
      simp [replace, get?, List.getElem?_set_ne (Ne.symm hi)]
    simpa only [hget, if_neg hi] using padded_refl l i

theorem padded_insertLine {l : Library} {k j : Nat} {p : Program} (hp : l.get? k = some p)
    (hpos : 0 < p.length) (hj : j ≤ p.length) (commented : Bool) :
    ∃ m id, l.insertLine k j (.mk .blank commented) = .ok (m, id) ∧
      Padded (fun i => if i = k then some j else none) l m := by
  obtain ⟨q, id, hinsert, hq⟩ := Program.padded_insert hpos hj commented
  exact ⟨l.replace k q, id, by simp only [insertLine, hp, hinsert, Except.map], padded_replace hp hq⟩

namespace Padded

variable {blank : Nat → Option Nat} {l m : Library}

theorem get?_some (h : Padded blank l m) {k : Nat} {p : Program} (hp : l.get? k = some p) :
    ∃ q, m.get? k = some q ∧ Program.Padded (blank k) p q := by
  have hk := h k
  rw [hp] at hk
  cases hq : m.get? k with
  | none =>
    rw [hq] at hk
    cases hk
  | some q =>
    rw [hq] at hk
    cases hk with
    | some hpq => exact ⟨q, rfl, hpq⟩

theorem get?_none (h : Padded blank l m) {k : Nat} (hp : l.get? k = none) : m.get? k = none := by
  have hk := h k
  rw [hp] at hk
  cases hq : m.get? k with
  | none => rfl
  | some q =>
    rw [hq] at hk
    cases hk

theorem names (h : Padded blank l m) :
    m.programs.map (·.name) = l.programs.map (·.name) := by
  refine List.ext_getElem? fun k => ?_
  rw [List.getElem?_map, List.getElem?_map]
  cases hp : l.get? k with
  | none => rw [show m.programs[k]? = none from h.get?_none hp, show l.programs[k]? = none from hp]
  | some p =>
    obtain ⟨q, hq, hpq⟩ := h.get?_some hp
    rw [show m.programs[k]? = some q from hq, show l.programs[k]? = some p from hp]
    exact congrArg some hpq.name

theorem length_eq (h : Padded blank l m) : m.length = l.length := by
  simpa [length] using congrArg List.length h.names

theorem find?_eq (h : Padded blank l m) (name : String) : m.find? name = l.find? name := by
  have hfind (r : Library) : r.find? name = (r.programs.map (·.name)).findIdx? (· == name) := by
    rw [List.findIdx?_map]
    rfl
  rw [hfind, hfind, h.names]

theorem resolve_eq (h : Padded blank l m) (target : CallTarget) :
    m.resolve target = l.resolve target := by
  unfold resolve
  cases target.link with
  | none => rfl
  | some ref =>
    dsimp only
    cases hp : l.get? ref.index with
    | none => rw [h.get?_none hp]
    | some p =>
      obtain ⟨q, hq, hpq⟩ := h.get?_some hp
      simp only [hq, hpq.name]

end Padded

end Library

namespace Execution

variable {blank : Option Nat} {p q : Program} {x y : Execution}

/-- Both runs are on the same line, wherever it stands now, and in the same way. -/
structure Mirrors (blank : Option Nat) (x y : Execution) : Prop where
  program : y.program = x.program
  mode : y.mode = x.mode
  status : y.status = x.status
  current : x.status.standing = true → y.current = shifted blank x.current

/-- The second run has come to the blank line, behind which it is where the first one is. -/
structure Lags (blank : Option Nat) (q : Program) (x y : Execution) : Prop where
  line : blank = some y.current
  running : y.status = .running
  unbroken : ∀ cause, x.status ≠ .fault cause
  beyond : x.Mirrors blank (y.moveOn q)

/-- Both runs are on the same line, or the second one is on the blank line before it. -/
def Follows (blank : Option Nat) (q : Program) (x y : Execution) : Prop :=
  x.Mirrors blank y ∨ x.Lags blank q y

theorem Lags.program (h : x.Lags blank q y) : y.program = x.program := by
  rw [← h.beyond.program, moveOn_program]

theorem Follows.program (h : x.Follows blank q y) : y.program = x.program := by
  rcases h with h | h
  · exact Mirrors.program h
  · exact Lags.program h

theorem Mirrors.withStatus (h : x.Mirrors blank y) (hs : x.status.standing = true) (s : Status) :
    ({ x with status := s } : Execution).Mirrors blank { y with status := s } :=
  ⟨h.program, h.mode, rfl, fun _ => h.current hs⟩

/-- Runs that do not go on have no line to be on. -/
theorem mirrors_of_ended (hprogram : y.program = x.program) (hmode : y.mode = x.mode)
    (hstatus : y.status = x.status) (hended : x.status.standing = false) : x.Mirrors blank y :=
  ⟨hprogram, hmode, hstatus, fun hs => absurd (hended.symm.trans hs) Bool.false_ne_true⟩

theorem Mirrors.fail (h : x.Mirrors blank y) (cause : Error) :
    (x.fail cause).Mirrors blank (y.fail cause) :=
  mirrors_of_ended h.program h.mode rfl rfl

/-- Going to a line, wherever it stands now, or past the end. -/
theorem mirrors_moveOn (hq : p.Padded blank q) (hprogram : y.program = x.program)
    (hxm : x.mode = .full) (hym : y.mode = .full) (hxs : x.status = .running)
    (hys : y.status = .running) {n : Nat} (hn : n ≤ p.length) (hx : x.next = n)
    (hy : y.next = shifted blank n) : (x.moveOn p).Mirrors blank (y.moveOn q) := by
  have hlength := hq.length
  rcases Nat.lt_or_eq_of_le hn with hlt | rfl
  · have hlt' : shifted blank n < q.length := hlength ▸ shifted_lt blank hlt
    rw [moveOn_of_lt hx hlt, moveOn_of_lt hy hlt']
    exact ⟨hprogram, hym.trans hxm.symm, by simp [hxm, hym, hxs, hys], fun _ => rfl⟩
  · have hend : y.next = (q.length : Int) := by rw [hy, hlength]
    rw [moveOn_of_end (Or.inl hx), moveOn_of_end (Or.inl hend)]
    exact mirrors_of_ended hprogram (hym.trans hxm.symm) rfl rfl

/-- Going on with a line, or with the end. The blank line may be the one before it. -/
theorem follows_moveOn (hq : p.Padded blank q) (hprogram : y.program = x.program)
    (hxm : x.mode = .full) (hym : y.mode = .full) (hxs : x.status = .running)
    (hys : y.status = .running) {n : Nat} (hn : n ≤ p.length) (hx : x.next = n)
    (hy : y.next = entered blank n) : (x.moveOn p).Follows blank q (y.moveOn q) := by
  by_cases hb : blank = some n
  · subst hb
    rw [entered_self] at hy
    have hlt : n < q.length := hq.length_of_some.2 ▸ Nat.lt_succ_of_le hn
    have hline := moveOn_of_lt hy hlt
    have hbeyond := mirrors_moveOn (y := y.moveOn q) hq ((moveOn_program y q).trans hprogram) hxm
      ((moveOn_mode y q).trans hym) hxs (by simp [hline, hym, hys]) hn hx
      (by simp [hline, hym, following, shifted_self])
    refine Or.inr ⟨by rw [hline], by simp [hline, hym, hys], fun cause hc => ?_, hbeyond⟩
    rcases Nat.lt_or_eq_of_le hn with hlt' | rfl
    · rw [moveOn_of_lt hx hlt'] at hc
      simp [hxm, hxs] at hc
    · rw [moveOn_of_end (Or.inl hx)] at hc
      cases hc
  · rw [entered_of_ne hb] at hy
    exact Or.inl (mirrors_moveOn hq hprogram hxm hym hxs hys hn hx hy)

/-- Both runs go on with the next line. -/
theorem Mirrors.goOn (h : x.Mirrors blank y) (hq : p.Padded blank q) (hm : x.mode = .full)
    (hs : x.status = .running) (hx : x.OnLine p) (hy : y.OnLine q) :
    (x.moveOn p).Follows blank q (y.moveOn q) := by
  have hcurrent := h.current (by rw [hs]; rfl)
  have hxn := hx.next_eq
  have hyn := hy.next_eq
  rw [hm] at hxn
  rw [h.mode, hm, hcurrent] at hyn
  refine follows_moveOn hq h.program hm (h.mode.trans hm) hs (h.status.trans hs) (n := x.current + 1)
    hx.current_lt (by rw [hxn]; rfl) ?_
  rw [hyn, entered_succ]
  rfl

/-- Starting on a line, wherever it stands now. -/
theorem mirrors_start (hq : p.Padded blank q) (ref : ProgramRef) {n : Nat} (hn : n < p.length) :
    (start ref p .full n).Mirrors blank (start ref q .full (shifted blank n)) := by
  have hlt : shifted blank n < q.length := hq.length ▸ shifted_lt blank hn
  rw [start_of_lt ref .full hn, start_of_lt ref .full hlt]
  exact ⟨rfl, rfl, rfl, fun _ => rfl⟩

theorem mirrors_finished (blank : Option Nat) (ref : ProgramRef) (p q : Program) :
    (finished ref p .full).Mirrors blank (finished ref q .full) :=
  mirrors_of_ended rfl rfl rfl rfl

/-- Coming to the line, or the end, before which the blank line was put. -/
theorem lags_start {n : Nat} (hq : p.Padded (some n) q) (ref : ProgramRef) :
    (if p.length ≤ n then finished ref p .full else start ref p .full n).Lags (some n) q
      (start ref q .full n) := by
  obtain ⟨hn, hlength⟩ := hq.length_of_some
  rw [start_of_lt ref .full (show n < q.length by omega)]
  split_ifs with hend
  · refine ⟨rfl, rfl, fun cause => Status.noConfusion, ?_⟩
    rw [moveOn_of_end (Or.inl (by simp only [following]; omega))]
    exact mirrors_of_ended rfl rfl rfl rfl
  · rw [start_of_lt ref .full (Nat.lt_of_not_le hend)]
    refine ⟨rfl, rfl, fun cause => Status.noConfusion, ?_⟩
    rw [moveOn_of_lt (i := n + 1) rfl (by omega)]
    exact ⟨rfl, rfl, rfl, fun _ => (shifted_self n).symm⟩

/-- Coming to a line, or to the end, out of a call. -/
theorem follows_start (hq : p.Padded blank q) (ref : ProgramRef) (n : Nat) :
    (if p.length ≤ n then finished ref p .full else start ref p .full n).Follows blank q
      (if q.length ≤ entered blank n then finished ref q .full
        else start ref q .full (entered blank n)) := by
  by_cases hb : blank = some n
  · subst hb
    obtain ⟨hn, hlength⟩ := hq.length_of_some
    rw [entered_self, if_neg (show ¬ q.length ≤ n by omega)]
    exact Or.inr (lags_start hq ref)
  · rw [entered_of_ne hb, hq.length]
    by_cases hend : p.length ≤ n
    · rw [if_pos hend, if_pos (shifted_le blank hend)]
      exact Or.inl (mirrors_finished blank ref p q)
    · have hlt := Nat.lt_of_not_le hend
      rw [if_neg hend, if_neg (Nat.not_le.mpr (shifted_lt blank hlt))]
      exact Or.inl (mirrors_start hq ref hlt)

/-- Beginning with the first line, unless an empty program was called. -/
theorem follows_begin (hq : p.Padded blank q) (ref : ProgramRef) (called : Bool) :
    (if p.isEmpty && called then finished ref p .full else start ref p .full 0).Follows blank q
      (if q.isEmpty && called then finished ref q .full else start ref q .full 0) := by
  rw [hq.isEmpty_eq]
  have hlength := hq.length_eq_zero_iff
  have hstart := follows_start hq ref 0
  cases he : p.isEmpty with
  | true =>
    have hzero := (Program.isEmpty_iff_length p).mp he
    cases called with
    | true => exact Or.inl (mirrors_finished blank ref p q)
    | false =>
      refine Or.inl ?_
      simp only [Bool.and_false, Bool.false_eq_true, if_false, start, hlength.mpr hzero, hzero]
      exact mirrors_of_ended rfl rfl rfl rfl
  | false =>
    have hpos : p.length ≠ 0 := fun hn => by
      rw [(Program.isEmpty_iff_length p).mpr hn] at he
      cases he
    simpa [hlength, hpos, entered_zero] using hstart

@[simp] theorem start_program (ref : ProgramRef) (p : Program) (mode : RunMode) (i : Nat) :
    (start ref p mode i).program = ref := by
  unfold start
  split_ifs <;> rfl

end Execution

/-- Two lines do the same; only a line that makes no call may leave the second run on the blank
line. -/
structure StepResult.Alike {σ : Type} (blank : Option Nat) (q : Program) (s t : StepResult σ) :
    Prop where
  registers : t.registers = s.registers
  frames : t.frames = s.frames
  arm : t.arm = s.arm
  call : t.call = s.call
  moves : t.trace.moves = s.trace.moves
  execution : s.execution.Mirrors blank t.execution ∨
    s.execution.Lags blank q t.execution ∧ s.call = none

namespace Execution

variable {σ : Type} [MotionService σ] {blank : Option Nat} {p q : Program} {x y : Execution}

theorem Mirrors.follow (h : x.Mirrors blank y) (hq : p.Padded blank q) (hm : x.mode = .full)
    (hs : x.status = .running) (hx : x.OnLine p) (hy : y.OnLine q) (effect : Effect) (arm : σ) :
    (x.follow p effect arm).Alike blank q (y.follow q effect arm) := by
  have hstanding : x.status.standing = true := by rw [hs]; rfl
  have hgoOn := h.goOn hq hm hs hx hy
  unfold Execution.follow
  cases effect.flow with
  | next => exact ⟨rfl, rfl, rfl, rfl, rfl, hgoOn.imp_right (⟨·, rfl⟩)⟩
  | jump label =>
    have hlabel := hq.label label
    cases hl : p.findLabel label with
    | none =>
      rw [hl] at hlabel
      simp only [hl, hlabel, Option.map_none]
      exact ⟨rfl, rfl, rfl, rfl, rfl, Or.inl (h.fail _)⟩
    | some i =>
      rw [hl] at hlabel
      simp only [hl, hlabel, Option.map_some]
      exact ⟨rfl, rfl, rfl, rfl, rfl, Or.inl (mirrors_moveOn hq h.program hm (h.mode.trans hm) hs
        (h.status.trans hs) (Nat.le_of_lt (findLabel_lt hl)) rfl rfl)⟩
  | move m =>
    refine ⟨rfl, rfl, rfl, rfl, ?_, Or.inl (h.withStatus hstanding _)⟩
    rfl
  | call target =>
    cases hk : target.link with
    | none =>
      simp only [hk]
      exact ⟨rfl, rfl, rfl, rfl, rfl, Or.inl (h.fail _)⟩
    | some ref =>
      simp only [hk]
      exact ⟨rfl, rfl, rfl, rfl, rfl, Or.inl (h.withStatus hstanding _)⟩

/-- A line does the same wherever it stands now. -/
theorem Mirrors.step (h : x.Mirrors blank y) (hq : p.Padded blank q) (hm : x.mode = .full)
    (hs : x.status = .running) (hx : x.OnLine p) (hy : y.OnLine q) (c : Context) (arm : σ) :
    (x.step p c arm).Alike blank q (y.step q c arm) := by
  have hys : y.status = .running := h.status.trans hs
  obtain ⟨i, hi⟩ := hx.exists_instruction
  have hiy : q.instruction? y.current = some i := by
    rw [h.current (by rw [hs]; rfl), hq.line, hi]
  have hgoOn := h.goOn hq hm hs hx hy
  unfold Execution.step
  simp only [hs, hys, hi, hiy, hm, h.mode, hq.positions]
  cases he : i.execute c p.positions with
  | ok effect => simpa [he] using h.follow hq hm hs hx hy effect arm
  | error e =>
    by_cases hf : e.isFatal
    · simp only [hf]
      exact ⟨rfl, rfl, rfl, rfl, rfl, Or.inl (h.fail e)⟩
    · simp only [hf]
      exact ⟨rfl, rfl, rfl, rfl, rfl, hgoOn.imp_right (⟨·, rfl⟩)⟩

/-- The blank line does nothing. -/
theorem Lags.step (h : x.Lags blank q y) (hq : p.Padded blank q) (hm : y.mode = .full)
    (c : Context) (arm : σ) : y.step q c arm = (y.moveOn q).leaving c arm := by
  obtain ⟨-, -, commented, hline⟩ := hq.blank y.current h.line
  unfold Execution.step
  simp only [h.running, hline, hm, Instruction.execute_blank]
  rfl

theorem Mirrors.advance (h : x.Mirrors blank y) (hq : p.Padded blank q) (hm : x.mode = .full)
    {handle : Nat} (hs : x.status = .awaitingMotion handle) (hx : x.OnLine p) (hy : y.OnLine q)
    (arm : σ) : (x.advance p arm).1.Follows blank q (y.advance q arm).1 ∧
      (y.advance q arm).2 = (x.advance p arm).2 := by
  have hys : y.status = .awaitingMotion handle := h.status.trans hs
  have hgoOn := (h.withStatus (by rw [hs]; rfl) .running).goOn hq hm rfl (hx.withStatus _)
    (hy.withStatus _)
  unfold Execution.advance
  simp only [hs, hys, h.program]
  cases (MotionService.poll arm handle).2 with
  | true => exact ⟨by simpa [h.program] using hgoOn, rfl⟩
  | false => exact ⟨Or.inl h, rfl⟩

end Execution

end TeachPendant
