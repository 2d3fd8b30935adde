import TeachPendant.Cell

namespace TeachPendant

namespace Side

def other : Side → Side
  | .first => .second
  | .second => .first

@[simp] theorem other_other (s : Side) : s.other.other = s := by cases s <;> rfl

@[simp] theorem other_ne (s : Side) : s.other ≠ s := by cases s <;> decide

theorem eq_or_eq_other (s t : Side) : t = s ∨ t = s.other := by
  cases s <;> cases t <;> decide

theorem id_other_ne (s : Side) : s.other.id ≠ s.id := by cases s <;> decide

theorem id_injective {s t : Side} (h : s.id = t.id) : s = t := by
  rcases s.eq_or_eq_other t with rfl | rfl
  · rfl
  · exact absurd h.symm s.id_other_ne

@[simp] theorem ofId?_id (s : Side) : ofId? s.id = some s := by cases s <;> rfl

theorem eq_of_ofId? {n : UInt8} {s : Side} (h : ofId? n = some s) : n = s.id := by
  unfold ofId? at h
  split at h <;> cases h <;> rfl

theorem eq_other_of_ofId? {n : UInt8} {s t : Side} (h : ofId? n = some t) (hn : n ≠ s.id) :
    t = s.other := by
  rcases s.eq_or_eq_other t with rfl | rfl
  · exact absurd (eq_of_ofId? h) hn
  · rfl

theorem forall_of {P : Side → Prop} (s : Side) (hs : P s) (ho : P s.other) : ∀ t, P t := by
  intro t
  rcases s.eq_or_eq_other t with rfl | rfl
  · exact hs
  · exact ho

end Side

/-- A program of these lines. -/
def Program.written (name : String) (actions : List Action) : Program :=
  actions.foldl (fun p action => p.push (.ofAction action)) (.named name)

namespace Cell

variable {σ : Type}

@[simp] theorem get_put (c : Cell σ) (s : Side) (d : Device σ) : (c.put s d).get s = d := by
  cases s <;> rfl

@[simp] theorem get_put_other (c : Cell σ) (s : Side) (d : Device σ) :
    (c.put s d).get s.other = c.get s.other := by
  cases s <;> rfl

@[simp] theorem get_other_put (c : Cell σ) (s : Side) (d : Device σ) :
    (c.put s.other d).get s = c.get s := by
  cases s <;> rfl

@[simp] theorem get_registers (c : Cell σ) (r : RegisterBank) (s : Side) :
    ({ c with registers := r } : Cell σ).get s = c.get s := by
  cases s <;> rfl

@[simp] theorem put_get (c : Cell σ) (s : Side) : c.put s (c.get s) = c := by
  cases s <;> rfl

theorem busy_route (c : Cell σ) (s : Side) (e : DeviceEvent) :
    (c.route s e).2.1 = false ↔ e = .idle := by
  cases e <;> simp [route]

/-- What can be done to a cell between ticks, and a tick. -/
inductive Command (σ : Type)
  | start (device : UInt8) (program : String) (mode : RunMode) (line : Nat)
  | resume (device : UInt8)
  | halt (device : UInt8)
  | haltAll
  | relink
  | write (registers : RegisterBank)
  /-- Any edit of the library of a device; refused while the device is busy. -/
  | edit (device : UInt8) (change : Library → Library)
  /-- The arm moves on by itself, as arms with a clock of their own do. -/
  | drift (side : Side) (arm : σ)
  | tick

variable [MotionService σ]

/-- The cell after a command. A command that fails leaves it as it is. -/
def perform (c : Cell σ) : Command σ → Cell σ
  | .start device program mode line =>
    match c.start device program mode line with
    | .ok (c', _) => c'
    | .error _ => c
  | .resume device =>
    match c.resume device with
    | .ok (c', _) => c'
    | .error _ => c
  | .halt device =>
    match c.halt device with
    | .ok (c', _) => c'
    | .error _ => c
  | .haltAll => c.haltAll.1
  | .relink => c.relink.1
  | .write registers => { c with registers }
  | .edit device change =>
    match c.editLibrary device fun l => .ok (change l, ()) with
    | .ok (c', _) => c'
    | .error _ => c
  | .drift side arm => c.put side { c.get side with arm }
  | .tick => c.tick.1

def operate (c : Cell σ) (commands : List (Command σ)) : Cell σ := commands.foldl perform c

/-- Built from two libraries and then operated in any way. -/
def Reachable (c : Cell σ) : Prop :=
  ∃ registers first second arm commands,
    c = ((build registers first second arm).1 : Cell σ).operate commands

/-- The steps that commands are made of. Each concerns one device, apart from linking; a tick of one
device may reach the other through its event. -/
inductive Move (σ : Type)
  | start (side : Side) (program : String) (mode : RunMode) (line : Nat)
  | resume (side : Side)
  | halt (side : Side)
  | relink
  | write (registers : RegisterBank)
  | edit (side : Side) (change : Library → Library)
  | drift (side : Side) (arm : σ)
  | tick (side : Side)

def move (c : Cell σ) : Move σ → Cell σ
  | .start side program mode line =>
    match (c.get side).start program mode line with
    | .ok (d, _) => c.put side d
    | .error _ => c
  | .resume side =>
    match (c.get side).resume with
    | .ok (d, _) => c.put side d
    | .error _ => c
  | .halt side => c.put side (c.get side).halt.1
  | .relink => c.relink.1
  | .write registers => { c with registers }
  | .edit side change =>
    if (c.get side).isBusy then c
    else c.put side { c.get side with library := change (c.get side).library }
  | .drift side arm => c.put side { c.get side with arm }
  | .tick side => (c.tickSide side).1

/-- A command for a device that the cell does not have makes no move. -/
def Command.moves : Command σ → List (Move σ)
  | .start device program mode line =>
    ((Side.ofId? device).map fun side => .start side program mode line).toList
  | .resume device => ((Side.ofId? device).map .resume).toList
  | .halt device => ((Side.ofId? device).map .halt).toList
  | .haltAll => [.halt .first, .halt .second]
  | .relink => [.relink]
  | .write registers => [.write registers]
  | .edit device change => ((Side.ofId? device).map fun side => .edit side change).toList
  | .drift side arm => [.drift side arm]
  | .tick => [.tick .first, .tick .second]

theorem perform_eq_moves (c : Cell σ) (k : Command σ) : c.perform k = k.moves.foldl move c := by
  cases k with
  | start device program mode line =>
    cases h : Side.ofId? device with
    | none => simp [perform, Cell.start, sideOf, Command.moves, h, bind, Except.bind]
    | some side =>
      simp only [perform, Cell.start, sideOf, Command.moves, h, bind, Except.bind]
      cases hd : (c.get side).start program mode line <;> simp [move, hd]
  | resume device =>
    cases h : Side.ofId? device with
    | none => simp [perform, Cell.resume, sideOf, Command.moves, h, bind, Except.bind]
    | some side =>
      simp only [perform, Cell.resume, sideOf, Command.moves, h, bind, Except.bind]
      cases hd : (c.get side).resume <;> simp [move, hd]
  | halt device =>
    cases h : Side.ofId? device <;>
      simp [perform, Cell.halt, haltSide, sideOf, Command.moves, h, move, bind, Except.bind]
  | haltAll => rfl
  | relink => rfl
  | write registers => rfl
  | edit device change =>
    cases h : Side.ofId? device with
    | none => simp [perform, editLibrary, sideOf, Command.moves, h, bind, Except.bind]
    | some side =>
      simp only [perform, editLibrary, sideOf, Command.moves, h, bind, Except.bind]
      cases hd : (c.get side).isBusy <;> simp [move, hd]
  | drift side arm => rfl
  | tick => rfl

theorem perform_resume {c : Cell σ} {s : Side} {d : Device σ} {trace : Trace}
    (h : (c.get s).resume = .ok (d, trace)) : c.perform (.resume s.id) = c.put s d := by
  simp [perform_eq_moves, Command.moves, move, h]

theorem operate_append (c : Cell σ) (ks ls : List (Command σ)) :
    c.operate (ks ++ ls) = (c.operate ks).operate ls := List.foldl_append

theorem operate_eq_moves (c : Cell σ) (ks : List (Command σ)) :
    c.operate ks = (ks.flatMap Command.moves).foldl move c := by
  induction ks generalizing c with
  | nil => rfl
  | cons k ks ih =>
    rw [List.flatMap_cons, List.foldl_append, ← perform_eq_moves, ← ih]
    rfl

theorem Reachable.operate {c : Cell σ} (h : c.Reachable) (ks : List (Command σ)) :
    (c.operate ks).Reachable := by
  obtain ⟨registers, first, second, arm, commands, rfl⟩ := h
  exact ⟨registers, first, second, arm, commands ++ ks, (operate_append _ _ _).symm⟩

theorem foldl_move_of_invariant {P : Cell σ → Prop} (keeps : ∀ c m, P c → P (c.move m)) {c : Cell σ}
    (h : P c) (ms : List (Move σ)) : P (ms.foldl move c) := by
  induction ms generalizing c with
  | nil => exact h
  | cons m ms ih => exact ih (keeps c m h)

/-- The principle by which invariants are shown. -/
theorem Reachable.invariant {P : Cell σ → Prop}
    (built : ∀ registers first second arm, P (build registers first second arm).1)
    (keeps : ∀ c m, P c → P (c.move m)) {c : Cell σ} (h : c.Reachable) : P c := by
  obtain ⟨registers, first, second, arm, commands, rfl⟩ := h
  have step (c : Cell σ) (k : Command σ) (hc : P c) : P (c.perform k) := by
    rw [perform_eq_moves]
    exact foldl_move_of_invariant keeps hc _
  have hb := built registers first second arm
  generalize (build registers first second arm).1 = c at hb ⊢
  induction commands generalizing c with
  | nil => exact hb
  | cons k commands ih => exact ih _ (step c k hb)

end Cell

end TeachPendant
