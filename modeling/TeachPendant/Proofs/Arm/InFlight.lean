import TeachPendant.Arm.Instant
import TeachPendant.Proofs.Arm.Record

namespace TeachPendant.Cell

variable {σ : Type}

/-- The command for a cell with recording arms. An arm that moves on by itself leaves its record. -/
def Command.recorded (c : Cell (Recording σ)) : Command σ → Command (Recording σ)
  | .start device program mode line => .start device program mode line
  | .resume device => .resume device
  | .halt device => .halt device
  | .haltAll => .haltAll
  | .relink => .relink
  | .write registers => .write registers
  | .edit device change => .edit device change
  | .drift side arm => .drift side { (c.get side).arm with arm }
  | .tick => .tick

/-- A cell whose arms begin a record. -/
def buildRecorded (registers : RegisterBank) (first second : Library) (arm : Side → σ) :
    Cell (Recording σ) :=
  (build registers first second fun s => { arm := arm s }).1

/-- Every arm of the cell is tended by its device. -/
def Tended (c : Cell (Recording σ)) : Prop := ∀ s, (c.get s).Tended

/-- Moves that leave the records to the devices. -/
def Move.LeavesRecord (c : Cell (Recording σ)) : Move (Recording σ) → Prop
  | .drift side arm => arm.calls = (c.get side).arm.calls
  | .start .. | .resume _ | .halt _ | .relink | .write _ | .edit .. | .tick _ => True

namespace Tended

variable {c : Cell (Recording σ)}

theorem put (h : c.Tended) {s : Side} {d : Device (Recording σ)} (hd : d.Tended) :
    (c.put s d).Tended := by
  intro t
  rcases s.eq_or_eq_other t with rfl | rfl
  · rwa [get_put]
  · rw [get_put_other]
    exact h _

theorem failSide (h : c.Tended) {s : Side} (hs : (c.get s).moving? = none) (cause : Error) :
    (c.failSide s cause).1.Tended :=
  h.put ((h s).still hs (Device.fail_arm _ cause))

/-- A device that was not busy and begins a run. -/
theorem begin_of_not_busy {d d' : Device (Recording σ)} (h : d.Tended) (hb : d.isBusy = false)
    (ref : ProgramRef) (mode : RunMode) (i : Nat) (harm : d'.arm = d.arm)
    (hx : d'.execution = d.execution) : (d'.begin ref mode i).1.Tended := by
  have hd := Device.moving?_of_not_busy hb
  have hmoving : d'.moving? = none := by
    rw [Device.moving?, hx]
    exact hd
  obtain ⟨hkept, hstill⟩ := d'.begin_arm ref mode i hmoving
  exact h.still hd ⟨hkept.trans harm, hstill⟩

theorem routeCall (h : c.Tended) {s : Side} (hs : (c.get s).moving? = none) (target : CallTarget)
    (frame : ReturnFrame) : (c.routeCall s target frame).1.Tended := by
  unfold Cell.routeCall
  split
  · exact h.failSide hs _
  · next callee hcallee =>
    split
    · next d trace haccept =>
      obtain ⟨hb, ref, p, -, -, -, rfl⟩ := Device.of_acceptCall haccept
      exact h.put (begin_of_not_busy (h callee) hb ref frame.mode 0 (by rfl) (by rfl))
    · exact h.failSide hs _

theorem routeFailure (h : c.Tended) (s : Side) (caller : UInt8) (reason : String) :
    (c.routeFailure s caller reason).1.Tended := by
  unfold Cell.routeFailure
  split
  · exact h
  · next side hside =>
    split_ifs with hwaits
    · refine h.failSide ?_ _
      obtain ⟨x, hx, hs⟩ := Option.map_eq_some_iff.mp hwaits
      simp [Device.moving?, hx, Execution.moving?, hs]
    · exact h

theorem routeReturn (h : c.Tended) (frame : ReturnFrame) : (c.routeReturn frame).1.Tended := by
  unfold Cell.routeReturn
  split
  · exact h
  · next side hside => exact h.put (h side).resumeAfterCall

variable [MotionService σ]

theorem tickSide (h : c.Tended) (hc : c.Sound) (s : Side) : (c.tickSide s).1.Tended := by
  have hdevice := (h s).tick (hc s) c.registers
  have hcross (target : CallTarget) (frame : ReturnFrame)
      (hevent : ((c.get s).tick c.registers).event = .crossCall target frame) :=
    Device.moving?_of_crossCall hevent
  unfold Cell.tickSide
  generalize (c.get s).tick c.registers = t at hdevice hcross
  have hput : ({ c.put s t.device with registers := t.registers } : Cell (Recording σ)).Tended := by
    intro r
    rw [get_registers]
    exact h.put hdevice r
  dsimp only
  cases hevent : t.event with
  | idle | busy => exact hput
  | crossCall target frame =>
    refine hput.routeCall ?_ target frame
    rw [get_registers, get_put]
    exact hcross target frame hevent
  | callFailed caller reason => exact hput.routeFailure s caller reason
  | returned frame => exact hput.routeReturn frame

theorem move (h : c.Tended) (hc : c.Sound) {m : Move (Recording σ)} (hm : m.LeavesRecord c) :
    (c.move m).Tended := by
  cases m with
  | start side program mode line =>
    simp only [Cell.move]
    split
    · next d trace hs =>
      obtain ⟨hb, index, p, -, -, rfl⟩ := Device.of_start hs
      exact h.put (begin_of_not_busy (h side) hb _ mode line rfl rfl)
    · exact h
  | resume side =>
    simp only [Cell.move]
    split
    · next d trace hr =>
      obtain rfl | ⟨x, p, hx, hs, -, rfl⟩ := Device.of_resume hr
      · exact h.put (h side)
      · have hd : (c.get side).moving? = none := by
          simp [Device.moving?, hx, Execution.moving?, hs]
        exact h.put ((h side).still hd (Device.begin_arm _ _ _ _ hd))
    · exact h
  | halt side => exact h.put (h side).halt
  | relink =>
    intro s
    rw [Cell.move, get_relink]
    exact (h s).congr rfl rfl
  | write registers =>
    intro s
    rw [Cell.move, get_registers]
    exact h s
  | edit side change =>
    simp only [Cell.move]
    split_ifs
    · exact h
    · exact h.put ((h side).congr rfl rfl)
  | drift side arm => exact h.put ((h side).congr hm rfl)
  | tick side => exact h.tickSide hc side

theorem moves (h : c.Tended) (hc : c.Sound) {ms : List (Move (Recording σ))}
    (hms : ∀ m ∈ ms, ∀ c, m.LeavesRecord c) : (ms.foldl Cell.move c).Tended := by
  induction ms generalizing c with
  | nil => exact h
  | cons m ms ih =>
    exact ih (h.move hc (hms m List.mem_cons_self c)) (hc.move m)
      fun m' hm' => hms m' (List.mem_cons_of_mem _ hm')

theorem perform (h : c.Tended) (hc : c.Sound) (k : Command σ) :
    (c.perform (k.recorded c)).Tended := by
  cases k with
  | drift side arm => exact h.put ((h side).congr rfl rfl)
  | start device | resume device | halt device | edit device =>
    rw [perform_eq_moves]
    refine h.moves hc ?_
    intro m hm c
    obtain ⟨side, -, rfl⟩ := Option.map_eq_some_iff.mp (Option.mem_toList.mp hm)
    trivial
  | haltAll | relink | write | tick =>
    rw [perform_eq_moves]
    refine h.moves hc ?_
    simp [Command.recorded, Command.moves, Move.LeavesRecord]

end Tended

variable [MotionService σ]

/-- Operates a cell with recording arms. -/
def operateRecorded (c : Cell (Recording σ)) (commands : List (Command σ)) : Cell (Recording σ) :=
  commands.foldl (fun c k => c.perform (k.recorded c)) c

theorem tended_operateRecorded {c : Cell (Recording σ)} (h : c.Tended) (hc : c.Sound)
    (commands : List (Command σ)) : (c.operateRecorded commands).Tended := by
  induction commands generalizing c with
  | nil => exact h
  | cons k commands ih =>
    have hnext : (c.perform (k.recorded c)).Sound := by
      rw [perform_eq_moves]
      exact foldl_move_of_invariant (fun _ m hc => hc.move m) hc _
    exact ih (h.perform hc k) hnext

/-- Whatever is done to a cell, and whatever its arms answer, the requests to each arm are in order. -/
theorem orderly_operateRecorded (registers : RegisterBank) (first second : Library) (arm : Side → σ)
    (commands : List (Command σ)) (s : Side) :
    ArmCall.Orderly
      (((buildRecorded registers first second arm).operateRecorded commands).get s).arm.calls := by
  have hnew : (buildRecorded registers first second arm).Tended := by
    intro t
    rw [buildRecorded, build]
    dsimp only
    rw [get_relink]
    cases t <;> exact ⟨.nil, fun _ => trivial, nofun⟩
  exact (tended_operateRecorded hnew (sound_build _ _ _ _) commands s).orderly

/-- A move that was asked for is given up before the program is started anew. -/
example :
    let m : TeachPendant.Move := {
      device := 0, kind := .joint, target := .origin, via := none, speed := .zero false
      termination := 0, toolFrame := 0, userFrame := 0 }
    (((buildRecorded (.ofSizes 0 0 1)
      ⟨[.written "MAIN" [.motion { kind := .joint, target := .register 0, speed := .zero false }]]⟩
      {} fun _ => ({} : InstantArm)).operateRecorded
        [.start 0 "MAIN" .full 0, .tick, .halt 0, .start 0 "MAIN" .full 0, .tick, .tick]).get
      .first).arm.calls = [.dispatch m 1, .cancel 1, .dispatch m 2, .poll 2 true] := by
  decide

end TeachPendant.Cell
