import TeachPendant.Proofs.Linking.CleanPass

namespace TeachPendant

namespace Device

variable {σ : Type} {d d' : Device σ}

theorem library_start {program : String} {mode : RunMode} {i : Nat} {trace : Trace}
    (h : d.start program mode i = .ok (d', trace)) : d'.library = d.library := (Steady.start h).library

theorem library_resume {trace : Trace} (h : d.resume = .ok (d', trace)) : d'.library = d.library :=
  (Steady.resume h).library

theorem library_acceptCall {target : CallTarget} {frame : ReturnFrame} {trace : Trace}
    (h : d.acceptCall target frame = .ok (d', trace)) : d'.library = d.library :=
  (Steady.acceptCall h).library

@[simp] theorem library_halt [MotionService σ] (d : Device σ) : d.halt.1.library = d.library :=
  (Steady.halt d).library

@[simp] theorem library_tick [MotionService σ] (d : Device σ) (registers : RegisterBank) :
    (d.tick registers).device.library = d.library := by
  have ht := d.ticked registers
  generalize d.tick registers = t at ht ⊢
  cases ht with
  | calledHere _ _ _ _ _ _ _ _ hd => simp [hd, afterLine]
  | _ => simp [afterLine]

end Device

namespace Cell

variable {σ : Type} {c : Cell σ}

/-- Whether the move edits a library. -/
def Move.edits : Move σ → Bool
  | .edit _ _ => true
  | .start _ _ _ _ | .resume _ | .halt _ | .relink | .write _ | .drift _ _ | .tick _ => false

def Command.edits (k : Command σ) : Bool := k.moves.any Move.edits

/-- Without an edit a library changes at most in its links. -/
theorem Move.relinks_or_keeps {m : Move σ} (h : m.edits = false) :
    m = .relink ∨ m.keepsLibraries = true := by
  cases m with
  | edit => cases h
  | relink => exact Or.inl rfl
  | _ => exact Or.inr rfl

theorem library_put {s : Side} {d : Device σ} (h : d.library = c.library s) :
    (c.put s d).library = c.library := by
  funext t
  rcases s.eq_or_eq_other t with rfl | rfl
  · rw [library, get_put, h]
  · rw [library, get_put_other]
    rfl

theorem library_failSide (c : Cell σ) (s : Side) (cause : Error) :
    (c.failSide s cause).1.library = c.library := library_put (Device.library_fail _ cause)

theorem library_route (c : Cell σ) (s : Side) (event : DeviceEvent) :
    (c.route s event).1.library = c.library := by
  cases event with
  | idle | busy => rfl
  | crossCall target frame =>
    simp only [route, routeCall]
    split
    · exact library_failSide c s _
    · split
      · next taken => exact library_put (Device.library_acceptCall taken)
      · exact library_failSide c s _
  | callFailed caller reason =>
    simp only [route, routeFailure]
    split
    · rfl
    · split_ifs
      · exact library_failSide c _ _
      · rfl
  | returned frame =>
    simp only [route, routeReturn]
    split
    · rfl
    · exact library_put (Device.resumeAfterCall_kept _).1

variable [MotionService σ]

theorem library_tickSide (c : Cell σ) (s : Side) : (c.tickSide s).1.library = c.library :=
  (library_route _ s _).trans (library_put (Device.library_tick (c.get s) c.registers))

theorem library_move {m : Move σ} (hm : m.keepsLibraries = true) (c : Cell σ) :
    (c.move m).library = c.library := by
  cases m with
  | start side program mode line =>
    simp only [move]
    split
    · next started => exact library_put (Device.library_start started)
    · rfl
  | resume side =>
    simp only [move]
    split
    · next resumed => exact library_put (Device.library_resume resumed)
    · rfl
  | halt side => exact library_put (Device.library_halt (c.get side))
  | relink | edit => cases hm
  | write registers => rfl
  | drift side arm => exact library_put rfl
  | tick side => exact library_tickSide c side

end Cell

end TeachPendant
