import TeachPendant.Arm.Instant
import TeachPendant.Proofs.Linking.ByName
import TeachPendant.Proofs.Saved.Snapshot

namespace TeachPendant

open Linking

namespace Cell

variable {σ : Type}

/-- The libraries of the devices, in the order of their numbers. -/
def libraries (c : Cell σ) : List Library := c.devices.map (·.library)

/-- The program that a start by name begins to run. -/
def started? (c : Cell σ) (device : UInt8) (program : String) (mode : RunMode) (line : Nat) :
    Option ProgramRef :=
  match c.start device program mode line with
  | .ok (c', _) => (Side.ofId? device).bind fun s => (c'.get s).execution.map (·.program)
  | .error _ => none

theorem getElem?_libraries (c : Cell σ) (device : UInt8) :
    c.libraries[device.toNat]? = (Side.ofId? device).map fun s => (c.get s).library := by
  unfold Side.ofId?
  split
  · rfl
  · rfl
  · next hzero hone =>
    refine List.getElem?_eq_none ?_
    have hzero : device.toNat ≠ 0 := fun hn => hzero (UInt8.toNat_inj.mp hn)
    have hone : device.toNat ≠ 1 := fun hn => hone (UInt8.toNat_inj.mp hn)
    show 2 ≤ device.toNat
    omega

/-- A start begins to run what its name finds in the library of its device. -/
theorem started?_eq {c : Cell σ} (hid : ∀ s, (c.get s).id = s.id)
    (hfree : ∀ s, (c.get s).isBusy = false) (device : UInt8) (program : String) (mode : RunMode)
    (line : Nat) : c.started? device program mode line =
      (c.libraries[device.toNat]?).bind fun l => (l.find? program).map fun i => ⟨device, i⟩ := by
  rw [getElem?_libraries]
  unfold started? start sideOf
  cases hs : Side.ofId? device with
  | none => rfl
  | some s =>
    obtain rfl := Side.eq_of_ofId? hs
    simp only [Option.map_some, Option.bind_some, bind, Except.bind]
    cases hf : (c.get s).library.find? program with
    | none => simp [Device.start, hfree s, hf]
    | some index =>
      obtain ⟨p, trace, -, hstart⟩ := Device.start_of_find? (hfree s) hf mode line
      rw [hstart, hid]
      simp only [get_put, Option.map_some, Execution.start]
      split_ifs <;> rfl

end Cell

namespace Snapshot

variable {s : Snapshot}

/-- A snapshot as it is read from a file, in one of the forms that files have. -/
inductive Loaded (s : Snapshot) : Prop
  | json {text : String} {trace : Trace} (read : ofJson text = .ok (s, trace))
  | messagePack {bytes : List UInt8} {trace : Trace} (read : ofMessagePack bytes = .ok (s, trace))
  | file {bytes : List UInt8} {trace : Trace} (read : ofBytes bytes = .ok (s, trace))

/-- Whatever is loaded comes from finishing the load. -/
theorem Loaded.finished (h : s.Loaded) : ∃ read trace, finish read = .ok (s, trace) := by
  have hpacked {bytes : List UInt8} {trace : Trace} (h : ofMessagePack bytes = .ok (s, trace)) :
      ∃ read trace, finish read = .ok (s, trace) := by
    unfold ofMessagePack at h
    split_ifs at h
    split at h
    · next read _ => exact ⟨read, trace, h⟩
    · cases h
  cases h with
  | json h =>
    unfold ofJson at h
    split at h
    · next read _ => exact ⟨read, _, h⟩
    · cases h
  | messagePack h => exact hpacked h
  | file h =>
    unfold ofBytes at h
    split at h
    · exact hpacked h
    · cases h

/-- What is loaded has been linked. -/
theorem Loaded.linked (h : s.Loaded) : (linkCalls s.libraries).1 = s.libraries := by
  obtain ⟨read, trace, hf⟩ := h.finished
  unfold finish at hf
  split_ifs at hf
  obtain ⟨rfl, -⟩ := Prod.mk.inj (Except.ok.inj hf)
  exact congrArg Prod.fst (linkCalls_linkCalls read.renumber.libraries)

/-- Devices that were not saved make no difference to links. -/
theorem linkOf_padded {libraries : List Library} (h : libraries.length ≤ deviceCount)
    (t : CallTarget) :
    linkOf [libraries.getD 0 {}, libraries.getD 1 {}] t = linkOf libraries t := by
  have hempty (d : Nat) : linkFrom t d [({} : Library)] = none := by
    simp [linkFrom, lastNamed]
  rcases libraries with _ | ⟨l, _ | ⟨m, _ | ⟨n, rest⟩⟩⟩
  · simp [linkOf, linkFrom, lastNamed]
  · show linkFrom t 0 [l, {}] = linkFrom t 0 [l]
    rw [linkFrom, hempty, linkFrom]
    rfl
  · rfl
  · simp [deviceCount] at h

variable {σ : Type} {arm : Side → σ} {c : Cell σ} {trace : Trace}

theorem build_of_intoCell (hc : s.intoCell arm = .ok (c, trace)) :
    s.libraries.length ≤ deviceCount ∧
      c = (Cell.build s.registers (s.libraries.getD 0 {}) (s.libraries.getD 1 {}) arm).1 := by
  unfold intoCell at hc
  split_ifs at hc with hcount
  exact ⟨Nat.le_of_not_lt hcount, (congrArg Prod.fst (Except.ok.inj hc)).symm⟩

/-- The cell holds the libraries as they were loaded, and an empty one for a device that was not
saved. -/
theorem Loaded.libraries_intoCell (h : s.Loaded) (hc : s.intoCell arm = .ok (c, trace)) :
    c.libraries = [s.libraries.getD 0 {}, s.libraries.getD 1 {}] := by
  obtain ⟨hcount, rfl⟩ := build_of_intoCell hc
  have htarget : linkTarget [s.libraries.getD 0 {}, s.libraries.getD 1 {}] =
      linkTarget s.libraries := funext fun t => by rw [linkTarget, linkOf_padded hcount, linkTarget]
  have hkept : ∀ l ∈ s.libraries, l.mapCalls (linkTarget s.libraries) = l :=
    List.map_inj_left.mp (h.linked.trans (List.map_id' _).symm)
  have hsaved (i : Nat) :
      (s.libraries.getD i {}).mapCalls (linkTarget s.libraries) = s.libraries.getD i {} := by
    rw [List.getD_eq_getElem?_getD]
    cases hl : s.libraries[i]? with
    | none => rfl
    | some l => exact hkept l (List.mem_of_getElem? hl)
  show (linkCalls [s.libraries.getD 0 {}, s.libraries.getD 1 {}]).1 = _
  simp only [linkCalls, List.map_cons, List.map_nil, htarget, hsaved]

theorem callAt?_padded {libraries : List Library} (h : libraries.length ≤ deviceCount)
    (a : List Nat) :
    callAt? [libraries.getD 0 {}, libraries.getD 1 {}] a = callAt? libraries a := by
  have hempty (a : List Nat) : Library.callAt? {} a = none := by cases a <;> rfl
  rcases libraries with _ | ⟨l, _ | ⟨m, _ | ⟨n, rest⟩⟩⟩
  · rcases a with _ | ⟨_ | _ | d, a⟩ <;> simp [callAt?, below?, hempty]
  · rcases a with _ | ⟨_ | _ | d, a⟩ <;> simp [callAt?, below?, hempty]
  · rfl
  · simp [deviceCount] at h

/-- In a cell that was loaded, a call is linked to the program that a start of its name runs, or has
no link where there is none to start, exactly if no other program of its device has its name. -/
theorem Loaded.link_eq_started_iff (h : s.Loaded) (hc : s.intoCell arm = .ok (c, trace)) :
    (∀ a, callAt? c.libraries a = callAt? s.libraries a) ∧
    ∀ a t, callAt? c.libraries a = some t → ∀ mode line,
      (t.link = c.started? t.device t.program mode line ↔
        ∀ l, c.libraries[t.device.toNat]? = some l → l.names.count t.program ≤ 1) := by
  have hlibraries := h.libraries_intoCell hc
  obtain ⟨hcount, hbuilt⟩ := build_of_intoCell hc
  have hcalls (a : List Nat) : callAt? c.libraries a = callAt? s.libraries a := by
    rw [hlibraries, callAt?_padded hcount]
  refine ⟨hcalls, fun a t ha mode line => ?_⟩
  have hlink : t.link = (c.libraries[t.device.toNat]?).bind fun l =>
      (lastNamed t.program 0 l.programs).map fun i => ⟨t.device, i⟩ := by
    have hmapped := callAt?_linkCalls s.libraries a
    rw [h.linked, ← hcalls, ha, Option.map_some] at hmapped
    rw [hlibraries, ← linkOf_eq, linkOf_padded hcount]
    exact congrArg CallTarget.link (Option.some.inj hmapped)
  have hid (r : Side) : (c.get r).id = r.id := by
    rw [hbuilt]
    exact (Cell.sound_build _ _ _ arm r).id_eq
  have hfree (r : Side) : (c.get r).isBusy = false := by
    rw [hbuilt]
    cases r <;> rfl
  rw [hlink, Cell.started?_eq hid hfree]
  cases c.libraries[t.device.toNat]? with
  | none => simp
  | some l =>
    have hplace : Function.Injective fun i : Nat => (⟨t.device, i⟩ : ProgramRef) :=
      fun i j hij => congrArg ProgramRef.index hij
    simp only [Option.bind_some, Option.some.injEq, forall_eq', ← lastNamed_eq_find?_iff]
    exact (Option.map_injective hplace).eq_iff

/-- The second device has two programs of one name, and one of another name, which is called from
within an `IF`. -/
def sameNamed : Snapshot where
  registers := .ofSizes 0 0 0
  libraries := [
    ⟨[.written "MAIN" [
      .call { program := "WORK", device := 1 },
      .ifThen (.sequence [.operand (.flag true)])
        (.ofAction (.call { program := "SUB", device := 1 }))]]⟩,
    ⟨[.written "WORK" [.blank], .written "SUB" [.blank], .written "WORK" []]⟩]

/-- What is read of the file of `sameNamed`. -/
def sameNamedLoaded : Snapshot := sameNamed.renumber.link.1

def sameNamedCell : Cell InstantArm :=
  (Cell.build sameNamedLoaded.registers (sameNamedLoaded.libraries.getD 0 {})
    (sameNamedLoaded.libraries.getD 1 {}) fun _ => {}).1

theorem ofMessagePack_sameNamed :
    ofMessagePack sameNamed.toMessagePack = .ok (sameNamedLoaded, []) := by
  have h : sameNamed.Storable := ⟨by decide, by decide, by decide +kernel, by decide +kernel⟩
  have hread := h.ofMessagePack_append []
  rw [List.append_nil] at hread
  exact hread.trans rfl

theorem intoCell_sameNamed : sameNamedLoaded.intoCell (fun _ => {}) = .ok (sameNamedCell, []) := rfl

/-- The name that is there once. -/
theorem link_eq_started_sub :
    sameNamedLoaded.Loaded ∧ ∃ t, callAt? sameNamedCell.libraries [0, 0, 1, 0] = some t ∧
      t.program = "SUB" ∧ t.device = 1 ∧ t.link = sameNamedCell.started? 1 "SUB" .full 0 := by
  have h : sameNamedLoaded.Loaded := .messagePack ofMessagePack_sameNamed
  have hsub : callAt? sameNamedCell.libraries [0, 0, 1, 0] =
      some { program := "SUB", device := 1, link := some ⟨1, 1⟩ } := by decide
  refine ⟨h, _, hsub, rfl, rfl, ?_⟩
  refine ((Loaded.link_eq_started_iff h intoCell_sameNamed).2 _ _ hsub .full 0).mpr fun l hl => ?_
  cases hl
  decide

/-- The name that is there twice: the call goes to the last program and the start to the first. -/
theorem link_ne_started_work :
    ofMessagePack sameNamed.toMessagePack = .ok (sameNamedLoaded, []) ∧
      sameNamedLoaded.intoCell (fun _ => {}) = .ok (sameNamedCell, []) ∧
      callAt? sameNamedCell.libraries [0, 0, 0] =
        some { program := "WORK", device := 1, link := some ⟨1, 2⟩ } ∧
      sameNamedCell.started? 1 "WORK" .full 0 = some ⟨1, 0⟩ :=
  ⟨ofMessagePack_sameNamed, intoCell_sameNamed, by decide, by decide⟩

end Snapshot

end TeachPendant
