import TeachPendant.Proofs.Document.TomlLong
import TeachPendant.Proofs.Settings.Text

namespace TeachPendant

namespace Document

variable {d : Document} {names : List String} {os : List (Option Document)} {form : Form}

theorem exists_mem_of_mapM {α β : Type} {f : α → Option β} {l : List α} {ys : List β}
    (h : l.mapM f = some ys) : ∀ y ∈ ys, ∃ x ∈ l, f x = some y := by
  induction l generalizing ys with
  | nil =>
    cases h
    nofun
  | cons a l ih =>
    simp only [List.mapM_cons, Option.bind_eq_bind, Option.bind_eq_some_iff] at h
    obtain ⟨y, hy, zs, hzs, heq⟩ := h
    cases heq
    exact List.forall_mem_cons.mpr ⟨⟨a, List.mem_cons_self, hy⟩, fun z hz =>
      (ih hzs z hz).imp fun x hx => ⟨.tail _ hx.1, hx.2⟩⟩

/-- A field of a record is one of its parts. -/
theorem exists_mem_of_field? {fields : List (Key × Document)} {name : String} {i : ℕ}
    (h : field? fields name i = some (some d)) : ∃ f ∈ fields, f.2 = d := by
  rw [field?] at h
  split at h
  · cases h
  · next f hfilter =>
    cases h
    have hmem : f ∈ fields.filter fun f => named name i f.1 := hfilter ▸ List.mem_singleton_self f
    exact ⟨f, List.mem_of_mem_filter hmem, rfl⟩
  · cases h

theorem Long.fields? (hd : d.Long) {least : ℕ} (h : d.fields? names least = some os) :
    ∀ o ∈ os, ∀ d' ∈ o, d'.Long := by
  rintro o hmem d' rfl
  unfold Document.fields? at h
  split at h
  · next fields =>
    split at h
    · cases h
    · obtain ⟨⟨name, i⟩, -, hfield⟩ := exists_mem_of_mapM h _ hmem
      obtain ⟨f, hf, rfl⟩ := exists_mem_of_field? hfield
      cases hd with
      | record each => exact each f hf
  · next items =>
    split at h
    · cases h
    · cases h
      obtain hmem | hmem := List.mem_append.mp hmem
      · obtain ⟨item, hitem, heq⟩ := List.mem_map.mp hmem
        cases heq
        cases hd with
        | list each => exact each d' hitem
      · cases List.eq_of_mem_replicate hmem
  · cases h

theorem Long.looseFields? (hd : d.Long) (h : d.looseFields? form names = some os) :
    ∀ o ∈ os, ∀ d' ∈ o, d'.Long := by
  unfold Document.looseFields? at h
  split at h
  · next items =>
    refine Long.fields? ?_ h
    cases hd with
    | list each =>
      refine .list fun item hitem => each item ?_
      split at hitem
      · exact List.mem_of_mem_take hitem
      · exact hitem
  · exact hd.fields? h

theorem of_fieldOr? {α : Type} {P : α → Prop} {read : Document → Option α} {value a : α}
    {o : Option Document} (hvalue : P value) (hread : ∀ d ∈ o, read d = some a → P a)
    (h : fieldOr? read value o = some a) : P a := by
  cases o with
  | none =>
    cases h
    exact hvalue
  | some d => exact hread d rfl h

end Document

namespace Saved

open Document

variable {d : Document} {form : Form} {depth n : ℕ} {o : Option Document} {bound standard : ℕ}

theorem count?_lt (hstandard : standard < bound) (h : count? bound standard o = some n) : n < bound := by
  refine of_fieldOr? (P := fun n => n < bound) hstandard (fun d _ hd => ?_) h
  unfold natural? at hd
  split at hd
  · split_ifs at hd with hz
    cases hd
    exact hz.2
  · cases hd

theorem count?_long (ho : ∀ d ∈ o, d.Long) (hstandard : standard < 2 ^ 63)
    (h : count? bound standard o = some n) : n < 2 ^ 63 := by
  refine of_fieldOr? (P := fun n => n < 2 ^ 63) hstandard (fun d hmem hd => ?_) h
  unfold natural? at hd
  split at hd
  · split_ifs at hd with hz
    cases hd
    cases ho _ hmem with
    | integer least greatest => omega
  · cases hd

theorem registerSettings?_long {r : RegisterSettings} (hd : d.Long)
    (h : registerSettings? form depth d = some r) :
    r.data < 2 ^ 63 ∧ r.io < 2 ^ 63 ∧ r.positions < 2 ^ 63 := by
  unfold registerSettings? at h
  split at h
  · cases h
  · split at h
    · next hfields =>
      have hlong := hd.looseFields? hfields
      simp only [List.forall_mem_cons] at hlong
      simp only [Option.bind_eq_bind, Option.bind_eq_some_iff] at h
      obtain ⟨data, hdata, io, hio, positions, hpositions, heq⟩ := h
      cases heq
      exact ⟨count?_long hlong.1 (by decide) hdata, count?_long hlong.2.1 (by decide) hio,
        count?_long hlong.2.2.1 (by decide) hpositions⟩
    · cases h

theorem motionSettings?_long {m : MotionSettings} (hd : d.Long)
    (h : motionSettings? form depth d = some m) :
    m.tickMs < 2 ^ 63 ∧ m.stepsAtFullSpeed < 2 ^ 32 ∧ m.settleJitterMs < 2 ^ 63 := by
  unfold motionSettings? at h
  split at h
  · cases h
  · split at h
    · next hfields =>
      have hlong := hd.looseFields? hfields
      simp only [List.forall_mem_cons] at hlong
      simp only [Option.bind_eq_bind, Option.bind_eq_some_iff] at h
      obtain ⟨simulate, -, tick, htick, steps, hsteps, jitter, hjitter, heq⟩ := h
      cases heq
      exact ⟨count?_long hlong.2.1 (by decide) htick, count?_lt (by decide) hsteps,
        count?_long hlong.2.2.2.1 (by decide) hjitter⟩
    · cases h

theorem executionSettings?_long {e : ExecutionSettings} (hd : d.Long)
    (h : executionSettings? form depth d = some e) : e.maxTicks < 2 ^ 63 := by
  unfold executionSettings? at h
  split at h
  · cases h
  · split at h
    · next hfields =>
      have hlong := hd.looseFields? hfields
      simp only [List.forall_mem_cons] at hlong
      simp only [Option.bind_eq_bind, Option.bind_eq_some_iff] at h
      obtain ⟨mode, -, ticks, hticks, heq⟩ := h
      cases heq
      exact count?_long hlong.2.1 (by decide) hticks
    · cases h

theorem loggingSettings?_long {l : LoggingSettings} (hd : d.Long)
    (h : loggingSettings? form depth d = some l) : l.maxFileKb < 2 ^ 63 ∧ l.keepFiles < 2 ^ 63 := by
  unfold loggingSettings? at h
  split at h
  · cases h
  · split at h
    · next hfields =>
      have hlong := hd.looseFields? hfields
      simp only [List.forall_mem_cons] at hlong
      simp only [Option.bind_eq_bind, Option.bind_eq_some_iff] at h
      obtain ⟨output, -, level, -, directory, -, size, hsize, keep, hkeep, heq⟩ := h
      cases heq
      exact ⟨count?_long hlong.2.2.2.1 (by decide) hsize,
        count?_long hlong.2.2.2.2.1 (by decide) hkeep⟩
    · cases h

theorem settings?_writable {s : Settings} (hd : d.Long) (h : settings? form depth d = some s) :
    s.Writable := by
  unfold settings? at h
  split at h
  · cases h
  · split at h
    · next hfields =>
      have hlong := hd.looseFields? hfields
      simp only [List.forall_mem_cons] at hlong
      simp only [Option.bind_eq_bind, Option.bind_eq_some_iff] at h
      obtain ⟨registers, hregisters, motion, hmotion, execution, hexecution, logging, hlogging, heq⟩ := h
      cases heq
      obtain ⟨hdata, hio, hpositions⟩ := of_fieldOr?
        (P := fun r : RegisterSettings => r.data < 2 ^ 63 ∧ r.io < 2 ^ 63 ∧ r.positions < 2 ^ 63)
        (by decide) (fun d hd => registerSettings?_long (hlong.1 d hd)) hregisters
      obtain ⟨htick, hsteps, hjitter⟩ := of_fieldOr?
        (P := fun m : MotionSettings =>
          m.tickMs < 2 ^ 63 ∧ m.stepsAtFullSpeed < 2 ^ 32 ∧ m.settleJitterMs < 2 ^ 63)
        (by decide) (fun d hd => motionSettings?_long (hlong.2.1 d hd)) hmotion
      have hticks := of_fieldOr? (P := fun e : ExecutionSettings => e.maxTicks < 2 ^ 63)
        (by decide) (fun d hd => executionSettings?_long (hlong.2.2.1 d hd)) hexecution
      have hlogs := of_fieldOr?
        (P := fun l : LoggingSettings => l.maxFileKb < 2 ^ 63 ∧ l.keepFiles < 2 ^ 63)
        (by decide) (fun d hd => loggingSettings?_long (hlong.2.2.2.1 d hd)) hlogging
      have hsteps' := Nat.lt_trans hsteps (show 2 ^ 32 < 2 ^ 63 by decide)
      exact ⟨(Settings.forall_checked (P := fun _ n => n < 2 ^ 63)).mpr
        ⟨⟨hdata, hio, hpositions⟩, ⟨htick, hsteps', hjitter⟩, hticks, hlogs⟩, hsteps⟩
    · cases h

end Saved

namespace Settings

variable {s : Settings}

theorem writable_of_read? {content : String} (h : read? content = some s) : s.Writable := by
  obtain ⟨d, hd, hs⟩ := Option.bind_eq_some_iff.mp h
  exact Saved.settings?_writable (TomlReader.long_read? hd) hs

end Settings

end TeachPendant
