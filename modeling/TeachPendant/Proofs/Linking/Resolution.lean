import TeachPendant.Proofs.Cell.Exchange
import TeachPendant.Proofs.Linking.Calls

namespace TeachPendant

namespace Linking

theorem lastNamed_some {name : String} {ps : List Program} {i j : Nat}
    (h : lastNamed name i ps = some j) : ∃ p, ps[j - i]? = some p ∧ p.name = name ∧ i ≤ j := by
  induction ps generalizing i with
  | nil => cases h
  | cons p rest ih =>
    simp only [lastNamed] at h
    cases hr : lastNamed name (i + 1) rest with
    | some k =>
      obtain rfl : k = j := by simpa [hr] using h
      obtain ⟨q, hq, hn, hle⟩ := ih hr
      refine ⟨q, ?_, hn, by omega⟩
      rw [show k - i = k - (i + 1) + 1 by omega, List.getElem?_cons_succ]
      exact hq
    | none =>
      simp only [hr] at h
      split_ifs at h with hn
      cases h
      exact ⟨p, by simp, hn, Nat.le_refl _⟩

/-- The link of a call leads to a program of its name on the device that it names. -/
theorem linkOf_some {l : Side → Library} {t : CallTarget} {ref : ProgramRef}
    (h : linkOf [l .first, l .second] t = some ref) :
    ∃ s p, t.device = s.id ∧ (l s).get? ref.index = some p ∧ p.name = t.program := by
  have hfound (s : Side) (hd : t.device = s.id)
      (hs : (lastNamed t.program 0 (l s).programs).map (fun i => (⟨t.device, i⟩ : ProgramRef)) =
        some ref) :
      ∃ s p, t.device = s.id ∧ (l s).get? ref.index = some p ∧ p.name = t.program := by
    obtain ⟨j, hj, rfl⟩ := Option.map_eq_some_iff.mp hs
    obtain ⟨p, hp, hn, -⟩ := lastNamed_some hj
    exact ⟨s, p, hd, hp, hn⟩
  have hid (s : Side) (hn : s.id.toNat % 256 = t.device.toNat) : t.device = s.id := by
    cases s <;> exact UInt8.toNat_inj.mp hn.symm
  simp only [linkOf, linkFrom] at h
  split at h
  · next r hsecond =>
    split_ifs at hsecond with hn
    rw [h] at hsecond
    exact hfound .second (hid .second hn) hsecond
  · split_ifs at h with hn
    exact hfound .first (hid .first hn) h

/-- A call that was given a link goes where the link leads. -/
theorem resolve_linkTarget {l : Side → Library} {t : CallTarget} {ref : ProgramRef}
    (h : linkOf [l .first, l .second] t = some ref) :
    ∃ s : Side, t.device = s.id ∧ ((l s).mapCalls (linkTarget [l .first, l .second])).resolve
      (linkTarget [l .first, l .second] t) = .ok ref := by
  obtain ⟨s, p, hs, hget, hname⟩ := linkOf_some h
  have hmapped : (p.mapCalls (linkTarget [l .first, l .second])).name = t.program := hname
  refine ⟨s, hs, ?_⟩
  simp only [Library.resolve, linkTarget, h, Library.get?_mapCalls, hget, Option.map_some]
  exact if_pos hmapped

end Linking

/-- Every call with a link that a program of these libraries can make finds its program. -/
def Linked (l : Side → Library) : Prop :=
  ∀ s index p line i c effect target, (l s).get? index = some p → p.instruction? line = some i →
    i.execute c p.positions = .ok effect → effect.flow = .call target → target.link.isSome →
    ∀ r : Side, target.device = r.id → ∃ ref, (l r).resolve target = .ok ref

theorem linked_mapCalls (l : Side → Library) :
    Linked fun s => (l s).mapCalls (Linking.linkTarget [l .first, l .second]) := by
  intro s index p line i c effect target hp hi he hf hk r hr
  have hmem := Library.mem_calls hp hi (Instruction.call_mem i he hf)
  rw [Library.calls_mapCalls] at hmem
  obtain ⟨t, -, rfl⟩ := List.mem_map.mp hmem
  obtain ⟨ref, hk⟩ := Option.isSome_iff_exists.mp hk
  obtain ⟨s', hs', hok⟩ := Linking.resolve_linkTarget hk
  obtain rfl : s' = r := Side.id_injective (hs'.symm.trans hr)
  exact ⟨ref, hok⟩

/-- Every call in the text of these libraries, made or not, finds its program on the device that it
names. -/
def Resolved (l : Side → Library) : Prop :=
  ∀ s, ∀ t ∈ (l s).calls, ∃ r : Side, t.device = r.id ∧ ∃ ref, (l r).resolve t = .ok ref

theorem resolved_mapCalls {l : Side → Library} (h : (linkCalls [l .first, l .second]).2 = []) :
    Resolved fun s => (l s).mapCalls (Linking.linkTarget [l .first, l .second]) := by
  intro s mapped hmapped
  rw [Library.calls_mapCalls] at hmapped
  obtain ⟨t, ht, rfl⟩ := List.mem_map.mp hmapped
  have hmem : t ∈ [l .first, l .second].flatMap (·.calls) :=
    List.mem_flatMap.mpr ⟨l s, by cases s <;> simp, ht⟩
  have hlink : (Linking.linkOf [l .first, l .second] t).isNone ≠ true :=
    List.filter_eq_nil_iff.mp (List.map_eq_nil_iff.mp h) t hmem
  obtain ⟨ref, hk⟩ := Option.ne_none_iff_exists'.mp fun hn =>
    hlink (Option.isNone_iff_eq_none.mpr hn)
  obtain ⟨r, hr, hok⟩ := Linking.resolve_linkTarget hk
  exact ⟨r, hr, ref, hok⟩

namespace Resolved

variable {l : Side → Library} {s : Side} {t : CallTarget}

theorem resolve (h : Resolved l) (ht : t ∈ (l s).calls) {r : Side} (hr : t.device = r.id) :
    ∃ ref, (l r).resolve t = .ok ref := by
  obtain ⟨r', hr', hok⟩ := h s t ht
  obtain rfl : r' = r := Side.id_injective (hr'.symm.trans hr)
  exact hok

theorem link_ne_none (h : Resolved l) (ht : t ∈ (l s).calls) : t.link ≠ none := by
  obtain ⟨r, -, ref, hok⟩ := h s t ht
  rw [(Library.link_of_resolve hok).1]
  nofun

end Resolved

namespace Cell

variable {σ : Type}

def library (c : Cell σ) (s : Side) : Library := (c.get s).library

theorem library_relink (c : Cell σ) : c.relink.1.library = fun s => c.relinked (c.library s) := by
  funext s
  rw [library, get_relink]
  rfl

theorem resolved_relink {c : Cell σ} (h : c.relink.2 = []) : Resolved c.relink.1.library := by
  rw [library_relink]
  exact resolved_mapCalls (l := c.library) h

theorem resolved_build {registers : RegisterBank} {first second : Library} {arm : Side → σ}
    (h : (build registers first second arm).2 = []) :
    Resolved (build registers first second arm).1.library :=
  resolved_relink (List.map_eq_nil_iff.mp h)

end Cell

end TeachPendant
