import TeachPendant.Log.Writer
import TeachPendant.Proofs.Document.Headers
import TeachPendant.Proofs.Files.Tree

namespace TeachPendant

namespace LogFile

theorem archiveName_injective : Function.Injective archiveName := by
  intro g h heq
  have hrepr : String.ofList (Nat.toDigits 10 g) = String.ofList (Nat.toDigits 10 h) := by
    rw [← Nat.repr_eq_ofList_toDigits, ← Nat.repr_eq_ofList_toDigits]
    exact (String.append_right_inj _).mp heq
  have hdigits : Nat.toDigits 10 g = Nat.toDigits 10 h := String.ofList_injective hrepr
  rw [← Nat.ofDigitChars_ten_toDigits (n := g), hdigits, Nat.ofDigitChars_ten_toDigits]

theorem archiveName_ne_liveName (g : Nat) : archiveName g ≠ liveName := by
  intro h
  have hlength := congrArg String.length h
  rw [archiveName, String.append_assoc, String.length_append, String.length_append] at hlength
  have hdot : ".".length = 1 := rfl
  omega

variable {d : Place} {g h : Nat}

theorem live_ne_nil (d : Place) : live d ≠ [] := List.append_ne_nil_of_right_ne_nil _ (by simp)

theorem archive_ne_nil (d : Place) (g : Nat) : archive d g ≠ [] :=
  List.append_ne_nil_of_right_ne_nil _ (by simp)

theorem archive_inj : archive d g = archive d h ↔ g = h := by
  rw [archive, archive, List.append_cancel_left_eq, List.singleton_inj]
  exact archiveName_injective.eq_iff

theorem archive_ne_live (d : Place) (g : Nat) : archive d g ≠ live d := by
  rw [archive, live, Ne, List.append_cancel_left_eq, List.singleton_inj]
  exact archiveName_ne_liveName g

/-- A place that is neither that of the live file nor that of an archive. -/
def Outside (d p : Place) : Prop := p ≠ live d ∧ ∀ g, p ≠ archive d (g + 1)

theorem outside_of_length_le {p : Place} (hp : p.length ≤ d.length) : Outside d p := by
  have hlonger {q : Place} (hq : q.length = d.length + 1) : p ≠ q := by
    rintro rfl
    omega
  exact ⟨hlonger List.length_append, fun g => hlonger List.length_append⟩

variable {f : Files}

/-- Every archive up to `n` moves up, if there is room for the last of them. -/
theorem node?_shift {n : Nat} (hroom : f.node? (archive d (n + 1)) = none) :
    (shift d n f).node? (archive d 1) = none ∧
      (∀ g, (shift d n f).node? (archive d (g + 2)) =
        f.node? (archive d (if g < n then g + 1 else g + 2))) ∧
      ∀ p, (∀ g, p ≠ archive d (g + 1)) → (shift d n f).node? p = f.node? p := by
  induction n generalizing f with
  | zero => exact ⟨hroom, fun g => rfl, fun p _ => rfl⟩
  | succ n ih =>
    have hmove (p : Place) : (f.move (archive d (n + 1)) (archive d (n + 2))).node? p =
        if p = archive d (n + 2) then f.node? (archive d (n + 1))
        else if p = archive d (n + 1) then none else f.node? p :=
      Files.node?_move (archive_ne_nil d _) (archive_ne_nil d _) hroom
    obtain ⟨hone, hups, hothers⟩ := ih (f := f.move (archive d (n + 1)) (archive d (n + 2))) (by
      rw [hmove, if_neg (mt archive_inj.mp (by omega)), if_pos rfl])
    refine ⟨hone, fun g => ?_, fun p hp => ?_⟩
    · simp only [shift, hups, hmove, archive_inj]
      split_ifs <;> first | omega | rfl | exact congrArg (fun g => f.node? (archive d g)) (by omega)
    · rw [shift, hothers p hp, hmove, if_neg (hp _), if_neg (hp _)]

theorem node?_rotate (d : Place) (n : Nat) (f : Files) :
    (rotate d (n + 1) f).node? (live d) = none ∧
      (rotate d (n + 1) f).node? (archive d 1) = f.node? (live d) ∧
      (∀ g, (rotate d (n + 1) f).node? (archive d (g + 2)) =
        f.node? (archive d (if g < n then g + 1 else g + 2))) ∧
      ∀ p, Outside d p → (rotate d (n + 1) f).node? p = f.node? p := by
  have hremove (p : Place) : (f.remove (archive d (n + 1))).node? p =
      if p = archive d (n + 1) then none else f.node? p := f.node?_remove (archive_ne_nil d _) p
  obtain ⟨hone, hups, hothers⟩ := node?_shift (f := f.remove (archive d (n + 1))) (d := d) (n := n)
    (by rw [hremove, if_pos rfl])
  have hmove (p : Place) : (rotate d (n + 1) f).node? p =
      if p = archive d 1 then f.node? (live d) else if p = live d then none
      else (shift d n (f.remove (archive d (n + 1)))).node? p := by
    have hlive := hothers (live d) fun g => (archive_ne_live d (g + 1)).symm
    rw [hremove, if_neg (archive_ne_live d _).symm] at hlive
    rw [← hlive]
    exact Files.node?_move (live_ne_nil d) (archive_ne_nil d _) hone
  refine ⟨?_, ?_, fun g => ?_, fun p hp => ?_⟩
  · rw [hmove, if_neg (archive_ne_live d _).symm, if_pos rfl]
  · rw [hmove, if_pos rfl]
  · rw [hmove, if_neg (mt archive_inj.mp (by omega)), if_neg (archive_ne_live d _), hups, hremove,
      if_neg (mt archive_inj.mp (by split_ifs <;> omega))]
  · rw [hmove, if_neg (hp.2 _), if_neg hp.1, hothers p hp.2, hremove, if_neg (hp.2 _)]

theorem node?_rotate_of_outside {p : Place} (hp : Outside d p) (keep : Nat) (f : Files) :
    (rotate d keep f).node? p = f.node? p := by
  cases keep with
  | zero => exact (f.node?_remove (live_ne_nil d) p).trans (if_neg hp.1)
  | succ n => exact (node?_rotate d n f).2.2.2 p hp

end LogFile

theorem Content.size_append (c : Content) (line : String) :
    (c.append line).size = c.size + line.utf8ByteSize := by
  cases c with
  | text s => exact String.utf8ByteSize_append
  | bytes bs =>
    have hline : line.toUTF8.toList.length = line.utf8ByteSize := MessagePack.length_textBytes line
    show (bs ++ line.toUTF8.toList).length = bs.length + line.utf8ByteSize
    rw [List.length_append, hline]

/-- The live file of a log and its archives, the newest first. -/
structure LogFolder where
  live : Option Content := none
  archives : List Content := []

namespace LogFolder

/-- What the live file holds, if only when it has been made. -/
def content (l : LogFolder) : Content := l.live.getD (.text "")

/-- Whether the live file holds something and a further line would not fit. -/
def Full (l : LogFolder) (maxBytes : Nat) (line : String) : Prop :=
  0 < l.content.size ∧ maxBytes < l.content.size + line.utf8ByteSize

instance (l : LogFolder) (maxBytes : Nat) (line : String) : Decidable (l.Full maxBytes line) :=
  inferInstanceAs (Decidable (_ ∧ _))

/-- Archives past the last one that is kept are not touched. -/
def archivesRotated (l : LogFolder) (keep : Nat) : List Content :=
  (l.content :: l.archives).take keep ++ l.archives.drop keep

def write (l : LogFolder) (r : Rotation) (line : String) : LogFolder :=
  if l.Full r.maxBytes line then { live := some (.text line), archives := l.archivesRotated r.keep }
  else { l with live := some (l.content.append line) }

/-- The files of the log are those in the directory; there are no archives but these. -/
structure In (l : LogFolder) (d : Place) (f : Files) : Prop where
  directory : f.IsDirectory d
  live : f.node? (LogFile.live d) = l.live.map .file
  archives : ∀ g, f.node? (LogFile.archive d (g + 1)) = (l.archives[g]?).map .file

variable {l : LogFolder} {d : Place} {f g : Files}

theorem getElem?_archivesRotated (l : LogFolder) (n i : Nat) :
    (l.archivesRotated (n + 1))[i + 1]? = l.archives[if i < n then i else i + 1]? := by
  rw [archivesRotated, List.take_succ_cons, List.cons_append, List.getElem?_cons_succ,
    List.getElem?_append, List.length_take, List.getElem?_take, List.getElem?_drop]
  rcases Nat.lt_or_ge i n with hi | hi
  · rw [if_pos hi]
    split_ifs with hlt
    · rfl
    · rw [List.getElem?_eq_none (by omega), List.getElem?_eq_none (by omega)]
  · rw [if_neg (by omega), if_neg (by omega)]
    rcases Nat.lt_or_ge n l.archives.length with hn | hn
    · exact congrArg (l.archives[·]?) (by omega)
    · rw [List.getElem?_eq_none (by omega), List.getElem?_eq_none (by omega)]

namespace In

/-- Other files make no difference to a log. -/
theorem put (h : l.In d f) (c : Content) :
    In { l with live := some c } d (f.put (LogFile.live d) (.file c)) := by
  have hput (p : Place) := f.node?_put (LogFile.live_ne_nil d) (.file c) p
  refine ⟨h.directory.congr fun q hq => ?_, ?_, fun g => ?_⟩
  · rw [hput, if_neg (LogFile.outside_of_length_le hq).1]
  · rw [hput, if_pos rfl]
    rfl
  · rw [hput, if_neg (LogFile.archive_ne_live d _), h.archives]

theorem rotate (h : l.In d f) (hlive : l.live.isSome) (keep : Nat) :
    In { live := none, archives := l.archivesRotated keep } d (LogFile.rotate d keep f) := by
  obtain ⟨c, hc⟩ := Option.isSome_iff_exists.mp hlive
  cases keep with
  | zero =>
    have hremove (p : Place) : (LogFile.rotate d 0 f).node? p =
        if p = LogFile.live d then none else f.node? p := f.node?_remove (LogFile.live_ne_nil d) p
    refine ⟨h.directory.congr fun q hq => ?_, ?_, fun g => ?_⟩
    · rw [hremove, if_neg (LogFile.outside_of_length_le hq).1]
    · rw [hremove, if_pos rfl]
      rfl
    · rw [hremove, if_neg (LogFile.archive_ne_live d _), h.archives]
      rfl
  | succ n =>
    obtain ⟨hgone, hone, hups, hothers⟩ := LogFile.node?_rotate d n f
    refine ⟨h.directory.congr fun q hq => hothers q (LogFile.outside_of_length_le hq), hgone,
      fun g => ?_⟩
    cases g with
    | zero =>
      rw [hone, h.live, hc]
      show _ = some (Node.file l.content)
      rw [content, hc]
      rfl
    | succ i =>
      rw [hups, getElem?_archivesRotated, show (if i < n then i + 1 else i + 2) =
        (if i < n then i else i + 1) + 1 by split_ifs <;> rfl, h.archives]

end In

end LogFolder

end TeachPendant
