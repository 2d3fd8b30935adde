import TeachPendant.Proofs.Saved.Snapshot

namespace TeachPendant

open Number Document

theorem exists_of_mapM {α β : Type} {f : α → Option β} {l : List α} {ys : List β}
    (h : l.mapM f = some ys) : ∀ x ∈ l, ∃ y, f x = some y := by
  induction l generalizing ys with
  | nil => exact fun x hx => absurd hx List.not_mem_nil
  | cons a l ih =>
    simp only [List.mapM_cons, Option.bind_eq_bind, Option.bind_eq_some_iff] at h
    obtain ⟨y, hy, zs, hzs, -⟩ := h
    exact List.forall_mem_cons.mpr ⟨⟨y, hy⟩, ih hzs⟩

namespace Document

variable {depth : Nat}

@[simp] theorem holds_null : null.holds depth = true := by cases depth <;> rfl

@[simp] theorem holds_bool {b : Bool} : (bool b).holds depth = true := by cases depth <;> rfl

@[simp] theorem holds_natural {n : Nat} : (natural n).holds depth = true := by cases depth <;> rfl

@[simp] theorem holds_word {i : UInt64} : (word i).holds depth = true := by cases depth <;> rfl

@[simp] theorem holds_integer {z : Int} : (integer z).holds depth = true := by
  cases depth <;> rfl

@[simp] theorem holds_single {x : Single} : (single x).holds depth = true := by cases depth <;> rfl

@[simp] theorem holds_text {s : String} : (text s).holds depth = true := by cases depth <;> rfl

end Document

namespace Passage

variable {w : Passage} {α β : Type} {read : Nat → Document → Option β} {form : Form} {depth : Nat}

/-- A document that is read only where the reader may go as deep as it nests. -/
def ReadWhole (w : Passage) (read : Nat → Document → Option β) (d : Document) : Prop :=
  ∀ depth b, read depth (w.image d) = some b → d.holds depth = true

theorem readWhole_leaf {d : Document} (h : ∀ {depth}, d.holds depth = true)
    (read : Document → Option β) : w.ReadWhole (fun _ => read) d := fun _ _ _ => h

theorem ReadWhole.map {d : Document} (h : w.ReadWhole read d) (f : β → α) :
    w.ReadWhole (fun depth d => (read depth d).map f) d := by
  intro depth a ha
  obtain ⟨b, hb, -⟩ := Option.map_eq_some_iff.mp ha
  exact h depth b hb

/-- One alternative, which the reader `outer` reads with `inner` a level down. -/
theorem ReadWhole.tagged {outer inner : Nat → Document → Option β} {tag : String} {d : Document}
    (h : w.ReadWhole inner d) (top : outer 0 (w.image (.tagged tag d)) = none)
    (under : ∀ n, outer (n + 1) (w.image (.tagged tag d)) = inner n (w.image d)) :
    w.ReadWhole outer (.tagged tag d) := by
  intro depth b hb
  cases depth with
  | zero =>
    rw [top] at hb
    cases hb
  | succ n => exact holds_tagged.mpr ⟨n, rfl, h n b ((under n).symm.trans hb)⟩

/-- A structure, whose fields are read a level down. -/
theorem readWhole_object {fs : List (String × Document)} (top : read 0 (w.image (object fs)) = none)
    (under : ∀ n b, read (n + 1) (w.image (object fs)) = some b → ∀ f ∈ fs, f.2.holds n = true) :
    w.ReadWhole read (object fs) := by
  intro depth b hb
  cases depth with
  | zero =>
    rw [top] at hb
    cases hb
  | succ n => exact holds_object.mpr ⟨n, rfl, under n b hb⟩

theorem readWhole_list {write : α → Document} {l : List α}
    (h : ∀ x ∈ l, w.ReadWhole read (write x)) :
    w.ReadWhole (listOf? read) (.list (l.map write)) := by
  intro depth b hb
  rw [w.list, List.map_map] at hb
  cases depth with
  | zero => cases hb
  | succ n =>
    refine holds_list.mpr ⟨n, rfl, List.forall_mem_map.mpr fun x hx => ?_⟩
    obtain ⟨y, hy⟩ := exists_of_mapM hb _ (List.mem_map_of_mem hx)
    exact h x hx n y hy

theorem readWhole_triple (x y z : Single) :
    w.ReadWhole Point.triple? (.list [.single x, .single y, .single z]) := by
  intro depth b hb
  cases depth with
  | zero =>
    rw [w.list] at hb
    cases hb
  | succ n => exact holds_list.mpr ⟨n, rfl, by simp⟩

theorem readWhole_point (p : Point) : w.ReadWhole Point.ofDocument? p.toDocument := by
  refine readWhole_object rfl fun n b hb => ?_
  rw [Point.ofDocument?, w.fields?_written (by rfl) (by decide)] at hb
  simp only [List.map_cons, List.map_nil, Option.bind_eq_bind, Option.bind_eq_some_iff] at hb
  obtain ⟨_, hp, _, ho, -⟩ := hb
  simp [readWhole_triple _ _ _ n _ hp, readWhole_triple _ _ _ n _ ho]

end Passage

theorem Operand.toDocument_eq (o : Operand) :
    o.toDocument = .text "0" ∨ ∃ tag d, o.toDocument = .tagged tag d := by
  cases o with
  | blank => exact .inl rfl
  | nested e =>
    cases e with
    | tree l op r => exact .inr ⟨_, _, tree_toDocument l op r⟩
    | sequence ts => exact .inr ⟨_, _, sequence_toDocument ts⟩
  | _ => exact .inr ⟨_, _, rfl⟩

namespace Saved

open Passage

variable {w : Passage} {form : Form}

/-- The whole of an operand is looked at before it is read. -/
theorem readWhole_operand (o : Operand) : w.ReadWhole operand? o.toDocument := by
  intro depth b hb
  cases depth with
  | zero =>
    obtain h | ⟨tag, d, h⟩ := o.toDocument_eq
    · simp [h]
    · rw [operand?, h, w.choice?_tagged] at hb
      cases operandTags.idxOf? tag <;> simp at hb
  | succ n =>
    rw [operand?] at hb
    split at hb
    · next hd => rwa [w.level_operand o] at hd
    · cases hb

theorem readWhole_tree {l r : Operand} {op : Operator} :
    w.ReadWhole tree? (treeDocument l op r) := by
  refine readWhole_object rfl fun n b hb => ?_
  rw [tree?, w.fields?_written (by rfl) (by decide)] at hb
  simp only [List.map_cons, List.map_nil, Option.bind_eq_bind, Option.bind_eq_some_iff] at hb
  obtain ⟨_, hl, _, -, _, hr, -⟩ := hb
  simp [readWhole_operand l n _ hl, readWhole_operand r n _ hr, Operator.toDocument]

theorem readWhole_token (t : Token) : w.ReadWhole (token? form) t.toDocument := by
  cases t with
  | operand o =>
    exact ((readWhole_operand o).map .operand).tagged rfl
      fun n => by simp [token?, tokenTags, List.idxOf?_cons]
  | operator op =>
    exact ((readWhole_leaf holds_integer Operator.ofDocument?).map .operator).tagged rfl
      fun n => by simp [token?, tokenTags, List.idxOf?_cons]

theorem readWhole_sequence (form : Form) (ts : Sequence) :
    w.ReadWhole (sequence? form) ts.toDocument := by
  refine readWhole_object rfl fun n b hb => List.forall_mem_singleton.mpr ?_
  rw [tokenDocuments_eq] at hb ⊢
  cases n with
  | zero => cases hb
  | succ m =>
    rw [sequence?, w.fields?_written (by rfl) (by decide)] at hb
    simp only [List.map_cons, List.map_nil, w.list] at hb
    have hread : listOf? (token? form) (m + 1) (w.image (.list (ts.map Token.toDocument))) =
        some b := by
      rw [w.list]
      exact hb
    exact readWhole_list (fun t _ => readWhole_token t) (m + 1) b hread

theorem readWhole_expression (e : Expression) : w.ReadWhole (expression? form) e.toDocument := by
  cases e with
  | tree l op r =>
    rw [tree_toDocument]
    exact (readWhole_tree.map fun t => .tree t.1 t.2.1 t.2.2).tagged rfl
      fun n => by simp [expression?, expressionTags, List.idxOf?_cons]
  | sequence ts =>
    rw [sequence_toDocument]
    exact ((readWhole_sequence form ts).map .sequence).tagged rfl
      fun n => by simp [expression?, expressionTags, List.idxOf?_cons]

theorem readWhole_positionRef (r : PositionRef) : w.ReadWhole (positionRef? form) r.toDocument := by
  cases r with
  | taught slot =>
    exact ((readWhole_leaf holds_word word?).map .taught).tagged rfl
      fun n => by simp [positionRef?, List.idxOf?_cons]
  | register index =>
    exact ((readWhole_leaf holds_word word?).map .register).tagged rfl
      fun n => by simp [positionRef?, List.idxOf?_cons]

theorem readWhole_optionalPositionRef (o : Option PositionRef) :
    w.ReadWhole (fun depth d => optionalField? (positionRef? form depth) (some d))
      (ofOption PositionRef.toDocument o) := by
  intro depth b hb
  cases o with
  | none => exact holds_null
  | some r =>
    have hn : w.image r.toDocument ≠ .null := by
      cases r <;> exact image_tagged_ne_null _ _
    have hr : optionalField? (positionRef? form depth) (some (w.image r.toDocument)) =
        (positionRef? form depth (w.image r.toDocument)).map some := by
      rw [optionalField?, optional?]
      exact hn
    obtain ⟨_, hb, -⟩ := Option.map_eq_some_iff.mp (hr.symm.trans hb)
    exact readWhole_positionRef r depth _ hb

theorem readWhole_registerTarget (t : RegisterTarget) :
    w.ReadWhole (registerTarget? form) t.toDocument := by
  intro depth b hb
  cases depth with
  | zero => cases hb
  | succ n =>
    cases t with
    | data i | io i | position i => exact holds_tagged.mpr ⟨n, rfl, holds_word⟩
    | component i c =>
      cases n with
      | zero => simp [registerTarget?, RegisterTarget.toDocument, List.idxOf?_cons] at hb
      | succ m => exact holds_tagged.mpr ⟨_, rfl, holds_list.mpr ⟨m, rfl, by simp⟩⟩

theorem holds_moveKind {depth : Nat} (k : MoveKind) : k.toDocument.holds depth = true := by
  cases k <;> exact holds_text

theorem holds_frameKind {depth : Nat} (k : FrameKind) : k.toDocument.holds depth = true := by
  cases k <;> exact holds_text

theorem readWhole_motion (form : Form) (m : Motion) :
    w.ReadWhole (motion? form) m.toDocument := by
  refine readWhole_object rfl fun n b hb => ?_
  rw [motion?, w.fields?_written (by rfl) (by decide)] at hb
  simp only [List.map_cons, List.map_nil, Option.bind_eq_bind, Option.bind_eq_some_iff] at hb
  obtain ⟨_, -, _, ht, _, -, _, -, _, -, _, -, _, ho, _, hv, -⟩ := hb
  simp [holds_moveKind, readWhole_positionRef m.target n _ ht,
    readWhole_optionalPositionRef m.offset n _ ho, readWhole_optionalPositionRef m.via n _ hv]

theorem readWhole_callTarget (t : CallTarget) : w.ReadWhole callTarget? t.toDocument :=
  readWhole_object rfl fun _ _ _ => by simp

theorem readWhole_selectFrame (form : Form) (k : FrameKind) (i : UInt64) :
    w.ReadWhole (selectFrame? form) (object [("kind", k.toDocument), ("index", .word i)]) :=
  readWhole_object rfl fun _ _ _ => by simp [holds_frameKind]

theorem readWhole_setIo (i : UInt64) (state : Bool) :
    w.ReadWhole setIo? (object [("register", .word i), ("state", .bool state)]) :=
  readWhole_object rfl fun _ _ _ => by simp

theorem readWhole_assign (form : Form) (t : RegisterTarget) (e : Sequence) :
    w.ReadWhole (assign? form) (object [("target", t.toDocument), ("expression", e.toDocument)]) := by
  refine readWhole_object rfl fun n b hb => ?_
  rw [assign?, w.fields?_written (by rfl) (by decide)] at hb
  simp only [List.map_cons, List.map_nil, Option.bind_eq_bind, Option.bind_eq_some_iff] at hb
  obtain ⟨_, ht, _, he, -⟩ := hb
  simp [readWhole_registerTarget t n _ ht, readWhole_sequence form e n _ he]

section

variable {condition : Expression} {body : Instruction} {argument : Operand} {c : SelectCase}
  {cases : List SelectCase} {action : Action} {commented : Bool}

theorem readWhole_ifThen (hb : w.ReadWhole (instruction? form) body.toDocument) :
    w.ReadWhole (ifThen? form)
      (object [("condition", condition.toDocument), ("body", body.toDocument)]) := by
  refine readWhole_object rfl fun n b h => ?_
  rw [ifThen?, w.fields?_written (by rfl) (by decide)] at h
  simp only [List.map_cons, List.map_nil, Option.bind_eq_bind, Option.bind_eq_some_iff] at h
  obtain ⟨_, hc, _, hi, -⟩ := h
  simp [readWhole_expression condition n _ hc, hb n _ hi]

theorem readWhole_selectCase
    (hb : ∀ value body, c = .mk value body → w.ReadWhole (instruction? form) body.toDocument) :
    w.ReadWhole (selectCase? form) c.document := by
  obtain ⟨value, body⟩ := c
  refine readWhole_object rfl fun n b h => ?_
  rw [selectCase?, w.fields?_written (by rfl) (by decide)] at h
  simp only [List.map_cons, List.map_nil, Option.bind_eq_bind, Option.bind_eq_some_iff] at h
  obtain ⟨_, hv, _, hi, -⟩ := h
  simp [readWhole_operand value n _ hv, hb value body rfl n _ hi]

theorem readWhole_select
    (hb : ∀ value body, .mk value body ∈ cases → w.ReadWhole (instruction? form) body.toDocument) :
    w.ReadWhole (select? form)
      (object [("argument", argument.toDocument), ("cases", .list (caseDocuments cases))]) := by
  have hcase (c : SelectCase) (hm : c ∈ cases) : w.ReadWhole (selectCase? form) c.document := by
    refine readWhole_selectCase ?_
    rintro value body rfl
    exact hb value body hm
  refine readWhole_object rfl fun n b h => ?_
  rw [caseDocuments_eq] at h ⊢
  cases n with
  | zero => cases h
  | succ m =>
    rw [select?, w.fields?_written (by rfl) (by decide)] at h
    simp only [List.map_cons, List.map_nil, w.list, Option.bind_eq_bind,
      Option.bind_eq_some_iff] at h
    obtain ⟨_, ha, cs, hc, -⟩ := h
    have hread : listOf? (selectCase? form) (m + 1)
        (w.image (.list (cases.map SelectCase.document))) = some cs := by
      rw [w.list]
      exact hc
    simp [readWhole_operand argument (m + 1) _ ha, readWhole_list hcase (m + 1) cs hread]

/-- An instruction is read whole if its action is. -/
theorem readWhole_of_action (h : w.ReadWhole (action? form) action.toDocument) :
    w.ReadWhole (instruction? form) (Instruction.mk action commented).toDocument := by
  refine readWhole_object rfl fun n b hb => ?_
  rw [instruction?, w.fields?_written (by rfl) (by decide)] at hb
  simp only [List.map_cons, List.map_nil, Option.bind_eq_bind, Option.bind_eq_some_iff] at hb
  obtain ⟨_, ha, -⟩ := hb
  simp [h n _ ha]

end

/-- No action under a tag is read where the reader may go no deeper. -/
@[simp] theorem action?_zero_tagged (tag : String) (d : Document) :
    action? form 0 (w.image (.tagged tag d)) = none := by
  rw [action?, w.choice?_tagged]
  cases actionTags.idxOf? tag <;> simp

theorem readWhole_instruction (i : Instruction) :
    w.ReadWhole (instruction? form) i.toDocument := by
  induction i using Instruction.induction with
  | single action commented hi hs =>
    refine readWhole_of_action ?_
    cases action with
    | blank => exact fun _ _ _ => holds_text
    | ifThen condition body => exact absurd rfl (hi condition body)
    | select argument cases => exact absurd rfl (hs argument cases)
    | motion m =>
      exact ((readWhole_motion form m).map .motion).tagged (action?_zero_tagged _ _)
        fun n => by simp [action?, actionTags, List.idxOf?_cons]
    | selectFrame kind index =>
      exact (readWhole_selectFrame form kind index).tagged (action?_zero_tagged _ _)
        fun n => by simp [action?, actionTags, List.idxOf?_cons]
    | setIo register state =>
      exact (readWhole_setIo register state).tagged (action?_zero_tagged _ _)
        fun n => by simp [action?, actionTags, List.idxOf?_cons]
    | label number =>
      exact ((readWhole_leaf holds_natural halfWord?).map .label).tagged (action?_zero_tagged _ _)
        fun n => by simp [action?, actionTags, List.idxOf?_cons]
    | jump number =>
      exact ((readWhole_leaf holds_natural halfWord?).map .jump).tagged (action?_zero_tagged _ _)
        fun n => by simp [action?, actionTags, List.idxOf?_cons]
    | call target =>
      exact ((readWhole_callTarget target).map .call).tagged (action?_zero_tagged _ _)
        fun n => by simp [action?, actionTags, List.idxOf?_cons]
    | assign target expression =>
      exact (readWhole_assign form target expression).tagged (action?_zero_tagged _ _)
        fun n => by simp [action?, actionTags, List.idxOf?_cons]
  | ifThen condition body commented hb =>
    refine readWhole_of_action ((readWhole_ifThen hb).tagged (action?_zero_tagged _ _) fun n => ?_)
    simp [action?, actionTags, List.idxOf?_cons]
  | select argument cases commented hb =>
    refine readWhole_of_action ((readWhole_select hb).tagged (action?_zero_tagged _ _) fun n => ?_)
    simp [action?, actionTags, List.idxOf?_cons]

theorem readWhole_points (t : PositionTable) : w.ReadWhole points? t.pointsDocument := by
  intro depth b hb
  rw [PositionTable.pointsDocument] at hb ⊢
  rw [w.record] at hb
  cases depth with
  | zero => cases hb
  | succ n =>
    rw [points?, List.map_map] at hb
    rw [holds, List.all_map, List.all_eq_true]
    intro e he
    obtain ⟨_, hp⟩ := exists_of_mapM hb _ (List.mem_map_of_mem he)
    simp only [Function.comp_apply, Option.bind_eq_bind, Option.bind_eq_some_iff] at hp
    obtain ⟨_, -, _, hp, -⟩ := hp
    simpa using readWhole_point e.2 n _ hp

theorem readWhole_program (p : Program) : w.ReadWhole (program? form) p.toDocument := by
  refine readWhole_object rfl fun n b hb => ?_
  rw [program?, w.fields?_written (by rfl) (by decide)] at hb
  simp only [List.map_cons, List.map_nil, Option.bind_eq_bind, Option.bind_eq_some_iff] at hb
  obtain ⟨_, -, is, hi, _, hp, -⟩ := hb
  have hl : (Document.list (p.lines.map fun l => l.instruction.toDocument)).holds n = true :=
    readWhole_list (fun l _ => readWhole_instruction l.instruction) n is hi
  simp [hl, readWhole_points p.positions n _ hp]

theorem readWhole_library (l : Library) : w.ReadWhole (library? form) l.toDocument := by
  refine readWhole_object rfl fun n b hb => List.forall_mem_singleton.mpr ?_
  rw [library?, w.fields?_written (by rfl) (by decide)] at hb
  simp only [List.map_cons, List.map_nil, Option.map_eq_some_iff] at hb
  obtain ⟨ps, hp, -⟩ := hb
  exact readWhole_list (fun p _ => readWhole_program p) n ps hp

section

variable {α : Type} {read : Nat → Document → Option α} {write : α → Document}

theorem readWhole_register {r : Register α} (h : w.ReadWhole read (write r.value)) :
    w.ReadWhole (register? read) (r.toDocument write) := by
  obtain ⟨value, comment⟩ := r
  refine readWhole_object rfl fun n b hb => ?_
  by_cases hc : comment.isEmpty = true
  · rw [if_pos hc, register?, w.fields?_object (by simp)] at hb
    simp only [List.map_cons, List.map_nil, List.lookup_cons, List.lookup_nil, BEq.rfl,
      String.reduceBEq, Option.bind_eq_bind, Option.bind_eq_some_iff] at hb
    obtain ⟨_, hv, -⟩ := hb
    simp [hc, h n _ hv]
  · rw [if_neg hc, register?, w.fields?_written (by rfl) (by decide)] at hb
    simp only [List.map_cons, List.map_nil, Option.bind_eq_bind, Option.bind_eq_some_iff] at hb
    obtain ⟨_, hv, -⟩ := hb
    simp [hc, h n _ hv]

theorem readWhole_registers (h : ∀ x, w.ReadWhole read (write x)) (rs : List (Register α)) :
    w.ReadWhole (listOf? (register? read)) (.list (rs.map (Register.toDocument write))) :=
  readWhole_list fun r _ => readWhole_register (h r.value)

end

theorem readWhole_registerBank (bank : RegisterBank) :
    w.ReadWhole registerBank? bank.toDocument := by
  refine readWhole_object rfl fun n b hb => ?_
  rw [registerBank?, w.fields?_written (by rfl) (by decide)] at hb
  simp only [List.map_cons, List.map_nil, Option.bind_eq_bind, Option.bind_eq_some_iff] at hb
  obtain ⟨_, hd, _, hi, _, hp, -⟩ := hb
  have hds := readWhole_registers (fun _ => readWhole_leaf holds_single number?) _ n _ hd
  have his := readWhole_registers (fun _ => readWhole_leaf holds_bool bool?) _ n _ hi
  have hps := readWhole_registers readWhole_point _ n _ hp
  simp [hds, his, hps]

end Saved

theorem Snapshot.readWhole {w : Passage} {form : Form} (s : Snapshot) :
    w.ReadWhole (ofDocument? form) s.toDocument := by
  refine Passage.readWhole_object rfl fun n b hb => ?_
  rw [ofDocument?, w.fields?_written (by rfl) (by decide)] at hb
  simp only [List.map_cons, List.map_nil, Option.bind_eq_bind, Option.bind_eq_some_iff] at hb
  obtain ⟨_, -, _, hr, _, hl, -⟩ := hb
  have hls := Passage.readWhole_list (fun l _ => Saved.readWhole_library l) n _ hl
  simp [Saved.readWhole_registerBank s.registers n _ hr, hls]

end TeachPendant
