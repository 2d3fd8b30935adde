import TeachPendant.Proofs.Linking.Relinking
import TeachPendant.Proofs.Saved.Expression

namespace TeachPendant

open Number Document

/-- The document of one case. -/
def SelectCase.document : SelectCase → Document
  | .mk value body => .object [("value", value.toDocument), ("body", body.toDocument)]

theorem caseDocuments_eq (cases : List SelectCase) :
    caseDocuments cases = cases.map SelectCase.document := by
  induction cases with
  | nil => rfl
  | cons c cases ih =>
    obtain ⟨value, body⟩ := c
    rw [caseDocuments, ih, List.map_cons, SelectCase.document]

namespace Passage

variable {w : Passage}

theorem optionalField?_ofOption {α : Type} {read : Document → Option α} {write : α → Document}
    {o : Option α} (hn : ∀ x, w.image (write x) ≠ .null)
    (h : ∀ x ∈ o, read (w.image (write x)) = some x) :
    optionalField? read (some (w.image (ofOption write o))) = some o := by
  cases o with
  | none =>
    rw [ofOption, w.null]
    rfl
  | some x =>
    rw [optionalField?, ofOption, optional?]
    · rw [h x rfl]
      rfl
    · exact hn x

end Passage

namespace Saved

variable {form : Form} {depth : Nat} {w : Passage}

@[simp] theorem moveKind?_image (k : MoveKind) :
    moveKind? form depth (w.image k.toDocument) = some k := by
  cases k <;>
    simp [moveKind?, MoveKind.toDocument, oneOf?, oneOf?.pick, List.idxOf?_cons, noContentIn,
      noContent]

@[simp] theorem frameKind?_image (k : FrameKind) :
    frameKind? form depth (w.image k.toDocument) = some k := by
  cases k <;>
    simp [frameKind?, FrameKind.toDocument, oneOf?, oneOf?.pick, List.idxOf?_cons, noContentIn,
      noContent]

theorem positionRef?_image {r : PositionRef} (h : r.toDocument.holds depth = true) :
    positionRef? form depth (w.image r.toDocument) = some r := by
  cases r with
  | taught _ | register _ =>
    rw [PositionRef.toDocument] at h ⊢
    obtain ⟨n, rfl, -⟩ := holds_tagged.mp h
    simp [positionRef?, List.idxOf?_cons]

theorem registerTarget?_image {t : RegisterTarget} (h : t.toDocument.holds depth = true) :
    registerTarget? form depth (w.image t.toDocument) = some t := by
  cases t with
  | component i c =>
    rw [RegisterTarget.toDocument] at h ⊢
    obtain ⟨n, rfl, hl⟩ := holds_tagged.mp h
    obtain ⟨m, rfl, -⟩ := holds_list.mp hl
    simp [registerTarget?, List.idxOf?_cons]
  | data _ | io _ | position _ =>
    rw [RegisterTarget.toDocument] at h ⊢
    obtain ⟨n, rfl, -⟩ := holds_tagged.mp h
    simp [registerTarget?, List.idxOf?_cons]

theorem optionalPositionRef?_image {o : Option PositionRef}
    (h : (ofOption PositionRef.toDocument o).holds depth = true) :
    optionalField? (positionRef? form depth)
      (some (w.image (ofOption PositionRef.toDocument o))) = some o := by
  refine Passage.optionalField?_ofOption (fun r => ?_) fun r hr => ?_
  · cases r <;> exact Passage.image_tagged_ne_null _ _
  · rw [hr] at h
    exact positionRef?_image h

theorem motion?_image {m : Motion} (h : m.toDocument.holds depth = true) :
    motion? form depth (w.image m.toDocument) = w.pass [m.speed] m := by
  obtain ⟨n, rfl, hf⟩ := holds_object.mp h
  simp only [List.forall_mem_cons] at hf
  obtain ⟨-, ht, -, -, -, -, ho, hv, -⟩ := hf
  rw [motion?, Motion.toDocument, w.fields?_object (by simp)]
  simp [List.lookup_cons, positionRef?_image ht, optionalPositionRef?_image ho,
    optionalPositionRef?_image hv, Passage.number?_single]

theorem callTarget?_image {t : CallTarget} (h : t.toDocument.holds depth = true) :
    callTarget? depth (w.image t.toDocument) = some t.unlinked := by
  obtain ⟨n, rfl, -⟩ := holds_object.mp h
  rw [callTarget?, CallTarget.toDocument, w.fields?_object (by simp)]
  simp [List.lookup_cons, text?, CallTarget.unlinked]

theorem selectFrame?_image {k : FrameKind} {i : UInt64} :
    selectFrame? form (depth + 1) (w.image (.object [("kind", k.toDocument), ("index", .word i)])) =
      some (.selectFrame k i) := by
  rw [selectFrame?, w.fields?_object (by simp)]
  simp [List.lookup_cons]

theorem setIo?_image {i : UInt64} {state : Bool} :
    setIo? (depth + 1) (w.image (.object [("register", .word i), ("state", .bool state)])) =
      some (.setIo i state) := by
  rw [setIo?, w.fields?_object (by simp)]
  simp [List.lookup_cons, bool?]

theorem assign?_image {t : RegisterTarget} {e : Sequence}
    (h : (object [("target", t.toDocument), ("expression", e.toDocument)]).holds depth = true) :
    assign? form depth (w.image (.object [("target", t.toDocument), ("expression", e.toDocument)])) =
      w.pass (tokenNumbers e) (.assign t e) := by
  obtain ⟨n, rfl, hf⟩ := holds_object.mp h
  simp only [List.forall_mem_cons] at hf
  obtain ⟨ht, he, -⟩ := hf
  rw [assign?, w.fields?_object (by simp)]
  simp [List.lookup_cons, registerTarget?_image ht, sequence?_image he]

/-- An instruction that is read back, unlinked, wherever the reader gets to the bottom of its
document. -/
def ReadsInstruction (w : Passage) (i : Instruction) : Prop :=
  ∀ (form : Form) (depth : Nat), i.toDocument.holds depth = true →
    instruction? form depth (w.image i.toDocument) = w.pass i.numbers (i.mapCalls .unlinked)

theorem ifThen?_image {condition : Expression} {body : Instruction} (hb : ReadsInstruction w body)
    (h : (object [("condition", condition.toDocument),
      ("body", body.toDocument)]).holds depth = true) :
    ifThen? form depth
        (w.image (.object [("condition", condition.toDocument), ("body", body.toDocument)])) =
      w.pass (condition.numbers ++ body.numbers) (.ifThen condition (body.mapCalls .unlinked)) := by
  obtain ⟨n, rfl, hf⟩ := holds_object.mp h
  simp only [List.forall_mem_cons] at hf
  obtain ⟨hc, hd, -⟩ := hf
  rw [ifThen?, w.fields?_object (by simp)]
  simp [List.lookup_cons, expression?_image hc, hb form n hd]

theorem selectCase?_image {c : SelectCase}
    (hb : ∀ value body, c = .mk value body → ReadsInstruction w body)
    (h : c.document.holds depth = true) :
    selectCase? form depth (w.image c.document) = w.pass c.numbers (c.mapCalls .unlinked) := by
  obtain ⟨value, body⟩ := c
  obtain ⟨n, rfl, hf⟩ := holds_object.mp h
  simp only [List.forall_mem_cons] at hf
  obtain ⟨hv, hd, -⟩ := hf
  rw [selectCase?, SelectCase.document, w.fields?_object (by simp)]
  simp [List.lookup_cons, operand?_image hv, hb value body rfl form n hd, SelectCase.mapCalls,
    SelectCase.numbers]

theorem select?_image {argument : Operand} {cases : List SelectCase}
    (hb : ∀ value body, .mk value body ∈ cases → ReadsInstruction w body)
    (h : (object [("argument", argument.toDocument),
      ("cases", .list (caseDocuments cases))]).holds depth = true) :
    select? form depth (w.image (.object [("argument", argument.toDocument),
      ("cases", .list (caseDocuments cases))])) =
        w.pass (argument.numbers ++ caseNumbers cases)
          (.select argument (Instruction.mapCaseCalls .unlinked cases)) := by
  rw [caseDocuments_eq] at h ⊢
  obtain ⟨n, rfl, hf⟩ := holds_object.mp h
  simp only [List.forall_mem_cons] at hf
  obtain ⟨ha, hl, -⟩ := hf
  obtain ⟨m, rfl, hc⟩ := holds_list.mp hl
  have hm : (cases.map fun c => w.image c.document).mapM (selectCase? form m) =
      w.pass (cases.flatMap SelectCase.numbers) (cases.map (SelectCase.mapCalls .unlinked)) := by
    refine Passage.mapM_pass fun c hcm => selectCase?_image ?_ (hc _ (List.mem_map_of_mem hcm))
    rintro value body rfl
    exact hb value body hcm
  rw [select?, w.fields?_object (by simp), Instruction.mapCaseCalls_eq, caseNumbers_eq]
  simp [List.lookup_cons, w.list, operand?_image ha, Function.comp_def, hm]

/-- What is read of an instruction follows from what is read of its action. -/
theorem readsInstruction_of_action {action : Action} {commented : Bool}
    (h : ∀ (form : Form) (depth : Nat), action.toDocument.holds depth = true →
      action? form depth (w.image action.toDocument) =
        w.pass action.numbers (Instruction.mapActionCalls .unlinked action)) :
    ReadsInstruction w (.mk action commented) := by
  intro form depth hd
  rw [Instruction.toDocument] at hd ⊢
  obtain ⟨n, rfl, hf⟩ := holds_object.mp hd
  simp only [List.forall_mem_cons] at hf
  rw [instruction?, w.fields?_object (by simp)]
  simp [List.lookup_cons, h form n hf.1, bool?, Instruction.mapCalls, Instruction.numbers]

theorem readsInstruction (w : Passage) (i : Instruction) : ReadsInstruction w i := by
  induction i using Instruction.induction with
  | single action commented hi hs =>
    refine readsInstruction_of_action fun form depth h => ?_
    cases action with
    | blank =>
      cases depth <;>
        simp [action?, Action.toDocument, actionTags, List.idxOf?_cons, noContent,
          Instruction.mapActionCalls, Action.numbers]
    | ifThen condition body => exact absurd rfl (hi condition body)
    | select argument cases => exact absurd rfl (hs argument cases)
    | motion m =>
      rw [Action.toDocument] at h ⊢
      obtain ⟨n, rfl, hx⟩ := holds_tagged.mp h
      simp [action?, actionTags, List.idxOf?_cons, motion?_image hx, Instruction.mapActionCalls,
        Action.numbers]
    | selectFrame kind index =>
      rw [Action.toDocument] at h ⊢
      obtain ⟨n, rfl, hx⟩ := holds_tagged.mp h
      obtain ⟨m, rfl, -⟩ := holds_object.mp hx
      simp [action?, actionTags, List.idxOf?_cons, selectFrame?_image, Instruction.mapActionCalls,
        Action.numbers]
    | setIo register state =>
      rw [Action.toDocument] at h ⊢
      obtain ⟨n, rfl, hx⟩ := holds_tagged.mp h
      obtain ⟨m, rfl, -⟩ := holds_object.mp hx
      simp [action?, actionTags, List.idxOf?_cons, setIo?_image, Instruction.mapActionCalls,
        Action.numbers]
    | label number | jump number =>
      rw [Action.toDocument] at h ⊢
      obtain ⟨n, rfl, -⟩ := holds_tagged.mp h
      simp [action?, actionTags, List.idxOf?_cons, Instruction.mapActionCalls, Action.numbers]
    | call target =>
      rw [Action.toDocument] at h ⊢
      obtain ⟨n, rfl, hx⟩ := holds_tagged.mp h
      simp [action?, actionTags, List.idxOf?_cons, callTarget?_image hx,
        Instruction.mapActionCalls, Action.numbers]
    | assign target expression =>
      rw [Action.toDocument] at h ⊢
      obtain ⟨n, rfl, hx⟩ := holds_tagged.mp h
      simp [action?, actionTags, List.idxOf?_cons, assign?_image hx, Instruction.mapActionCalls,
        Action.numbers]
  | ifThen condition body commented hb =>
    refine readsInstruction_of_action fun form depth h => ?_
    rw [Action.toDocument] at h ⊢
    obtain ⟨n, rfl, hx⟩ := holds_tagged.mp h
    simp [action?, actionTags, List.idxOf?_cons, ifThen?_image hb hx, Instruction.mapActionCalls,
      Action.numbers]
  | select argument cases commented hb =>
    refine readsInstruction_of_action fun form depth h => ?_
    rw [Action.toDocument] at h ⊢
    obtain ⟨n, rfl, hx⟩ := holds_tagged.mp h
    simp [action?, actionTags, List.idxOf?_cons, select?_image hb hx, Instruction.mapActionCalls,
      Action.numbers]

end Saved

@[simp] theorem MoveKind.plain_toDocument (k : MoveKind) : k.toDocument.Plain := by
  cases k <;> simp [toDocument]

@[simp] theorem FrameKind.plain_toDocument (k : FrameKind) : k.toDocument.Plain := by
  cases k <;> simp [toDocument]

@[simp] theorem PositionRef.plain_toDocument (r : PositionRef) : r.toDocument.Plain := by
  cases r <;> simp [toDocument]

@[simp] theorem RegisterTarget.plain_toDocument (t : RegisterTarget) : t.toDocument.Plain := by
  cases t <;> simp [toDocument]

@[simp] theorem Motion.plain_toDocument (m : Motion) : m.toDocument.Plain := by
  simp [toDocument]

@[simp] theorem CallTarget.plain_toDocument (t : CallTarget) : t.toDocument.Plain := by
  simp [toDocument]

theorem SelectCase.plain_document {c : SelectCase}
    (h : ∀ value body, c = .mk value body → body.toDocument.Plain) : c.document.Plain := by
  obtain ⟨value, body⟩ := c
  simp [document, h value body rfl]

@[simp] theorem Instruction.plain_toDocument (i : Instruction) : i.toDocument.Plain := by
  induction i using Instruction.induction with
  | single action commented hi hs =>
    cases action with
    | ifThen condition body => exact absurd rfl (hi condition body)
    | select argument cases => exact absurd rfl (hs argument cases)
    | _ => simp [Instruction.toDocument, Action.toDocument]
  | ifThen condition body commented hb =>
    simp [Instruction.toDocument, Action.toDocument, hb]
  | select argument cases commented hb =>
    have hc : ∀ c ∈ cases, c.document.Plain := by
      intro c hm
      refine SelectCase.plain_document ?_
      rintro value body rfl
      exact hb value body hm
    simpa [Instruction.toDocument, Action.toDocument, caseDocuments_eq] using hc

end TeachPendant
