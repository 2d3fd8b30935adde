import TeachPendant.Proofs.Saved.Numbers
import TeachPendant.Proofs.Saved.Passage

namespace TeachPendant

open Number Document

/-- Induction over an operand and the operands nested in it, in sequences of any shape. -/
theorem Operand.token_induction {P : Operand → Prop} (leaf : ∀ o, (∀ e, o ≠ .nested e) → P o)
    (tree : ∀ l op r, P l → P r → P (.nested (.tree l op r)))
    (sequence : ∀ ts : List Token, (∀ o, .operand o ∈ ts → P o) → P (.nested (.sequence ts)))
    (o : Operand) : P o := by
  induction hn : sizeOf o using Nat.strongRecOn generalizing o with
  | ind n ih =>
    subst hn
    cases o with
    | nested e =>
      cases e with
      | tree l op r =>
        have hs : sizeOf (Operand.nested (.tree l op r)) =
            1 + (1 + sizeOf l + sizeOf op + sizeOf r) := by
          rw [Operand.nested.sizeOf_spec, Expression.tree.sizeOf_spec]
        have hl : P l := ih (sizeOf l) (by omega) l rfl
        have hr : P r := ih (sizeOf r) (by omega) r rfl
        exact tree l op r hl hr
      | sequence ts =>
        have hs : sizeOf (Operand.nested (.sequence ts)) = 1 + (1 + sizeOf ts) := by
          rw [Operand.nested.sizeOf_spec, Expression.sequence.sizeOf_spec]
        refine sequence ts fun o ho => ?_
        have ht := List.sizeOf_lt_of_mem ho
        rw [Token.operand.sizeOf_spec] at ht
        exact ih (sizeOf o) (by omega) o rfl
    | _ => exact leaf _ nofun

theorem tokenDocuments_eq (ts : List Token) : tokenDocuments ts = ts.map Token.toDocument := by
  induction ts with
  | nil => rfl
  | cons t ts ih => rw [tokenDocuments, ih, List.map_cons]

@[simp] theorem Operator.ofDocument?_image (w : Passage) (op : Operator) :
    ofDocument? (w.image op.toDocument) = some op := by
  have hb : op.toDocument.byte? = some op.id := byte?_natural op.id
  have hi : w.image op.toDocument = op.toDocument := w.integer _
  simp [ofDocument?, hi, hb]

theorem tree_toDocument (l : Operand) (op : Operator) (r : Operand) :
    (Expression.tree l op r).toDocument = .tagged "9" (treeDocument l op r) := by
  rw [Expression.toDocument, treeDocument]

theorem sequence_toDocument (ts : Sequence) :
    (Expression.sequence ts).toDocument = .tagged "10" ts.toDocument := by
  rw [Expression.toDocument, Sequence.toDocument]

namespace Passage

variable {w : Passage}

theorem level_operator (op : Operator) : w.Level op.toDocument := level_leaf (w.integer _)

theorem level_point (p : Point) : w.Level p.toDocument := by
  have htriple (x y z : Single) : w.Level (.list [.single x, .single y, .single z]) :=
    level_list (by simp)
  exact level_object (by simp [htriple])

theorem level_operand (o : Operand) : w.Level o.toDocument := by
  induction o using Operand.token_induction with
  | leaf o ho =>
    cases o with
    | blank => exact level_leaf (w.text "0")
    | number x => exact level_tagged (level_single x)
    | flag b => exact level_tagged (level_leaf (w.bool b))
    | data i | io i | position i => exact level_tagged (level_leaf (w.image_word i))
    | component i c => exact level_tagged (level_list (by simp))
    | point p => exact level_tagged (level_point p)
    | pose cartesian => exact level_tagged (level_object (by simp))
    | nested e => exact absurd rfl (ho e)
  | tree l op r hl hr =>
    rw [Operand.toDocument, tree_toDocument]
    exact level_tagged (level_object (by simp [hl, hr, level_operator]))
  | sequence ts hs =>
    have htoken : ∀ t ∈ ts, w.Level t.toDocument := by
      rintro (o | op) hm
      · exact level_tagged (hs o hm)
      · exact level_tagged (level_operator op)
    have htokens : w.Level (.list (tokenDocuments ts)) := by
      rw [tokenDocuments_eq]
      refine level_list fun d hd => ?_
      obtain ⟨t, ht, rfl⟩ := List.mem_map.mp hd
      exact htoken t ht
    rw [Operand.toDocument, sequence_toDocument]
    exact level_tagged (level_object (by simpa using htokens))

end Passage

namespace Saved

variable {depth : Nat} {form : Form} {w : Passage}

@[simp] theorem pair?_words (i c : UInt64) :
    pair? (w.image (.list [.word i, .word c])) = some (i, c) := by
  simp [pair?, w.list]

@[simp] theorem cartesian?_object (b : Bool) :
    cartesian? (w.image (.object [("cartesian", .bool b)])) = some b := by
  rw [cartesian?, w.fields?_object (by simp)]
  simp [bool?]

/-- An operand that is read back wherever the reader gets to the bottom of its document. -/
def ReadsOperand (w : Passage) (o : Operand) : Prop :=
  ∀ depth, o.toDocument.holds depth = true →
    operand? depth (w.image o.toDocument) = w.pass o.numbers o

theorem ReadsOperand.leaf {o : Operand} (ho : ∀ e, o ≠ .nested e) : ReadsOperand w o := by
  intro depth h
  have hi : (w.image o.toDocument).holds depth = true := by rwa [w.level_operand o]
  cases o with
  | blank =>
    cases depth with
    | zero => simp [operand?, Operand.toDocument, operandTags, List.idxOf?_cons, Operand.numbers]
    | succ n =>
      rw [operand?, if_pos hi]
      simp [Operand.toDocument, operandTags, List.idxOf?_cons, noContent, Operand.numbers]
  | point p =>
    rw [Operand.toDocument] at h hi
    obtain ⟨n, rfl, hp⟩ := holds_tagged.mp h
    rw [Operand.toDocument, operand?, if_pos hi]
    simp [operandTags, List.idxOf?_cons, Point.ofDocument?_image hp, Operand.numbers]
  | nested e => exact absurd rfl (ho e)
  | number _ | flag _ | data _ | io _ | position _ | component _ _ | pose _ =>
    rw [Operand.toDocument] at h hi
    obtain ⟨n, rfl, -⟩ := holds_tagged.mp h
    rw [Operand.toDocument, operand?, if_pos hi]
    simp [operandTags, List.idxOf?_cons, Passage.number?_single, bool?, Operand.numbers]

theorem ReadsOperand.tree?_treeDocument {l r : Operand} {op : Operator} (hl : ReadsOperand w l)
    (hr : ReadsOperand w r) (h : (treeDocument l op r).holds depth = true) :
    tree? depth (w.image (treeDocument l op r)) = w.pass (l.numbers ++ r.numbers) (l, op, r) := by
  obtain ⟨n, rfl, hf⟩ := holds_object.mp h
  simp only [List.forall_mem_cons] at hf
  obtain ⟨hld, -, hrd, -⟩ := hf
  rw [tree?, treeDocument, w.fields?_object (by simp)]
  simp [List.lookup_cons, hl n hld, hr n hrd]

theorem token?_image {t : Token} (ht : ∀ o, t = .operand o → ReadsOperand w o)
    (h : t.toDocument.holds depth = true) :
    token? form depth (w.image t.toDocument) = w.pass t.numbers t := by
  cases t with
  | operand o =>
    rw [Token.toDocument] at h
    obtain ⟨n, rfl, ho⟩ := holds_tagged.mp h
    rw [Token.toDocument, token?]
    simp [tokenTags, List.idxOf?_cons, ht o rfl n ho, Token.numbers]
  | operator op =>
    rw [Token.toDocument] at h
    obtain ⟨n, rfl, -⟩ := holds_tagged.mp h
    rw [Token.toDocument, token?]
    simp [tokenTags, List.idxOf?_cons, Token.numbers]

theorem sequence?_of_reads {ts : Sequence} (hs : ∀ o, .operand o ∈ ts → ReadsOperand w o)
    (h : ts.toDocument.holds depth = true) :
    sequence? form depth (w.image ts.toDocument) = w.pass (tokenNumbers ts) ts := by
  obtain ⟨n, rfl, hf⟩ := holds_object.mp h
  rw [tokenDocuments_eq, List.forall_mem_singleton] at hf
  obtain ⟨m, rfl, hts⟩ := holds_list.mp hf
  have hm : (ts.map fun t => w.image t.toDocument).mapM (token? form m) =
      w.pass (ts.flatMap Token.numbers) (ts.map id) := by
    refine Passage.mapM_pass fun t ht => token?_image ?_ (hts _ (List.mem_map_of_mem ht))
    rintro o rfl
    exact hs o ht
  rw [sequence?, Sequence.toDocument, w.fields?_object (by simp), tokenDocuments_eq,
    tokenNumbers_eq]
  simpa [List.lookup_cons, w.list, Function.comp_def] using hm

theorem readsOperand (w : Passage) (o : Operand) : ReadsOperand w o := by
  induction o using Operand.token_induction with
  | leaf o ho => exact .leaf ho
  | tree l op r hl hr =>
    intro depth h
    have hi := (w.level_operand _ depth).trans h
    rw [Operand.toDocument, tree_toDocument] at h hi ⊢
    obtain ⟨n, rfl, ht⟩ := holds_tagged.mp h
    rw [operand?, if_pos hi]
    simp [operandTags, List.idxOf?_cons, hl.tree?_treeDocument hr ht, Operand.numbers,
      Expression.numbers]
  | sequence ts hs =>
    intro depth h
    have hi := (w.level_operand _ depth).trans h
    rw [Operand.toDocument, sequence_toDocument] at h hi ⊢
    obtain ⟨n, rfl, ht⟩ := holds_tagged.mp h
    rw [operand?, if_pos hi]
    simp [operandTags, List.idxOf?_cons, sequence?_of_reads hs ht, Operand.numbers,
      Expression.numbers]

theorem operand?_image {o : Operand} (h : o.toDocument.holds depth = true) :
    operand? depth (w.image o.toDocument) = w.pass o.numbers o :=
  readsOperand w o depth h

theorem sequence?_image {ts : Sequence} (h : ts.toDocument.holds depth = true) :
    sequence? form depth (w.image ts.toDocument) = w.pass (tokenNumbers ts) ts :=
  sequence?_of_reads (fun o _ => readsOperand w o) h

theorem expression?_image {e : Expression} (h : e.toDocument.holds depth = true) :
    expression? form depth (w.image e.toDocument) = w.pass e.numbers e := by
  cases e with
  | tree l op r =>
    rw [tree_toDocument] at h ⊢
    obtain ⟨n, rfl, ht⟩ := holds_tagged.mp h
    rw [expression?]
    simp [expressionTags, List.idxOf?_cons,
      (readsOperand w l).tree?_treeDocument (readsOperand w r) ht, Expression.numbers]
  | sequence ts =>
    rw [sequence_toDocument] at h ⊢
    obtain ⟨n, rfl, ht⟩ := holds_tagged.mp h
    rw [expression?]
    simp [expressionTags, List.idxOf?_cons, sequence?_image ht, Expression.numbers]

end Saved

@[simp] theorem Operator.plain_toDocument (op : Operator) : op.toDocument.Plain := plain_byte op.id

theorem Sequence.plain_of_operands {ts : Sequence}
    (h : ∀ o, .operand o ∈ ts → o.toDocument.Plain) : ts.toDocument.Plain := by
  have ht : ∀ t ∈ ts, t.toDocument.Plain := by
    rintro (o | op) hm
    · simpa [Token.toDocument] using h o hm
    · simp [Token.toDocument]
  simpa [Sequence.toDocument, tokenDocuments_eq] using ht

@[simp] theorem Operand.plain_toDocument (o : Operand) : o.toDocument.Plain := by
  induction o using Operand.token_induction with
  | leaf o ho =>
    cases o with
    | nested e => exact absurd rfl (ho e)
    | _ => simp [Operand.toDocument]
  | tree l op r hl hr =>
    simp [Operand.toDocument, Expression.toDocument, hl, hr]
  | sequence ts hs =>
    rw [Operand.toDocument, sequence_toDocument, plain_tagged]
    exact Sequence.plain_of_operands hs

@[simp] theorem Sequence.plain_toDocument (ts : Sequence) : ts.toDocument.Plain :=
  plain_of_operands fun o _ => o.plain_toDocument

@[simp] theorem Expression.plain_toDocument (e : Expression) : e.toDocument.Plain := by
  have h := (Operand.nested e).plain_toDocument
  rwa [Operand.toDocument] at h

end TeachPendant
