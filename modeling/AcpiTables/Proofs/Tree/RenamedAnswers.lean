import AcpiTables.Proofs.Tree.Renaming

/-!
# Answers that do not depend on handles

No question looks into a handle. A question follows handles from node to node, and it asks of two of
them whether they are the same. A renaming takes neither away, so what is asked of related handles
is answered alike (`AcpiTables.SameAnswer`): with related handles, with the same bytes, or with
errors of one class.

The one thing to know is that the errors themselves need not be the same. An error names the handle
that is at fault, and that is another one in the other tree. Its class is all that two renamed trees
agree on (`AcpiTables.Error.errorClass`).

| question | theorem |
|---|---|
| what a node is | `AcpiTables.Tree.Renamed.sameAnswer_content` |
| what its bytes are | `AcpiTables.Tree.Renamed.sameAnswer_encode` |
| whether it can become a child | `AcpiTables.Tree.Renamed.sameAnswer_requireAttachable` |
| whether it can replace another | `AcpiTables.Tree.Renamed.sameAnswer_requireReplacement` |
| all that is asked about one handle | `AcpiTables.Tree.Renamed.answersAlike` |
-/

namespace AcpiTables

/-! ### Answers -/

/-- Who is at fault when something fails. -/
inductive ErrorClass where
  /-- An argument is wrong. -/
  | argument
  /-- A parameter does not fit the request. -/
  | parameter
  /-- The state does not allow the request. -/
  | state
  /-- A handle denotes no node. -/
  | deadNode
  /-- There is no record of a kind. -/
  | notFound
  /-- An answer does not divide into records. -/
  | sizeMismatch
  /-- A record provider failed. -/
  | provider
  /-- There was no memory. -/
  | memory
  /-- A text is no platform configuration. -/
  | malformedConfig
deriving DecidableEq, Repr

/-- The class of an error, without what the error names. -/
def Error.errorClass : Error → ErrorClass
  | argument _ => .argument
  | parameter _ => .parameter
  | state _ => .state
  | deadNode _ => .deadNode
  | notFound _ => .notFound
  | sizeMismatch _ _ _ => .sizeMismatch
  | provider (.stated _) => .provider
  | provider (.memory _) => .memory
  | malformedConfig => .malformedConfig

section Answers

variable {α β γ δ : Type} {Q : α → β → Prop} {Q' : γ → δ → Prop} {x : Except Error α}
  {y : Except Error β}

/-- **Two questions are answered alike**: with related answers, or with errors of one class. -/
inductive SameAnswer (Q : α → β → Prop) : Except Error α → Except Error β → Prop
  /-- Both have an answer. -/
  | ok {a : α} {b : β} : Q a b → SameAnswer Q (.ok a) (.ok b)
  /-- Both have none. -/
  | error {e e' : Error} : e.errorClass = e'.errorClass → SameAnswer Q (.error e) (.error e')

namespace SameAnswer

theorem mono {S : α → β → Prop} (hx : SameAnswer Q x y) (hQ : ∀ a b, Q a b → S a b) :
    SameAnswer S x y := by
  rcases hx with hab | he
  · exact .ok (hQ _ _ hab)
  · exact .error he

theorem bind {f : α → Except Error γ} {g : β → Except Error δ} (hx : SameAnswer Q x y)
    (hf : ∀ a b, Q a b → SameAnswer Q' (f a) (g b)) : SameAnswer Q' (x >>= f) (y >>= g) := by
  rcases hx with hab | he
  · exact hf _ _ hab
  · exact .error he

theorem map {f : α → γ} {g : β → δ} (hx : SameAnswer Q x y)
    (hf : ∀ a b, Q a b → Q' (f a) (g b)) : SameAnswer Q' (f <$> x) (g <$> y) := by
  rcases hx with hab | he
  · exact .ok (hf _ _ hab)
  · exact .error he

/-- What is asked of nothing but plain data. -/
theorem same (x : Except Error α) : SameAnswer Eq x x := by
  cases x with
  | ok a => exact .ok rfl
  | error e => exact .error rfl

/-- Related questions in a row. -/
theorem mapM {R : γ → δ → Prop} {f : γ → Except Error α} {g : δ → Except Error β} {xs : List γ}
    {ys : List δ} (hxs : List.Forall₂ R xs ys) (hf : ∀ x y, R x y → SameAnswer Q (f x) (g y)) :
    SameAnswer (List.Forall₂ Q) (xs.mapM f) (ys.mapM g) := by
  induction hxs with
  | nil => exact .ok .nil
  | cons hxy _ ih =>
    rw [List.mapM_cons, List.mapM_cons]
    refine (hf _ _ hxy).bind fun a b hab => ih.bind fun as bs habs => ?_
    exact .ok (.cons hab habs)

end SameAnswer

end Answers

namespace Tree

variable {R : Renaming} {t t' : Tree} {h h' p p' : Handle} {xs ys : List Handle}

namespace Renamed

/-! ### Questions about one node -/

section Questions

variable (hr : t.Renamed R t') (hh : t.Corresponds R t' h h')

include hr hh

theorem sameAnswer_node :
    SameAnswer (fun node node' => R h h' ∧ node.Renamed R node') (t.node h) (t'.node h') := by
  rw [Tree.node, Tree.node]
  rcases hr.find?_cases hh with ⟨hR, node, node', hn, hn', hnode⟩ | ⟨hn, hn'⟩
  · rw [hn, hn']
    exact .ok ⟨hR, hnode⟩
  · rw [hn, hn']
    exact .error rfl

/-- **Two nodes that mean the same differ in the handles of their links only.** -/
theorem sameAnswer_content :
    SameAnswer (fun c c' => R h h' ∧ c.Renamed R c') (t.content h) (t'.content h') :=
  (hr.sameAnswer_node hh).map fun _ _ hn => ⟨hn.1, hn.2.content⟩

theorem sameAnswer_opcode : SameAnswer Eq (t.opcode h) (t'.opcode h') :=
  (hr.sameAnswer_content hh).map fun _ _ hc => hc.2.opcode_eq

theorem sameAnswer_dataType : SameAnswer Eq (t.dataType h) (t'.dataType h') :=
  (hr.sameAnswer_content hh).map fun _ _ hc => hc.2.dataType_eq

theorem sameAnswer_bytes : SameAnswer Eq (t.bytes h) (t'.bytes h') :=
  (hr.sameAnswer_content hh).map fun _ _ hc => hc.2.bytes_eq

theorem sameAnswer_argument (place : Nat) :
    SameAnswer (Option.Rel R) (t.argument h place) (t'.argument h' place) :=
  (hr.sameAnswer_content hh).map fun _ _ hc => rel_getElem? hc.2.fixedArguments place

theorem sameAnswer_children :
    SameAnswer (List.Forall₂ R) (t.children h) (t'.children h') :=
  (hr.sameAnswer_content hh).map fun _ _ hc => hc.2.children

theorem sameAnswer_parent :
    SameAnswer (fun above above' => R h h' ∧ Option.Rel R above above') (t.parent h)
      (t'.parent h') :=
  (hr.sameAnswer_node hh).map fun _ _ hn => ⟨hn.1, hn.2.parent⟩

theorem hasOpcode_eq (opcode : Opcode) : t.hasOpcode h opcode = t'.hasOpcode h' opcode := by
  rw [Tree.hasOpcode, Tree.hasOpcode]
  rcases hr.find?_cases hh with ⟨-, node, node', hn, hn', hc, -⟩ | ⟨hn, hn'⟩
  · simp only [hn, hn', hc.opcode_eq]
  · rw [hn, hn']

theorem isEndTag_eq : t.isEndTag h = t'.isEndTag h' := by
  rw [Tree.isEndTag, Tree.isEndTag]
  rcases hr.find?_cases hh with ⟨-, node, node', hn, hn', hc, -⟩ | ⟨hn, hn'⟩
  · simp only [hn, hn', hc.isEndTag_eq]
  · rw [hn, hn']

/-- The End Tags of two buffers are related. -/
theorem sameAnswer_endTag? :
    SameAnswer (Option.Rel R) (t.endTag? h) (t'.endTag? h') := by
  refine (hr.sameAnswer_content hh).bind fun c c' hc => ?_
  rcases hc.2 with _ | _ | @⟨items, items', hi⟩ | _
  · exact .error rfl
  · exact .error rfl
  · refine .ok ?_
    have hlast := rel_getLast? hi
    revert hlast
    generalize items.getLast? = last, items'.getLast? = last'
    rintro (hl | _)
    · rw [Option.filter_some, Option.filter_some, hr.isEndTag_eq (Or.inl hl)]
      split
      · exact .some hl
      · exact .none
    · exact .none
  · exact .error rfl

/-- The owners of two nodes are related. -/
theorem sameAnswer_owner :
    SameAnswer (fun p p' => R p p' ∧ R h h') (t.owner h) (t'.owner h') := by
  refine (hr.sameAnswer_parent hh).bind fun above above' habove => ?_
  rcases habove.2 with hp | _
  · exact .ok ⟨hp, habove.1⟩
  · exact .error rfl

theorem sameAnswer_requireDetached :
    SameAnswer (fun _ _ => R h h') (t.requireDetached h) (t'.requireDetached h') := by
  refine (hr.sameAnswer_parent hh).bind fun above above' habove => ?_
  rcases habove.2 with hp | _
  · exact .error rfl
  · exact .ok habove.1

theorem sameAnswer_requireValue :
    SameAnswer (fun _ _ => R h h') (t.requireValue h) (t'.requireValue h') := by
  refine (hr.sameAnswer_content hh).bind fun c c' hc => ?_
  rcases hc.2 with ⟨type, _⟩ | _ | _ | _
  · cases type
    · exact .error rfl
    · exact .ok hc.1
    · exact .error rfl
  · exact .error rfl
  · exact .ok hc.1
  · exact .error rfl

theorem sameAnswer_requireLabel :
    SameAnswer (fun _ _ => R h h') (t.requireLabel h) (t'.requireLabel h') := by
  refine (hr.sameAnswer_content hh).bind fun c c' hc => ?_
  rcases hc.2 with ⟨type, _⟩ | _ | _ | _
  · cases type
    · exact .ok hc.1
    · exact .error rfl
    · exact .error rfl
  · exact .error rfl
  · exact .error rfl
  · exact .error rfl

end Questions

/-! ### Questions about several nodes -/

section Conditions

variable (hr : t.Renamed R t') (ha : t.Accounts) (ha' : t'.Accounts)

include hr

theorem sameAnswer_requireKinds (hp : t.Corresponds R t' p p') (hh : t.Corresponds R t' h h') :
    SameAnswer (fun _ _ => R p p' ∧ R h h') (t.requireKinds p h) (t'.requireKinds p' h') := by
  refine (hr.sameAnswer_content hh).bind fun c c' hc => ?_
  refine (hr.sameAnswer_content hp).bind fun above above' habove => ?_
  have hacc := habove.2.accepts_eq hc.2
  have hopcode := habove.2.opcode_eq
  by_cases hok : above.accepts c = true
  · rw [if_pos hok, if_pos (hacc ▸ hok)]
    exact .ok ⟨habove.1, hc.1⟩
  · rw [if_neg hok, if_neg (hacc ▸ hok), hopcode]
    cases above'.opcode with
    | none => exact .error rfl
    | some opcode => exact .error rfl

include ha ha'

/-- **Renamed nodes have the same bytes.** -/
theorem sameAnswer_encode (hh : t.Corresponds R t' h h') :
    SameAnswer Eq (t.encode h) (t'.encode h') := by
  refine (hr.sameAnswer_node hh).bind fun _ _ _ => .ok ?_
  rw [hr.live_eq ha ha']
  exact hr.encodeWithin_eq _ hh

theorem sameAnswer_declareName (name : String) (hh : t.Corresponds R t' h h') :
    SameAnswer Eq (t.declareName name h) (t'.declareName name h') := by
  refine (hr.sameAnswer_encode ha ha' hh).bind ?_
  rintro bytes _ rfl
  exact .same _

theorem sameAnswer_declareRegion (kind : Region) (name : String)
    (hxs : List.Forall₂ (t.Corresponds R t') xs ys) :
    SameAnswer Eq (t.declareRegion kind name xs) (t'.declareRegion kind name ys) := by
  refine (SameAnswer.same (Aml.regionLabel kind name)).bind ?_
  rintro label _ rfl
  refine (SameAnswer.mapM hxs fun x y hxy => hr.sameAnswer_encode ha ha' hxy).bind ?_
  rintro members members' hm
  rw [List.forall₂_eq_eq_eq] at hm
  exact .ok (by rw [hm])

theorem sameAnswer_requireAttachable (hp : t.Corresponds R t' p p')
    (hh : t.Corresponds R t' h h') : SameAnswer (fun _ _ => R p p' ∧ R h h')
      (t.requireAttachable p h) (t'.requireAttachable p' h') := by
  refine (hr.sameAnswer_requireDetached hh).bind fun _ _ hR => ?_
  rw [hr.isAbove_eq ha ha' hR hp]
  by_cases hup : t'.isAbove h' p' = true
  · rw [if_pos hup, if_pos hup]
    exact .error rfl
  · rw [if_neg hup, if_neg hup]
    exact hr.sameAnswer_requireKinds hp hh

theorem sameAnswer_requireAppendable (hp : t.Corresponds R t' p p')
    (hh : t.Corresponds R t' h h') : SameAnswer (fun b b' => b = b' ∧ R p p' ∧ R h h')
      (t.requireAppendable p h) (t'.requireAppendable p' h') := by
  refine (hr.sameAnswer_endTag? hp).bind fun endTag endTag' htag => ?_
  refine (hr.sameAnswer_requireAttachable ha ha' hp hh).bind fun _ _ hR => ?_
  have hsome : endTag.isSome = endTag'.isSome := by rcases htag with _ | _ <;> rfl
  rw [hsome, hr.isEndTag_eq hh]
  by_cases hsecond : (endTag'.isSome && t'.isEndTag h') = true
  · rw [if_pos hsecond, if_pos hsecond]
    exact .error rfl
  · rw [if_neg hsecond, if_neg hsecond]
    exact .ok ⟨rfl, hR⟩

omit ha ha' in
theorem sameAnswer_childOwner (hh : t.Corresponds R t' h h') :
    SameAnswer (fun p p' => R p p' ∧ R h h') (t.childOwner h) (t'.childOwner h') := by
  refine (hr.sameAnswer_owner hh).bind fun q q' hq => ?_
  refine (hr.sameAnswer_children (Or.inl hq.1)).bind fun xs ys hxs => ?_
  have hmem : xs.contains h = ys.contains h' := by
    rw [Bool.eq_iff_iff, List.contains_iff_mem, List.contains_iff_mem]
    exact List.rel_mem hr.biUnique hq.2 hxs
  rw [hmem]
  split
  · exact .ok hq
  · exact .error rfl

theorem sameAnswer_requirePosition (hp : R p p') {old old' new new' : Handle} (ho : R old old')
    (hn : R new new') (position : Position) : SameAnswer (fun _ _ => True)
      (t.requirePosition p old position new) (t'.requirePosition p' old' position new') := by
  have hup := hr.isAbove_eq ha ha' hn (Or.inl hp)
  cases position with
  | label =>
    simp only [requirePosition, hup]
    split
    · exact .error rfl
    · exact (hr.sameAnswer_requireLabel (Or.inl hn)).mono fun _ _ _ => trivial
  | value =>
    simp only [requirePosition, hup]
    split
    · exact .error rfl
    · exact (hr.sameAnswer_requireValue (Or.inl hn)).mono fun _ _ _ => trivial
  | child place =>
    refine (hr.sameAnswer_requireAttachable ha ha' (Or.inl hp) (Or.inl hn)).bind fun _ _ _ => ?_
    rw [hr.hasOpcode_eq (Or.inl hp), hr.isEndTag_eq (Or.inl ho), hr.isEndTag_eq (Or.inl hn)]
    split
    · exact .error rfl
    · exact .ok trivial

theorem sameAnswer_requireReplacement {old old' new new' : Handle}
    (ho : t.Corresponds R t' old old') (hn : t.Corresponds R t' new new') :
    SameAnswer (fun place place' => R place.1 place'.1 ∧ place.2 = place'.2 ∧ R old old' ∧
      R new new') (t.requireReplacement old new) (t'.requireReplacement old' new') := by
  refine (hr.sameAnswer_owner ho).bind fun q q' hq => ?_
  refine (hr.sameAnswer_requireDetached hn).bind fun _ _ hnew => ?_
  refine (hr.sameAnswer_content (Or.inl hq.1)).bind fun c c' hc => ?_
  rw [hc.2.position?_eq hr.biUnique hq.2]
  cases c'.position? old' with
  | none => exact .error rfl
  | some position =>
    refine (hr.sameAnswer_requirePosition ha ha' hq.1 hq.2 hnew position).bind fun _ _ _ => ?_
    exact .ok ⟨hq.1, rfl, hq.2, hnew⟩

end Conditions

end Renamed

/-! ### All answers together -/

/-- **What two trees answer about two handles**, question by question. -/
structure AnswersAlike (R : Renaming) (t t' : Tree) (h h' : Handle) : Prop where
  /-- Both denote a node, or neither does. -/
  contains_eq : t.contains h = t'.contains h'
  /-- Objects have the same opcode. -/
  opcode : SameAnswer Eq (t.opcode h) (t'.opcode h')
  /-- They are found to have it. -/
  hasOpcode_eq : ∀ opcode, t.hasOpcode h opcode = t'.hasOpcode h' opcode
  /-- Data has the same type. -/
  dataType : SameAnswer Eq (t.dataType h) (t'.dataType h')
  /-- And the same bytes. -/
  bytes : SameAnswer Eq (t.bytes h) (t'.bytes h')
  /-- Fixed arguments are related, place by place. -/
  argument : ∀ place, SameAnswer (Option.Rel R) (t.argument h place) (t'.argument h' place)
  /-- Children are related, in order. -/
  children : SameAnswer (List.Forall₂ R) (t.children h) (t'.children h')
  /-- The owners are related. -/
  parent : SameAnswer (Option.Rel R) (t.parent h) (t'.parent h')
  /-- The End Tags of buffers are related. -/
  endTag : SameAnswer (Option.Rel R) (t.endTag? h) (t'.endTag? h')
  /-- The nodes of the subtrees are related, in order. -/
  preorder : List.Forall₂ R (t.preorder h) (t'.preorder h')
  /-- The subtrees have the same bytes. -/
  encode : SameAnswer Eq (t.encode h) (t'.encode h')
  /-- So has a `Name` whose value is the node. -/
  declareName : ∀ name, SameAnswer Eq (t.declareName name h) (t'.declareName name h')

theorem Renamed.answersAlike (hr : t.Renamed R t') (ha : t.Accounts) (ha' : t'.Accounts)
    (hh : t.Corresponds R t' h h') : AnswersAlike R t t' h h' where
  contains_eq := hr.contains_eq hh
  opcode := hr.sameAnswer_opcode hh
  hasOpcode_eq := hr.hasOpcode_eq hh
  dataType := hr.sameAnswer_dataType hh
  bytes := hr.sameAnswer_bytes hh
  argument := hr.sameAnswer_argument hh
  children := hr.sameAnswer_children hh
  parent := (hr.sameAnswer_parent hh).mono fun _ _ hp => hp.2
  endTag := hr.sameAnswer_endTag? hh
  preorder := hr.preorder ha ha' hh
  encode := hr.sameAnswer_encode ha ha' hh
  declareName name := hr.sameAnswer_declareName ha ha' name hh

end Tree

end AcpiTables
