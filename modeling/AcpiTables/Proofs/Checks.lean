import AcpiTables.Proofs.Assembly

/-!
# Checks come before writes

A request to a tree writes in steps, and each step looks its node up again. So a request could
fail between two steps, with one of them done and the other not. That this never happens is not
seen from the program: it depends on what the trees are that requests make. A new label is found
again because its handle is new, and a value is found again because storing a node takes none away.

`AcpiTables.Tree.Request.check` is what a request asks before it writes anything. The one thing to
prove of each request is that it checks first (`AcpiTables.Tree.ChecksFirst`): it fails with its
check, as long as nothing is written, and once the check has passed all look-ups succeed. Programs
that check first are put together from questions, and end in steps that succeed.

Memory is ample here. It is asked for after the check, and a label may have come and gone when the
answer is no. Then the slots differ, and the nodes do not (`AcpiTables.Tree.Leftover.find?_eq`).

| request | theorem |
|---|---|
| making data | `AcpiTables.Tree.checksFirst_makeData` |
| making an object | `AcpiTables.Tree.checksFirst_makeObject` |
| making a `Name` | `AcpiTables.Tree.checksFirst_makeName` |
| attaching | `AcpiTables.Tree.checksFirst_attach` |
| adding a descriptor | `AcpiTables.Tree.checksFirst_appendDescriptor` |
| detaching | `AcpiTables.Tree.checksFirst_detach` |
| exchanging | `AcpiTables.Tree.checksFirst_replace` |
| deleting | `AcpiTables.Tree.checksFirst_delete` |
-/

namespace AcpiTables

namespace Tree

variable {α β : Type} {t t' : Tree}

/-! ### Programs that check first -/

/-- **A program that checks first**, with what it checks. -/
structure ChecksFirst (check : Except Error Unit) (m : TreeM α) (t : Tree) : Prop where
  /-- If the check fails, so does the program, for the same reason and with the tree as it was. -/
  fails : ∀ e, check = .error e → m t = .error e t
  /-- If the check passes, the program succeeds: nothing that it looks up later is missing. -/
  succeeds : check = .ok () → ∃ a t', m t = .ok a t'

namespace ChecksFirst

variable {check : Except Error Unit} {m : TreeM α} {e : Error}

/-- A program that fails has not written. -/
theorem unchanged (hc : ChecksFirst check m t) (hm : m t = .error e t') : t' = t := by
  cases hcheck : check with
  | error e' =>
    have hrun := (hc.fails e' hcheck).symm.trans hm
    exact (EStateM.Result.error.inj hrun).2.symm
  | ok u =>
    obtain ⟨a, t'', hok⟩ := hc.succeeds hcheck
    exact nomatch hok.symm.trans hm

/-- Nothing is left to check, and the steps that are left succeed. -/
theorem written (hm : ∃ a t', m t = .ok a t') : ChecksFirst (.ok ()) m t where
  fails _ he := nomatch he
  succeeds _ := hm

theorem refused (hm : m t = .error e t) : ChecksFirst (.error e) m t where
  fails _ he := Except.error.inj he ▸ hm
  succeeds hok := nomatch hok

/-- A question comes first, and what is checked next depends on its answer. -/
theorem asked (question : Tree → Except Error α) {check : α → Except Error Unit}
    {f : α → TreeM β} (hf : ∀ a, question t = .ok a → ChecksFirst (check a) (f a) t) :
    ChecksFirst (question t >>= check) (ask question >>= f) t := by
  cases hq : question t with
  | error e => exact refused (bind_error (ask_error hq))
  | ok a =>
    have hrun : (ask question >>= f) t = f a t := bind_ok (ask_ok hq)
    exact ⟨fun e he => hrun.trans ((hf a hq).fails e he), fun hok => by
      rw [hrun]
      exact (hf a hq).succeeds hok⟩

theorem map (hc : ChecksFirst check m t) (g : α → β) : ChecksFirst check (g <$> m) t where
  fails e he := map_error (hc.fails e he)
  succeeds hok := by
    obtain ⟨a, t', hm⟩ := hc.succeeds hok
    exact ⟨g a, t', map_ok hm⟩

end ChecksFirst

/-! ### Making nodes -/

/-- Asks that a written name can be made a label. -/
def requireName (name : String) (allowRoot : Bool) : Except Error Unit := do
  requireData .nameString (← Aml.objectName name allowRoot)

/-- A label is made first, and everything else is there then. -/
theorem checksFirst_label {name : String} {allowRoot : Bool} {f : Handle → TreeM α}
    (hf : ∀ bytes, ∃ a t', f (t.allocate (.data .nameString bytes)).1
      (t.allocate (.data .nameString bytes)).2 = .ok a t') :
    ChecksFirst (requireName name allowRoot) (makeLabel name allowRoot >>= f) t := by
  cases hname : Aml.objectName name allowRoot with
  | error e =>
    have hcheck : requireName name allowRoot = .error e := by rw [requireName, hname]; rfl
    rw [hcheck]
    exact .refused (bind_error (makeLabel_error hname t))
  | ok bytes =>
    have hcheck : requireName name allowRoot = .ok () := by
      rw [requireName, hname]
      exact requireData_of_objectName hname
    obtain ⟨a, t', hrun⟩ := hf bytes
    rw [hcheck]
    exact .written ⟨a, t', (bind_ok (makeLabel_ok hname t)).trans hrun⟩

theorem checksFirst_makeData (type : DataType) (bytes : Bytes) (t : Tree) :
    ChecksFirst (requireData type bytes) (makeData type bytes) t := by
  have hrun := makeData_eq type bytes t
  cases hr : requireData type bytes with
  | error e => exact .refused (by rw [hrun, hr])
  | ok u => exact .written ⟨_, _, by rw [hrun, hr]⟩

/-- **A region is made** if its name can be written. The label is found again, although the object
may be stored in a slot that has no number of its own. -/
theorem checksFirst_makeRegion (ha : t.Accounts) (hroom : t.slots.length < UInt32.size)
    (kind : Region) (name : String) :
    ChecksFirst (requireName name (kind == .scope)) (makeRegion kind name) t := by
  refine checksFirst_label fun bytes => ?_
  have hfit := fits_allocate hroom (.data .nameString bytes)
  have hlabel := (ha.find?_allocate _ hfit _).trans (if_pos rfl)
  have hlabel' := (ha.allocate _ hfit).find?_allocate_of_some
    (.region kind (t.allocate (.data .nameString bytes)).1 []) hlabel
  exact ⟨_, _, (bind_ok (orRelease_create_eq _ _ _)).trans (bind_ok (setOwner_eq hlabel' _))⟩

/-- What is asked before an object is made. -/
def requireObject : Opcode → Option String → Except Error Unit
  | .buffer, none => .ok ()
  | .region kind, some name => requireName name (kind == .scope)
  | opcode, name => .error (.argument (.objectName opcode name))

theorem checksFirst_makeObject (ha : t.Accounts) (hroom : t.slots.length < UInt32.size)
    (opcode : Opcode) (name : Option String) :
    ChecksFirst (requireObject opcode name) (makeObject opcode name) t := by
  rcases opcode with _ | _ | kind <;> rcases name with _ | name
  case buffer.none => exact .written ⟨_, _, create_eq _ t⟩
  case region.some => exact checksFirst_makeRegion ha hroom kind name
  all_goals exact .refused rfl

/-- What is asked before a `Name` is made. -/
def requireNameable (t : Tree) (name : String) (value : Handle) : Except Error Unit := do
  t.requireDetached value
  t.requireValue value
  requireName name false

/-- **A `Name` is made** if its value can be taken over and the name can be written. The value is
not new, so it is there until the last step. -/
theorem checksFirst_makeName (ha : t.Accounts) (hroom : t.slots.length < UInt32.size)
    (name : String) (value : Handle) :
    ChecksFirst (t.requireNameable name value) (makeName name value) t := by
  refine .asked (·.requireDetached value) fun _ hd => .asked (·.requireValue value) fun _ _ =>
    checksFirst_label fun bytes => ?_
  obtain ⟨node, hv, -⟩ := requireDetached_eq_ok_iff.mp hd
  have hfit := fits_allocate hroom (.data .nameString bytes)
  have ha' := ha.allocate _ hfit
  have hlabel := (ha.find?_allocate _ hfit _).trans (if_pos rfl)
  have hlabel' := ha'.find?_allocate_of_some
    (.name (t.allocate (.data .nameString bytes)).1 value) hlabel
  have hv' := ha'.find?_allocate_of_some
    (.name (t.allocate (.data .nameString bytes)).1 value) (ha.find?_allocate_of_some _ hv)
  obtain ⟨node', hv''⟩ := exists_find?_modify hv' (t.allocate (.data .nameString bytes)).1 _
  exact ⟨_, _, (bind_ok (orRelease_create_eq _ _ _)).trans
    ((bind_ok (setOwner_eq hlabel' _)).trans (bind_ok (setOwner_eq hv'' _)))⟩

/-! ### Attaching, detaching and exchanging -/

theorem checksFirst_appendDescriptor (p h : Handle) (t : Tree) :
    ChecksFirst (do let _ ← t.requireAppendable p h) (appendDescriptor p h) t := by
  refine .asked (·.requireAppendable p h) fun hasEndTag hask => .written ?_
  obtain ⟨hatt, -⟩ := requireAppendable_eq_ok_iff.mp hask
  obtain ⟨above, node, hp, hn, -, -, hacc⟩ := requireAttachable_eq_ok_iff.mp hatt
  exact ⟨(), _, relink_eq hp hn (Content.ne_data_of_accepts hacc) _ _⟩

/-- What is asked before a node is attached: a buffer is asked about its End Tag, too. -/
def requireChild (t : Tree) (p h : Handle) : Except Error Unit := do
  match ← t.content p with
  | .buffer _ => let _ ← t.requireAppendable p h
  | _ => t.requireAttachable p h

theorem checksFirst_attach (p h : Handle) (t : Tree) :
    ChecksFirst (t.requireChild p h) (attach p h) t := by
  refine .asked (·.content p) fun content _ => ?_
  have hother : ChecksFirst (t.requireAttachable p h) (do
      ask fun t => t.requireAttachable p h
      updateChildren p fun members => members ++ [h]
      setOwner h (some p)) t := by
    rw [← bind_pure (t.requireAttachable p h)]
    refine .asked (·.requireAttachable p h) fun _ hatt => .written ?_
    obtain ⟨above, node, hp, hn, -, -, hacc⟩ := requireAttachable_eq_ok_iff.mp hatt
    exact ⟨(), _, relink_eq hp hn (Content.ne_data_of_accepts hacc) _ _⟩
  cases content with
  | data type bytes => exact hother
  | name label value => exact hother
  | buffer items => exact checksFirst_appendDescriptor p h t
  | region kind label members => exact hother

theorem checksFirst_detach (h : Handle) (t : Tree) :
    ChecksFirst (do let _ ← t.childOwner h) (detach h) t := by
  refine .asked (·.childOwner h) fun p hask => .written ?_
  obtain ⟨node, above, hn, -, hp, hh⟩ := childOwner_eq_ok_iff.mp hask
  exact ⟨(), _, relink_eq hp hn (Content.ne_data_of_mem_children hh) _ _⟩

theorem checksFirst_replace (old new : Handle) (t : Tree) :
    ChecksFirst (do let _ ← t.requireReplacement old new) (replace old new) t := by
  refine .asked (·.requireReplacement old new) fun place hask => .written ?_
  obtain ⟨p, position⟩ := place
  obtain ⟨above, oldNode, newNode, hp, ho, hn, -⟩ := requireReplacement_eq_ok_iff.mp hask
  exact ⟨(), _, exchange_eq hp ho hn position⟩

theorem checksFirst_delete (h : Handle) (t : Tree) :
    ChecksFirst (t.requireDetached h) (delete h) t := by
  rw [← bind_pure (t.requireDetached h)]
  exact .asked (·.requireDetached h) fun _ _ => .written ⟨(), _, rfl⟩

/-! ### Requests -/

namespace Request

/-- **What a request asks before it writes anything.** -/
def check (t : Tree) : Request → Except Error Unit
  | makeData type bytes => requireData type bytes
  | makeObject opcode name => requireObject opcode name
  | makeName name value => t.requireNameable name value
  | attach parent h => t.requireChild parent h
  | appendDescriptor buffer h => do let _ ← t.requireAppendable buffer h
  | detach h => do let _ ← t.childOwner h
  | replace old new => do let _ ← t.requireReplacement old new
  | delete h => t.requireDetached h

/-- **Every request checks first**, where the books are right and a number is left. -/
theorem checksFirst (ha : t.Accounts) (hroom : t.slots.length < UInt32.size) (r : Request) :
    ChecksFirst (r.check t) r.perform t := by
  cases r with
  | makeData type bytes => exact (checksFirst_makeData type bytes t).map _
  | makeObject opcode name => exact (checksFirst_makeObject ha hroom opcode name).map _
  | makeName name value => exact (checksFirst_makeName ha hroom name value).map _
  | attach parent h => exact (checksFirst_attach parent h t).map _
  | appendDescriptor buffer h => exact (checksFirst_appendDescriptor buffer h t).map _
  | detach h => exact (checksFirst_detach h t).map _
  | replace old new => exact (checksFirst_replace old new t).map _
  | delete h => exact (checksFirst_delete h t).map _

end Request

end Tree

namespace Assembly

/-- **A request that fails has not written**, in every tree that requests make: the slots, the
stack of the free ones and the count are as they were. What fails is the check, and after the check
nothing fails. -/
theorem checksFirst_run (attempts : List (Attempt Request))
    (hroom : (run attempts).slots.length < UInt32.size) (r : Tree.Request) :
    (∀ e t', r.perform (run attempts) = .error e t' → t' = run attempts) ∧
      Tree.ChecksFirst (r.check (run attempts)) r.perform (run attempts) := by
  have hs := sound_run_true (Nat.le_of_lt hroom)
  have hc := r.checksFirst hs.accounts hroom
  exact ⟨fun e t' => hc.unchanged, hc⟩

/-- A list of resources and a descriptor apart from it. The descriptor cannot take the place of the
End Tag, and nothing is written then; it can be attached in front of it. -/
theorem checksFirst_run_resources :
    (Tree.Request.replace ⟨1, 0⟩ ⟨4, 0⟩).perform (run (amply [.declareTemplate "_CRS" none,
        .addInterrupt ⟨.consumer, .edge, .high, .exclusive⟩ [5] none])) =
      .error (.state .endTagReplacement) (run (amply [.declareTemplate "_CRS" none,
        .addInterrupt ⟨.consumer, .edge, .high, .exclusive⟩ [5] none])) ∧
    ∃ a t', (Tree.Request.attach ⟨0, 0⟩ ⟨4, 0⟩).perform (run (amply [.declareTemplate "_CRS" none,
        .addInterrupt ⟨.consumer, .edge, .high, .exclusive⟩ [5] none])) = .ok a t' := by
  have hreplace := checksFirst_run (amply [.declareTemplate "_CRS" none,
    .addInterrupt ⟨.consumer, .edge, .high, .exclusive⟩ [5] none]) (by decide)
    (.replace ⟨1, 0⟩ ⟨4, 0⟩)
  have hattach := checksFirst_run (amply [.declareTemplate "_CRS" none,
    .addInterrupt ⟨.consumer, .edge, .high, .exclusive⟩ [5] none]) (by decide)
    (.attach ⟨0, 0⟩ ⟨4, 0⟩)
  exact ⟨hreplace.2.fails _ rfl, hattach.2.succeeds rfl⟩

end Assembly

end AcpiTables
