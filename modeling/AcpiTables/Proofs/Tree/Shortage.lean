import AcpiTables.Proofs.Tree.Sound

/-!
# When there is no memory

An edit that makes nodes may find no memory for one of them, and then it fails. By that time the
label of an object may be stored, and it is taken out again. So there are two trees that such an
edit can leave behind: the one it found, and one in which a label has come and gone
(`AcpiTables.Tree.Leftover`). In both of them every handle denotes what it did.

The one thing to know is that there is no third way. An edit that does not fail for want of memory
does what it does in ample memory (`AcpiTables.Tree.Provided`). So whatever is known of edits in
ample memory is known of them in any memory, as soon as it is known of what is left over.

| fact | theorem |
|---|---|
| every handle denotes what it did | `AcpiTables.Tree.Leftover.find?_eq` |
| what is left over of a sound tree is sound | `AcpiTables.Tree.Leftover.sound` |
| an edit ends as in ample memory, or leaves this over | `AcpiTables.Tree.provided_makeObject` and so on |
-/

namespace AcpiTables

/-- **Memory that has room** for all that is asked for. -/
structure Memory.Suffices (memory : Memory) : Prop where
  /-- There is room for every slot. -/
  hasSlot : ∀ t, memory.hasSlot t = true
  /-- There is room for all bytes. -/
  hasBytes : ∀ t size, memory.hasBytes t size = true

theorem Memory.suffices_ample : Memory.ample.Suffices where
  hasSlot _ := rfl
  hasBytes _ _ := rfl

/-- Memory for a number of slots, and for all bytes. -/
@[reducible]
def Memory.forSlots (count : Nat) : Memory where
  hasSlot t := t.slots.length < count
  hasBytes _ _ := true
  slotSize := 0

/-- **A request and the memory that there is** while it is made. -/
structure Attempt (ρ : Type) where
  /-- The memory. -/
  memory : Memory
  /-- The request. -/
  request : ρ

/-- Requests for which memory is ample. -/
def amply {ρ : Type} (requests : List ρ) : List (Attempt ρ) :=
  requests.map fun request => ⟨.ample, request⟩

namespace Tree

variable {t t' : Tree} {P : Kind → Prop} {α β : Type}

/-! ### What is left over -/

/-- The tree after a label was stored and taken out again. -/
def withdrawn (t : Tree) (bytes : Bytes) : Tree :=
  (t.allocate (.data .nameString bytes)).2.release (t.allocate (.data .nameString bytes)).1

/-- **What an edit leaves behind that found no memory.** -/
inductive Leftover (t : Tree) : Tree → Prop
  /-- Nothing was stored. -/
  | nothing : Leftover t t
  /-- A label was stored, and no object above it. -/
  | label (bytes : Bytes) : Leftover t (t.withdrawn bytes)

namespace Leftover

variable (hl : t.Leftover t')

include hl

theorem length_slots_le : t.slots.length ≤ t'.slots.length := by
  cases hl with
  | nothing => exact Nat.le_refl _
  | label bytes =>
    rw [withdrawn, length_slots_release]
    exact length_slots_le_allocate t _

theorem accounts (ha : t.Accounts) (hfit : t'.Fits) : t'.Accounts := by
  cases hl with
  | nothing => exact ha
  | label bytes =>
    rw [withdrawn, Fits, length_slots_release] at hfit
    exact (ha.allocate _ hfit).release _

/-- **Every handle denotes what it did.** -/
theorem find?_eq (ha : t.Accounts) (hfit : t'.Fits) (x : Handle) : t'.find? x = t.find? x := by
  cases hl with
  | nothing => rfl
  | label bytes =>
    rw [withdrawn, Fits, length_slots_release] at hfit
    rw [withdrawn, find?_release, ha.find?_allocate _ hfit]
    by_cases hx : x = (t.allocate (.data .nameString bytes)).1
    · rw [if_pos hx, hx, ha.find?_allocate_fst _ hfit]
    · rw [if_neg hx, if_neg hx]

/-- **What is left over of a sound tree** is sound. -/
theorem sound (hs : t.Sound P) (hfit : t'.Fits) : t'.Sound P := by
  have hfind := hl.find?_eq hs.accounts hfit
  have hsame : t'.find? = t.find? := funext hfind
  refine hs.of_kept ⟨hl.accounts hs.accounts hfit, hsame ▸ hs.forest⟩ (fun x k hk => ?_)
    fun x node hx => Or.inl ⟨node, (hfind x).symm.trans hx, rfl⟩
  rwa [kind?, hfind]

end Leftover

/-! ### Edits in some memory -/

/-- **How an edit ends in some memory**: as in ample memory, or for want of memory. -/
inductive Provided (m : Memory → TreeM α) (memory : Memory) (t : Tree) : Prop
  /-- There was memory enough. -/
  | enough (hrun : m memory t = m .ample t) : Provided m memory t
  /-- There was not. -/
  | short {size : Nat} {t' : Tree} (hrun : m memory t = .error (.provider (.memory size)) t')
    (hleft : t.Leftover t') (hshort : ¬memory.Suffices) : Provided m memory t

variable {memory : Memory}

namespace Provided

/-- A question comes first, which may be about memory. -/
theorem asked {question : Memory → Tree → Except Error α} {m : Memory → α → TreeM β}
    (hq : question memory t = question .ample t ∨
      ∃ size, question memory t = .error (.provider (.memory size)) ∧ ¬memory.Suffices)
    (hm : ∀ a, question .ample t = .ok a → Provided (m · a) memory t) :
    Provided (fun memory => ask (question memory) >>= m memory) memory t := by
  rcases hq with hq | ⟨size, hq, hshort⟩
  · cases hample : question .ample t with
    | error e =>
      exact .enough ((bind_error (ask_error (hq.trans hample))).trans
        (bind_error (ask_error hample)).symm)
    | ok a =>
      have hrun := bind_ok (f := m memory) (ask_ok (hq.trans hample))
      cases hm a hample with
      | enough heq => exact .enough (hrun.trans (heq.trans (bind_ok (ask_ok hample)).symm))
      | short hend hleft hshort => exact .short (hrun.trans hend) hleft hshort
  · exact .short (bind_error (ask_error hq)) .nothing hshort

/-- The result may be read otherwise. -/
theorem map {m : Memory → TreeM α} (hm : Provided m memory t) (f : α → β) :
    Provided (fun memory => f <$> m memory) memory t := by
  cases hm with
  | enough hrun =>
    refine .enough ?_
    cases hr : m .ample t with
    | ok a t' => exact (map_ok (hrun.trans hr)).trans (map_ok hr).symm
    | error e t' => exact (map_error (hrun.trans hr)).trans (map_error hr).symm
  | short hrun hleft hshort => exact .short (map_error hrun) hleft hshort

end Provided

/-- There is a slot, or the memory does not suffice. -/
theorem requireSlot_cases (memory : Memory) (t : Tree) :
    @requireSlot memory t = @requireSlot .ample t ∨
      ∃ size, @requireSlot memory t = .error (.provider (.memory size)) ∧ ¬memory.Suffices := by
  rw [requireSlot_ample, requireSlot]
  split
  · next hfull =>
    refine Or.inr ⟨_, rfl, fun hmemory => ?_⟩
    rw [hmemory.hasSlot, Bool.not_true, Bool.and_false] at hfull
    exact Bool.false_ne_true hfull
  · exact Or.inl rfl

theorem requireBytes_cases (memory : Memory) (size : Nat) (t : Tree) :
    @requireBytes memory size t = @requireBytes .ample size t ∨
      ∃ size', @requireBytes memory size t = .error (.provider (.memory size')) ∧
        ¬memory.Suffices := by
  rw [requireBytes]
  split
  · exact Or.inl rfl
  · next hfull => exact Or.inr ⟨_, rfl, fun hmemory => hfull (hmemory.hasBytes t size)⟩

/-- **Storing a node** needs a slot. -/
theorem provided_create (content : Content) (t : Tree) :
    Provided (fun memory => @create memory content) memory t :=
  .asked (requireSlot_cases memory t) fun _ _ => .enough rfl

/-- **Making data** needs memory for the bytes, and a slot. -/
theorem provided_makeData (type : DataType) (bytes : Bytes) (t : Tree) :
    Provided (fun memory => @makeData memory type bytes) memory t :=
  .asked (Or.inl rfl) fun _ _ => .asked (requireBytes_cases memory bytes.length t) fun _ _ =>
    provided_create _ t

theorem provided_makeBuffer (t : Tree) : Provided (fun memory => @makeBuffer memory) memory t :=
  provided_create _ t

/-- **An object above a label** may find no slot when the label has one. -/
theorem provided_labelled (name : String) (allowRoot : Bool) (content : Handle → Content)
    (f : Handle → Handle → TreeM α) (t : Tree) : Provided (fun memory => do
      let label ← @makeLabel memory name allowRoot
      let object ← orRelease label (@create memory (content label))
      f label object) memory t := by
  cases hname : Aml.objectName name allowRoot with
  | error e =>
    exact .enough ((bind_error (@makeLabel_error memory name allowRoot e hname t)).trans
      (bind_error (@makeLabel_error .ample name allowRoot e hname t)).symm)
  | ok bytes =>
    have hample := makeLabel_ok hname t
    have hmake : Provided (fun memory => @makeLabel memory name allowRoot) memory t :=
      .asked (Or.inl rfl) fun encoded _ => provided_makeData .nameString encoded t
    cases hmake with
    | short hrun hleft hshort => exact .short (bind_error hrun) hleft hshort
    | enough hrun =>
      have hlabel := bind_ok (f := fun label => do
        let object ← orRelease label (@create memory (content label))
        f label object) (hrun.trans hample)
      rcases requireSlot_cases memory (t.allocate (.data .nameString bytes)).2 with
        hslot | ⟨size, hslot, hshort⟩
      · have hobject := create_ok (hslot.trans (requireSlot_ample _))
          (content (t.allocate (.data .nameString bytes)).1)
        refine .enough (hlabel.trans ((bind_ok (orRelease_ok hobject _)).trans ?_))
        exact ((bind_ok hample).trans (bind_ok (orRelease_create_eq _ _ _))).symm
      · have hobject := create_error hslot (content (t.allocate (.data .nameString bytes)).1)
        exact .short (hlabel.trans (bind_error (orRelease_error hobject _))) (.label bytes) hshort

/-- **Making a region** needs memory for the label, and two slots. -/
theorem provided_makeRegion (kind : Region) (name : String) (t : Tree) :
    Provided (fun memory => @makeRegion memory kind name) memory t :=
  provided_labelled name _ _ _ t

/-- **Making an object** may need memory. -/
theorem provided_makeObject (opcode : Opcode) (name : Option String) (t : Tree) :
    Provided (fun memory => @makeObject memory opcode name) memory t := by
  rcases opcode with _ | _ | kind <;> rcases name with _ | name
  case buffer.none => exact provided_makeBuffer t
  case region.some => exact provided_makeRegion kind name t
  all_goals exact .enough rfl

/-- **Making a `Name`** needs memory for the label, and two slots. -/
theorem provided_makeName (name : String) (value : Handle) (t : Tree) :
    Provided (fun memory => @makeName memory name value) memory t :=
  .asked (Or.inl rfl) fun _ _ => .asked (Or.inl rfl) fun _ _ => provided_labelled name _ _ _ t

end Tree

end AcpiTables
