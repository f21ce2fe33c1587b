import AcpiTables.Proofs.Tree.Grown

/-!
# Handles that are given and freed

A handle is given to a node when the node is made, and it is freed when the node goes away. All
that happens to a tree can be told by these two kinds of events, in order, because changing a node
is not one (`AcpiTables.Tree.Happens`).

The arena remembers very little of what happened: for each slot how many nodes of it were freed.
The one thing to know is that this is enough. As long as no slot was freed so often that its
generation came back to zero (`AcpiTables.Tree.Lasting`), a handle was freed exactly if its
generation is behind that of its slot, and it was given exactly if it was freed or denotes a node
(`AcpiTables.Tree.Recorded`). So no handle is given twice, and a freed one denotes nothing ever
after.

| result | theorem |
|---|---|
| the arena agrees with what happened | `AcpiTables.Tree.recorded_of_happens` |
| a handle denotes a node if it was given and not freed | `AcpiTables.Tree.Recorded.contains_iff` |
| no handle is given twice | `AcpiTables.Tree.Recorded.not_given_before` |
| a new handle was given meanwhile | `AcpiTables.Tree.Recorded.given_of_isNew` |
| a handle that denotes nothing any more was freed | `AcpiTables.Tree.Recorded.freed_of_not_contains` |
| what denotes nothing is rejected by every request | `AcpiTables.Tree.rejects` |
-/

namespace AcpiTables.Tree

/-! ### Events -/

/-- What happens to the nodes of a tree. -/
inductive Event where
  /-- A handle is given to a new node. -/
  | given (h : Handle)
  /-- The node of a handle is freed. -/
  | freed (h : Handle)
deriving DecidableEq, Repr

/-- Whether a node of a given slot is freed. -/
def Event.frees (i : Nat) : Event → Bool
  | given _ => false
  | freed h => h.index.toNat == i

/-- **What happens between a tree and a later one**, the events in order. -/
inductive Happens : Tree → List Event → Tree → Prop
  /-- Nothing happens. -/
  | nothing (t : Tree) : Happens t [] t
  /-- A node is stored. -/
  | given {t t' : Tree} {es : List Event} (hh : Happens t es t') (content : Content) :
    Happens t (es ++ [.given (t'.allocate content).1]) (t'.allocate content).2
  /-- A node is changed. -/
  | changed {t t' : Tree} {es : List Event} (hh : Happens t es t') (h : Handle) (f : Node → Node) :
    Happens t es (t'.modify h f)
  /-- A node is freed. -/
  | freed {t t' : Tree} {es : List Event} (hh : Happens t es t') (h : Handle)
    (hlive : t'.contains h = true) : Happens t (es ++ [.freed h]) (t'.release h)

namespace Happens

variable {t t' t'' : Tree} {es es' : List Event}

/-- One thing happens after the other. -/
theorem trans (hh : Happens t es t') (hh' : Happens t' es' t'') : Happens t (es ++ es') t'' := by
  induction hh' with
  | nothing => rwa [List.append_nil]
  | given _ content ih =>
    rw [← List.append_assoc]
    exact ih.given content
  | changed _ h f ih => exact ih.changed h f
  | freed _ h hlive ih =>
    rw [← List.append_assoc]
    exact ih.freed h hlive

end Happens

/-! ### Generations -/

/-- How many nodes of a slot were freed, if there is such a slot. -/
def generation? (t : Tree) (i : Nat) : Option UInt32 := t.slots[i]?.map Slot.generation

/-- A handle whose generation is behind that of its slot. -/
def Spent (t : Tree) (h : Handle) : Prop :=
  ∃ g, t.generation? h.index.toNat = some g ∧ h.generation < g

variable {t : Tree} {h x : Handle} {es : List Event}

theorem generation?_of_contains (hh : t.contains h = true) :
    t.generation? h.index.toNat = some h.generation := by
  obtain ⟨node, hn⟩ := contains_iff.mp hh
  rw [generation?, find?_eq_some_iff.mp hn]
  rfl

/-- A spent handle denotes nothing. -/
theorem Spent.not_contains (hs : t.Spent h) : t.contains h = false := by
  obtain ⟨g, hg, hlt⟩ := hs
  refine Bool.eq_false_iff.mpr fun hh => ?_
  obtain rfl := Option.some.inj ((generation?_of_contains hh).symm.trans hg)
  exact UInt32.lt_irrefl _ hlt

theorem generation?_modify (t : Tree) (h : Handle) (f : Node → Node) (i : Nat) :
    (t.modify h f).generation? i = t.generation? i := by
  unfold modify
  cases hn : t.find? h with
  | none => rfl
  | some node =>
    have hslot := find?_eq_some_iff.mp hn
    by_cases hi : h.index.toNat = i
    · subst hi
      have hlt := (List.getElem?_eq_some_iff.mp hslot).1
      rw [generation?, generation?, hslot, List.getElem?_set_self hlt]
      rfl
    · simp [generation?, hi]

theorem generation?_release (hh : t.contains h = true) (i : Nat) :
    (t.release h).generation? i =
      if i = h.index.toNat then some (h.generation + 1) else t.generation? i := by
  obtain ⟨node, hn⟩ := contains_iff.mp hh
  have hlt := (List.getElem?_eq_some_iff.mp (find?_eq_some_iff.mp hn)).1
  simp only [release, hn, generation?]
  by_cases hi : i = h.index.toNat
  · subst hi
    simp [hlt]
  · rw [if_neg hi, List.getElem?_set_ne (Ne.symm hi)]

/-- A new node is in the generation of its slot, and in the first one if the slot is new. -/
theorem Accounts.generation?_allocate (ha : t.Accounts) (content : Content)
    (hfit : (t.allocate content).2.Fits) :
    (t.generation? (t.allocate content).1.index.toNat = some (t.allocate content).1.generation ∨
      t.generation? (t.allocate content).1.index.toNat = none ∧
        (t.allocate content).1.generation = 0) ∧
    ∀ i, (t.allocate content).2.generation? i = if i = (t.allocate content).1.index.toNat
      then some (t.allocate content).1.generation else t.generation? i := by
  unfold Tree.allocate at hfit ⊢
  cases hfree : t.free with
  | cons index free =>
    obtain ⟨g, hslot⟩ := ha.getElem?_of_free hfree
    have hlt := (List.getElem?_eq_some_iff.mp hslot).1
    refine ⟨Or.inl (by simp [generation?, hslot]), fun i => ?_⟩
    by_cases hi : i = index.toNat
    · subst hi
      simp [generation?, hlt]
    · simp [generation?, hi, List.getElem?_set_ne (Ne.symm hi)]
  | nil =>
    rw [hfree] at hfit
    have hlen := toNat_length (t := t) (by simpa [Fits] using hfit)
    simp only [hlen]
    refine ⟨Or.inr ⟨by simp [generation?], trivial⟩, fun i => ?_⟩
    by_cases hi : i = t.slots.length
    · subst hi
      simp [generation?]
    · rw [if_neg hi, generation?, generation?]
      rcases Nat.lt_or_gt_of_ne hi with hlt | hgt
      · rw [List.getElem?_append_left hlt]
      · rw [List.getElem?_eq_none (by rw [List.length_append, List.length_singleton]; omega),
          List.getElem?_eq_none (Nat.le_of_lt hgt)]

/-! ### The arena and what happened -/

/-- No slot was freed so often that its generation came back to zero. -/
def Lasting (es : List Event) : Prop := ∀ i, es.countP (Event.frees i) < UInt32.size

theorem Lasting.of_append {es es' : List Event} (hl : Lasting (es ++ es')) : Lasting es := by
  intro i
  have := hl i
  rw [List.countP_append] at this
  omega

/-- So few events cannot bring a generation back to zero. -/
theorem lasting_of_length {es : List Event} (hl : es.length < UInt32.size) : Lasting es := fun _ =>
  Nat.lt_of_le_of_lt List.countP_le_length hl

/-- **The arena agrees with what happened.** -/
structure Recorded (t : Tree) (es : List Event) : Prop where
  /-- The books are kept. -/
  accounts : t.Accounts
  /-- A generation is the number of nodes of the slot that were freed. -/
  generation : ∀ i g, t.generation? i = some g → g.toNat = es.countP (Event.frees i)
  /-- The freed handles are the spent ones. -/
  freed_iff : ∀ h, .freed h ∈ es ↔ t.Spent h
  /-- The given handles are the spent ones and those that denote nodes. -/
  given_iff : ∀ h, .given h ∈ es ↔ t.Spent h ∨ t.contains h = true
  /-- No handle is given twice, and none is freed twice. -/
  nodup : es.Nodup

theorem recorded_empty : empty.Recorded [] where
  accounts := accounts_empty
  generation _ _ hg := nomatch hg
  freed_iff h := by
    refine iff_of_false nofun ?_
    rintro ⟨g, hg, -⟩
    exact nomatch hg
  given_iff h := by
    refine iff_of_false nofun ?_
    rintro (⟨g, hg, -⟩ | hh)
    · exact nomatch hg
    · exact nomatch hh
  nodup := List.nodup_nil

namespace Recorded

/-! ### A node is stored -/

/-- Storing a node spends no handle. -/
theorem spent_allocate (ha : t.Accounts) (content : Content)
    (hfit : (t.allocate content).2.Fits) : (t.allocate content).2.Spent x ↔ t.Spent x := by
  obtain ⟨hbefore, hafter⟩ := ha.generation?_allocate content hfit
  unfold Spent
  rw [hafter]
  by_cases hx : x.index.toNat = (t.allocate content).1.index.toNat
  · rw [if_pos hx, hx]
    rcases hbefore with hsome | ⟨hnone, hzero⟩
    · rw [hsome]
    · -- The slot is new, and nothing comes before the first generation.
      rw [hnone, hzero]
      refine iff_of_false ?_ ?_
      · rintro ⟨g, hg, hlt⟩
        obtain rfl := Option.some.inj hg
        exact absurd hlt (UInt32.not_lt.mpr (UInt32.le_iff_toNat_le.mpr (Nat.zero_le _)))
      · rintro ⟨g, hg, -⟩
        exact nomatch hg
  · rw [if_neg hx]

/-- The handle of a new node is not spent. -/
theorem not_spent_allocate (ha : t.Accounts) (content : Content)
    (hfit : (t.allocate content).2.Fits) : ¬t.Spent (t.allocate content).1 := by
  rintro ⟨g, hg, hlt⟩
  rcases (ha.generation?_allocate content hfit).1 with hsome | ⟨hnone, -⟩
  · obtain rfl := Option.some.inj (hsome.symm.trans hg)
    exact UInt32.lt_irrefl _ hlt
  · exact nomatch hnone.symm.trans hg

/-- Nothing was freed in a slot that was never there. -/
theorem countP_eq_zero (hr : t.Recorded es) {i : Nat} (hi : t.generation? i = none) :
    es.countP (Event.frees i) = 0 := by
  rw [List.countP_eq_zero]
  rintro (h | h) hmem hfrees
  · exact nomatch hfrees
  · obtain ⟨g, hg, -⟩ := (hr.freed_iff h).mp hmem
    rw [beq_iff_eq.mp hfrees, hi] at hg
    exact nomatch hg

theorem allocate (hr : t.Recorded es) (content : Content) (hfit : (t.allocate content).2.Fits) :
    (t.allocate content).2.Recorded (es ++ [.given (t.allocate content).1]) := by
  have hspent : ∀ x, (t.allocate content).2.Spent x ↔ t.Spent x := fun x =>
    spent_allocate hr.accounts content hfit
  obtain ⟨hbefore, hafter⟩ := hr.accounts.generation?_allocate content hfit
  refine ⟨hr.accounts.allocate content hfit, fun i g hg => ?_, fun x => ?_, fun x => ?_, ?_⟩
  · have hcount : (es ++ [Event.given (t.allocate content).1]).countP (Event.frees i) =
        es.countP (Event.frees i) := by simp [List.countP_append, Event.frees]
    rw [hcount]
    rw [hafter] at hg
    split at hg
    · next hi =>
      rw [← Option.some.inj hg, hi]
      rcases hbefore with hsome | ⟨hnone, hzero⟩
      · exact hr.generation _ _ hsome
      · rw [hzero, hr.countP_eq_zero hnone]
        rfl
    · exact hr.generation i g hg
  · rw [hspent, ← hr.freed_iff]
    simp
  · have hcontains : (t.allocate content).2.contains x = true ↔
        x = (t.allocate content).1 ∨ t.contains x = true := by
      rw [contains, contains, hr.accounts.find?_allocate content hfit]
      by_cases hx : x = (t.allocate content).1 <;> simp [hx]
    rw [hspent, hcontains, List.mem_append, hr.given_iff]
    simp only [List.mem_singleton, Event.given.injEq]
    tauto
  · refine List.nodup_append.mpr ⟨hr.nodup, List.nodup_singleton _, ?_⟩
    rintro e he e' he' rfl
    rw [List.mem_singleton.mp he', hr.given_iff] at he
    rcases he with hs | hh
    · exact not_spent_allocate hr.accounts content hfit hs
    · rw [contains, hr.accounts.find?_allocate_fst content hfit] at hh
      exact Bool.false_ne_true hh

/-! ### A node is changed -/

theorem modify (hr : t.Recorded es) (h : Handle) (f : Node → Node) :
    (t.modify h f).Recorded es := by
  have hspent : ∀ x, (t.modify h f).Spent x ↔ t.Spent x := fun x => by
    unfold Spent
    rw [generation?_modify]
  have hcontains : ∀ x, (t.modify h f).contains x = t.contains x := fun x => by
    rw [contains, contains, find?_modify]
    by_cases hx : x = h
    · rw [if_pos hx, hx, Option.isSome_map]
    · rw [if_neg hx]
  refine ⟨hr.accounts.modify h f, fun i g hg => ?_, fun x => ?_, fun x => ?_, hr.nodup⟩
  · rw [generation?_modify] at hg
    exact hr.generation i g hg
  · rw [hspent, hr.freed_iff]
  · rw [hspent, hcontains, hr.given_iff]

/-! ### A node is freed -/

/-- Freeing a node spends its handle, as long as the generations do not come to an end. -/
theorem spent_release (hh : t.contains h = true) (hlast : h.generation.toNat + 1 < UInt32.size) :
    (t.release h).Spent x ↔ t.Spent x ∨ x = h := by
  have hnext : (h.generation + 1).toNat = h.generation.toNat + 1 := by
    rw [UInt32.toNat_add]
    exact Nat.mod_eq_of_lt hlast
  unfold Spent
  rw [generation?_release hh]
  by_cases hx : x.index.toNat = h.index.toNat
  · rw [if_pos hx, hx, generation?_of_contains hh]
    have hxh : x = h ↔ x.generation.toNat = h.generation.toNat := by
      constructor
      · rintro rfl
        rfl
      · intro hg
        by_contra hne
        rcases index_ne_or_generation_ne hne with hi | ⟨-, hother⟩
        · exact hi hx.symm
        · exact hother (UInt32.toNat_inj.mp hg)
    simp only [Option.some.injEq, exists_eq_left', UInt32.lt_iff_toNat_lt, hnext, hxh]
    omega
  · have hne : x ≠ h := fun he => hx (by rw [he])
    rw [if_neg hx]
    simp [hne]

theorem release (hr : t.Recorded es) (hh : t.contains h = true)
    (hlast : Lasting (es ++ [.freed h])) : (t.release h).Recorded (es ++ [.freed h]) := by
  have hcount : ∀ i, (es ++ [Event.freed h]).countP (Event.frees i) =
      es.countP (Event.frees i) + if h.index.toNat = i then 1 else 0 := fun i => by
    simp [List.countP_append, List.countP_cons, Event.frees]
  have hgeneration := hr.generation _ _ (generation?_of_contains hh)
  have hlast' : h.generation.toNat + 1 < UInt32.size := by
    have := hlast h.index.toNat
    rw [hcount, if_pos rfl] at this
    omega
  have hspent : ∀ x, (t.release h).Spent x ↔ t.Spent x ∨ x = h := fun x =>
    spent_release hh hlast'
  have hcontains : ∀ x, (t.release h).contains x = true ↔ x ≠ h ∧ t.contains x = true := fun x => by
    rw [contains, contains, find?_release]
    by_cases hx : x = h <;> simp [hx]
  refine ⟨hr.accounts.release h, fun i g hg => ?_, fun x => ?_, fun x => ?_, ?_⟩
  · rw [generation?_release hh] at hg
    rw [hcount]
    split at hg
    · next hi =>
      rw [← Option.some.inj hg, if_pos hi.symm, hi, ← hgeneration, UInt32.toNat_add]
      exact Nat.mod_eq_of_lt hlast'
    · next hi =>
      rw [if_neg (Ne.symm hi)]
      exact hr.generation i g hg
  · rw [hspent, ← hr.freed_iff]
    simp
  · rw [hspent, hcontains, List.mem_append, hr.given_iff]
    by_cases hx : x = h
    · simp [hx, hh]
    · simp [hx]
  · refine List.nodup_append.mpr ⟨hr.nodup, List.nodup_singleton _, ?_⟩
    rintro e he e' he' rfl
    rw [List.mem_singleton.mp he', hr.freed_iff] at he
    exact Bool.false_ne_true (he.not_contains.symm.trans hh)

end Recorded

/-- **The arena agrees with everything that happened** since the tree was empty. -/
theorem recorded_of_happens (hh : Happens empty es t) (hfit : t.Fits) (hlast : Lasting es) :
    t.Recorded es := by
  induction hh with
  | nothing => exact recorded_empty
  | given _ content ih =>
    exact (ih (Nat.le_trans (length_slots_le_allocate _ content) hfit)
      hlast.of_append).allocate content hfit
  | changed _ h f ih => exact (ih (by simpa [Fits] using hfit) hlast).modify h f
  | freed _ h hlive ih =>
    exact (ih (by simpa [Fits] using hfit) hlast.of_append).release hlive hlast

namespace Recorded

/-- **A handle denotes a node exactly if it was given and not freed.** -/
theorem contains_iff (hr : t.Recorded es) (h : Handle) :
    t.contains h = true ↔ .given h ∈ es ∧ .freed h ∉ es := by
  rw [hr.given_iff, hr.freed_iff]
  constructor
  · intro hh
    exact ⟨Or.inr hh, fun hs => nomatch hs.not_contains.symm.trans hh⟩
  · rintro ⟨hs | hh, hnot⟩
    · exact absurd hs hnot
    · exact hh

/-- **A handle that is given was never given before.** -/
theorem not_given_before (hr : t.Recorded es) {front back : List Event}
    (he : es = front ++ .given h :: back) : .given h ∉ front := fun hmem => by
  have hnd := hr.nodup
  rw [he] at hnd
  exact (List.nodup_append.mp hnd).2.2 _ hmem _ List.mem_cons_self rfl

variable {t' : Tree} {es' : List Event}

/-- **A new handle was given** by what happened since. It is in the record because the arena has it,
and not given before because it would have been freed then. -/
theorem given_of_isNew (hr : t.Recorded es) (hr' : t'.Recorded (es ++ es'))
    (hnew : t.IsNew h t') : .given h ∈ es' ∧ .given h ∉ es := by
  obtain ⟨hgiven, hlive⟩ := (hr'.contains_iff h).mp hnew.contains
  have hbefore : .given h ∉ es := fun hmem => by
    have hfreed : .freed h ∉ es := fun hfreed => hlive (List.mem_append_left es' hfreed)
    exact Bool.false_ne_true (hnew.not_contains.symm.trans ((hr.contains_iff h).mpr ⟨hmem, hfreed⟩))
  exact ⟨(List.mem_append.mp hgiven).resolve_left hbefore, hbefore⟩

/-- **A handle that denotes nothing any more was freed** by what happened since. -/
theorem freed_of_not_contains (hr : t.Recorded es) (hr' : t'.Recorded (es ++ es'))
    (hh : t.contains h = true) (hgone : t'.contains h = false) : .freed h ∈ es' := by
  obtain ⟨hgiven, hlive⟩ := (hr.contains_iff h).mp hh
  by_contra hnot
  have hkept : .freed h ∉ es ++ es' := fun hmem => (List.mem_append.mp hmem).elim hlive hnot
  have hcontains := (hr'.contains_iff h).mpr ⟨List.mem_append_left es' hgiven, hkept⟩
  exact Bool.false_ne_true (hgone.symm.trans hcontains)

end Recorded

/-! ### Slots that are used again -/

/-- The empty slots are stacked, and nothing else is. -/
theorem Accounts.exists_mem_free_iff (ha : t.Accounts) (i : Nat) :
    (∃ index ∈ t.free, index.toNat = i) ↔ ∃ g, t.slots[i]? = some ⟨g, none⟩ := by
  constructor
  · rintro ⟨index, hmem, rfl⟩
    exact (ha.mem_free_iff index).mp hmem
  · rintro ⟨g, hg⟩
    have hindex := ha.toNat_index (List.getElem?_eq_some_iff.mp hg).1
    exact ⟨UInt32.ofNat i, (ha.mem_free_iff _).mpr ⟨g, by rw [hindex, hg]⟩, hindex⟩

/-- **A slot is added only if no slot is empty.** -/
theorem Accounts.length_slots_allocate (ha : t.Accounts) (content : Content) :
    (t.allocate content).2.slots.length =
      if ∀ slot ∈ t.slots, slot.node.isSome = true then t.slots.length + 1 else t.slots.length := by
  unfold Tree.allocate
  cases hfree : t.free with
  | cons index free =>
    obtain ⟨g, hslot⟩ := ha.getElem?_of_free hfree
    rw [if_neg, List.length_set]
    intro hall
    exact nomatch hall _ (List.mem_of_getElem? hslot)
  | nil =>
    rw [if_pos, List.length_append, List.length_singleton]
    intro slot hmem
    obtain ⟨i, hi, hget⟩ := List.getElem_of_mem hmem
    by_contra hempty
    obtain ⟨g, node⟩ := slot
    obtain rfl : node = none := by simpa using hempty
    obtain ⟨index, hstacked, -⟩ := (ha.exists_mem_free_iff i).mpr
      ⟨g, by rw [List.getElem?_eq_getElem hi, hget]⟩
    rw [hfree] at hstacked
    exact nomatch hstacked

/-! ### Handles that denote nothing -/

/-- The handles that an edit is given. -/
def Request.handles : Request → List Handle
  | makeData _ _ => []
  | makeObject _ _ => []
  | makeName _ value => [value]
  | attach parent h => [parent, h]
  | appendDescriptor buffer h => [buffer, h]
  | detach h => [h]
  | replace old new => [old, new]
  | delete h => [h]

/-- **An edit is refused and changes nothing, or all the handles that it is given denote nodes.** -/
theorem Request.perform_cases [Memory] (r : Request) (t : Tree) :
    (∃ e, r.perform t = .error e t) ∨ ∀ h ∈ r.handles, ∃ node, t.find? h = some node := by
  cases r with
  | makeData type bytes => exact Or.inr nofun
  | makeObject opcode name => exact Or.inr nofun
  | makeName name value =>
    -- The value is looked up before any memory is asked for.
    cases hd : t.requireDetached value with
    | error e => exact Or.inl ⟨e, map_error (bind_error (ask_error hd))⟩
    | ok u =>
      obtain ⟨node, hv, -⟩ := requireDetached_eq_ok_iff.mp hd
      exact Or.inr (List.forall_mem_singleton.mpr ⟨node, hv⟩)
  | attach p x =>
    rcases attach_cases p x t with ⟨e, herr⟩ | ⟨above, node, ha, -⟩
    · exact Or.inl ⟨e, map_error herr⟩
    · exact Or.inr (List.forall_mem_cons.mpr ⟨⟨above, ha.find_parent⟩,
        List.forall_mem_singleton.mpr ⟨node, ha.find_node⟩⟩)
  | appendDescriptor p x =>
    rcases appendDescriptor_cases p x t with ⟨e, herr⟩ | ⟨above, node, items, ha, -⟩
    · exact Or.inl ⟨e, map_error herr⟩
    · exact Or.inr (List.forall_mem_cons.mpr ⟨⟨above, ha.find_parent⟩,
        List.forall_mem_singleton.mpr ⟨node, ha.find_node⟩⟩)
  | detach x =>
    rcases detach_cases x t with ⟨e, herr⟩ | ⟨p, above, node, hx, -⟩
    · exact Or.inl ⟨e, map_error herr⟩
    · exact Or.inr (List.forall_mem_singleton.mpr ⟨node, hx⟩)
  | replace old new =>
    rcases replace_cases old new t with
      ⟨e, herr⟩ | ⟨p, position, above, oldNode, newNode, -, ho, hn, -⟩
    · exact Or.inl ⟨e, map_error herr⟩
    · exact Or.inr (List.forall_mem_cons.mpr ⟨⟨oldNode, ho⟩,
        List.forall_mem_singleton.mpr ⟨newNode, hn⟩⟩)
  | delete x =>
    rcases delete_cases x t with ⟨e, herr⟩ | ⟨node, hx, -⟩
    · exact Or.inl ⟨e, map_error herr⟩
    · exact Or.inr (List.forall_mem_singleton.mpr ⟨node, hx⟩)

/-- **A handle is rejected** by every question that is asked about it, and by every edit that it is
given to, which changes nothing. -/
structure Rejects (t : Tree) (h : Handle) : Prop where
  /-- There is no node. -/
  node : t.node h = .error (.deadNode h)
  /-- There is no opcode. -/
  opcode : t.opcode h = .error (.deadNode h)
  /-- There is no type of data. -/
  dataType : t.dataType h = .error (.deadNode h)
  /-- There are no bytes of its own. -/
  bytes : t.bytes h = .error (.deadNode h)
  /-- There are no fixed arguments. -/
  argument : ∀ place, t.argument h place = .error (.deadNode h)
  /-- There are no children. -/
  children : t.children h = .error (.deadNode h)
  /-- There is no owner. -/
  parent : t.parent h = .error (.deadNode h)
  /-- There is no End Tag. -/
  endTag? : t.endTag? h = .error (.deadNode h)
  /-- There are no bytes. -/
  encode : t.encode h = .error (.deadNode h)
  /-- No edit succeeds, whatever memory there is. -/
  edit : ∀ [Memory] (r : Request), h ∈ r.handles → ∃ e, r.perform t = .error e t

/-- **What denotes nothing is rejected.** -/
theorem rejects (hh : t.contains h = false) : t.Rejects h := by
  have hn : t.find? h = none := Option.not_isSome_iff_eq_none.mp (Bool.eq_false_iff.mp hh)
  have hnode : t.node h = .error (.deadNode h) := by rw [Tree.node, hn]
  have hcontent : t.content h = .error (.deadNode h) := by rw [Tree.content, hnode]; rfl
  refine ⟨hnode, ?_, ?_, ?_, fun place => ?_, ?_, ?_, ?_, ?_, fun {_} r hr => ?_⟩
  · rw [Tree.opcode, hcontent]; rfl
  · rw [Tree.dataType, hcontent]; rfl
  · rw [Tree.bytes, hcontent]; rfl
  · rw [Tree.argument, hcontent]; rfl
  · rw [Tree.children, hcontent]; rfl
  · rw [Tree.parent, hnode]; rfl
  · rw [Tree.endTag?, hcontent]; rfl
  · rw [Tree.encode, hnode]; rfl
  · rcases r.perform_cases t with hrefused | hlive
    · exact hrefused
    · obtain ⟨node, hx⟩ := hlive h hr
      exact absurd (hx.symm.trans hn) (Option.some_ne_none node)

end AcpiTables.Tree
