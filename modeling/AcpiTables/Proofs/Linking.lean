import AcpiTables.Proofs.Declarations
import AcpiTables.Proofs.Deleting

/-!
# Linking a descriptor

A new descriptor is linked to the `Name` that holds the list of resources. The request takes the
descriptor over: if the list cannot have it, it is discarded, and the caller has no handle to look
after. But nothing keeps a caller from linking something else. The handle may be one of a node that
is gone, of a node that is attached somewhere, or of an object with the `Name` itself below it.

The one thing to know is that whatever fails before, the tree is unchanged when the node is
discarded (`AcpiTables.Assembly.addTo_cases`). So it is only asked what the handle denotes: a
detached node goes away with its subtree, and an attached one is not touched. What is told in the
log is that a node was not deleted.

| result | theorem |
|---|---|
| what discarding does, whatever the handle denotes | `AcpiTables.Assembly.exists_discarded` |
| what linking does | `AcpiTables.Assembly.linksDescriptor` |
| the same in the trees that requests make | `AcpiTables.Assembly.linksDescriptor_run` |
-/

namespace AcpiTables.Assembly

variable {P : Kind → Prop} {w w' : Workbench} {h name buffer descriptor : Handle}

/-! ### Discarding -/

/-- **A handle was discarded**, whatever it denotes. -/
structure Discarded (w : Workbench) (h : Handle) (w' : Workbench) : Prop where
  /-- A detached node is freed with its subtree, and nothing is told. -/
  freed : w.tree.parent h = .ok none → w.tree.FreesSubtree h w'.tree ∧ w'.log = w.log
  /-- A handle that denotes nothing frees nothing, and this is told. -/
  dead : w.tree.contains h = false →
    w' = { w with log := w.log ++ [undeleted h (.deadNode h)] }
  /-- An attached node stays, and this is told. -/
  attached : ∀ p, w.tree.parent h = .ok (some p) →
    w' = { w with log := w.log ++ [undeleted h (.state (.attached h p))] }

theorem delete_dead {t : Tree} (hn : t.find? h = none) :
    Tree.delete h t = .error (.deadNode h) t := by
  have hask : t.requireDetached h = .error (.deadNode h) := by
    rw [Tree.requireDetached, Tree.parent, Tree.node, hn]
    rfl
  exact bind_error (Tree.ask_error hask)

theorem delete_attached {t : Tree} {p : Handle} (hp : t.parent h = .ok (some p)) :
    Tree.delete h t = .error (.state (.attached h p)) t := by
  have hask : t.requireDetached h = .error (.state (.attached h p)) := by
    rw [Tree.requireDetached, hp]
    rfl
  exact bind_error (Tree.ask_error hask)

/-- A handle that denotes nothing is discarded. -/
theorem discarded_dead (hn : w.tree.find? h = none) :
    Discarded w h { w with log := w.log ++ [undeleted h (.deadNode h)] } := by
  have hparent : ∀ parent, w.tree.parent h ≠ .ok parent := by
    intro parent hp
    obtain ⟨node, hn', -⟩ := Tree.parent_eq_ok_iff.mp hp
    exact Option.some_ne_none node (hn'.symm.trans hn)
  exact {
    freed := fun hp => absurd hp (hparent none)
    dead := fun _ => rfl
    attached := fun p hp => absurd hp (hparent (some p)) }

/-- A detached node is discarded. -/
theorem discarded_detached (hs : w.tree.Sound P) {node : Node} (hn : w.tree.find? h = some node)
    (hd : node.parent = none) : Discarded w h
      { w with tree := (w.tree.postorder h).foldr (fun h t => t.release h) w.tree } := by
  have hparent : w.tree.parent h = .ok none := Tree.parent_eq_ok_iff.mpr ⟨node, hn, hd⟩
  refine ⟨fun _ => ⟨hs.freesSubtree hn hd, rfl⟩, fun hdead => ?_, fun p hp => ?_⟩
  · rw [Tree.contains, hn] at hdead
    cases hdead
  · rw [hparent] at hp
    cases hp

/-- An attached node is discarded. -/
theorem discarded_attached {p : Handle} (hp : w.tree.parent h = .ok (some p)) :
    Discarded w h { w with log := w.log ++ [undeleted h (.state (.attached h p))] } := by
  refine ⟨fun hnone => ?_, fun hdead => ?_, fun q hq => ?_⟩
  · rw [hp] at hnone
    cases hnone
  · obtain ⟨node, hn, -⟩ := Tree.parent_eq_ok_iff.mp hp
    rw [Tree.contains, hn] at hdead
    cases hdead
  · rw [hp] at hq
    cases hq
    rfl

/-- **Discarding does not fail**, and what it does depends only on what the handle denotes. -/
theorem exists_discarded (hs : w.tree.Sound P) (h : Handle) :
    ∃ w', discard h w = .ok () w' ∧ Discarded w h w' := by
  cases hn : w.tree.find? h with
  | none => exact ⟨_, discard_error (delete_dead hn), discarded_dead hn⟩
  | some node =>
    cases hd : node.parent with
    | none => exact ⟨_, discard_ok (Tree.delete_ok hn hd), discarded_detached hs hn hd⟩
    | some p =>
      have hp : w.tree.parent h = .ok (some p) := Tree.parent_eq_ok_iff.mpr ⟨node, hn, hd⟩
      exact ⟨_, discard_error (delete_attached hp), discarded_attached hp⟩

/-! ### Lists of resources -/

/-- **A `Name` holds a list of resources**: its value is a buffer. -/
def HoldsTemplate (t : Tree) (name buffer : Handle) : Prop :=
  t.opcode name = .ok (some .name) ∧ t.argument name 1 = .ok (some buffer) ∧
    t.opcode buffer = .ok (some .buffer)

theorem holdsTemplate_iff {t : Tree} :
    HoldsTemplate t name buffer ↔ templateBuffer t name = .ok buffer := by
  rw [templateBuffer_eq_ok_iff]
  constructor
  · rintro ⟨hopcode, hargument, hbuffer⟩
    obtain ⟨⟨content, above⟩, hn, hcontent⟩ := Tree.opcode_eq_ok_iff.mp hopcode
    obtain ⟨label, value, rfl⟩ := Content.opcode_eq_name_iff.mp hcontent
    obtain ⟨⟨content, below⟩, hb, hcontent⟩ := Tree.opcode_eq_ok_iff.mp hbuffer
    obtain ⟨items, rfl⟩ := Content.opcode_eq_buffer_iff.mp hcontent
    obtain rfl : value = buffer :=
      Option.some.inj (Except.ok.inj ((Tree.argument_eq hn 1).symm.trans hargument))
    exact ⟨label, items, above, below, hn, hb⟩
  · rintro ⟨label, items, above, below, hn, hb⟩
    exact ⟨Tree.opcode_eq hn, Tree.argument_eq hn 1, Tree.opcode_eq hb⟩

/-! ### Linking -/

/-- Adds a descriptor to the resources of a `Name`. -/
def addTo (descriptor name : Handle) : AssemblyM Unit := do
  let buffer ← ask fun t => templateBuffer t name
  onTree (Tree.appendDescriptor buffer descriptor)

theorem linkDescriptor_eq (descriptor name : Handle) :
    linkDescriptor descriptor (some name) = orDiscard descriptor (addTo descriptor name) := rfl

/-- Why a descriptor is not added: there is no list of resources, or it cannot have the
descriptor. -/
def Refused (t : Tree) (descriptor name : Handle) (e : Error) : Prop :=
  templateBuffer t name = .error e ∨ ∃ buffer, HoldsTemplate t name buffer ∧
    Tree.appendDescriptor buffer descriptor t = .error e t

/-- **What adding a descriptor does**: nothing, with an error, or what adding it to the buffer
does. -/
theorem addTo_cases (descriptor name : Handle) (w : Workbench) :
    (∃ e, addTo descriptor name w = .error e w ∧ Refused w.tree descriptor name e) ∨
      ∃ buffer t', HoldsTemplate w.tree name buffer ∧
        Tree.appendDescriptor buffer descriptor w.tree = .ok () t' := by
  cases hb : templateBuffer w.tree name with
  | error e => exact Or.inl ⟨e, bind_error (ask_error hb), Or.inl hb⟩
  | ok buffer =>
    have hholds := holdsTemplate_iff.mpr hb
    rcases Tree.appendDescriptor_cases buffer descriptor w.tree with
      ⟨e, herr⟩ | ⟨above, node, items, -, -, hok⟩
    · have hrun : addTo descriptor name w = .error e w :=
        (bind_ok (ask_ok hb)).trans (onTree_error herr)
      exact Or.inl ⟨e, hrun, Or.inr ⟨buffer, hholds, herr⟩⟩
    · exact Or.inr ⟨buffer, _, hholds, hok⟩

/-- A descriptor that can be added is linked. -/
theorem linkDescriptor_ok {t' : Tree} (hholds : HoldsTemplate w.tree name buffer)
    (happend : Tree.appendDescriptor buffer descriptor w.tree = .ok () t') :
    linkDescriptor descriptor (some name) w = .ok () { w with tree := t' } := by
  have hask : ask (fun t => templateBuffer t name) w = .ok buffer w :=
    ask_ok (holdsTemplate_iff.mp hholds)
  rw [linkDescriptor_eq]
  exact tryCatch_ok ((bind_ok hask).trans (onTree_ok happend))

/-- **What linking does**: it adds the descriptor, or it fails and the descriptor is discarded. -/
theorem linkDescriptor_cases (hs : w.tree.Sound P) (descriptor name : Handle) :
    (∃ e w', linkDescriptor descriptor (some name) w = .error e w' ∧
      Refused w.tree descriptor name e ∧ Discarded w descriptor w') ∨
      ∃ buffer t', HoldsTemplate w.tree name buffer ∧
        Tree.appendDescriptor buffer descriptor w.tree = .ok () t' := by
  rw [linkDescriptor_eq]
  rcases addTo_cases descriptor name w with ⟨e, herr, hrefused⟩ | hadded
  · obtain ⟨w', hdiscard, hdiscarded⟩ := exists_discarded hs descriptor
    exact Or.inl ⟨e, w', orDiscard_error herr hdiscard, hrefused, hdiscarded⟩
  · exact Or.inr hadded

/-- **Linking a handle**, whatever it denotes. -/
structure LinksDescriptor (w : Workbench) (descriptor : Handle) : Prop where
  /-- Nothing happens if no `Name` is given. -/
  absent : linkDescriptor descriptor none w = .ok () w
  /-- It succeeds exactly if the `Name` holds a list and the descriptor can be added to it. -/
  succeeds_iff : ∀ name, (∃ w', linkDescriptor descriptor (some name) w = .ok () w') ↔
    ∃ buffer t', HoldsTemplate w.tree name buffer ∧
      Tree.appendDescriptor buffer descriptor w.tree = .ok () t'
  /-- It does then what adding the descriptor does, and nothing is told. -/
  appended : ∀ name buffer t', HoldsTemplate w.tree name buffer →
    Tree.appendDescriptor buffer descriptor w.tree = .ok () t' →
      linkDescriptor descriptor (some name) w = .ok () { w with tree := t' }
  /-- Otherwise the error says why the descriptor was not added, and not why a node was not
  deleted. -/
  refused : ∀ name e w', linkDescriptor descriptor (some name) w = .error e w' →
    Refused w.tree descriptor name e
  /-- The handle is discarded then. -/
  discarded : ∀ name e w', linkDescriptor descriptor (some name) w = .error e w' →
    Discarded w descriptor w'

theorem linksDescriptor (hs : w.tree.Sound P) (descriptor : Handle) :
    LinksDescriptor w descriptor where
  absent := rfl
  succeeds_iff name := by
    constructor
    · rintro ⟨w', hok⟩
      rcases linkDescriptor_cases hs descriptor name with ⟨e, w', herr, -⟩ | hadded
      · exact nomatch hok.symm.trans herr
      · exact hadded
    · rintro ⟨buffer, t', hholds, happend⟩
      exact ⟨_, linkDescriptor_ok hholds happend⟩
  appended _ _ _ := linkDescriptor_ok
  refused name e w' herr := by
    rcases linkDescriptor_cases hs descriptor name with
      ⟨e', v, herr', hrefused, -⟩ | ⟨buffer, t', hholds, happend⟩
    · obtain ⟨rfl, rfl⟩ := EStateM.Result.error.inj (herr.symm.trans herr')
      exact hrefused
    · exact nomatch herr.symm.trans (linkDescriptor_ok hholds happend)
  discarded name e w' herr := by
    rcases linkDescriptor_cases hs descriptor name with
      ⟨e', v, herr', -, hdiscarded⟩ | ⟨buffer, t', hholds, happend⟩
    · obtain ⟨rfl, rfl⟩ := EStateM.Result.error.inj (herr.symm.trans herr')
      exact hdiscarded
    · exact nomatch herr.symm.trans (linkDescriptor_ok hholds happend)

/-- **Linking a handle in a tree that requests make** adds the descriptor, or frees it if it is
detached, or leaves everything as it is. -/
theorem linksDescriptor_run (attempts : List (Attempt Request)) (hfit : (run attempts).Fits)
    (log : List Log.Entry) (descriptor : Handle) :
    LinksDescriptor ⟨run attempts, log⟩ descriptor := by
  have hs : (Workbench.mk (run attempts) log).tree.Sound fun _ => True := sound_run_true hfit
  exact linksDescriptor hs descriptor

/-- A second End Tag for a list of resources. -/
theorem linksDescriptor_run_endTag : LinksDescriptor ⟨run (amply [.declareTemplate "_CRS" none,
    .edit (.makeData .resourceData Resource.endTag)]), []⟩ ⟨4, 0⟩ :=
  linksDescriptor_run _ (by decide) [] ⟨4, 0⟩

end AcpiTables.Assembly
