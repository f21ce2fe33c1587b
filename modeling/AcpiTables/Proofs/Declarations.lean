import AcpiTables.Proofs.Ends
import AcpiTables.Proofs.Resource.Interrupt
import AcpiTables.Proofs.Tree.Edited

/-!
# How declarations end

A declaration makes several nodes, and it may fail when some of them are there already. Then
these are deleted again, and this goes well. So a declaration that fails has changed nothing that
a tree can be asked for (`AcpiTables.Assembly.unchanged_of_error`).

Declarations fail on their arguments, or for want of memory. Most arguments are looked at before a
node is made. What is found out late is that a name cannot be written, and that there is no memory
for the next node. By then there may be the value of the `Name`, or a buffer with an End Tag in it,
and just these are deleted.

| declaration | how it ends |
|---|---|
| a `Name` with a value | `AcpiTables.Assembly.ends_declareValue` |
| a list of resources | `AcpiTables.Assembly.ends_declareTemplate` |
| a region | `AcpiTables.Assembly.ends_declareRegion` |
| an interrupt | `AcpiTables.Assembly.ends_addInterrupt` |
| any of them, with a new handle | `AcpiTables.Assembly.Request.ends` |
-/

namespace AcpiTables.Assembly

open AcpiTables.Tree (requireData)

variable {w w' : Workbench} {h p : Handle} {parent : Option Handle}

/-! ### Declarations -/

theorem leads_makeName [memory : Memory] (name : String) (value : Handle) :
    Keeps (Leads fun _ => True) (onTree (Tree.makeName name value)) :=
  leads_onTree (Tree.leads_makeName Kind.criterion_true name value)

/-- A question about the parent comes first, and nothing has happened if it fails. -/
theorem ends_requireParent [memory : Memory] {cause : Prop} {f : Unit → AssemblyM Handle}
    {Q : Handle → Workbench → Prop} (hf : requireParent w.tree parent = .ok () →
      Ends (f ()) w Q fun w' => Undone w w' ∧ (memory.Suffices → cause)) :
    Ends (ask (fun t => requireParent t parent) >>= f) w Q fun w' => Undone w w' ∧
      (memory.Suffices → requireParent w.tree parent = .ok () → cause) := by
  refine Ends.asked (fun _ hok => ?_) fun e he => ?_
  · exact (hf hok).mono_error fun w' hE => ⟨hE.1, fun hmemory _ => hE.2 hmemory⟩
  · exact ⟨Undone.refl w, fun _ hok => nomatch he.symm.trans hok⟩

/-- **A `Name` with a value** is declared, unless the parent, the value or the name is none. -/
theorem ends_declareValue [memory : Memory] (name : String) (value : Bytes)
    (parent : Option Handle) : Ends (declareValue name value parent) w
      (fun h w' => ∃ label below bytes, Aml.objectName name false = .ok bytes ∧
        Declared w [h, label, below] h (.name label below) parent w' ∧
        w'.tree.find? label = some ⟨.data .nameString bytes, some h⟩ ∧
        w'.tree.find? below = some ⟨.data .raw value, some h⟩)
      (fun w' => Undone w w' ∧ (memory.Suffices → requireParent w.tree parent = .ok () →
        requireData .raw value = .ok () → ∀ bytes, Aml.objectName name false ≠ .ok bytes)) := by
  intro hs
  refine ends_requireParent (fun hparent => ?_) hs
  refine ((ends_makeData .raw value).mono_error ?_).bind (fun below w₁ hs₁ => ?_) ?_ fun below => ?_
  · rintro w' ⟨hundone, hdata⟩
    exact ⟨hundone, fun hmemory hok => absurd hok (hdata hmemory)⟩
  · rintro ⟨hdata, hg₁, hbelow⟩
    refine Ends.bind (Ends.orDiscard ((ends_makeName hg₁ List.mem_cons_self hbelow rfl
      name).mono_error_sound (leads_makeName name below) ?_) (leads_makeName name below))
      (fun h w₂ hs₂ => ?_)
      (leads_orDiscard (leads_makeName name below)) fun h => leads_attach h parent
    · -- The `Name` may have come to nothing by way of a label, and the value is still there.
      rintro w' hs' ⟨hundone, hname⟩
      obtain ⟨t, hdelete, hundone⟩ := hg₁.undone_leaf hundone hs' hbelow rfl rfl
      exact ⟨t, hdelete, hundone, fun hmemory _ => hname hmemory⟩
    · rintro ⟨label, bytes, hname, hg₂, hh, hlabel, hbelow₂, -⟩
      refine (ends_attach hs hparent hg₂ List.mem_cons_self hh rfl).mono ?_ fun _ => False.elim
      rintro h' w₃ ⟨hdeclared, rfl, hparts⟩
      exact ⟨label, below, bytes, hname, hdeclared, hparts label (by simp) _ _ hlabel,
        hparts below (by simp) _ _ hbelow₂⟩
  · exact leads_onTree (Tree.leads_makeData fun _ => trivial)
  · exact (leads_orDiscard (leads_makeName name below)).andThen fun h => leads_attach h parent

/-- The steps of `declareTemplate` that follow on the new buffer. -/
def nameTemplate [memory : Memory] (name : String) (buffer : Handle) : AssemblyM Handle := do
  let endTag ← onTree (Tree.makeData .resourceData Resource.endTag)
  orDiscard endTag (onTree (Tree.attach buffer endTag))
  onTree (Tree.makeName name buffer)

theorem leads_attachFirst (buffer descriptor : Handle) : Keeps (Leads fun _ => True)
    (orDiscard descriptor (onTree (Tree.attach buffer descriptor))) :=
  leads_orDiscard (leads_onTree (Tree.leads_attach buffer descriptor))

theorem leads_nameTemplate [memory : Memory] (name : String) (buffer : Handle) :
    Keeps (Leads fun _ => True) (nameTemplate name buffer) := by
  refine (leads_makeDescriptor criterion_true _).andThen fun endTag => ?_
  exact (leads_attachFirst buffer endTag).andThen fun _ => leads_makeName name buffer

/-- An End Tag goes into a new buffer, and the buffer becomes the value of a `Name`, unless the
name cannot be written. Then the buffer and the End Tag are all that is new. -/
theorem ends_nameTemplate [memory : Memory] {w₀ : Workbench} {buffer : Handle}
    (hg : Gains w₀ [buffer] w) (hb : w.tree.find? buffer = some ⟨.buffer [], none⟩)
    (name : String) : Ends (nameTemplate name buffer) w
      (fun h w' => ∃ label endTag bytes, Aml.objectName name false = .ok bytes ∧
        Gains w₀ [h, label, endTag, buffer] w' ∧
        w'.tree.find? h = some ⟨.name label buffer, none⟩ ∧
        w'.tree.find? label = some ⟨.data .nameString bytes, some h⟩ ∧
        w'.tree.find? buffer = some ⟨.buffer [endTag], some h⟩ ∧
        w'.tree.find? endTag = some ⟨.data .resourceData Resource.endTag, some buffer⟩)
      fun w' => ∃ t, Tree.delete buffer w'.tree = .ok () t ∧ Undone w₀ { w' with tree := t } ∧
        (memory.Suffices → ∀ bytes, Aml.objectName name false ≠ .ok bytes) := by
  intro hs
  refine ((ends_makeData .resourceData Resource.endTag).mono_error_sound (leads_makeDescriptor
    criterion_true _) ?_).bind (fun endTag w₁ hs₁ => ?_) (leads_makeDescriptor criterion_true _)
    (fun endTag => (leads_attachFirst buffer endTag).andThen fun _ => leads_makeName name buffer) hs
  · rintro w' hs' ⟨hundone, hdata⟩
    obtain ⟨t, hdelete, hundone⟩ := hg.undone_leaf hundone hs' hb rfl rfl
    exact ⟨t, hdelete, hundone, fun hmemory => absurd rfl (hdata hmemory)⟩
  · rintro ⟨-, hg₁, htag₁⟩
    refine ((ends_attachFirst hs hb hg₁ htag₁).mono_error fun _ => False.elim).bind
      (fun _ w₂ hs₂ => ?_) (leads_attachFirst buffer endTag) fun _ => leads_makeName name buffer
    rintro ⟨hlog₂, hb₂, htag₂, hkept₂⟩
    have hg₂ : Gains w₀ [endTag, buffer] w₂ := by
      refine ⟨(hg.grown.trans hg₁.grown).change fun x hx => ?_,
        hlog₂.trans (hg₁.log_eq.trans hg.log_eq)⟩
      simp only [List.cons_append, List.nil_append, List.mem_cons, List.not_mem_nil, or_false,
        not_or] at hx
      exact hkept₂ x hx.2 hx.1
    refine ((ends_makeName hg₂ (by simp) hb₂ rfl name).sound (leads_makeName name
      buffer)).mono ?_ ?_
    · rintro h w₃ ⟨-, label, bytes, hname, hg₃, hh, hlabel, hb₃, hkept₃⟩
      have hne : endTag ≠ buffer := by
        rintro rfl
        exact nomatch htag₂.symm.trans hb₂
      exact ⟨label, endTag, bytes, hname, hg₃, hh, hlabel, hb₃, hkept₃ _ _ hne htag₂⟩
    · rintro w' ⟨hs', hundone, hname⟩
      have hb' := (hundone.same buffer).trans hb₂
      have htag' := (hundone.same endTag).trans htag₂
      obtain ⟨t, hdelete, hundone⟩ := (hg₂.of_undone hundone).undone hb' rfl fun x => by
        rw [hs'.postorder_eq hb', Content.links_buffer, List.flatMap_cons, List.flatMap_nil,
          hs'.postorder_leaf htag' rfl]
        rfl
      exact ⟨t, hdelete, hundone, hname⟩

/-- **A list of resources** is declared, unless the parent or the name is none. -/
theorem ends_declareTemplate [memory : Memory] (name : String) (parent : Option Handle) :
    Ends (declareTemplate name parent) w
      (fun h w' => ∃ label buffer endTag bytes, Aml.objectName name false = .ok bytes ∧
        Declared w [h, label, endTag, buffer] h (.name label buffer) parent w' ∧
        w'.tree.find? label = some ⟨.data .nameString bytes, some h⟩ ∧
        w'.tree.find? buffer = some ⟨.buffer [endTag], some h⟩ ∧
        w'.tree.find? endTag = some ⟨.data .resourceData Resource.endTag, some buffer⟩)
      (fun w' => Undone w w' ∧ (memory.Suffices → requireParent w.tree parent = .ok () →
        ∀ bytes, Aml.objectName name false ≠ .ok bytes)) := by
  intro hs
  refine ends_requireParent (fun hparent => ?_) hs
  refine (ends_makeBuffer.mono_error fun w' hE =>
      ⟨hE.1, fun hmemory => (hE.2 hmemory).elim⟩).bind
    (fun buffer w₁ hs₁ => ?_) (leads_onTree (Tree.leads_makeBuffer Kind.criterion_true))
    fun buffer => (leads_orDiscard (leads_nameTemplate name buffer)).andThen
      fun h => leads_attach h parent
  rintro ⟨hg₁, hb₁⟩
  refine (Ends.orDiscard (ends_nameTemplate hg₁ hb₁ name) (leads_nameTemplate name buffer)).bind
    (fun h w₂ hs₂ => ?_) (leads_orDiscard (leads_nameTemplate name buffer))
    fun h => leads_attach h parent
  rintro ⟨label, endTag, bytes, hname, hg₂, hh, hlabel, hb₂, htag₂⟩
  refine (ends_attach hs hparent hg₂ List.mem_cons_self hh rfl).mono ?_ fun _ => False.elim
  rintro h' w₃ ⟨hdeclared, rfl, hparts⟩
  exact ⟨label, buffer, endTag, bytes, hname, hdeclared, hparts label (by simp) _ _ hlabel,
    hparts buffer (by simp) _ _ hb₂, hparts endTag (by simp) _ _ htag₂⟩

/-- **A region** is declared, unless the parent or the name is none. -/
theorem ends_declareRegion [memory : Memory] (kind : Region) (name : String)
    (parent : Option Handle) : Ends (declareRegion kind name parent) w
      (fun h w' => ∃ label bytes, Aml.objectName name (kind == .scope) = .ok bytes ∧
        Declared w [h, label] h (.region kind label []) parent w' ∧
        w'.tree.find? label = some ⟨.data .nameString bytes, some h⟩)
      (fun w' => Undone w w' ∧ (memory.Suffices → requireParent w.tree parent = .ok () →
        ∀ bytes, Aml.objectName name (kind == .scope) ≠ .ok bytes)) := by
  intro hs
  refine ends_requireParent (fun hparent => ?_) hs
  refine (Ends.bind (Q := fun h w₁ => ∃ label bytes,
      Aml.objectName name (kind == .scope) = .ok bytes ∧ Gains w [h, label] w₁ ∧
      w₁.tree.find? h = some ⟨.region kind label [], none⟩ ∧
      w₁.tree.find? label = some ⟨.data .nameString bytes, some h⟩)
    (ends_provided (Tree.provided_makeRegion kind name w.tree) fun hs hfit => ?_)
    (fun h w₁ hs₁ => ?_) (leads_onTree (Tree.leads_makeRegion Kind.criterion_true kind name))
    fun h => leads_attach h parent)
  · cases hname : Aml.objectName name (kind == .scope) with
    | error e =>
      rw [onTree_error (@Tree.makeRegion_error .ample _ _ _ hname w.tree)]
      exact ⟨Undone.refl w, nofun⟩
    | ok bytes =>
      rw [after_onTree] at hfit
      obtain ⟨h, label, t, hok, hg, hh, hlabel⟩ := hs.accounts.grown_makeRegion hname hfit
      rw [onTree_ok hok]
      exact ⟨label, bytes, rfl, ⟨hg, rfl⟩, hh, hlabel⟩
  · rintro ⟨label, bytes, hname, hg₁, hh, hlabel⟩
    refine (ends_attach hs hparent hg₁ List.mem_cons_self hh rfl).mono ?_ fun _ => False.elim
    rintro h' w₂ ⟨hdeclared, rfl, hparts⟩
    exact ⟨label, bytes, hname, hdeclared, hparts label (by simp) _ _ hlabel⟩

/-! ### Interrupts -/

/-- The list of resources of a `Name` is its value, if that is a buffer. -/
theorem templateBuffer_eq {t : Tree} {name label value : Handle} {above : Option Handle}
    (hn : t.find? name = some ⟨.name label value, above⟩) : templateBuffer t name =
      if t.hasOpcode value .buffer then .ok value else .error (.parameter (.noTemplate name)) := by
  have hopcode : t.hasOpcode name .name = true := by rw [Tree.hasOpcode_eq hn]; rfl
  have hargument : t.argument name 1 = .ok (some value) := by
    rw [Tree.argument, Tree.content, Tree.node, hn]
    rfl
  rw [templateBuffer, hopcode, hargument]
  rfl

/-- **The list of resources of a `Name`** is the buffer that is its value. -/
theorem templateBuffer_eq_ok_iff {t : Tree} {name buffer : Handle} :
    templateBuffer t name = .ok buffer ↔ ∃ label items above below,
      t.find? name = some ⟨.name label buffer, above⟩ ∧
        t.find? buffer = some ⟨.buffer items, below⟩ := by
  constructor
  · intro hbuffer
    have hopcode : t.hasOpcode name .name = true := by
      by_contra hnot
      rw [templateBuffer, Bool.eq_false_iff.mpr hnot] at hbuffer
      exact nomatch hbuffer
    obtain ⟨⟨content, above⟩, hn, hcontent⟩ := Tree.hasOpcode_iff.mp hopcode
    obtain ⟨label, value, rfl⟩ := Content.opcode_eq_name_iff.mp hcontent
    rw [templateBuffer_eq hn] at hbuffer
    by_cases hvalue : t.hasOpcode value .buffer = true
    · rw [if_pos hvalue] at hbuffer
      obtain rfl := Except.ok.inj hbuffer
      obtain ⟨⟨content, below⟩, hb, hcontent⟩ := Tree.hasOpcode_iff.mp hvalue
      obtain ⟨items, rfl⟩ := Content.opcode_eq_buffer_iff.mp hcontent
      exact ⟨label, items, above, below, hn, hb⟩
    · rw [if_neg hvalue] at hbuffer
      exact nomatch hbuffer
  · rintro ⟨label, items, above, below, hn, hb⟩
    rw [templateBuffer_eq hn, Tree.hasOpcode_eq hb]
    rfl

/-- Asks that a `Name`, if one is given, holds a list of resources. -/
def requireTemplate (t : Tree) : Option Handle → Except Error Unit
  | none => .ok ()
  | some name => (fun _ => ()) <$> templateBuffer t name

/-- Makes an interrupt descriptor, once it is known where it belongs. -/
def makeInterrupt [memory : Memory] (signalling : Resource.Signalling) (numbers : List UInt32)
    (name : Option Handle) : AssemblyM Handle := do
  let bytes ← ask fun _ =>
    Resource.Interrupt.encodeCounted signalling numbers (UInt8.ofNat numbers.length)
  let descriptor ← onTree (Tree.makeData .resourceData bytes)
  linkDescriptor descriptor name
  tell .debug (s!"Generated Interrupt descriptor {descriptor} for " ++
    Text.listed (numbers.map UInt32.toNat))
  return descriptor

/-- Adding an interrupt is counting, asking and making. -/
theorem addInterrupt_eq [memory : Memory] (signalling : Resource.Signalling) (numbers : List UInt32)
    (name : Option Handle) : addInterrupt signalling numbers name =
      if numbers.isEmpty || Resource.maxInterrupts < numbers.length then
        throw (.parameter (.interruptCount numbers.length))
      else (ask fun t => requireTemplate t name) >>= fun _ =>
        makeInterrupt signalling numbers name := by
  funext w
  by_cases hcount : (numbers.isEmpty || Resource.maxInterrupts < numbers.length) = true
  · rw [if_pos hcount]
    rcases name with _ | name
    · simp only [addInterrupt, if_pos hcount]
      rfl
    · simp only [addInterrupt, if_pos hcount]
      rfl
  · rw [if_neg hcount]
    rcases name with _ | name
    · simp only [addInterrupt, if_neg hcount]
      rfl
    · simp only [addInterrupt, if_neg hcount]
      cases hb : templateBuffer w.tree name with
      | error e =>
        have hrequire : requireTemplate w.tree (some name) = .error e := by
          rw [requireTemplate, hb]
          rfl
        exact (bind_error (ask_error hb)).trans (bind_error (ask_error hrequire)).symm
      | ok buffer =>
        have hrequire : requireTemplate w.tree (some name) = .ok () := by
          rw [requireTemplate, hb]
          rfl
        have hasked : ask (fun t => requireTemplate t (some name)) w = .ok () w := ask_ok hrequire
        have hrun := bind_ok (f := fun _ => makeInterrupt signalling numbers (some name)) hasked
        exact (bind_ok (ask_ok hb)).trans hrun.symm

/-- **A new descriptor in a buffer**, in front of the End Tag if there is one. -/
structure Inserted (t : Tree) (bytes : Bytes) (buffer h : Handle) (t' : Tree) : Prop where
  /-- The descriptor is new. -/
  new : t.find? h = none
  /-- The descriptor is there, in the buffer. -/
  found : t'.find? h = some ⟨.data .resourceData bytes, some buffer⟩
  /-- The buffer lists it. -/
  listed : ∀ items parent, t.find? buffer = some ⟨.buffer items, parent⟩ → t'.find? buffer =
    some ⟨.buffer (Tree.insertItem (t.endsInTag (.buffer items)) items h), parent⟩
  /-- Everything else is as it was. -/
  kept : ∀ x, x ≠ h → x ≠ buffer → t'.find? x = t.find? x

/-- Where a new descriptor ends up: in the list of a `Name`, or nowhere. -/
def Filed (t : Tree) (bytes : Bytes) (h : Handle) (t' : Tree) : Option Handle → Prop
  | none => t.Grown [h] t' ∧ t'.find? h = some ⟨.data .resourceData bytes, none⟩
  | some name => ∃ buffer, templateBuffer t name = .ok buffer ∧ Inserted t bytes buffer h t'

/-- **A new descriptor that is no End Tag is linked**, and this does not fail. -/
theorem ends_linkNew {w₀ : Workbench} {descriptor : Handle} {bytes : Bytes} {name : Option Handle}
    (hs₀ : w₀.tree.Sound fun _ => True) (hname : requireTemplate w₀.tree name = .ok ())
    (hg : Gains w₀ [descriptor] w)
    (hd : w.tree.find? descriptor = some ⟨.data .resourceData bytes, none⟩)
    (htag : Resource.startsWithEndTag bytes = false) :
    Ends (linkDescriptor descriptor name) w
      (fun _ w' => Filed w₀.tree bytes descriptor w'.tree name) fun _ => False := by
  intro hs hfit
  rcases name with _ | name
  · exact ⟨hg.grown, hd⟩
  · obtain ⟨buffer, hbuffer, -⟩ := map_eq_ok.mp hname
    obtain ⟨label, items, above, below, hn, hb⟩ := templateBuffer_eq_ok_iff.mp hbuffer
    have hbuffer' : templateBuffer w.tree name = .ok buffer := templateBuffer_eq_ok_iff.mpr
      ⟨label, items, above, below, hg.grown.find?_old hn, hg.grown.find?_old hb⟩
    have ha := hg.grown.attachable hs₀.toOrdered hs.toOrdered hb List.mem_cons_self hd rfl rfl
      fun _ => (Tree.isEndTag_eq hd).trans htag
    have hrun : linkDescriptor descriptor (some name) w = _ :=
      tryCatch_ok ((bind_ok (ask_ok hbuffer')).trans (onTree_ok (Tree.appendDescriptor_ok ha rfl)))
    rw [hrun]
    refine ⟨buffer, hbuffer, hg.grown.new _ List.mem_cons_self,
      (ha.find?_attached descriptor).trans (if_pos rfl), fun items' parent hb' => ?_,
      fun x hxd hxb => ?_⟩
    · obtain ⟨hc, rfl⟩ := Node.mk.inj (Option.some.inj (hb.symm.trans hb'))
      obtain rfl := Content.buffer.inj hc
      have hends := Tree.endsInTag_of_kept hs₀.toOrdered hb fun x node hx => hg.grown.find?_old hx
      refine (ha.find?_attached buffer).trans ((if_neg ha.ne).trans ((if_pos rfl).trans ?_))
      rw [hends]
      rfl
    · refine (ha.find?_attached x).trans ((if_neg hxd).trans ((if_neg hxb).trans ?_))
      exact hg.grown.kept x (by simpa using hxd)

/-- A descriptor that can list the interrupts is made and linked, if there is memory for it. -/
theorem ends_makeInterrupt [memory : Memory] (i : Resource.Interrupt) {name : Option Handle}
    (hname : requireTemplate w.tree name = .ok ()) :
    Ends (makeInterrupt i.signalling i.numbers name) w
      (fun h w' => Filed w.tree i.encode h w'.tree name)
      fun w' => Undone w w' ∧ (memory.Suffices → False) := by
  have htell : ∀ descriptor : Handle, Keeps (Leads fun _ => True) (do
      tell .debug (s!"Generated Interrupt descriptor {descriptor} for " ++
        Text.listed (i.numbers.map UInt32.toNat))
      return descriptor) := fun descriptor =>
    (leads_tell _ _).andThen fun _ => Keeps.pure descriptor
  intro hs
  refine Ends.asked (fun bytes hbytes => ?_) (fun e he => ?_) hs
  · obtain rfl := Except.ok.inj (i.encodeCounted_eq.symm.trans hbytes)
    refine ((ends_makeData .resourceData i.encode).mono_error ?_).bind
      (fun descriptor w₁ hs₁ => ?_) (leads_makeDescriptor criterion_true _)
      fun descriptor => (leads_linkDescriptor descriptor name).andThen fun _ => htell descriptor
    · rintro w' ⟨hundone, hdata⟩
      exact ⟨hundone, fun hmemory =>
        hdata hmemory (Tree.requireData_of_checkDescriptor i.checkDescriptor_encode)⟩
    · rintro ⟨-, hg, hd⟩
      have htag : Resource.startsWithEndTag i.encode = false := by
        have := i.startsWithEndTag_encode []
        rwa [List.append_nil] at this
      refine ((ends_linkNew hs hname hg hd htag).mono_error fun _ => False.elim).bind
        (fun _ w₂ _ hfiled => ?_) (leads_linkDescriptor descriptor name) fun _ => htell descriptor
      exact fun _ _ => hfiled
  · exact nomatch i.encodeCounted_eq.symm.trans he

/-- **An interrupt** is added, unless there are too few or too many of them or the `Name` holds no
list of resources. -/
theorem ends_addInterrupt [memory : Memory] (signalling : Resource.Signalling)
    (numbers : List UInt32) (name : Option Handle) : Ends (addInterrupt signalling numbers name) w
      (fun h w' => ∃ i : Resource.Interrupt, i.signalling = signalling ∧ i.numbers = numbers ∧
        Filed w.tree i.encode h w'.tree name)
      (fun w' => Undone w w' ∧ (memory.Suffices → numbers ≠ [] →
        numbers.length ≤ Resource.maxInterrupts → requireTemplate w.tree name ≠ .ok ())) := by
  rw [addInterrupt_eq]
  by_cases hcount : (numbers.isEmpty || Resource.maxInterrupts < numbers.length) = true
  · rw [if_pos hcount]
    refine Ends.fail ⟨Undone.refl w, fun _ hne hle => ?_⟩
    simp [hne, Nat.not_lt.mpr hle] at hcount
  · rw [if_neg hcount]
    simp only [Bool.or_eq_true, List.isEmpty_iff, decide_eq_true_eq, not_or, Nat.not_lt] at hcount
    obtain ⟨i, rfl, rfl⟩ : ∃ i : Resource.Interrupt, i.signalling = signalling ∧
        i.numbers = numbers := ⟨⟨signalling, numbers, hcount.1, hcount.2⟩, rfl, rfl⟩
    refine Ends.asked (fun _ hname => ?_) (fun e he => ?_)
    · refine (ends_makeInterrupt i hname).mono (fun h w' hfiled => ?_) fun w' hE =>
        ⟨hE.1, fun hmemory => (hE.2 hmemory).elim⟩
      exact ⟨i, rfl, rfl, hfiled⟩
    · exact ⟨Undone.refl w, fun _ _ _ hok => nomatch he.symm.trans hok⟩

/-! ### Requests -/

/-- **A request makes a node**, if it returns a handle, and keeps the kinds of all others. -/
structure Makes (w : Workbench) (result : Option Handle) (w' : Workbench) : Prop where
  /-- What is returned is new. -/
  isNew : ∀ h ∈ result, w.tree.IsNew h w'.tree
  /-- Nodes are of the kinds they were of. -/
  kind?_eq : ∀ x k, w.tree.kind? x = some k → w'.tree.kind? x = some k

/-- An object that was declared is new. -/
theorem Declared.makes {ns : List Handle} {content : Content}
    (hd : Declared w ns h content parent w') (hmem : h ∈ ns) : Makes w (some h) w' where
  isNew _ hx := Option.some.inj hx ▸ Tree.isNew_of_find? (hd.new h hmem) hd.found
  kind?_eq := hd.kinds

theorem Filed.kind?_eq {bytes : Bytes} {name : Option Handle}
    (hf : Filed w.tree bytes h w'.tree name) {x : Handle} {k : Kind}
    (hx : w.tree.kind? x = some k) : w'.tree.kind? x = some k := by
  obtain ⟨node, hn, rfl⟩ := Option.map_eq_some_iff.mp hx
  rcases name with _ | name
  · exact Tree.kind?_eq (hf.1.find?_old hn)
  · obtain ⟨buffer, hbuffer, hins⟩ := hf
    obtain ⟨label, items, above, below, -, hb⟩ := templateBuffer_eq_ok_iff.mp hbuffer
    have hxh : x ≠ h := by
      rintro rfl
      exact nomatch hins.new.symm.trans hn
    by_cases hxb : x = buffer
    · rw [hxb, Tree.kind?_eq (hins.listed items below hb)]
      obtain rfl := Option.some.inj ((hxb ▸ hn).symm.trans hb)
      rfl
    · exact Tree.kind?_eq ((hins.kept x hxh hxb).trans hn)

/-- A new descriptor is new wherever it ends up. -/
theorem Filed.isNew {bytes : Bytes} {name : Option Handle}
    (hf : Filed w.tree bytes h w'.tree name) : w.tree.IsNew h w'.tree := by
  rcases name with _ | name
  · exact hf.1.isNew List.mem_cons_self hf.2
  · obtain ⟨buffer, -, hins⟩ := hf
    exact Tree.isNew_of_find? hins.new hins.found

/-- A `Name` with a value is made, or nothing comes of it. -/
theorem makes_declareValue [memory : Memory] (name : String) (value : Bytes)
    (parent : Option Handle) :
    Ends (declareValue name value parent) w (fun h => Makes w (some h)) (Undone w) := by
  refine (ends_declareValue name value parent).mono ?_ fun w' hE => hE.1
  rintro h w' ⟨label, below, bytes, -, hdeclared, -⟩
  exact hdeclared.makes List.mem_cons_self

theorem makes_declareString [memory : Memory] (name value : String) (parent : Option Handle) :
    Ends (declareString name value parent) w (fun h => Makes w (some h)) (Undone w) := by
  unfold declareString
  by_cases hv : value.toList.all isPrintable = true
  · have hdeclare := makes_declareValue (w := w) name (Aml.string value) parent
    simpa [hv] using hdeclare
  · have hv' : value.toList.all isPrintable = false := Bool.eq_false_iff.mpr hv
    simp only [hv', Bool.not_false, if_true]
    exact fun _ _ => Undone.refl w

theorem makes_declareHardwareId [memory : Memory] (id : String) (parent : Option Handle) :
    Ends (declareHardwareId id parent) w (fun h => Makes w (some h)) (Undone w) :=
  Ends.asked (fun value _ => makes_declareValue "_HID" value parent) fun _ _ => Undone.refl w

theorem makes_addInterrupt [memory : Memory] (signalling : Resource.Signalling)
    (numbers : List UInt32) (name : Option Handle) :
    Ends (addInterrupt signalling numbers name) w (fun h => Makes w (some h)) (Undone w) := by
  refine (ends_addInterrupt signalling numbers name).mono ?_ fun w' hE => hE.1
  rintro h w' ⟨i, -, -, hfiled⟩
  exact ⟨fun x hx => Option.some.inj hx ▸ hfiled.isNew, fun x k => hfiled.kind?_eq⟩

namespace Request

/-- Whether a request makes all that it declares itself. -/
def isDeclaration : Request → Bool
  | edit _ => false
  | linkDescriptor _ _ => false
  | _ => true

/-- **How a declaration ends**: a node was made, or nothing came of it. -/
theorem ends [memory : Memory] {r : Request} (hr : r.isDeclaration = true) :
    Ends r.perform w (Makes w) (Undone w) := by
  cases r with
  | edit request => exact nomatch hr
  | linkDescriptor descriptor name => exact nomatch hr
  | addInterrupt signalling numbers name =>
    exact (makes_addInterrupt signalling numbers name).map fun _ _ hQ => hQ
  | addResourceInterrupt name signalling numbers =>
    have hadd := makes_addInterrupt (w := w) signalling numbers (some name)
    -- The descriptor is new here too, but its handle is not returned.
    exact (hadd.map (g := fun _ => ()) fun _ _ hQ => hQ.kind?_eq).map fun _ _ hQ => ⟨nofun, hQ⟩
  | declareTemplate name parent =>
    refine (ends_declareTemplate name parent).mono ?_ (fun w' hE => hE.1) |>.map fun _ _ hQ => hQ
    rintro h w' ⟨label, buffer, endTag, bytes, -, hdeclared, -⟩
    exact hdeclared.makes List.mem_cons_self
  | declareInteger name value parent =>
    exact (makes_declareValue name _ parent).map fun _ _ hQ => hQ
  | declareString name value parent =>
    exact (makes_declareString name value parent).map fun _ _ hQ => hQ
  | declareHardwareId id parent =>
    exact (makes_declareHardwareId id parent).map fun _ _ hQ => hQ
  | declareRegion kind name parent =>
    refine (ends_declareRegion kind name parent).mono ?_ (fun w' hE => hE.1) |>.map fun _ _ hQ => hQ
    rintro h w' ⟨label, bytes, -, hdeclared, -⟩
    exact hdeclared.makes List.mem_cons_self

/-- **A handle that is returned is new**, in a sound tree and whatever memory there is. -/
theorem isNew_of_ok [memory : Memory] {r : Request} (hs : w.tree.Sound fun _ => True)
    (hfit : w'.tree.Fits) (hr : r.perform w = .ok (some h) w') : w.tree.IsNew h w'.tree := by
  by_cases hdeclares : r.isDeclaration = true
  · have hend := r.ends hdeclares hs (by rwa [after_ok hr])
    rw [hr] at hend
    exact hend.isNew h rfl
  · cases r with
    | edit request =>
      cases hrun : request.perform w.tree with
      | ok result t =>
        obtain ⟨rfl, rfl⟩ := EStateM.Result.ok.inj ((onTree_ok hrun).symm.trans hr)
        exact Tree.Request.isNew_of_ok hs.accounts hfit hrun
      | error e t => exact nomatch (onTree_error hrun).symm.trans hr
    | linkDescriptor descriptor name =>
      obtain ⟨-, -, hh⟩ := exists_of_map_ok hr
      exact nomatch hh
    | _ => exact absurd rfl hdeclares

end Request

/-! ### Failures -/

/-- **Nothing is different** that a tree can be asked for, and nothing was told. -/
structure Unchanged (w w' : Workbench) : Prop where
  /-- The same handles denote nodes. -/
  contains_eq : ∀ h, w'.tree.contains h = w.tree.contains h
  /-- There are as many nodes. -/
  live_eq : w'.tree.live = w.tree.live
  /-- Every handle denotes what it did: the same kind, links and parent. -/
  find?_eq : ∀ h, w'.tree.find? h = w.tree.find? h
  /-- Every node has the same bytes. -/
  encode_eq : ∀ h, w'.tree.encode h = w.tree.encode h
  /-- Nothing was told, so no deletion failed. -/
  log_eq : w'.log = w.log

theorem Undone.unchanged (hu : Undone w w') (ha : w.tree.Accounts) (ha' : w'.tree.Accounts) :
    Unchanged w w' where
  contains_eq := hu.same.contains_eq
  live_eq := hu.same.live_eq ha ha'
  find?_eq := hu.same
  encode_eq := hu.same.encode_eq ha ha'
  log_eq := hu.log_eq

/-- **A declaration that fails changes nothing**, in every tree that requests make and whatever
memory there is for it. -/
theorem unchanged_of_error [memory : Memory] (attempts : List (Attempt Request)) {r : Request}
    (hr : r.isDeclaration = true) (hw : w.tree = run attempts) {e : Error}
    (herror : r.perform w = .error e w') (hfit : w'.tree.Fits) : Unchanged w w' := by
  have happly : r.apply w = w' := (r.apply_eq_after w).trans (after_error herror)
  have hgrows : w.tree.Grows w'.tree := happly ▸ (r.leads criterion_true r.allowed_true w).1
  have hs : w.tree.Sound fun _ => True := by
    rw [hw]
    exact sound_run_true (hw ▸ hgrows.fits hfit)
  have hs' : w'.tree.Sound fun _ => True := by
    subst happly
    exact Request.sound_apply hs hfit
  have hend := r.ends hr hs (by rwa [after_error herror])
  rw [herror] at hend
  exact hend.unchanged hs.accounts hs'.accounts

/-- A list of resources below a device, under a name that cannot be written: a buffer and an End
Tag were made before that was found out, and their two slots are free again. -/
theorem unchanged_of_error_template :
    (Request.declareTemplate "1CRS" (some ⟨1, 0⟩)).perform
        ⟨run (amply [.declareRegion .device "COM1" none]), []⟩ =
      .error (.argument (.segmentCharacter "1CRS"))
        ⟨⟨(run (amply [.declareRegion .device "COM1" none])).slots ++ [⟨1, none⟩, ⟨1, none⟩],
          [3, 2], 2⟩, []⟩ ∧
    Unchanged ⟨run (amply [.declareRegion .device "COM1" none]), []⟩
      ⟨⟨(run (amply [.declareRegion .device "COM1" none])).slots ++ [⟨1, none⟩, ⟨1, none⟩],
        [3, 2], 2⟩, []⟩ := by
  have hrun : (Request.declareTemplate "1CRS" (some ⟨1, 0⟩)).perform
      ⟨run (amply [.declareRegion .device "COM1" none]), []⟩ =
        .error (.argument (.segmentCharacter "1CRS"))
          ⟨⟨(run (amply [.declareRegion .device "COM1" none])).slots ++ [⟨1, none⟩, ⟨1, none⟩],
            [3, 2], 2⟩, []⟩ := rfl
  exact ⟨hrun, unchanged_of_error (amply [.declareRegion .device "COM1" none]) rfl rfl hrun
    (by decide)⟩

end AcpiTables.Assembly
