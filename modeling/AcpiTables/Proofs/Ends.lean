import AcpiTables.Proofs.Assembly
import AcpiTables.Proofs.Tree.Grown

/-!
# How requests end

How a request at a workbench ends is followed step by step. `AcpiTables.Assembly.Ends` says what
holds after a success and what after a failure, and there is a rule for each way to put requests
together.

The one thing to know at each step is which nodes are new since the request began
(`AcpiTables.Assembly.Gains`). From that one sees which failures there are at all. What is made
always goes to where it can go: the first descriptor into a new buffer, and a new object under a
region that was there before. So of the steps here only those that make nodes can fail: on what they
were given, or for want of memory. Then nothing came of the step (`AcpiTables.Assembly.Undone`).

| step | how it ends |
|---|---|
| making data | `AcpiTables.Assembly.ends_makeData` |
| making a buffer | `AcpiTables.Assembly.ends_makeBuffer` |
| making a `Name` | `AcpiTables.Assembly.ends_makeName` |
| filling a new buffer | `AcpiTables.Assembly.ends_attachFirst` |
| attaching what is new | `AcpiTables.Assembly.ends_attach` |
-/

namespace AcpiTables.Assembly

open AcpiTables.Tree (requireData)

variable {α β : Type} {w w' : Workbench} {h p : Handle} {parent : Option Handle}

/-! ### Runs -/

theorem onTree_ok {m : TreeM α} {a : α} {t : Tree} (hm : m w.tree = .ok a t) :
    onTree m w = .ok a { w with tree := t } := by
  rw [onTree, hm]

theorem onTree_error {m : TreeM α} {e : Error} {t : Tree} (hm : m w.tree = .error e t) :
    onTree m w = .error e { w with tree := t } := by
  rw [onTree, hm]

theorem ask_ok {question : Tree → Except Error α} {a : α} (hq : question w.tree = .ok a) :
    ask question w = .ok a w := onTree_ok (Tree.ask_ok hq)

theorem ask_error {question : Tree → Except Error α} {e : Error}
    (hq : question w.tree = .error e) : ask question w = .error e w :=
  onTree_error (Tree.ask_error hq)

theorem discard_ok {t : Tree} (hd : Tree.delete h w.tree = .ok () t) :
    discard h w = .ok () { w with tree := t } := tryCatch_ok (onTree_ok hd)

/-- What is told of a node that cannot be deleted. -/
def undeleted (h : Handle) (e : Error) : Log.Entry :=
  ⟨.error, s!"Failed to free AML node {h}: " ++ e.message⟩

theorem discard_error {e : Error} (hd : Tree.delete h w.tree = .error e w.tree) :
    discard h w = .ok () { w with log := w.log ++ [undeleted h e] } :=
  tryCatch_error (onTree_error hd)

/-- A failure is passed on after a node was discarded. -/
theorem orDiscard_error {m : AssemblyM α} {e : Error} {u v : Workbench} (hm : m w = .error e u)
    (hd : discard h u = .ok () v) : orDiscard h m w = .error e v :=
  (tryCatch_error hm).trans (bind_ok hd)

/-! ### Ends -/

/-- **How a request ends**, in a sound tree whose slots have numbers of their own afterwards. -/
def Ends (m : AssemblyM α) (w : Workbench) (Q : α → Workbench → Prop) (E : Workbench → Prop) :
    Prop :=
  w.tree.Sound (fun _ => True) → (after m w).tree.Fits →
    match m w with
    | .ok a w' => Q a w'
    | .error _ w' => E w'

namespace Ends

variable {m : AssemblyM α} {f : α → AssemblyM β} {Q Q' : α → Workbench → Prop}
  {R : β → Workbench → Prop} {E E' : Workbench → Prop}

theorem fail {e : Error} (hE : E w) : Ends (throw e) w Q E := fun _ _ => hE

theorem mono (hm : Ends m w Q E) (hQ : ∀ a w', Q a w' → Q' a w') (hE : ∀ w', E w' → E' w') :
    Ends m w Q' E' := by
  intro hs hfit
  have hend := hm hs hfit
  cases hr : m w with
  | ok a w' =>
    rw [hr] at hend
    exact hQ a w' hend
  | error e w' =>
    rw [hr] at hend
    exact hE w' hend

/-- The tree is sound after a success, and after a failure. -/
theorem sound (hm : Ends m w Q E) (hm' : Keeps (Leads fun _ => True) m) :
    Ends m w (fun a w' => w'.tree.Sound (fun _ => True) ∧ Q a w')
      fun w' => w'.tree.Sound (fun _ => True) ∧ E w' := by
  intro hs hfit
  have hs' := (hm' w).2 hfit hs
  have hend := hm hs hfit
  cases hr : m w with
  | ok a w' =>
    rw [hr] at hend
    rw [after_ok hr] at hs'
    exact ⟨hs', hend⟩
  | error e w' =>
    rw [hr] at hend
    rw [after_error hr] at hs'
    exact ⟨hs', hend⟩

/-- Something else follows from a failure. -/
theorem mono_error (hm : Ends m w Q E) (hE : ∀ w', E w' → E' w') : Ends m w Q E' :=
  hm.mono (fun _ _ hQ => hQ) hE

/-- Something else follows from a failure, since the tree is sound then. -/
theorem mono_error_sound (hm : Ends m w Q E) (hm' : Keeps (Leads fun _ => True) m)
    (hE : ∀ w', w'.tree.Sound (fun _ => True) → E w' → E' w') : Ends m w Q E' :=
  (hm.sound hm').mono (fun _ _ hQ => hQ.2) fun w' hend => hE w' hend.1 hend.2

/-- The second request starts where the first one ended well. -/
theorem bind (hm : Ends m w Q E) (hf : ∀ a w', w'.tree.Sound (fun _ => True) → Q a w' →
    Ends (f a) w' R E) (hm' : Keeps (Leads fun _ => True) m)
    (hf' : ∀ a, Keeps (Leads fun _ => True) (f a)) : Ends (m >>= f) w R E := by
  intro hs hfit
  have hlead := hm' w
  cases hr : m w with
  | ok a w' =>
    rw [after_bind_ok hr] at hfit
    rw [after_ok hr] at hlead
    have hfit' : w'.tree.Fits := (hf' a w').1.fits hfit
    have hend := hm hs (by rwa [after_ok hr])
    rw [hr] at hend
    rw [bind_ok hr]
    have hs' := hlead.2 hfit' hs
    exact hf a w' hs' hend hs' hfit
  | error e w' =>
    rw [after_bind_error hr] at hfit
    have hend := hm hs (by rwa [after_error hr])
    rw [hr] at hend
    rw [bind_error hr]
    exact hend

/-- A question comes first. -/
theorem asked {question : Tree → Except Error α}
    (hok : ∀ a, question w.tree = .ok a → Ends (f a) w R E)
    (herror : ∀ e, question w.tree = .error e → E w) :
    Ends (Assembly.ask question >>= f) w R E := by
  intro hs hfit
  cases hq : question w.tree with
  | ok a =>
    rw [after_bind_ok (ask_ok hq)] at hfit
    rw [bind_ok (ask_ok hq)]
    exact hok a hq hs hfit
  | error e =>
    rw [bind_error (ask_error hq)]
    exact herror e hq

theorem map {g : α → β} (hm : Ends m w Q E) (hQ : ∀ a w', Q a w' → R (g a) w') :
    Ends (g <$> m) w R E := by
  intro hs hfit
  rw [after_map] at hfit
  have hend := hm hs hfit
  cases hr : m w with
  | ok a w' =>
    rw [hr] at hend
    rw [map_ok hr]
    exact hQ a w' hend
  | error e w' =>
    rw [hr] at hend
    rw [map_error hr]
    exact hend

/-- What is discarded after a failure has to be there, and detached. -/
theorem orDiscard (hm : Ends m w Q fun w' =>
      ∃ t, Tree.delete h w'.tree = .ok () t ∧ E { w' with tree := t })
    (hm' : Keeps (Leads fun _ => True) m) : Ends (orDiscard h m) w Q E := by
  intro hs hfit
  have hlead := hm' w
  cases hr : m w with
  | ok a w' =>
    have hrun : Assembly.orDiscard h m w = .ok a w' := tryCatch_ok hr
    have hend := hm hs (by rw [after_ok hrun] at hfit; rwa [after_ok hr])
    rw [hr] at hend
    rw [hrun]
    exact hend
  | error e w' =>
    have hrun : Assembly.orDiscard h m w =
        (discard h >>= fun _ => throw e : AssemblyM α) w' := tryCatch_error hr
    have hgrows := (leads_discard (P := fun _ => True) h).andThen
      (fun _ => Keeps.fail (α := α) e) w'
    rw [after, hrun] at hfit
    have hend := hm hs (by rw [after_error hr]; exact hgrows.1.fits hfit)
    rw [hr] at hend
    obtain ⟨t, hdelete, hE⟩ := hend
    rw [hrun, bind_ok (discard_ok hdelete)]
    exact hE

end Ends

/-! ### What was undone -/

/-- **Nothing came of a request**: every handle denotes what it did, and nothing was told. -/
structure Undone (w w' : Workbench) : Prop where
  /-- The same nodes are there. -/
  same : w.tree.SameNodes w'.tree
  /-- Nothing was told. -/
  log_eq : w'.log = w.log

theorem Undone.refl (w : Workbench) : Undone w w := ⟨Tree.SameNodes.refl w.tree, rfl⟩

theorem Undone.trans {w₁ w₂ w₃ : Workbench} (hu : Undone w₁ w₂) (hu' : Undone w₂ w₃) :
    Undone w₁ w₃ where
  same x := (hu'.same x).trans (hu.same x)
  log_eq := hu'.log_eq.trans hu.log_eq

/-- **An edit that makes nodes** ends in any memory as in ample memory, or nothing comes of it. -/
theorem ends_provided {m : Memory → TreeM α} {memory : Memory} {Q : α → Workbench → Prop}
    {cause : Prop} (hm : Tree.Provided m memory w.tree)
    (hample : Ends (onTree (m .ample)) w Q fun w' => Undone w w' ∧ cause) :
    Ends (onTree (m memory)) w Q fun w' => Undone w w' ∧ (memory.Suffices → cause) := by
  intro hs hfit
  cases hm with
  | enough hrun =>
    have hsame : onTree (m memory) w = onTree (m .ample) w := by rw [onTree, onTree, hrun]
    rw [after, hsame] at hfit
    rw [hsame]
    exact hample.mono_error (fun w' hE => ⟨hE.1, fun _ => hE.2⟩) hs hfit
  | short hrun hleft hshort =>
    rw [after_error (onTree_error hrun)] at hfit
    rw [onTree_error hrun]
    exact ⟨⟨hleft.find?_eq hs.accounts hfit, rfl⟩, fun hmemory => absurd hmemory hshort⟩

/-! ### Steps -/

/-- **New nodes at a workbench**, and nothing told. -/
structure Gains (w : Workbench) (ns : List Handle) (w' : Workbench) : Prop where
  /-- The nodes are new, and the others are as they were. -/
  grown : w.tree.Grown ns w'.tree
  /-- Nothing was told. -/
  log_eq : w'.log = w.log

/-- What is undone afterwards does not matter. -/
theorem Gains.of_undone {w₀ : Workbench} {ns : List Handle} (hg : Gains w₀ ns w)
    (hu : Undone w w') : Gains w₀ ns w' where
  grown := hg.grown.change fun x _ => hu.same x
  log_eq := hu.log_eq.trans hg.log_eq

/-- Deleting all new nodes is undoing what was done. -/
theorem Gains.undone {ns : List Handle} {node : Node} (hg : Gains w ns w')
    (hn : w'.tree.find? h = some node) (hd : node.parent = none)
    (hall : ∀ x, x ∈ w'.tree.postorder h ↔ x ∈ ns) :
    ∃ t, Tree.delete h w'.tree = .ok () t ∧ Undone w { w' with tree := t } := by
  obtain ⟨t, hdelete, hsame⟩ := hg.grown.delete hn hd hall
  exact ⟨t, hdelete, hsame, hg.log_eq⟩

/-- A new node without links is deleted, also after something came to nothing. -/
theorem Gains.undone_leaf {w₀ : Workbench} (hg : Gains w₀ [h] w) (hu : Undone w w')
    (hs' : w'.tree.Sound fun _ => True) {node : Node} (hn : w.tree.find? h = some node)
    (hd : node.parent = none) (hleaf : node.content.links = []) :
    ∃ t, Tree.delete h w'.tree = .ok () t ∧ Undone w₀ { w' with tree := t } := by
  have hn' := (hu.same h).trans hn
  refine (hg.of_undone hu).undone hn' hd fun x => ?_
  rw [hs'.postorder_leaf hn' hleaf]

theorem ends_makeData [memory : Memory] (type : DataType) (bytes : Bytes) :
    Ends (onTree (Tree.makeData type bytes)) w
      (fun h w' => requireData type bytes = .ok () ∧ Gains w [h] w' ∧
        w'.tree.find? h = some ⟨.data type bytes, none⟩)
      fun w' => Undone w w' ∧ (memory.Suffices → requireData type bytes ≠ .ok ()) := by
  refine ends_provided (Tree.provided_makeData type bytes w.tree) fun hs hfit => ?_
  cases hr : requireData type bytes with
  | error e =>
    have hrun : @Tree.makeData .ample type bytes w.tree = .error e w.tree := by
      rw [Tree.makeData_eq, hr]
    rw [onTree_error hrun]
    exact ⟨Undone.refl w, nofun⟩
  | ok u =>
    have hrun : @Tree.makeData .ample type bytes w.tree =
        .ok (w.tree.allocate (.data type bytes)).1 (w.tree.allocate (.data type bytes)).2 := by
      rw [Tree.makeData_eq, hr]
    rw [after_ok (onTree_ok hrun)] at hfit
    rw [onTree_ok hrun]
    refine ⟨rfl, ⟨hs.accounts.grown_allocate _ hfit, rfl⟩, ?_⟩
    exact (hs.accounts.find?_allocate _ hfit _).trans (if_pos rfl)

theorem ends_makeBuffer [memory : Memory] : Ends (onTree Tree.makeBuffer) w
    (fun h w' => Gains w [h] w' ∧ w'.tree.find? h = some ⟨.buffer [], none⟩)
    fun w' => Undone w w' ∧ (memory.Suffices → False) := by
  refine ends_provided (Tree.provided_makeBuffer w.tree) fun hs hfit => ?_
  have hrun : onTree (@Tree.makeBuffer .ample) w = .ok (w.tree.allocate (.buffer [])).1
      { w with tree := (w.tree.allocate (.buffer [])).2 } := onTree_ok (Tree.makeBuffer_eq w.tree)
  rw [after_ok hrun] at hfit
  rw [hrun]
  refine ⟨⟨hs.accounts.grown_allocate _ hfit, rfl⟩, ?_⟩
  exact (hs.accounts.find?_allocate _ hfit _).trans (if_pos rfl)

/-- A `Name` is made of a new value, unless its name cannot be written. -/
theorem ends_makeName [memory : Memory] {w₀ : Workbench} {ns : List Handle} {value : Handle}
    {content : Content} (hg : Gains w₀ ns w) (hmem : value ∈ ns)
    (hv : w.tree.find? value = some ⟨content, none⟩) (hk : content.kind.isValue) (name : String) :
    Ends (onTree (Tree.makeName name value)) w
      (fun h w' => ∃ label bytes, Aml.objectName name false = .ok bytes ∧
        Gains w₀ (h :: label :: ns) w' ∧ w'.tree.find? h = some ⟨.name label value, none⟩ ∧
        w'.tree.find? label = some ⟨.data .nameString bytes, some h⟩ ∧
        w'.tree.find? value = some ⟨content, some h⟩ ∧
        ∀ x node, x ≠ value → w.tree.find? x = some node → w'.tree.find? x = some node)
      fun w' => Undone w w' ∧
        (memory.Suffices → ∀ bytes, Aml.objectName name false ≠ .ok bytes) := by
  refine ends_provided (Tree.provided_makeName name value w.tree) fun hs hfit => ?_
  rcases Tree.makeName_cases name value w.tree with ⟨e, herr⟩ | ⟨node, bytes, -, -, -, hname⟩
  · rw [onTree_error herr]
    refine ⟨Undone.refl w, fun bytes hname => ?_⟩
    have hfit' : (after (@Tree.makeName .ample name value) w.tree).Fits := by
      rw [after_error herr]
      exact hs.accounts.fits
    obtain ⟨h, label, t, hok, -⟩ := hs.accounts.named hv hk hname hfit'
    exact nomatch herr.symm.trans hok
  · rw [after_onTree] at hfit
    obtain ⟨h, label, t, hok, hm⟩ := hs.accounts.named hv hk hname hfit
    rw [onTree_ok hok]
    exact ⟨label, bytes, hname, ⟨hg.grown.named hmem hm, hg.log_eq⟩, hm.found, hm.found_label,
      hm.found_value, fun x node => hm.find?_old⟩

/-- A given parent is a region. -/
theorem requireParent_some_iff {t : Tree} {u : Unit} :
    requireParent t (some p) = .ok u ↔ ∃ kind label members above,
      t.find? p = some ⟨.region kind label members, above⟩ := by
  rw [requireParent]
  cases hn : t.find? p with
  | none => simp [Tree.hasOpcode, hn]
  | some node =>
    obtain ⟨content, above⟩ := node
    rw [Tree.hasOpcode_eq hn, Tree.hasOpcode_eq hn]
    cases content with
    | region kind label members => cases kind <;> simp [Content.opcode]
    | _ => simp [Content.opcode]

/-- **An object was declared**: its nodes are new, it is the last member of the parent that was
asked for, and all other nodes are what they were. -/
structure Declared (w : Workbench) (ns : List Handle) (h : Handle) (content : Content)
    (parent : Option Handle) (w' : Workbench) : Prop where
  /-- The nodes were not there. -/
  new : ∀ x ∈ ns, w.tree.find? x = none
  /-- The object is there, under its parent. -/
  found : w'.tree.find? h = some ⟨content, parent⟩
  /-- The parent is a region and has one more member. -/
  listed : ∀ p, parent = some p → ∃ kind label members above,
    w.tree.find? p = some ⟨.region kind label members, above⟩ ∧
      w'.tree.find? p = some ⟨.region kind label (members ++ [h]), above⟩
  /-- All other nodes are the same. -/
  kept : ∀ x, x ∉ ns → parent ≠ some x → w'.tree.find? x = w.tree.find? x
  /-- Nothing was told. -/
  log_eq : w'.log = w.log

/-- What was there is not new. -/
theorem Declared.not_mem {ns : List Handle} {content : Content} {x : Handle} {node : Node}
    (hd : Declared w ns h content parent w') (hx : w.tree.find? x = some node) : x ∉ ns := by
  intro hmem
  rw [hd.new x hmem] at hx
  exact nomatch hx

/-- All nodes are of the kinds they were of. -/
theorem Declared.kinds {ns : List Handle} {content : Content}
    (hd : Declared w ns h content parent w') :
    ∀ x k, w.tree.kind? x = some k → w'.tree.kind? x = some k := by
  intro x k hk
  obtain ⟨node, hx, rfl⟩ := Option.map_eq_some_iff.mp hk
  by_cases hparent : parent = some x
  · obtain ⟨kind, label, members, above, hp, hp'⟩ := hd.listed x hparent
    obtain rfl := Option.some.inj (hx.symm.trans hp)
    -- The kind of a region is its opcode, whatever its members are.
    rw [Tree.kind?_eq hp']
    rfl
  · exact Tree.kind?_eq ((hd.kept x (hd.not_mem hx) hparent).trans hx)

/-- **A new object is attached** under a region that was there, and this does not fail. The parts
of the object stay where they are. -/
theorem ends_attach {w₀ : Workbench} {ns : List Handle} {content : Content}
    (hs₀ : w₀.tree.Sound fun _ => True) (hp : requireParent w₀.tree parent = .ok ())
    (hg : Gains w₀ ns w) (hmem : h ∈ ns) (hn : w.tree.find? h = some ⟨content, none⟩)
    (hk : content.kind.isObject) : Ends (attach h parent) w
    (fun h' w' => Declared w₀ ns h' content parent w' ∧ h' = h ∧ ∀ x ∈ ns, ∀ part owner,
      w.tree.find? x = some ⟨part, some owner⟩ → w'.tree.find? x = some ⟨part, some owner⟩)
    fun _ => False := by
  intro hs hfit
  cases parent with
  | none =>
    exact ⟨⟨hg.grown.new, hn, nofun, fun x hx _ => hg.grown.kept x hx, hg.log_eq⟩, rfl,
      fun _ _ _ _ hx => hx⟩
  | some p =>
    obtain ⟨kind, label, members, above, hp⟩ := requireParent_some_iff.mp hp
    have hacc : (Content.region kind label members).accepts content = true :=
      (Content.accepts_region kind label members content).trans hk
    have ha := hg.grown.attachable hs₀.toOrdered hs.toOrdered hp hmem hn rfl hacc nofun
    have hattach : onTree (Tree.attach p h) w = _ := onTree_ok (Tree.attach_ok ha)
    have hrun : attach h (some p) w = .ok h { w with tree := w.tree.attached p h _ } :=
      bind_ok (tryCatch_ok hattach)
    rw [hrun]
    refine ⟨⟨hg.grown.new, (ha.find?_attached h).trans (if_pos rfl), fun q hq => ?_,
      fun x hx hxp => ?_, hg.log_eq⟩, rfl, fun x hx part owner hpart => ?_⟩
    · obtain rfl := Option.some.inj hq
      exact ⟨kind, label, members, above, hp,
        (ha.find?_attached p).trans ((if_neg ha.ne).trans (if_pos rfl))⟩
    · have hxh : x ≠ h := fun he => hx (he ▸ hmem)
      have hxp : x ≠ p := fun he => hxp (congrArg some he.symm)
      exact (ha.find?_attached x).trans
        ((if_neg hxh).trans ((if_neg hxp).trans (hg.grown.kept x hx)))
    · have hxp : x ≠ p := fun he => hg.grown.not_mem hp (he ▸ hx)
      have hxh : x ≠ h := by
        rintro rfl
        exact nomatch hn.symm.trans hpart
      exact (ha.find?_attached x).trans ((if_neg hxh).trans ((if_neg hxp).trans hpart))

/-- **A new descriptor goes into an empty buffer**, and this does not fail. -/
theorem ends_attachFirst {w₀ : Workbench} {buffer descriptor : Handle} {bytes : Bytes}
    (hs₀ : w₀.tree.Sound fun _ => True) (hb : w₀.tree.find? buffer = some ⟨.buffer [], none⟩)
    (hg : Gains w₀ [descriptor] w)
    (hd : w.tree.find? descriptor = some ⟨.data .resourceData bytes, none⟩) :
    Ends (orDiscard descriptor (onTree (Tree.attach buffer descriptor))) w
      (fun _ w' => w'.log = w.log ∧
        w'.tree.find? buffer = some ⟨.buffer [descriptor], none⟩ ∧
        w'.tree.find? descriptor = some ⟨.data .resourceData bytes, some buffer⟩ ∧
        ∀ x, x ≠ buffer → x ≠ descriptor → w'.tree.find? x = w.tree.find? x)
      fun _ => False := by
  intro hs hfit
  have ha := hg.grown.attachable hs₀.toOrdered hs.toOrdered hb List.mem_cons_self hd rfl rfl nofun
  have hattach : onTree (Tree.attach buffer descriptor) w = _ := onTree_ok (Tree.attach_ok ha)
  have hrun : orDiscard descriptor (onTree (Tree.attach buffer descriptor)) w = _ :=
    tryCatch_ok hattach
  rw [hrun]
  refine ⟨rfl, ?_, ?_, fun x hxb hxd => ?_⟩
  · exact (ha.find?_attached buffer).trans ((if_neg ha.ne).trans (if_pos rfl))
  · exact (ha.find?_attached descriptor).trans (if_pos rfl)
  · exact (ha.find?_attached x).trans ((if_neg hxd).trans (if_neg hxb))

end AcpiTables.Assembly
