import AcpiTables.Proofs.Declarations
import AcpiTables.Proofs.Tree.RenamedEdits

/-!
# What trees cannot tell of their past

Two trees may hold the same objects under different handles, because of requests that failed and of
nodes that were deleted before. Nothing that is asked or requested later shows which of the two it
is about (`AcpiTables.Assembly.indistinguishable_run`). It would show in the handles if one looked
into them, and nothing does.

A declaration is made of questions and edits, so it is enough that these come one after the other
in the same way: two requests that end alike, followed by two that end alike, end alike
(`AcpiTables.Assembly.Alike.bind`). The one thing to know is what happens when a declaration fails
at last. What it has made by then is discarded, so the renaming gains pairs and loses them again. A
handle that is discarded may be dead already, but then it is so in both trees
(`AcpiTables.Tree.GoesOn.corresponds`), and nothing happens in either.

| request | how it ends in two trees |
|---|---|
| a node is made or edited | `AcpiTables.Assembly.Alike.onTree` |
| something is made, or else discarded | `AcpiTables.Assembly.Alike.orDiscard` |
| a descriptor is added to a list of resources | `AcpiTables.Assembly.alike_linkDescriptor` |
| interrupts | `AcpiTables.Assembly.alike_addInterrupt` |
| a list of resources | `AcpiTables.Assembly.alike_declareTemplate` |
| a value | `AcpiTables.Assembly.alike_declareValue` |
| a scope or a device | `AcpiTables.Assembly.alike_declareRegion` |
| any request | `AcpiTables.Assembly.Request.Renamed.sameEnd` |
-/

namespace AcpiTables.Assembly

open AcpiTables.Tree (Extends GoesOn Sheds)

variable {α β γ δ : Type} {R : Renaming} {w w' : Workbench} {h h' : Handle}
  {name name' parent parent' : Option Handle}

/-! ### Two workbenches -/

/-- **Two workbenches with renamed trees**, both of which are sound. -/
structure Paired (R : Renaming) (w w' : Workbench) : Prop where
  /-- The trees are renamed. -/
  renamed : w.tree.Renamed R w'.tree
  /-- The first tree is sound. -/
  left : w.tree.Sound fun _ => True
  /-- The second tree is sound. -/
  right : w'.tree.Sound fun _ => True

/-- **Two requests end alike** at workbenches with renamed trees, if all slots have numbers of their
own afterwards: both succeed and the renaming has gained what is new, or both fail with errors of
one class and the renaming went on. -/
def Alike (R : Renaming) (m : AssemblyM α) (m' : AssemblyM β) (w w' : Workbench)
    (Q : Renaming → α → β → Prop) : Prop :=
  Paired R w w' → (after m w).tree.Fits → (after m' w').tree.Fits →
    SameEnd (fun a b u u' => ∃ R₁, Extends R w.tree w'.tree R₁ u.tree u'.tree ∧ Paired R₁ u u' ∧
        Q R₁ a b)
      (fun u u' => ∃ R₁, GoesOn R w.tree w'.tree R₁ u.tree u'.tree ∧ Paired R₁ u u') (m w) (m' w')

/-- The slots have numbers of their own in between. -/
theorem fits_of_bind {m : AssemblyM α} {f : α → AssemblyM β}
    (hf : ∀ a, Keeps (Leads fun _ => True) (f a)) (hfit : (after (m >>= f) w).tree.Fits) :
    (after m w).tree.Fits := by
  cases hm : m w with
  | ok a u =>
    rw [after_bind_ok hm] at hfit
    rw [after_ok hm]
    exact (hf a u).1.fits hfit
  | error e u =>
    rw [after_bind_error hm] at hfit
    rwa [after_error hm]

namespace Alike

variable {m : AssemblyM α} {m' : AssemblyM β} {Q : Renaming → α → β → Prop}
  {S : Renaming → γ → δ → Prop}

theorem pure {a : α} {b : β} (hQ : Q R a b) : Alike R (Pure.pure a) (Pure.pure b) w w' Q :=
  fun hp _ _ => .ok ⟨R, hp.renamed.extends _ _, hp, hQ⟩

theorem fail {e e' : Error} (he : e.errorClass = e'.errorClass) :
    Alike R (throw e) (throw e') w w' Q :=
  fun hp _ _ => .error he ⟨R, (hp.renamed.extends _ _).toGoesOn, hp⟩

/-- What is related stays related while requests are made one after the other. -/
theorem bind {f : α → AssemblyM γ} {g : β → AssemblyM δ} (hm : Alike R m m' w w' Q)
    (hf : ∀ R₁ a b u u', (∀ x x', R x x' → R₁ x x') → Q R₁ a b → Alike R₁ (f a) (g b) u u' S)
    (hleads : ∀ a, Keeps (Leads fun _ => True) (f a))
    (hleads' : ∀ b, Keeps (Leads fun _ => True) (g b)) :
    Alike R (m >>= f) (m' >>= g) w w' S := by
  intro hp hfit hfit'
  have hend := hm hp (fits_of_bind hleads hfit) (fits_of_bind hleads' hfit')
  generalize hx : m w = x, hy : m' w' = y at hend
  rcases hend with ⟨R₁, he, hp₁, hab⟩ | ⟨hclass, hE⟩
  · rw [after_bind_ok hx] at hfit
    rw [after_bind_ok hy] at hfit'
    rw [bind_ok hx, bind_ok hy]
    -- The second request starts from the renaming that the first one ended with.
    refine (hf R₁ _ _ _ _ he.le hab hp₁ hfit hfit').mono ?_ ?_
    · rintro c d v v' ⟨R₂, he', hp₂, hcd⟩
      exact ⟨R₂, he.trans hp.renamed he', hp₂, hcd⟩
    · rintro v v' ⟨R₂, hg, hp₂⟩
      exact ⟨R₂, he.goesOn_trans hp.renamed hg, hp₂⟩
  · rw [bind_error hx, bind_error hy]
    exact .error hclass hE

/-- A question comes first. -/
theorem asked {T : α → β → Prop} {q : Tree → Except Error α} {q' : Tree → Except Error β}
    {f : α → AssemblyM γ} {g : β → AssemblyM δ}
    (hq : Paired R w w' → SameAnswer T (q w.tree) (q' w'.tree))
    (hf : ∀ a b, T a b → Alike R (f a) (g b) w w' S) :
    Alike R (Assembly.ask q >>= f) (Assembly.ask q' >>= g) w w' S := by
  intro hp hfit hfit'
  have hanswer := hq hp
  generalize hx : q w.tree = x, hy : q' w'.tree = y at hanswer
  rcases hanswer with hab | he
  · rw [after_bind_ok (ask_ok hx)] at hfit
    rw [after_bind_ok (ask_ok hy)] at hfit'
    rw [bind_ok (ask_ok hx), bind_ok (ask_ok hy)]
    exact hf _ _ hab hp hfit hfit'
  · rw [bind_error (ask_error hx), bind_error (ask_error hy)]
    exact .error he ⟨R, (hp.renamed.extends _ _).toGoesOn, hp⟩

/-- An edit of the tree. -/
theorem onTree {n : TreeM α} {n' : TreeM β} (hn : Paired R w w' → (after n w.tree).Fits →
      (after n' w'.tree).Fits → Tree.Alike R w.tree w'.tree Q (n w.tree) (n' w'.tree))
    (hleads : Keeps (Tree.Leads fun _ => True) n) (hleads' : Keeps (Tree.Leads fun _ => True) n') :
    Alike R (Assembly.onTree n) (Assembly.onTree n') w w' Q := by
  intro hp hfit hfit'
  rw [after_onTree] at hfit hfit'
  have hend := hn hp hfit hfit'
  have hs := (hleads w.tree).2 hfit hp.left
  have hs' := (hleads' w'.tree).2 hfit' hp.right
  generalize hx : n w.tree = x, hy : n' w'.tree = y at hend
  rcases hend with ⟨R₁, he, hab⟩ | ⟨hclass, rfl, rfl⟩
  · rw [after_ok hx] at hs
    rw [after_ok hy] at hs'
    rw [onTree_ok hx, onTree_ok hy]
    exact .ok ⟨R₁, he, ⟨he.renamed, hs, hs'⟩, hab⟩
  · rw [onTree_error hx, onTree_error hy]
    exact .error hclass ⟨R, (hp.renamed.extends _ _).toGoesOn, hp⟩

end Alike

/-! ### Discarding -/

/-- **A node is discarded under both handles**, or under neither. -/
theorem exists_discard (hp : Paired R w w') (hh : w.tree.Corresponds R w'.tree h h')
    (hfit : (after (discard h) w).tree.Fits) (hfit' : (after (discard h') w').tree.Fits) :
    ∃ R₁ u u', discard h w = .ok () u ∧ discard h' w' = .ok () u' ∧
      Sheds R w.tree w'.tree R₁ u.tree u'.tree ∧ Paired R₁ u u' := by
  have hs := (leads_discard h w).2 hfit hp.left
  have hs' := (leads_discard h' w').2 hfit' hp.right
  have hend := Tree.sameEnd_delete hp.renamed hp.right.accounts hp.left hh
  generalize hx : Tree.delete h w.tree = x, hy : Tree.delete h' w'.tree = y at hend
  rcases hend with ⟨R₁, hsheds⟩ | ⟨-, rfl, rfl⟩
  · rw [after_ok (discard_ok hx)] at hs
    rw [after_ok (discard_ok hy)] at hs'
    exact ⟨R₁, _, _, discard_ok hx, discard_ok hy, hsheds, hsheds.renamed, hs, hs'⟩
  · -- Neither can be deleted. Discarding does not tell, and leaves both trees as they are.
    refine ⟨R, _, _, discard_error hx, discard_error hy, ?_, hp.renamed, hp.left, hp.right⟩
    exact ⟨(hp.renamed.extends _ _).toGoesOn, fun _ _ hx => hx⟩

/-- Discarding does not fail. -/
theorem exists_discard_eq (h : Handle) (w : Workbench) : ∃ u, discard h w = .ok () u := by
  rcases Tree.delete_cases h w.tree with ⟨e, herr⟩ | ⟨node, -, -, hok⟩
  · exact ⟨_, discard_error herr⟩
  · exact ⟨_, discard_ok hok⟩

theorem fits_of_orDiscard {m : AssemblyM α} (hfit : (after (orDiscard h m) w).tree.Fits) :
    (after m w).tree.Fits := by
  cases hm : m w with
  | ok a u =>
    have hrun : orDiscard h m w = .ok a u := tryCatch_ok hm
    rw [after_ok hrun] at hfit
    rwa [after_ok hm]
  | error e u =>
    obtain ⟨v, hv⟩ := exists_discard_eq h u
    have hleads := leads_discard (P := fun _ => True) h u
    rw [after_ok hv] at hleads
    rw [after_error (orDiscard_error hm hv)] at hfit
    rw [after_error hm]
    exact hleads.1.fits hfit

section OrDiscard

variable {m : AssemblyM α} {m' : AssemblyM β} {Q : Renaming → α → β → Prop}

/-- What is discarded after two failures. It may be gone by then, but in both trees. -/
theorem sameEnd_orDiscard {R₁ : Renaming} {T : α → β → Workbench → Workbench → Prop} {e e' : Error}
    {u u' : Workbench} (hm : m w = .error e u) (hm' : m' w' = .error e' u')
    (hclass : e.errorClass = e'.errorClass) (hg : GoesOn R w.tree w'.tree R₁ u.tree u'.tree)
    (hp : Paired R₁ u u') (hh : u.tree.Corresponds R₁ u'.tree h h')
    (hfit : (after (orDiscard h m) w).tree.Fits) (hfit' : (after (orDiscard h' m') w').tree.Fits) :
    SameEnd T (fun v v' => ∃ R₂, GoesOn R w.tree w'.tree R₂ v.tree v'.tree ∧ Paired R₂ v v')
      (orDiscard h m w) (orDiscard h' m' w') := by
  obtain ⟨v, hv⟩ := exists_discard_eq h u
  obtain ⟨v', hv'⟩ := exists_discard_eq h' u'
  rw [after_error (orDiscard_error hm hv)] at hfit
  rw [after_error (orDiscard_error hm' hv')] at hfit'
  rw [orDiscard_error hm hv, orDiscard_error hm' hv']
  obtain ⟨R₂, v₂, v₂', hv₂, hv₂', hsheds, hp₂⟩ := exists_discard hp hh
    (by rwa [after_ok hv]) (by rwa [after_ok hv'])
  obtain ⟨-, rfl⟩ := EStateM.Result.ok.inj (hv.symm.trans hv₂)
  obtain ⟨-, rfl⟩ := EStateM.Result.ok.inj (hv'.symm.trans hv₂')
  exact .error hclass ⟨R₂, hg.sheds_trans hsheds, hp₂⟩

/-- **A request that is made or else a node is discarded.** -/
theorem Alike.orDiscard (hm : Alike R m m' w w' Q) (hh : R h h') :
    Alike R (orDiscard h m) (orDiscard h' m') w w' Q := by
  intro hp hfit hfit'
  have hend := hm hp (fits_of_orDiscard hfit) (fits_of_orDiscard hfit')
  generalize hx : m w = x, hy : m' w' = y at hend
  rcases hend with hok | ⟨hclass, R₁, hg, hp₁⟩
  · have hrun : Assembly.orDiscard h m w = _ := tryCatch_ok hx
    have hrun' : Assembly.orDiscard h' m' w' = _ := tryCatch_ok hy
    rw [hrun, hrun']
    exact .ok hok
  · exact sameEnd_orDiscard hx hy hclass hg hp₁ (hg.corresponds hp.renamed hh) hfit hfit'

end OrDiscard

/-! ### Declarations -/

theorem alike_tell {level level' : Log.Level} {message message' : String} :
    Alike R (tell level message) (tell level' message') w w' fun _ _ _ => True :=
  fun hp _ _ => .ok ⟨R, hp.renamed.extends _ _, ⟨hp.renamed, hp.left, hp.right⟩, trivial⟩

theorem alike_attach (hh : R h h') (hparent : Option.Rel R parent parent') :
    Alike R (attach h parent) (attach h' parent') w w' fun R₁ a b => R₁ a b := by
  rcases hparent with hp | _
  · refine Alike.bind (Alike.orDiscard (Alike.onTree (fun hpair _ _ =>
      Tree.alike_attach hpair.renamed hpair.left.accounts hpair.right.accounts (Or.inl hp)
        (Or.inl hh)) (Tree.leads_attach _ h) (Tree.leads_attach _ h')) hh)
      (fun R₁ _ _ _ _ hle _ => ?_) (fun _ => Keeps.pure h) fun _ => Keeps.pure h'
    exact Alike.pure (hle h h' hh)
  · exact Alike.pure hh

/-- Parents that mean the same are both regions or both not. -/
theorem sameAnswer_requireParent {t t' : Tree} (hr : t.Renamed R t')
    (hparent : Option.Rel (t.Corresponds R t') parent parent') :
    SameAnswer (fun _ _ => Option.Rel R parent parent') (requireParent t parent)
      (requireParent t' parent') := by
  rcases hparent with @⟨p, p', hp⟩ | _
  · have hopcode : ∀ kind, t.hasOpcode p (.region kind) = t'.hasOpcode p' (.region kind) :=
      fun kind => hr.hasOpcode_eq hp (.region kind)
    rw [requireParent, requireParent, hopcode, hopcode]
    rcases hr.find?_cases hp with ⟨hR, -⟩ | ⟨-, hn'⟩
    · split
      · exact .ok (Option.Rel.some hR)
      · exact .error rfl
    · rw [Tree.hasOpcode, Tree.hasOpcode, hn']
      exact .error rfl
  · exact .ok .none

theorem templateBuffer_eq_error {t : Tree} (hn : t.hasOpcode h .name = false) :
    templateBuffer t h = .error (.parameter (.notName h)) := by
  rw [templateBuffer, hn]
  rfl

/-- **The lists of resources of two `Name`s are related.** -/
theorem sameAnswer_templateBuffer {t t' : Tree} (hr : t.Renamed R t')
    (hh : t.Corresponds R t' h h') :
    SameAnswer (fun buffer buffer' => R buffer buffer' ∧ R h h') (templateBuffer t h)
      (templateBuffer t' h') := by
  have hopcode := hr.hasOpcode_eq hh .name
  rcases hr.find?_cases hh with ⟨hR, ⟨content, above⟩, ⟨content', above'⟩, hn, hn', hc, -⟩ | ⟨hn, -⟩
  · by_cases hname : ∃ label value, content = .name label value
    · obtain ⟨label, value, rfl⟩ := hname
      rcases hc with _ | @⟨_, label', _, value', -, hv⟩
      rw [templateBuffer_eq hn, templateBuffer_eq hn', hr.hasOpcode_eq (Or.inl hv)]
      split
      · exact .ok ⟨hv, hR⟩
      · exact .error rfl
    · -- The opcode tells that neither is a `Name`.
      have hother : t.hasOpcode h .name = false := Bool.eq_false_iff.mpr fun hop => by
        rw [Tree.hasOpcode_eq hn, beq_iff_eq] at hop
        exact hname (Content.opcode_eq_name_iff.mp hop)
      rw [templateBuffer_eq_error hother, templateBuffer_eq_error (hopcode ▸ hother)]
      exact .error rfl
  · have hother : t.hasOpcode h .name = false := by rw [Tree.hasOpcode, hn]
    rw [templateBuffer_eq_error hother, templateBuffer_eq_error (hopcode ▸ hother)]
    exact .error rfl

theorem sameAnswer_requireTemplate {t t' : Tree} (hr : t.Renamed R t')
    (hname : Option.Rel (t.Corresponds R t') name name') :
    SameAnswer (fun _ _ => Option.Rel R name name') (requireTemplate t name)
      (requireTemplate t' name') := by
  rcases hname with hn | _
  · exact (sameAnswer_templateBuffer hr hn).map fun _ _ hb => .some hb.2
  · exact .ok .none

/-- The steps of `linkDescriptor` for a `Name`. -/
def fillTemplate (name descriptor : Handle) : AssemblyM Unit := do
  let buffer ← ask fun t => templateBuffer t name
  onTree (Tree.appendDescriptor buffer descriptor)

theorem alike_fillTemplate {n n' : Handle} (hn : w.tree.Corresponds R w'.tree n n')
    (hh : w.tree.Corresponds R w'.tree h h') :
    Alike R (fillTemplate n h) (fillTemplate n' h') w w' fun _ _ _ => True := by
  refine Alike.asked (fun hp => sameAnswer_templateBuffer hp.renamed hn) fun b b' hb => ?_
  exact Alike.onTree (fun hp _ _ => Tree.alike_appendDescriptor hp.renamed hp.left.accounts
    hp.right.accounts (Or.inl hb.1) hh) (Tree.leads_appendDescriptor b h)
    (Tree.leads_appendDescriptor b' h')

/-- What is not there is not linked, and nothing is written. -/
theorem fillTemplate_eq_error (hdead : w.tree.contains h = false) (n : Handle) :
    ∃ e, fillTemplate n h w = .error e w := by
  cases hb : templateBuffer w.tree n with
  | error e => exact ⟨e, bind_error (ask_error hb)⟩
  | ok buffer =>
    rcases Tree.appendDescriptor_cases buffer h w.tree with ⟨e, herr⟩ | ⟨above, node, -, ha, -⟩
    · exact ⟨e, (bind_ok (ask_ok hb)).trans (onTree_error herr)⟩
    · exact nomatch ha.find_node.symm.trans (Tree.find?_eq_none_iff.mpr hdead)

/-- **Descriptors that mean the same are linked alike.** -/
theorem alike_linkDescriptor (hh : w.tree.Corresponds R w'.tree h h')
    (hname : Option.Rel (w.tree.Corresponds R w'.tree) name name') :
    Alike R (linkDescriptor h name) (linkDescriptor h' name') w w' fun _ _ _ => True := by
  rcases hname with @⟨n, n', hn⟩ | _
  · have hfill := alike_fillTemplate hn hh
    rcases hh with hR | ⟨hdead, hdead'⟩
    · exact hfill.orDiscard hR
    · intro hp
      obtain ⟨e, he⟩ := fillTemplate_eq_error hdead n
      obtain ⟨e', he'⟩ := fillTemplate_eq_error hdead' n'
      -- Nothing has happened when the handles are discarded, so they are still without nodes.
      have hend := hfill hp (by rw [after_error he]; exact hp.left.accounts.fits)
        (by rw [after_error he']; exact hp.right.accounts.fits)
      rw [he, he'] at hend
      rcases hend with _ | ⟨hclass, -⟩
      exact sameEnd_orDiscard he he' hclass (hp.renamed.extends _ _).toGoesOn hp
        (Or.inr ⟨hdead, hdead'⟩)
  · exact Alike.pure trivial

theorem alike_makeData (type : DataType) (bytes : Bytes) :
    Alike R (onTree (Tree.makeData type bytes)) (onTree (Tree.makeData type bytes)) w w'
      fun R₁ a b => R₁ a b :=
  Alike.onTree (fun hp => Tree.alike_makeData hp.renamed hp.left.accounts hp.right.accounts type
    bytes) (Tree.leads_makeData fun _ => trivial) (Tree.leads_makeData fun _ => trivial)

theorem alike_makeName (name : String) (hh : R h h') :
    Alike R (onTree (Tree.makeName name h)) (onTree (Tree.makeName name h')) w w'
      fun R₁ a b => R₁ a b :=
  Alike.onTree (fun hp => Tree.alike_makeName hp.renamed hp.left.accounts hp.right.accounts name
    (Or.inl hh)) (Tree.leads_makeName Kind.criterion_true name h)
    (Tree.leads_makeName Kind.criterion_true name h')

theorem alike_makeInterrupt (signalling : Resource.Signalling) (numbers : List UInt32)
    (hname : Option.Rel R name name') :
    Alike R (makeInterrupt signalling numbers name) (makeInterrupt signalling numbers name') w w'
      fun R₁ a b => R₁ a b := by
  have htell : ∀ d : Handle, Keeps (Leads fun _ => True) (do
      tell .debug (s!"Generated Interrupt descriptor {d} for " ++
        Text.listed (numbers.map UInt32.toNat))
      return d) := fun d => (leads_tell _ _).andThen fun _ => Keeps.pure d
  refine Alike.asked (fun _ => .same _) ?_
  rintro bytes _ rfl
  refine (alike_makeData .resourceData bytes).bind (fun R₁ d d' u u' hle hd => ?_)
    (fun d => (leads_linkDescriptor d name).andThen fun _ => htell d)
    fun d => (leads_linkDescriptor d name').andThen fun _ => htell d
  have hname₁ : Option.Rel (u.tree.Corresponds R₁ u'.tree) name name' :=
    rel_imp hname fun x x' hx => Or.inl (hle x x' hx)
  refine (alike_linkDescriptor (Or.inl hd) hname₁).bind (fun R₂ _ _ v v' hle₂ _ => ?_)
    (fun _ => htell d) fun _ => htell d'
  refine alike_tell.bind (fun R₃ _ _ _ _ hle₃ _ => ?_) (fun _ => Keeps.pure d)
    fun _ => Keeps.pure d'
  exact Alike.pure (hle₃ _ _ (hle₂ _ _ hd))

theorem alike_addInterrupt (signalling : Resource.Signalling) (numbers : List UInt32)
    (hname : Option.Rel (w.tree.Corresponds R w'.tree) name name') :
    Alike R (addInterrupt signalling numbers name) (addInterrupt signalling numbers name') w w'
      fun R₁ a b => R₁ a b := by
  rw [addInterrupt_eq, addInterrupt_eq]
  split
  · exact Alike.fail rfl
  · refine Alike.asked (fun hp => sameAnswer_requireTemplate hp.renamed hname) fun _ _ hR => ?_
    exact alike_makeInterrupt signalling numbers hR

theorem alike_declareValue (label : String) (value : Bytes)
    (hparent : Option.Rel (w.tree.Corresponds R w'.tree) parent parent') :
    Alike R (declareValue label value parent) (declareValue label value parent') w w'
      fun R₁ a b => R₁ a b := by
  refine Alike.asked (fun hp => sameAnswer_requireParent hp.renamed hparent) fun _ _ hR => ?_
  refine (alike_makeData .raw value).bind (fun R₁ v v' _ _ hle hv => ?_)
    (fun v => (leads_orDiscard (leads_makeName label v)).andThen fun h => leads_attach h parent)
    fun v => (leads_orDiscard (leads_makeName label v)).andThen fun h => leads_attach h parent'
  refine ((alike_makeName label hv).orDiscard hv).bind (fun R₂ d d' _ _ hle₂ hd => ?_)
    (fun h => leads_attach h parent) fun h => leads_attach h parent'
  exact alike_attach hd (rel_imp hR fun x x' hx => hle₂ x x' (hle x x' hx))

theorem alike_declareString (label value : String)
    (hparent : Option.Rel (w.tree.Corresponds R w'.tree) parent parent') :
    Alike R (declareString label value parent) (declareString label value parent') w w'
      fun R₁ a b => R₁ a b := by
  unfold declareString
  cases hv : value.toList.all isPrintable with
  | true => exact alike_declareValue label (Aml.string value) hparent
  | false => exact Alike.fail rfl

theorem alike_declareHardwareId (id : String)
    (hparent : Option.Rel (w.tree.Corresponds R w'.tree) parent parent') :
    Alike R (declareHardwareId id parent) (declareHardwareId id parent') w w'
      fun R₁ a b => R₁ a b := by
  refine Alike.asked (fun _ => .same _) ?_
  rintro value _ rfl
  exact alike_declareValue "_HID" value hparent

theorem alike_nameTemplate (label : String) (hh : R h h') :
    Alike R (nameTemplate label h) (nameTemplate label h') w w' fun R₁ a b => R₁ a b := by
  refine (alike_makeData .resourceData Resource.endTag).bind (fun R₁ d d' _ _ hle hd => ?_)
    (fun d => (leads_attachFirst h d).andThen fun _ => leads_makeName label h)
    fun d => (leads_attachFirst h' d).andThen fun _ => leads_makeName label h'
  refine Alike.bind (Alike.orDiscard (Alike.onTree (fun hp _ _ => Tree.alike_attach hp.renamed
    hp.left.accounts hp.right.accounts (Or.inl (hle _ _ hh)) (Or.inl hd)) (Tree.leads_attach h d)
    (Tree.leads_attach h' d')) hd) (fun R₂ _ _ _ _ hle₂ _ => ?_)
    (fun _ => leads_makeName label h) fun _ => leads_makeName label h'
  exact alike_makeName label (hle₂ _ _ (hle _ _ hh))

theorem alike_declareTemplate (label : String)
    (hparent : Option.Rel (w.tree.Corresponds R w'.tree) parent parent') :
    Alike R (declareTemplate label parent) (declareTemplate label parent') w w'
      fun R₁ a b => R₁ a b := by
  have hleads : ∀ parent buffer, Keeps (Leads fun _ => True)
      (orDiscard buffer (nameTemplate label buffer) >>= fun h => attach h parent) :=
    fun parent buffer => (leads_orDiscard (leads_nameTemplate label buffer)).andThen fun h =>
      leads_attach h parent
  refine Alike.asked (fun hp => sameAnswer_requireParent hp.renamed hparent) fun _ _ hR => ?_
  refine Alike.bind (Alike.onTree (fun hp => Tree.alike_makeBuffer hp.renamed hp.left.accounts
    hp.right.accounts) (Tree.leads_makeBuffer Kind.criterion_true)
    (Tree.leads_makeBuffer Kind.criterion_true)) (fun R₁ b b' _ _ hle hb => ?_)
    (hleads parent) (hleads parent')
  refine ((alike_nameTemplate label hb).orDiscard hb).bind (fun R₂ d d' _ _ hle₂ hd => ?_)
    (fun h => leads_attach h parent) fun h => leads_attach h parent'
  exact alike_attach hd (rel_imp hR fun x x' hx => hle₂ x x' (hle x x' hx))

theorem alike_declareRegion (kind : Region) (label : String)
    (hparent : Option.Rel (w.tree.Corresponds R w'.tree) parent parent') :
    Alike R (declareRegion kind label parent) (declareRegion kind label parent') w w'
      fun R₁ a b => R₁ a b := by
  refine Alike.asked (fun hp => sameAnswer_requireParent hp.renamed hparent) fun _ _ hR => ?_
  refine Alike.bind (Alike.onTree (fun hp => Tree.alike_makeRegion hp.renamed hp.left.accounts
    hp.right.accounts kind label) (Tree.leads_makeRegion Kind.criterion_true kind label)
    (Tree.leads_makeRegion Kind.criterion_true kind label)) (fun R₁ d d' _ _ hle hd => ?_)
    (fun h => leads_attach h parent) fun h => leads_attach h parent'
  exact alike_attach hd (rel_imp hR fun x x' hx => hle x x' hx)

/-! ### Requests -/

namespace Request

/-- **The same request** in other words: the plain arguments are the same, and the handles mean the
same. -/
inductive Renamed (S : Handle → Handle → Prop) : Request → Request → Prop
  /-- The tree is edited. -/
  | edit {r r' : Tree.Request} : r.Renamed S r' → Renamed S (.edit r) (.edit r')
  /-- A descriptor is added to the resources of a `Name`. -/
  | linkDescriptor {descriptor descriptor' : Handle} {name name' : Option Handle} :
    S descriptor descriptor' → Option.Rel S name name' →
      Renamed S (.linkDescriptor descriptor name) (.linkDescriptor descriptor' name')
  /-- An interrupt descriptor is made. -/
  | addInterrupt (signalling : Resource.Signalling) (numbers : List UInt32)
    {name name' : Option Handle} : Option.Rel S name name' →
      Renamed S (.addInterrupt signalling numbers name) (.addInterrupt signalling numbers name')
  /-- An interrupt descriptor is added to the resources of a `Name`. -/
  | addResourceInterrupt {name name' : Handle} (signalling : Resource.Signalling)
    (numbers : List UInt32) : S name name' →
      Renamed S (.addResourceInterrupt name signalling numbers)
        (.addResourceInterrupt name' signalling numbers)
  /-- A list of resources is declared. -/
  | declareTemplate (label : String) {parent parent' : Option Handle} :
    Option.Rel S parent parent' →
      Renamed S (.declareTemplate label parent) (.declareTemplate label parent')
  /-- An integer is declared. -/
  | declareInteger (label : String) (value : UInt64) {parent parent' : Option Handle} :
    Option.Rel S parent parent' →
      Renamed S (.declareInteger label value parent) (.declareInteger label value parent')
  /-- A string is declared. -/
  | declareString (label value : String) {parent parent' : Option Handle} :
    Option.Rel S parent parent' →
      Renamed S (.declareString label value parent) (.declareString label value parent')
  /-- A hardware identifier is declared. -/
  | declareHardwareId (id : String) {parent parent' : Option Handle} :
    Option.Rel S parent parent' →
      Renamed S (.declareHardwareId id parent) (.declareHardwareId id parent')
  /-- A region is declared. -/
  | declareRegion (kind : Region) (label : String) {parent parent' : Option Handle} :
    Option.Rel S parent parent' →
      Renamed S (.declareRegion kind label parent) (.declareRegion kind label parent')

/-- A declaration only gains nodes, whatever is read from its result. -/
theorem sameEnd_of_alike {m : AssemblyM α} {m' : AssemblyM β} {Q : Renaming → α → β → Prop}
    {f : α → Option Handle} {g : β → Option Handle} (hp : Paired R w w') (hm : Alike R m m' w w' Q)
    (hQ : ∀ R₁ a b, Q R₁ a b → Option.Rel R₁ (f a) (g b)) (hfit : (after m w).tree.Fits)
    (hfit' : (after m' w').tree.Fits) :
    SameEnd (fun a b u u' => ∃ R₁, GoesOn R w.tree w'.tree R₁ u.tree u'.tree ∧ Option.Rel R₁ a b)
      (fun u u' => ∃ R₁, GoesOn R w.tree w'.tree R₁ u.tree u'.tree)
      ((f <$> m) w) ((g <$> m') w') := by
  have hend := (hm hp hfit hfit').mono (fun _ _ _ _ hok => hok) fun u u' hfail =>
    show ∃ R₁, GoesOn R w.tree w'.tree R₁ u.tree u'.tree from hfail.imp fun _ hg => hg.1
  exact hend.map fun _ _ _ _ ⟨R₁, he, _, hab⟩ => ⟨R₁, he.toGoesOn, hQ R₁ _ _ hab⟩

/-- **Renamed requests end alike**, and the renaming goes on. -/
theorem Renamed.sameEnd {r r' : Request} (hrr : r.Renamed (w.tree.Corresponds R w'.tree) r')
    (hp : Paired R w w') (hfit : (r.apply w).tree.Fits) (hfit' : (r'.apply w').tree.Fits) :
    SameEnd (fun a b u u' => ∃ R₁, GoesOn R w.tree w'.tree R₁ u.tree u'.tree ∧ Option.Rel R₁ a b)
      (fun u u' => ∃ R₁, GoesOn R w.tree w'.tree R₁ u.tree u'.tree)
      (r.perform w) (r'.perform w') := by
  have hnew : ∀ (R₁ : Renaming) a b, R₁ a b → Option.Rel R₁ (some a) (some b) :=
    fun _ _ _ hab => .some hab
  have hnone : ∀ (R₁ : Renaming) (_ _ : Unit), True → Option.Rel R₁ none none :=
    fun _ _ _ _ => .none
  cases hrr with
  | edit hr =>
    have hend := hr.sameEnd hp.renamed hp.left hp.right.accounts hfit hfit'
    generalize hx : Tree.Request.perform _ w.tree = x, hy : Tree.Request.perform _ w'.tree = y
      at hend
    rcases hend with hok | ⟨hclass, rfl, rfl⟩
    · rw [perform, perform, onTree_ok hx, onTree_ok hy]
      exact .ok hok
    · rw [perform, perform, onTree_error hx, onTree_error hy]
      exact .error hclass ⟨R, (hp.renamed.extends _ _).toGoesOn⟩
  | linkDescriptor hd hn =>
    exact sameEnd_of_alike hp (alike_linkDescriptor hd hn) hnone hfit hfit'
  | addInterrupt signalling numbers hn =>
    exact sameEnd_of_alike hp (alike_addInterrupt signalling numbers hn) hnew hfit hfit'
  | addResourceInterrupt signalling numbers hn =>
    refine sameEnd_of_alike hp ?_ hnone hfit hfit'
    refine (alike_addInterrupt signalling numbers (.some hn)).bind (fun _ _ _ _ _ _ _ => ?_)
      (fun _ => Keeps.pure ()) fun _ => Keeps.pure ()
    exact Alike.pure trivial
  | declareTemplate label hn =>
    exact sameEnd_of_alike hp (alike_declareTemplate label hn) hnew hfit hfit'
  | declareInteger label value hn =>
    exact sameEnd_of_alike hp (alike_declareValue label _ hn) hnew hfit hfit'
  | declareString label value hn =>
    exact sameEnd_of_alike hp (alike_declareString label value hn) hnew hfit hfit'
  | declareHardwareId id hn =>
    exact sameEnd_of_alike hp (alike_declareHardwareId id hn) hnew hfit hfit'
  | declareRegion kind label hn =>
    exact sameEnd_of_alike hp (alike_declareRegion kind label hn) hnew hfit hfit'

end Request

/-! ### Histories -/

theorem run_concat (attempts : List (Attempt Request)) (r : Request) :
    run (attempts ++ amply [r]) = (r.apply (bench attempts)).tree := by
  rw [run_append]
  rfl

/-- **Two histories that nothing but handles can tell apart.** Neither an answer nor a further
request for which there is memory, with handles that mean the same, shows how the two trees came
about. -/
structure Indistinguishable (R : Renaming) (past past' : List (Attempt Request)) : Prop where
  /-- There are as many nodes. -/
  live_eq : (run past).live = (run past').live
  /-- What is asked about one handle is answered alike. -/
  answers : ∀ h h', (run past).Corresponds R (run past') h h' →
    Tree.AnswersAlike R (run past) (run past') h h'
  /-- So is a region written out around nodes that are listed for it. -/
  declareRegion : ∀ kind name hs hs', List.Forall₂ ((run past).Corresponds R (run past')) hs hs' →
    SameAnswer Eq ((run past).declareRegion kind name hs) ((run past').declareRegion kind name hs')
  /-- The same request is met in both trees or fails in both, with errors of one class, and the
  renaming goes on. The handles that are made are related. -/
  next : ∀ r r', r.Renamed ((run past).Corresponds R (run past')) r' →
    (run (past ++ amply [r])).Fits → (run (past' ++ amply [r'])).Fits →
    ∃ R₁, GoesOn R (run past) (run past') R₁ (run (past ++ amply [r]))
        (run (past' ++ amply [r'])) ∧
      SameEnd (fun a b _ _ => Option.Rel R₁ a b) (fun _ _ => True) (r.perform (bench past))
        (r'.perform (bench past'))

/-- **Trees that hold the same objects cannot be told apart**, whatever was requested to make them:
neither the slots that nodes are stored in, nor how often these were used, nor requests that failed
before, for want of memory or otherwise, have an effect on anything but the handles themselves. -/
theorem indistinguishable_run (past past' : List (Attempt Request))
    (hr : (run past).Renamed R (run past')) (hfit : (run past).Fits) (hfit' : (run past').Fits) :
    Indistinguishable R past past' := by
  have hs := sound_run_true hfit
  have hs' := sound_run_true hfit'
  have hp : Paired R (bench past) (bench past') := ⟨hr, hs, hs'⟩
  refine ⟨hr.live_eq hs.accounts hs'.accounts,
    fun h h' hh => hr.answersAlike hs.accounts hs'.accounts hh,
    fun kind name _ _ hall => hr.sameAnswer_declareRegion hs.accounts hs'.accounts kind name hall,
    fun r r' hrr hroom hroom' => ?_⟩
  rw [run_concat] at hroom hroom'
  rw [run_concat, run_concat, Request.apply_eq_after, Request.apply_eq_after]
  have hend : SameEnd _ _ (r.perform (bench past)) (r'.perform (bench past')) :=
    Request.Renamed.sameEnd hrr hp hroom hroom'
  generalize hx : r.perform (bench past) = x, hy : r'.perform (bench past') = y at hend
  rcases hend with ⟨R₁, hg, hab⟩ | ⟨hclass, R₁, hg⟩
  · rw [after_ok hx, after_ok hy]
    exact ⟨R₁, hg, .ok hab⟩
  · rw [after_error hx, after_error hy]
    exact ⟨R₁, hg, .error hclass trivial⟩

/-- A device below a scope. In the second tree two requests have failed before, one of them before
the scope was made, so that the label and the scope stand in each other's slots and the device
gets a slot that was used before. -/
theorem indistinguishable_run_device : ∃ R₁ : Renaming, R₁ ⟨3, 0⟩ ⟨2, 1⟩ ∧
    (run (amply [.declareRegion .scope "_SB_" none,
      .declareRegion .device "COM1" (some ⟨1, 0⟩)])).Renamed R₁
    (run (amply [.declareTemplate "1CRS" none, .declareRegion .scope "_SB_" none,
      .declareTemplate "1CRS" none, .declareRegion .device "COM1" (some ⟨0, 1⟩)])) := by
  have hr : (run (amply [.declareRegion .scope "_SB_" none])).Renamed
      (fun x x' => (x, x') ∈ [(⟨0, 0⟩, ⟨1, 1⟩), (⟨1, 0⟩, ⟨0, 1⟩)])
      (run (amply [.declareTemplate "1CRS" none, .declareRegion .scope "_SB_" none,
        .declareTemplate "1CRS" none])) := by
    refine Tree.renamed_of_pairs (sound_run_true (by decide)).accounts
      (sound_run_true (by decide)).accounts (by decide) (by decide) rfl rfl ?_
    rw [List.forall_mem_cons, List.forall_mem_singleton]
    constructor
    · exact ⟨⟨.data .nameString [0x5F, 0x53, 0x42, 0x5F], some ⟨1, 0⟩⟩,
        ⟨.data .nameString [0x5F, 0x53, 0x42, 0x5F], some ⟨0, 1⟩⟩, by decide, by decide, .data _ _,
        .some (by decide)⟩
    · exact ⟨⟨.region .scope ⟨0, 0⟩ [], none⟩, ⟨.region .scope ⟨1, 1⟩ [], none⟩, by decide,
        by decide, .region _ (by decide) .nil, .none⟩
  have hsame := indistinguishable_run _ _ hr (by decide) (by decide)
  obtain ⟨R₁, hg, hend⟩ := hsame.next _ _
    (.declareRegion .device "COM1" (.some (a := ⟨1, 0⟩) (b := ⟨0, 1⟩) (Or.inl (by decide))))
    (by decide) (by decide)
  refine ⟨R₁, ?_, hg.renamed⟩
  have hrun : ∃ u, Request.perform (.declareRegion .device "COM1" (some ⟨1, 0⟩))
      (bench (amply [.declareRegion .scope "_SB_" none])) = .ok (some ⟨3, 0⟩) u := ⟨_, rfl⟩
  have hrun' : ∃ u, Request.perform (.declareRegion .device "COM1" (some ⟨0, 1⟩))
      (bench (amply [.declareTemplate "1CRS" none, .declareRegion .scope "_SB_" none,
        .declareTemplate "1CRS" none])) = .ok (some ⟨2, 1⟩) u := ⟨_, rfl⟩
  obtain ⟨u, hu⟩ := hrun
  obtain ⟨u', hu'⟩ := hrun'
  rw [hu, hu'] at hend
  rcases hend with hab | _
  rcases hab with hab | _
  exact hab

end AcpiTables.Assembly
