import AcpiTables.Proofs.Tree.Reachable
import AcpiTables.Proofs.Tree.RenamedAnswers

/-!
# Edits of renamed trees

An edit asks its questions and then writes. In two trees that differ in their handles the questions
are answered alike, and what is written differs in the handles only. So the two trees after
an edit are renamed again. Three things happen to the renaming. It stays as it is when nodes
get other owners, it gains a pair for every node that is made
(`AcpiTables.Tree.Extends`), and it loses the pairs of the nodes that are deleted
(`AcpiTables.Tree.Sheds`). In each case it goes on from what it was
(`AcpiTables.Tree.GoesOn`): nodes that are still there are related as before, and every other
pair is one of new nodes.

The one thing to know is that a new pair cannot be in the way of an old one. A new
handle denotes nothing before, in either tree, so it is related to nothing
(`AcpiTables.Tree.Renamed.allocate`). Deleting is the only edit that needs to know
what trees look like. Nothing that stays has a link into what goes away, because ownership
is a forest (`AcpiTables.Tree.Renamed.released`).

| edit | how it ends in two trees |
|---|---|
| making data | `AcpiTables.Tree.alike_makeData` |
| making an object | `AcpiTables.Tree.alike_makeObject` |
| making a `Name` | `AcpiTables.Tree.alike_makeName` |
| attaching | `AcpiTables.Tree.alike_attach` |
| adding a descriptor | `AcpiTables.Tree.alike_appendDescriptor` |
| detaching | `AcpiTables.Tree.alike_detach` |
| exchanging | `AcpiTables.Tree.alike_replace` |
| deleting | `AcpiTables.Tree.sameEnd_delete` |
-/

namespace AcpiTables

/-! ### Ends -/

/-- **Two runs end alike**: both succeed, with related results and states, or both fail, with errors
of one class. -/
inductive SameEnd {σ α β : Type} (Q : α → β → σ → σ → Prop) (E : σ → σ → Prop) :
    EStateM.Result Error σ α → EStateM.Result Error σ β → Prop
  /-- Both succeed. -/
  | ok {a : α} {b : β} {u u' : σ} : Q a b u u' → SameEnd Q E (.ok a u) (.ok b u')
  /-- Both fail. -/
  | error {e e' : Error} {u u' : σ} :
    e.errorClass = e'.errorClass → E u u' → SameEnd Q E (.error e u) (.error e' u')

namespace SameEnd

variable {σ α β γ δ : Type} {Q : α → β → σ → σ → Prop} {E : σ → σ → Prop}

theorem mono {S : α → β → σ → σ → Prop} {F : σ → σ → Prop} {x : EStateM.Result Error σ α}
    {y : EStateM.Result Error σ β} (hx : SameEnd Q E x y)
    (hQ : ∀ a b u u', Q a b u u' → S a b u u') (hE : ∀ u u', E u u' → F u u') :
    SameEnd S F x y := by
  rcases hx with hab | ⟨he, hu⟩
  · exact .ok (hQ _ _ _ _ hab)
  · exact .error he (hE _ _ hu)

/-- The results are read otherwise. -/
theorem map {S : γ → δ → σ → σ → Prop} {m : EStateM Error σ α} {m' : EStateM Error σ β} {s s' : σ}
    {f : α → γ} {g : β → δ} (hm : SameEnd Q E (m s) (m' s'))
    (hS : ∀ a b u u', Q a b u u' → S (f a) (g b) u u') :
    SameEnd S E ((f <$> m) s) ((g <$> m') s') := by
  generalize hx : m s = x, hy : m' s' = y at hm
  rcases hm with hab | ⟨he, hE⟩
  · rw [map_ok hx, map_ok hy]
    exact .ok (hS _ _ _ _ hab)
  · rw [map_error hx, map_error hy]
    exact .error he hE

end SameEnd

namespace Tree

variable {α β γ δ : Type} {R R₁ R₂ : Renaming} {t t' u u' v v' : Tree}
  {h h' p p' x x' old old' new new' : Handle} {c c' : Content} {P : Kind → Prop}

/-! ### Renamings that go on -/

/-- **A renaming of two trees goes on** as a renaming of two later ones. -/
structure GoesOn (R : Renaming) (t t' : Tree) (R₁ : Renaming) (u u' : Tree) : Prop where
  /-- The later trees are renamed. -/
  renamed : u.Renamed R₁ u'
  /-- Nodes that are still there are related as before. -/
  kept : ∀ x x', R x x' → u.contains x = true → R₁ x x'
  /-- All other pairs are of handles that denoted nothing before. -/
  new : ∀ x x', R₁ x x' → t.Corresponds R t' x x'

/-- A renaming that only gains pairs. -/
structure Extends (R : Renaming) (t t' : Tree) (R₁ : Renaming) (u u' : Tree) : Prop extends
    GoesOn R t t' R₁ u u' where
  /-- All pairs stay. -/
  le : ∀ x x', R x x' → R₁ x x'

/-- A renaming that only loses pairs. -/
structure Sheds (R : Renaming) (t t' : Tree) (R₁ : Renaming) (u u' : Tree) : Prop extends
    GoesOn R t t' R₁ u u' where
  /-- No pair is added. -/
  ge : ∀ x x', R₁ x x' → R x x'

theorem Renamed.extends (hu : u.Renamed R u') (t t' : Tree) : Extends R t t' R u u' where
  renamed := hu
  kept _ _ hx _ := hx
  new _ _ hx := Or.inl hx
  le _ _ hx := hx

/-- What meant the same still does when a renaming went on, if it was there. -/
theorem GoesOn.corresponds (hg : GoesOn R t t' R₁ u u') (hr : t.Renamed R t') (hx : R x x') :
    u.Corresponds R₁ u' x x' := by
  by_cases hu : u.contains x = true
  · exact Or.inl (hg.kept x x' hx hu)
  · refine Or.inr ⟨Bool.eq_false_iff.mpr hu, Bool.eq_false_iff.mpr fun hu' => hu ?_⟩
    -- Were the second one still there, something would be related to it, and that is the first.
    obtain ⟨y, hy⟩ := (hg.renamed.right x').mp hu'
    rcases hg.new y x' hy with hyx | ⟨-, hdead⟩
    · obtain rfl := hr.biUnique.1 hyx hx
      exact (hg.renamed.left y).mpr ⟨x', hy⟩
    · exact absurd ((hr.right x').mpr ⟨x, hx⟩) (by rw [hdead]; exact Bool.false_ne_true)

/-- What corresponds after nodes were added did so before. -/
theorem Extends.corresponds_of (he : Extends R t t' R₁ u u') (hr : t.Renamed R t')
    (hx : u.Corresponds R₁ u' x x') : t.Corresponds R t' x x' := by
  rcases hx with hx | ⟨hd, hd'⟩
  · exact he.new x x' hx
  · refine Or.inr ⟨Bool.eq_false_iff.mpr fun hl => ?_, Bool.eq_false_iff.mpr fun hl => ?_⟩
    · obtain ⟨y, hy⟩ := (hr.left x).mp hl
      have hu := (he.renamed.left x).mpr ⟨y, he.le x y hy⟩
      exact Bool.false_ne_true (hd.symm.trans hu)
    · obtain ⟨y, hy⟩ := (hr.right x').mp hl
      have hu := (he.renamed.right x').mpr ⟨y, he.le y x' hy⟩
      exact Bool.false_ne_true (hd'.symm.trans hu)

/-- Nodes are added first. -/
theorem Extends.goesOn_trans (he : Extends R t t' R₁ u u') (hr : t.Renamed R t')
    (hg : GoesOn R₁ u u' R₂ v v') : GoesOn R t t' R₂ v v' where
  renamed := hg.renamed
  kept x x' hx hv := hg.kept x x' (he.le x x' hx) hv
  new x x' hx := he.corresponds_of hr (hg.new x x' hx)

theorem Extends.trans (he : Extends R t t' R₁ u u') (hr : t.Renamed R t')
    (he' : Extends R₁ u u' R₂ v v') : Extends R t t' R₂ v v' where
  toGoesOn := he.goesOn_trans hr he'.toGoesOn
  le x x' hx := he'.le x x' (he.le x x' hx)

/-- Nodes are deleted last. -/
theorem GoesOn.sheds_trans (hg : GoesOn R t t' R₁ u u') (hs : Sheds R₁ u u' R₂ v v') :
    GoesOn R t t' R₂ v v' where
  renamed := hs.renamed
  kept x x' hx hv := by
    obtain ⟨y, hy⟩ := (hs.renamed.left x).mp hv
    have hu := (hg.renamed.left x).mpr ⟨y, hs.ge x y hy⟩
    exact hs.kept x x' (hg.kept x x' hx hu) hv
  new x x' hx := hg.new x x' (hs.ge x x' hx)

/-! ### Changed nodes -/

theorem contains_modify (t : Tree) (h : Handle) (f : Node → Node) (x : Handle) :
    (t.modify h f).contains x = t.contains x := by
  rw [contains, contains, find?_modify]
  split
  · next he => rw [Option.isSome_map, he]
  · rfl

/-- **Two related nodes are changed alike.** -/
theorem Renamed.modify (hr : t.Renamed R t') (hR : R h h') {f g : Node → Node}
    (hf : ∀ node node', node.Renamed R node' → (f node).Renamed R (g node')) :
    (t.modify h f).Renamed R (t'.modify h' g) where
  biUnique := hr.biUnique
  left x := by rw [contains_modify, hr.left]
  right x := by rw [contains_modify, hr.right]
  nodes x x' node node' hx hn hn' := by
    have heq := eq_iff_of_biUnique hr.biUnique hx hR
    rw [find?_modify] at hn hn'
    by_cases hxh : x = h
    · rw [if_pos hxh] at hn
      rw [if_pos (heq.mp hxh)] at hn'
      obtain ⟨before, hb, rfl⟩ := Option.map_eq_some_iff.mp hn
      obtain ⟨before', hb', rfl⟩ := Option.map_eq_some_iff.mp hn'
      exact hf _ _ (hr.nodes h h' before before' hR hb hb')
    · rw [if_neg hxh] at hn
      rw [if_neg fun he => hxh (heq.mpr he)] at hn'
      exact hr.nodes x x' node node' hx hn hn'

/-- Two related nodes get related owners. -/
theorem Renamed.setParent (hr : t.Renamed R t') (hR : R h h') {parent parent' : Option Handle}
    (hp : Option.Rel R parent parent') : (t.modify h fun node => { node with parent }).Renamed R
      (t'.modify h' fun node => { node with parent := parent' }) :=
  hr.modify hR fun _ _ hn => ⟨hn.content, hp⟩

theorem Renamed.relink (hr : t.Renamed R t') (hp : R p p') (hh : R h h')
    {change change' : Content → Content} {parent parent' : Option Handle}
    (hc : ∀ c c', c.Renamed R c' → (change c).Renamed R (change' c'))
    (hparent : Option.Rel R parent parent') :
    (t.relink p change h parent).Renamed R (t'.relink p' change' h' parent') :=
  have hchanged : (t.modify p fun node => { node with content := change node.content }).Renamed R
      (t'.modify p' fun node => { node with content := change' node.content }) :=
    hr.modify hp fun _ _ hn => ⟨hc _ _ hn.content, hn.parent⟩
  hchanged.setParent hh hparent

/-! ### New nodes -/

/-- A pair of handles that stand in no pair yet may be added. -/
theorem biUnique_insert (hR : Relator.BiUnique R) (hh : ∀ {x x'}, R x x' → x ≠ h ∧ x' ≠ h') :
    Relator.BiUnique fun x x' => R x x' ∨ x = h ∧ x' = h' := by
  constructor
  · rintro x y z (hx | ⟨rfl, rfl⟩) (hy | ⟨rfl, hz⟩)
    · exact hR.1 hx hy
    · exact absurd hz (hh hx).2
    · exact absurd rfl (hh hy).2
    · rfl
  · rintro x y z (hx | ⟨rfl, rfl⟩) (hy | ⟨hz, rfl⟩)
    · exact hR.2 hx hy
    · exact absurd hz (hh hx).1
    · exact absurd rfl (hh hy).1
    · rfl

theorem contains_iff_of_insert {node : Node}
    (hfind : ∀ x, u.find? x = if x = h then some node else t.find? x) (x : Handle) :
    u.contains x = true ↔ t.contains x = true ∨ x = h := by
  rw [contains, contains, hfind]
  by_cases hx : x = h <;> simp [hx]

/-- **A new node is related to a new node.** Neither handle denoted anything before, so neither
stands in a pair. -/
theorem Renamed.insert (hr : t.Renamed R t') (hc : c.Renamed R c') (hnew : t.find? h = none)
    (hnew' : t'.find? h' = none)
    (hfind : ∀ x, u.find? x = if x = h then some ⟨c, none⟩ else t.find? x)
    (hfind' : ∀ x, u'.find? x = if x = h' then some ⟨c', none⟩ else t'.find? x) :
    Extends R t t' (fun x x' => R x x' ∨ x = h ∧ x' = h') u u' := by
  have hdead := find?_eq_none_iff.mp hnew
  have hdead' := find?_eq_none_iff.mp hnew'
  -- The new handles stand in no pair yet.
  have hne : ∀ {x x'}, R x x' → x ≠ h ∧ x' ≠ h' := fun {x x'} hx => by
    constructor
    · rintro rfl
      exact Bool.false_ne_true (hdead.symm.trans ((hr.left x).mpr ⟨x', hx⟩))
    · rintro rfl
      exact Bool.false_ne_true (hdead'.symm.trans ((hr.right x').mpr ⟨x, hx⟩))
  have hu : u.Renamed (fun x x' => R x x' ∨ x = h ∧ x' = h') u' := by
    refine ⟨biUnique_insert hr.biUnique hne, fun x => ?_, fun x' => ?_,
      fun x x' node node' hx hn hn' => ?_⟩
    · rw [contains_iff_of_insert hfind, hr.left]
      simp only [exists_or, exists_and_left, exists_eq, and_true]
    · rw [contains_iff_of_insert hfind', hr.right]
      simp only [exists_or, exists_and_right, exists_eq, true_and]
    · rw [hfind] at hn
      rw [hfind'] at hn'
      rcases hx with hx | ⟨rfl, rfl⟩
      · rw [if_neg (hne hx).1] at hn
        rw [if_neg (hne hx).2] at hn'
        exact (hr.nodes x x' node node' hx hn hn').imp_of_mem fun y _ _ hy => Or.inl hy
      · rw [if_pos rfl] at hn hn'
        obtain rfl := Option.some.inj hn
        obtain rfl := Option.some.inj hn'
        exact ⟨hc.imp_of_mem fun y _ _ hy => Or.inl hy, .none⟩
  refine ⟨⟨hu, fun _ _ hx _ => Or.inl hx, ?_⟩, fun _ _ => Or.inl⟩
  rintro x x' (hx | ⟨rfl, rfl⟩)
  · exact Or.inl hx
  · exact Or.inr ⟨hdead, hdead'⟩

theorem Renamed.allocate (hr : t.Renamed R t') (ha : t.Accounts) (ha' : t'.Accounts)
    (hc : c.Renamed R c') (hfit : (t.allocate c).2.Fits) (hfit' : (t'.allocate c').2.Fits) :
    Extends R t t' (fun x x' => R x x' ∨ x = (t.allocate c).1 ∧ x' = (t'.allocate c').1)
      (t.allocate c).2 (t'.allocate c').2 :=
  hr.insert hc (ha.find?_allocate_fst c hfit) (ha'.find?_allocate_fst c' hfit')
    (ha.find?_allocate c hfit) (ha'.find?_allocate c' hfit')

/-- **A new object and its label are related to a new object and its label.** -/
theorem Renamed.withLabel (hr : t.Renamed R t') (ha : t.Accounts) (ha' : t'.Accounts)
    (bytes : Bytes) {content content' : Handle → Content}
    (hc : ∀ S : Renaming, (∀ x x', R x x' → S x x') → ∀ x x', S x x' →
      (content x).Renamed S (content' x'))
    (hfit : (t.withLabel bytes content).2.2.Fits) (hfit' : (t'.withLabel bytes content').2.2.Fits) :
    ∃ S, Extends R t t' S (t.withLabel bytes content).2.2 (t'.withLabel bytes content').2.2 ∧
      S (t.withLabel bytes content).2.1 (t'.withLabel bytes content').2.1 := by
  rw [Tree.withLabel, Fits, length_slots_modify] at hfit hfit'
  have hlabel := Nat.le_trans (length_slots_le_allocate _ _) hfit
  have hlabel' := Nat.le_trans (length_slots_le_allocate _ _) hfit'
  -- The label is made before its owner, and gets the owner last.
  have he₁ := hr.allocate ha ha' (.data .nameString bytes) hlabel hlabel'
  have he₂ := he₁.renamed.allocate (ha.allocate _ hlabel) (ha'.allocate _ hlabel')
    (hc _ he₁.le _ _ (Or.inr ⟨rfl, rfl⟩)) hfit hfit'
  have hobject := he₂.renamed.setParent (he₂.le _ _ (Or.inr ⟨rfl, rfl⟩))
    (.some (Or.inr ⟨rfl, rfl⟩))
  refine ⟨_, (he₁.trans hr he₂).trans hr (hobject.extends _ _), Or.inr ⟨rfl, rfl⟩⟩

/-! ### Nodes that go away -/

/-- What stays has no link and no owner in a subtree that is owned by nothing. -/
theorem Sound.not_mem_postorder (hs : t.Sound P) {node below : Node} (hn : t.find? h = some node)
    (hd : node.parent = none) (hb : t.find? x = some below) (hout : x ∉ t.postorder h) {y : Handle}
    (hy : y ∈ below.content.links ∨ below.parent = some y) : y ∉ t.postorder h := by
  intro hin
  have hpath := (hs.mem_postorder_iff hn).mp hin
  -- A link is owned by what lists it, so the two are in the subtree together.
  rcases hy with hy | hy
  · have hyx := hs.forest.parent_of_mem hb hy
    rcases Relation.ReflTransGen.cases_head hpath with rfl | ⟨q, hq, hqh⟩
    · exact View.not_parent_of_detached hn hd hyx
    · exact hout ((hs.mem_postorder_iff hn).mpr (hq.unique hyx ▸ hqh))
  · exact hout ((hs.mem_postorder_iff hn).mpr (Relation.ReflTransGen.head ⟨below, hb, hy⟩ hpath))

/-- **A subtree goes away under both handles.** What stays has no link into it, because the parent
of a link is the node that lists it. -/
theorem Renamed.released (hr : t.Renamed R t') (hs : t.Sound P) (ha' : t'.Accounts) (hR : R h h')
    {node : Node} (hn : t.find? h = some node) (hd : node.parent = none) :
    Sheds R t t' (fun x x' => R x x' ∧ x ∉ t.postorder h)
      ((t.postorder h).foldr (fun h t => t.release h) t)
      ((t'.postorder h').foldr (fun h t => t.release h) t') := by
  have hmem : ∀ {x x'}, R x x' → (x ∈ t.postorder h ↔ x' ∈ t'.postorder h') := fun hx =>
    List.rel_mem hr.biUnique hx (hr.postorder hs.accounts ha' (Or.inl hR))
  refine ⟨⟨⟨⟨?_, ?_⟩, fun x => ?_, fun x' => ?_, ?_⟩, ?_, fun _ _ hx => Or.inl hx.1⟩,
    fun _ _ hx => hx.1⟩
  · intro x y z hx hy
    exact hr.biUnique.1 hx.1 hy.1
  · intro x y z hx hy
    exact hr.biUnique.2 hx.1 hy.1
  · rw [contains_foldr_release, hr.left, exists_and_right]
  · rw [contains_foldr_release, hr.right, ← exists_and_right]
    refine exists_congr fun x => and_congr_right fun hx => ?_
    rw [hmem hx]
  · rintro x x' below below' ⟨hx, hout⟩ hb hb'
    rw [find?_foldr_release, if_neg hout] at hb
    rw [find?_foldr_release, if_neg fun hin => hout ((hmem hx).mpr hin)] at hb'
    refine (hr.nodes x x' below below' hx hb hb').imp_of_mem fun y hy y' hyy => ⟨hyy, ?_⟩
    exact hs.not_mem_postorder hn hd hb hout hy
  · intro x x' hx hl
    exact ⟨hx, ((contains_foldr_release t _ x).mp hl).2⟩

/-! ### Runs -/

/-- **How two edits end alike**: the renaming has gained the new nodes, or both trees are as they
were. -/
abbrev Alike (R : Renaming) (t t' : Tree) (Q : Renaming → α → β → Prop) :
    EStateM.Result Error Tree α → EStateM.Result Error Tree β → Prop :=
  SameEnd (fun a b u u' => ∃ R₁, Extends R t t' R₁ u u' ∧ Q R₁ a b) fun u u' => u = t ∧ u' = t'

/-- A question comes first. -/
theorem sameEnd_asked {Q : α → β → Prop} {S : γ → δ → Tree → Tree → Prop}
    {q : Tree → Except Error α} {q' : Tree → Except Error β} {f : α → TreeM γ} {g : β → TreeM δ}
    (hq : SameAnswer Q (q t) (q' t'))
    (hf : ∀ a b, q t = .ok a → q' t' = .ok b → Q a b →
      SameEnd S (fun u u' => u = t ∧ u' = t') (f a t) (g b t')) :
    SameEnd S (fun u u' => u = t ∧ u' = t') ((ask q >>= f) t) ((ask q' >>= g) t') := by
  generalize hx : q t = x, hy : q' t' = y at hq
  rcases hq with hab | he
  · rw [bind_ok (ask_ok hx), bind_ok (ask_ok hy)]
    exact hf _ _ hx hy hab
  · rw [bind_error (ask_error hx), bind_error (ask_error hy)]
    exact .error he ⟨rfl, rfl⟩

/-- What making a `Name` does once its value may be taken over. -/
theorem makeName_of_ok (ha : t.Accounts) {name : String} {bytes : Bytes}
    (hname : Aml.objectName name false = .ok bytes) {a b : Unit}
    (hdetached : t.requireDetached h = .ok a) (hvalue : t.requireValue h = .ok b)
    (hfit : (after (makeName name h) t).Fits) :
    (t.withLabel bytes fun label => .name label h).2.2.Fits ∧ makeName name h t =
      .ok (t.withLabel bytes fun label => .name label h).2.1
        ((t.withLabel bytes fun label => .name label h).2.2.modify h fun node =>
          { node with parent := some (t.withLabel bytes fun label => .name label h).2.1 }) := by
  obtain ⟨node, hn, hd⟩ := requireDetached_eq_ok_iff.mp hdetached
  obtain ⟨node', hn', hk⟩ := requireValue_eq_ok_iff.mp hvalue
  obtain rfl := Option.some.inj (hn.symm.trans hn')
  have hroom := (grows_makeName hname hn hd hk).fits hfit
  exact ⟨hroom, makeName_ok ha hname hn hd hk hroom⟩

section Edits

variable (hr : t.Renamed R t') (ha : t.Accounts) (ha' : t'.Accounts)

include hr ha ha'

theorem alike_makeData (type : DataType) (bytes : Bytes)
    (hfit : (after (makeData type bytes) t).Fits) (hfit' : (after (makeData type bytes) t').Fits) :
    Alike R t t' (fun R₁ a b => R₁ a b) (makeData type bytes t) (makeData type bytes t') := by
  cases hd : requireData type bytes with
  | error e =>
    rw [makeData_eq, makeData_eq, hd]
    exact .error rfl ⟨rfl, rfl⟩
  | ok u =>
    rw [after, makeData_eq, hd] at hfit hfit'
    rw [makeData_eq, makeData_eq, hd]
    exact .ok ⟨_, hr.allocate ha ha' (.data type bytes) hfit hfit', Or.inr ⟨rfl, rfl⟩⟩

theorem alike_makeBuffer (hfit : (after makeBuffer t).Fits) (hfit' : (after makeBuffer t').Fits) :
    Alike R t t' (fun R₁ a b => R₁ a b) (makeBuffer t) (makeBuffer t') := by
  rw [after_ok (makeBuffer_eq _)] at hfit hfit'
  rw [makeBuffer_eq, makeBuffer_eq]
  exact .ok ⟨_, hr.allocate ha ha' (.buffer .nil) hfit hfit', Or.inr ⟨rfl, rfl⟩⟩

theorem alike_makeRegion (kind : Region) (name : String)
    (hfit : (after (makeRegion kind name) t).Fits)
    (hfit' : (after (makeRegion kind name) t').Fits) :
    Alike R t t' (fun R₁ a b => R₁ a b) (makeRegion kind name t) (makeRegion kind name t') := by
  cases hname : Aml.objectName name (kind == .scope) with
  | error e =>
    rw [makeRegion_error hname t, makeRegion_error hname t']
    exact .error rfl ⟨rfl, rfl⟩
  | ok bytes =>
    have hroom := (grows_makeRegion hname t).fits hfit
    have hroom' := (grows_makeRegion hname t').fits hfit'
    rw [makeRegion_ok ha hname hroom, makeRegion_ok ha' hname hroom']
    exact .ok (hr.withLabel ha ha' bytes (fun S _ x x' hx => .region kind hx .nil) hroom hroom')

theorem alike_makeObject (opcode : Opcode) (name : Option String)
    (hfit : (after (makeObject opcode name) t).Fits)
    (hfit' : (after (makeObject opcode name) t').Fits) :
    Alike R t t' (fun R₁ a b => R₁ a b) (makeObject opcode name t) (makeObject opcode name t') := by
  rcases opcode with _ | _ | kind <;> rcases name with _ | name
  case buffer.none => exact alike_makeBuffer hr ha ha' hfit hfit'
  case region.some => exact alike_makeRegion hr ha ha' kind name hfit hfit'
  all_goals exact .error rfl ⟨rfl, rfl⟩

theorem alike_makeName (name : String) (hh : t.Corresponds R t' h h')
    (hfit : (after (makeName name h) t).Fits) (hfit' : (after (makeName name h') t').Fits) :
    Alike R t t' (fun R₁ a b => R₁ a b) (makeName name h t) (makeName name h' t') := by
  refine sameEnd_asked (hr.sameAnswer_requireDetached hh) fun _ _ hdet hdet' hR => ?_
  refine sameEnd_asked (hr.sameAnswer_requireValue hh) fun _ _ hval hval' _ => ?_
  cases hname : Aml.objectName name false with
  | error e =>
    rw [bind_error (makeLabel_error hname t), bind_error (makeLabel_error hname t')]
    exact .error rfl ⟨rfl, rfl⟩
  | ok bytes =>
    obtain ⟨hroom, hok⟩ := makeName_of_ok ha hname hdet hval hfit
    obtain ⟨hroom', hok'⟩ := makeName_of_ok ha' hname hdet' hval' hfit'
    have hrun : makeName name h t = _ := (bind_ok (ask_ok hdet)).trans (bind_ok (ask_ok hval))
    have hrun' : makeName name h' t' = _ := (bind_ok (ask_ok hdet')).trans (bind_ok (ask_ok hval'))
    rw [← hrun, ← hrun', hok, hok']
    obtain ⟨S, he, hobject⟩ := hr.withLabel ha ha' bytes
      (fun S hle x x' hx => .name hx (hle h h' hR)) hroom hroom'
    have hvalue := he.renamed.setParent (he.le h h' hR) (.some hobject)
    exact .ok ⟨S, he.trans hr (hvalue.extends _ _), hobject⟩

theorem alike_appendDescriptor (hp : t.Corresponds R t' p p') (hh : t.Corresponds R t' h h') :
    Alike R t t' (fun _ _ _ => True) (appendDescriptor p h t) (appendDescriptor p' h' t') := by
  refine sameEnd_asked (hr.sameAnswer_requireAppendable ha ha' hp hh) fun b b' hb hb' hR => ?_
  obtain ⟨rfl, hpR, hhR⟩ := hR
  obtain ⟨hatt, -⟩ := requireAppendable_eq_ok_iff.mp hb
  obtain ⟨hatt', -⟩ := requireAppendable_eq_ok_iff.mp hb'
  obtain ⟨above, node, habove, hn, -, -, hacc⟩ := requireAttachable_eq_ok_iff.mp hatt
  obtain ⟨above', node', habove', hn', -, -, hacc'⟩ := requireAttachable_eq_ok_iff.mp hatt'
  rw [relink_eq habove hn (Content.ne_data_of_accepts hacc),
    relink_eq habove' hn' (Content.ne_data_of_accepts hacc')]
  have hlinked := hr.relink hpR hhR (fun c c' hc =>
    hc.mapChildren fun xs ys hxs => forall₂_insertItem b hxs hhR) (.some hpR)
  exact .ok ⟨R, hlinked.extends t t', trivial⟩

theorem alike_attach (hp : t.Corresponds R t' p p') (hh : t.Corresponds R t' h h') :
    Alike R t t' (fun _ _ _ => True) (attach p h t) (attach p' h' t') := by
  -- Under a buffer, attaching is adding a descriptor. All other parents are alike.
  have hother : Alike R t t' (fun _ _ _ => True)
      ((do
        ask fun t => t.requireAttachable p h
        updateChildren p fun members => members ++ [h]
        setOwner h (some p) : TreeM Unit) t)
      ((do
        ask fun t => t.requireAttachable p' h'
        updateChildren p' fun members => members ++ [h']
        setOwner h' (some p') : TreeM Unit) t') := by
    refine sameEnd_asked (hr.sameAnswer_requireAttachable ha ha' hp hh) fun _ _ hatt hatt' hR => ?_
    obtain ⟨above, node, habove, hn, -, -, hacc⟩ := requireAttachable_eq_ok_iff.mp hatt
    obtain ⟨above', node', habove', hn', -, -, hacc'⟩ := requireAttachable_eq_ok_iff.mp hatt'
    rw [relink_eq habove hn (Content.ne_data_of_accepts hacc),
      relink_eq habove' hn' (Content.ne_data_of_accepts hacc')]
    have hlinked := hr.relink hR.1 hR.2 (fun c c' hc =>
      hc.mapChildren fun xs ys hxs => List.rel_append hxs (.cons hR.2 .nil)) (.some hR.1)
    exact .ok ⟨R, hlinked.extends t t', trivial⟩
  refine sameEnd_asked (hr.sameAnswer_content hp) fun c c' _ _ hc => ?_
  rcases hc.2 with _ | _ | _ | _
  · exact hother
  · exact hother
  · exact alike_appendDescriptor hr ha ha' hp hh
  · exact hother

omit ha ha' in
theorem alike_detach (hh : t.Corresponds R t' h h') :
    Alike R t t' (fun _ _ _ => True) (detach h t) (detach h' t') := by
  refine sameEnd_asked (hr.sameAnswer_childOwner hh) fun q q' hq hq' hR => ?_
  obtain ⟨node, above, hn, -, habove, hmem⟩ := childOwner_eq_ok_iff.mp hq
  obtain ⟨node', above', hn', -, habove', hmem'⟩ := childOwner_eq_ok_iff.mp hq'
  rw [relink_eq habove hn (Content.ne_data_of_mem_children hmem),
    relink_eq habove' hn' (Content.ne_data_of_mem_children hmem')]
  have hlinked := hr.relink hR.1 hR.2 (fun c c' hc =>
    hc.mapChildren fun xs ys hxs => forall₂_erase hr.biUnique hxs hR.2) .none
  exact .ok ⟨R, hlinked.extends t t', trivial⟩

theorem alike_replace (ho : t.Corresponds R t' old old') (hn : t.Corresponds R t' new new') :
    Alike R t t' (fun _ _ _ => True) (replace old new t) (replace old' new' t') := by
  refine sameEnd_asked (hr.sameAnswer_requireReplacement ha ha' ho hn) ?_
  rintro ⟨q, position⟩ ⟨q', position'⟩ hq hq' ⟨hqR, hposition, hoR, hnR⟩
  dsimp only at hqR hposition ⊢
  subst hposition
  obtain ⟨above, oldNode, newNode, habove, hold, hnew, -⟩ := requireReplacement_eq_ok_iff.mp hq
  obtain ⟨above', oldNode', newNode', habove', hold', hnew', -⟩ :=
    requireReplacement_eq_ok_iff.mp hq'
  rw [exchange_eq habove hold hnew, exchange_eq habove' hold' hnew']
  have hlinked := hr.relink hqR hoR (fun c c' hc => hc.put hnR position) .none
  have hexchanged := hlinked.setParent hnR (.some hqR)
  exact .ok ⟨R, hexchanged.extends t t', trivial⟩

omit ha in
/-- **A subtree is deleted under both handles**, or under neither. -/
theorem sameEnd_delete (hs : t.Sound P) (hh : t.Corresponds R t' h h') :
    SameEnd (fun _ _ u u' => ∃ R₁, Sheds R t t' R₁ u u') (fun u u' => u = t ∧ u' = t')
      (delete h t) (delete h' t') := by
  refine sameEnd_asked (hr.sameAnswer_requireDetached hh) fun _ _ hdet _ hR => ?_
  obtain ⟨node, hn, hd⟩ := requireDetached_eq_ok_iff.mp hdet
  exact .ok ⟨_, hr.released hs ha' hR hn hd⟩

end Edits

/-! ### Requests -/

/-- **The same request** in other words: the plain arguments are the same, and the handles mean the
same. -/
inductive Request.Renamed (S : Handle → Handle → Prop) : Request → Request → Prop
  /-- Data has no handles. -/
  | makeData (type : DataType) (bytes : Bytes) :
    Renamed S (.makeData type bytes) (.makeData type bytes)
  /-- An empty object has none. -/
  | makeObject (opcode : Opcode) (name : Option String) :
    Renamed S (.makeObject opcode name) (.makeObject opcode name)
  /-- A `Name` takes over a value. -/
  | makeName (name : String) {value value' : Handle} :
    S value value' → Renamed S (.makeName name value) (.makeName name value')
  /-- A node is attached under a parent. -/
  | attach {parent parent' h h' : Handle} :
    S parent parent' → S h h' → Renamed S (.attach parent h) (.attach parent' h')
  /-- A descriptor is attached under a buffer. -/
  | appendDescriptor {buffer buffer' h h' : Handle} : S buffer buffer' → S h h' →
    Renamed S (.appendDescriptor buffer h) (.appendDescriptor buffer' h')
  /-- A child is detached. -/
  | detach {h h' : Handle} : S h h' → Renamed S (.detach h) (.detach h')
  /-- A node takes the place of another. -/
  | replace {old old' new new' : Handle} :
    S old old' → S new new' → Renamed S (.replace old new) (.replace old' new')
  /-- A subtree is deleted. -/
  | delete {h h' : Handle} : S h h' → Renamed S (.delete h) (.delete h')

/-- An edit only gains nodes, whatever is read from its result. -/
theorem sameEnd_of_alike {Q : Renaming → α → β → Prop} {m : TreeM α} {m' : TreeM β}
    {f : α → Option Handle} {g : β → Option Handle} (hm : Alike R t t' Q (m t) (m' t'))
    (hQ : ∀ R₁ a b, Q R₁ a b → Option.Rel R₁ (f a) (g b)) :
    SameEnd (fun a b u u' => ∃ R₁, GoesOn R t t' R₁ u u' ∧ Option.Rel R₁ a b)
      (fun u u' => u = t ∧ u' = t') ((f <$> m) t) ((g <$> m') t') :=
  hm.map fun _ _ _ _ ⟨R₁, he, hab⟩ => ⟨R₁, he.toGoesOn, hQ R₁ _ _ hab⟩

/-- **Renamed requests end alike** in renamed trees: with related results, if any, or with errors of
one class and the trees as they were. -/
theorem Request.Renamed.sameEnd {r r' : Request} (hrr : r.Renamed (t.Corresponds R t') r')
    (hr : t.Renamed R t') (hs : t.Sound P) (ha' : t'.Accounts)
    (hfit : (r.apply t).Fits) (hfit' : (r'.apply t').Fits) :
    SameEnd (fun a b u u' => ∃ R₁, GoesOn R t t' R₁ u u' ∧ Option.Rel R₁ a b)
      (fun u u' => u = t ∧ u' = t') (r.perform t) (r'.perform t') := by
  have ha := hs.accounts
  have hnew : ∀ (R₁ : Renaming) a b, R₁ a b → Option.Rel R₁ (some a) (some b) :=
    fun _ _ _ hab => .some hab
  have hnone : ∀ (R₁ : Renaming) (_ _ : Unit), True → Option.Rel R₁ none none :=
    fun _ _ _ _ => .none
  cases hrr with
  | makeData type bytes =>
    exact sameEnd_of_alike (alike_makeData hr ha ha' type bytes hfit hfit') hnew
  | makeObject opcode name =>
    exact sameEnd_of_alike (alike_makeObject hr ha ha' opcode name hfit hfit') hnew
  | makeName name hv =>
    exact sameEnd_of_alike (alike_makeName hr ha ha' name hv hfit hfit') hnew
  | attach hp hh => exact sameEnd_of_alike (alike_attach hr ha ha' hp hh) hnone
  | appendDescriptor hb hh => exact sameEnd_of_alike (alike_appendDescriptor hr ha ha' hb hh) hnone
  | detach hh => exact sameEnd_of_alike (alike_detach hr hh) hnone
  | replace ho hn => exact sameEnd_of_alike (alike_replace hr ha ha' ho hn) hnone
  | delete hh =>
    exact (sameEnd_delete hr ha' hs hh).map fun _ _ _ _ ⟨R₁, he⟩ => ⟨R₁, he.toGoesOn, .none⟩

end Tree

end AcpiTables
