import AcpiTables.Proofs.Exchanging
import AcpiTables.Proofs.Tree.Edited

/-!
# Requests act where they are made

A request changes what one node lists, or nothing that was listed before: the parent that a node is
attached to, detached from or exchanged at (`AcpiTables.Tree.Request.Changes`). So of all nodes that
are still there, only that parent and what is above it can have other bytes.

The bytes of a node come from all nodes below it, and these are looked up by their handles, in slots
that are used again. So it is not enough that the node itself was left alone. The one thing to know
is that a node which is there with the content that it had keeps its links, and a sound tree has a
node for each of them. In this way everything below is still there
(`AcpiTables.Tree.KeepsContents.sameContent_below`), although nobody looked at what was deleted.

If a node takes the place of another one with the same bytes, then the parent has its bytes again,
and so has everything above it (`AcpiTables.Tree.Replaceable.bytesOf_exchanged`).

| result | theorem |
|---|---|
| contents change at one node only | `AcpiTables.Tree.Edited.keepsContents` |
| bytes change above that node only | `AcpiTables.Tree.Request.kept` |
| the same along several requests | `AcpiTables.Tree.Spared.kept` |
| all of it in the trees that requests make | `AcpiTables.Assembly.actsLocally_run` |
-/

namespace AcpiTables

namespace Tree

variable {t t' : Tree} {h p x old new : Handle} {node above oldNode newNode : Node}
  {ns : List Handle} {changed : Handle → Prop}

/-! ### Contents -/

/-- **Only some nodes have another content**, of those that are still there. -/
def KeepsContents (t t' : Tree) (changed : Handle → Prop) : Prop :=
  ∀ x node node', t.find? x = some node → t'.find? x = some node' → ¬changed x →
    node'.content = node.content

theorem KeepsContents.refl (t : Tree) (changed : Handle → Prop) : t.KeepsContents t changed :=
  fun _ _ _ hx hx' _ => by rw [Option.some.inj (hx.symm.trans hx')]

/-- Nodes that have the same content, whatever their owner. -/
theorem keepsContents_of_sameContent (hsame : ∀ x, ¬changed x → t.SameContent t' x) :
    t.KeepsContents t' changed := fun x node node' hx hx' hnot => by
  obtain ⟨node'', hx'', hcontent⟩ := hsame x hnot node hx
  rwa [Option.some.inj (hx'.symm.trans hx'')]

theorem KeepsContents.mono {changed' : Handle → Prop} (hk : t.KeepsContents t' changed)
    (hsub : ∀ x, changed x → changed' x) : t.KeepsContents t' changed' :=
  fun x node node' hx hx' hnot => hk x node node' hx hx' fun h => hnot (hsub x h)

theorem Grown.keepsContents (hg : Grown t ns t') : t.KeepsContents t' changed :=
  keepsContents_of_sameContent fun _ _ node hx => ⟨node, hg.find?_old hx, rfl⟩

/-- Where a node gets another owner, only the parent lists other nodes. -/
theorem keepsContents_relink (hp : t.find? p = some above) (hn : t.find? h = some node)
    (hne : p ≠ h) (change : Content → Content) (parent : Option Handle) :
    t.KeepsContents (t.relink p change h parent) (· = p) := by
  refine keepsContents_of_sameContent fun x hxp found hx => ?_
  rw [find?_relink hp hn hne, if_neg hxp]
  by_cases hxh : x = h
  · subst hxh
    obtain rfl := Option.some.inj (hn.symm.trans hx)
    exact ⟨_, if_pos rfl, rfl⟩
  · exact ⟨found, (if_neg hxh).trans hx, rfl⟩

/-- Where a node takes the place of another, only the parent lists other nodes. -/
theorem Replaceable.sameContent {position : Position}
    (hr : t.Replaceable p old new position above oldNode newNode) (ho : t.Ordered) (hxp : x ≠ p) :
    t.SameContent (t.exchanged p old new position) x := by
  intro found hx
  rw [hr.find?_exchanged ho]
  by_cases hxn : x = new
  · subst hxn
    obtain rfl := Option.some.inj (hr.find_new.symm.trans hx)
    exact ⟨_, if_pos rfl, rfl⟩
  · by_cases hxo : x = old
    · subst hxo
      obtain rfl := Option.some.inj (hr.find_old.symm.trans hx)
      exact ⟨_, (if_neg hxn).trans (if_pos rfl), rfl⟩
    · exact ⟨found, (if_neg hxn).trans ((if_neg hxo).trans ((if_neg hxp).trans hx)), rfl⟩

/-- The node whose links a request changes. -/
inductive Request.Changes (t : Tree) : Request → Handle → Prop
  /-- A parent gets another child. -/
  | attach {p h : Handle} : Changes t (.attach p h) p
  /-- A buffer gets another descriptor. -/
  | appendDescriptor {p h : Handle} : Changes t (.appendDescriptor p h) p
  /-- The parent loses a child. -/
  | detach {h p : Handle} : t.parent h = .ok (some p) → Changes t (.detach h) p
  /-- The parent has another node in a place. -/
  | replace {old new p : Handle} : t.parent old = .ok (some p) → Changes t (.replace old new) p

/-- **Contents change at one node only.** -/
theorem Edited.keepsContents {r : Request} (he : t.Edited r t') (ho : t.Ordered) :
    t.KeepsContents t' (r.Changes t) := by
  cases he with
  | failed => exact KeepsContents.refl t _
  | data hg => exact hg.keepsContents
  | object hg => exact hg.keepsContents
  | @named name value label h bytes content t' hv hm =>
    refine keepsContents_of_sameContent fun x _ found hx => ?_
    by_cases hxv : x = value
    · subst hxv
      obtain rfl := Option.some.inj (hv.symm.trans hx)
      exact ⟨_, hm.found_value, rfl⟩
    · exact ⟨found, hm.find?_old hxv hx, rfl⟩
  | attached ha =>
    refine (keepsContents_relink ha.find_parent ha.find_node ha.ne _ _).mono ?_
    rintro x rfl
    exact .attach
  | appended ha =>
    refine (keepsContents_relink ha.find_parent ha.find_node ha.ne _ _).mono ?_
    rintro x rfl
    exact .appendDescriptor
  | @detached p h above node hp hn hpar =>
    refine (keepsContents_relink hp hn (ho.forest.owner_ne ⟨node, hn, hpar⟩) _ _).mono ?_
    rintro x rfl
    exact .detach (hpar ▸ parent_eq hn)
  | @exchanged p old new position above oldNode newNode hp hold hnew hpar hd hna hpos hadm =>
    have hr : t.Replaceable p old new position above oldNode newNode :=
      ⟨hp, hold, hnew, hpar, hd, hna, hpos, hadm⟩
    refine keepsContents_of_sameContent fun x hnot => hr.sameContent ho ?_
    rintro rfl
    exact hnot (.replace (hpar ▸ parent_eq hold))
  | deleted =>
    intro x node node' hx hx' _
    rw [find?_foldr_release] at hx'
    split at hx'
    · exact nomatch hx'
    · rw [Option.some.inj (hx.symm.trans hx')]

/-- The same in any memory: what is left over has the nodes that there were. -/
theorem Request.keepsContents [Memory] (r : Request) (hs : t.Sound fun _ => True)
    (hfit : (r.apply t).Fits) : t.KeepsContents (r.apply t) (r.Changes t) := by
  rcases r.apply_cases t with heq | hleft
  · rw [heq] at hfit ⊢
    exact (r.edited hs.accounts hfit).keepsContents hs.toOrdered
  · refine keepsContents_of_sameContent fun x _ node hx => ⟨node, ?_, rfl⟩
    exact (hleft.find?_eq hs.accounts hfit x).trans hx

/-! ### Bytes -/

/-- **What is below a node that is still there is still there**, with its content, if no content
below changed. -/
theorem KeepsContents.sameContent_below (hk : t.KeepsContents t' changed) (ho : t.Ordered)
    (ho' : t'.Ordered) (hx' : t'.contains x = true)
    (hfar : ∀ p, changed p → ¬View.Above t.find? x p) {y : Handle} (hy : View.Above t.find? x y) :
    t.SameContent t' y := by
  obtain ⟨node', hx'⟩ := contains_iff.mp hx'
  have hstep : ∀ {z node'}, View.Above t.find? x z → t'.find? z = some node' →
      t.SameContent t' z := fun {z node'} hz hz' node hn =>
    ⟨node', hz', hk z node node' hn hz' fun hchanged => hfar z hchanged hz⟩
  induction hy using Relation.ReflTransGen.head_induction_on with
  | refl => exact hstep Relation.ReflTransGen.refl hx'
  | @head y z hyz hz ih =>
    obtain ⟨above, hn, hmem⟩ := (ho.forest.parent_iff_lists y z).mp hyz
    obtain ⟨above', hn', hcontent⟩ := ih above hn
    obtain ⟨found, hy'⟩ := ho'.exists_of_mem hn' (hcontent ▸ hmem)
    exact hstep (Relation.ReflTransGen.head hyz hz) hy'

/-- **A node is kept** with all that is below it: it has its content and its bytes. -/
theorem KeepsContents.kept (hk : t.KeepsContents t' changed) (ho : t.Ordered) (ho' : t'.Ordered)
    (hx : t.contains x = true) (hx' : t'.contains x = true)
    (hfar : ∀ p, changed p → ¬View.Above t.find? x p) :
    t'.content x = t.content x ∧ t'.encode x = t.encode x := by
  have hsame := fun y => hk.sameContent_below ho ho' hx' hfar (y := y)
  obtain ⟨node, hn⟩ := contains_iff.mp hx
  obtain ⟨node', hn', hcontent⟩ := hsame x Relation.ReflTransGen.refl node hn
  rw [content_eq hn, content_eq hn', hcontent, encode_eq hn, encode_eq hn',
    ho.bytesOf_congr ho' hn hsame]
  exact ⟨rfl, rfl⟩

/-- **What one request keeps**: whatever is there before and after it and is not above the node
whose links it changes. -/
theorem Request.kept [Memory] (r : Request) (hs : t.Sound fun _ => True) (hfit : (r.apply t).Fits)
    (hx : t.contains x = true) (hx' : (r.apply t).contains x = true)
    (hfar : ∀ p, r.Changes t p → ¬View.Above t.find? x p) :
    (r.apply t).content x = t.content x ∧ (r.apply t).encode x = t.encode x := by
  have hs' := (r.leads Kind.criterion_true r.allowed_true t).2 hfit hs
  exact (r.keepsContents hs hfit).kept hs.toOrdered hs'.toOrdered hx hx' hfar

/-- A node that is there all along several requests, none of which changes the links of a node that
it is above of. -/
def Spared (t : Tree) (x : Handle) : List (Attempt Request) → Prop
  | [] => t.contains x = true
  | a :: attempts => t.contains x = true ∧
      (∀ p, a.request.Changes t p → ¬View.Above t.find? x p) ∧
      (Request.attempt t a).Spared x attempts

theorem Spared.contains {attempts : List (Attempt Request)} (hx : t.Spared x attempts) :
    t.contains x = true := by
  cases attempts with
  | nil => exact hx
  | cons a attempts => exact hx.1

/-- **What a run of requests keeps.** -/
theorem Spared.kept {attempts : List (Attempt Request)} (hx : t.Spared x attempts)
    (hs : t.Sound fun _ => True) (hfit : (attempts.foldl Request.attempt t).Fits) :
    (attempts.foldl Request.attempt t).content x = t.content x ∧
      (attempts.foldl Request.attempt t).encode x = t.encode x := by
  induction attempts generalizing t with
  | nil => exact ⟨rfl, rfl⟩
  | cons a attempts ih =>
    obtain ⟨hlive, hfar, hrest⟩ := hx
    have hlead : Leads (fun _ => True) (Request.attempt t a)
        (attempts.foldl Request.attempt (Request.attempt t a)) :=
      related_foldl (fun a _ t => Request.leads_attempt t a) _
    have hfit' := hlead.1.fits hfit
    have hs' := (Request.leads_attempt t a).2 hfit' hs
    obtain ⟨hcontent, hencode⟩ :=
      @Request.kept t x a.memory a.request hs hfit' hlive hrest.contains hfar
    obtain ⟨hcontent', hencode'⟩ := ih hrest hs' hfit
    exact ⟨hcontent'.trans hcontent, hencode'.trans hencode⟩

/-! ### A node with the same bytes -/

/-- An object has the same bytes with another link in a place if that link has the same. -/
theorem encodeContent_put {f g : Handle → Bytes} {c : Content} {position : Position}
    (hstands : c.StandsAt old position) (hlinks : ∀ x ∈ c.links, f x = g x) (hnew : f new = g old) :
    encodeContent f (c.put new position) = encodeContent g c := by
  -- The links in front of the place and behind it are the same, and have the same bytes.
  have hmiddle : ∀ {front back : List Handle}, (∀ x ∈ front ++ old :: back, f x = g x) →
      ((front ++ old :: back).set front.length new).flatMap f =
        (front ++ old :: back).flatMap g := fun {front back} hall => by
    have hfront : front.flatMap f = front.flatMap g :=
      List.flatMap_congr fun x hx => hall x (List.mem_append_left _ hx)
    have hback : back.flatMap f = back.flatMap g := List.flatMap_congr fun x hx =>
      hall x (List.mem_append_right _ (List.mem_cons_of_mem old hx))
    rw [List.set_append_right _ _ (Nat.le_refl _), Nat.sub_self, List.set_cons_zero,
      List.flatMap_append, List.flatMap_append, List.flatMap_cons, List.flatMap_cons, hfront, hback,
      hnew]
  cases hstands with
  | @label value =>
    rw [Content.put, encodeContent, encodeContent, hnew, hlinks value (by simp)]
  | @value label _ =>
    rw [Content.put, encodeContent, encodeContent, hnew, hlinks label (by simp)]
  | item => rw [Content.put, Content.mapChildren, encodeContent, encodeContent, hmiddle hlinks]
  | @regionLabel kind members =>
    have hmembers : members.flatMap f = members.flatMap g :=
      List.flatMap_congr fun x hx => hlinks x (List.mem_cons_of_mem old hx)
    rw [Content.put, encodeContent, encodeContent, hnew, hmembers]
  | @member kind label front back _ _ =>
    rw [Content.put, Content.mapChildren, encodeContent, encodeContent, hlinks label (by simp),
      hmiddle fun x hx => hlinks x (List.mem_cons_of_mem label hx)]

/-- **An exchange for the same bytes** is seen nowhere. -/
theorem Replaceable.bytesOf_exchanged {position : Position} {P : Kind → Prop}
    (hr : t.Replaceable p old new position above oldNode newNode) (hs : t.Sound P)
    (hbytes : t.encode new = t.encode old) (hx : t.find? x = some node) :
    (t.exchanged p old new position).bytesOf x = t.bytesOf x := by
  have ho := hs.toOrdered
  have ho' := (hr.sound hs).toOrdered
  have hp' := (hr.back hs).find_parent
  have hnew : (t.exchanged p old new position).bytesOf new = t.bytesOf old := by
    have hfar : ∀ q, q = p → ¬View.Above t.find? new q := fun q hq hup =>
      Bool.eq_false_iff.mp hr.not_above (ho.isAbove_iff.mpr (hq ▸ hup))
    have hsame : t.KeepsContents (t.exchanged p old new position) (· = p) :=
      keepsContents_of_sameContent fun x => hr.sameContent ho
    have hkept := (hsame.kept ho ho' (contains_iff.mpr ⟨_, hr.find_new⟩)
      (contains_iff.mpr ⟨_, (hr.back hs).find_old⟩) hfar).2
    rw [hbytes, encode_eq (hr.back hs).find_old, encode_eq hr.find_old] at hkept
    exact Except.ok.inj hkept
  refine ho.induction_links (P := fun x => (t.exchanged p old new position).bytesOf x =
    t.bytesOf x) (fun x node hn ih => ?_) hx
  by_cases hxp : x = p
  · subst hxp
    obtain rfl := Option.some.inj (hr.find_parent.symm.trans hn)
    rw [ho.bytesOf_eq hn, ho'.bytesOf_eq hp']
    exact encodeContent_put (Content.position?_eq_some_iff.mp hr.stands) ih hnew
  · obtain ⟨node', hn', hcontent⟩ := hr.sameContent ho hxp node hn
    rw [ho.bytesOf_eq hn, ho'.bytesOf_eq hn', hcontent]
    exact encodeContent_congr ih

theorem encode_replace [Memory] (hs : t.Sound fun _ => True)
    (hfit : ((Request.replace old new).apply t).Fits) (hbytes : t.encode new = t.encode old)
    (hx : t.contains x = true) (hx' : ((Request.replace old new).apply t).contains x = true) :
    ((Request.replace old new).apply t).encode x = t.encode x := by
  obtain ⟨node, hx⟩ := contains_iff.mp hx
  obtain ⟨node', hx'⟩ := contains_iff.mp hx'
  -- An exchange makes no node, so it does not matter what memory there is.
  have hedited : t.Edited (.replace old new) ((Request.replace old new).apply t) :=
    (Request.replace old new).edited hs.accounts hfit
  generalize (Request.replace old new).apply t = t' at hedited hx'
  cases hedited with
  | failed => rfl
  | @exchanged p _ _ position above oldNode newNode hp hold hnew hpar hd hna hpos hadm =>
    have hr : t.Replaceable p old new position above oldNode newNode :=
      ⟨hp, hold, hnew, hpar, hd, hna, hpos, hadm⟩
    rw [encode_eq hx, encode_eq hx', hr.bytesOf_exchanged hs hbytes hx]

end Tree

namespace Assembly

/-- **A request to a tree acts where it is made**, whether it succeeds or not, and whatever memory
there is for it. -/
structure ActsLocally [memory : Memory] (t : Tree) (r : Tree.Request) : Prop where
  /-- A node that is there before and after it has the content that it had, with all its links, and
  the bytes that it had, unless it is the node whose links are changed or was above that node. -/
  kept : ∀ x, t.contains x = true → (r.apply t).contains x = true →
    (∀ p, r.Changes t p → ¬View.Above t.find? x p) →
      (r.apply t).content x = t.content x ∧ (r.apply t).encode x = t.encode x
  /-- Where a node takes the place of another one with the same bytes, every node has the bytes that
  it had. -/
  unseen : ∀ old new, r = .replace old new → t.encode new = t.encode old →
    ∀ x, t.contains x = true → (r.apply t).contains x = true →
      (r.apply t).encode x = t.encode x
  /-- Further requests do not change this, as long as they spare the node too. -/
  spared : ∀ more x, t.Spared x (⟨memory, r⟩ :: more) →
    (more.foldl Tree.Request.attempt (r.apply t)).Fits →
      (more.foldl Tree.Request.attempt (r.apply t)).content x = t.content x ∧
        (more.foldl Tree.Request.attempt (r.apply t)).encode x = t.encode x

/-- **In every tree that requests make**, as long as all slots have numbers of their own
afterwards. -/
theorem actsLocally_run [Memory] (attempts : List (Attempt Request)) (r : Tree.Request)
    (hfit : (r.apply (run attempts)).Fits) : ActsLocally (run attempts) r := by
  have hlead := r.leads Kind.criterion_true r.allowed_true (run attempts)
  have hs : (run attempts).Sound fun _ => True := sound_run_true (hlead.1.fits hfit)
  refine ⟨fun x => r.kept hs hfit, ?_, fun more x hx hfit' => hx.kept hs hfit'⟩
  rintro old new rfl hbytes x hx hx'
  exact Tree.encode_replace hs hfit hbytes hx hx'

/-- The value of a `Name` below a device, exchanged for another one with the same bytes. -/
theorem actsLocally_run_value : ActsLocally (run (amply [.declareRegion .device "COM1" none,
    .declareInteger "_UID" 1 (some ⟨1, 0⟩), .edit (.makeData .raw [0x01])]))
    (.replace ⟨2, 0⟩ ⟨5, 0⟩) :=
  actsLocally_run _ _ (by decide)

end Assembly

end AcpiTables
