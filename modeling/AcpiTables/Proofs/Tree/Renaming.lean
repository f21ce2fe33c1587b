import AcpiTables.Proofs.Tree.Grown
import Mathlib.Data.List.Forall2

/-!
# Trees that differ in their handles

A handle tells where a node is stored, and that depends on everything that was ever stored in
the tree: on the order in which slots became free, on how often they were used, on requests that
came to nothing. Two trees may hold the same objects all the same. Then there is a **renaming**,
which says which handle of the one tree stands for which handle of the other
(`AcpiTables.Tree.Renamed`).

The one thing to know is that a renaming is followed from node to node. Related handles denote nodes
with related links and related owners, so two walks that start at related handles go on at related
handles, step by step. A walk that is at a handle which denotes nothing ends in both trees
(`AcpiTables.Tree.Corresponds`). The walks have bounds, which are the same in both trees because
renamed trees have as many nodes.

| | |
|---|---|
| what makes two nodes the same but for handles | `AcpiTables.Content.Renamed.iff_fields` |
| what two handles denote that mean the same | `AcpiTables.Tree.Renamed.find?_cases` |
| as many nodes | `AcpiTables.Tree.Renamed.live_eq` |
| walks upwards | `AcpiTables.Tree.Renamed.isAbove_eq` |
| walks downwards | `AcpiTables.Tree.Renamed.preorder`, `AcpiTables.Tree.Renamed.postorder` |
| a renaming given by its pairs | `AcpiTables.Tree.renamed_of_pairs` |
-/

namespace AcpiTables

/-! ### Lists of related handles -/

/-- Which handle of one tree stands for which handle of another. -/
abbrev Renaming := Handle → Handle → Prop

section Lists

variable {R S : Renaming} {h h' : Handle} {xs ys : List Handle}

theorem forall₂_imp_of_mem (hxs : List.Forall₂ R xs ys)
    (hRS : ∀ x ∈ xs, ∀ y, R x y → S x y) : List.Forall₂ S xs ys := by
  induction hxs with
  | nil => exact .nil
  | cons hxy _ ih =>
    refine .cons (hRS _ List.mem_cons_self _ hxy) (ih fun x hx => ?_)
    exact hRS x (List.mem_cons_of_mem _ hx)

theorem rel_imp {o o' : Option Handle} (ho : Option.Rel R o o') (hRS : ∀ x y, R x y → S x y) :
    Option.Rel S o o' := by
  rcases ho with hxy | _
  · exact .some (hRS _ _ hxy)
  · exact .none

theorem rel_getElem? (hxs : List.Forall₂ R xs ys) (i : Nat) : Option.Rel R xs[i]? ys[i]? := by
  induction hxs generalizing i with
  | nil => exact .none
  | cons hxy _ ih =>
    cases i with
    | zero => exact .some hxy
    | succ i => simpa only [List.getElem?_cons_succ] using ih i

theorem rel_getLast? (hxs : List.Forall₂ R xs ys) : Option.Rel R xs.getLast? ys.getLast? := by
  rw [List.getLast?_eq_getElem?, List.getLast?_eq_getElem?, hxs.length_eq]
  exact rel_getElem? hxs _

theorem forall₂_set (hxs : List.Forall₂ R xs ys) (i : Nat) (hh : R h h') :
    List.Forall₂ R (xs.set i h) (ys.set i h') := by
  induction hxs generalizing i with
  | nil => exact .nil
  | cons hxy hrest ih =>
    cases i with
    | zero => exact .cons hh hrest
    | succ i => exact .cons hxy (ih i)

theorem forall₂_insertItem (keepLast : Bool) (hxs : List.Forall₂ R xs ys) (hh : R h h') :
    List.Forall₂ R (Tree.insertItem keepLast xs h) (Tree.insertItem keepLast ys h') := by
  cases keepLast with
  | false => exact List.rel_append hxs (.cons hh .nil)
  | true =>
    -- Both lists are cut in front of their last handles, which are related.
    rw [Tree.insertItem, if_pos rfl, Tree.insertItem, if_pos rfl, List.dropLast_eq_take,
      List.dropLast_eq_take, hxs.length_eq]
    refine List.rel_append (List.forall₂_take _ hxs) (.cons hh ?_)
    have hlast := rel_getLast? hxs
    revert hlast
    generalize xs.getLast? = last, ys.getLast? = last'
    rintro (hl | _)
    · exact .cons hl .nil
    · exact .nil

theorem flatMap_eq_of_forall₂ {f g : Handle → Bytes} (hxs : List.Forall₂ R xs ys)
    (hf : ∀ x y, R x y → f x = g y) : xs.flatMap f = ys.flatMap g := by
  induction hxs with
  | nil => rfl
  | cons hxy _ ih => rw [List.flatMap_cons, List.flatMap_cons, hf _ _ hxy, ih]

variable (hR : Relator.BiUnique R)

include hR

/-- A renaming takes different handles to different ones. -/
theorem eq_iff_of_biUnique {x y : Handle} (hxy : R x y) (hh : R h h') : x = h ↔ y = h' :=
  Relator.rel_eq hR hxy hh

theorem idxOf?_eq (hxs : List.Forall₂ R xs ys) (hh : R h h') : xs.idxOf? h = ys.idxOf? h' := by
  induction hxs with
  | nil => rfl
  | cons hxy _ ih =>
    have heq := eq_iff_of_biUnique hR hxy hh
    simp only [List.idxOf?_cons, beq_iff_eq, heq, ih]

theorem forall₂_erase (hxs : List.Forall₂ R xs ys) (hh : R h h') :
    List.Forall₂ R (xs.erase h) (ys.erase h') := by
  induction hxs with
  | nil => exact .nil
  | @cons x y _ _ hxy hrest ih =>
    have heq := eq_iff_of_biUnique hR hxy hh
    by_cases hx : x = h
    · rw [List.erase_cons, List.erase_cons, if_pos (beq_iff_eq.mpr hx),
        if_pos (beq_iff_eq.mpr (heq.mp hx))]
      exact hrest
    · have hy : y ≠ h' := fun he => hx (heq.mpr he)
      rw [List.erase_cons_tail (by simpa using hx), List.erase_cons_tail (by simpa using hy)]
      exact .cons hxy ih

end Lists

/-! ### Nodes -/

namespace Content

variable {R S : Renaming} {c c' d d' : Content} {h h' : Handle}

/-- **Contents that differ in the handles of their links only.** -/
inductive Renamed (R : Renaming) : Content → Content → Prop
  /-- Data has no links. -/
  | data (type : DataType) (bytes : Bytes) : Renamed R (.data type bytes) (.data type bytes)
  /-- A `Name` has two. -/
  | name {label label' value value' : Handle} :
    R label label' → R value value' → Renamed R (.name label value) (.name label' value')
  /-- A buffer has its items. -/
  | buffer {items items' : List Handle} :
    List.Forall₂ R items items' → Renamed R (.buffer items) (.buffer items')
  /-- A region has a label and members. -/
  | region (kind : Region) {label label' : Handle} {members members' : List Handle} :
    R label label' → List.Forall₂ R members members' →
      Renamed R (.region kind label members) (.region kind label' members')

namespace Renamed

theorem imp_of_mem (hc : c.Renamed R c') (hRS : ∀ x ∈ c.links, ∀ y, R x y → S x y) :
    c.Renamed S c' := by
  rcases hc with _ | ⟨hl, hv⟩ | hi | ⟨_, hl, hm⟩
  · exact .data _ _
  · exact .name (hRS _ (by simp) _ hl) (hRS _ (by simp) _ hv)
  · exact .buffer (forall₂_imp_of_mem hi hRS)
  · refine .region _ (hRS _ List.mem_cons_self _ hl) (forall₂_imp_of_mem hm fun x hx => ?_)
    exact hRS x (List.mem_cons_of_mem _ hx)

theorem opcode_eq (hc : c.Renamed R c') : c.opcode = c'.opcode := by
  rcases hc with _ | _ | _ | _ <;> rfl

theorem dataType_eq (hc : c.Renamed R c') : c.dataType = c'.dataType := by
  rcases hc with _ | _ | _ | _ <;> rfl

theorem bytes_eq (hc : c.Renamed R c') : c.bytes = c'.bytes := by
  rcases hc with _ | _ | _ | _ <;> rfl

theorem isEndTag_eq (hc : c.Renamed R c') : c.isEndTag = c'.isEndTag := by
  rcases hc with _ | _ | _ | _ <;> rfl

theorem fixedArguments (hc : c.Renamed R c') :
    List.Forall₂ R c.fixedArguments c'.fixedArguments := by
  rcases hc with _ | ⟨hl, hv⟩ | _ | ⟨_, hl, _⟩
  · exact .nil
  · exact .cons hl (.cons hv .nil)
  · exact .nil
  · exact .cons hl .nil

theorem children (hc : c.Renamed R c') : List.Forall₂ R c.children c'.children := by
  rcases hc with _ | _ | hi | ⟨_, _, hm⟩
  · exact .nil
  · exact .nil
  · exact hi
  · exact hm

theorem links (hc : c.Renamed R c') : List.Forall₂ R c.links c'.links :=
  List.rel_append hc.fixedArguments hc.children

/-- **What it takes for two contents to be renamed**: the opcode, the type and the bytes are the
same, and the links are related in order. -/
theorem iff_fields : c.Renamed R c' ↔ c.opcode = c'.opcode ∧ c.dataType = c'.dataType ∧
    c.bytes = c'.bytes ∧ List.Forall₂ R c.fixedArguments c'.fixedArguments ∧
    List.Forall₂ R c.children c'.children := by
  constructor
  · intro hc
    exact ⟨hc.opcode_eq, hc.dataType_eq, hc.bytes_eq, hc.fixedArguments, hc.children⟩
  · rintro ⟨hopcode, htype, hbytes, hfixed, hchildren⟩
    cases c <;> cases c' <;>
      simp_all only [Content.opcode, Content.dataType, Content.bytes, Content.fixedArguments,
        Content.children, Option.some.injEq, reduceCtorEq, Opcode.region.injEq,
        List.forall₂_cons, List.Forall₂.nil, and_true]
    · exact .data _ _
    · exact .name hfixed.1 hfixed.2
    · exact .buffer hchildren
    · exact .region _ hfixed hchildren

theorem kind_eq (hc : c.Renamed R c') : c.kind = c'.kind := by
  rcases hc with _ | _ | _ | _ <;> rfl

theorem accepts_eq (hc : c.Renamed R c') (hd : d.Renamed R d') :
    c.accepts d = c'.accepts d' := by
  rcases hc with _ | _ | _ | _
  · rfl
  · rfl
  · rw [accepts_buffer, accepts_buffer, hd.kind_eq]
  · rw [accepts_region, accepts_region, hd.kind_eq]

theorem mapChildren {f g : List Handle → List Handle} (hc : c.Renamed R c')
    (hf : ∀ xs ys, List.Forall₂ R xs ys → List.Forall₂ R (f xs) (g ys)) :
    (c.mapChildren f).Renamed R (c'.mapChildren g) := by
  rcases hc with _ | ⟨hl, hv⟩ | hi | ⟨_, hl, hm⟩
  · exact .data _ _
  · exact .name hl hv
  · exact .buffer (hf _ _ hi)
  · exact .region _ hl (hf _ _ hm)

theorem put (hc : c.Renamed R c') (hh : R h h') (position : Position) :
    (c.put h position).Renamed R (c'.put h' position) := by
  cases position with
  | label =>
    rcases hc with _ | ⟨_, hv⟩ | hi | ⟨_, _, hm⟩
    · exact .data _ _
    · exact .name hh hv
    · exact .buffer hi
    · exact .region _ hh hm
  | value =>
    rcases hc with _ | ⟨hl, _⟩ | hi | ⟨_, hl, hm⟩
    · exact .data _ _
    · exact .name hl hh
    · exact .buffer hi
    · exact .region _ hl hm
  | child place => exact hc.mapChildren fun xs ys hxs => forall₂_set hxs place hh

/-- A node stands at the same place of its owner. -/
theorem position?_eq (hR : Relator.BiUnique R) (hc : c.Renamed R c') (hh : R h h') :
    c.position? h = c'.position? h' := by
  rcases hc with _ | ⟨hl, hv⟩ | hi | ⟨_, hl, hm⟩
  · rfl
  · simp only [position?, eq_iff_of_biUnique hR hl hh, eq_iff_of_biUnique hR hv hh]
  · simp only [position?, idxOf?_eq hR hi hh]
  · simp only [position?, eq_iff_of_biUnique hR hl hh, idxOf?_eq hR hm hh]

/-- The bytes of a node are the same if the bytes of its links are. -/
theorem encodeContent_eq {f g : Handle → Bytes} (hc : c.Renamed R c')
    (hf : ∀ x y, R x y → f x = g y) : Tree.encodeContent f c = Tree.encodeContent g c' := by
  rcases hc with _ | ⟨hl, hv⟩ | hi | ⟨_, hl, hm⟩
  · rfl
  · rw [Tree.encodeContent, Tree.encodeContent, hf _ _ hl, hf _ _ hv]
  · rw [Tree.encodeContent, Tree.encodeContent, flatMap_eq_of_forall₂ hi hf]
  · rw [Tree.encodeContent, Tree.encodeContent, hf _ _ hl, flatMap_eq_of_forall₂ hm hf]

end Renamed

end Content

/-- Nodes that differ in handles only. -/
structure Node.Renamed (R : Renaming) (node node' : Node) : Prop where
  /-- The contents differ in the handles of their links. -/
  content : node.content.Renamed R node'.content
  /-- The owners are related, if there are any. -/
  parent : Option.Rel R node.parent node'.parent

/-- Only the handles that a node knows matter. -/
theorem Node.Renamed.imp_of_mem {R S : Renaming} {node node' : Node} (hn : node.Renamed R node')
    (hRS : ∀ x, x ∈ node.content.links ∨ node.parent = some x → ∀ y, R x y → S x y) :
    node.Renamed S node' where
  content := hn.content.imp_of_mem fun x hx => hRS x (Or.inl hx)
  parent := by
    have hpar := hn.parent
    revert hpar hRS
    generalize node.parent = above, node'.parent = above'
    rintro hRS (hp | _)
    · exact .some (hRS _ (Or.inr rfl) _ hp)
    · exact .none

/-! ### Trees -/

namespace Tree

variable {R : Renaming} {t t' : Tree} {h h' p p' x x' : Handle} {xs ys : List Handle}

/-- **A renaming of the nodes of a tree** to the nodes of another one: each node of the one is
related to one node of the other, and the two differ in handles only. -/
structure Renamed (R : Renaming) (t t' : Tree) : Prop where
  /-- No handle is related to two others. -/
  biUnique : Relator.BiUnique R
  /-- The nodes of the first tree are related to something, and nothing else is. -/
  left : ∀ h, t.contains h = true ↔ ∃ h', R h h'
  /-- The nodes of the second tree are related to something, and nothing else is. -/
  right : ∀ h', t'.contains h' = true ↔ ∃ h, R h h'
  /-- Related handles denote nodes that differ in handles only. -/
  nodes : ∀ h h' node node', R h h' → t.find? h = some node → t'.find? h' = some node' →
    node.Renamed R node'

/-- **Two handles mean the same**: they are related, or neither of them denotes a node. -/
def Corresponds (R : Renaming) (t t' : Tree) (h h' : Handle) : Prop :=
  R h h' ∨ t.contains h = false ∧ t'.contains h' = false

theorem find?_eq_none_iff : t.find? h = none ↔ t.contains h = false := by
  rw [contains, Option.isSome_eq_false_iff, Option.isNone_iff_eq_none]

/-- Pairs of related nodes, counted. -/
theorem Accounts.live_le_of_related (ha : t.Accounts) (ha' : t'.Accounts)
    (hR : Relator.BiUnique R) (hleft : ∀ x, t.contains x = true → ∃ x', R x x')
    (hright : ∀ x x', R x x' → t'.contains x' = true) : t.live ≤ t'.live := by
  obtain ⟨hs, hnd, hiff, hlen⟩ := ha.exists_handles
  -- A list of all nodes is counted, so each of them gets a partner of its own in the other tree.
  have hall : ∀ x, ∃ x', t.contains x = true → R x x' := fun x => by
    by_cases hx : t.contains x = true
    · obtain ⟨x', hxx⟩ := hleft x hx
      exact ⟨x', fun _ => hxx⟩
    · exact ⟨x, fun hx' => absurd hx' hx⟩
  choose f hf using hall
  have hmap : List.Forall₂ R hs (hs.map f) := by
    rw [List.forall₂_map_right_iff, List.forall₂_same]
    exact fun x hx => hf x ((hiff x).mp hx)
  have hle := ha'.length_le_live ((List.rel_nodup hR hmap).mp hnd) fun x' hx' => by
    obtain ⟨x, hx, rfl⟩ := List.mem_map.mp hx'
    exact hright x _ (hf x ((hiff x).mp hx))
  rwa [List.length_map, hlen] at hle

namespace Renamed

section Nodes

variable (hr : t.Renamed R t')

include hr

/-- **Renamed trees have as many nodes.** -/
theorem live_eq (ha : t.Accounts) (ha' : t'.Accounts) : t.live = t'.live := by
  refine Nat.le_antisymm ?_ ?_
  · refine ha.live_le_of_related ha' hr.biUnique (fun x => (hr.left x).mp) fun x x' hx => ?_
    exact (hr.right x').mpr ⟨x, hx⟩
  · have hflip : Relator.BiUnique (flip R) :=
      ⟨fun _ _ _ hx hy => hr.biUnique.2 hx hy, hr.biUnique.1.flip⟩
    refine ha'.live_le_of_related ha hflip (fun x => (hr.right x).mp) fun x x' hx => ?_
    exact (hr.left x').mpr ⟨x, hx⟩

/-- Related handles denote nodes. -/
theorem exists_nodes (hh : R h h') : ∃ node node', t.find? h = some node ∧
    t'.find? h' = some node' ∧ node.Renamed R node' := by
  obtain ⟨node, hn⟩ := contains_iff.mp ((hr.left h).mpr ⟨h', hh⟩)
  obtain ⟨node', hn'⟩ := contains_iff.mp ((hr.right h').mpr ⟨h, hh⟩)
  exact ⟨node, node', hn, hn', hr.nodes h h' node node' hh hn hn'⟩

/-- **What handles denote that mean the same**: two renamed nodes, or nothing. -/
theorem find?_cases (hh : t.Corresponds R t' h h') :
    (R h h' ∧ ∃ node node', t.find? h = some node ∧ t'.find? h' = some node' ∧
      node.Renamed R node') ∨ t.find? h = none ∧ t'.find? h' = none := by
  rcases hh with hR | ⟨hd, hd'⟩
  · exact Or.inl ⟨hR, hr.exists_nodes hR⟩
  · exact Or.inr ⟨find?_eq_none_iff.mpr hd, find?_eq_none_iff.mpr hd'⟩

theorem contains_eq (hh : t.Corresponds R t' h h') : t.contains h = t'.contains h' := by
  rcases hr.find?_cases hh with ⟨-, node, node', hn, hn', -⟩ | ⟨hn, hn'⟩
  · rw [contains, contains, hn, hn']
    rfl
  · rw [contains, contains, hn, hn']

/-- A node is found in a list exactly if what means the same is found in the other. -/
theorem mem_iff (hx : R x x') (hxs : List.Forall₂ (t.Corresponds R t') xs ys) :
    x ∈ xs ↔ x' ∈ ys := by
  induction hxs with
  | nil => simp
  | @cons y y' _ _ hy _ ih =>
    have heq : x = y ↔ x' = y' := by
      rcases hy with hy | ⟨hd, hd'⟩
      · exact eq_iff_of_biUnique hr.biUnique hx hy
      · -- The head of the list denotes nothing, so it is not `x`, which does.
        have hl := (hr.left x).mpr ⟨x', hx⟩
        have hl' := (hr.right x').mpr ⟨x, hx⟩
        constructor
        · rintro rfl
          exact absurd hl (by rw [hd]; exact Bool.false_ne_true)
        · rintro rfl
          exact absurd hl' (by rw [hd']; exact Bool.false_ne_true)
    rw [List.mem_cons, List.mem_cons, heq, ih]

end Nodes

/-! ### Walks -/

section Walks

variable (hr : t.Renamed R t')

include hr

theorem lineageWithin (bound : Nat) (hh : t.Corresponds R t' h h') :
    List.Forall₂ (t.Corresponds R t') (t.lineageWithin bound h) (t'.lineageWithin bound h') := by
  induction bound generalizing h h' with
  | zero => exact .nil
  | succ bound ih =>
    rcases hr.find?_cases hh with ⟨-, node, node', hn, hn', -, hpar⟩ | ⟨hn, hn'⟩
    · simp only [Tree.lineageWithin, hn, hn', Option.bind_some]
      revert hpar
      generalize node.parent = above, node'.parent = above'
      rintro (hup | _)
      · exact .cons hh (ih (Or.inl hup))
      · exact .cons hh .nil
    · simp only [Tree.lineageWithin, hn, hn', Option.bind_none]
      exact .cons hh .nil

theorem preorderWithin (bound : Nat) (hh : t.Corresponds R t' h h') :
    List.Forall₂ R (t.preorderWithin bound h) (t'.preorderWithin bound h') := by
  induction bound generalizing h h' with
  | zero => exact .nil
  | succ bound ih =>
    rcases hr.find?_cases hh with ⟨hR, node, node', hn, hn', hc, -⟩ | ⟨hn, hn'⟩
    · simp only [Tree.preorderWithin, hn, hn']
      exact .cons hR (List.rel_flatMap hc.links fun x x' hx => ih (Or.inl hx))
    · simp only [Tree.preorderWithin, hn, hn']
      exact .nil

theorem postorderWithin (bound : Nat) (hh : t.Corresponds R t' h h') :
    List.Forall₂ R (t.postorderWithin bound h) (t'.postorderWithin bound h') := by
  induction bound generalizing h h' with
  | zero => exact .nil
  | succ bound ih =>
    rcases hr.find?_cases hh with ⟨hR, node, node', hn, hn', hc, -⟩ | ⟨hn, hn'⟩
    · simp only [Tree.postorderWithin, hn, hn']
      have hlinks := List.rel_flatMap hc.links fun x x' hx => ih (Or.inl hx)
      exact List.rel_append hlinks (.cons hR .nil)
    · simp only [Tree.postorderWithin, hn, hn']
      exact .nil

theorem encodeWithin_eq (bound : Nat) (hh : t.Corresponds R t' h h') :
    t.encodeWithin bound h = t'.encodeWithin bound h' := by
  induction bound generalizing h h' with
  | zero => rfl
  | succ bound ih =>
    rcases hr.find?_cases hh with ⟨-, node, node', hn, hn', hc, -⟩ | ⟨hn, hn'⟩
    · simp only [Tree.encodeWithin, hn, hn']
      exact hc.encodeContent_eq fun x x' hx => ih (Or.inl hx)
    · simp only [Tree.encodeWithin, hn, hn']

variable (ha : t.Accounts) (ha' : t'.Accounts)

include ha ha'

/-- **Nodes that are above others are so under other handles.** -/
theorem isAbove_eq (hx : R x x') (hh : t.Corresponds R t' h h') :
    t.isAbove x h = t'.isAbove x' h' := by
  rw [isAbove, isAbove, lineage, lineage, hr.live_eq ha ha', Bool.eq_iff_iff,
    List.contains_iff_mem, List.contains_iff_mem]
  exact hr.mem_iff hx (hr.lineageWithin _ hh)

/-- **The nodes of a subtree are related in order**, each object before its links. -/
theorem preorder (hh : t.Corresponds R t' h h') :
    List.Forall₂ R (t.preorder h) (t'.preorder h') := by
  rw [Tree.preorder, Tree.preorder, hr.live_eq ha ha']
  exact hr.preorderWithin _ hh

/-- **The nodes of a subtree are related in order**, each object after its links. -/
theorem postorder (hh : t.Corresponds R t' h h') :
    List.Forall₂ R (t.postorder h) (t'.postorder h') := by
  rw [Tree.postorder, Tree.postorder, hr.live_eq ha ha']
  exact hr.postorderWithin _ hh

end Walks

end Renamed

/-! ### Finding a renaming -/

/-- Handles that are as many as there are nodes are all that denote nodes. -/
theorem Accounts.contains_iff_mem (ha : t.Accounts) (hnd : xs.Nodup)
    (hxs : ∀ x ∈ xs, t.contains x = true) (hlen : xs.length = t.live) (x : Handle) :
    t.contains x = true ↔ x ∈ xs := by
  constructor
  · intro hx
    by_contra hmem
    have hle := ha.length_le_live (List.nodup_cons.mpr ⟨hmem, hnd⟩) fun y hy => by
      rcases List.mem_cons.mp hy with rfl | hy
      · exact hx
      · exact hxs y hy
    rw [List.length_cons] at hle
    omega
  · exact hxs x

/-- **A list of pairs is a renaming** if it has as many pairs as there are nodes. -/
theorem renamed_of_pairs {pairs : List (Handle × Handle)} (ha : t.Accounts) (ha' : t'.Accounts)
    (hnd : (pairs.map Prod.fst).Nodup) (hnd' : (pairs.map Prod.snd).Nodup)
    (hlen : pairs.length = t.live) (hlen' : pairs.length = t'.live)
    (hall : ∀ pair ∈ pairs, ∃ node node', t.find? pair.1 = some node ∧
      t'.find? pair.2 = some node' ∧ node.Renamed (fun x x' => (x, x') ∈ pairs) node') :
    t.Renamed (fun x x' => (x, x') ∈ pairs) t' := by
  have hfst := ha.contains_iff_mem hnd (fun x hx => by
    obtain ⟨pair, hpair, rfl⟩ := List.mem_map.mp hx
    obtain ⟨node, -, hn, -⟩ := hall pair hpair
    exact contains_iff.mpr ⟨node, hn⟩) (by rwa [List.length_map])
  have hsnd := ha'.contains_iff_mem hnd' (fun x hx => by
    obtain ⟨pair, hpair, rfl⟩ := List.mem_map.mp hx
    obtain ⟨-, node', -, hn', -⟩ := hall pair hpair
    exact contains_iff.mpr ⟨node', hn'⟩) (by rwa [List.length_map])
  refine ⟨⟨fun x y z hx hy => ?_, fun x y z hx hy => ?_⟩, fun x => ?_, fun x' => ?_,
    fun x x' node node' hx hn hn' => ?_⟩
  · exact (Prod.mk.inj (List.inj_on_of_nodup_map hnd' hx hy rfl)).1
  · exact (Prod.mk.inj (List.inj_on_of_nodup_map hnd hx hy rfl)).2
  · rw [hfst]
    simp
  · rw [hsnd]
    simp
  · obtain ⟨below, below', hb, hb', hbelow⟩ := hall _ hx
    obtain rfl := Option.some.inj (hb.symm.trans hn)
    obtain rfl := Option.some.inj (hb'.symm.trans hn')
    exact hbelow

end Tree

end AcpiTables
