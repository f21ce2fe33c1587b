import AcpiTables.Proofs.Assembly
import AcpiTables.Proofs.Tree.Events

/-!
# Deleting

`AcpiTables.Tree.delete` looks a subtree up by recursion and frees its nodes then. No recursion is
needed for it: a stack can hold what is still to be freed. The node on top is freed, and its links
are put in its place. So the subtree is looked up while its nodes go away, in a tree that is no
longer a forest, and it is not plain that the stack holds no node twice, or one of another subtree,
or that both ways end in the same tree.

The one thing to know is that the subtrees of two links of a node have no node in common
(`AcpiTables.Tree.Sound.disjoint_postorder`). What is freed with one of them leaves the others as
they were, and so a whole subtree is freed before anything else on the stack is looked at
(`AcpiTables.Tree.Sweeping`).

The slots are stacked as they become empty. The node that is freed last is the first in postorder,
and so new nodes get the slots of the subtree from the first to the last.

| result | theorem |
|---|---|
| the stack frees the subtree, the last node first | `AcpiTables.Tree.Sound.sweeps_postorder` |
| new nodes get the empty slots in the order of the stack | `AcpiTables.Tree.reuses_of_happens` |
| what deleting a node does | `AcpiTables.Tree.Sound.freesSubtree` |
| the same in the trees that requests make | `AcpiTables.Assembly.deletesSubtree_run` |
-/

namespace AcpiTables

namespace Tree

variable {P : Kind → Prop} {t t' s s' : Tree} {h p x y l l' : Handle} {node : Node}
  {hs stack freed : List Handle}

/-! ### Subtrees without repetition -/

/-- **Two links of a node have no node below them in common.** -/
theorem Sound.disjoint_postorder (hs : t.Sound P) (hn : t.find? p = some node)
    (hl : l ∈ node.content.links) (hl' : l' ∈ node.content.links) (hne : l ≠ l') :
    (t.postorder l).Disjoint (t.postorder l') := by
  -- Of two nodes above a third one is above the other, but siblings have the same owner.
  have hsiblings : ∀ {l l'}, l ∈ node.content.links → l' ∈ node.content.links → l ≠ l' →
      ¬View.Above t.find? l' l := by
    intro l l' hl hl' hne hup
    rcases Relation.ReflTransGen.cases_head hup with he | ⟨q, hq, hup⟩
    · exact hne he
    · obtain rfl := hq.unique (hs.forest.parent_of_mem hn hl)
      exact hs.forest.not_above_owner (hs.forest.parent_of_mem hn hl') hup
  obtain ⟨below, hb⟩ := hs.exists_of_mem hn hl
  obtain ⟨below', hb'⟩ := hs.exists_of_mem hn hl'
  intro x hx hx'
  have hup := (hs.mem_postorder_iff hb).mp hx
  have hup' := (hs.mem_postorder_iff hb').mp hx'
  have hunique : Relator.RightUnique (View.Parent t.find?) := fun _ _ _ hp hq => hp.unique hq
  rcases Relation.ReflTransGen.total_of_right_unique hunique hup hup' with hup | hup
  · exact hsiblings hl hl' hne hup
  · exact hsiblings hl' hl hne.symm hup

/-- A node is not below one of its links. -/
theorem Sound.not_mem_postorder_of_mem (hs : t.Sound P) (hn : t.find? h = some node)
    (hl : l ∈ node.content.links) : h ∉ t.postorder l := by
  obtain ⟨below, hb⟩ := hs.exists_of_mem hn hl
  intro hmem
  exact hs.forest.not_above_owner (hs.forest.parent_of_mem hn hl)
    ((hs.mem_postorder_iff hb).mp hmem)

/-- **No node comes twice in a walk.** -/
theorem Sound.nodup_postorder (hs : t.Sound P) (hn : t.find? h = some node) :
    (t.postorder h).Nodup := by
  refine hs.induction_links (P := fun h => (t.postorder h).Nodup) (fun h node hn ih => ?_) hn
  rw [hs.postorder_eq hn]
  refine List.Nodup.append ?_ (List.nodup_singleton h) ?_
  · refine List.nodup_flatMap.mpr ⟨ih, ?_⟩
    refine (hs.forest.nodup_links h node hn).imp_of_mem fun hl hl' hne => ?_
    exact hs.disjoint_postorder hn hl hl' hne
  · rw [List.disjoint_singleton, List.mem_flatMap]
    rintro ⟨l, hl, hmem⟩
    exact hs.not_mem_postorder_of_mem hn hl hmem

/-! ### Sweeping -/

/-- **A stack of nodes is freed**, the top of the stack first. What the stack holds and what is
freed is listed in order. -/
inductive Sweeps : Tree → List Handle → List Handle → Tree → Prop
  /-- The stack is empty. -/
  | done (t : Tree) : Sweeps t [] [] t
  /-- A handle that denotes nothing is passed over. -/
  | dead {t t' : Tree} {h : Handle} {stack freed : List Handle} (hn : t.find? h = none)
    (hrest : Sweeps t stack freed t') : Sweeps t (h :: stack) freed t'
  /-- A node is freed, and its links are put on the stack from the first to the last. -/
  | live {t t' : Tree} {h : Handle} {node : Node} {stack freed : List Handle}
    (hn : t.find? h = some node)
    (hrest : Sweeps (t.release h) (node.content.links.reverse ++ stack) freed t') :
    Sweeps t (h :: stack) (h :: freed) t'

namespace Sweeps

/-- There is only one way to sweep a stack. -/
theorem unique {freed' : List Handle} (hs : Sweeps t stack freed t')
    (hs' : Sweeps t stack freed' s') : freed' = freed ∧ s' = t' := by
  induction hs generalizing freed' with
  | done t =>
    cases hs'
    exact ⟨rfl, rfl⟩
  | dead hn _ ih =>
    cases hs' with
    | dead _ hrest => exact ih hrest
    | live hn' _ => exact nomatch hn.symm.trans hn'
  | live hn _ ih =>
    cases hs' with
    | dead hn' _ => exact nomatch hn.symm.trans hn'
    | live hn' hrest =>
      obtain rfl := Option.some.inj (hn.symm.trans hn')
      obtain ⟨rfl, rfl⟩ := ih hrest
      exact ⟨rfl, rfl⟩

/-- Only nodes are freed, and each of them while it is there. -/
theorem happens (hs : Sweeps t stack freed t') : Happens t (freed.map .freed) t' := by
  induction hs with
  | done t => exact .nothing t
  | dead _ _ ih => exact ih
  | @live t t' h node stack freed hn _ ih =>
    have hfreed : Happens t [.freed h] (t.release h) :=
      (Happens.nothing t).freed h (contains_iff.mpr ⟨node, hn⟩)
    exact hfreed.trans ih

end Sweeps

/-- **The handles on top of a stack are swept before the others**: whatever lies below them, first
some nodes are freed, the last one first, in every tree where these are the same. -/
def Sweeping (t : Tree) (top order : List Handle) : Prop :=
  ∀ s stack freed s', (∀ x ∈ order, s.find? x = t.find? x) →
    Sweeps (order.foldr (fun h t => t.release h) s) stack freed s' →
      Sweeps s (top ++ stack) (order.reverse ++ freed) s'

namespace Sweeping

variable {top top' order order' : List Handle}

theorem nil (t : Tree) : Sweeping t [] [] := fun _ _ _ _ _ hrest => hrest

/-- What is freed with the upper handles leaves the lower ones as they were. -/
theorem append (hw : Sweeping t top order) (hw' : Sweeping t top' order')
    (hdisjoint : order.Disjoint order') : Sweeping t (top' ++ top) (order ++ order') := by
  intro s stack freed s' hsame hrest
  rw [List.foldr_append] at hrest
  rw [List.append_assoc, List.reverse_append, List.append_assoc]
  refine hw' s _ _ s' (fun x hx => hsame x (List.mem_append_right _ hx)) ?_
  refine hw _ _ _ s' (fun x hx => ?_) hrest
  rw [find?_foldr_release, if_neg (hdisjoint hx)]
  exact hsame x (List.mem_append_left _ hx)

/-- The links of a node are on the stack from the first to the last. -/
theorem links {ls : List Handle} (hw : ∀ l ∈ ls, Sweeping t [l] (t.postorder l))
    (hnd : (ls.flatMap t.postorder).Nodup) :
    Sweeping t ls.reverse (ls.flatMap t.postorder) := by
  induction ls with
  | nil => exact nil t
  | cons l ls ih =>
    rw [List.flatMap_cons] at hnd ⊢
    rw [List.reverse_cons]
    have hrest := ih (fun l' hl' => hw l' (List.mem_cons_of_mem _ hl')) hnd.of_append_right
    exact (hw l List.mem_cons_self).append hrest (List.disjoint_of_nodup_append hnd)

/-- The node is freed before its links. -/
theorem head (hn : t.find? h = some node) (hmem : h ∉ order)
    (hw : Sweeping t node.content.links.reverse order) : Sweeping t [h] (order ++ [h]) := by
  intro s stack freed s' hsame hrest
  rw [List.foldr_append] at hrest
  rw [List.reverse_append]
  refine Sweeps.live ((hsame h (List.mem_append_right _ (List.mem_singleton_self h))).trans hn) ?_
  refine hw _ _ _ s' (fun x hx => ?_) hrest
  have hne : x ≠ h := fun he => hmem (he ▸ hx)
  rw [find?_release, if_neg hne]
  exact hsame x (List.mem_append_left _ hx)

end Sweeping

/-- A handle on top of a stack is swept with its subtree. -/
theorem Sound.sweeping (hs : t.Sound P) (hn : t.find? h = some node) :
    Sweeping t [h] (t.postorder h) := by
  refine hs.induction_links (P := fun h => Sweeping t [h] (t.postorder h))
    (fun h node hn ih => ?_) hn
  have hnd := hs.nodup_postorder hn
  rw [hs.postorder_eq hn] at hnd ⊢
  have hmem := List.disjoint_singleton.mp (List.disjoint_of_nodup_append hnd)
  exact (Sweeping.links ih hnd.of_append_left).head hn hmem

/-- **Sweeping a node frees its subtree**, the last node in postorder first. -/
theorem Sound.sweeps_postorder (hs : t.Sound P) (hn : t.find? h = some node) :
    Sweeps t [h] (t.postorder h).reverse
      ((t.postorder h).foldr (fun h t => t.release h) t) := by
  have hsweep := hs.sweeping hn t [] [] _ (fun _ _ => rfl) (.done _)
  rwa [List.append_nil, List.append_nil] at hsweep

/-! ### Slots that become empty -/

/-- Two handles of one slot that denote nodes are the same. -/
theorem eq_of_index (hx : t.contains x = true) (hy : t.contains y = true)
    (hi : x.index.toNat = y.index.toNat) : x = y := by
  have hg := (generation?_of_contains hx).symm.trans (hi ▸ generation?_of_contains hy)
  by_contra hne
  rcases index_ne_or_generation_ne hne with hi' | ⟨-, hg'⟩
  · exact hi' hi.symm
  · exact hg' (Option.some.inj hg)

/-- **Nodes were freed**, the last one first, and their slots are empty. -/
structure Emptied (t : Tree) (hs : List Handle) (t' : Tree) : Prop where
  /-- The books are kept. -/
  accounts : t'.Accounts
  /-- The slots are stacked, the one of the first node on top. -/
  free : t'.free = hs.map Handle.index ++ t.free
  /-- There are that many nodes fewer. -/
  live : t'.live + hs.length = t.live
  /-- The slots are in their next generation. -/
  generation : ∀ x ∈ hs, t'.generation? x.index.toNat = some (x.generation + 1)

theorem Emptied.release (he : t.Emptied hs t') (hh : t'.contains h = true)
    (hother : ∀ x ∈ hs, x.index.toNat ≠ h.index.toNat) :
    t.Emptied (h :: hs) (t'.release h) where
  accounts := he.accounts.release h
  free := by
    obtain ⟨node, hn⟩ := contains_iff.mp hh
    simp only [Tree.release, hn]
    rw [he.free, List.map_cons, List.cons_append]
  live := by
    have hlive := he.live
    have hstep := he.accounts.live_release hh
    rw [List.length_cons]
    omega
  generation x hx := by
    rw [generation?_release hh]
    rcases List.mem_cons.mp hx with rfl | hx
    · rw [if_pos rfl]
    · rw [if_neg (hother x hx)]
      exact he.generation x hx

/-- Different nodes can be freed one after the other. -/
theorem Accounts.emptied (ha : t.Accounts) (hnd : hs.Nodup)
    (hlive : ∀ x ∈ hs, t.contains x = true) :
    t.Emptied hs (hs.foldr (fun h t => t.release h) t) := by
  induction hs with
  | nil => exact ⟨ha, rfl, rfl, nofun⟩
  | cons h hs ih =>
    obtain ⟨hmem, hnd⟩ := List.nodup_cons.mp hnd
    obtain ⟨hh, hlive⟩ := List.forall_mem_cons.mp hlive
    refine (ih hnd hlive).release ?_ fun x hx hi => ?_
    · rwa [contains, find?_foldr_release, if_neg hmem]
    · exact hmem (eq_of_index (hlive x hx) hh hi ▸ hx)

/-! ### Slots that are used again, in order -/

/-- The handle that the next node of a slot gets. -/
def nextHandle (t : Tree) (index : UInt32) : Handle :=
  ⟨index, (t.generation? index.toNat).getD 0⟩

/-- **New nodes got the empty slots** in the order of the stack, as long as there were any. -/
structure Reuses (t : Tree) (hs : List Handle) (t' : Tree) : Prop where
  /-- The slots that are left on the stack. -/
  free : t'.free = t.free.drop hs.length
  /-- They are in the same generation as before. -/
  generation : ∀ index ∈ t'.free, t'.generation? index.toNat = t.generation? index.toNat
  /-- The handle that each of the new nodes got. -/
  given : ∀ k index, k < hs.length → t.free[k]? = some index → hs[k]? = some (t.nextHandle index)

namespace Reuses

theorem nothing (t : Tree) : Reuses t [] t := ⟨rfl, fun _ _ => rfl, nofun⟩

theorem modify (hr : t.Reuses hs t') (h : Handle) (f : Node → Node) :
    t.Reuses hs (t'.modify h f) := by
  have hfree := (SameBooks.modify t' h f).free
  refine ⟨hfree.trans hr.free, fun index hmem => ?_, hr.given⟩
  rw [hfree] at hmem
  rw [generation?_modify, hr.generation index hmem]

theorem allocate (hnd : t.free.Nodup) (hr : t.Reuses hs t') (content : Content) :
    t.Reuses (hs ++ [(t'.allocate content).1]) (t'.allocate content).2 := by
  have hdrop := hr.free
  have hgiven : ∀ k index, k < hs.length → t.free[k]? = some index →
      (hs ++ [(t'.allocate content).1])[k]? = some (t.nextHandle index) := fun k index hk hi =>
    (List.getElem?_append_left hk).trans (hr.given k index hk hi)
  have hlast : ∀ k, k < (hs ++ [(t'.allocate content).1]).length → k < hs.length ∨ k = hs.length :=
    fun k hk => by
      rw [List.length_append, List.length_singleton] at hk
      omega
  cases hfree : t'.free with
  | nil =>
    -- The stack is used up, and the new slots are none of it.
    have hlen : t.free.length ≤ hs.length := List.drop_eq_nil_iff.mp (hdrop.symm.trans hfree)
    have hfree' : (t'.allocate content).2.free = [] := by simp only [Tree.allocate, hfree]
    refine ⟨?_, fun index hmem => ?_, fun k index hk hi => ?_⟩
    · rw [hfree', List.drop_eq_nil_of_le]
      rw [List.length_append]
      omega
    · rw [hfree'] at hmem
      exact nomatch hmem
    · have hk' := (List.getElem?_eq_some_iff.mp hi).1
      exact hgiven k index (by omega) hi
  | cons index free =>
    have hcons : t.free.drop hs.length = index :: free := hdrop.symm.trans hfree
    have hget : t.free[hs.length]? = some index := by
      rw [← List.head?_drop, hcons, List.head?_cons]
    have hnd' : (index :: free).Nodup := hcons ▸ hnd.sublist (List.drop_sublist _ _)
    have hhandle : (t'.allocate content).1 = t.nextHandle index := by
      have hsame := hr.generation index (hfree ▸ List.mem_cons_self)
      simp only [Tree.allocate, hfree]
      rw [nextHandle, ← hsame]
      rfl
    have hfree' : (t'.allocate content).2.free = free := by simp only [Tree.allocate, hfree]
    refine ⟨?_, fun i hmem => ?_, fun k i hk hi => ?_⟩
    · rw [hfree', List.length_append, List.length_singleton, ← List.drop_drop, hcons]
      rfl
    · rw [hfree'] at hmem
      have hne : index.toNat ≠ i.toNat := fun he =>
        (List.nodup_cons.mp hnd').1 (UInt32.toNat_inj.mp he ▸ hmem)
      rw [← hr.generation i (hfree ▸ List.mem_cons_of_mem _ hmem)]
      simp only [Tree.allocate, hfree, generation?, List.getElem?_set_ne hne]
    · rcases hlast k hk with hk | rfl
      · exact hgiven k i hk hi
      · obtain rfl := Option.some.inj (hget.symm.trans hi)
        rw [hhandle, List.getElem?_concat_length]

end Reuses

/-- **New nodes get the empty slots in the order of the stack**, as long as no node is freed. -/
theorem reuses_of_happens (hnd : t.free.Nodup) (hh : Happens t (hs.map .given) t') :
    t.Reuses hs t' := by
  generalize hes : hs.map Event.given = es at hh
  induction hh generalizing hs with
  | nothing =>
    rw [List.map_eq_nil_iff.mp hes]
    exact Reuses.nothing t
  | given _ content ih =>
    obtain ⟨hs', last, rfl, hes', hlast⟩ := List.map_eq_append_iff.mp hes
    obtain ⟨h, rfl, hgiven⟩ := List.map_eq_singleton_iff.mp hlast
    rw [Event.given.inj hgiven]
    exact (ih hes').allocate hnd content
  | changed _ h f ih => exact (ih hes).modify h f
  | freed _ h _ _ =>
    obtain ⟨hs', last, rfl, -, hlast⟩ := List.map_eq_append_iff.mp hes
    obtain ⟨h', rfl, hgiven⟩ := List.map_eq_singleton_iff.mp hlast
    exact nomatch hgiven

/-! ### Deleting a node -/

/-- The links of nodes lead down to what the node is above of. -/
theorem reflTransGen_lists_iff (hf : View.Forest t.find?) :
    Relation.ReflTransGen (View.Lists t.find?) h x ↔ View.Above t.find? h x := by
  have hswap : View.Lists t.find? = Function.swap (View.Parent t.find?) := by
    funext p h
    exact propext (hf.parent_iff_lists h p).symm
  rw [hswap, Relation.reflTransGen_swap]

/-- **The subtree of a node was freed**, and nothing else happened. -/
structure FreesSubtree (t : Tree) (h : Handle) (t' : Tree) : Prop where
  /-- A subtree in postorder: fixed arguments before children, and the node after them. -/
  postorder_eq : ∀ x node, t.find? x = some node → t.postorder x =
    (node.content.fixedArguments ++ node.content.children).flatMap t.postorder ++ [x]
  /-- The subtree is what the fixed arguments and children lead to. -/
  mem_postorder_iff : ∀ x, x ∈ t.postorder h ↔ Relation.ReflTransGen (View.Lists t.find?) h x
  /-- No node comes twice. -/
  nodup : (t.postorder h).Nodup
  /-- A stack that holds the node can be swept in one way, which frees the last nodes first. -/
  sweeps_iff : ∀ freed s, Sweeps t [h] freed s ↔ freed = (t.postorder h).reverse ∧ s = t'
  /-- These nodes are freed, each of them while it is there, and nothing else happens. -/
  happens : Happens t ((t.postorder h).reverse.map .freed) t'
  /-- There are that many nodes fewer. -/
  live : t'.live + (t.postorder h).length = t.live
  /-- The nodes of the subtree are gone. -/
  gone : ∀ x ∈ t.postorder h, t'.find? x = none
  /-- All other nodes are the same. -/
  kept : ∀ x, x ∉ t.postorder h → t'.find? x = t.find? x
  /-- None of the others lists a node that is gone. -/
  links : ∀ x node, t'.find? x = some node → ∀ y ∈ node.content.links, y ∉ t.postorder h
  /-- None of the others is owned by a node that is gone. -/
  owner : ∀ x node p, t'.find? x = some node → node.parent = some p → p ∉ t.postorder h
  /-- If nothing is freed, the next nodes get the slots of the subtree from the first to the last,
  in the next generation unless it comes back to zero. -/
  reuses : ∀ (hs : List Handle) (t'' : Tree), Happens t' (hs.map .given) t'' →
    ∀ k x, k < hs.length → (t.postorder h)[k]? = some x → x.generation.toNat + 1 < UInt32.size →
      ∃ y : Handle, hs[k]? = some y ∧ y.index = x.index ∧
        y.generation.toNat = x.generation.toNat + 1

/-- What was emptied is used again in the next generation. -/
theorem Emptied.reuses (he : t.Emptied hs t') {new : List Handle} (hr : t'.Reuses new s) {k : Nat}
    (hk : k < new.length) (hx : hs[k]? = some x) (hlast : x.generation.toNat + 1 < UInt32.size) :
    ∃ y, new[k]? = some y ∧ y.index = x.index ∧
      y.generation.toNat = x.generation.toNat + 1 := by
  have hfree : t'.free[k]? = some x.index := by
    have hk' : k < (hs.map Handle.index).length := by
      rw [List.length_map]
      exact (List.getElem?_eq_some_iff.mp hx).1
    rw [he.free, List.getElem?_append_left hk', List.getElem?_map, hx, Option.map_some]
  refine ⟨_, hr.given k x.index hk hfree, rfl, ?_⟩
  rw [nextHandle, he.generation x (List.mem_of_getElem? hx), Option.getD_some, UInt32.toNat_add]
  exact Nat.mod_eq_of_lt hlast

/-- What a node outside of a subtree lists is outside as well. -/
theorem Sound.not_mem_postorder_of_lists (hs : t.Sound P) (hn : t.find? h = some node)
    (hd : node.parent = none) (hx : x ∉ t.postorder h) (hy : View.Lists t.find? x y) :
    y ∉ t.postorder h := by
  have hyx := (hs.forest.parent_iff_lists y x).mpr hy
  rw [hs.mem_postorder_iff hn] at hx ⊢
  intro hup
  -- The node of the subtree itself is detached, and another one has its owner in the subtree.
  rcases Relation.ReflTransGen.cases_head hup with rfl | ⟨q, hq, hup⟩
  · exact View.not_parent_of_detached hn hd hyx
  · exact hx (hq.unique hyx ▸ hup)

/-- What owns a node outside of a subtree is outside as well. -/
theorem Sound.not_mem_postorder_of_parent (hs : t.Sound P) (hn : t.find? h = some node)
    (hx : x ∉ t.postorder h) (hp : View.Parent t.find? x p) : p ∉ t.postorder h := by
  rw [hs.mem_postorder_iff hn] at hx ⊢
  exact fun hup => hx (Relation.ReflTransGen.head hp hup)

/-- **Deleting a detached node frees its subtree.** -/
theorem Sound.freesSubtree (hs : t.Sound P) (hn : t.find? h = some node)
    (hd : node.parent = none) :
    t.FreesSubtree h ((t.postorder h).foldr (fun h t => t.release h) t) := by
  have hnd := hs.nodup_postorder hn
  have hemptied := hs.accounts.emptied hnd fun x => hs.contains_of_mem_postorder hn
  have hsweeps := hs.sweeps_postorder hn
  have hfind := find?_foldr_release t (t.postorder h)
  have hold : ∀ x node', ((t.postorder h).foldr (fun h t => t.release h) t).find? x = some node' →
      x ∉ t.postorder h ∧ t.find? x = some node' := by
    intro x node' hx
    rw [hfind] at hx
    split at hx
    · exact nomatch hx
    · next hnot => exact ⟨hnot, hx⟩
  exact {
    postorder_eq := fun x node hx => hs.postorder_eq hx
    mem_postorder_iff := fun x => by
      rw [hs.mem_postorder_iff hn, reflTransGen_lists_iff hs.forest]
    nodup := hnd
    sweeps_iff := fun freed s => by
      constructor
      · exact hsweeps.unique
      · rintro ⟨rfl, rfl⟩
        exact hsweeps
    happens := hsweeps.happens
    live := hemptied.live
    gone := fun x hx => by rw [hfind, if_pos hx]
    kept := fun x hx => by rw [hfind, if_neg hx]
    links := fun x node' hx y hy => by
      obtain ⟨hnot, hx⟩ := hold x node' hx
      exact hs.not_mem_postorder_of_lists hn hd hnot ⟨node', hx, hy⟩
    owner := fun x node' p hx hp => by
      obtain ⟨hnot, hx⟩ := hold x node' hx
      exact hs.not_mem_postorder_of_parent hn hnot ⟨node', hx, hp⟩
    reuses := fun hs t'' hh k x hk hx hlast =>
      hemptied.reuses (reuses_of_happens hemptied.accounts.nodup_free hh) hk hx hlast }

/-- **Deleting a node**, whatever the handle denotes. -/
structure DeletesSubtree (t : Tree) (h : Handle) : Prop where
  /-- It succeeds exactly if there is a node and it is detached. -/
  succeeds_iff : (∃ t', delete h t = .ok () t') ↔ t.parent h = .ok none
  /-- It frees the subtree then. -/
  frees : ∀ t', delete h t = .ok () t' → t.FreesSubtree h t'
  /-- Otherwise it changes nothing. -/
  refused : ∀ e t', delete h t = .error e t' → t' = t

theorem Sound.deletesSubtree (hs : t.Sound P) (h : Handle) : t.DeletesSubtree h := by
  refine ⟨⟨?_, fun hp => ?_⟩, fun t' hok => ?_, fun e t' herr => ?_⟩
  · rintro ⟨t', hok⟩
    rcases delete_cases h t with ⟨e, herr⟩ | ⟨node, hn, hd, -⟩
    · exact nomatch hok.symm.trans herr
    · exact parent_eq_ok_iff.mpr ⟨node, hn, hd⟩
  · obtain ⟨node, hn, hd⟩ := parent_eq_ok_iff.mp hp
    exact ⟨_, delete_ok hn hd⟩
  · rcases delete_cases h t with ⟨e, herr⟩ | ⟨node, hn, hd, hok'⟩
    · exact nomatch hok.symm.trans herr
    · cases hok.symm.trans hok'
      exact hs.freesSubtree hn hd
  · rcases delete_cases h t with ⟨e', herr'⟩ | ⟨node, hn, hd, hok⟩
    · cases herr.symm.trans herr'
      rfl
    · exact nomatch herr.symm.trans hok

end Tree

namespace Assembly

/-- **Deleting a node in a tree that requests make** frees the subtree of the node, if it is
detached, and does nothing otherwise. -/
theorem deletesSubtree_run (attempts : List (Attempt Request)) (hfit : (run attempts).Fits)
    (h : Handle) : (run attempts).DeletesSubtree h :=
  (sound_run_true hfit).deletesSubtree h

/-- A scope with a device in it, which declares its number. -/
theorem deletesSubtree_run_scope : (run (amply [.declareRegion .scope "\\_SB" none,
    .declareRegion .device "COM1" (some ⟨1, 0⟩),
    .declareInteger "_UID" 1 (some ⟨3, 0⟩)])).DeletesSubtree ⟨1, 0⟩ :=
  deletesSubtree_run _ (by decide) ⟨1, 0⟩

end Assembly

end AcpiTables
