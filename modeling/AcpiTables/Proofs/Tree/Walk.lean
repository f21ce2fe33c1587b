import AcpiTables.Proofs.Tree.Arena
import AcpiTables.Proofs.Tree.Content
import AcpiTables.Proofs.Tree.Forest

/-!
# Walks end where they should

A walk through a tree is bounded by the number of nodes, and the bound is never felt:
the nodes on the way up from a node are different, so there are no more of them than
there are nodes (`AcpiTables.Tree.Ordered.depth_lt_live`).

From this the walks lose their bounds. A lineage holds exactly what is above its handle
(`AcpiTables.Tree.Ordered.isAbove_iff`), and the two walks down satisfy the equations that
say what they do at a node (`AcpiTables.Tree.Ordered.postorder_eq`,
`AcpiTables.Tree.Ordered.bytesOf_eq`). Facts about a subtree are proved from the links up
(`AcpiTables.Tree.Ordered.induction_links`), and facts about a bounded walk together with its bound
(`AcpiTables.Tree.Ordered.induction_levels`).
-/

namespace AcpiTables.Tree

variable {t : Tree} {h p x : Handle} {node : Node}

/-- A tree whose books are right and whose nodes are a forest. -/
structure Ordered (t : Tree) : Prop where
  /-- The arena keeps its books. -/
  accounts : t.Accounts
  /-- Ownership is a forest. -/
  forest : View.Forest t.find?

theorem ordered_empty : empty.Ordered where
  accounts := accounts_empty
  forest := View.forest_of_empty fun _ => rfl

/-- The bytes of a node and its subtree, none if there is no node. -/
def bytesOf (t : Tree) (h : Handle) : Bytes := t.encodeWithin t.live h

theorem encode_eq (hn : t.find? h = some node) : t.encode h = .ok (t.bytesOf h) := by
  simp [encode, Tree.node, hn, bytesOf, bind, Except.bind, pure, Except.pure]

/-- The bytes of a node depend on the bytes of its links only. -/
theorem encodeContent_congr {f g : Handle → Bytes} {content : Content}
    (hfg : ∀ x ∈ content.links, f x = g x) : encodeContent f content = encodeContent g content := by
  cases content with
  | data _ bytes => rfl
  | name label value =>
    rw [encodeContent, encodeContent, hfg label (by simp), hfg value (by simp)]
  | buffer items =>
    have hi : items.flatMap f = items.flatMap g := List.flatMap_congr hfg
    rw [encodeContent, encodeContent, hi]
  | region kind label members =>
    have hm : members.flatMap f = members.flatMap g :=
      List.flatMap_congr fun x hx => hfg x (List.mem_cons_of_mem _ hx)
    rw [encodeContent, encodeContent, hfg label (by simp), hm]

namespace Ordered

/-! ### Depths are below the number of nodes -/

/-- **A node is less deep than there are nodes.** -/
theorem depth_lt_live (ho : t.Ordered) {n : Nat} (hd : View.Depth t.find? h n) : n < t.live := by
  obtain ⟨chain, hlen, hnd, hchain⟩ := hd.exists_chain
  have hle := ho.accounts.length_le_live hnd fun x hx => by
    obtain ⟨_, -, hdx⟩ := hchain x hx
    exact contains_iff.mpr hdx.exists_node
  omega

theorem depth_of_mem (ho : t.Ordered) {n : Nat} (hd : View.Depth t.find? h n)
    (hn : t.find? h = some node) (hx : x ∈ node.content.links) :
    View.Depth t.find? x (n + 1) :=
  .owned (ho.forest.parent_of_mem hn hx) hd

/-- The links of a node denote nodes. -/
theorem exists_of_mem (ho : t.Ordered) (hn : t.find? h = some node)
    (hx : x ∈ node.content.links) : ∃ below, t.find? x = some below := by
  obtain ⟨below, hb, -⟩ := ho.forest.parent_of_mem hn hx
  exact ⟨below, hb⟩

/-- **What holds of a node if it holds of its links holds of every node.** -/
theorem induction_links (ho : t.Ordered) {P : Handle → Prop}
    (step : ∀ h node, t.find? h = some node → (∀ x ∈ node.content.links, P x) → P h)
    (hn : t.find? h = some node) : P h := by
  obtain ⟨n, hd⟩ := ho.forest.exists_depth hn
  have hlt := ho.depth_lt_live hd
  -- Links are deeper, and no depth reaches the number of nodes, so the difference falls.
  induction hk : t.live - n using Nat.strongRecOn generalizing h node n with
  | ind k ih =>
    refine step h node hn fun x hx => ?_
    obtain ⟨below, hb⟩ := ho.exists_of_mem hn hx
    have hdx := ho.depth_of_mem hd hn hx
    exact ih (t.live - (n + 1)) (by omega) hb (n + 1) hdx (ho.depth_lt_live hdx) rfl

/-- **What holds of a node at one level more than of its links** holds of every node at as many
levels as there are nodes. -/
theorem induction_levels (ho : t.Ordered) {P : Nat → Handle → Prop}
    (step : ∀ h node m, t.find? h = some node → (∀ x ∈ node.content.links, P m x) → P (m + 1) h)
    (hn : t.find? h = some node) {m : Nat} (hm : t.live ≤ m) : P m h := by
  -- A node that is `n` levels deep has fewer than `live - n` levels below it.
  have hall : ∀ n m, View.Depth t.find? h n → t.live ≤ n + m → P m h := by
    refine ho.induction_links (P := fun h => ∀ n m, View.Depth t.find? h n → t.live ≤ n + m →
      P m h) (fun h node hn ih n m hd hm => ?_) hn
    have hlt := ho.depth_lt_live hd
    obtain ⟨m, rfl⟩ : ∃ k, m = k + 1 := ⟨m - 1, by omega⟩
    refine step h node m hn fun x hx => ?_
    exact ih x hx (n + 1) m (ho.depth_of_mem hd hn hx) (by omega)
  obtain ⟨n, hd⟩ := ho.forest.exists_depth hn
  exact hall n m hd (by omega)

/-! ### Upwards -/

theorem mem_lineageWithin_iff {n bound : Nat} (hd : View.Depth t.find? h n) (hb : n < bound) :
    x ∈ t.lineageWithin bound h ↔ View.Above t.find? x h := by
  induction hd generalizing bound with
  | detached hn hp =>
    cases bound with
    | zero => omega
    | succ bound =>
      simp only [lineageWithin, hn, Option.bind_some, hp, List.mem_singleton]
      constructor
      · rintro rfl
        exact Relation.ReflTransGen.refl
      · exact View.eq_of_above_detached hn hp
  | @owned h p n hp _ ih =>
    cases bound with
    | zero => omega
    | succ bound =>
      obtain ⟨node, hn, hpar⟩ := hp
      have hstep : View.Parent t.find? h p := ⟨node, hn, hpar⟩
      simp only [lineageWithin, hn, Option.bind_some, hpar, List.mem_cons]
      rw [ih (by omega)]
      constructor
      · rintro (rfl | ha)
        · exact Relation.ReflTransGen.refl
        · exact Relation.ReflTransGen.head hstep ha
      · intro ha
        rcases Relation.ReflTransGen.cases_head ha with he | ⟨q, hq, ha⟩
        · exact Or.inl he.symm
        · exact Or.inr (hstep.unique hq ▸ ha)

/-- **The walk up finds exactly what is above a handle.** -/
theorem isAbove_iff (ho : t.Ordered) : t.isAbove x h = true ↔ View.Above t.find? x h := by
  rw [isAbove, lineage, List.contains_iff_mem]
  cases hn : t.find? h with
  | some node =>
    obtain ⟨n, hd⟩ := ho.forest.exists_depth hn
    exact mem_lineageWithin_iff hd (Nat.lt_succ_of_lt (ho.depth_lt_live hd))
  | none =>
    simp only [lineageWithin, hn, Option.bind_none, List.mem_singleton]
    constructor
    · rintro rfl
      exact Relation.ReflTransGen.refl
    · intro ha
      rcases Relation.ReflTransGen.cases_head ha with he | ⟨q, ⟨_, hq, -⟩, -⟩
      · exact he.symm
      · rw [hn] at hq
        exact nomatch hq

/-! ### Downwards -/

section Down

variable {β : Type} {walk : Nat → Handle → β}

/-- A walk down that sees only the links of a node gives the same with every bound that
its depth allows. -/
theorem walk_eq_of_le (ho : t.Ordered)
    (hwalk : ∀ h node m m', t.find? h = some node →
      (∀ x ∈ node.content.links, walk m x = walk m' x) → walk (m + 1) h = walk (m' + 1) h)
    (hn : t.find? h = some node) {n m m' : Nat} (hd : View.Depth t.find? h n)
    (hm : t.live ≤ n + m) (hm' : t.live ≤ n + m') : walk m h = walk m' h := by
  have hall : ∀ n m m', View.Depth t.find? h n → t.live ≤ n + m → t.live ≤ n + m' →
      walk m h = walk m' h := by
    refine ho.induction_links (P := fun h => ∀ n m m', View.Depth t.find? h n →
      t.live ≤ n + m → t.live ≤ n + m' → walk m h = walk m' h) ?_ hn
    intro h node hn ih n m m' hd hm hm'
    have hlt := ho.depth_lt_live hd
    obtain ⟨m, rfl⟩ : ∃ k, m = k + 1 := ⟨m - 1, by omega⟩
    obtain ⟨m', rfl⟩ : ∃ k, m' = k + 1 := ⟨m' - 1, by omega⟩
    refine hwalk h node m m' hn fun x hx => ?_
    exact ih x hx (n + 1) m m' (ho.depth_of_mem hd hn hx) (by omega) (by omega)
  exact hall n m m' hd hm hm'

/-- Such a walk, bounded by the number of nodes, may as well go one level deeper. -/
theorem walk_live_eq (ho : t.Ordered)
    (hwalk : ∀ h node m m', t.find? h = some node →
      (∀ x ∈ node.content.links, walk m x = walk m' x) → walk (m + 1) h = walk (m' + 1) h)
    (hn : t.find? h = some node) : walk t.live h = walk (t.live + 1) h := by
  obtain ⟨n, hd⟩ := ho.forest.exists_depth hn
  exact ho.walk_eq_of_le hwalk hn hd (by omega) (by omega)

end Down

/-- **What a walk in postorder does at a node.** -/
theorem postorder_eq (ho : t.Ordered) (hn : t.find? h = some node) :
    t.postorder h = node.content.links.flatMap t.postorder ++ [h] := by
  have hstep : ∀ h node m m', t.find? h = some node →
      (∀ x ∈ node.content.links, t.postorderWithin m x = t.postorderWithin m' x) →
      t.postorderWithin (m + 1) h = t.postorderWithin (m' + 1) h := by
    intro h node m m' hn hlinks
    simp only [postorderWithin, hn]
    rw [List.flatMap_congr hlinks]
  rw [postorder, ho.walk_live_eq hstep hn]
  simp only [postorderWithin, hn]
  rfl

/-- **What a walk in preorder does at a node.** -/
theorem preorder_eq (ho : t.Ordered) (hn : t.find? h = some node) :
    t.preorder h = h :: node.content.links.flatMap t.preorder := by
  have hstep : ∀ h node m m', t.find? h = some node →
      (∀ x ∈ node.content.links, t.preorderWithin m x = t.preorderWithin m' x) →
      t.preorderWithin (m + 1) h = t.preorderWithin (m' + 1) h := by
    intro h node m m' hn hlinks
    simp only [preorderWithin, hn]
    rw [List.flatMap_congr hlinks]
  rw [preorder, ho.walk_live_eq hstep hn]
  simp only [preorderWithin, hn]
  rfl

/-- **The bytes of a node are made of the bytes of its links.** -/
theorem bytesOf_eq (ho : t.Ordered) (hn : t.find? h = some node) :
    t.bytesOf h = encodeContent t.bytesOf node.content := by
  have hstep : ∀ h node m m', t.find? h = some node →
      (∀ x ∈ node.content.links, t.encodeWithin m x = t.encodeWithin m' x) →
      t.encodeWithin (m + 1) h = t.encodeWithin (m' + 1) h := by
    intro h node m m' hn hlinks
    simp only [encodeWithin, hn]
    exact encodeContent_congr hlinks
  rw [bytesOf, ho.walk_live_eq hstep hn]
  simp only [encodeWithin, hn]
  rfl

end Ordered

end AcpiTables.Tree
