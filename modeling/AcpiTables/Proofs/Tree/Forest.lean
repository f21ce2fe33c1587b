import AcpiTables.Tree.Basic
import Mathlib.Logic.Relation

/-!
# Ownership is a forest

Two fields of a node say who owns whom: an object lists its links, and a node knows its
parent. Nothing in the types makes the two agree, or keeps a node from being above
itself. `AcpiTables.View.Forest` says that they do agree and that none is.

Only what handles denote matters here, so everything is said of a `AcpiTables.View` and
not of an arena. The one thing to know is that every request to a tree is made of four
changes to a view: a new node above detached ones (`AcpiTables.View.Forest.insert`), a
detached node becoming a link (`AcpiTables.View.Forest.link`), a link becoming detached
(`AcpiTables.View.Forest.unlink`), and a detached node going away with all that is below
it (`AcpiTables.View.Forest.prune`). Each changes the two relations in the same way, and
so they agree afterwards.

That going up ends is said by a **rank** that falls with every step to the parent. Only a
node that becomes a link needs new ranks: it is lifted above its new parent, with all
that is below it.
-/

namespace AcpiTables

/-- What handles denote. -/
abbrev View := Handle → Option Node

namespace View

variable {v v' : View} {h p q x : Handle} {node : Node}

/-- A node has a parent. -/
def Parent (v : View) (h p : Handle) : Prop := ∃ node, v h = some node ∧ node.parent = some p

/-- A node lists another among its links. -/
def Lists (v : View) (p h : Handle) : Prop := ∃ node, v p = some node ∧ h ∈ node.content.links

/-- A handle is another, or its node is above the other's. -/
abbrev Above (v : View) (above below : Handle) : Prop := Relation.ReflTransGen v.Parent below above

/-- **Ownership is a forest**: the parent of a node is the one node that lists it, it is
listed once, and going up ends. -/
structure Forest (v : View) : Prop where
  /-- A node has a parent exactly if the parent lists it. -/
  parent_iff_lists : ∀ h p, v.Parent h p ↔ v.Lists p h
  /-- No node is listed twice. -/
  nodup_links : ∀ p node, v p = some node → node.content.links.Nodup
  /-- Going up, something falls. -/
  exists_rank : ∃ rank : Handle → Nat, ∀ h p, v.Parent h p → rank p < rank h

/-! ### Parents -/

theorem parent_iff (hn : v h = some node) : v.Parent h p ↔ node.parent = some p := by
  constructor
  · rintro ⟨_, hn', hp⟩
    rw [hn] at hn'
    exact Option.some.inj hn' ▸ hp
  · intro hp
    exact ⟨node, hn, hp⟩

theorem lists_iff (hn : v p = some node) : v.Lists p h ↔ h ∈ node.content.links := by
  constructor
  · rintro ⟨_, hn', hh⟩
    rw [hn] at hn'
    exact Option.some.inj hn' ▸ hh
  · intro hh
    exact ⟨node, hn, hh⟩

theorem parent_congr (he : v' h = v h) : v'.Parent h p ↔ v.Parent h p := by
  rw [Parent, Parent, he]

theorem lists_congr (he : v' p = v p) : v'.Lists p h ↔ v.Lists p h := by
  rw [Lists, Lists, he]

/-- No node has two parents. -/
theorem Parent.unique (hp : v.Parent h p) (hq : v.Parent h q) : p = q := by
  obtain ⟨node, hn, hp⟩ := hp
  exact Option.some.inj (hp.symm.trans ((parent_iff hn).mp hq))

theorem not_parent_of_detached (hn : v h = some node) (hd : node.parent = none) :
    ¬v.Parent h p := by
  rw [parent_iff hn, hd]
  exact nofun

/-- Only a detached node itself is above it. -/
theorem eq_of_above_detached (hn : v h = some node) (hd : node.parent = none)
    (ha : v.Above x h) : x = h := by
  rcases Relation.ReflTransGen.cases_head ha with he | ⟨q, hq, -⟩
  · exact he.symm
  · exact absurd hq (not_parent_of_detached hn hd)

/-! ### What a forest says of its nodes -/

theorem forest_of_empty (he : ∀ x, v x = none) : v.Forest where
  parent_iff_lists _ _ := by simp [Parent, Lists, he]
  nodup_links _ _ hn := by simp [he] at hn
  exists_rank := ⟨fun _ => 0, fun _ _ hp => by simp [Parent, he] at hp⟩

namespace Forest

theorem parent_of_mem (hf : v.Forest) (hn : v p = some node) (hx : x ∈ node.content.links) :
    v.Parent x p :=
  (hf.parent_iff_lists x p).mpr ⟨node, hn, hx⟩

theorem mem_of_parent (hf : v.Forest) (hx : v.Parent x p) (hn : v p = some node) :
    x ∈ node.content.links :=
  (lists_iff hn).mp ((hf.parent_iff_lists x p).mp hx)

/-- A detached node is listed nowhere. -/
theorem not_lists_detached (hf : v.Forest) (hn : v h = some node) (hd : node.parent = none) :
    ¬v.Lists p h := fun hl =>
  not_parent_of_detached hn hd ((hf.parent_iff_lists h p).mpr hl)

/-- **No node is properly above itself.** -/
theorem not_transGen_self (hf : v.Forest) (h : Handle) : ¬Relation.TransGen v.Parent h h := by
  obtain ⟨rank, hrank⟩ := hf.exists_rank
  have hlt : ∀ {x y}, Relation.TransGen v.Parent x y → rank y < rank x := fun hxy => by
    induction hxy with
    | single hp => exact hrank _ _ hp
    | tail _ hp ih => exact Nat.lt_trans (hrank _ _ hp) ih
  exact fun ha => Nat.lt_irrefl _ (hlt ha)

/-- No node is above its owner. -/
theorem not_above_owner (hf : v.Forest) (hp : v.Parent h p) : ¬v.Above h p := fun hup =>
  hf.not_transGen_self h (Relation.TransGen.head' hp hup)

/-- No node is its owner. -/
theorem owner_ne (hf : v.Forest) (hp : v.Parent h p) : p ≠ h := by
  rintro rfl
  exact hf.not_above_owner hp Relation.ReflTransGen.refl

end Forest

/-! ### A new node -/

/-- **A view after a new handle got a node** that took over detached nodes as its links. The
new node is above all others that it meets, so it gets the lowest rank. -/
theorem Forest.insert {content : Content} (hf : v.Forest) (hnew : v h = none)
    (hnd : content.links.Nodup)
    (hlinks : ∀ x ∈ content.links, ∃ node, v x = some node ∧ node.parent = none)
    (hv : ∀ x, v' x = if x = h then some ⟨content, none⟩ else (v x).map fun node =>
      if x ∈ content.links then { node with parent := some h } else node) : v'.Forest := by
  have hself : v' h = some ⟨content, none⟩ := by rw [hv, if_pos rfl]
  have hlink : ∀ x ∈ content.links, ∃ node, v' x = some { node with parent := some h } ∧
      v x = some node ∧ node.parent = none := fun x hx => by
    obtain ⟨node, hn, hd⟩ := hlinks x hx
    have hne : x ≠ h := fun he => by simp [he, hnew] at hn
    exact ⟨node, by rw [hv, if_neg hne, hn, Option.map_some, if_pos hx], hn, hd⟩
  have hother : ∀ x, x ≠ h → x ∉ content.links → v' x = v x := fun x hne hx => by
    rw [hv, if_neg hne]
    simp [hx]
  have hmem : ∀ x ∈ content.links, x ≠ h := fun x hx he => by
    obtain ⟨node, -, hn, -⟩ := hlink x hx
    simp [he, hnew] at hn
  -- Both relations gain the pairs of a link and the new node, and nothing else.
  have hparent : ∀ x p, v'.Parent x p ↔ (x ∈ content.links ∧ p = h) ∨ v.Parent x p :=
    fun x p => by
    by_cases hx : x ∈ content.links
    · obtain ⟨node, hn', hn, hd⟩ := hlink x hx
      rw [parent_iff hn', parent_iff hn, hd]
      simp [hx, eq_comm]
    · rw [or_iff_right fun hc => hx hc.1]
      by_cases hne : x = h
      · subst hne
        simp [Parent, hself, hnew]
      · exact parent_congr (hother x hne hx)
  have hlists : ∀ x p, v'.Lists p x ↔ (x ∈ content.links ∧ p = h) ∨ v.Lists p x := fun x p => by
    by_cases hp : p = h
    · subst hp
      simp [Lists, hself, hnew]
    · rw [or_iff_right fun hc => hp hc.2]
      by_cases hpl : p ∈ content.links
      · obtain ⟨node, hn', hn, -⟩ := hlink p hpl
        rw [lists_iff hn', lists_iff hn]
      · exact lists_congr (hother p hp hpl)
  have hup : ∀ {x p}, v.Parent x p → p ≠ h := fun hp he => by
    obtain ⟨above, habove, -⟩ := (hf.parent_iff_lists _ _).mp hp
    simp [he, hnew] at habove
  obtain ⟨rank, hrank⟩ := hf.exists_rank
  refine ⟨fun x p => ?_, fun p node hn => ?_, fun x => if x = h then 0 else rank x + 1,
    fun x p hp => ?_⟩
  · rw [hparent, hlists, hf.parent_iff_lists]
  · by_cases hp : p = h
    · rw [hp, hself] at hn
      rw [← Option.some.inj hn]
      exact hnd
    · rw [hv, if_neg hp] at hn
      obtain ⟨old, hold, rfl⟩ := Option.map_eq_some_iff.mp hn
      have := hf.nodup_links p old hold
      split <;> exact this
  · rcases (hparent x p).mp hp with ⟨hx, rfl⟩ | hp
    · simp only [if_true, if_neg (hmem x hx)]
      exact Nat.succ_pos _
    · have hne : x ≠ h := fun he => by
        obtain ⟨node, hn, -⟩ := hp
        simp [he, hnew] at hn
      simp only [if_neg (hup hp), if_neg hne]
      exact Nat.succ_lt_succ (hrank x p hp)

/-- A view after a new handle got a node without links. -/
theorem Forest.insert_leaf {content : Content} (hf : v.Forest) (hnew : v h = none)
    (hleaf : content.links = [])
    (hv : ∀ x, v' x = if x = h then some ⟨content, none⟩ else v x) : v'.Forest := by
  refine hf.insert hnew (by rw [hleaf]; exact List.nodup_nil)
    (fun x hx => by rw [hleaf] at hx; exact nomatch hx) fun x => ?_
  rw [hv, hleaf]
  simp

/-! ### A node that becomes a link -/

/-- No node is listed twice after one node got another owner and another one other links. -/
theorem Forest.nodup_links_of_changed {above : Node} {content : Content}
    {parent : Option Handle} (hf : v.Forest) (hn : v h = some node) (hnd : content.links.Nodup)
    (hv : ∀ x, v' x = if x = h then some { node with parent }
      else if x = p then some { above with content } else v x) :
    ∀ q node', v' q = some node' → node'.content.links.Nodup := by
  intro q node' hq
  rw [hv] at hq
  split at hq
  · rw [← Option.some.inj hq]
    exact hf.nodup_links h node hn
  · split at hq
    · rw [← Option.some.inj hq]
      exact hnd
    · exact hf.nodup_links q node' hq

/-- Ranks for a detached node under a new parent: it is lifted above the parent with all
that is below it. -/
theorem Forest.exists_rank_link (hf : v.Forest) (hn : v h = some node)
    (hd : node.parent = none) (hcycle : ¬v.Above h p) :
    ∃ rank : Handle → Nat, rank p < rank h ∧ ∀ x q, v.Parent x q → rank q < rank x := by
  classical
  obtain ⟨rank, hrank⟩ := hf.exists_rank
  refine ⟨fun x => if v.Above h x then rank x + rank p + 1 else rank x, ?_, fun x q hq => ?_⟩
  · simp only [if_neg hcycle, if_pos Relation.ReflTransGen.refl]
    omega
  · have hlt := hrank x q hq
    by_cases hx : v.Above h x
    · have hup : v.Above h q := by
        rcases Relation.ReflTransGen.cases_head hx with rfl | ⟨r, hr, ha⟩
        · exact absurd hq (not_parent_of_detached hn hd)
        · exact hr.unique hq ▸ ha
      simp only [if_pos hx, if_pos hup]
      omega
    · have hup : ¬v.Above h q := fun ha => hx (Relation.ReflTransGen.head hq ha)
      simp only [if_neg hx, if_neg hup]
      exact hlt

/-- **A view after a detached node became a link of another.** The other must not be below
the node, or the node would be above itself. -/
theorem Forest.link {above : Node} {content : Content} (hf : v.Forest)
    (hp : v p = some above) (hn : v h = some node) (hd : node.parent = none)
    (hlinks : content.links.Perm (h :: above.content.links)) (hcycle : ¬v.Above h p)
    (hv : ∀ x, v' x = if x = h then some { node with parent := some p }
      else if x = p then some { above with content } else v x) : v'.Forest := by
  have hne : p ≠ h := fun he => hcycle (he ▸ Relation.ReflTransGen.refl)
  have hself : v' h = some { node with parent := some p } := by rw [hv, if_pos rfl]
  have howner : v' p = some { above with content } := by rw [hv, if_neg hne, if_pos rfl]
  have hother : ∀ x, x ≠ h → x ≠ p → v' x = v x := fun x hx hxp => by
    rw [hv, if_neg hx, if_neg hxp]
  have hparent : ∀ x q, v'.Parent x q ↔ (x = h ∧ q = p) ∨ v.Parent x q := fun x q => by
    by_cases hx : x = h
    · subst hx
      rw [parent_iff hself, parent_iff hn, hd]
      simp [eq_comm]
    · rw [or_iff_right fun hc => hx hc.1]
      by_cases hxp : x = p
      · subst hxp
        rw [parent_iff howner, parent_iff hp]
      · exact parent_congr (hother x hx hxp)
  have hlists : ∀ x q, v'.Lists q x ↔ (x = h ∧ q = p) ∨ v.Lists q x := fun x q => by
    by_cases hqp : q = p
    · subst hqp
      rw [lists_iff howner, lists_iff hp, hlinks.mem_iff, List.mem_cons]
      simp
    · rw [or_iff_right fun hc => hqp hc.2]
      by_cases hq : q = h
      · subst hq
        rw [lists_iff hself, lists_iff hn]
      · exact lists_congr (hother q hq hqp)
  have hnd : content.links.Nodup := by
    refine hlinks.nodup_iff.mpr (List.nodup_cons.mpr ⟨fun hh => ?_, hf.nodup_links p above hp⟩)
    exact hf.not_lists_detached hn hd ⟨above, hp, hh⟩
  -- The old ranks do not do: nothing says that the node was above its new parent.
  obtain ⟨rank, hlift, hrank⟩ := hf.exists_rank_link hn hd hcycle
  refine ⟨fun x q => ?_, hf.nodup_links_of_changed hn hnd hv, rank, fun x q hq => ?_⟩
  · rw [hparent, hlists, hf.parent_iff_lists]
  · rcases (hparent x q).mp hq with ⟨rfl, rfl⟩ | hq
    · exact hlift
    · exact hrank x q hq

/-! ### A link that becomes detached -/

/-- **A view after a link became detached.** -/
theorem Forest.unlink {above : Node} {content : Content} (hf : v.Forest)
    (hp : v p = some above) (hn : v h = some node)
    (hlinks : above.content.links.Perm (h :: content.links))
    (hv : ∀ x, v' x = if x = h then some { node with parent := none }
      else if x = p then some { above with content } else v x) : v'.Forest := by
  have hnd := hlinks.nodup_iff.mp (hf.nodup_links p above hp)
  have hlisted : v.Parent h p :=
    hf.parent_of_mem hp (hlinks.mem_iff.mpr List.mem_cons_self)
  have hne : p ≠ h := hf.owner_ne hlisted
  have hself : v' h = some { node with parent := none } := by rw [hv, if_pos rfl]
  have howner : v' p = some { above with content } := by rw [hv, if_neg hne, if_pos rfl]
  have hother : ∀ x, x ≠ h → x ≠ p → v' x = v x := fun x hx hxp => by
    rw [hv, if_neg hx, if_neg hxp]
  have hparent : ∀ x q, v'.Parent x q ↔ x ≠ h ∧ v.Parent x q := fun x q => by
    by_cases hx : x = h
    · subst hx
      rw [parent_iff hself]
      simp
    · rw [and_iff_right hx]
      by_cases hxp : x = p
      · subst hxp
        rw [parent_iff howner, parent_iff hp]
      · exact parent_congr (hother x hx hxp)
  have hlists : ∀ x q, v'.Lists q x ↔ x ≠ h ∧ v.Lists q x := fun x q => by
    by_cases hqp : q = p
    · subst hqp
      rw [lists_iff howner, lists_iff hp, hlinks.mem_iff, List.mem_cons]
      constructor
      · intro hx
        exact ⟨fun he => (List.nodup_cons.mp hnd).1 (he ▸ hx), Or.inr hx⟩
      · rintro ⟨hx, hxh | hx'⟩
        · exact absurd hxh hx
        · exact hx'
    · have hkeep : v'.Lists q x ↔ v.Lists q x := by
        by_cases hq : q = h
        · subst hq
          rw [lists_iff hself, lists_iff hn]
        · exact lists_congr (hother q hq hqp)
      -- Nobody but its parent lists the node.
      rw [hkeep, iff_and_self]
      rintro hl rfl
      exact hqp (Parent.unique ((hf.parent_iff_lists _ q).mpr hl) hlisted)
  -- Fewer nodes have a parent than before, so the old ranks still fall.
  obtain ⟨rank, hrank⟩ := hf.exists_rank
  refine ⟨fun x q => ?_, hf.nodup_links_of_changed hn (List.nodup_cons.mp hnd).2 hv, rank,
    fun x q hq => ?_⟩
  · rw [hparent, hlists, hf.parent_iff_lists]
  · exact hrank x q ((hparent x q).mp hq).2

/-! ### A link in the place of another -/

/-- **A view after a detached node took the place of a link**: the link becomes detached, and
then the node becomes a link. -/
theorem Forest.exchange {old new : Handle} {above oldNode newNode : Node} {content : Content}
    {front back : List Handle} (hf : v.Forest) (hp : v p = some above)
    (ho : v old = some oldNode) (hn : v new = some newNode) (hd : newNode.parent = none)
    (hlinks : above.content.links = front ++ old :: back)
    (hlinks' : content.links = front ++ new :: back) (hcycle : ¬v.Above new p)
    (hv : ∀ x, v' x = if x = new then some { newNode with parent := some p }
      else if x = old then some { oldNode with parent := none }
      else if x = p then some { above with content } else v x) : v'.Forest := by
  have hold : v.Parent old p := hf.parent_of_mem hp (by simp [hlinks])
  have hne : old ≠ new := fun he => not_parent_of_detached hn hd (he ▸ hold)
  have hnep : p ≠ new := fun he => hcycle (he ▸ Relation.ReflTransGen.refl)
  have hnep' : p ≠ old := hf.owner_ne hold
  -- What the node between lists in its two changes does not matter, only its links do.
  let between : View := fun x => if x = old then some { oldNode with parent := none }
    else if x = p then some { above with content := .buffer (front ++ back) } else v x
  have hbetween : between.Forest := hf.unlink hp ho (by
    rw [hlinks]
    exact List.perm_middle) fun _ => rfl
  have hp' : between p = some { above with content := .buffer (front ++ back) } := by
    simp [between, hnep']
  have hn' : between new = some newNode := by simp [between, hne.symm, hnep.symm, hn]
  have hparent : ∀ x q, between.Parent x q → v.Parent x q := by
    rintro x q ⟨node, hx, hq⟩
    simp only [between] at hx
    split at hx
    · rw [← Option.some.inj hx] at hq
      exact nomatch hq
    · split at hx
      · next he =>
        rw [← Option.some.inj hx] at hq
        exact he ▸ ⟨above, hp, hq⟩
      · exact ⟨node, hx, hq⟩
  have hcycle' : ¬between.Above new p := fun ha =>
    hcycle (Relation.ReflTransGen.mono hparent p new ha)
  refine hbetween.link hp' hn' hd (hlinks' ▸ List.perm_middle) hcycle' fun x => ?_
  rw [hv]
  by_cases hx : x = new
  · simp [hx]
  · by_cases hxp : x = p
    · subst hxp
      simp [hnep, hnep']
    · simp [hx, hxp, between]

/-! ### A subtree that goes away -/

/-- **A view after a detached node went away with all that is below it.** -/
theorem Forest.prune (hf : v.Forest) (hn : v h = some node) (hd : node.parent = none)
    (hgone : ∀ x, v.Above h x → v' x = none) (hkept : ∀ x, ¬v.Above h x → v' x = v x) :
    v'.Forest := by
  -- A node and its parent go away together or stay together.
  have hside : ∀ x q, v.Parent x q → (v.Above h x ↔ v.Above h q) := fun x q hq => by
    constructor
    · intro hx
      rcases Relation.ReflTransGen.cases_head hx with rfl | ⟨r, hr, ha⟩
      · exact absurd hq (not_parent_of_detached hn hd)
      · exact hr.unique hq ▸ ha
    · exact Relation.ReflTransGen.head hq
  have hparent : ∀ x q, v'.Parent x q ↔ ¬v.Above h x ∧ v.Parent x q := fun x q => by
    by_cases hx : v.Above h x
    · simp [Parent, hgone x hx, hx]
    · rw [and_iff_right hx]
      exact parent_congr (hkept x hx)
  have hlists : ∀ x q, v'.Lists q x ↔ ¬v.Above h q ∧ v.Lists q x := fun x q => by
    by_cases hq : v.Above h q
    · simp [Lists, hgone q hq, hq]
    · rw [and_iff_right hq]
      exact lists_congr (hkept q hq)
  obtain ⟨rank, hrank⟩ := hf.exists_rank
  refine ⟨fun x q => ?_, fun q node' hq => ?_, rank, fun x q hq => ?_⟩
  · rw [hparent, hlists, ← hf.parent_iff_lists]
    exact and_congr_left fun hq => not_congr (hside x q hq)
  · by_cases hqh : v.Above h q
    · rw [hgone q hqh] at hq
      exact nomatch hq
    · exact hf.nodup_links q node' (hkept q hqh ▸ hq)
  · exact hrank x q ((hparent x q).mp hq).2

/-! ### Depth -/

/-- **The depth of a node**: how many steps to the parent lead to a node without one. -/
inductive Depth (v : View) : Handle → Nat → Prop
  /-- A detached node is at depth zero. -/
  | detached {h : Handle} {node : Node} : v h = some node → node.parent = none → Depth v h 0
  /-- A link is one deeper than its owner. -/
  | owned {h p : Handle} {n : Nat} : v.Parent h p → Depth v p n → Depth v h (n + 1)

namespace Depth

variable {n m : Nat}

theorem exists_node (hd : v.Depth h n) : ∃ node, v h = some node := by
  cases hd with
  | detached hn _ => exact ⟨_, hn⟩
  | owned hp _ => exact ⟨_, hp.choose_spec.1⟩

/-- A node has one depth. -/
theorem unique (hn : v.Depth h n) (hm : v.Depth h m) : n = m := by
  induction hn generalizing m with
  | detached hv hd =>
    cases hm with
    | detached => rfl
    | owned hp _ => exact absurd hp (not_parent_of_detached hv hd)
  | owned hp _ ih =>
    cases hm with
    | detached hv hd => exact absurd hp (not_parent_of_detached hv hd)
    | owned hq hd => rw [ih (hp.unique hq ▸ hd)]

/-- **The nodes on the way up from a node** are all different, and one more than the
node is deep. -/
theorem exists_chain (hd : v.Depth h n) :
    ∃ chain : List Handle, chain.length = n + 1 ∧ chain.Nodup ∧
      ∀ x ∈ chain, ∃ m, m ≤ n ∧ v.Depth x m := by
  induction hd with
  | @detached h _ hn hp =>
    refine ⟨[h], rfl, by simp, fun x hx => ?_⟩
    rw [List.mem_singleton.mp hx]
    exact ⟨0, Nat.le_refl 0, .detached hn hp⟩
  | @owned h _ n hp hd ih =>
    obtain ⟨chain, hlen, hnd, hchain⟩ := ih
    refine ⟨h :: chain, by rw [List.length_cons, hlen], List.nodup_cons.mpr ⟨fun hh => ?_, hnd⟩,
      fun x hx => ?_⟩
    · obtain ⟨m, hm, hdm⟩ := hchain h hh
      have := hdm.unique (.owned hp hd)
      omega
    · rcases List.mem_cons.mp hx with rfl | hx
      · exact ⟨n + 1, Nat.le_refl _, .owned hp hd⟩
      · obtain ⟨m, hm, hdm⟩ := hchain x hx
        exact ⟨m, Nat.le_succ_of_le hm, hdm⟩

end Depth

/-- **Every node of a forest has a depth**, so going up from it ends. -/
theorem Forest.exists_depth (hf : v.Forest) (hn : v h = some node) : ∃ n, v.Depth h n := by
  obtain ⟨rank, hrank⟩ := hf.exists_rank
  -- The depth is found by induction on the rank, which falls on the way up.
  induction hr : rank h using Nat.strongRecOn generalizing h node with
  | ind r ih =>
    cases hp : node.parent with
    | none => exact ⟨0, .detached hn hp⟩
    | some p =>
      have hstep : v.Parent h p := ⟨node, hn, hp⟩
      obtain ⟨above, habove, -⟩ := (hf.parent_iff_lists h p).mp hstep
      obtain ⟨n, hd⟩ := ih (rank p) (hr ▸ hrank h p hstep) habove rfl
      exact ⟨n + 1, .owned hstep hd⟩

end View

end AcpiTables
