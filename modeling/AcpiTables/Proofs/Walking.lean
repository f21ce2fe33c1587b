import AcpiTables.Proofs.Deleting
import AcpiTables.Proofs.Tree.Subtree
import Mathlib.Data.List.Perm.Basic

/-!
# Walks need no bound

The walks of `AcpiTables.Tree` are cut off after as many steps as there are nodes. That bound is
there so that they are functions, and it would hide a walk that goes round and round. So both are
followed once more, with a clock that is no part of the walk: where the clock runs down there is no
result, and a result is one that the walk comes to on its own.

Neither walk remembers where it was. The one thing to know is that ownership is a forest: nothing
is visited twice on the way up, as no node is above its owner
(`AcpiTables.Tree.Climbs.step`), or on the way down, as two links of a node have nothing below them
in common (`AcpiTables.Tree.Sound.nodup_preorder`). What is visited are nodes, and so there are no
more visits than nodes.

The way down looks at every link as if it could be missing or dead, and writes nothing for it then.
What it meets is put down together with what it writes (`AcpiTables.Tree.Trace`), and these are
nodes only.

| walk | what it comes to |
|---|---|
| up, in search of a node | `AcpiTables.Tree.Ordered.climbEnds` |
| down, writing a node | `AcpiTables.Tree.Sound.traceEnds` |
| both, in the trees that requests make | `AcpiTables.Assembly.walksEnd_run` |
-/

namespace AcpiTables

namespace Tree

variable {P : Kind → Prop} {t : Tree} {h p x sought : Handle} {node : Node} {content : Content}
  {visited : List Handle} {found : Bool} {bound : Nat}

/-! ### Up -/

/-- **Looks for a node on the way up**: visits a handle, stops if it is the one that is sought, and
goes on with the owner otherwise. The handles that were visited are listed, and whether the last one
was the one sought. There is no result if `bound` visits do not suffice. -/
def climbWithin (t : Tree) (sought : Handle) : Nat → Option Handle → Option (List Handle × Bool)
  | _, none => some ([], false)
  | 0, some _ => none
  | bound + 1, some h =>
    if h = sought then some ([h], true)
    else do
      let (visited, found) ← climbWithin t sought bound ((t.find? h).bind Node.parent)
      return (h :: visited, found)

/-- **A search that ends on its own**, after its last visit. -/
structure Climbs (t : Tree) (sought h : Handle) (visited : List Handle) (found : Bool) : Prop where
  /-- The clock only has to allow for the visits. -/
  ends : ∀ bound, visited.length ≤ bound →
    t.climbWithin sought bound (some h) = some (visited, found)
  /-- What is sought is found if it is there. -/
  found_iff : found = true ↔ View.Above t.find? sought h
  /-- What is visited is above the handle. -/
  above : ∀ x ∈ visited, View.Above t.find? x h
  /-- Nothing is visited twice. -/
  nodup : visited.Nodup

namespace Climbs

/-- The search is over where it begins. -/
theorem here (t : Tree) (h : Handle) : t.Climbs h h [h] true where
  ends bound hb := by
    cases bound with
    | zero => exact nomatch hb
    | succ bound => rw [climbWithin, if_pos rfl]
  found_iff := iff_of_true rfl Relation.ReflTransGen.refl
  above x hx := List.mem_singleton.mp hx ▸ Relation.ReflTransGen.refl
  nodup := List.nodup_singleton h

/-- No way leads up from a detached node. -/
theorem detached (hn : t.find? h = some node) (hd : node.parent = none) (hne : h ≠ sought) :
    t.Climbs sought h [h] false where
  ends bound hb := by
    cases bound with
    | zero => exact nomatch hb
    | succ bound =>
      rw [climbWithin, if_neg hne, hn, Option.bind_some, hd]
      cases bound <;> rfl
  found_iff := iff_of_false Bool.false_ne_true fun ha =>
    hne (View.eq_of_above_detached hn hd ha).symm
  above x hx := List.mem_singleton.mp hx ▸ Relation.ReflTransGen.refl
  nodup := List.nodup_singleton h

/-- **The search goes on with the owner**, from which the way does not lead back. -/
theorem step (hf : View.Forest t.find?) (hp : View.Parent t.find? h p) (hne : h ≠ sought)
    (hc : t.Climbs sought p visited found) : t.Climbs sought h (h :: visited) found where
  ends bound hb := by
    cases bound with
    | zero => exact nomatch hb
    | succ bound =>
      obtain ⟨node, hn, hpar⟩ := hp
      have hrest := hc.ends bound (Nat.le_of_succ_le_succ hb)
      rw [climbWithin, if_neg hne, hn, Option.bind_some, hpar, hrest]
      rfl
  found_iff := by
    rw [hc.found_iff]
    constructor
    · exact Relation.ReflTransGen.head hp
    · intro ha
      rcases Relation.ReflTransGen.cases_head ha with he | ⟨q, hq, ha⟩
      · exact absurd he hne
      · exact hp.unique hq ▸ ha
  above x hx := by
    rcases List.mem_cons.mp hx with rfl | hx
    · exact Relation.ReflTransGen.refl
    · exact Relation.ReflTransGen.head hp (hc.above x hx)
  nodup := List.nodup_cons.mpr ⟨fun hh => hf.not_above_owner hp (hc.above h hh), hc.nodup⟩

end Climbs

/-- **Every search ends.** -/
theorem Ordered.exists_climbs (ho : t.Ordered) (sought : Handle) (hn : t.find? h = some node) :
    ∃ visited found, t.Climbs sought h visited found := by
  obtain ⟨n, hd⟩ := ho.forest.exists_depth hn
  clear hn
  -- The way up from a node is as long as the node is deep, if it is not left before.
  induction hd with
  | @detached h node hn hpar =>
    by_cases he : h = sought
    · exact ⟨[h], true, he ▸ Climbs.here t h⟩
    · exact ⟨[h], false, Climbs.detached hn hpar he⟩
  | @owned h p n hp _ ih =>
    by_cases he : h = sought
    · exact ⟨[h], true, he ▸ Climbs.here t h⟩
    · obtain ⟨visited, found, hc⟩ := ih
      exact ⟨h :: visited, found, hc.step ho.forest hp he⟩

/-- What is above a node is a node. -/
theorem Ordered.contains_of_above (ho : t.Ordered) (hn : t.find? h = some node)
    (ha : View.Above t.find? x h) : t.contains x = true := by
  rcases Relation.ReflTransGen.cases_tail ha with rfl | ⟨y, -, hy⟩
  · exact contains_iff.mpr ⟨node, hn⟩
  · obtain ⟨above, hx, -⟩ := (ho.forest.parent_iff_lists y x).mp hy
    exact contains_iff.mpr ⟨above, hx⟩

/-- **A search for a node on the way up from another.** -/
structure ClimbEnds (t : Tree) (sought h : Handle) : Prop where
  /-- It makes no more visits than there are nodes, none of them twice, and comes to the answer with
  every clock that allows for these. -/
  ends : ∃ visited, visited.length ≤ t.live ∧ visited.Nodup ∧ ∀ bound, visited.length ≤ bound →
    t.climbWithin sought bound (some h) = some (visited, t.isAbove sought h)
  /-- The answer is whether the owners lead there, -/
  isAbove_iff : t.isAbove sought h = true ↔
    sought = h ∨ Relation.TransGen (View.Parent t.find?) h sought
  /-- and also whether the links lead back. -/
  isAbove_iff_lists : t.isAbove sought h = true ↔
    Relation.ReflTransGen (View.Lists t.find?) sought h

theorem Ordered.climbEnds (ho : t.Ordered) (sought : Handle) (hn : t.find? h = some node) :
    t.ClimbEnds sought h where
  ends := by
    obtain ⟨visited, found, hc⟩ := ho.exists_climbs sought hn
    obtain rfl : found = t.isAbove sought h :=
      Bool.eq_iff_iff.mpr (hc.found_iff.trans ho.isAbove_iff.symm)
    have hlive : visited.length ≤ t.live := ho.accounts.length_le_live hc.nodup fun x hx =>
      ho.contains_of_above hn (hc.above x hx)
    exact ⟨visited, hlive, hc.nodup, hc.ends⟩
  isAbove_iff := ho.isAbove_iff.trans Relation.reflTransGen_iff_eq_or_transGen
  isAbove_iff_lists := by rw [ho.isAbove_iff, reflTransGen_lists_iff ho.forest]

/-! ### Down -/

/-- What is met on the way down. -/
inductive Encounter where
  /-- A node. -/
  | node (h : Handle)
  /-- A handle that denotes nothing. -/
  | dead (h : Handle)
  /-- An object without the fixed argument at a place. -/
  | missing (h : Handle) (place : Nat)
deriving DecidableEq, Repr

/-- **What a part of the walk comes to**: what is met, in order, and the bytes that are written. -/
structure Trace where
  /-- What is met. -/
  met : List Encounter
  /-- The bytes. -/
  bytes : Bytes
deriving DecidableEq, Repr

/-- Writes the fixed argument of an object at a place, and nothing if there is none. -/
def traceArgument (trace : Handle → Option Trace) (h : Handle) (content : Content) (place : Nat) :
    Option Trace :=
  match content.fixedArguments[place]? with
  | some x => trace x
  | none => some ⟨[.missing h place], []⟩

/-- Writes what a node owns, and puts it together. -/
def traceContent (trace : Handle → Option Trace) (h : Handle) (content : Content) :
    Option Trace :=
  match content with
  | .data _ bytes => some ⟨[], bytes⟩
  | .name _ _ => do
    let label ← traceArgument trace h content 0
    let value ← traceArgument trace h content 1
    return ⟨label.met ++ value.met, Aml.declaration label.bytes value.bytes⟩
  | .buffer items => do
    let items ← items.mapM trace
    return ⟨items.flatMap Trace.met, Aml.buffer (items.flatMap Trace.bytes)⟩
  | .region kind _ members => do
    let label ← traceArgument trace h content 0
    let members ← members.mapM trace
    return ⟨label.met ++ members.flatMap Trace.met,
      Aml.regionOf kind label.bytes (members.flatMap Trace.bytes)⟩

/-- **Writes a node and what is below it.** There is no result if more than `bound` levels are
needed. -/
def traceWithin (t : Tree) : Nat → Handle → Option Trace
  | 0, _ => none
  | bound + 1, h =>
    match t.find? h with
    | none => some ⟨[.dead h], []⟩
    | some node => do
      let below ← traceContent (traceWithin t bound) h node.content
      return ⟨.node h :: below.met, below.bytes⟩

/-- If only nodes are met below the links, then only nodes are met. -/
theorem traceContent_eq {trace : Handle → Option Trace} {walk : Handle → List Handle}
    {encode : Handle → Bytes}
    (hlinks : ∀ x ∈ content.links, trace x = some ⟨(walk x).map .node, encode x⟩) :
    traceContent trace h content =
      some ⟨(content.links.flatMap walk).map .node, encodeContent encode content⟩ := by
  have hall : ∀ hs : List Handle, (∀ x ∈ hs, trace x = some ⟨(walk x).map .node, encode x⟩) →
      hs.mapM trace = some (hs.map fun x => ⟨(walk x).map .node, encode x⟩) := fun hs hhs =>
    (mapM_congr_of_mem hhs).trans List.mapM_pure
  rcases content with ⟨type, bytes⟩ | ⟨label, value⟩ | items | ⟨kind, label, members⟩
  · rfl
  · have hlabel : traceArgument trace h (.name label value) 0 = _ := hlinks label (by simp)
    have hvalue : traceArgument trace h (.name label value) 1 = _ := hlinks value (by simp)
    simp [traceContent, hlabel, hvalue, encodeContent]
  · have hitems := hall items hlinks
    simp [traceContent, hitems, encodeContent, List.flatMap_map, List.map_flatMap]
  · have hlabel : traceArgument trace h (.region kind label members) 0 = _ :=
      hlinks label (by simp)
    have hmembers := hall members fun x hx => hlinks x (List.mem_cons_of_mem label hx)
    simp [traceContent, hlabel, hmembers, encodeContent, List.flatMap_map, List.map_flatMap]

/-- **Writing a node ends**, and meets the nodes of the subtree in preorder. -/
theorem Ordered.traceWithin_eq (ho : t.Ordered) (hn : t.find? h = some node)
    (hb : t.live ≤ bound) :
    t.traceWithin bound h = some ⟨(t.preorder h).map .node, t.bytesOf h⟩ := by
  refine ho.induction_levels
    (P := fun m h => t.traceWithin m h = some ⟨(t.preorder h).map .node, t.bytesOf h⟩)
    (fun h node m hn hlinks => ?_) hn hb
  simp only [traceWithin, hn, traceContent_eq hlinks, Option.bind_eq_bind, Option.bind_some,
    Option.pure_def, ho.preorder_eq hn, ho.bytesOf_eq hn, List.map_cons]

/-- Both walks through a subtree find the same nodes. -/
theorem Ordered.preorder_perm_postorder (ho : t.Ordered) (hn : t.find? h = some node) :
    (t.preorder h).Perm (t.postorder h) := by
  refine ho.induction_links (P := fun h => (t.preorder h).Perm (t.postorder h))
    (fun h node hn ih => ?_) hn
  rw [ho.preorder_eq hn, ho.postorder_eq hn]
  exact ((List.Perm.flatMap_left _ ih).cons h).trans (List.perm_append_singleton h _).symm

theorem Sound.nodup_preorder (hs : t.Sound P) (hn : t.find? h = some node) :
    (t.preorder h).Nodup :=
  (hs.preorder_perm_postorder hn).nodup_iff.mpr (hs.nodup_postorder hn)

/-- **Writing a node.** -/
structure TraceEnds (t : Tree) (h : Handle) : Prop where
  /-- It ends with every clock that allows for as many levels as there are nodes, and has met
  nothing but the nodes of the subtree. -/
  ends : ∃ bytes, t.encode h = .ok bytes ∧ ∀ bound, t.live ≤ bound →
    t.traceWithin bound h = some ⟨(t.preorder h).map .node, bytes⟩
  /-- These are the nodes that links lead to, -/
  mem_preorder_iff : ∀ x, x ∈ t.preorder h ↔ Relation.ReflTransGen (View.Lists t.find?) h x
  /-- and each of them is met once. -/
  nodup : (t.preorder h).Nodup

theorem Sound.traceEnds (hs : t.Sound P) (hn : t.find? h = some node) : t.TraceEnds h where
  ends := ⟨t.bytesOf h, encode_eq hn, fun _ hb => hs.traceWithin_eq hn hb⟩
  mem_preorder_iff x := by
    rw [(hs.preorder_perm_postorder hn).mem_iff, hs.mem_postorder_iff hn,
      reflTransGen_lists_iff hs.forest]
  nodup := hs.nodup_preorder hn

/-- **The walks from all nodes end.** -/
structure WalksEnd (t : Tree) : Prop where
  /-- The way up from a node, whatever is sought. -/
  climb : ∀ sought h, t.contains h = true → t.ClimbEnds sought h
  /-- The way down from a node. -/
  trace : ∀ h, t.contains h = true → t.TraceEnds h

end Tree

namespace Assembly

/-- **In every tree that requests make, the walks end.** -/
theorem walksEnd_run (attempts : List (Attempt Request)) (hfit : (run attempts).Fits) :
    (run attempts).WalksEnd where
  climb sought h hh := by
    obtain ⟨node, hn⟩ := Tree.contains_iff.mp hh
    exact (sound_run_true hfit).climbEnds sought hn
  trace h hh := by
    obtain ⟨node, hn⟩ := Tree.contains_iff.mp hh
    exact (sound_run_true hfit).traceEnds hn

/-- A device with a list of resources and the scope that held the device before. An interrupt was
detached from the list, and putting the device back into the scope was refused. -/
theorem walksEnd_run_device : (run (amply [.declareRegion .scope "\\_SB" none,
    .declareRegion .device "COM1" (some ⟨1, 0⟩), .declareTemplate "_CRS" (some ⟨3, 0⟩),
    .addResourceInterrupt ⟨7, 0⟩ ⟨.consumer, .edge, .high, .shared⟩ [3, 4],
    .edit (.detach ⟨8, 0⟩), .edit (.detach ⟨3, 0⟩), .edit (.attach ⟨3, 0⟩ ⟨1, 0⟩),
    .edit (.attach ⟨1, 0⟩ ⟨3, 0⟩)])).WalksEnd :=
  walksEnd_run _ (by decide)

end Assembly

end AcpiTables
