import AcpiTables.Proofs.Declarations
import AcpiTables.Proofs.Tree.Edited
import AcpiTables.Proofs.Tree.Stands

/-!
# The shape of nodes

What a node owns is prescribed by its kind: a `Name` has a label and a value and no children, a
buffer holds descriptors only, a region has a label and holds objects, and data owns nothing
(`AcpiTables.Tree.WellShaped`). In every tree that requests make, all nodes are so
(`AcpiTables.Assembly.keepsShape_run`).

Two things follow, and each is stated on its own. Writing a node never meets a handle that denotes
nothing: a writer that stops at such a handle, `AcpiTables.Tree.write`, never stops. And the bytes
of data are what they were when the node was made. The one thing to know for this is that no single
request gives another kind to a node (`AcpiTables.Assembly.Request.steady`): it may delete nodes,
and it may make others, but it never does both under the same handle.
-/

namespace AcpiTables

namespace Tree

variable {t t' : Tree} {h p x : Handle} {node : Node} {content : Content}

/-! ### Shapes -/

/-- A data node of a given type. -/
def IsData (t : Tree) (type : DataType) (h : Handle) : Prop := ∃ bytes, t.HasData type bytes h

/-- What the bytes of data have to be. A descriptor is as long as it declares, and an End Tag has
one byte behind its tag. -/
def ProperBytes (type : DataType) (bytes : Bytes) : Prop :=
  match type with
  | .resourceData => ∃ header, Resource.checkDescriptor bytes = .ok header ∧
      header.totalSize = bytes.length ∧ (header.isEndTagLike = true → header.bodySize = 1)
  | _ => bytes ≠ []

/-- **The shape that its kind prescribes** for a node. -/
structure WellShaped (t : Tree) (content : Content) : Prop where
  /-- A `Name` has a label and a value, which is a buffer or encoded, and no children. -/
  name : content.opcode = some .name → ∃ label value, content.fixedArguments = [label, value] ∧
    content.children = [] ∧ t.IsData .nameString label ∧
      (t.hasOpcode value .buffer = true ∨ t.IsData .raw value)
  /-- A buffer has no fixed arguments, and its children are descriptors. -/
  buffer : content.opcode = some .buffer →
    content.fixedArguments = [] ∧ ∀ x ∈ content.children, t.IsData .resourceData x
  /-- A region has a label, and its children are objects. -/
  region : ∀ kind, content.opcode = some (.region kind) → ∃ label,
    content.fixedArguments = [label] ∧ t.IsData .nameString label ∧
      ∀ x ∈ content.children, ∃ opcode, t.hasOpcode x opcode = true
  /-- Data owns nothing, and its bytes are proper. -/
  data : ∀ type bytes, content = .data type bytes →
    content.fixedArguments = [] ∧ content.children = [] ∧ ProperBytes type bytes

/-- Data that was asked for. -/
def IsProper : Kind → Prop
  | .data type bytes => requireData type bytes = .ok ()
  | .object _ => True

theorem properBytes_of_requireData {type : DataType} {bytes : Bytes}
    (hd : requireData type bytes = .ok ()) : ProperBytes type bytes := by
  rcases type with _ | _ | _
  · rintro rfl
    exact nomatch hd
  · rintro rfl
    exact nomatch hd
  · obtain ⟨header, hheader, -⟩ := bind_eq_ok.mp hd
    obtain ⟨-, hsize, htag⟩ := Resource.checkDescriptor_eq_ok_iff.mp hheader
    refine ⟨header, hheader, hsize, fun hlike => ?_⟩
    have hend := htag hlike
    rw [Resource.Header.isEndTag, Bool.and_eq_true, beq_iff_eq] at hend
    exact hend.2

theorem kind?_eq_data_iff {type : DataType} {bytes : Bytes} :
    t.kind? h = some (.data type bytes) ↔ t.HasData type bytes h := by
  rw [kind?, Option.map_eq_some_iff]
  constructor
  · rintro ⟨⟨content, above⟩, hn, hkind⟩
    rcases content with ⟨type', bytes'⟩ | _ | _ | _
    · obtain ⟨rfl, rfl⟩ := Kind.data.inj hkind
      exact ⟨above, hn⟩
    all_goals cases hkind
  · rintro ⟨above, hn⟩
    exact ⟨_, hn, rfl⟩

theorem kind?_eq_object_iff {opcode : Opcode} :
    t.kind? h = some (.object opcode) ↔ t.hasOpcode h opcode = true := by
  rw [kind?, Option.map_eq_some_iff, hasOpcode_iff]
  refine exists_congr fun node => and_congr_right fun _ => ?_
  rcases node.content with _ | _ | _ | _ <;> simp [Content.kind, Content.opcode]

/-- What fits a place is there, and of a kind that fits. -/
theorem exists_kind?_of_any {p : Kind → Bool} (hk : (t.kind? h).any p = true) :
    ∃ k, t.kind? h = some k ∧ p k = true := by
  obtain ⟨node, hn, hp⟩ := any_kind?_iff.mp hk
  exact ⟨_, kind?_eq hn, hp⟩

theorem isData_of_isLabel (hk : (t.kind? h).any Kind.isLabel = true) : t.IsData .nameString h := by
  obtain ⟨k, hk, hl⟩ := exists_kind?_of_any hk
  obtain ⟨bytes, rfl⟩ := Kind.isLabel_iff.mp hl
  exact ⟨bytes, kind?_eq_data_iff.mp hk⟩

theorem isData_of_isDescriptor (hk : (t.kind? h).any Kind.isDescriptor = true) :
    t.IsData .resourceData h := by
  obtain ⟨k, hk, hd⟩ := exists_kind?_of_any hk
  obtain ⟨bytes, rfl⟩ := Kind.isDescriptor_iff.mp hd
  exact ⟨bytes, kind?_eq_data_iff.mp hk⟩

theorem buffer_or_raw_of_isValue (hk : (t.kind? h).any Kind.isValue = true) :
    t.hasOpcode h .buffer = true ∨ t.IsData .raw h := by
  obtain ⟨k, hk, hv⟩ := exists_kind?_of_any hk
  rcases Kind.isValue_iff.mp hv with rfl | ⟨bytes, rfl⟩
  · exact Or.inl (kind?_eq_object_iff.mp hk)
  · exact Or.inr ⟨bytes, kind?_eq_data_iff.mp hk⟩

theorem exists_opcode_of_isObject (hk : (t.kind? h).any Kind.isObject = true) :
    ∃ opcode, t.hasOpcode h opcode = true := by
  obtain ⟨k, hk, ho⟩ := exists_kind?_of_any hk
  obtain ⟨opcode, rfl⟩ := Kind.isObject_iff.mp ho
  exact ⟨opcode, kind?_eq_object_iff.mp hk⟩

/-- **In a sound tree of proper data, every node has its shape.** -/
theorem Sound.wellShaped (hs : t.Sound IsProper) (hn : t.find? h = some node) :
    t.WellShaped node.content := by
  have hshape := hs.shaped h node hn
  have hproper := hs.allowed h node hn
  rcases hc : node.content with ⟨type, bytes⟩ | ⟨label, value⟩ | items | ⟨kind, label, members⟩
  · rw [hc] at hproper
    refine ⟨nofun, nofun, nofun, ?_⟩
    rintro _ _ ⟨⟩
    exact ⟨rfl, rfl, properBytes_of_requireData hproper⟩
  · rw [hc] at hshape
    refine ⟨fun _ => ⟨label, value, rfl, rfl, ?_, ?_⟩, nofun, nofun, nofun⟩
    · exact isData_of_isLabel hshape.1
    · exact buffer_or_raw_of_isValue hshape.2
  · rw [hc] at hshape
    refine ⟨nofun, fun _ => ⟨rfl, fun x hx => ?_⟩, nofun, nofun⟩
    exact isData_of_isDescriptor (hshape.1 x hx)
  · rw [hc] at hshape
    refine ⟨nofun, nofun, fun _ _ => ⟨label, rfl, ?_, fun x hx => ?_⟩, nofun⟩
    · exact isData_of_isLabel hshape.1
    · exact exists_opcode_of_isObject (hshape.2 x hx)

/-! ### Writing without gaps -/

/-- The bytes of a node from what is written for its links. -/
def writeContent (write : Handle → Except Error Bytes) : Content → Except Error Bytes
  | .data _ bytes => .ok bytes
  | .name label value => do return Aml.declaration (← write label) (← write value)
  | .buffer items => do return Aml.buffer (← items.mapM write).flatten
  | .region kind label members => do
    return Aml.regionOf kind (← write label) (← members.mapM write).flatten

/-- Writes a node and its subtree, at most `bound` levels deep, and stops at a handle that denotes
nothing. -/
def writeWithin (t : Tree) : Nat → Handle → Except Error Bytes
  | 0, h => .error (.deadNode h)
  | bound + 1, h => do writeContent (writeWithin t bound) (← t.content h)

/-- **Writes a node and its subtree**, and stops at a handle that denotes nothing. -/
def write (t : Tree) (h : Handle) : Except Error Bytes := t.writeWithin t.live h

theorem mapM_eq_ok {α β : Type} {f : α → Except Error β} {g : α → β} {xs : List α}
    (hfg : ∀ x ∈ xs, f x = .ok (g x)) : xs.mapM f = .ok (xs.map g) := by
  induction xs with
  | nil => rfl
  | cons x xs ih =>
    rw [List.mapM_cons, hfg x List.mem_cons_self, ih fun y hy => hfg y (List.mem_cons_of_mem x hy)]
    rfl

theorem writeContent_eq {write : Handle → Except Error Bytes} {encode : Handle → Bytes}
    (hlinks : ∀ x ∈ content.links, write x = .ok (encode x)) :
    writeContent write content = .ok (encodeContent encode content) := by
  rcases content with ⟨type, bytes⟩ | ⟨label, value⟩ | items | ⟨kind, label, members⟩
  · rfl
  · rw [writeContent, hlinks label (by simp), hlinks value (by simp)]
    rfl
  · have hitems : items.mapM write = .ok (items.map encode) := mapM_eq_ok hlinks
    rw [writeContent, hitems]
    rfl
  · have hmembers : members.mapM write = .ok (members.map encode) :=
      mapM_eq_ok fun x hx => hlinks x (List.mem_cons_of_mem label hx)
    rw [writeContent, hlinks label (by simp), hmembers]
    rfl

/-- **Writing a node never stops**, and what is written are the bytes of the node. -/
theorem Ordered.write_eq (ho : t.Ordered) (hn : t.find? h = some node) :
    t.write h = t.encode h := by
  rw [Tree.encode_eq hn]
  refine ho.induction_levels (P := fun m h => t.writeWithin m h = .ok (t.encodeWithin m h))
    (fun h node m hn hlinks => ?_) hn (Nat.le_refl t.live)
  have hcontent : t.content h = .ok node.content := content_eq_ok_iff.mpr ⟨node, hn, rfl⟩
  rw [writeWithin, hcontent, encodeWithin, hn]
  exact writeContent_eq hlinks

/-! ### What a node stays -/

/-- **No node became another one**: what a handle denotes is gone, or of the kind that it was. -/
def Steady (t t' : Tree) : Prop :=
  ∀ x k, t.kind? x = some k → t'.kind? x = none ∨ t'.kind? x = some k

theorem Steady.refl (t : Tree) : t.Steady t := fun _ _ hk => Or.inr hk

/-- What is still there is of the kind that it was. -/
theorem Steady.kind?_eq (hsteady : t.Steady t') {k : Kind} (hk : t.kind? h = some k)
    (hn : t'.find? h = some node) : t'.kind? h = some k := by
  rcases hsteady h k hk with hnone | hsame
  · exact nomatch hnone.symm.trans (Tree.kind?_eq hn)
  · exact hsame

theorem steady_of_kind?_eq (hk : ∀ x, t'.kind? x = t.kind? x) : t.Steady t' := fun x _ hx =>
  Or.inr ((hk x).trans hx)

theorem SameNodes.steady (hsame : t.SameNodes t') : t.Steady t' :=
  steady_of_kind?_eq fun x => by rw [kind?, kind?, hsame]

theorem Grown.steady {ns : List Handle} (hg : Grown t ns t') : t.Steady t' := fun x k hk => by
  obtain ⟨node, hx, rfl⟩ := Option.map_eq_some_iff.mp hk
  exact Or.inr (kind?_eq (hg.find?_old hx))

theorem steady_released (t : Tree) (hs : List Handle) :
    t.Steady (hs.foldr (fun h t => t.release h) t) := by
  intro x k hk
  rw [kind?, find?_foldr_release]
  by_cases hx : x ∈ hs
  · exact Or.inl (by rw [if_pos hx]; rfl)
  · exact Or.inr (by rwa [if_neg hx])

theorem steady_delete (h : Handle) (t : Tree) : t.Steady (after (delete h) t) := by
  rcases delete_cases h t with ⟨e, herr⟩ | ⟨node, hn, hd, hok⟩
  · rw [after_error herr]
    exact Steady.refl t
  · rw [after_ok hok]
    exact steady_released t _

/-- **No edit makes a node another one.** -/
theorem Edited.steady {r : Request} (he : t.Edited r t') (ho : t.Ordered) : t.Steady t' := by
  cases he with
  | failed => exact Steady.refl t
  | data hg => exact hg.steady
  | object hg => exact hg.steady
  | @named name value label h bytes content t' hv hm =>
    intro x k hk
    obtain ⟨node, hx, rfl⟩ := Option.map_eq_some_iff.mp hk
    by_cases he : x = value
    · subst he
      obtain rfl := Option.some.inj (hv.symm.trans hx)
      have hkind := kind?_eq hm.found_value
      exact Or.inr hkind
    · exact Or.inr (kind?_eq (hm.find?_old he hx))
  | attached ha => exact steady_of_kind?_eq ha.kind?_attached
  | appended ha => exact steady_of_kind?_eq ha.kind?_attached
  | @detached p h above node hp hn hpar =>
    have hne : p ≠ h := ho.forest.owner_ne ⟨node, hn, hpar⟩
    exact steady_of_kind?_eq fun x =>
      Sound.kind?_relink hp hn hne (Content.kind_mapChildren _ _) none x
  | @exchanged p old new position above oldNode newNode hp hold hnew hpar hd hna =>
    obtain ⟨hpo, hpn, hno⟩ := Sound.exchanged_ne ho hold hnew hpar hd hna
    exact steady_of_kind?_eq fun x => Sound.kind?_exchanged hp hold hnew hpo hpn hno position x
  | deleted => exact steady_released t _

end Tree

namespace Assembly

variable {w : Workbench} {h : Handle}

/-! ### Requests at a workbench -/

/-- Discarding a node is deleting it, as far as the tree is concerned. -/
theorem tree_after_discard (h : Handle) (w : Workbench) :
    (after (discard h) w).tree = after (Tree.delete h) w.tree := by
  rw [after, after]
  cases hr : Tree.delete h w.tree with
  | ok u t => rw [discard_ok hr]
  | error e t =>
    have hrun : discard h w = _ := tryCatch_error (onTree_error hr)
    rw [hrun]
    rfl

/-- A request that changes nothing when it fails, and a node that is discarded then. -/
theorem steady_orDiscard {α : Type} {m : AssemblyM α}
    (hm : (∃ e, m w = .error e w) ∨ ∃ a w', m w = .ok a w' ∧ w.tree.Steady w'.tree) :
    w.tree.Steady (after (orDiscard h m) w).tree := by
  rcases hm with ⟨e, hr⟩ | ⟨a, w', hr, hsteady⟩
  · have hrun : orDiscard h m w = (discard h >>= fun _ => throw e : AssemblyM α) w :=
      tryCatch_error hr
    have hafter : after (orDiscard h m) w = after (discard h) w := by
      rw [after, hrun]
      cases hd : discard h w with
      | ok u w' => rw [bind_ok hd, after_ok hd]; rfl
      | error e' w' => rw [bind_error hd, after_error hd]
    rw [hafter, tree_after_discard]
    exact Tree.steady_delete h w.tree
  · have hrun : orDiscard h m w = .ok a w' := tryCatch_ok hr
    rwa [after_ok hrun]

theorem steady_linkDescriptor (descriptor : Handle) (name : Option Handle) (w : Workbench) :
    w.tree.Steady (after (linkDescriptor descriptor name) w).tree := by
  rcases name with _ | name
  · exact Tree.Steady.refl w.tree
  · refine steady_orDiscard ?_
    cases hb : templateBuffer w.tree name with
    | error e => exact Or.inl ⟨e, bind_error (ask_error hb)⟩
    | ok buffer =>
      rcases Tree.appendDescriptor_cases buffer descriptor w.tree with
        ⟨e, herr⟩ | ⟨above, node, items, ha, -, hok⟩
      · exact Or.inl ⟨e, (bind_ok (ask_ok hb)).trans (onTree_error herr)⟩
      · refine Or.inr ⟨(), _, (bind_ok (ask_ok hb)).trans (onTree_ok hok), ?_⟩
        exact Tree.steady_of_kind?_eq ha.kind?_attached

/-- **No request makes a node another one.** -/
theorem Request.steady [Memory] (r : Request) (hs : w.tree.Sound fun _ => True)
    (hfit : (r.apply w).tree.Fits) : w.tree.Steady (r.apply w).tree := by
  by_cases hr : r.isDeclaration = true
  · rw [r.apply_eq_after] at hfit ⊢
    have hend := r.ends hr hs hfit
    rw [after]
    cases hrun : r.perform w with
    | ok a w' =>
      rw [hrun] at hend
      exact fun x k hk => Or.inr (hend.kind?_eq x k hk)
    | error e w' =>
      rw [hrun] at hend
      exact hend.same.steady
  · cases r with
    | edit request =>
      rw [Request.apply] at hfit ⊢
      rcases request.apply_cases w.tree with heq | hleft
      · rw [heq] at hfit ⊢
        exact (request.edited hs.accounts hfit).steady hs.toOrdered
      · exact Tree.SameNodes.steady (hleft.find?_eq hs.accounts hfit)
    | linkDescriptor descriptor name => exact steady_linkDescriptor descriptor name w
    | _ => exact absurd rfl hr

/-- **A node stays of its kind** as long as it is there. -/
theorem kind?_run_append {attempts more : List (Attempt Request)} {k : Kind}
    (hk : (run attempts).kind? h = some k) (hfit : (run (attempts ++ more)).Fits)
    (hlive : ∀ front back, more = front ++ back → (run (attempts ++ front)).contains h = true) :
    (run (attempts ++ more)).kind? h = some k := by
  induction more generalizing attempts with
  | nil => rwa [List.append_nil]
  | cons a more ih =>
    have hshift : ∀ front, attempts ++ a :: front = attempts ++ [a] ++ front := fun front => by
      rw [List.append_assoc, List.singleton_append]
    rw [hshift] at hfit ⊢
    have hfit' : (run (attempts ++ [a])).Fits := (grows_run_append _ more).fits hfit
    refine ih ?_ hfit fun front back he => ?_
    · have hstep : run (attempts ++ [a]) = (Request.attempt (bench attempts) a).tree :=
        run_append _ [a]
      have hs : (run attempts).Sound fun _ => True :=
        sound_run_true ((grows_run_append attempts [a]).fits hfit')
      obtain ⟨node, hn⟩ := Tree.contains_iff.mp (hlive [a] more rfl)
      rw [hstep] at hfit' hn ⊢
      exact (@Request.steady (bench attempts) a.memory a.request hs hfit').kind?_eq hk hn
    · rw [← hshift]
      exact hlive (a :: front) back (by rw [he, List.cons_append])

/-! ### Shapes of the trees that requests make -/

theorem criterion_isProper : Criterion Tree.IsProper where
  object _ := trivial
  label hname := if_neg fun he => Aml.objectName_ne_nil hname (List.isEmpty_iff.mp he)
  descriptor hd := hd
  value hv := by
    obtain ⟨first, rest, rfl, -⟩ := hv.exists_cons
    rfl

/-- **What is true of the shapes of all nodes** once requests were made. -/
structure KeepsShape (attempts : List (Attempt Request)) : Prop where
  /-- Every node has the shape that its kind prescribes. -/
  shaped : ∀ h node, (run attempts).find? h = some node → (run attempts).WellShaped node.content
  /-- Writing a node meets no handle that denotes nothing. -/
  written : ∀ h node, (run attempts).find? h = some node →
    ∃ bytes, (run attempts).write h = .ok bytes ∧ (run attempts).encode h = .ok bytes
  /-- Data keeps its bytes, whatever is requested, as long as it is there. -/
  fixed : ∀ h type bytes, (run attempts).HasData type bytes h → ∀ more,
    (run (attempts ++ more)).Fits →
    (∀ front back, more = front ++ back → (run (attempts ++ front)).contains h = true) →
    (run (attempts ++ more)).HasData type bytes h

/-- **Every tree that requests make keeps the shapes of its nodes.** -/
theorem keepsShape_run (attempts : List (Attempt Request)) (hfit : (run attempts).Fits) :
    KeepsShape attempts where
  shaped h node hn := by
    refine (sound_run criterion_isProper (fun a _ => ?_) hfit).wellShaped hn
    rcases a.request with request | _ | _ | _ | _ | _ | _ | _ | _
    · rcases request with ⟨type, bytes⟩ | _ | _ | _ | _ | _ | _ | _
      · exact fun hd => hd
      all_goals trivial
    all_goals trivial
  written h node hn := by
    have hencode := Tree.encode_eq hn
    exact ⟨_, ((sound_run_true hfit).write_eq hn).trans hencode, hencode⟩
  fixed h type bytes hd more hfit' hlive :=
    Tree.kind?_eq_data_iff.mp (kind?_run_append (Tree.kind?_eq_data_iff.mpr hd) hfit' hlive)

/-- A list of resources below a device, with two interrupts, the first of which is detached and
takes the place of the second. -/
theorem keepsShape_run_resources : KeepsShape (amply [.declareRegion .device "COM1" none,
    .declareTemplate "_CRS" (some ⟨1, 0⟩),
    .addResourceInterrupt ⟨5, 0⟩ ⟨.consumer, .level, .low, .exclusive⟩ [41],
    .addResourceInterrupt ⟨5, 0⟩ ⟨.consumer, .edge, .high, .shared⟩ [3, 4],
    .edit (.detach ⟨6, 0⟩), .edit (.replace ⟨7, 0⟩ ⟨6, 0⟩), .edit (.delete ⟨7, 0⟩)]) :=
  keepsShape_run _ (by decide)

end Assembly

end AcpiTables
