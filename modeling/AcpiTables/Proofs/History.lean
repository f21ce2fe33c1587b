import AcpiTables.Proofs.Declarations
import AcpiTables.Proofs.Tree.Events

/-!
# What happens while requests are made

A request gives handles and frees them, also one that fails: a declaration that fails at last has
given handles to some nodes and freed them again, and so has one for which memory ran out halfway.
The tree it leaves behind does not tell all this, so the events are collected along the program: the
`AcpiTables.Course` of a request has the events of each of its steps, in the order in which they are
taken.

The course is a record kept next to the program and not a part of it. What vouches for it is that
it explains the trees, slot by slot (`AcpiTables.Course.happens`). A node that came and went cannot
be left out, because its slot counts it. Nor can a node whose handle is returned, or one that is
deleted: that the handle denotes a node afterwards, or none, would not be explained
(`AcpiTables.Tree.Recorded.given_of_isNew`, `AcpiTables.Tree.Recorded.freed_of_not_contains`).

| result | theorem |
|---|---|
| what was requested explains the tree | `AcpiTables.Assembly.happens_history` |
| handles are new, and freed ones stay rejected | `AcpiTables.Assembly.keepsBooks_run` |
| what is returned is given, and what is deleted is freed | `AcpiTables.Assembly.keepsBooks_run` |
-/

namespace AcpiTables

open AcpiTables.Tree (Event Happens)

/-- **The course of a request**: the events that happen to the tree during it, from every state. -/
structure Course {ε σ α : Type} (view : σ → Tree) (m : EStateM ε σ α) where
  /-- The events, in order. -/
  events : σ → List Event
  /-- They happen between the tree before and the tree after. -/
  happens : ∀ s, Happens (view s) (events s) (view (after m s))

namespace Course

variable {ε σ α β : Type} {view : σ → Tree}

/-! ### Putting courses together -/

/-- Nothing happens to the tree. -/
def still {m : EStateM ε σ α} (hm : ∀ s, view (after m s) = view s) : Course view m where
  events _ := []
  happens s := by
    rw [hm s]
    exact .nothing _

def pure (a : α) : Course view (Pure.pure a : EStateM ε σ α) := still fun _ => rfl

def fail (e : ε) : Course view (throw e : EStateM ε σ α) := still fun _ => rfl

/-- One request after the other. The second one is made only if the first succeeds. -/
def bind {m : EStateM ε σ α} {f : α → EStateM ε σ β} (cm : Course view m)
    (cf : ∀ a, Course view (f a)) : Course view (m >>= f) where
  events s := cm.events s ++
    match m s with
    | .ok a s' => (cf a).events s'
    | .error _ _ => []
  happens s := by
    have hs := cm.happens s
    cases hr : m s with
    | ok a s' =>
      rw [after_ok hr] at hs
      rw [after_bind_ok hr]
      exact hs.trans ((cf a).happens s')
    | error e s' =>
      rw [after_error hr] at hs
      rw [after_bind_error hr]
      exact hs.trans (.nothing _)

/-- A request that is tried, and another one where it fails. -/
def orElse {m : EStateM ε σ α} {f : ε → EStateM ε σ α} (cm : Course view m)
    (cf : ∀ e, Course view (f e)) : Course view (tryCatch m f) where
  events s := cm.events s ++
    match m s with
    | .ok _ _ => []
    | .error e s' => (cf e).events s'
  happens s := by
    have hs := cm.happens s
    cases hr : m s with
    | ok a s' =>
      rw [after_ok hr] at hs
      rw [after_ok (tryCatch_ok hr)]
      exact hs.trans (.nothing _)
    | error e s' =>
      rw [after_error hr] at hs
      rw [after, tryCatch_error hr]
      exact hs.trans ((cf e).happens s')

/-- The result may be read otherwise. -/
def map {m : EStateM ε σ α} (cm : Course view m) (f : α → β) : Course view (f <$> m) where
  events := cm.events
  happens s := by
    rw [after_map]
    exact cm.happens s

/-- One of two requests. -/
def ite {m m' : EStateM ε σ α} (p : Prop) [Decidable p] (cm : Course view m)
    (cm' : Course view m') : Course view (if p then m else m') where
  events s := if p then cm.events s else cm'.events s
  happens s := by
    split
    · exact cm.happens s
    · exact cm'.happens s

/-- The same request, written in another way. -/
def of_eq {m m' : EStateM ε σ α} (he : m = m') (cm : Course view m') : Course view m where
  events := cm.events
  happens s := by
    rw [he]
    exact cm.happens s

end Course

namespace Tree

/-! ### Courses of edits -/

def askCourse {α : Type} (question : Tree → Except Error α) : Course id (ask question) :=
  .still fun t => by
    cases hq : question t with
    | ok a => rw [after_ok (ask_ok hq)]
    | error e => rw [after_error (ask_error hq)]

/-- A handle is given, if there is a slot. -/
def createCourse [Memory] (content : Content) : Course id (create content) :=
  (askCourse _).bind fun _ =>
    { events := fun t => [.given (t.allocate content).1]
      happens := fun t => (Happens.nothing t).given content }

def updateCourse (h : Handle) (f : Node → Node) : Course id (update h f) where
  events _ := []
  happens t := by
    rw [after_update]
    exact (Happens.nothing t).changed h f

def setOwnerCourse (h : Handle) (parent : Option Handle) : Course id (setOwner h parent) :=
  updateCourse h _

def updateChildrenCourse (h : Handle) (f : List Handle → List Handle) :
    Course id (updateChildren h f) :=
  (askCourse _).bind fun
    | .data _ _ => .fail _
    | .name _ _ => updateCourse h _
    | .buffer _ => updateCourse h _
    | .region _ _ _ => updateCourse h _

/-- The handles that are freed when some are released from the last to the first: those that
denote nodes. -/
def releaseEvents (t : Tree) : List Handle → List Event
  | [] => []
  | h :: hs => releaseEvents t hs ++
    if (hs.foldr (fun h t => t.release h) t).contains h then [.freed h] else []

theorem happens_release (t : Tree) (hs : List Handle) :
    Happens t (t.releaseEvents hs) (hs.foldr (fun h t => t.release h) t) := by
  induction hs with
  | nil => exact .nothing t
  | cons h hs ih =>
    rw [releaseEvents, List.foldr_cons]
    by_cases hlive : (hs.foldr (fun h t => t.release h) t).contains h = true
    · rw [if_pos hlive]
      exact ih.freed h hlive
    · have hsame : (hs.foldr (fun h t => t.release h) t).release h =
          hs.foldr (fun h t => t.release h) t := by
        have hn := Option.not_isSome_iff_eq_none.mp hlive
        rw [release, hn]
      rw [if_neg hlive, List.append_nil, hsame]
      exact ih

/-- The handle that was given last is freed again, if the request fails. -/
def orReleaseCourse {α : Type} (h : Handle) {m : TreeM α} (cm : Course id m) :
    Course id (orRelease h m) :=
  cm.orElse fun e => Course.bind
    { events := fun t => t.releaseEvents [h]
      happens := fun t => t.happens_release [h] } fun _ => .fail e

def makeDataCourse [Memory] (type : DataType) (bytes : Bytes) : Course id (makeData type bytes) :=
  (askCourse _).bind fun _ => (askCourse _).bind fun _ => createCourse _

def makeLabelCourse [Memory] (name : String) (allowRoot : Bool) :
    Course id (makeLabel name allowRoot) :=
  (askCourse _).bind fun encoded => makeDataCourse .nameString encoded

def makeBufferCourse [Memory] : Course id makeBuffer := createCourse _

def makeRegionCourse [Memory] (kind : Region) (name : String) : Course id (makeRegion kind name) :=
  (makeLabelCourse name _).bind fun label =>
    (orReleaseCourse label (createCourse _)).bind fun region =>
      (setOwnerCourse label (some region)).bind fun _ => .pure region

def makeObjectCourse [Memory] : ∀ opcode name, Course id (makeObject opcode name)
  | .buffer, none => makeBufferCourse
  | .buffer, some _ => .fail _
  | .region kind, some name => makeRegionCourse kind name
  | .region _, none => .fail _
  | .name, _ => .fail _

def makeNameCourse [Memory] (name : String) (value : Handle) : Course id (makeName name value) :=
  (askCourse _).bind fun _ => (askCourse _).bind fun _ => (makeLabelCourse name false).bind
    fun label => (orReleaseCourse label (createCourse _)).bind fun declaration =>
      (setOwnerCourse label (some declaration)).bind fun _ =>
        (setOwnerCourse value (some declaration)).bind fun _ => .pure declaration

def appendDescriptorCourse (buffer h : Handle) : Course id (appendDescriptor buffer h) :=
  (askCourse _).bind fun _ => (updateChildrenCourse buffer _).bind fun _ =>
    setOwnerCourse h (some buffer)

/-- A node becomes a child of what is no buffer. -/
def attachMemberCourse (parent h : Handle) : Course id (do
    ask fun t => t.requireAttachable parent h
    updateChildren parent fun members => members ++ [h]
    setOwner h (some parent)) :=
  (askCourse _).bind fun _ => (updateChildrenCourse parent _).bind fun _ =>
    setOwnerCourse h (some parent)

def attachCourse (parent h : Handle) : Course id (attach parent h) :=
  (askCourse _).bind fun
    | .data _ _ => attachMemberCourse parent h
    | .name _ _ => attachMemberCourse parent h
    | .buffer _ => appendDescriptorCourse parent h
    | .region _ _ _ => attachMemberCourse parent h

def detachCourse (h : Handle) : Course id (detach h) :=
  (askCourse _).bind fun parent => (updateChildrenCourse parent _).bind fun _ =>
    setOwnerCourse h none

def replaceCourse (old new : Handle) : Course id (replace old new) :=
  (askCourse _).bind fun (parent, _) => (updateCourse parent _).bind fun _ =>
    (setOwnerCourse old none).bind fun _ => setOwnerCourse new (some parent)

def deleteCourse (h : Handle) : Course id (delete h) :=
  (askCourse _).bind fun _ =>
    { events := fun t => t.releaseEvents (t.postorder h)
      happens := fun t => t.happens_release (t.postorder h) }

/-- The course of an edit. -/
def Request.course [Memory] : ∀ r : Request, Course id r.perform
  | makeData type bytes => (makeDataCourse type bytes).map _
  | makeObject opcode name => (makeObjectCourse opcode name).map _
  | makeName name value => (makeNameCourse name value).map _
  | attach parent h => (attachCourse parent h).map _
  | appendDescriptor buffer h => (appendDescriptorCourse buffer h).map _
  | detach h => (detachCourse h).map _
  | replace old new => (replaceCourse old new).map _
  | delete h => (deleteCourse h).map _

end Tree

namespace Assembly

/-! ### Courses of declarations -/

def onTreeCourse {α : Type} {m : TreeM α} (cm : Course id m) :
    Course Workbench.tree (onTree m) where
  events w := cm.events w.tree
  happens w := by
    rw [after_onTree]
    exact cm.happens w.tree

def askCourse {α : Type} (question : Tree → Except Error α) :
    Course Workbench.tree (ask question) := onTreeCourse (Tree.askCourse question)

def tellCourse (level : Log.Level) (message : String) :
    Course Workbench.tree (tell level message) := .still fun _ => rfl

def discardCourse (h : Handle) : Course Workbench.tree (discard h) :=
  (onTreeCourse (Tree.deleteCourse h)).orElse fun _ => tellCourse _ _

def orDiscardCourse {α : Type} (h : Handle) {m : AssemblyM α} (cm : Course Workbench.tree m) :
    Course Workbench.tree (orDiscard h m) :=
  cm.orElse fun e => (discardCourse h).bind fun _ => .fail e

def attachCourse (h : Handle) : ∀ parent, Course Workbench.tree (attach h parent)
  | none => .pure h
  | some parent =>
    (orDiscardCourse h (onTreeCourse (Tree.attachCourse parent h))).bind fun _ => .pure h

def linkDescriptorCourse (descriptor : Handle) :
    ∀ name, Course Workbench.tree (linkDescriptor descriptor name)
  | none => .pure ()
  | some _ => orDiscardCourse descriptor ((askCourse _).bind fun buffer =>
    onTreeCourse (Tree.appendDescriptorCourse buffer descriptor))

def makeInterruptCourse [Memory] (signalling : Resource.Signalling) (numbers : List UInt32)
    (name : Option Handle) : Course Workbench.tree (makeInterrupt signalling numbers name) :=
  (askCourse _).bind fun bytes =>
    (onTreeCourse (Tree.makeDataCourse .resourceData bytes)).bind fun descriptor =>
      (linkDescriptorCourse descriptor name).bind fun _ => (tellCourse _ _).bind fun _ =>
        .pure descriptor

def addInterruptCourse [Memory] (signalling : Resource.Signalling) (numbers : List UInt32)
    (name : Option Handle) : Course Workbench.tree (addInterrupt signalling numbers name) :=
  .of_eq (addInterrupt_eq signalling numbers name) (.ite _ (.fail _)
    ((askCourse _).bind fun _ => makeInterruptCourse signalling numbers name))

def nameTemplateCourse [Memory] (name : String) (buffer : Handle) :
    Course Workbench.tree (nameTemplate name buffer) :=
  (onTreeCourse (Tree.makeDataCourse _ _)).bind fun endTag =>
    (orDiscardCourse endTag (onTreeCourse (Tree.attachCourse buffer endTag))).bind fun _ =>
      onTreeCourse (Tree.makeNameCourse name buffer)

def declareTemplateCourse [Memory] (name : String) (parent : Option Handle) :
    Course Workbench.tree (declareTemplate name parent) :=
  (askCourse _).bind fun _ => (onTreeCourse Tree.makeBufferCourse).bind fun buffer =>
    (orDiscardCourse buffer (nameTemplateCourse name buffer)).bind fun declaration =>
      attachCourse declaration parent

def declareValueCourse [Memory] (name : String) (value : Bytes) (parent : Option Handle) :
    Course Workbench.tree (declareValue name value parent) :=
  (askCourse _).bind fun _ => (onTreeCourse (Tree.makeDataCourse .raw value)).bind fun value =>
    (orDiscardCourse value (onTreeCourse (Tree.makeNameCourse name value))).bind
      fun declaration => attachCourse declaration parent

def declareStringCourse [Memory] (name value : String) (parent : Option Handle) :
    Course Workbench.tree (declareString name value parent) :=
  .ite _ ((Course.fail _).bind fun _ => declareValueCourse name (Aml.string value) parent)
    (declareValueCourse name (Aml.string value) parent)

def declareHardwareIdCourse [Memory] (id : String) (parent : Option Handle) :
    Course Workbench.tree (declareHardwareId id parent) :=
  (askCourse _).bind fun value => declareValueCourse "_HID" value parent

def declareRegionCourse [Memory] (kind : Region) (name : String) (parent : Option Handle) :
    Course Workbench.tree (declareRegion kind name parent) :=
  (askCourse _).bind fun _ => (onTreeCourse (Tree.makeRegionCourse kind name)).bind
    fun region => attachCourse region parent

/-- The course of a request. -/
def Request.course [Memory] : ∀ r : Request, Course Workbench.tree r.perform
  | edit request => onTreeCourse request.course
  | linkDescriptor descriptor name => (linkDescriptorCourse descriptor name).map _
  | addInterrupt signalling numbers name => (addInterruptCourse signalling numbers name).map _
  | addResourceInterrupt name signalling numbers =>
    Course.map ((addInterruptCourse signalling numbers (some name)).bind fun _ => .pure ()) _
  | declareTemplate name parent => (declareTemplateCourse name parent).map _
  | declareInteger name value parent =>
    (declareValueCourse name (Aml.integer value) parent).map _
  | declareString name value parent => (declareStringCourse name value parent).map _
  | declareHardwareId id parent => (declareHardwareIdCourse id parent).map _
  | declareRegion kind name parent => (declareRegionCourse kind name parent).map _

/-! ### Histories -/

/-- What happens in an attempt at a request. -/
def Request.events (w : Workbench) (a : Attempt Request) : List Event :=
  (@Request.course a.memory a.request).events w

theorem Request.happens_events (w : Workbench) (a : Attempt Request) :
    Happens w.tree (events w a) (attempt w a).tree := by
  rw [attempt, @apply_eq_after a.memory]
  exact (@Request.course a.memory a.request).happens w

/-- What happens in attempts at requests, those that fail included. -/
def historyFrom (w : Workbench) : List (Attempt Request) → List Event
  | [] => []
  | a :: attempts => Request.events w a ++ historyFrom (Request.attempt w a) attempts

/-- **All that happens in attempts at requests** at an empty workbench. -/
def history (attempts : List (Attempt Request)) : List Event :=
  historyFrom ⟨Tree.empty, []⟩ attempts

theorem historyFrom_append (w : Workbench) (attempts more : List (Attempt Request)) :
    historyFrom w (attempts ++ more) =
      historyFrom w attempts ++ historyFrom (attempts.foldl Request.attempt w) more := by
  induction attempts generalizing w with
  | nil => rfl
  | cons a attempts ih =>
    rw [List.cons_append, historyFrom, historyFrom, ih, List.append_assoc, List.foldl_cons]

/-- Further attempts add to what happened. -/
theorem history_append (attempts more : List (Attempt Request)) :
    history (attempts ++ more) = history attempts ++ historyFrom (bench attempts) more :=
  historyFrom_append _ attempts more

theorem history_concat (attempts : List (Attempt Request)) (a : Attempt Request) :
    history (attempts ++ [a]) = history attempts ++ Request.events (bench attempts) a := by
  rw [history_append, historyFrom, historyFrom, List.append_nil]

theorem happens_historyFrom (w : Workbench) (attempts : List (Attempt Request)) :
    Happens w.tree (historyFrom w attempts) (attempts.foldl Request.attempt w).tree := by
  induction attempts generalizing w with
  | nil => exact .nothing w.tree
  | cons a attempts ih =>
    exact (Request.happens_events w a).trans (ih (Request.attempt w a))

/-- **What happened explains the tree** that requests make. -/
theorem happens_history (attempts : List (Attempt Request)) :
    Happens Tree.empty (history attempts) (run attempts) :=
  happens_historyFrom ⟨Tree.empty, []⟩ attempts

theorem recorded_run {attempts : List (Attempt Request)} (hfit : (run attempts).Fits)
    (hlast : Tree.Lasting (history attempts)) : (run attempts).Recorded (history attempts) :=
  Tree.recorded_of_happens (happens_history attempts) hfit hlast

/-! ### What requests return -/

/-- **The tree after one more attempt** is recorded in what happened by then. -/
theorem recorded_concat {attempts : List (Attempt Request)} {a : Attempt Request}
    {result : Option Handle} {w' : Workbench}
    (hr : @Request.perform a.memory a.request (bench attempts) = .ok result w')
    (hfit : w'.tree.Fits) (hlast : Tree.Lasting (history (attempts ++ [a]))) :
    w'.tree.Recorded (history attempts ++ Request.events (bench attempts) a) := by
  have hrun : run (attempts ++ [a]) = w'.tree := by
    rw [run_append]
    show (@Request.apply a.memory (bench attempts) a.request).tree = w'.tree
    rw [@Request.apply_eq_after a.memory, after_ok hr]
  rw [← hrun] at hfit ⊢
  rw [← history_concat]
  exact recorded_run hfit hlast

/-- A node that was deleted was there, and its subtree went away. -/
theorem released_of_delete [Memory] {w w' : Workbench} {h : Handle} {result : Option Handle}
    (hr : (Request.edit (.delete h)).perform w = .ok result w') :
    ∃ node, w.tree.find? h = some node ∧
      w'.tree = (w.tree.postorder h).foldr (fun h t => t.release h) w.tree := by
  rcases Tree.delete_cases h w.tree with ⟨e, herr⟩ | ⟨node, hn, -, hok⟩
  · exact nomatch (onTree_error (map_error herr)).symm.trans hr
  · obtain ⟨-, rfl⟩ := EStateM.Result.ok.inj ((onTree_ok (map_ok hok)).symm.trans hr)
    exact ⟨node, hn, rfl⟩

/-! ### Books -/

/-- **The books of a tree, and what can be told of its handles**, once requests were made. -/
structure KeepsBooks (attempts : List (Attempt Request)) : Prop where
  /-- The count is the number of slots that hold a node. -/
  live_eq : (run attempts).live = (run attempts).slots.countP fun slot => slot.node.isSome
  /-- No empty slot is stacked twice. -/
  nodup_free : (run attempts).free.Nodup
  /-- The empty slots are stacked, and nothing else is. -/
  mem_free_iff : ∀ i, (∃ index ∈ (run attempts).free, index.toNat = i) ↔
    ∃ g, (run attempts).slots[i]? = some ⟨g, none⟩
  /-- A slot is added only if none is empty. -/
  length_slots : ∀ content, ((run attempts).allocate content).2.slots.length =
    if ∀ slot ∈ (run attempts).slots, slot.node.isSome = true then (run attempts).slots.length + 1
    else (run attempts).slots.length
  /-- A handle that was given had not been given before. -/
  new : ∀ front h back, history attempts = front ++ .given h :: back → .given h ∉ front
  /-- The handles that denote nodes are those that were given and not freed. -/
  contains_iff : ∀ h, (run attempts).contains h = true ↔
    .given h ∈ history attempts ∧ .freed h ∉ history attempts
  /-- A handle that the next request returns is given in its course, was not given before, and
  denotes a node. -/
  returned : ∀ a h w', @Request.perform a.memory a.request (bench attempts) = .ok (some h) w' →
    w'.tree.Fits → Tree.Lasting (history (attempts ++ [a])) →
      .given h ∈ Request.events (bench attempts) a ∧ .given h ∉ history attempts ∧
        w'.tree.contains h = true
  /-- Where the next request deletes a node, the node and all nodes below it are freed in its
  course. -/
  deleted : ∀ a h result w', a.request = .edit (.delete h) →
    @Request.perform a.memory a.request (bench attempts) = .ok result w' →
      Tree.Lasting (history (attempts ++ [a])) → .freed h ∈ Request.events (bench attempts) a ∧
        ∀ x ∈ (run attempts).postorder h, .freed x ∈ Request.events (bench attempts) a
  /-- A handle that was freed is rejected ever after. -/
  rejects : ∀ h, .freed h ∈ history attempts → ∀ more, (run (attempts ++ more)).Fits →
    Tree.Lasting (history (attempts ++ more)) → (run (attempts ++ more)).Rejects h

/-- **Every tree that requests make keeps its books**, whatever memory there is for them, as long as
its slots have numbers of their own and none of them was freed so often that its generation came
back to zero. -/
theorem keepsBooks_run (attempts : List (Attempt Request)) (hfit : (run attempts).Fits)
    (hlast : Tree.Lasting (history attempts)) : KeepsBooks attempts := by
  have hr := recorded_run hfit hlast
  have ha := hr.accounts
  have hs : (bench attempts).tree.Sound fun _ => True := sound_run_true hfit
  refine {
    live_eq := ha.live_eq
    nodup_free := ha.nodup_free
    mem_free_iff := ha.exists_mem_free_iff
    length_slots := ha.length_slots_allocate
    new := fun front h back => hr.not_given_before
    contains_iff := hr.contains_iff
    returned := fun a h w' hperform hfit' hlast' => ?_
    deleted := ?_
    rejects := fun h hfreed more hfit' hlast' => ?_ }
  · have hnew := @Request.isNew_of_ok _ _ _ a.memory _ hs hfit' hperform
    obtain ⟨hgiven, hbefore⟩ :=
      hr.given_of_isNew (recorded_concat hperform hfit' hlast') hnew
    exact ⟨hgiven, hbefore, hnew.contains⟩
  · rintro ⟨memory, request⟩ h result w' rfl hperform hlast'
    obtain ⟨node, hn, htree⟩ := @released_of_delete memory _ _ _ _ hperform
    have hfit' : w'.tree.Fits := by
      rw [htree, Tree.Fits, Tree.length_slots_foldr_release]
      exact hfit
    have hr' := recorded_concat hperform hfit' hlast'
    have hall : ∀ x ∈ (run attempts).postorder h,
        .freed x ∈ Request.events (bench attempts) ⟨memory, .edit (.delete h)⟩ := by
      refine fun x hx => hr.freed_of_not_contains hr' (hs.contains_of_mem_postorder hn hx) ?_
      rw [htree, Bool.eq_false_iff, Ne, Tree.contains_foldr_release]
      exact fun hlive => hlive.2 hx
    exact ⟨hall h ((hs.mem_postorder_iff hn).mpr Relation.ReflTransGen.refl), hall⟩
  · have hr' := recorded_run hfit' hlast'
    have hmem : .freed h ∈ history (attempts ++ more) := by
      rw [history_append]
      exact List.mem_append_left _ hfreed
    exact Tree.rejects ((hr'.freed_iff h).mp hmem).not_contains

/-- A declaration that fails after it made two nodes, a device in their slots, a declaration after
the device was deleted, and a device for whose label there is memory but not for itself. -/
theorem keepsBooks_run_again : KeepsBooks (amply [.declareTemplate "1CRS" none,
    .declareRegion .device "COM1" none, .edit (.delete ⟨0, 1⟩), .declareInteger "_UID" 1 none] ++
      [⟨.forSlots 4, .declareRegion .device "COM2" none⟩]) :=
  keepsBooks_run _ (by decide) (Tree.lasting_of_length (by decide))

end Assembly

end AcpiTables
