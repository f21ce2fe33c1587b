import AcpiTables.Assembly
import AcpiTables.Proofs.Aml.Value
import AcpiTables.Proofs.Resource.Descriptor
import AcpiTables.Proofs.Tree.Reachable

/-!
# Trees that declarations make

The requests at a workbench make and attach several nodes at once, delete them again when
a later step fails, and use the edits of a tree for all of this. So what every edit keeps,
they keep (`AcpiTables.Assembly.Request.leads`), and the trees that they make in any order
with the edits are sound (`AcpiTables.Assembly.sound_run`).

From this comes what a buffer can rely on: only its last item can be an End Tag, so looking
at the last item alone finds it (`AcpiTables.Assembly.endTagClosed_run`).
-/

namespace AcpiTables

/-- Which kinds of nodes are allowed where declarations are made: objects and labels, every
resource descriptor, and the values that a declaration can encode. -/
structure Assembly.Criterion (P : Kind → Prop) : Prop extends Kind.Criterion P where
  /-- Every descriptor is allowed. -/
  descriptor : ∀ {bytes : Bytes}, Tree.requireData .resourceData bytes = .ok () →
    P (.data .resourceData bytes)
  /-- Every encoded value is allowed. -/
  value : ∀ {bytes : Bytes}, Aml.IsEncoded bytes → P (.data .raw bytes)

namespace Assembly

variable {P : Kind → Prop}

/-- All kinds may be allowed. -/
theorem criterion_true : Criterion fun _ => True where
  toCriterion := Kind.criterion_true
  descriptor _ := trivial
  value _ := trivial

/-- What a request at the workbench keeps of the tree. -/
def Leads (P : Kind → Prop) (w w' : Workbench) : Prop := Tree.Leads P w.tree w'.tree

instance : IsPreorder Workbench (Leads P) where
  refl w := refl w.tree
  trans w w' w'' h h' := IsTrans.trans w.tree w'.tree w''.tree h h'

/-! ### Steps -/

/-- A request to the tree leaves the log as it is. -/
theorem after_onTree {α : Type} (m : TreeM α) (w : Workbench) :
    after (onTree m) w = { w with tree := after m w.tree } := by
  rw [after, after, onTree]
  cases m w.tree <;> rfl

theorem leads_onTree {α : Type} {m : TreeM α} (hm : Keeps (Tree.Leads P) m) :
    Keeps (Leads P) (onTree m) := fun w => by
  rw [after_onTree]
  exact hm w.tree

theorem leads_ask {α : Type} (question : Tree → Except Error α) :
    Keeps (Leads P) (ask question) := leads_onTree (Tree.leads_ask question)

/-- A question that is answered is answered by the tree. -/
theorem ask_eq_ok {α : Type} {question : Tree → Except Error α} {a : α} {w w' : Workbench}
    (ha : ask question w = .ok a w') : question w.tree = .ok a := by
  cases hq : question w.tree with
  | ok b => simp_all [ask, onTree, Tree.ask]
  | error e => simp [ask, onTree, Tree.ask, hq] at ha

theorem leads_tell (level : Log.Level) (message : String) :
    Keeps (Leads P) (tell level message) := fun w => refl w.tree

theorem leads_discard (h : Handle) : Keeps (Leads P) (discard h) :=
  (leads_onTree (Tree.leads_delete h)).orElse fun _ => leads_tell _ _

theorem leads_orDiscard {α : Type} {h : Handle} {m : AssemblyM α} (hm : Keeps (Leads P) m) :
    Keeps (Leads P) (orDiscard h m) :=
  hm.orElse fun e => (leads_discard h).andThen fun _ => Keeps.fail e

theorem leads_attach (h : Handle) (parent : Option Handle) :
    Keeps (Leads P) (attach h parent) := by
  cases parent with
  | none => exact Keeps.pure h
  | some p =>
    exact (leads_orDiscard (leads_onTree (Tree.leads_attach p h))).andThen fun _ => Keeps.pure h

/-! ### Values -/

theorem isEncoded_string {text : String} (ht : text.toList.all isPrintable = true) :
    Aml.IsEncoded (Aml.string text) := by
  refine .string fun c hc => ?_
  have hprint := List.all_eq_true.mp ht c hc
  simpa [isPrintable] using hprint

/-- Letters and digits are printable. -/
theorem isPrintable_of_between {c low high : Char} (hlow : 0 < low.toNat) (hhigh : high.toNat < 128)
    (hl : low ≤ c) (hh : c ≤ high) : isPrintable c = true := by
  have hl : low.toNat ≤ c.toNat := hl
  have hh : c.toNat ≤ high.toNat := hh
  rw [isPrintable, Bool.and_eq_true, decide_eq_true_eq, decide_eq_true_eq]
  omega

theorem all_isPrintable_of_isAcpi {id : String} (hid : HardwareId.isAcpi id = true) :
    id.toList.all isPrintable = true := by
  simp only [HardwareId.isAcpi, Bool.and_eq_true, List.all_eq_true] at hid
  obtain ⟨⟨-, hfront⟩, hback⟩ := hid
  rw [← List.take_append_drop 4 id.toList, List.all_append, Bool.and_eq_true, List.all_eq_true,
    List.all_eq_true]
  constructor
  · intro c hc
    have hkind := hfront c hc
    simp only [HardwareId.isCapital, HardwareId.isDecimal, Bool.or_eq_true, Bool.and_eq_true,
      decide_eq_true_eq] at hkind
    rcases hkind with ⟨hl, hh⟩ | ⟨hl, hh⟩
    · exact isPrintable_of_between (by decide) (by decide) hl hh
    · exact isPrintable_of_between (by decide) (by decide) hl hh
  · intro c hc
    have hkind := hback c hc
    simp only [HardwareId.isHex, HardwareId.isDecimal, Bool.or_eq_true, Bool.and_eq_true,
      decide_eq_true_eq] at hkind
    rcases hkind with ⟨hl, hh⟩ | ⟨hl, hh⟩
    · exact isPrintable_of_between (by decide) (by decide) hl hh
    · exact isPrintable_of_between (by decide) (by decide) hl hh

/-- A hardware identifier is a value that can be encoded. -/
theorem isEncoded_hardwareIdValue {id : String} {bytes : Bytes}
    (hv : hardwareIdValue id = .ok bytes) : Aml.IsEncoded bytes := by
  unfold hardwareIdValue at hv
  split at hv
  · exact .eisaId hv
  · split at hv
    · next hacpi =>
      rw [← Except.ok.inj hv]
      exact isEncoded_string (all_isPrintable_of_isAcpi hacpi)
    · exact nomatch hv

/-! ### Declarations -/

section Declarations

variable (hP : Criterion P)

theorem leads_linkDescriptor (descriptor : Handle) (name : Option Handle) :
    Keeps (Leads P) (linkDescriptor descriptor name) := by
  cases name with
  | none => exact Keeps.pure ()
  | some name =>
    refine leads_orDiscard ((leads_ask _).andThen fun buffer => ?_)
    exact leads_onTree (Tree.leads_appendDescriptor buffer descriptor)

include hP

/-- Making a descriptor. -/
theorem leads_makeDescriptor [Memory] (bytes : Bytes) :
    Keeps (Leads P) (onTree (Tree.makeData .resourceData bytes)) :=
  leads_onTree (Tree.leads_makeData hP.descriptor)

theorem leads_addInterrupt [Memory] (signalling : Resource.Signalling) (numbers : List UInt32)
    (name : Option Handle) : Keeps (Leads P) (addInterrupt signalling numbers name) := by
  have hrest : Keeps (Leads P) (do
      let bytes ← ask fun _ =>
        Resource.Interrupt.encodeCounted signalling numbers (UInt8.ofNat numbers.length)
      let descriptor ← onTree (Tree.makeData .resourceData bytes)
      linkDescriptor descriptor name
      tell .debug (s!"Generated Interrupt descriptor {descriptor} for " ++
        Text.listed (numbers.map UInt32.toNat))
      return descriptor) := by
    refine (leads_ask _).andThen fun bytes => (leads_makeDescriptor hP bytes).andThen fun d => ?_
    refine (leads_linkDescriptor d name).andThen fun _ => ?_
    exact (leads_tell _ _).andThen fun _ => Keeps.pure d
  unfold addInterrupt
  cases name with
  | none =>
    dsimp only
    split
    · exact (Keeps.fail _).andThen fun _ => hrest
    · exact hrest
  | some name =>
    have hname := (leads_ask fun t => templateBuffer t name).andThen fun _ => hrest
    dsimp only
    split
    · exact (Keeps.fail _).andThen fun _ => hname
    · exact hname

theorem leads_addResourceInterrupt [Memory] (name : Handle) (signalling : Resource.Signalling)
    (numbers : List UInt32) : Keeps (Leads P) (addResourceInterrupt name signalling numbers) :=
  (leads_addInterrupt hP signalling numbers (some name)).andThen fun _ => Keeps.pure ()

theorem leads_declareTemplate [Memory] (name : String) (parent : Option Handle) :
    Keeps (Leads P) (declareTemplate name parent) := by
  refine (leads_ask _).andThen fun _ => ?_
  refine (leads_onTree (Tree.leads_makeBuffer hP.toCriterion)).andThen fun buffer => ?_
  refine (leads_orDiscard ?_).andThen fun declaration => leads_attach declaration parent
  refine (leads_makeDescriptor hP _).andThen fun endTag => ?_
  refine (leads_orDiscard (leads_onTree (Tree.leads_attach buffer endTag))).andThen fun _ => ?_
  exact leads_onTree (Tree.leads_makeName hP.toCriterion name buffer)

theorem leads_declareValue [Memory] (name : String) {value : Bytes} (hv : Aml.IsEncoded value)
    (parent : Option Handle) : Keeps (Leads P) (declareValue name value parent) := by
  refine (leads_ask _).andThen fun _ => ?_
  refine (leads_onTree (Tree.leads_makeData fun _ => hP.value hv)).andThen fun value => ?_
  refine (leads_orDiscard ?_).andThen fun declaration => leads_attach declaration parent
  exact leads_onTree (Tree.leads_makeName hP.toCriterion name value)

theorem leads_declareString [Memory] (name value : String) (parent : Option Handle) :
    Keeps (Leads P) (declareString name value parent) := by
  unfold declareString
  by_cases hv : value.toList.all isPrintable
  · have hdeclare := leads_declareValue hP name (isEncoded_string hv) parent
    simpa [hv] using hdeclare
  · have hv' : value.toList.all isPrintable = false := Bool.eq_false_iff.mpr hv
    simp only [hv', Bool.not_false, if_true]
    exact (Keeps.fail _).bind fun _ _ _ hr => nomatch hr

theorem leads_declareHardwareId [Memory] (id : String) (parent : Option Handle) :
    Keeps (Leads P) (declareHardwareId id parent) := by
  refine (leads_ask _).bind fun value w w' hv => ?_
  have hvalue := isEncoded_hardwareIdValue (ask_eq_ok hv)
  exact leads_declareValue hP "_HID" hvalue parent w'

theorem leads_declareRegion [Memory] (kind : Region) (name : String) (parent : Option Handle) :
    Keeps (Leads P) (declareRegion kind name parent) := by
  refine (leads_ask _).andThen fun _ => ?_
  refine (leads_onTree (Tree.leads_makeRegion hP.toCriterion kind name)).andThen fun region => ?_
  exact leads_attach region parent

end Declarations

/-! ### Requests -/

/-- A request at a workbench. -/
inductive Request where
  /-- To edit the tree. -/
  | edit (request : Tree.Request)
  /-- To add a descriptor to the resources of a `Name`. -/
  | linkDescriptor (descriptor : Handle) (name : Option Handle)
  /-- To make an interrupt descriptor. -/
  | addInterrupt (signalling : Resource.Signalling) (numbers : List UInt32) (name : Option Handle)
  /-- To add an interrupt descriptor to the resources of a `Name`. -/
  | addResourceInterrupt (name : Handle) (signalling : Resource.Signalling) (numbers : List UInt32)
  /-- To declare a list of resources. -/
  | declareTemplate (name : String) (parent : Option Handle)
  /-- To declare an integer. -/
  | declareInteger (name : String) (value : UInt64) (parent : Option Handle)
  /-- To declare a string. -/
  | declareString (name value : String) (parent : Option Handle)
  /-- To declare a hardware identifier. -/
  | declareHardwareId (id : String) (parent : Option Handle)
  /-- To declare a region. -/
  | declareRegion (kind : Region) (name : String) (parent : Option Handle)
deriving DecidableEq, Repr

namespace Request

/-- The workbench after a request, whether it succeeded or not. -/
def apply [Memory] (w : Workbench) : Request → Workbench
  | edit request => { w with tree := request.apply w.tree }
  | linkDescriptor descriptor name => after (Assembly.linkDescriptor descriptor name) w
  | addInterrupt signalling numbers name =>
    after (Assembly.addInterrupt signalling numbers name) w
  | addResourceInterrupt name signalling numbers =>
    after (Assembly.addResourceInterrupt name signalling numbers) w
  | declareTemplate name parent => after (Assembly.declareTemplate name parent) w
  | declareInteger name value parent => after (Assembly.declareInteger name value parent) w
  | declareString name value parent => after (Assembly.declareString name value parent) w
  | declareHardwareId id parent => after (Assembly.declareHardwareId id parent) w
  | declareRegion kind name parent => after (Assembly.declareRegion kind name parent) w

/-- Makes a request. The result is the handle of the node that was asked for, if one was. -/
def perform [Memory] : Request → AssemblyM (Option Handle)
  | edit request => onTree request.perform
  | linkDescriptor descriptor name => (fun _ => none) <$> Assembly.linkDescriptor descriptor name
  | addInterrupt signalling numbers name =>
    some <$> Assembly.addInterrupt signalling numbers name
  | addResourceInterrupt name signalling numbers =>
    (fun _ => none) <$> Assembly.addResourceInterrupt name signalling numbers
  | declareTemplate name parent => some <$> Assembly.declareTemplate name parent
  | declareInteger name value parent => some <$> Assembly.declareInteger name value parent
  | declareString name value parent => some <$> Assembly.declareString name value parent
  | declareHardwareId id parent => some <$> Assembly.declareHardwareId id parent
  | declareRegion kind name parent => some <$> Assembly.declareRegion kind name parent

/-- The workbench after a request is the one that the request leaves behind. -/
theorem apply_eq_after [Memory] (r : Request) (w : Workbench) : r.apply w = after r.perform w := by
  cases r with
  | edit request =>
    show { w with tree := request.apply w.tree } = after (onTree request.perform) w
    rw [request.apply_eq_after, after_onTree]
  | _ => exact (after_map _ _ w).symm

/-- Whether the data that a request makes is of an allowed kind. -/
def Allowed (P : Kind → Prop) : Request → Prop
  | edit request => request.Allowed P
  | _ => True

theorem allowed_true (r : Request) : r.Allowed fun _ => True := by
  rcases r with request | _ | _ | _ | _ | _ | _ | _ | _
  · exact request.allowed_true
  all_goals trivial

/-- **Every request leads on**, from any workbench. -/
theorem leads [Memory] (hP : Criterion P) (r : Request) (hr : r.Allowed P) (w : Workbench) :
    Leads P w (r.apply w) := by
  cases r with
  | edit request => exact request.leads hP.toCriterion hr w.tree
  | linkDescriptor descriptor name => exact leads_linkDescriptor descriptor name w
  | addInterrupt signalling numbers name => exact leads_addInterrupt hP signalling numbers name w
  | addResourceInterrupt name signalling numbers =>
    exact leads_addResourceInterrupt hP name signalling numbers w
  | declareTemplate name parent => exact leads_declareTemplate hP name parent w
  | declareInteger name value parent =>
    exact leads_declareValue hP name (.integer value) parent w
  | declareString name value parent => exact leads_declareString hP name value parent w
  | declareHardwareId id parent => exact leads_declareHardwareId hP id parent w
  | declareRegion kind name parent => exact leads_declareRegion hP kind name parent w

/-- What a request makes of a sound tree is sound, whatever data it makes. -/
theorem sound_apply [Memory] {r : Request} {w : Workbench} (hs : w.tree.Sound fun _ => True)
    (hfit : (r.apply w).tree.Fits) : (r.apply w).tree.Sound fun _ => True :=
  (r.leads criterion_true r.allowed_true w).2 hfit hs

/-- The workbench after an attempt at a request. -/
def attempt (w : Workbench) (a : Attempt Request) : Workbench := @Request.apply a.memory w a.request

end Request

/-- The workbench after attempts at requests, those that fail included. -/
def bench (attempts : List (Attempt Request)) : Workbench :=
  attempts.foldl Request.attempt ⟨Tree.empty, []⟩

/-- The tree that attempts at requests make at an empty workbench, those that fail included. -/
def run (attempts : List (Attempt Request)) : Tree :=
  (attempts.foldl Request.attempt ⟨Tree.empty, []⟩).tree

theorem run_append (attempts more : List (Attempt Request)) :
    run (attempts ++ more) = (more.foldl Request.attempt (bench attempts)).tree := by
  rw [run, List.foldl_append, bench]

/-- Attempts in a row lead on, whatever data they make. -/
theorem leads_foldl (attempts : List (Attempt Request)) (w : Workbench) :
    Leads (fun _ => True) w (attempts.foldl Request.attempt w) := related_foldl
  (fun a _ w => @Request.leads _ a.memory criterion_true a.request a.request.allowed_true w) w

/-- Further attempts add slots, if they change their number. -/
theorem grows_run_append (attempts more : List (Attempt Request)) :
    (run attempts).Grows (run (attempts ++ more)) := by
  rw [run_append]
  exact (leads_foldl more (bench attempts)).1

/-- **Every tree that requests at a workbench make is sound**, whatever memory there is for them. -/
theorem sound_run (hP : Criterion P) {attempts : List (Attempt Request)}
    (hr : ∀ a ∈ attempts, a.request.Allowed P) (hfit : (run attempts).Fits) :
    (run attempts).Sound P := by
  have hleads : Leads P ⟨Tree.empty, []⟩ (attempts.foldl Request.attempt ⟨Tree.empty, []⟩) :=
    related_foldl (fun a hmem w => @Request.leads _ a.memory hP a.request (hr a hmem) w) _
  exact hleads.2 hfit (Tree.sound_empty P)

/-- Every tree that requests make is sound, whatever data they make. -/
theorem sound_run_true {attempts : List (Attempt Request)} (hfit : (run attempts).Fits) :
    (run attempts).Sound fun _ => True :=
  sound_run criterion_true (fun a _ => a.request.allowed_true) hfit

/-! ### End Tags -/

/-- Descriptors are what was asked of them. -/
def IsChecked : Kind → Prop
  | .data .resourceData bytes => Tree.requireData .resourceData bytes = .ok ()
  | _ => True

theorem criterion_isChecked : Criterion IsChecked where
  object _ := trivial
  label _ := trivial
  descriptor hb := hb
  value _ := trivial

/-- Every tree that requests make holds checked descriptors only. -/
theorem sound_run_isChecked (attempts : List (Attempt Request)) (hfit : (run attempts).Fits) :
    (run attempts).Sound IsChecked := by
  refine sound_run criterion_isChecked (fun a _ => ?_) hfit
  cases a.request with
  | edit request =>
    cases request with
    | makeData type bytes =>
      cases type with
      | nameString => exact fun _ => trivial
      | raw => exact fun _ => trivial
      | resourceData => exact fun hb => hb
    | _ => trivial
  | _ => trivial

/-- A node that is an End Tag: a descriptor of two bytes, the tag and the checksum. -/
def HoldsEndTag (t : Tree) (h : Handle) : Prop :=
  ∃ checksum parent, t.find? h = some ⟨.data .resourceData [0x79, checksum], parent⟩

/-- **Checked descriptors that look like End Tags are End Tags.** -/
theorem isEndTag_iff {t : Tree} (hs : t.Sound IsChecked) (h : Handle) :
    t.isEndTag h = true ↔ HoldsEndTag t h := by
  constructor
  · intro he
    cases hn : t.find? h with
    | none => simp [Tree.isEndTag, hn] at he
    | some node =>
      have hchecked := hs.allowed h node hn
      rw [Tree.isEndTag_eq hn] at he
      obtain ⟨content, parent⟩ := node
      obtain ⟨bytes, rfl, htag⟩ := Content.exists_descriptor_of_isEndTag he
      obtain ⟨header, hheader, -⟩ := bind_eq_ok.mp hchecked
      obtain ⟨checksum, rfl⟩ := Resource.eq_of_startsWithEndTag hheader htag
      exact ⟨checksum, parent, hn⟩
  · rintro ⟨checksum, parent, hn⟩
    rw [Tree.isEndTag_eq hn]
    exact Resource.startsWithEndTag_cons [checksum]

/-- What an End Tag in a buffer is found by. -/
structure EndTagClosed (t : Tree) (buffer : Handle) (items : List Handle) : Prop where
  /-- There is one End Tag at most. -/
  unique : ∀ h ∈ items, ∀ h' ∈ items, HoldsEndTag t h → HoldsEndTag t h' → h = h'
  /-- Nothing stands behind an End Tag. -/
  last : ∀ front h back, items = front ++ h :: back → HoldsEndTag t h → back = []
  /-- The search finds an End Tag exactly if there is one, and finds that one. -/
  found : ∀ h, t.endTag? buffer = .ok (some h) ↔ h ∈ items ∧ HoldsEndTag t h
  /-- The search finds none exactly if there is none. -/
  not_found : t.endTag? buffer = .ok none ↔ ∀ h ∈ items, ¬HoldsEndTag t h

/-- An item that is an End Tag has no item behind it. -/
theorem eq_nil_of_holdsEndTag {t : Tree} (hs : t.Sound IsChecked) {buffer h : Handle}
    {items front back : List Handle} {parent : Option Handle}
    (hb : t.find? buffer = some ⟨.buffer items, parent⟩) (hi : items = front ++ h :: back)
    (ht : HoldsEndTag t h) : back = [] := by
  have hpair := (hs.shaped buffer _ hb).2
  rw [hi, List.pairwise_append, List.pairwise_cons] at hpair
  cases back with
  | nil => rfl
  | cons next back =>
    have hnot := hpair.2.1.1 next List.mem_cons_self
    rw [← Tree.isEndTag_eq_kind?, (isEndTag_iff hs h).mpr ht] at hnot
    exact nomatch hnot

/-- In a buffer of a sound tree. -/
theorem endTagClosed {t : Tree} (hs : t.Sound IsChecked) {buffer : Handle}
    {items : List Handle} {parent : Option Handle}
    (hb : t.find? buffer = some ⟨.buffer items, parent⟩) : EndTagClosed t buffer items := by
  have hlast : ∀ h ∈ items, HoldsEndTag t h → items.getLast? = some h := fun h hh ht => by
    obtain ⟨front, back, hi⟩ := List.append_of_mem hh
    obtain rfl := eq_nil_of_holdsEndTag hs hb hi ht
    rw [hi, List.getLast?_concat]
  have hsearch : ∀ found, t.endTag? buffer = .ok found ↔
      items.getLast?.filter t.isEndTag = found := fun found => by
    rw [Tree.endTag?_eq_ok_iff]
    constructor
    · rintro ⟨node, items', hn, hi, he⟩
      obtain rfl := Option.some.inj (hb.symm.trans hn)
      obtain rfl := Content.buffer.inj hi
      exact he
    · intro he
      exact ⟨_, items, hb, rfl, he⟩
  have hfound : ∀ h, t.endTag? buffer = .ok (some h) ↔ h ∈ items ∧ HoldsEndTag t h := fun h => by
    rw [hsearch, Option.filter_eq_some_iff, isEndTag_iff hs]
    constructor
    · rintro ⟨hl, ht⟩
      exact ⟨List.mem_of_getLast? hl, ht⟩
    · rintro ⟨hh, ht⟩
      exact ⟨hlast h hh ht, ht⟩
  refine ⟨fun h hh h' hh' ht ht' => ?_, fun front h back => eq_nil_of_holdsEndTag hs hb, hfound, ?_⟩
  · exact Option.some.inj ((hlast h hh ht).symm.trans (hlast h' hh' ht'))
  · constructor
    · intro hnone h hh ht
      have := hnone.symm.trans ((hfound h).mpr ⟨hh, ht⟩)
      exact nomatch Except.ok.inj this
    · intro hall
      rw [hsearch]
      cases hf : items.getLast?.filter t.isEndTag with
      | none => rfl
      | some h =>
        obtain ⟨hh, ht⟩ := (hfound h).mp ((hsearch _).mpr hf)
        exact absurd ht (hall h hh)

/-- **An End Tag is the last item of its buffer**, in every tree that requests make, whatever memory
there is for them, so that looking at the last item finds it. -/
theorem endTagClosed_run (attempts : List (Attempt Request)) (hfit : (run attempts).Fits)
    {buffer : Handle} {items : List Handle} {parent : Option Handle}
    (hb : (run attempts).find? buffer = some ⟨.buffer items, parent⟩) :
    EndTagClosed (run attempts) buffer items :=
  endTagClosed (sound_run_isChecked attempts hfit) hb

/-- A list of resources whose End Tag is taken away, and attached again behind a second
descriptor. -/
theorem endTagClosed_run_template :
    EndTagClosed (run (amply [.declareTemplate "_CRS" none, .edit (.detach ⟨1, 0⟩),
      .addResourceInterrupt ⟨3, 0⟩ ⟨.consumer, .edge, .high, .exclusive⟩ [5],
      .edit (.makeData .resourceData [0x79, 0x42]), .edit (.attach ⟨0, 0⟩ ⟨5, 0⟩),
      .edit (.attach ⟨0, 0⟩ ⟨1, 0⟩), .edit (.replace ⟨5, 0⟩ ⟨1, 0⟩)])) ⟨0, 0⟩
      [⟨4, 0⟩, ⟨1, 0⟩] :=
  endTagClosed_run _ (by decide)
    (by decide : _ = some (⟨.buffer [⟨4, 0⟩, ⟨1, 0⟩], some ⟨3, 0⟩⟩ : Node))

end Assembly

end AcpiTables
