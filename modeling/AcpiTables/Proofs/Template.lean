import AcpiTables.Proofs.Shape

/-!
# Lists of resources

A list of resources is declared with nothing but its End Tag, and interrupts are added to it, one
request after the other, while other things are requested in between. In the end it holds the
interrupts of just those requests that could be met, in order, and these are what one reads from
its bytes (`AcpiTables.Assembly.served_run`).

The one thing to know is that the other requests need not be told apart. It is enough that each
leaves the `Name` its label, its buffer and the items in there, as handles
(`AcpiTables.Assembly.LeftAlone`). Links are never dead, and no request gives another kind to a
node, so the data behind the same handles is the same (`AcpiTables.Assembly.Lists.keep`).

| after a request | theorem |
|---|---|
| that asks for something else | `AcpiTables.Assembly.Lists.of_listing_eq` |
| that adds interrupts | `AcpiTables.Assembly.Lists.insert` |
| that asks for too few or too many interrupts | `AcpiTables.Assembly.Lists.of_listing_eq` |
-/

namespace AcpiTables.Assembly

variable {t t' : Tree} {w : Workbench} {n label buffer endTag h : Handle} {bytes : Bytes}
  {items hs : List Handle} {is : List Resource.Interrupt} {i : Resource.Interrupt}

/-! ### What a `Name` lists -/

/-- The handles that make up a list of resources. -/
structure Listing where
  /-- The label of the `Name`. -/
  label : Handle
  /-- The value of the `Name`. -/
  buffer : Handle
  /-- What the buffer holds. -/
  items : List Handle
deriving DecidableEq, Repr

/-- The list of resources of a `Name`, if its value is a buffer. -/
def listing? (t : Tree) (n : Handle) : Option Listing :=
  match t.find? n with
  | some ⟨.name label buffer, _⟩ =>
    match t.find? buffer with
    | some ⟨.buffer items, _⟩ => some ⟨label, buffer, items⟩
    | _ => none
  | _ => none

theorem listing?_eq_some_iff : listing? t n = some ⟨label, buffer, items⟩ ↔ ∃ above below,
    t.find? n = some ⟨.name label buffer, above⟩ ∧
      t.find? buffer = some ⟨.buffer items, below⟩ := by
  constructor
  · intro hl
    unfold listing? at hl
    split at hl
    · next above hn =>
      split at hl
      · next below hb =>
        obtain ⟨rfl, rfl, rfl⟩ := Listing.mk.inj (Option.some.inj hl)
        exact ⟨above, below, hn, hb⟩
      · exact nomatch hl
    · exact nomatch hl
  · rintro ⟨above, below, hn, hb⟩
    simp only [listing?, hn, hb]

/-- Trees with the same nodes list the same. -/
theorem listing?_congr (hsame : t.SameNodes t') (n : Handle) : listing? t' n = listing? t n := by
  simp only [listing?, hsame _]

/-! ### Requests for interrupts -/

namespace Request

/-- The interrupts that a request wants in the list of resources of a `Name`. -/
def asks (n : Handle) : Request → Option (Resource.Signalling × List UInt32)
  | addInterrupt signalling numbers (some name) =>
    if name = n then some (signalling, numbers) else none
  | addResourceInterrupt name signalling numbers =>
    if name = n then some (signalling, numbers) else none
  | _ => none

variable {r : Request} {signalling : Resource.Signalling} {numbers : List UInt32}

/-- There are two requests that do so. -/
theorem asks_eq_some_iff : r.asks n = some (signalling, numbers) ↔
    r = addInterrupt signalling numbers (some n) ∨
      r = addResourceInterrupt n signalling numbers := by
  constructor
  · intro hr
    unfold asks at hr
    split at hr
    · split at hr
      · next hname =>
        obtain ⟨rfl, rfl⟩ := Prod.mk.inj (Option.some.inj hr)
        exact Or.inl (by rw [hname])
      · exact nomatch hr
    · split at hr
      · next hname =>
        obtain ⟨rfl, rfl⟩ := Prod.mk.inj (Option.some.inj hr)
        exact Or.inr (by rw [hname])
      · exact nomatch hr
    · exact nomatch hr
  · rintro (rfl | rfl)
    · exact if_pos rfl
    · exact if_pos rfl

/-- The interrupts that a request adds to the list of resources of a `Name`. -/
def interrupt? (n : Handle) (r : Request) : Option Resource.Interrupt :=
  (r.asks n).bind fun asked => (Resource.Interrupt.ofNumbers asked.1 asked.2).toOption

theorem interrupt?_eq_some_iff :
    r.interrupt? n = some i ↔ r.asks n = some (i.signalling, i.numbers) := by
  rw [interrupt?, Option.bind_eq_some_iff]
  constructor
  · rintro ⟨asked, hr, hi⟩
    cases hof : Resource.Interrupt.ofNumbers asked.1 asked.2 with
    | error e =>
      rw [hof] at hi
      exact nomatch hi
    | ok i' =>
      rw [hof] at hi
      obtain rfl := Option.some.inj hi
      obtain ⟨hsignalling, hnumbers⟩ := Resource.Interrupt.ofNumbers_eq_ok_iff.mp hof
      rw [hr, hsignalling, hnumbers]
  · intro hr
    refine ⟨_, hr, ?_⟩
    rw [Resource.Interrupt.ofNumbers_eq_ok_iff.mpr ⟨rfl, rfl⟩]
    rfl

/-- No descriptor can list too few or too many interrupts. -/
theorem interrupt?_eq_none (hr : r.asks n = some (signalling, numbers))
    (hcount : ¬(1 ≤ numbers.length ∧ numbers.length ≤ 255)) : r.interrupt? n = none := by
  refine Option.eq_none_iff_forall_ne_some.mpr fun i hi => hcount ?_
  obtain ⟨rfl, rfl⟩ := Prod.mk.inj (Option.some.inj
    (hr.symm.trans (interrupt?_eq_some_iff.mp hi)))
  exact ⟨List.length_pos_iff.mpr i.numbers_ne_nil, i.length_le⟩

/-- **How a request for interrupts ends**: with a new descriptor, and if a handle is returned, it
is the one of the descriptor. -/
theorem ends_asks [memory : Memory] (hr : r.asks n = some (signalling, numbers)) : Ends r.perform w
    (fun result w' => ∃ h, ∃ i : Resource.Interrupt, i.signalling = signalling ∧
      i.numbers = numbers ∧ Filed w.tree i.encode h w'.tree (some n) ∧ ∀ x ∈ result, x = h)
    (fun w' => Undone w w' ∧ (memory.Suffices → numbers ≠ [] →
      numbers.length ≤ Resource.maxInterrupts → requireTemplate w.tree (some n) ≠ .ok ())) := by
  have hadd := ends_addInterrupt (w := w) signalling numbers (some n)
  rcases asks_eq_some_iff.mp hr with rfl | rfl
  · refine hadd.map fun h w' hQ => ?_
    obtain ⟨i, hsignalling, hnumbers, hfiled⟩ := hQ
    exact ⟨h, i, hsignalling, hnumbers, hfiled, fun x hx => (Option.some.inj hx).symm⟩
  · refine (hadd.map (g := fun _ => ()) fun h w' hQ => ?_).map fun _ w' hQ => hQ
    obtain ⟨i, hsignalling, hnumbers, hfiled⟩ := hQ
    exact ⟨h, i, hsignalling, hnumbers, hfiled, fun x hx => nomatch hx⟩

end Request

/-- **The interrupts of the requests that can be met**, in order. -/
def accepted (n : Handle) (requests : List Request) : List Resource.Interrupt :=
  requests.filterMap (Request.interrupt? n)

/-- Requests that do not ask for interrupts in the list of a `Name` leave the list as it is. -/
def LeftAlone (n : Handle) : Workbench → List Request → Prop
  | _, [] => True
  | w, r :: requests =>
    (r.asks n = none → listing? (r.apply w).tree n = listing? w.tree n) ∧
      LeftAlone n (r.apply w) requests

instance (n : Handle) : ∀ w requests, Decidable (LeftAlone n w requests)
  | _, [] => isTrue trivial
  | w, r :: requests =>
    have : Decidable (LeftAlone n (r.apply w) requests) := instDecidableLeftAlone n _ requests
    inferInstanceAs (Decidable ((r.asks n = none →
      listing? (r.apply w).tree n = listing? w.tree n) ∧ LeftAlone n (r.apply w) requests))

/-- **How requests are answered**: those for interrupts in the list of a `Name` are accepted if
there are 1 to 255 interrupts, and then there is a new descriptor; else they are rejected. -/
inductive Answered (n : Handle) : Workbench → List Request → List Handle → Prop
  /-- All is done. -/
  | done (w : Workbench) : Answered n w [] []
  /-- Something else was requested. -/
  | other {w : Workbench} {r : Request} {requests : List Request} {hs : List Handle}
    (hr : r.asks n = none) (hrest : Answered n (r.apply w) requests hs) :
    Answered n w (r :: requests) hs
  /-- The descriptor of the interrupts was made. -/
  | accepted {w w' : Workbench} {r : Request} {requests : List Request} {hs : List Handle}
    {signalling : Resource.Signalling} {numbers : List UInt32} {result : Option Handle}
    {h : Handle} (hr : r.asks n = some (signalling, numbers))
    (hcount : 1 ≤ numbers.length ∧ numbers.length ≤ 255)
    (hperform : r.perform w = .ok result w') (hresult : ∀ x ∈ result, x = h)
    (hnew : w.tree.contains h = false) (hrest : Answered n w' requests hs) :
    Answered n w (r :: requests) (h :: hs)
  /-- There were too few or too many interrupts. -/
  | rejected {w w' : Workbench} {r : Request} {requests : List Request} {hs : List Handle}
    {signalling : Resource.Signalling} {numbers : List UInt32} {e : Error}
    (hr : r.asks n = some (signalling, numbers))
    (hcount : ¬(1 ≤ numbers.length ∧ numbers.length ≤ 255))
    (hperform : r.perform w = .error e w') (hrest : Answered n w' requests hs) :
    Answered n w (r :: requests) hs

/-! ### What a list of resources holds -/

/-- **A list of resources** with given interrupts. -/
structure Lists (t : Tree) (n label buffer endTag : Handle) (bytes : Bytes) (hs : List Handle)
    (is : List Resource.Interrupt) : Prop where
  /-- The items are the descriptors and an End Tag. -/
  listing : listing? t n = some ⟨label, buffer, hs ++ [endTag]⟩
  /-- The label is there. -/
  label : t.HasData .nameString bytes label
  /-- The descriptors are those of the interrupts, in order. -/
  descriptors : List.Forall₂ (t.HasData .resourceData) (is.map Resource.Interrupt.encode) hs
  /-- The End Tag is there. -/
  endTag : t.HasData .resourceData Resource.endTag endTag

namespace Lists

/-- Data stays what it is while it is there. -/
theorem hasData_of_steady {type : DataType} (hd : t.HasData type bytes h) (hsteady : t.Steady t')
    {node : Node} (hn : t'.find? h = some node) : t'.HasData type bytes h :=
  Tree.kind?_eq_data_iff.mp (hsteady.kind?_eq (Tree.kind?_eq_data_iff.mpr hd) hn)

/-- **What is still linked is still the same.** -/
theorem keep (hl : Lists t n label buffer endTag bytes hs is) (hsteady : t.Steady t')
    (ho : t'.Ordered) (hlisting : listing? t' n = some ⟨label, buffer, items⟩)
    (hsub : ∀ x ∈ hs ++ [endTag], x ∈ items) : t'.HasData .nameString bytes label ∧
      List.Forall₂ (t'.HasData .resourceData) (is.map Resource.Interrupt.encode) hs ∧
      t'.HasData .resourceData Resource.endTag endTag := by
  obtain ⟨above, below, hn, hb⟩ := listing?_eq_some_iff.mp hlisting
  have hitem : ∀ x ∈ hs ++ [endTag], ∃ node, t'.find? x = some node := fun x hx =>
    ho.exists_of_mem hb (hsub x hx)
  refine ⟨?_, ?_, ?_⟩
  · obtain ⟨node, hx⟩ := ho.exists_of_mem (x := label) hn (by simp)
    exact hasData_of_steady hl.label hsteady hx
  · have hdata := hl.descriptors
    refine List.forall₂_iff_zip.mpr ⟨hdata.length_eq, fun {descriptor x} hmem => ?_⟩
    have hx : x ∈ hs ++ [endTag] := List.mem_append_left _ (List.of_mem_zip hmem).2
    obtain ⟨node, hx⟩ := hitem x hx
    exact hasData_of_steady ((List.forall₂_iff_zip.mp hdata).2 hmem) hsteady hx
  · obtain ⟨node, hx⟩ := hitem endTag (by simp)
    exact hasData_of_steady hl.endTag hsteady hx

/-- **Handles that are left alone** list the same. -/
theorem of_listing_eq (hl : Lists t n label buffer endTag bytes hs is) (hsteady : t.Steady t')
    (ho : t'.Ordered) (hsame : listing? t' n = listing? t n) :
    Lists t' n label buffer endTag bytes hs is := by
  have hlisting := hsame.trans hl.listing
  obtain ⟨hlabel, hdescriptors, hendTag⟩ := hl.keep hsteady ho hlisting fun x hx => hx
  exact ⟨hlisting, hlabel, hdescriptors, hendTag⟩

/-- The list is found under its `Name`. -/
theorem templateBuffer_eq (hl : Lists t n label buffer endTag bytes hs is) :
    templateBuffer t n = .ok buffer := by
  obtain ⟨above, below, hn, hb⟩ := listing?_eq_some_iff.mp hl.listing
  exact templateBuffer_eq_ok_iff.mpr ⟨label, _, above, below, hn, hb⟩

/-- A descriptor goes in front of the End Tag. -/
theorem insertItem_eq (hl : Lists t n label buffer endTag bytes hs is) :
    Tree.insertItem (t.endsInTag (.buffer (hs ++ [endTag]))) (hs ++ [endTag]) h =
      hs ++ [h] ++ [endTag] := by
  obtain ⟨owner, htag⟩ := hl.endTag
  have hends : t.endsInTag (.buffer (hs ++ [endTag])) = true := by
    rw [Tree.endsInTag, List.getLast?_concat, Option.any_some, Tree.isEndTag_eq htag]
    exact Resource.startsWithEndTag_cons [0x00]
  rw [hends, Tree.insertItem, if_pos rfl, List.dropLast_concat, List.getLast?_concat,
    List.append_assoc]
  rfl

/-- **A descriptor that was added** is the last one. -/
theorem insert (hl : Lists t n label buffer endTag bytes hs is) (hsteady : t.Steady t')
    (ho : t'.Ordered) (hins : Inserted t i.encode buffer h t') :
    Lists t' n label buffer endTag bytes (hs ++ [h]) (is ++ [i]) := by
  obtain ⟨above, below, hn, hb⟩ := listing?_eq_some_iff.mp hl.listing
  have hnh : n ≠ h := by
    rintro rfl
    exact nomatch hins.new.symm.trans hn
  have hnb : n ≠ buffer := by
    rintro rfl
    exact nomatch hn.symm.trans hb
  have hn' := (hins.kept n hnh hnb).trans hn
  have hb' := hins.listed _ _ hb
  rw [hl.insertItem_eq] at hb'
  have hlisting := listing?_eq_some_iff.mpr ⟨above, below, hn', hb'⟩
  obtain ⟨hlabel, hdescriptors, hendTag⟩ := hl.keep hsteady ho hlisting fun x hx => by
    simp only [List.mem_append, List.mem_singleton] at hx ⊢
    tauto
  refine ⟨hlisting, hlabel, ?_, hendTag⟩
  rw [List.map_append]
  exact List.rel_append hdescriptors (.cons ⟨_, hins.found⟩ .nil)

/-- **The bytes of a list of resources.** -/
theorem encode_eq (hl : Lists t n label buffer endTag bytes hs is) (ho : t.Ordered) :
    t.encode n = .ok (0x08 :: (bytes ++
      Aml.buffer (is.flatMap Resource.Interrupt.encode ++ [0x79, 0x00]))) := by
  obtain ⟨above, below, hn, hb⟩ := listing?_eq_some_iff.mp hl.listing
  obtain ⟨owner, hlabel⟩ := hl.label
  have hstands : (Aml.Value.buffer (is.map Resource.Interrupt.encode ++
      [Resource.endTag])).Stands t buffer :=
    ⟨_, below, hb, List.rel_append hl.descriptors (.cons hl.endTag .nil)⟩
  rw [Tree.encode_eq hn, ho.bytesOf_eq hn, Tree.encodeContent, ho.bytesOf_eq hlabel,
    hstands.bytesOf_eq ho, Aml.Value.encode, List.flatten_append, ← List.flatMap_def]
  rfl

end Lists

/-! ### Requests in a row -/

/-- **A request for interrupts is accepted**, and the list has one more descriptor, or it is
rejected, and the list is as it was. -/
theorem Lists.answer {r : Request} {signalling : Resource.Signalling} {numbers : List UInt32}
    (hl : Lists w.tree n label buffer endTag bytes hs is) (hs₀ : w.tree.Sound fun _ => True)
    (hfit : (r.apply w).tree.Fits) (hr : r.asks n = some (signalling, numbers)) :
    (∃ h i result, r.interrupt? n = some i ∧ (1 ≤ numbers.length ∧ numbers.length ≤ 255) ∧
      r.perform w = .ok result (r.apply w) ∧ (∀ x ∈ result, x = h) ∧ w.tree.contains h = false ∧
      Lists (r.apply w).tree n label buffer endTag bytes (hs ++ [h]) (is ++ [i])) ∨
    (∃ e, r.interrupt? n = none ∧ ¬(1 ≤ numbers.length ∧ numbers.length ≤ 255) ∧
      r.perform w = .error e (r.apply w) ∧
      Lists (r.apply w).tree n label buffer endTag bytes hs is) := by
  have ho₁ := (Request.sound_apply hs₀ hfit).toOrdered
  have hsteady := r.steady hs₀ hfit
  have hend := Request.ends_asks hr hs₀ (by rwa [← r.apply_eq_after])
  cases hperform : r.perform w with
  | ok result w' =>
    obtain rfl : r.apply w = w' := (r.apply_eq_after w).trans (after_ok hperform)
    rw [hperform] at hend
    obtain ⟨h, i, rfl, rfl, ⟨_, hbuffer, hins⟩, hresult⟩ := hend
    obtain rfl := Except.ok.inj (hl.templateBuffer_eq.symm.trans hbuffer)
    have hnew : w.tree.contains h = false := by
      rw [Tree.contains, hins.new]
      rfl
    exact Or.inl ⟨h, i, result, Request.interrupt?_eq_some_iff.mpr hr,
      ⟨List.length_pos_iff.mpr i.numbers_ne_nil, i.length_le⟩, rfl, hresult, hnew,
      hl.insert hsteady ho₁ hins⟩
  | error e w' =>
    obtain rfl : r.apply w = w' := (r.apply_eq_after w).trans (after_error hperform)
    rw [hperform] at hend
    obtain ⟨hundone, hcause⟩ := hend
    have htemplate : requireTemplate w.tree (some n) = .ok () := by
      rw [requireTemplate, hl.templateBuffer_eq]
      rfl
    have hcount : ¬(1 ≤ numbers.length ∧ numbers.length ≤ 255) := by
      rintro ⟨hpos, hle⟩
      exact hcause Memory.suffices_ample (List.length_pos_iff.mp hpos) hle htemplate
    exact Or.inr ⟨e, Request.interrupt?_eq_none hr hcount, hcount, rfl,
      hl.of_listing_eq hsteady ho₁ (listing?_congr hundone.same n)⟩

/-- **All requests are answered**, and the list holds the interrupts of those that were accepted
behind those that it held. -/
theorem Lists.answered {requests : List Request}
    (hl : Lists w.tree n label buffer endTag bytes hs is) (hs₀ : w.tree.Sound fun _ => True)
    (hfit : ((amply requests).foldl Request.attempt w).tree.Fits)
    (halone : LeftAlone n w requests) : ∃ more, Answered n w requests more ∧
      Lists ((amply requests).foldl Request.attempt w).tree n label buffer endTag bytes (hs ++ more)
        (is ++ accepted n requests) := by
  induction requests generalizing w hs is with
  | nil =>
    refine ⟨[], .done w, ?_⟩
    rw [accepted, List.filterMap_nil, List.append_nil, List.append_nil]
    exact hl
  | cons r requests ih =>
    have hfit₁ : (r.apply w).tree.Fits := (leads_foldl (amply requests) (r.apply w)).1.fits hfit
    have hs₁ := Request.sound_apply hs₀ hfit₁
    cases hr : r.asks n with
    | none =>
      have hl₁ := hl.of_listing_eq (r.steady hs₀ hfit₁) hs₁.toOrdered (halone.1 hr)
      obtain ⟨more, hanswered, hlists⟩ := ih hl₁ hs₁ hfit halone.2
      refine ⟨more, .other hr hanswered, ?_⟩
      have hnone : r.interrupt? n = none := by
        rw [Request.interrupt?, hr]
        rfl
      rwa [accepted, List.filterMap_cons_none hnone]
    | some asked =>
      rcases hl.answer hs₀ hfit₁ hr with
        ⟨h, i, result, hsome, hcount, hperform, hresult, hnew, hl₁⟩ |
          ⟨e, hnone, hcount, hperform, hl₁⟩
      · obtain ⟨more, hanswered, hlists⟩ := ih hl₁ hs₁ hfit halone.2
        refine ⟨h :: more, .accepted hr hcount hperform hresult hnew hanswered, ?_⟩
        rw [accepted, List.filterMap_cons_some hsome, List.append_cons hs, List.append_cons is]
        exact hlists
      · obtain ⟨more, hanswered, hlists⟩ := ih hl₁ hs₁ hfit halone.2
        refine ⟨more, .rejected hr hcount hperform hanswered, ?_⟩
        rwa [accepted, List.filterMap_cons_none hnone]

/-- **What becomes of a list of resources** in the course of requests. -/
structure Served (n : Handle) (bytes : Bytes) (w : Workbench) (requests : List Request)
    (t : Tree) : Prop where
  /-- The buffer holds the descriptors of the requests that were accepted, in order, and the End
  Tag behind them. -/
  listed : ∃ label buffer endTag descriptors, Answered n w requests descriptors ∧
    Lists t n label buffer endTag bytes descriptors (accepted n requests)
  /-- These are the bytes of the `Name`. -/
  encode_eq : t.encode n = .ok (0x08 :: (bytes ++
    Aml.buffer ((accepted n requests).flatMap Resource.Interrupt.encode ++ [0x79, 0x00])))
  /-- And from them the interrupts are read back. -/
  interruptsOf_eq : Resource.interruptsOf ((accepted n requests).flatMap
    Resource.Interrupt.encode ++ [0x79, 0x00]) = .ok (accepted n requests)

/-- **A list of resources holds what was asked for**, in every tree that requests make, whatever
is requested in between, as long as that leaves the list alone. -/
theorem served_run (attempts : List (Attempt Request)) (more : List Request) {name : String}
    {bytes : Bytes} (hname : Aml.objectName name false = .ok bytes) {parent : Option Handle}
    (hparent : ∀ p, parent = some p → ∃ kind, (run attempts).hasOpcode p (.region kind) = true)
    (hfit : (run (attempts ++ amply (.declareTemplate name parent :: more))).Fits) :
    ∃ n w, declareTemplate name parent (bench attempts) = .ok n w ∧ (LeftAlone n w more →
      Served n bytes w more (run (attempts ++ amply (.declareTemplate name parent :: more)))) := by
  have hrun : run (attempts ++ amply (.declareTemplate name parent :: more)) = ((amply more).foldl
      Request.attempt (after (declareTemplate name parent) (bench attempts))).tree :=
    run_append attempts _
  rw [hrun] at hfit ⊢
  have hfit₁ := (leads_foldl (amply more) _).1.fits hfit
  have hlead := leads_declareTemplate criterion_true name parent (bench attempts)
  have hs : (run attempts).Sound fun _ => True := sound_run_true (hlead.1.fits hfit₁)
  have hrequire : requireParent (run attempts) parent = .ok () := by
    rcases parent with _ | p
    · rfl
    · obtain ⟨kind, hk⟩ := hparent p rfl
      rcases kind with _ | _ <;> simp [requireParent, hk]
  have hend := ends_declareTemplate (w := bench attempts) name parent hs hfit₁
  have hs₁ := hlead.2 hfit₁ hs
  cases hdeclare : declareTemplate name parent (bench attempts) with
  | error e w =>
    rw [hdeclare] at hend
    exact absurd hname (hend.2 Memory.suffices_ample hrequire bytes)
  | ok n w =>
    rw [hdeclare] at hend
    rw [after_ok hdeclare] at hfit hs₁ ⊢
    obtain ⟨label, buffer, endTag, bytes', hname', hdeclared, hlabel, hbuffer, htag⟩ := hend
    obtain rfl := Except.ok.inj (hname'.symm.trans hname)
    have hl : Lists w.tree n label buffer endTag bytes' [] [] :=
      ⟨listing?_eq_some_iff.mpr ⟨_, _, hdeclared.found, hbuffer⟩, ⟨_, hlabel⟩, .nil, ⟨_, htag⟩⟩
    refine ⟨n, w, rfl, fun halone => ?_⟩
    obtain ⟨descriptors, hanswered, hlists⟩ := hl.answered hs₁ hfit halone
    refine ⟨⟨label, buffer, endTag, descriptors, hanswered, hlists⟩, ?_, ?_⟩
    · exact hlists.encode_eq ((leads_foldl (amply more) w).2 hfit hs₁).toOrdered
    · exact Resource.interruptsOf_flatMap _ [0x00]

/-- Requests at the resources of a device: of the three for interrupts the second one names none,
and in between the device gets an identifier, the End Tag is attached where it is already, and the
`Name` is detached from the device. -/
def resourceRequests : List Request :=
  [.addResourceInterrupt ⟨5, 0⟩ ⟨.consumer, .level, .low, .exclusive⟩ [41],
    .declareInteger "_UID" 1 (some ⟨1, 0⟩),
    .addInterrupt ⟨.consumer, .edge, .high, .shared⟩ [] (some ⟨5, 0⟩),
    .edit (.attach ⟨2, 0⟩ ⟨3, 0⟩), .edit (.detach ⟨5, 0⟩),
    .addInterrupt ⟨.consumer, .edge, .high, .shared⟩ [3, 4] (some ⟨5, 0⟩)]

/-- The resources of the device are the interrupts of the first and the third request. -/
theorem served_run_device : ∃ w,
    declareTemplate "_CRS" (some ⟨1, 0⟩) (bench (amply [.declareRegion .device "COM1" none])) =
      .ok ⟨5, 0⟩ w ∧
    Served ⟨5, 0⟩ [0x5F, 0x43, 0x52, 0x53] w resourceRequests
      (run (amply [.declareRegion .device "COM1" none] ++
        amply (.declareTemplate "_CRS" (some ⟨1, 0⟩) :: resourceRequests))) ∧
    (accepted ⟨5, 0⟩ resourceRequests).map Resource.Interrupt.numbers = [[41], [3, 4]] := by
  have hname : Aml.objectName "_CRS" false = .ok [0x5F, 0x43, 0x52, 0x53] := rfl
  have hparent : ∀ p, some ⟨1, 0⟩ = some p → ∃ kind,
      (run (amply [.declareRegion .device "COM1" none])).hasOpcode p (.region kind) = true := by
    rintro p ⟨⟩
    exact ⟨.device, rfl⟩
  obtain ⟨n, w, hdeclare, hserved⟩ := served_run _ resourceRequests hname hparent (by decide)
  have hrun : declareTemplate "_CRS" (some ⟨1, 0⟩)
      (bench (amply [.declareRegion .device "COM1" none])) =
        .ok ⟨5, 0⟩ (after (declareTemplate "_CRS" (some ⟨1, 0⟩))
          (bench (amply [.declareRegion .device "COM1" none]))) := rfl
  obtain ⟨rfl, rfl⟩ := EStateM.Result.ok.inj (hdeclare.symm.trans hrun)
  exact ⟨_, hdeclare, hserved (by decide), rfl⟩

end AcpiTables.Assembly
