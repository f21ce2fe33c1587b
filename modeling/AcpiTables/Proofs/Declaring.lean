import AcpiTables.Aml.Term
import AcpiTables.Proofs.Declarations
import AcpiTables.Proofs.Deleting
import AcpiTables.Proofs.Tree.Stands

/-!
# What declarations declare

A `AcpiTables.Assembly.Declaration` is what one request declares: a region, or a `Name` with one of
the values that such requests write. The request succeeds exactly if the arguments are valid and
the parent is a region, or none is given. In particular the steps that come late, when nodes have
been made already, fail only on a name that cannot be written. This is so where there is memory
enough. Nothing comes of a declaration that fails, whatever memory there is
(`AcpiTables.Assembly.Request.ends`).

The one thing to know of a success is which nodes are new. They are the subtree of the declared
object (`AcpiTables.Assembly.Declared.appears`), so no node is left without an owner, and there are
as many as the walk through the subtree finds. What the object is written as is read off the
subtree in the same way.

| result | theorem |
|---|---|
| what is new once an object was declared | `AcpiTables.Assembly.Declared.appears` |
| how a declaration ends | `AcpiTables.Assembly.Declaration.declares_perform` |
| the same in the trees that requests make | `AcpiTables.Assembly.declaresIfValid_run` |
-/

namespace AcpiTables

namespace Tree

variable {t t' : Tree} {h p : Handle} {ns : List Handle}

/-- **New nodes are counted.** -/
theorem Accounts.live_eq_add (ha : t.Accounts) (ha' : t'.Accounts) (hnd : ns.Nodup)
    (hnew : ∀ x ∈ ns, t.contains x = false)
    (hiff : ∀ x, t'.contains x = true ↔ t.contains x = true ∨ x ∈ ns) :
    t'.live = t.live + ns.length := by
  obtain ⟨hs, hnd₁, hmem₁, hlen₁⟩ := ha.exists_handles
  obtain ⟨hs', hnd₂, hmem₂, hlen₂⟩ := ha'.exists_handles
  have hdisjoint : hs.Disjoint ns := by
    intro x hx hns
    exact Bool.false_ne_true ((hnew x hns).symm.trans ((hmem₁ x).mp hx))
  have hperm : hs'.Perm (hs ++ ns) := by
    refine (List.perm_ext_iff_of_nodup hnd₂ (hnd₁.append hnd hdisjoint)).mpr fun x => ?_
    rw [hmem₂, hiff, List.mem_append, hmem₁]
  rw [← hlen₁, ← hlen₂, hperm.length_eq, List.length_append]

end Tree

namespace Assembly

variable {w w' : Workbench} {h p : Handle} {parent : Option Handle} {ns : List Handle}
  {content : Content}

/-! ### Places -/

/-- **A place for a declaration**: at the top, or in a `Scope` or `Device` that is there. -/
def IsPlace (t : Tree) (parent : Option Handle) : Prop :=
  ∀ p, parent = some p → ∃ kind, t.opcode p = .ok (some (.region kind))

theorem requireParent_eq_ok_iff {t : Tree} :
    requireParent t parent = .ok () ↔ IsPlace t parent := by
  cases parent with
  | none => exact iff_of_true rfl nofun
  | some p =>
    rw [requireParent_some_iff]
    constructor
    · rintro ⟨kind, label, members, above, hp⟩ q hq
      obtain rfl := Option.some.inj hq
      exact ⟨kind, Tree.opcode_eq hp⟩
    · intro hplace
      obtain ⟨kind, hopcode⟩ := hplace p rfl
      obtain ⟨⟨content, above⟩, hp, hcontent⟩ := Tree.opcode_eq_ok_iff.mp hopcode
      obtain ⟨label, members, rfl⟩ := Content.opcode_eq_region_iff.mp hcontent
      exact ⟨kind, label, members, above, hp⟩

/-! ### New objects -/

/-- **An object appeared** with some nodes and bytes, at a place. -/
structure Appears (w : Workbench) (parent : Option Handle) (count : Nat)
    (encoded : Except Error Bytes) (h : Handle) (w' : Workbench) : Prop where
  /-- The object is new. -/
  new : w.tree.contains h = false
  /-- It has the parent that was asked for, if any. -/
  owner : w'.tree.parent h = .ok parent
  /-- The parent is a `Scope` or `Device` that has one more member, the last one. It is otherwise
  the same. -/
  listed : ∀ p, parent = some p → ∃ kind label members above,
    w.tree.find? p = some ⟨.region kind label members, above⟩ ∧
      w'.tree.find? p = some ⟨.region kind label (members ++ [h]), above⟩
  /-- All other nodes that were there are the same. -/
  kept : ∀ x node, w.tree.find? x = some node → parent ≠ some x → w'.tree.find? x = some node
  /-- The new nodes are the object and what is below it. -/
  made : ∀ x, x ∈ w'.tree.postorder h ↔ w'.tree.contains x = true ∧ w.tree.contains x = false
  /-- There are that many nodes more. -/
  live : w'.tree.live = w.tree.live + count
  /-- The object has these bytes. -/
  encode : w'.tree.encode h = encoded
  /-- Nothing was told. -/
  log_eq : w'.log = w.log

namespace Declared

/-- The object has a place. -/
theorem isPlace (hd : Declared w ns h content parent w') : IsPlace w.tree parent := by
  intro p hp
  obtain ⟨kind, label, members, above, hbefore, -⟩ := hd.listed p hp
  exact ⟨kind, Tree.opcode_eq hbefore⟩

/-- The handles that denote nodes are those that did and the new ones. -/
theorem contains_iff (hd : Declared w ns h content parent w')
    (hns : ∀ x ∈ ns, w'.tree.contains x = true) (x : Handle) :
    w'.tree.contains x = true ↔ w.tree.contains x = true ∨ x ∈ ns := by
  by_cases hx : x ∈ ns
  · exact iff_of_true (hns x hx) (Or.inr hx)
  · rw [or_iff_left hx]
    by_cases hparent : parent = some x
    · obtain ⟨kind, label, members, above, hp, hp'⟩ := hd.listed x hparent
      exact iff_of_true (Tree.contains_iff.mpr ⟨_, hp'⟩) (Tree.contains_iff.mpr ⟨_, hp⟩)
    · rw [Tree.contains, Tree.contains, hd.kept x hx hparent]

/-- **A declared object appears** with its subtree, if that is all that is new. -/
theorem appears (hd : Declared w ns h content parent w') (hs : w.tree.Sound fun _ => True)
    (hs' : w'.tree.Sound fun _ => True) (hns : ∀ x, x ∈ w'.tree.postorder h ↔ x ∈ ns) :
    Appears w parent (w'.tree.postorder h).length (w'.tree.encode h) h w' := by
  have hnew : ∀ x ∈ w'.tree.postorder h, w.tree.contains x = false := by
    intro x hx
    rw [Tree.contains, hd.new x ((hns x).mp hx)]
    rfl
  have hiff : ∀ x, w'.tree.contains x = true ↔
      w.tree.contains x = true ∨ x ∈ w'.tree.postorder h := by
    intro x
    rw [hns]
    exact hd.contains_iff
      (fun x hx => hs'.contains_of_mem_postorder hd.found ((hns x).mpr hx)) x
  have hself : h ∈ w'.tree.postorder h :=
    (hs'.mem_postorder_iff hd.found).mpr Relation.ReflTransGen.refl
  exact {
    new := hnew h hself
    owner := Tree.parent_eq hd.found
    listed := hd.listed
    kept := fun x node hx hparent => (hd.kept x (hd.not_mem hx) hparent).trans hx
    made := fun x => by
      constructor
      · intro hx
        exact ⟨(hiff x).mpr (Or.inr hx), hnew x hx⟩
      · rintro ⟨hx, hnot⟩
        exact ((hiff x).mp hx).resolve_left (Bool.eq_false_iff.mp hnot)
    live := hs.accounts.live_eq_add hs'.accounts (hs'.nodup_postorder hd.found) hnew hiff
    encode := rfl
    log_eq := hd.log_eq }

/-- Where an object stands that has the new nodes below it, it appears with its bytes. -/
theorem appears_of_stands {o : Aml.Object String} {below : List Handle}
    (hd : Declared w (h :: below) h content parent w') (hs : w.tree.Sound fun _ => True)
    (hs' : w'.tree.Sound fun _ => True) (horder : w'.tree.postorder h = below ++ [h])
    (hstands : o.Stands w'.tree h) : Appears w parent (below.length + 1) o.write h w' := by
  have hns : ∀ x, x ∈ w'.tree.postorder h ↔ x ∈ h :: below := by
    intro x
    rw [horder]
    exact (List.perm_append_singleton h below).mem_iff
  have happears := hd.appears hs hs' hns
  rwa [hstands.encode_eq hs'.toOrdered, horder, List.length_append] at happears

end Declared

/-! ### Declarations -/

/-- What one request declares. -/
inductive Declaration where
  /-- A region without members. -/
  | region (kind : Region) (name : String)
  /-- A list of resources without any. -/
  | template (name : String)
  /-- An integer. -/
  | integer (name : String) (value : UInt64)
  /-- A string. -/
  | string (name value : String)
  /-- The hardware identifier of a device. -/
  | hardwareId (id : String)
deriving DecidableEq, Repr

namespace Declaration

/-- The request. -/
def perform : Declaration → Option Handle → AssemblyM Handle
  | region kind name => declareRegion kind name
  | template name => declareTemplate name
  | integer name value => declareInteger name value
  | string name value => declareString name value
  | hardwareId id => declareHardwareId id

/-- The declared name. -/
def name : Declaration → String
  | region _ name => name
  | template name => name
  | integer name _ => name
  | string name _ => name
  | hardwareId _ => "_HID"

/-- Whether the root can be declared. -/
def allowRoot : Declaration → Bool
  | region kind _ => kind == .scope
  | _ => false

/-- Whether the value is one: a string has no characters but those of ASCII, and not the zero. -/
def HasValue : Declaration → Prop
  | string _ value => ∀ c ∈ value.toList, 0 < c.toNat ∧ c.toNat < 128
  | hardwareId id => HardwareId.isPnp id = true ∨ HardwareId.isAcpi id = true
  | _ => True

/-- **A valid declaration**: the name can be written, and the value is one. -/
def Valid (d : Declaration) : Prop :=
  (∃ bytes, Aml.objectName d.name d.allowRoot = .ok bytes) ∧ d.HasValue

/-- What is declared, as it is written down. -/
def term : Declaration → Aml.Term
  | region kind name => .region kind name []
  | template name => .name name (.buffer [0x79, 0x00])
  | integer name value => .name name (.integer value)
  | string name value => .name name (.string value)
  | hardwareId id => .name "_HID" (if HardwareId.isPnp id then .eisaId id else .string id)

/-- How many nodes there are: the object, its label, the value and an End Tag in it. -/
def count : Declaration → Nat
  | region _ _ => 2
  | template _ => 4
  | _ => 3

end Declaration

/-! ### How they end -/

/-- **A name is declared** at a place, unless it cannot be written or there is no such place. -/
def Declares (m : AssemblyM Handle) (w : Workbench) (parent : Option Handle) (valid : Prop)
    (count : Nat) (encoded : Except Error Bytes) : Prop :=
  Ends m w (fun h w' => (IsPlace w.tree parent ∧ valid) ∧ Appears w parent count encoded h w')
    fun w' => Undone w w' ∧ ¬(IsPlace w.tree parent ∧ valid)

/-- What is valid and the bytes may be said in another way. -/
theorem Declares.congr {m : AssemblyM Handle} {valid valid' : Prop} {count : Nat}
    {encoded encoded' : Except Error Bytes} (hd : Declares m w parent valid count encoded)
    (hvalid : valid' ↔ valid) (hencoded : encoded' = encoded) :
    Declares m w parent valid' count encoded' := by
  subst hencoded
  rwa [← propext hvalid] at hd

/-- A declaration that fails on its name, if not on its place, is not valid. -/
theorem not_isPlace_and_name {name : String} {allowRoot : Bool}
    (hname : requireParent w.tree parent = .ok () →
      ∀ bytes, Aml.objectName name allowRoot ≠ .ok bytes) :
    ¬(IsPlace w.tree parent ∧ ∃ bytes, Aml.objectName name allowRoot = .ok bytes) := by
  rintro ⟨hplace, bytes, hok⟩
  exact hname (requireParent_eq_ok_iff.mpr hplace) bytes hok

/-- A `Name` with a value has its label and the value below it. -/
theorem declares_value (name : String) {value : Bytes} (hv : Aml.IsEncoded value)
    (parent : Option Handle) : Declares (declareValue name value parent) w parent
      (∃ bytes, Aml.objectName name false = .ok bytes) 3 (Aml.declareName name value) := by
  intro hs
  have hdata : Tree.requireData .raw value = .ok () := by
    obtain ⟨mark, rest, rfl, -⟩ := hv.exists_cons
    rfl
  refine ((ends_declareValue name value parent).sound
    (leads_declareValue criterion_true name hv parent)).mono ?_ ?_ hs
  · rintro h w' ⟨hs', label, below, bytes, hname, hd, hlabel, hbelow⟩
    have horder : w'.tree.postorder h = [label, below, h] := by
      rw [hs'.postorder_eq hd.found, Content.links_name, List.flatMap_cons, List.flatMap_cons,
        List.flatMap_nil, hs'.postorder_leaf hlabel rfl, hs'.postorder_leaf hbelow rfl]
      rfl
    have hstands : (Aml.Object.name name (.encoded value)).Stands w'.tree h := by
      rw [Aml.Object.Stands]
      exact ⟨label, below, parent, bytes, hd.found, hname, ⟨_, hlabel⟩, _, hbelow⟩
    exact ⟨⟨hd.isPlace, bytes, hname⟩, hd.appears_of_stands hs hs' horder hstands⟩
  · rintro w' ⟨-, hundone, hname⟩
    have hname := hname Memory.suffices_ample
    exact ⟨hundone, not_isPlace_and_name fun hparent => hname hparent hdata⟩

/-- A list of resources has its label and a buffer with an End Tag below it. -/
theorem declares_template (name : String) (parent : Option Handle) :
    Declares (declareTemplate name parent) w parent
      (∃ bytes, Aml.objectName name false = .ok bytes) 4
      (Aml.declareName name (Aml.buffer Resource.endTag)) := by
  intro hs
  refine ((ends_declareTemplate name parent).sound
    (leads_declareTemplate criterion_true name parent)).mono ?_ ?_ hs
  · rintro h w' ⟨hs', label, buffer, endTag, bytes, hname, hd, hlabel, hbuffer, htag⟩
    have horder : w'.tree.postorder h = [label, endTag, buffer, h] := by
      rw [hs'.postorder_eq hd.found, Content.links_name, List.flatMap_cons, List.flatMap_cons,
        List.flatMap_nil, hs'.postorder_leaf hlabel rfl, hs'.postorder_eq hbuffer,
        Content.links_buffer, List.flatMap_cons, List.flatMap_nil, hs'.postorder_leaf htag rfl]
      rfl
    have hstands : (Aml.Object.name name (.buffer [Resource.endTag])).Stands w'.tree h := by
      rw [Aml.Object.Stands]
      exact ⟨label, buffer, parent, bytes, hd.found, hname, ⟨_, hlabel⟩, [endTag], some h, hbuffer,
        .cons ⟨_, htag⟩ .nil⟩
    exact ⟨⟨hd.isPlace, bytes, hname⟩, hd.appears_of_stands hs hs' horder hstands⟩
  · rintro w' ⟨-, hundone, hname⟩
    exact ⟨hundone, not_isPlace_and_name (hname Memory.suffices_ample)⟩

/-- A region has its label below it. -/
theorem declares_region (kind : Region) (name : String) (parent : Option Handle) :
    Declares (declareRegion kind name parent) w parent
      (∃ bytes, Aml.objectName name (kind == .scope) = .ok bytes) 2
      (Aml.declareRegion kind name []) := by
  intro hs
  refine ((ends_declareRegion kind name parent).sound
    (leads_declareRegion criterion_true kind name parent)).mono ?_ ?_ hs
  · rintro h w' ⟨hs', label, bytes, hname, hd, hlabel⟩
    have horder : w'.tree.postorder h = [label, h] := by
      rw [hs'.postorder_eq hd.found, Content.links_region, List.flatMap_cons, List.flatMap_nil,
        hs'.postorder_leaf hlabel rfl]
      rfl
    have hstands : (Aml.Object.region kind name []).Stands w'.tree h := by
      rw [Aml.Object.Stands]
      exact ⟨label, [], parent, bytes, hd.found, hname, ⟨_, hlabel⟩, trivial⟩
    exact ⟨⟨hd.isPlace, bytes, hname⟩, hd.appears_of_stands hs hs' horder hstands⟩
  · rintro w' ⟨-, hundone, hname⟩
    exact ⟨hundone, not_isPlace_and_name (hname Memory.suffices_ample)⟩

/-- A string is declared only if it can be one. -/
theorem declares_string (name value : String) (parent : Option Handle) :
    Declares (declareString name value parent) w parent
      ((∃ bytes, Aml.objectName name false = .ok bytes) ∧
        ∀ c ∈ value.toList, 0 < c.toNat ∧ c.toNat < 128) 3
      (Aml.declareName name (Aml.string value)) := by
  have hprintable : value.toList.all isPrintable = true ↔
      ∀ c ∈ value.toList, 0 < c.toNat ∧ c.toNat < 128 := by
    simp [isPrintable]
  unfold declareString
  by_cases hv : value.toList.all isPrintable = true
  · have hdeclare := declares_value (w := w) name (isEncoded_string hv) parent
    simp only [hv, Bool.not_true, Bool.false_eq_true, if_false, ← hprintable, and_true]
    exact hdeclare
  · have hv' : value.toList.all isPrintable = false := Bool.eq_false_iff.mpr hv
    simp only [hv', Bool.not_false, if_true]
    refine fun _ _ => ⟨Undone.refl w, ?_⟩
    rintro ⟨-, -, hvalue⟩
    exact hv (hprintable.mpr hvalue)

/-- A hardware identifier has a value if it is of one of the two forms. -/
theorem hardwareIdValue_cases (id : String) :
    (∃ value, hardwareIdValue id = .ok value ∧ (HardwareId.isPnp id = true ∨
      HardwareId.isAcpi id = true) ∧
        Aml.Term.encode (if HardwareId.isPnp id then .eisaId id else .string id) = .ok value) ∨
      ∃ e, hardwareIdValue id = .error e ∧ ¬(HardwareId.isPnp id = true ∨
        HardwareId.isAcpi id = true) := by
  unfold hardwareIdValue
  by_cases hpnp : HardwareId.isPnp id = true
  · rw [if_pos hpnp, if_pos hpnp, Aml.Term.encode, Aml.eisaId, if_pos hpnp]
    exact Or.inl ⟨_, rfl, Or.inl hpnp, rfl⟩
  · rw [if_neg hpnp, if_neg hpnp]
    by_cases hacpi : HardwareId.isAcpi id = true
    · rw [if_pos hacpi]
      exact Or.inl ⟨_, rfl, Or.inr hacpi, rfl⟩
    · rw [if_neg hacpi]
      refine Or.inr ⟨_, rfl, ?_⟩
      rintro (hid | hid)
      · exact hpnp hid
      · exact hacpi hid

theorem Declaration.leads_perform (d : Declaration) (parent : Option Handle) :
    Keeps (Leads fun _ => True) (d.perform parent) := by
  cases d with
  | region kind name => exact leads_declareRegion criterion_true kind name parent
  | template name => exact leads_declareTemplate criterion_true name parent
  | integer name value => exact leads_declareValue criterion_true name (.integer value) parent
  | string name value => exact leads_declareString criterion_true name value parent
  | hardwareId id => exact leads_declareHardwareId criterion_true id parent

/-- **How a declaration ends**: it declares its name, if it is valid. -/
theorem Declaration.declares_perform (d : Declaration) (parent : Option Handle) :
    Declares (d.perform parent) w parent d.Valid d.count d.term.encode := by
  cases d with
  | region kind name => exact (declares_region kind name parent).congr (iff_of_eq (and_true _)) rfl
  | template name => exact (declares_template name parent).congr (iff_of_eq (and_true _)) rfl
  | integer name value =>
    exact (declares_value name (.integer value) parent).congr (iff_of_eq (and_true _)) rfl
  | string name value => exact declares_string name value parent
  | hardwareId id =>
    rcases hardwareIdValue_cases id with ⟨value, hvalue, hid, hterm⟩ | ⟨e, herr, hid⟩
    · refine Ends.asked (fun value' hvalue' => ?_) fun e herr => nomatch hvalue.symm.trans herr
      obtain rfl := Except.ok.inj (hvalue.symm.trans hvalue')
      refine (declares_value "_HID" (isEncoded_hardwareIdValue hvalue) parent).congr ?_ ?_
      · exact and_iff_left hid
      · rw [term, Aml.Term.encode, hterm]
        rfl
    · refine Ends.asked (fun value hvalue => nomatch hvalue.symm.trans herr) fun _ _ => ?_
      refine ⟨Undone.refl w, ?_⟩
      rintro ⟨-, -, hvalue⟩
      exact hid hvalue

/-- **A declaration succeeds exactly if it is valid**, and declares what it says. -/
structure DeclaresIfValid (w : Workbench) (d : Declaration) (parent : Option Handle) : Prop where
  /-- It succeeds exactly if it is valid and has a place. -/
  succeeds_iff : (∃ h w', d.perform parent w = .ok h w') ↔ IsPlace w.tree parent ∧ d.Valid
  /-- An object appears then, with the bytes of what was declared. -/
  appears : ∀ h w', d.perform parent w = .ok h w' →
    Appears w parent d.count d.term.encode h w'
  /-- Otherwise nothing comes of it. -/
  undone : ∀ e w', d.perform parent w = .error e w' → Undone w w'

/-- **Declarations in the trees that requests make**, as long as all slots have numbers of their
own afterwards. -/
theorem declaresIfValid_run (attempts : List (Attempt Request)) (hw : w.tree = run attempts)
    (d : Declaration) (parent : Option Handle) (hfit : (after (d.perform parent) w).tree.Fits) :
    DeclaresIfValid w d parent := by
  have hs : w.tree.Sound fun _ => True := by
    rw [hw]
    exact sound_run_true (hw ▸ (d.leads_perform parent w).1.fits hfit)
  have hend := d.declares_perform parent hs hfit
  cases hr : d.perform parent w with
  | ok h w' =>
    rw [hr] at hend
    refine ⟨iff_of_true ⟨h, w', hr⟩ hend.1, fun h₁ w₁ hok => ?_,
      fun e w₁ herr => nomatch hr.symm.trans herr⟩
    obtain ⟨rfl, rfl⟩ := EStateM.Result.ok.inj (hr.symm.trans hok)
    exact hend.2
  | error e w' =>
    rw [hr] at hend
    have hfails : ∀ h w₁, d.perform parent w ≠ .ok h w₁ := fun h w₁ hok =>
      nomatch hr.symm.trans hok
    refine ⟨iff_of_false ?_ hend.2, fun h w₁ hok => absurd hok (hfails h w₁),
      fun e₁ w₁ herr => ?_⟩
    · rintro ⟨h, w₁, hok⟩
      exact hfails h w₁ hok
    · obtain ⟨rfl, rfl⟩ := EStateM.Result.error.inj (hr.symm.trans herr)
      exact hend.1

/-- The resources of a device. -/
theorem declaresIfValid_run_template : DeclaresIfValid
    ⟨run (amply [.declareRegion .device "COM1" none]), []⟩ (.template "_CRS") (some ⟨1, 0⟩) :=
  declaresIfValid_run (amply [.declareRegion .device "COM1" none]) rfl _ _ (by decide)

end Assembly

end AcpiTables
