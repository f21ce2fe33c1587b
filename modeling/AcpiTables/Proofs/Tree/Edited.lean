import AcpiTables.Proofs.Tree.Grown

/-!
# What requests leave behind

There are few ways in which a request can end, and all that can be said of one request is said by
going through them once. `AcpiTables.Tree.Edited` lists them, with the conditions under which each
request is granted, and `AcpiTables.Tree.Request.edited` says that there are no others in ample
memory. Where there is none, `AcpiTables.Tree.Request.apply_cases` adds what is left over.

A request that returns a handle has made a node for it (`AcpiTables.Tree.Request.isNew_of_ok`).
-/

namespace AcpiTables.Tree

variable {t t' : Tree}

/-- **What a request leaves behind.** -/
inductive Edited (t : Tree) : Request → Tree → Prop
  /-- The request failed, and everything is as it was. -/
  | failed {r : Request} : Edited t r t
  /-- Data was made. -/
  | data {type : DataType} {bytes : Bytes} {ns : List Handle} {t' : Tree} :
    Grown t ns t' → Edited t (.makeData type bytes) t'
  /-- An empty object was made. -/
  | object {opcode : Opcode} {name : Option String} {ns : List Handle} {t' : Tree} :
    Grown t ns t' → Edited t (.makeObject opcode name) t'
  /-- A `Name` was made, which took over a detached value. -/
  | named {name : String} {value label h : Handle} {bytes : Bytes} {content : Content} {t' : Tree} :
    t.find? value = some ⟨content, none⟩ → t.Named bytes content value label h t' →
    Edited t (.makeName name value) t'
  /-- A detached node was attached. -/
  | attached {p h : Handle} {above node : Node} : t.Attachable p h above node →
    Edited t (.attach p h) (t.attached p h above)
  /-- A detached descriptor was attached. -/
  | appended {p h : Handle} {above node : Node} : t.Attachable p h above node →
    Edited t (.appendDescriptor p h) (t.attached p h above)
  /-- A child was detached. -/
  | detached {p h : Handle} {above node : Node} : t.find? p = some above →
    t.find? h = some node → node.parent = some p →
    Edited t (.detach h) (t.relink p (·.mapChildren fun children => children.erase h) h none)
  /-- A detached node took the place of another. -/
  | exchanged {p old new : Handle} {position : Position} {above oldNode newNode : Node} :
    t.find? p = some above → t.find? old = some oldNode → t.find? new = some newNode →
    oldNode.parent = some p → newNode.parent = none → t.isAbove new p = false →
    above.content.position? old = some position →
    above.content.Admits oldNode.content newNode.content position →
    Edited t (.replace old new) (t.exchanged p old new position)
  /-- A detached node was deleted, with its subtree. -/
  | deleted {h : Handle} {node : Node} : t.find? h = some node → node.parent = none →
    Edited t (.delete h) ((t.postorder h).foldr (fun h t => t.release h) t)

/-- What fails changes nothing. -/
theorem Edited.of_error {α : Type} {m : TreeM α} {r : Request} {e : Error}
    (herr : m t = .error e t) : t.Edited r (after m t) := by
  rw [after_error herr]
  exact .failed

theorem edited_makeData (type : DataType) (bytes : Bytes) (ha : t.Accounts)
    (hfit : (after (makeData type bytes) t).Fits) :
    t.Edited (.makeData type bytes) (after (makeData type bytes) t) := by
  cases hr : requireData type bytes with
  | error e =>
    have hrun : makeData type bytes t = .error e t := by rw [makeData_eq, hr]
    exact .of_error hrun
  | ok u =>
    have hrun : makeData type bytes t = .ok (t.allocate (.data type bytes)).1
        (t.allocate (.data type bytes)).2 := by rw [makeData_eq, hr]
    rw [after_ok hrun] at hfit ⊢
    exact .data (ha.grown_allocate _ hfit)

theorem edited_makeObject (opcode : Opcode) (name : Option String) (ha : t.Accounts)
    (hfit : (after (makeObject opcode name) t).Fits) :
    t.Edited (.makeObject opcode name) (after (makeObject opcode name) t) := by
  unfold makeObject at hfit ⊢
  split at hfit
  · rw [after_ok (makeBuffer_eq t)] at hfit ⊢
    exact .object (ha.grown_allocate _ hfit)
  · next kind name =>
    cases hname : Aml.objectName name (kind == .scope) with
    | error e =>
      exact .of_error (makeRegion_error hname t)
    | ok bytes =>
      obtain ⟨h, label, t', hok, hg, -⟩ := ha.grown_makeRegion hname hfit
      rw [after_ok hok]
      exact .object hg
  · exact .failed

theorem edited_makeName (name : String) (value : Handle) (ha : t.Accounts)
    (hfit : (after (makeName name value) t).Fits) :
    t.Edited (.makeName name value) (after (makeName name value) t) := by
  rcases makeName_cases name value t with ⟨e, herr⟩ | ⟨node, bytes, hv, hd, hk, hname⟩
  · exact .of_error herr
  · obtain ⟨content, parent⟩ := node
    obtain rfl : parent = none := hd
    obtain ⟨h, label, t', hok, hm⟩ := ha.named hv hk hname hfit
    rw [after_ok hok]
    exact .named hv hm

/-- **Every request ends in one of these ways.** -/
theorem Request.edited (r : Request) (ha : t.Accounts) (hfit : (r.apply t).Fits) :
    t.Edited r (r.apply t) := by
  cases r with
  | makeData type bytes => exact edited_makeData type bytes ha hfit
  | makeObject opcode name => exact edited_makeObject opcode name ha hfit
  | makeName name value => exact edited_makeName name value ha hfit
  | attach p h =>
    rw [apply]
    rcases attach_cases p h t with ⟨e, herr⟩ | ⟨above, node, hatt, hok⟩
    · exact .of_error herr
    · rw [after_ok hok]
      exact .attached hatt
  | appendDescriptor p h =>
    rw [apply]
    rcases appendDescriptor_cases p h t with ⟨e, herr⟩ | ⟨above, node, items, hatt, -, hok⟩
    · exact .of_error herr
    · rw [after_ok hok]
      exact .appended hatt
  | detach h =>
    rw [apply]
    rcases detach_cases h t with ⟨e, herr⟩ | ⟨p, above, node, hn, hpar, hp, -, hok⟩
    · exact .of_error herr
    · rw [after_ok hok]
      exact .detached hp hn hpar
  | replace old new =>
    rw [apply]
    rcases replace_cases old new t with ⟨e, herr⟩ |
      ⟨p, position, above, oldNode, newNode, hp, ho, hn, hpar, hd, hna, hpos, hadm, hok⟩
    · exact .of_error herr
    · rw [after_ok hok]
      exact .exchanged hp ho hn hpar hd hna hpos hadm
  | delete h =>
    rw [apply]
    rcases delete_cases h t with ⟨e, herr⟩ | ⟨node, hn, hd, hok⟩
    · exact .of_error herr
    · rw [after_ok hok]
      exact .deleted hn hd

/-! ### What is returned -/

theorem isNew_makeData {type : DataType} {bytes : Bytes} {h : Handle} (ha : t.Accounts)
    (hfit : t'.Fits) (hr : makeData type bytes t = .ok h t') : t.IsNew h t' := by
  cases hd : requireData type bytes with
  | error e =>
    rw [makeData_eq, hd] at hr
    exact nomatch hr
  | ok u =>
    rw [makeData_eq, hd] at hr
    obtain ⟨rfl, rfl⟩ := EStateM.Result.ok.inj hr
    exact ha.isNew_allocate _ hfit

theorem isNew_makeObject {opcode : Opcode} {name : Option String} {h : Handle} (ha : t.Accounts)
    (hfit : t'.Fits) (hr : makeObject opcode name t = .ok h t') : t.IsNew h t' := by
  rw [← after_ok hr] at hfit
  unfold makeObject at hr hfit
  split at hr
  · rw [after_ok (makeBuffer_eq t)] at hfit
    obtain ⟨rfl, rfl⟩ := EStateM.Result.ok.inj ((makeBuffer_eq t).symm.trans hr)
    exact ha.isNew_allocate _ hfit
  · next kind name =>
    cases hname : Aml.objectName name (kind == .scope) with
    | error e => exact nomatch (makeRegion_error hname t).symm.trans hr
    | ok bytes =>
      obtain ⟨h', label, t₁, hok, hg, hh, -⟩ := ha.grown_makeRegion hname hfit
      obtain ⟨rfl, rfl⟩ := EStateM.Result.ok.inj (hok.symm.trans hr)
      exact hg.isNew List.mem_cons_self hh
  · exact nomatch hr

theorem isNew_makeName {name : String} {value h : Handle} (ha : t.Accounts) (hfit : t'.Fits)
    (hr : makeName name value t = .ok h t') : t.IsNew h t' := by
  rcases makeName_cases name value t with ⟨e, herr⟩ | ⟨node, bytes, hv, hd, hk, hname⟩
  · exact nomatch herr.symm.trans hr
  · obtain ⟨content, parent⟩ := node
    obtain rfl : parent = none := hd
    obtain ⟨h', label, t₁, hok, hm⟩ := ha.named hv hk hname (by rwa [after_ok hr])
    obtain ⟨rfl, rfl⟩ := EStateM.Result.ok.inj (hok.symm.trans hr)
    exact isNew_of_find? hm.find_object hm.found

/-- **A handle that is returned is new**, whatever memory there was. -/
theorem Request.isNew_of_ok [memory : Memory] {r : Request} {h : Handle} (ha : t.Accounts)
    (hfit : t'.Fits) (hr : r.perform t = .ok (some h) t') : t.IsNew h t' := by
  cases r.provided memory t with
  | short hrun => exact nomatch hrun.symm.trans hr
  | enough hrun =>
    have hample := hrun.symm.trans hr
    cases r with
    | makeData type bytes =>
      obtain ⟨h', hmake, hh⟩ := exists_of_map_ok hample
      exact Option.some.inj hh ▸ isNew_makeData ha hfit hmake
    | makeObject opcode name =>
      obtain ⟨h', hmake, hh⟩ := exists_of_map_ok hample
      exact Option.some.inj hh ▸ isNew_makeObject ha hfit hmake
    | makeName name value =>
      obtain ⟨h', hmake, hh⟩ := exists_of_map_ok hample
      exact Option.some.inj hh ▸ isNew_makeName ha hfit hmake
    | attach | appendDescriptor | detach | replace | delete =>
      obtain ⟨-, -, hh⟩ := exists_of_map_ok hample
      exact nomatch hh

end AcpiTables.Tree
