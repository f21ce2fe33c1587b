import AcpiTables.Proofs.Assembly
import AcpiTables.Proofs.Tree.Build

/-!
# Trees and builders agree

Objects can be built in trees or put together by builders, and the two can be mixed: where a
builder needs bytes, it takes a view of a node. `AcpiTables.Aml.Mixed` is an object of which
some parts are such views, each of a part that stands in a tree. Whatever the mixture is,
the bytes are those of the whole object (`AcpiTables.Aml.Mixed.write_eq`).

Building in a tree is one way to make parts stand there, and it works exactly for the objects
that builders can write. Nothing else in the tree changes meanwhile, so that views of parts
that were built before stay good.

| result | theorem |
|---|---|
| building agrees with writing, and so does every mixture | `AcpiTables.Assembly.build_agrees_write` |
-/

namespace AcpiTables

/-! ### Views -/

namespace Aml

/-- A value, or a view of one. -/
inductive MixedValue where
  /-- A value. -/
  | plain (value : Value)
  /-- A view of a node that is the value. -/
  | view (attempts : List (Attempt Assembly.Request)) (hfit : (Assembly.run attempts).Fits)
    (h : Handle) (value : Value) (hv : value.Stands (Assembly.run attempts) h)

/-- **An object of which some parts are views**, each of a node that is the part. -/
inductive Mixed where
  /-- A view of a node that is the object. -/
  | view (attempts : List (Attempt Assembly.Request)) (hfit : (Assembly.run attempts).Fits)
    (h : Handle) (o : Object String) (ho : o.Stands (Assembly.run attempts) h)
  /-- A `Name`. -/
  | name (written : String) (value : MixedValue)
  /-- A buffer. -/
  | buffer (descriptors : List Bytes)
  /-- A region. -/
  | region (kind : Region) (written : String) (members : List Mixed)

/-- The value itself. -/
def MixedValue.whole : MixedValue → Value
  | plain value => value
  | view _ _ _ value _ => value

/-- The bytes of a value, or of the node that is viewed. -/
def MixedValue.write : MixedValue → Except Error Bytes
  | plain value => return value.encode
  | view attempts _ h _ _ => (Assembly.run attempts).encode h

mutual

/-- The object without views. -/
def Mixed.whole : Mixed → Object String
  | .view _ _ _ o _ => o
  | .name written value => .name written value.whole
  | .buffer descriptors => .buffer descriptors
  | .region kind written members => .region kind written (wholeAll members)

/-- The objects without views. -/
def Mixed.wholeAll : List Mixed → List (Object String)
  | [] => []
  | m :: ms => m.whole :: wholeAll ms

end

mutual

/-- The bytes that builders put together from what is written and what is viewed. -/
def Mixed.write : Mixed → Except Error Bytes
  | .view attempts _ h _ _ => (Assembly.run attempts).encode h
  | .name written value => do
    let value ← value.write
    declareName written value
  | .buffer descriptors => return Aml.buffer descriptors.flatten
  | .region kind written members => do
    let label ← regionLabel kind written
    let members ← writeAll members
    return regionOf kind label members.flatten

/-- The bytes of each of several objects. -/
def Mixed.writeAll : List Mixed → Except Error (List Bytes)
  | [] => return []
  | m :: ms => do
    let bytes ← m.write
    let more ← writeAll ms
    return bytes :: more

end

end Aml

namespace Aml

theorem MixedValue.write_eq (value : MixedValue) : value.write = .ok value.whole.encode := by
  cases value with
  | plain value => rfl
  | view attempts hfit h value hv =>
    exact hv.encode_eq (Assembly.sound_run_true hfit).toOrdered

mutual

/-- **Builders write the same whether they are given parts or views of parts.** -/
theorem Mixed.write_eq : ∀ m : Mixed, m.write = m.whole.write
  | .view attempts hfit h o ho => by
    rw [Mixed.write, Mixed.whole]
    exact ho.encode_eq (Assembly.sound_run_true hfit).toOrdered
  | .name written value => by
    rw [Mixed.write, Mixed.whole, Object.write, value.write_eq]
    rfl
  | .buffer descriptors => by rw [Mixed.write, Mixed.whole, Object.write]
  | .region kind written members => by
    rw [Mixed.write, Mixed.whole, Object.write, Mixed.writeAll_eq members]

theorem Mixed.writeAll_eq : ∀ ms : List Mixed,
    Mixed.writeAll ms = Object.writeAll (Mixed.wholeAll ms)
  | [] => by rw [Mixed.writeAll, Mixed.wholeAll, Object.writeAll]
  | m :: ms => by
    rw [Mixed.writeAll, Mixed.wholeAll, Object.writeAll, Mixed.write_eq m, Mixed.writeAll_eq ms]

end

end Aml

namespace Assembly

/-! ### Building -/

/-- Requests to a tree can be made at a workbench. -/
theorem exists_run {attempts : List (Attempt Request)} {t' : Tree}
    (hf : (run attempts).Follows t') : ∃ more, t' = run (attempts ++ more) := by
  obtain ⟨edits, rfl⟩ := hf
  refine ⟨amply (edits.map .edit), ?_⟩
  rw [run, run, List.foldl_append, amply, List.map_map, List.foldl_map]
  generalize attempts.foldl Request.attempt ⟨Tree.empty, []⟩ = w
  induction edits generalizing w with
  | nil => rfl
  | cons r edits ih => exact ih { w with tree := r.apply w.tree }

/-- **What is there after an object was built** in a tree that requests make. -/
structure Built (attempts : List (Attempt Request)) (o : Aml.Object String) (bytes : Bytes)
    (root : Handle) (t' : Tree) : Prop where
  /-- The node has the bytes. -/
  encode : t'.encode root = .ok bytes
  /-- The node is the object. -/
  stands : o.Stands t' root
  /-- Nothing else has changed. -/
  kept : ∀ x node, (run attempts).find? x = some node → t'.find? x = some node
  /-- The tree is one that requests make. -/
  reached : ∃ more, t' = run (attempts ++ more)

/-- **Trees and builders agree.** In every tree that requests make, an object can be built
exactly if builders can write it, and the node has the bytes that they write. The bytes stay
the same if builders are given views of parts that stand in trees. -/
theorem build_agrees_write (attempts : List (Attempt Request)) {o : Aml.Object String}
    (ho : o.Proper) (hfit : (after o.build (run attempts)).Fits) :
    (∀ bytes, o.write = .ok bytes →
      ∃ root t', o.build (run attempts) = .ok root t' ∧ Built attempts o bytes root t') ∧
    (∀ e, o.write = .error e → ∃ e' t', o.build (run attempts) = .error e' t') ∧
    ∀ m : Aml.Mixed, m.whole = o → m.write = o.write := by
  have hfollows := Tree.follows_build o (run attempts)
  have hs := sound_run_true (hfollows.leads.1.fits hfit)
  have hs' := hfollows.leads.2 hfit hs
  have hagrees := Tree.does_build ho hs hfit
  refine ⟨fun bytes hw => ?_, fun e hw => ?_, fun m hm => by rw [m.write_eq, hm]⟩
  · rw [hw] at hagrees
    cases hrun : o.build (run attempts) with
    | error e t' =>
      rw [hrun] at hagrees
      exact absurd hagrees id
    | ok root t' =>
      rw [hrun] at hagrees
      rw [after_ok hrun] at hs' hfollows
      obtain ⟨content, hmade, -, hstands⟩ := hagrees
      refine ⟨root, t', rfl, ?_, hstands, hmade.kept, exists_run hfollows⟩
      rw [hstands.encode_eq hs'.toOrdered, hw]
  · rw [hw] at hagrees
    cases hrun : o.build (run attempts) with
    | error e' t' => exact ⟨e', t', rfl⟩
    | ok root t' =>
      rw [hrun] at hagrees
      exact absurd hagrees id

/-- A serial port with an identifier and an interrupt. -/
def serialPort : Aml.Object String :=
  .region .scope "_SB" [.region .device "COM0" [.name "_UID" (.encoded Aml.zero),
    .name "_CRS" (.buffer [[0x89, 0x06, 0x00, 0x01, 0x01, 0x0A, 0x00, 0x00, 0x00],
      [0x79, 0x00]])]]

/-- The serial port is built where a list of resources was deleted before. -/
theorem build_agrees_write_serialPort :
    (∃ root t', serialPort.build (run (amply [.declareTemplate "_CRS" none,
        .edit (.delete ⟨3, 0⟩)])) = .ok root t' ∧ t'.encode root = .ok
        [0x10, 0x26, 0x5F, 0x53, 0x42, 0x5F, 0x5B, 0x82, 0x1F, 0x43, 0x4F, 0x4D, 0x30, 0x08, 0x5F,
          0x55, 0x49, 0x44, 0x00, 0x08, 0x5F, 0x43, 0x52, 0x53, 0x11, 0x0E, 0x0A, 0x0B, 0x89, 0x06,
          0x00, 0x01, 0x01, 0x0A, 0x00, 0x00, 0x00, 0x79, 0x00]) ∧
      ∀ m : Aml.Mixed, m.whole = serialPort → m.write = serialPort.write := by
  have hproper : serialPort.Proper := by
    refine .region fun m hm => ?_
    obtain rfl := List.mem_singleton.mp hm
    refine .region fun m hm => ?_
    simp only [List.mem_cons, List.not_mem_nil, or_false] at hm
    rcases hm with rfl | rfl
    · exact .name (List.cons_ne_nil 0x00 [])
    · refine .name ⟨fun d hd => ?_, by decide⟩
      simp only [List.mem_cons, List.not_mem_nil, or_false] at hd
      rcases hd with rfl | rfl <;> exact ⟨_, rfl⟩
  obtain ⟨hbuilt, -, hmixed⟩ := build_agrees_write
    (amply [.declareTemplate "_CRS" none, .edit (.delete ⟨3, 0⟩)]) hproper (by decide +kernel)
  obtain ⟨root, t', hrun, hresult⟩ := hbuilt _ rfl
  exact ⟨⟨root, t', hrun, hresult.encode⟩, hmixed⟩

end Assembly

end AcpiTables
