import AcpiTables.Proofs.Assembly
import AcpiTables.Proofs.Tree.Subtree

/-!
# What the bytes of declarations say

A tree that only declarations made, and that was edited in any way that makes no other data,
can be read back from its bytes: each object node is written as bytes that are read as the
object that stands there (`AcpiTables.Assembly.encode_determines_subtree`). So two nodes
with the same bytes are the same object.
-/

namespace AcpiTables.Assembly

/-- Whether a request makes no data but descriptors on its own. -/
def Request.IsGenerating : Request → Prop
  | edit (.makeData type _) => type = .resourceData
  | _ => True

theorem criterion_isGenerated : Criterion Kind.IsGenerated where
  object _ := trivial
  label hname := Aml.exists_path_of_objectName hname
  descriptor hb := by
    obtain ⟨header, hheader, -⟩ := bind_eq_ok.mp hb
    exact ⟨header, hheader⟩
  value hb := hb

/-- Trees of declarations hold names, encoded values and descriptors only. -/
theorem sound_run_isGenerated {attempts : List (Attempt Request)}
    (hgen : ∀ a ∈ attempts, a.request.IsGenerating) (hfit : (run attempts).Fits) :
    (run attempts).Sound Kind.IsGenerated := by
  refine sound_run criterion_isGenerated (fun ⟨_, r⟩ hr => ?_) hfit
  have hg := hgen _ hr
  cases r with
  | edit request =>
    cases request with
    | makeData type bytes =>
      obtain rfl : type = .resourceData := hg
      exact criterion_isGenerated.descriptor
    | _ => trivial
  | _ => trivial

/-- **The bytes of declarations determine them**: every object node has bytes, and if the
packages in them fit their length fields, then they are read back as the object that the
node is, whatever follows, and no other node with these bytes is another object. -/
theorem encode_determines_subtree {attempts : List (Attempt Request)}
    (hgen : ∀ a ∈ attempts, a.request.IsGenerating) (hfit : (run attempts).Fits) {h : Handle}
    {node : Node} (hn : (run attempts).find? h = some node) (ho : node.content.opcode.isSome) :
    ∃ o bytes, (run attempts).subtree? h = some o ∧ (run attempts).encode h = .ok bytes ∧
      (o.IsSmall → Reads Aml.Object.read bytes o ∧
        ∀ (attempts' : List (Attempt Request)) (h' : Handle) (o' : Aml.Object Bytes),
          (∀ a ∈ attempts', a.request.IsGenerating) → (run attempts').Fits →
          (run attempts').subtree? h' = some o' → o'.IsSmall →
          (run attempts').encode h' = .ok bytes → o' = o) := by
  have hs := sound_run_isGenerated hgen hfit
  obtain ⟨o, hsub, henc, hlawful⟩ := Tree.exists_subtree hs hn ho
  refine ⟨o, o.encode, hsub, by rw [Tree.encode_eq hn, henc], fun hsmall => ?_⟩
  have hread := Aml.Object.reads_read hlawful hsmall
  refine ⟨hread, fun attempts' h' o' hgen' hfit' hsub' hsmall' hsame => ?_⟩
  have hs' := sound_run_isGenerated hgen' hfit'
  obtain ⟨node', hn', ho'⟩ := Tree.exists_node_of_subtree? hsub'
  obtain ⟨o'', hsub'', henc', hlawful'⟩ := Tree.exists_subtree hs' hn' ho'
  obtain rfl := Option.some.inj (hsub'.symm.trans hsub'')
  rw [Tree.encode_eq hn', ← henc'] at hsame
  have hread' := Aml.Object.reads_read hlawful' hsmall'
  rw [Except.ok.inj hsame] at hread'
  exact hread'.unique hread

/-- A device with an address and a list of resources. -/
def deviceRequests : List (Attempt Request) :=
  amply [.declareRegion .device "DEV" none, .declareInteger "_ADR" 5 (some ⟨1, 0⟩),
    .declareTemplate "_CRS" (some ⟨1, 0⟩),
    .addResourceInterrupt ⟨8, 0⟩ ⟨.consumer, .edge, .high, .exclusive⟩ [5]]

/-- The object that the device is. -/
def deviceObject : Aml.Object Bytes :=
  .region .device [0x44, 0x45, 0x56, 0x5F]
    [.name [0x5F, 0x41, 0x44, 0x52] (.encoded [0x0A, 0x05]),
      .name [0x5F, 0x43, 0x52, 0x53]
        (.buffer [[0x89, 0x06, 0x00, 0x03, 0x01, 0x05, 0x00, 0x00, 0x00], [0x79, 0x00]])]

/-- The bytes of the device are read back as the device. -/
theorem encode_determines_subtree_device :
    Reads Aml.Object.read
      [0x5B, 0x82, 0x20, 0x44, 0x45, 0x56, 0x5F, 0x08, 0x5F, 0x41, 0x44, 0x52, 0x0A, 0x05, 0x08,
        0x5F, 0x43, 0x52, 0x53, 0x11, 0x0E, 0x0A, 0x0B, 0x89, 0x06, 0x00, 0x03, 0x01, 0x05, 0x00,
        0x00, 0x00, 0x79, 0x00] deviceObject := by
  have hgen : ∀ a ∈ deviceRequests, a.request.IsGenerating := by
    simp [deviceRequests, amply, Request.IsGenerating]
  have hn : (run deviceRequests).find? ⟨1, 0⟩ =
      some ⟨.region .device ⟨0, 0⟩ [⟨4, 0⟩, ⟨8, 0⟩], none⟩ := by decide
  have hsmall : deviceObject.IsSmall := by
    refine .region (by decide) fun m hm => ?_
    simp only [List.mem_cons, List.not_mem_nil, or_false] at hm
    rcases hm with rfl | rfl
    · exact .name trivial
    · exact .name (by decide : _ < 0x10000000)
  obtain ⟨o, bytes, hsub, henc, hread⟩ :=
    encode_determines_subtree hgen (by decide) hn rfl
  obtain rfl : o = deviceObject := Option.some.inj (hsub.symm.trans rfl)
  obtain rfl := Except.ok.inj (henc.symm.trans rfl)
  exact (hread hsmall).1

end AcpiTables.Assembly
