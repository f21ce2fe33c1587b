import AcpiTables.Tree.Basic
import Mathlib.Data.List.Nodup

/-!
# The arena keeps its books

A tree holds its nodes in slots, stacks the empty slots and counts the others. That the
three agree is `AcpiTables.Tree.Accounts`, and each of the three ways to change a slot
keeps it: `AcpiTables.Tree.allocate`, `AcpiTables.Tree.modify` and
`AcpiTables.Tree.release`.

The one thing that can go wrong is the number of a slot, which has 32 bits. As long as
the slots have numbers of their own (`AcpiTables.Tree.Fits`) a new node gets a handle that
denoted nothing, and no other handle denotes anything new
(`AcpiTables.Tree.Accounts.find?_allocate`).

| fact | theorem |
|---|---|
| a new handle denoted nothing | `AcpiTables.Tree.Accounts.find?_allocate_fst` |
| only the new handle changes | `AcpiTables.Tree.Accounts.find?_allocate` |
| different live handles are no more than there are nodes | `AcpiTables.Tree.Accounts.length_le_live` |
-/

namespace AcpiTables.Tree

/-- Every slot has a number of its own, of 32 bits. -/
def Fits (t : Tree) : Prop := t.slots.length ≤ UInt32.size

instance (t : Tree) : Decidable t.Fits := inferInstanceAs (Decidable (_ ≤ _))

/-- **The books of an arena**: the stack holds each empty slot once and nothing else, and
the count is the number of the other slots. -/
structure Accounts (t : Tree) : Prop where
  /-- The slots have numbers of their own. -/
  fits : t.Fits
  /-- No slot is stacked twice. -/
  nodup_free : t.free.Nodup
  /-- The slots on the stack are the empty ones. -/
  mem_free_iff : ∀ i : UInt32, i ∈ t.free ↔ ∃ g, t.slots[i.toNat]? = some ⟨g, none⟩
  /-- The count is the number of slots that hold a node. -/
  live_eq : t.live = t.slots.countP fun slot => slot.node.isSome

theorem accounts_empty : empty.Accounts where
  fits := by simp [Fits, empty]
  nodup_free := List.nodup_nil
  mem_free_iff := by simp [empty]
  live_eq := rfl

/-! ### The number of slots -/

@[simp] theorem length_slots_modify (t : Tree) (h : Handle) (f : Node → Node) :
    (t.modify h f).slots.length = t.slots.length := by
  unfold modify
  cases t.find? h <;> simp

@[simp] theorem length_slots_release (t : Tree) (h : Handle) :
    (t.release h).slots.length = t.slots.length := by
  unfold release
  cases t.find? h <;> simp

theorem length_slots_le_allocate (t : Tree) (content : Content) :
    t.slots.length ≤ (t.allocate content).2.slots.length := by
  unfold allocate
  cases t.free <;> simp

/-- Where a number is left, the next slot gets it. -/
theorem fits_allocate {t : Tree} (hroom : t.slots.length < UInt32.size) (content : Content) :
    (t.allocate content).2.Fits := by
  unfold allocate Fits
  cases t.free with
  | nil => simpa using Nat.succ_le_of_lt hroom
  | cons index free => simpa using Nat.le_of_lt hroom

namespace Accounts

variable {t : Tree}

/-! ### Changing a node -/

/-- Changing a node leaves the books as they are. -/
theorem modify (ha : t.Accounts) (h : Handle) (f : Node → Node) : (t.modify h f).Accounts := by
  unfold Tree.modify
  cases hn : t.find? h with
  | none => exact ha
  | some node =>
    have hslot := find?_eq_some_iff.mp hn
    obtain ⟨hlt, hget⟩ := List.getElem?_eq_some_iff.mp hslot
    refine ⟨by simpa [Fits] using ha.fits, ha.nodup_free, fun i => ?_, ?_⟩
    · refine (ha.mem_free_iff i).trans ?_
      by_cases hi : h.index.toNat = i.toNat
      · rw [← hi, hslot]
        simp [hlt]
      · simp [hi]
    · have hpos : 0 < t.slots.countP fun slot => slot.node.isSome :=
        List.countP_pos_iff.mpr ⟨_, List.getElem_mem hlt, by simp [hget]⟩
      have hlive := ha.live_eq
      simp only [List.countP_set hlt, hget, Option.isSome_some, if_true]
      omega

/-! ### Emptying a slot -/

/-- Emptying a slot puts it on the stack. -/
theorem release (ha : t.Accounts) (h : Handle) : (t.release h).Accounts := by
  unfold Tree.release
  cases hn : t.find? h with
  | none => exact ha
  | some node =>
    have hslot := find?_eq_some_iff.mp hn
    obtain ⟨hlt, hget⟩ := List.getElem?_eq_some_iff.mp hslot
    -- The slot holds a node, and the stack knows empty slots only.
    have hnot : h.index ∉ t.free := fun hmem => by
      obtain ⟨g, hg⟩ := (ha.mem_free_iff h.index).mp hmem
      simp [hslot] at hg
    refine ⟨by simpa [Fits] using ha.fits, List.nodup_cons.mpr ⟨hnot, ha.nodup_free⟩,
      fun i => ?_, ?_⟩
    · by_cases hi : i = h.index
      · subst hi
        simp [hlt]
      · have hne : h.index.toNat ≠ i.toNat := fun he => hi (UInt32.toNat_inj.mp he).symm
        rw [List.mem_cons, or_iff_right hi, ha.mem_free_iff, List.getElem?_set_ne hne]
    · have hlive := ha.live_eq
      simp only [List.countP_set hlt, hget, Option.isSome_some, Option.isSome_none, if_true]
      simp
      omega

/-- An arena with a live handle has a node, and one fewer once the node is released. -/
theorem live_release (ha : t.Accounts) {h : Handle} (hh : t.contains h = true) :
    (t.release h).live + 1 = t.live := by
  obtain ⟨node, hn⟩ := contains_iff.mp hh
  obtain ⟨hlt, hget⟩ := List.getElem?_eq_some_iff.mp (find?_eq_some_iff.mp hn)
  have hpos : 0 < t.slots.countP fun slot => slot.node.isSome :=
    List.countP_pos_iff.mpr ⟨_, List.getElem_mem hlt, by simp [hget]⟩
  have hlive := ha.live_eq
  simp only [Tree.release, hn]
  omega

/-- **Different live handles are no more than there are nodes.** Releasing one after the
other, each still finds its node to count off. -/
theorem length_le_live (ha : t.Accounts) {hs : List Handle} (hnd : hs.Nodup)
    (hlive : ∀ h ∈ hs, t.contains h = true) : hs.length ≤ t.live := by
  induction hs generalizing t with
  | nil => exact Nat.zero_le _
  | cons h hs ih =>
    obtain ⟨hh, hnd⟩ := List.nodup_cons.mp hnd
    have hrest : ∀ x ∈ hs, (t.release h).contains x = true := fun x hx => by
      have hne : x ≠ h := fun he => hh (he ▸ hx)
      have := hlive x (List.mem_cons_of_mem _ hx)
      rwa [contains, find?_release, if_neg hne]
    have hle := ih (ha.release h) hnd hrest
    have hstep := ha.live_release (hlive h List.mem_cons_self)
    rw [List.length_cons]
    omega

/-! ### Storing a node -/

/-- What the stack knows of the slot that is used next. -/
theorem getElem?_of_free (ha : t.Accounts) {index : UInt32} {free : List UInt32}
    (hfree : t.free = index :: free) : ∃ g, t.slots[index.toNat]? = some ⟨g, none⟩ :=
  (ha.mem_free_iff index).mp (hfree ▸ List.mem_cons_self)

/-- The number of a slot that is added is its place. -/
theorem toNat_length (hfit : t.slots.length + 1 ≤ UInt32.size) :
    (UInt32.ofNat t.slots.length).toNat = t.slots.length := by
  rw [UInt32.toNat_ofNat']
  exact Nat.mod_eq_of_lt hfit

theorem allocate (ha : t.Accounts) (content : Content) (hfit : (t.allocate content).2.Fits) :
    (t.allocate content).2.Accounts := by
  unfold Tree.allocate at hfit ⊢
  cases hfree : t.free with
  | cons index free =>
    obtain ⟨g, hslot⟩ := ha.getElem?_of_free hfree
    obtain ⟨hlt, hget⟩ := List.getElem?_eq_some_iff.mp hslot
    have hnd := List.nodup_cons.mp (hfree ▸ ha.nodup_free)
    refine ⟨by simpa [Fits] using ha.fits, hnd.2, fun i => ?_, ?_⟩
    · by_cases hi : i = index
      · subst hi
        simp [hlt, hnd.1]
      · have hne : index.toNat ≠ i.toNat := fun he => hi (UInt32.toNat_inj.mp he).symm
        have := ha.mem_free_iff i
        rw [hfree, List.mem_cons, or_iff_right hi] at this
        simp only [List.getElem?_set_ne hne, this]
    · have hlive := ha.live_eq
      simp only [List.countP_set hlt, hget, Option.isSome_some, Option.isSome_none, if_true]
      simp
      omega
  | nil =>
    rw [hfree] at hfit
    have hfit : t.slots.length + 1 ≤ UInt32.size := by simpa [Fits] using hfit
    refine ⟨by simpa [Fits] using hfit, List.nodup_nil, fun i => ?_, ?_⟩
    · have hnone := ha.mem_free_iff i
      rw [hfree] at hnone
      refine hnone.trans ?_
      by_cases hi : i.toNat < t.slots.length
      · simp [List.getElem?_append_left hi]
      · simp only [List.getElem?_append_right (Nat.le_of_not_lt hi)]
        rw [List.getElem?_eq_none (Nat.le_of_not_lt hi)]
        cases i.toNat - t.slots.length <;> simp
    · simp [ha.live_eq]

/-- **The handle of a new node denoted nothing before.** -/
theorem find?_allocate_fst (ha : t.Accounts) (content : Content)
    (hfit : (t.allocate content).2.Fits) : t.find? (t.allocate content).1 = none := by
  unfold Tree.allocate at hfit ⊢
  cases hfree : t.free with
  | cons index free =>
    obtain ⟨g, hslot⟩ := ha.getElem?_of_free hfree
    simp [find?, hslot]
  | nil =>
    rw [hfree] at hfit
    have hfit : t.slots.length + 1 ≤ UInt32.size := by simpa [Fits] using hfit
    simp [find?, toNat_length hfit]

/-- **Storing a node changes what its handle denotes, and no other handle.** -/
theorem find?_allocate (ha : t.Accounts) (content : Content)
    (hfit : (t.allocate content).2.Fits) (x : Handle) :
    (t.allocate content).2.find? x =
      if x = (t.allocate content).1 then some ⟨content, none⟩ else t.find? x := by
  unfold Tree.allocate at hfit ⊢
  cases hfree : t.free with
  | cons index free =>
    obtain ⟨g, hslot⟩ := ha.getElem?_of_free hfree
    obtain ⟨hlt, hget⟩ := List.getElem?_eq_some_iff.mp hslot
    by_cases hx : x = ⟨index, g⟩
    · subst hx
      simp [find?, hlt, hget]
    · rcases index_ne_or_generation_ne hx with hi | ⟨hi, hg⟩
      · simp [find?, hslot, hx, hi]
      · simp only at hi
        simp [find?, hx, ← hi, hlt, hget, Ne.symm hg]
  | nil =>
    rw [hfree] at hfit
    have hfit : t.slots.length + 1 ≤ UInt32.size := by simpa [Fits] using hfit
    have hlen := toNat_length hfit
    -- Without room for its number, the new slot would be told for an old one.
    by_cases hx : x = ⟨UInt32.ofNat t.slots.length, 0⟩
    · subst hx
      simp [find?, hlen]
    · rcases index_ne_or_generation_ne hx with hi | ⟨hi, hg⟩
      · simp only [hlen] at hi
        rcases Nat.lt_or_gt_of_ne hi with hlt | hgt
        · have hout : (t.slots ++ [⟨0, some ⟨content, none⟩⟩])[x.index.toNat]? = none :=
            List.getElem?_eq_none (by rw [List.length_append, List.length_singleton]; omega)
          simp [find?, hx, hout, List.getElem?_eq_none (Nat.le_of_lt hlt)]
        · simp [find?, hx, List.getElem?_append_left hgt]
      · simp only [hlen] at hi
        simp [find?, hx, ← hi, Ne.symm hg]

/-- Storing a node takes none away, also where no number is left for it. -/
theorem find?_allocate_of_some (ha : t.Accounts) (content : Content) {x : Handle} {node : Node}
    (hx : t.find? x = some node) : (t.allocate content).2.find? x = some node := by
  rw [find?_eq_some_iff] at hx ⊢
  unfold Tree.allocate
  cases hfree : t.free with
  | cons index free =>
    obtain ⟨g, hslot⟩ := ha.getElem?_of_free hfree
    have hne : index.toNat ≠ x.index.toNat := fun he => by simp [he, hx] at hslot
    simpa only [List.getElem?_set_ne hne] using hx
  | nil =>
    have hlt := (List.getElem?_eq_some_iff.mp hx).1
    simpa only [List.getElem?_append_left hlt] using hx

end Accounts

end AcpiTables.Tree
