import AcpiTables.Bytes

/-!
# Readers

A **reader** takes something off the front of an input and leaves the rest. What an encoder
writes ends where the encoding says, so it is read in the same way whatever follows:
`AcpiTables.Reads` says that of some bytes. Two things that are read off the same bytes are
one (`AcpiTables.Reads.unique`), and a list of such pieces is cut into them again
(`AcpiTables.readAll_flatMap`).
-/

namespace AcpiTables

/-- Takes something off the front of an input, if it is there, and leaves the rest. -/
abbrev Reader (α : Type) := Bytes → Option (α × Bytes)

variable {α : Type} {read : Reader α} {bytes : Bytes} {a b : α}

/-- A reader takes exactly the given bytes off an input, and returns the given result. -/
def Reads (read : Reader α) (bytes : Bytes) (a : α) : Prop :=
  ∀ rest, read (bytes ++ rest) = some (a, rest)

/-- Bytes are read as one thing only. -/
theorem Reads.unique (ha : Reads read bytes a) (hb : Reads read bytes b) : a = b :=
  (Prod.mk.inj (Option.some.inj ((ha []).symm.trans (hb [])))).1

/-! ### A number of bytes -/

/-- Takes a number of bytes. -/
def readBytes (n : Nat) : Reader Bytes := fun input =>
  if n ≤ input.length then some (input.splitAt n) else none

theorem reads_readBytes {n : Nat} (hn : bytes.length = n) : Reads (readBytes n) bytes bytes := by
  intro rest
  subst hn
  simp [readBytes, List.splitAt_eq]

/-! ### One after the other -/

/-- Takes everything off an input, piece by piece, at most `bound` pieces. -/
def readAll (read : Reader α) : Nat → Bytes → Option (List α)
  | _, [] => some []
  | 0, _ :: _ => none
  | bound + 1, input => do
    let (a, rest) ← read input
    let more ← readAll read bound rest
    return a :: more

/-- **Pieces that are not empty are told apart again.** -/
theorem readAll_flatMap {encode : α → Bytes} {xs : List α}
    (hread : ∀ x ∈ xs, encode x ≠ [] ∧ Reads read (encode x) x) {bound : Nat}
    (hbound : (xs.flatMap encode).length ≤ bound) :
    readAll read bound (xs.flatMap encode) = some xs := by
  induction xs generalizing bound with
  | nil => cases bound <;> rfl
  | cons x xs ih =>
    obtain ⟨hne, hx⟩ := hread x List.mem_cons_self
    rw [List.flatMap_cons] at hbound ⊢
    obtain ⟨first, more, hfirst⟩ : ∃ first more, encode x = first :: more :=
      List.exists_cons_of_ne_nil hne
    -- The piece takes a byte at least, so the bound is good for the others.
    rw [List.length_append, hfirst, List.length_cons] at hbound
    obtain ⟨bound, rfl⟩ : ∃ k, bound = k + 1 := ⟨bound - 1, by omega⟩
    have hrest := ih (fun y hy => hread y (List.mem_cons_of_mem _ hy))
      (by omega : (xs.flatMap encode).length ≤ bound)
    have hinput : encode x ++ xs.flatMap encode = first :: (more ++ xs.flatMap encode) := by
      rw [hfirst, List.cons_append]
    have hstep := hx (xs.flatMap encode)
    rw [hinput] at hstep ⊢
    simp only [readAll, hstep, hrest, Option.bind_eq_bind, Option.bind_some, Option.pure_def]

end AcpiTables
