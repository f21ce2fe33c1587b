import AcpiTables.Packed.Scalar

/-!
# Layouts of packed structures

A packed structure is a sequence of members without gaps. `AcpiTables.Layout` lists
the members in order: named fields, reserved space, and groups, which are packed
structures inside the structure.

A layout determines both sides. `AcpiTables.Layout.Row` is the type of what is
stored, one value for each member; `AcpiTables.Layout.encode` and
`AcpiTables.Layout.read` are the bytes. All three go through the members once and
in order, and no byte belongs to two members or to none.

| fact | theorem |
|---|---|
| a row takes the size of its layout | `AcpiTables.Layout.length_encode` |
| what was written is read back | `AcpiTables.Layout.read_encode_append` |
| what was read is what was written | `AcpiTables.Layout.eq_encode_append_of_read` |
| only a short string is not read | `AcpiTables.Layout.read_eq_none_iff` |
-/

namespace AcpiTables

/-- The members of a packed structure, in order. -/
inductive Layout where
  /-- No further member. -/
  | done
  /-- A named scalar. -/
  | field (name : String) (type : Scalar) (rest : Layout)
  /-- Space without a name, which is kept but not told. -/
  | reserved (type : Scalar) (rest : Layout)
  /-- A named structure. -/
  | group (name : String) (inner : Layout) (rest : Layout)
deriving DecidableEq, Repr

namespace Layout

/-- A named word. -/
@[reducible] def word (name : String) (w : Width) (rest : Layout) : Layout :=
  field name (.word w) rest

/-- A named block of bytes. -/
@[reducible] def block (name : String) (n : Nat) (rest : Layout) : Layout :=
  field name (.block n) rest

/-- How many bytes a structure takes. -/
def size : Layout → Nat
  | done => 0
  | field _ type rest => type.size + size rest
  | reserved type rest => type.size + size rest
  | group _ inner rest => size inner + size rest

/-- One value for each member, in order. -/
@[reducible] def Row : Layout → Type
  | done => Unit
  | field _ type rest => type.Value × Row rest
  | reserved type rest => type.Value × Row rest
  | group _ inner rest => Row inner × Row rest

/-- The row of which every byte is zero. -/
def zero : (l : Layout) → l.Row
  | done => ()
  | field _ type rest => (type.zero, zero rest)
  | reserved type rest => (type.zero, zero rest)
  | group _ inner rest => (zero inner, zero rest)

/-- The bytes of a row. -/
def encode : (l : Layout) → l.Row → Bytes
  | done, () => []
  | field _ type rest, (v, vs) => type.encode v ++ encode rest vs
  | reserved type rest, (v, vs) => type.encode v ++ encode rest vs
  | group _ inner rest, (v, vs) => encode inner v ++ encode rest vs

/-- Takes a row off the front of a byte string. -/
def read : (l : Layout) → Bytes → Option (l.Row × Bytes)
  | done, bs => some ((), bs)
  | field _ type rest, bs => do
    let (v, bs) ← type.read bs
    let (vs, bs) ← read rest bs
    return ((v, vs), bs)
  | reserved type rest, bs => do
    let (v, bs) ← type.read bs
    let (vs, bs) ← read rest bs
    return ((v, vs), bs)
  | group _ inner rest, bs => do
    let (v, bs) ← read inner bs
    let (vs, bs) ← read rest bs
    return ((v, vs), bs)

/-! ### Writing and reading -/

@[simp] theorem length_encode (l : Layout) (row : l.Row) : (l.encode row).length = l.size := by
  induction l with
  | done => rfl
  | field _ type rest ih =>
    rw [encode, List.length_append, Scalar.length_encode, ih, size]
  | reserved type rest ih =>
    rw [encode, List.length_append, Scalar.length_encode, ih, size]
  | group _ inner rest ih ih' =>
    rw [encode, List.length_append, ih, ih', size]

/-- Reading the parts of a pair one after the other, from the pair. -/
private theorem read_pair {α β : Type} {first : Bytes → Option (α × Bytes)}
    {second : Bytes → Option (β × Bytes)} {a : α} {b : β} {as bs rest : Bytes}
    (hf : ∀ rest, first (as ++ rest) = some (a, rest))
    (hs : second (bs ++ rest) = some (b, rest)) :
    (do
      let (v, r) ← first (as ++ bs ++ rest)
      let (vs, r) ← second r
      return ((v, vs), r)) = some ((a, b), rest) := by
  rw [List.append_assoc, hf]
  simp only [Option.bind_eq_bind, Option.bind_some, hs, Option.pure_def]

theorem read_encode_append (l : Layout) (row : l.Row) (rest : Bytes) :
    l.read (l.encode row ++ rest) = some (row, rest) := by
  induction l generalizing rest with
  | done => rfl
  | field _ type _ ih =>
    exact read_pair (fun r => Scalar.read_encode_append type row.1 r) (ih row.2 rest)
  | reserved type _ ih =>
    exact read_pair (fun r => Scalar.read_encode_append type row.1 r) (ih row.2 rest)
  | group _ _ _ ih ih' =>
    exact read_pair (fun r => ih row.1 r) (ih' row.2 rest)

/-- What reading a pair in two steps has read. -/
private theorem eq_append_of_read_pair {α β : Type} {first : Bytes → Option (α × Bytes)}
    {second : Bytes → Option (β × Bytes)} {ofFirst : α → Bytes} {ofSecond : β → Bytes}
    (hf : ∀ bs a r, first bs = some (a, r) → bs = ofFirst a ++ r)
    (hs : ∀ bs b r, second bs = some (b, r) → bs = ofSecond b ++ r)
    {bs rest : Bytes} {p : α × β}
    (h : (do
      let (v, r) ← first bs
      let (vs, r) ← second r
      return ((v, vs), r)) = some (p, rest)) :
    bs = ofFirst p.1 ++ ofSecond p.2 ++ rest := by
  obtain ⟨⟨a, r⟩, ha, h⟩ := Option.bind_eq_some_iff.mp h
  obtain ⟨⟨b, r'⟩, hb, h⟩ := Option.bind_eq_some_iff.mp h
  cases h
  rw [hf _ _ _ ha, hs _ _ _ hb, List.append_assoc]

theorem eq_encode_append_of_read {l : Layout} {bs rest : Bytes} {row : l.Row}
    (h : l.read bs = some (row, rest)) : bs = l.encode row ++ rest := by
  induction l generalizing bs rest with
  | done =>
    cases h
    rfl
  | field _ type _ ih =>
    exact eq_append_of_read_pair (fun _ _ _ hv => Scalar.eq_encode_append_of_read hv)
      (fun _ _ _ hv => ih hv) h
  | reserved type _ ih =>
    exact eq_append_of_read_pair (fun _ _ _ hv => Scalar.eq_encode_append_of_read hv)
      (fun _ _ _ hv => ih hv) h
  | group _ _ _ ih ih' =>
    exact eq_append_of_read_pair (fun _ _ _ hv => ih hv) (fun _ _ _ hv => ih' hv) h

/-- When reading a pair in two steps fails: the second part gets what the first has
left over. -/
private theorem read_pair_eq_none_iff {α β : Type} {first : Bytes → Option (α × Bytes)}
    {second : Bytes → Option (β × Bytes)} {m n : Nat} {ofFirst : α → Bytes}
    (hl : ∀ a, (ofFirst a).length = m)
    (he : ∀ bs a r, first bs = some (a, r) → bs = ofFirst a ++ r)
    (hf : ∀ bs, first bs = none ↔ bs.length < m)
    (hs : ∀ bs, second bs = none ↔ bs.length < n) {bs : Bytes} :
    (do
      let (v, r) ← first bs
      let (vs, r) ← second r
      return ((v, vs), r)) = none ↔ bs.length < m + n := by
  cases hfirst : first bs with
  | none =>
    have := (hf bs).mp hfirst
    simp only [Option.bind_eq_bind, Option.bind_none, true_iff]
    omega
  | some p =>
    obtain ⟨a, r⟩ := p
    have hbs : bs.length = m + r.length := by
      rw [he _ _ _ hfirst, List.length_append, hl]
    have hr := hs r
    cases hsecond : second r with
    | none =>
      simp only [hsecond, true_iff] at hr
      simp only [Option.bind_eq_bind, Option.bind_some, hsecond, Option.bind_none, true_iff]
      omega
    | some q =>
      simp only [hsecond, reduceCtorEq, false_iff] at hr
      simp only [Option.bind_eq_bind, Option.bind_some, hsecond, Option.pure_def, reduceCtorEq,
        false_iff]
      omega

theorem read_eq_none_iff {l : Layout} {bs : Bytes} : l.read bs = none ↔ bs.length < l.size := by
  induction l generalizing bs with
  | done =>
    simp only [read, reduceCtorEq, size, false_iff]
    omega
  | field _ type _ ih =>
    exact read_pair_eq_none_iff (Scalar.length_encode type)
      (fun _ _ _ hv => Scalar.eq_encode_append_of_read hv) (fun _ => Scalar.read_eq_none_iff)
      (fun _ => ih)
  | reserved type _ ih =>
    exact read_pair_eq_none_iff (Scalar.length_encode type)
      (fun _ _ _ hv => Scalar.eq_encode_append_of_read hv) (fun _ => Scalar.read_eq_none_iff)
      (fun _ => ih)
  | group _ inner _ ih ih' =>
    exact read_pair_eq_none_iff (length_encode inner)
      (fun _ _ _ hv => eq_encode_append_of_read hv) (fun _ => ih) (fun _ => ih')

end Layout

end AcpiTables
