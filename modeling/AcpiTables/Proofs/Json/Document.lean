import AcpiTables.Json.Document

/-!
# What a document says

A document is read by a machine that keeps what is open on a stack. This file says what it reads,
without the machine: every value has its tokens, `AcpiTables.Json.spell`, and tokens are read as a
value exactly if they are its tokens (`AcpiTables.Json.ofTokens?_eq_some_iff`). So a document is one
value with nothing in front of it or behind it, and each object has all the members that are
written, in their order.

The one thing to know about the machine is that it forgets nothing: at any time the tokens that it
has read can be told from its state (`AcpiTables.Json.Progress.spelt`). The only state in which this
needs care is the one that may still end an object: there is no member in front of it yet.

| fact | theorem |
|---|---|
| a step reads one more token | `AcpiTables.Json.Progress.spelt_step` |
| the tokens of a value are read as this value | `AcpiTables.Json.Progress.foldlM_spell` |
| a document is the tokens of a value | `AcpiTables.Json.ofTokens?_eq_some_iff` |
| blanks around a text do not matter | `AcpiTables.Json.tokens?_append_blanks` |
-/

namespace AcpiTables.Json

/-! ### Values and their parts -/

/-- What holds of a value as soon as it holds of its parts holds of all values. -/
@[induction_eliminator]
theorem induction_parts {P : Json → Prop} (null : P null) (bool : ∀ value, P (bool value))
    (number : ∀ value, P (number value)) (text : ∀ value, P (text value))
    (array : ∀ items, (∀ item ∈ items, P item) → P (array items))
    (object : ∀ members, (∀ member ∈ members, P member.2) → P (object members)) (v : Json) :
    P v :=
  match v with
  | .null => null
  | .bool value => bool value
  | .number value => number value
  | .text value => text value
  | .array items => array items fun item _ =>
    induction_parts null bool number text array object item
  | .object members => object members fun (key, value) hmember =>
    have : sizeOf (key, value) < sizeOf members := List.sizeOf_lt_of_mem hmember
    have : sizeOf value < sizeOf (key, value) := by
      rw [Prod.mk.sizeOf_spec]
      omega
    induction_parts null bool number text array object value
termination_by v

/-! ### The tokens of a value -/

/-- Lists of tokens with a comma between each two. -/
def separated (pieces : List (List Token)) : List Token := [Token.comma].intercalate pieces

mutual

/-- The tokens of a value. -/
def spell : Json → List Token
  | null => [.null]
  | bool value => [.bool value]
  | number value => [.number value]
  | text value => [.text value]
  | array items => .openArray :: (separated (spellItems items) ++ [.closeArray])
  | object members => .openObject :: (separated (spellMembers members) ++ [.closeObject])

/-- The tokens of each item of an array. -/
def spellItems : List Json → List (List Token)
  | [] => []
  | item :: items => spell item :: spellItems items

/-- The tokens of each member of an object. -/
def spellMembers : List (String × Json) → List (List Token)
  | [] => []
  | (key, value) :: members => (.text key :: .colon :: spell value) :: spellMembers members

end

/-- The tokens of one member. -/
def spellMember (member : String × Json) : List Token :=
  .text member.1 :: .colon :: spell member.2

theorem spellItems_eq (items : List Json) : spellItems items = items.map spell := by
  induction items with
  | nil => rfl
  | cons item items ih => rw [spellItems, ih, List.map_cons]

theorem spellMembers_eq (members : List (String × Json)) :
    spellMembers members = members.map spellMember := by
  induction members with
  | nil => rfl
  | cons member members ih => rw [spellMembers, ih, List.map_cons, spellMember]

/-- Each piece with a comma behind it. -/
def listed (pieces : List (List Token)) : List Token := pieces.flatMap (· ++ [.comma])

theorem listed_append_singleton (pieces : List (List Token)) (last : List Token) :
    listed (pieces ++ [last]) = listed pieces ++ (last ++ [.comma]) := by
  rw [listed, List.flatMap_append, List.flatMap_singleton, ← listed]

/-- Only the last piece has no comma behind it. -/
theorem separated_append_singleton (pieces : List (List Token)) (last : List Token) :
    separated (pieces ++ [last]) = listed pieces ++ last := by
  induction pieces with
  | nil => rw [List.nil_append, separated, List.intercalate_singleton, listed, List.flatMap_nil,
      List.nil_append]
  | cons piece pieces ih =>
    obtain ⟨next, more, hmore⟩ : ∃ next more, pieces ++ [last] = next :: more := by
      cases pieces with
      | nil => exact ⟨last, [], rfl⟩
      | cons next more => exact ⟨next, more ++ [last], rfl⟩
    rw [separated, hmore] at ih
    rw [separated, List.cons_append, hmore, List.intercalate_cons_cons, ih, listed, listed,
      List.flatMap_cons, List.append_assoc, List.append_assoc, List.append_assoc]

section LastFirst

variable {α : Type} (f : α → List Token) (x : α) (before : List α)

/-- What is kept with the last first gets one more. -/
theorem listed_reverse_cons :
    listed ((x :: before).reverse.map f) = listed (before.reverse.map f) ++ (f x ++ [.comma]) := by
  rw [List.reverse_cons, List.map_append, List.map_singleton, listed_append_singleton]

/-- What is kept with the last first ends. -/
theorem separated_reverse_cons :
    separated ((x :: before).reverse.map f) = listed (before.reverse.map f) ++ f x := by
  rw [List.reverse_cons, List.map_append, List.map_singleton, separated_append_singleton]

end LastFirst

/-! ### What was read so far -/

/-- The tokens of what is open: of all in front of the present place. -/
def Frame.spelt : Frame → List Token
  | items before => .openArray :: listed (before.reverse.map spell)
  | members before key =>
    .openObject :: (listed (before.reverse.map spellMember) ++ [.text key, .colon])

/-- The tokens of everything that is open, the outermost first. -/
def framesSpelt (around : List Frame) : List Token := around.reverse.flatMap Frame.spelt

theorem framesSpelt_cons (inside : Frame) (around : List Frame) :
    framesSpelt (inside :: around) = framesSpelt around ++ inside.spelt := by
  rw [framesSpelt, List.reverse_cons, List.flatMap_append, List.flatMap_singleton, ← framesSpelt]

namespace Progress

/-- **The tokens that were read.** -/
def spelt : Progress → List Token
  | value around => framesSpelt around
  | firstItem around => framesSpelt around ++ [.openArray]
  | key before _ around =>
    framesSpelt around ++ .openObject :: listed (before.reverse.map spellMember)
  | colon before k around =>
    framesSpelt around ++ .openObject :: (listed (before.reverse.map spellMember) ++ [.text k])
  | next v inside around => framesSpelt around ++ inside.spelt ++ spell v
  | complete v => spell v

/-- An object may only end in front of a key if there is no member yet. -/
def Proper : Progress → Prop
  | key before true _ => before = []
  | _ => True

theorem spelt_deliver (v : Json) (around : List Frame) :
    (deliver v around).spelt = framesSpelt around ++ spell v := by
  cases around with
  | nil => rfl
  | cons inside around => rw [deliver, spelt, framesSpelt_cons]

theorem proper_deliver (v : Json) (around : List Frame) : (deliver v around).Proper := by
  cases around <;> trivial

theorem spelt_start {token : Token} {around : List Frame} {p : Progress}
    (hp : start token around = some p) :
    p.spelt = framesSpelt around ++ [token] ∧ p.Proper := by
  cases token <;> simp only [start, Option.some.injEq, reduceCtorEq] at hp
  case openObject =>
    subst hp
    exact ⟨rfl, rfl⟩
  case openArray =>
    subst hp
    exact ⟨rfl, trivial⟩
  all_goals subst hp; exact ⟨spelt_deliver _ _, proper_deliver _ _⟩

/-- An array that does not end at once has a first item. -/
theorem step_firstItem {token : Token} (ht : token ≠ .closeArray) (around : List Frame) :
    (firstItem around).step token = (value (.items [] :: around)).step token := by
  cases token <;> first | rfl | exact absurd rfl ht

/-- A key is read, or the end of an object without members. -/
theorem spelt_step_key {before : List (String × Json)} {mayEnd : Bool} {around : List Frame}
    {p' : Progress} {token : Token} (hproper : (key before mayEnd around).Proper)
    (hp : (key before mayEnd around).step token = some p') :
    p'.spelt = (key before mayEnd around).spelt ++ [token] ∧ p'.Proper := by
  cases token with
  | text k =>
    cases mayEnd <;>
    · obtain rfl := Option.some.inj hp
      refine ⟨?_, trivial⟩
      rw [spelt, spelt, List.append_assoc]
      rfl
  | closeObject =>
    cases mayEnd with
    | false => exact nomatch hp
    | true =>
      -- Only an object that has no member yet ends here, and its tokens are its two braces.
      obtain rfl := Option.some.inj hp
      obtain rfl := hproper
      refine ⟨?_, proper_deliver _ _⟩
      rw [spelt_deliver, spelt, List.append_assoc]
      rfl
  | _ => cases mayEnd <;> exact nomatch hp

/-- An item is over: there are more, or the array ends. -/
theorem spelt_step_item {v : Json} {before : List Json} {around : List Frame} {p' : Progress}
    {token : Token} (hp : (next v (.items before) around).step token = some p') :
    p'.spelt = (next v (.items before) around).spelt ++ [token] ∧ p'.Proper := by
  rw [spelt, Frame.spelt]
  cases token with
  | comma =>
    obtain rfl := Option.some.inj hp
    refine ⟨?_, trivial⟩
    rw [spelt, framesSpelt_cons, Frame.spelt, listed_reverse_cons]
    simp only [List.append_assoc, List.cons_append]
  | closeArray =>
    obtain rfl := Option.some.inj hp
    refine ⟨?_, proper_deliver _ _⟩
    rw [spelt_deliver, spell, spellItems_eq, separated_reverse_cons]
    simp only [List.append_assoc, List.cons_append]
  | _ => exact nomatch hp

/-- The value of a member is over: there are more members, or the object ends. -/
theorem spelt_step_member {v : Json} {before : List (String × Json)} {k : String}
    {around : List Frame} {p' : Progress} {token : Token}
    (hp : (next v (.members before k) around).step token = some p') :
    p'.spelt = (next v (.members before k) around).spelt ++ [token] ∧ p'.Proper := by
  rw [spelt, Frame.spelt]
  cases token with
  | comma =>
    obtain rfl := Option.some.inj hp
    refine ⟨?_, trivial⟩
    rw [spelt, listed_reverse_cons, spellMember]
    simp only [List.append_assoc, List.cons_append, List.nil_append]
  | closeObject =>
    obtain rfl := Option.some.inj hp
    refine ⟨?_, proper_deliver _ _⟩
    rw [spelt_deliver, spell, spellMembers_eq, separated_reverse_cons, spellMember]
    simp only [List.append_assoc, List.cons_append, List.nil_append]
  | _ => exact nomatch hp

/-- **A step reads one more token**, and keeps those that were read. -/
theorem spelt_step {p p' : Progress} {token : Token} (hproper : p.Proper)
    (hp : p.step token = some p') : p'.spelt = p.spelt ++ [token] ∧ p'.Proper := by
  cases p with
  | value around => exact spelt_start hp
  | firstItem around =>
    by_cases ht : token = .closeArray
    · subst ht
      obtain rfl := Option.some.inj hp
      refine ⟨?_, proper_deliver _ _⟩
      rw [spelt_deliver, spelt, List.append_assoc]
      rfl
    · rw [step_firstItem ht] at hp
      have hstart := spelt_start hp
      rw [framesSpelt_cons] at hstart
      exact hstart
  | key before mayEnd around => exact spelt_step_key hproper hp
  | colon before k around =>
    cases token with
    | colon =>
      obtain rfl := Option.some.inj hp
      refine ⟨?_, trivial⟩
      rw [spelt, spelt, framesSpelt_cons, Frame.spelt, List.append_assoc, List.cons_append,
        List.append_assoc]
      rfl
    | _ => exact nomatch hp
  | next v inside around =>
    cases inside with
    | items before => exact spelt_step_item hp
    | members before k => exact spelt_step_member hp
  | complete v => exact nomatch hp

/-- Whatever is read, the tokens that were read are told by the state. -/
theorem spelt_foldlM {tokens : List Token} {p p' : Progress} (hproper : p.Proper)
    (hp : tokens.foldlM step p = some p') : p'.spelt = p.spelt ++ tokens := by
  induction tokens generalizing p with
  | nil =>
    rw [← Option.some.inj hp, List.append_nil]
  | cons token tokens ih =>
    rw [List.foldlM_cons] at hp
    obtain ⟨q, hq, hp⟩ := Option.bind_eq_some_iff.mp hp
    obtain ⟨hspelt, hproper⟩ := spelt_step hproper hq
    rw [ih hproper hp, hspelt, List.append_assoc, List.singleton_append]

/-! ### Reading the tokens of a value -/

/-- The first item is read like any other. -/
theorem foldlM_firstItem {token : Token} (ht : token ≠ .closeArray) (tokens : List Token)
    (around : List Frame) : (token :: tokens).foldlM step (firstItem around) =
      (token :: tokens).foldlM step (value (.items [] :: around)) := by
  rw [List.foldlM_cons, List.foldlM_cons, step_firstItem ht]

/-- No value starts with the end of an array. -/
theorem exists_separated_eq_cons (item : Json) (pieces : List (List Token)) :
    ∃ token tokens, separated (spell item :: pieces) = token :: tokens ∧
      token ≠ Token.closeArray := by
  cases pieces with
  | nil =>
    rw [separated, List.intercalate_singleton]
    cases item <;> exact ⟨_, _, rfl, nofun⟩
  | cons piece pieces =>
    rw [separated, List.intercalate_cons_cons, List.append_assoc]
    cases item <;> exact ⟨_, _, rfl, nofun⟩

/-- Items are read up to the end of their array, each on top of those before it. -/
theorem foldlM_items {items : List Json} (hitems : ∀ item ∈ items, ∀ around,
      (spell item).foldlM step (value around) = some (deliver item around))
    (hne : items ≠ []) (before : List Json) (around : List Frame) :
    (separated (items.map spell) ++ [Token.closeArray]).foldlM step
      (value (.items before :: around)) =
        some (deliver (.array (before.reverse ++ items)) around) := by
  induction items generalizing before with
  | nil => exact absurd rfl hne
  | cons item items ih =>
    have hitem := hitems item List.mem_cons_self (.items before :: around)
    cases items with
    | nil =>
      rw [List.map_singleton, separated, List.intercalate_singleton, List.foldlM_append, hitem,
        ← List.reverse_cons]
      rfl
    | cons next more =>
      have hmore := ih (fun x hx => hitems x (List.mem_cons_of_mem item hx))
        (List.cons_ne_nil _ _) (item :: before)
      rw [List.reverse_cons, List.append_assoc, List.singleton_append] at hmore
      rw [List.map_cons, List.map_cons, separated, List.intercalate_cons_cons, List.append_assoc,
        List.append_assoc, List.foldlM_append, hitem, ← hmore]
      rfl

/-- A member is read up to its end. -/
theorem foldlM_member {member : String × Json} (hmember : ∀ around,
      (spell member.2).foldlM step (value around) = some (deliver member.2 around))
    (before : List (String × Json)) (mayEnd : Bool) (around : List Frame) :
    (spellMember member).foldlM step (key before mayEnd around) =
      some (next member.2 (.members before member.1) around) := by
  have hvalue := hmember (.members before member.1 :: around)
  cases mayEnd <;> exact hvalue

/-- Members are read up to the end of their object, each on top of those before it. -/
theorem foldlM_members {members : List (String × Json)} (hmembers : ∀ member ∈ members, ∀ around,
      (spell member.2).foldlM step (value around) = some (deliver member.2 around))
    (hne : members ≠ []) (before : List (String × Json)) (mayEnd : Bool) (around : List Frame) :
    (separated (members.map spellMember) ++ [Token.closeObject]).foldlM step
      (key before mayEnd around) =
        some (deliver (.object (before.reverse ++ members)) around) := by
  induction members generalizing before mayEnd with
  | nil => exact absurd rfl hne
  | cons member members ih =>
    have hmember := foldlM_member (hmembers member List.mem_cons_self) before mayEnd around
    cases members with
    | nil =>
      rw [List.map_singleton, separated, List.intercalate_singleton, List.foldlM_append, hmember,
        ← List.reverse_cons]
      rfl
    | cons next more =>
      have hmore := ih (fun x hx => hmembers x (List.mem_cons_of_mem member hx))
        (List.cons_ne_nil _ _) (member :: before) false
      rw [List.reverse_cons, List.append_assoc, List.singleton_append] at hmore
      rw [List.map_cons, List.map_cons, separated, List.intercalate_cons_cons, List.append_assoc,
        List.append_assoc, List.foldlM_append, hmember, ← hmore]
      rfl

/-- **The tokens of a value are read as this value**, whatever is open around it. -/
theorem foldlM_spell (v : Json) (around : List Frame) :
    (spell v).foldlM step (value around) = some (deliver v around) := by
  induction v generalizing around with
  | null | bool | number | text => rfl
  | array items ih =>
    rw [spell, spellItems_eq]
    cases items with
    | nil => rfl
    | cons item items =>
      have hitems := foldlM_items ih (List.cons_ne_nil _ _) [] around
      obtain ⟨token, tokens, htokens, htoken⟩ := exists_separated_eq_cons item (items.map spell)
      rw [List.map_cons, htokens, List.cons_append] at hitems ⊢
      rw [← foldlM_firstItem htoken] at hitems
      exact hitems
  | object members ih =>
    rw [spell, spellMembers_eq]
    cases members with
    | nil => rfl
    | cons member members => exact foldlM_members ih (List.cons_ne_nil _ _) [] true around

end Progress

/-- **A document is the tokens of a value**: these are read as this value, and no others. -/
theorem ofTokens?_eq_some_iff {tokens : List Token} {v : Json} :
    ofTokens? tokens = some v ↔ tokens = spell v := by
  constructor
  · intro hv
    obtain ⟨p, hp, hv⟩ := Option.bind_eq_some_iff.mp hv
    have hproper : (Progress.value []).Proper := trivial
    have hspelt := Progress.spelt_foldlM hproper hp
    cases p with
    | complete w =>
      obtain rfl := Option.some.inj hv
      exact hspelt.symm
    | _ => exact nomatch hv
  · rintro rfl
    rw [ofTokens?, Progress.foldlM_spell]
    rfl

/-- **A text is a document**: its tokens are those of the value. -/
def Spells (text : String) (v : Json) : Prop := tokens? text = some (spell v)

/-- **What is read of a text** is the value of which it is the document. -/
theorem parse?_eq_some_iff {text : String} {v : Json} : parse? text = some v ↔ Spells text v := by
  rw [parse?, Option.bind_eq_bind, Option.bind_eq_some_iff]
  constructor
  · rintro ⟨tokens, htokens, hv⟩
    rw [Spells, htokens, ofTokens?_eq_some_iff.mp hv]
  · intro htokens
    exact ⟨_, htokens, ofTokens?_eq_some_iff.mpr rfl⟩

/-! ### Blanks around a text -/

theorem isBlank_iff {c : Char} :
    isBlank c = true ↔ c = ' ' ∨ c = '\t' ∨ c = '\n' ∨ c = '\r' := by
  simp only [isBlank, Bool.or_eq_true, beq_iff_eq, or_assoc]

namespace Scan

theorem step_blank {c : Char} (hc : isBlank c = true) (tokens : List Token) :
    step ⟨tokens, .none⟩ c = some ⟨tokens, .none⟩ := by
  rcases isBlank_iff.mp hc with rfl | rfl | rfl | rfl <;> rfl

/-- A blank ends what ends anyway, and closes no quoted text. -/
theorem finish_blank {c : Char} (hc : isBlank c = true) (s : Scan) :
    (s.step c).bind finish = s.finish := by
  obtain ⟨tokens, piece⟩ := s
  cases piece with
  | none =>
    rw [step_blank hc]
    rfl
  | word read =>
    have hend : step ⟨tokens, .word read⟩ c = endWord ⟨tokens, .word read⟩ := by
      rcases isBlank_iff.mp hc with rfl | rfl | rfl | rfl <;> rfl
    rw [hend, finish, endWord]
    dsimp only
    cases word? read.reverse <;> rfl
  | quotation read isEscaping =>
    cases isEscaping with
    | true => rfl
    | false => rcases isBlank_iff.mp hc with rfl | rfl | rfl | rfl <;> rfl

theorem finish_blanks {blanks : List Char} (hb : ∀ c ∈ blanks, isBlank c = true) (s : Scan) :
    (blanks.foldlM step s).bind finish = s.finish := by
  induction blanks generalizing s with
  | nil => rfl
  | cons c blanks ih =>
    have hblanks := funext (ih fun d hd => hb d (List.mem_cons_of_mem c hd))
    rw [List.foldlM_cons, Option.bind_eq_bind, Option.bind_assoc, hblanks,
      finish_blank (hb c List.mem_cons_self)]

/-- Blanks are passed over where nothing has begun. -/
theorem foldlM_blanks {blanks : List Char} (hb : ∀ c ∈ blanks, isBlank c = true)
    (tokens : List Token) : blanks.foldlM step ⟨tokens, .none⟩ = some ⟨tokens, .none⟩ := by
  induction blanks with
  | nil => rfl
  | cons c blanks ih =>
    rw [List.foldlM_cons, step_blank (hb c List.mem_cons_self)]
    exact ih fun d hd => hb d (List.mem_cons_of_mem c hd)

end Scan

/-- **Blanks around a text do not matter.** -/
theorem tokens?_append_blanks {front back : List Char} (hfront : ∀ c ∈ front, isBlank c = true)
    (hback : ∀ c ∈ back, isBlank c = true) (text : String) :
    tokens? (String.ofList front ++ text ++ String.ofList back) = tokens? text := by
  have hfinish := funext (Scan.finish_blanks hback)
  rw [tokens?, String.toList_append, String.toList_append, String.toList_ofList,
    String.toList_ofList, List.foldlM_append, List.foldlM_append, Scan.foldlM_blanks hfront]
  simp only [Option.bind_eq_bind, Option.bind_some, Option.bind_assoc]
  rw [hfinish]
  rfl

end AcpiTables.Json
