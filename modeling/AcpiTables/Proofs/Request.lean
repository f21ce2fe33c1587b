import Mathlib.Order.Defs.Unbundled

/-!
# Requests and what they keep

A question has an answer or fails, and several in a row have one if each has
(`AcpiTables.bind_eq_ok`). A request runs in a state and leaves a state behind, also when it
fails: nothing is undone. `AcpiTables.after` is the state left behind, and
`AcpiTables.Keeps` says of a request that it always leaves a state related to the one it
found.

A relation that is kept by the steps of a request is kept by the request, provided only that
doing nothing keeps it and that it can be chained. That is said once for each way to put
requests together, so that a fact about whole requests needs a proof for their steps only.
-/

namespace AcpiTables

variable {ε σ α β : Type} {s s' : σ} {a : α} {e : ε}

/-! ### Answers -/

section Answers

variable {x : Except ε α} {b : β}

/-- Two questions in a row succeed if both do. -/
theorem bind_eq_ok {f : α → Except ε β} : (x >>= f) = .ok b ↔ ∃ a, x = .ok a ∧ f a = .ok b := by
  cases x with
  | error e => simp [bind, Except.bind]
  | ok a => simp [bind, Except.bind]

theorem map_eq_ok {f : α → β} : f <$> x = .ok b ↔ ∃ a, x = .ok a ∧ f a = b := by
  cases x with
  | error e => simp [Functor.map, Except.map]
  | ok a => simp [Functor.map, Except.map]

theorem pure_eq_ok {a b : α} : (pure a : Except ε α) = .ok b ↔ a = b := by
  simp [pure, Except.pure]

end Answers

/-! ### States left behind -/

/-- The state after a request, whether it succeeded or not. -/
def after (m : EStateM ε σ α) (s : σ) : σ :=
  match m s with
  | .ok _ s' => s'
  | .error _ s' => s'

theorem after_ok {m : EStateM ε σ α} (hm : m s = .ok a s') : after m s = s' := by
  rw [after, hm]

theorem after_error {m : EStateM ε σ α} (hm : m s = .error e s') : after m s = s' := by
  rw [after, hm]

/-! ### One request after the other -/

section Bind

variable {m : EStateM ε σ α} {f : α → EStateM ε σ β}

/-- A request after one that succeeded starts from its result. -/
theorem bind_ok (hm : m s = .ok a s') : (m >>= f) s = f a s' := by
  simp only [bind, EStateM.bind, hm]

/-- Nothing is done after a request that failed. -/
theorem bind_error (hm : m s = .error e s') : (m >>= f) s = .error e s' := by
  simp only [bind, EStateM.bind, hm]

theorem after_bind_ok (hm : m s = .ok a s') : after (m >>= f) s = after (f a) s' := by
  rw [after, bind_ok hm]
  rfl

theorem after_bind_error (hm : m s = .error e s') : after (m >>= f) s = s' :=
  after_error (bind_error hm)

end Bind

/-! ### A request whose result is read otherwise -/

section Map

variable {m : EStateM ε σ α} {f : α → β}

theorem map_ok (hm : m s = .ok a s') : (f <$> m) s = .ok (f a) s' := by
  simp only [Functor.map, EStateM.map, hm]

theorem map_error (hm : m s = .error e s') : (f <$> m) s = .error e s' := by
  simp only [Functor.map, EStateM.map, hm]

/-- A result that is read otherwise is a result. -/
theorem exists_of_map_ok {b : β} (hm : (f <$> m) s = .ok b s') : ∃ a, m s = .ok a s' ∧ f a = b := by
  cases hr : m s with
  | ok a s₁ =>
    obtain ⟨rfl, rfl⟩ := EStateM.Result.ok.inj ((map_ok hr).symm.trans hm)
    exact ⟨a, rfl, rfl⟩
  | error e s₁ => exact nomatch (map_error hr).symm.trans hm

/-- Reading a result otherwise changes no state. -/
theorem after_map (m : EStateM ε σ α) (f : α → β) (s : σ) : after (f <$> m) s = after m s := by
  cases hr : m s with
  | ok a s' => rw [after_ok hr, after_ok (map_ok hr)]
  | error e s' => rw [after_error hr, after_error (map_error hr)]

end Map

/-! ### A request in the place of a failed one -/

section Catch

variable {m : EStateM ε σ α} {f : ε → EStateM ε σ α}

theorem tryCatch_ok (hm : m s = .ok a s') : (tryCatch m f : EStateM ε σ α) s = .ok a s' := by
  show EStateM.tryCatch m f s = .ok a s'
  delta EStateM.tryCatch
  simp only [hm]

/-- What failed has left its state behind. -/
theorem tryCatch_error (hm : m s = .error e s') : (tryCatch m f : EStateM ε σ α) s = f e s' := by
  show EStateM.tryCatch m f s = f e s'
  delta EStateM.tryCatch
  simp only [hm]
  rfl

end Catch

/-! ### What is kept -/

/-- A request leaves a state behind that is related to the one it found. -/
def Keeps (R : σ → σ → Prop) (m : EStateM ε σ α) : Prop := ∀ s, R s (after m s)

namespace Keeps

variable {R : σ → σ → Prop} [IsPreorder σ R]

theorem pure (a : α) : Keeps R (Pure.pure a : EStateM ε σ α) := fun s => refl s

theorem fail (e : ε) : Keeps R (throw e : EStateM ε σ α) := fun s => refl s

/-- The second request has to keep what it finds after a success of the first only. -/
theorem bind {m : EStateM ε σ α} {f : α → EStateM ε σ β} (hm : Keeps R m)
    (hf : ∀ a s s', m s = .ok a s' → R s' (after (f a) s')) : Keeps R (m >>= f) := by
  intro s
  have hs := hm s
  cases hr : m s with
  | ok a s' =>
    rw [after_ok hr] at hs
    rw [after_bind_ok hr]
    exact IsTrans.trans _ _ _ hs (hf a s s' hr)
  | error e s' =>
    rw [after_error hr] at hs
    rwa [after_bind_error hr]

theorem andThen {m : EStateM ε σ α} {f : α → EStateM ε σ β} (hm : Keeps R m)
    (hf : ∀ a, Keeps R (f a)) : Keeps R (m >>= f) :=
  hm.bind fun a _ s' _ => hf a s'

/-- A request that is tried, and another one where it fails. -/
theorem orElse {m : EStateM ε σ α} {f : ε → EStateM ε σ α} (hm : Keeps R m)
    (hf : ∀ e, Keeps R (f e)) : Keeps R (tryCatch m f) := by
  intro s
  have hs := hm s
  cases hr : m s with
  | ok a s' =>
    rw [after_ok hr] at hs
    rwa [after_ok (tryCatch_ok hr)]
  | error e s' =>
    rw [after_error hr] at hs
    rw [after, tryCatch_error hr]
    exact IsTrans.trans _ _ _ hs (hf e s')

end Keeps

/-- **What every step keeps, a run keeps.** -/
theorem related_foldl {ρ : Type} {R : σ → σ → Prop} [IsPreorder σ R] {step : σ → ρ → σ}
    {requests : List ρ} (hstep : ∀ r ∈ requests, ∀ s, R s (step s r)) (s : σ) :
    R s (requests.foldl step s) := by
  induction requests generalizing s with
  | nil => exact refl s
  | cons r requests ih =>
    have hhead := hstep r List.mem_cons_self s
    have htail := ih (fun x hx => hstep x (List.mem_cons_of_mem r hx)) (step s r)
    exact IsTrans.trans _ _ _ hhead htail

end AcpiTables
