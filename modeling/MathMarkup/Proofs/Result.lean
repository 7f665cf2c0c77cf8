/-!
This module contains what can be said about computations that may fail, step by step: that every
result or every error has a property, that one computation has the results of another, and that two
computations fail alike.
-/

namespace MathMarkup

variable {ε α β : Type} {x y : Except ε α} {f g : α → Except ε β}

theorem eq_ok_of_toOption {a : α} (h : x.toOption = some a) : x = .ok a := by
  cases x with
  | error e => contradiction
  | ok a =>
    cases h
    rfl

theorem exists_of_isSome (h : x.toOption.isSome) : ∃ a, x = .ok a := by
  obtain ⟨a, ha⟩ := Option.isSome_iff_exists.1 h
  exact ⟨a, eq_ok_of_toOption ha⟩

theorem exists_of_isNone (h : x.toOption.isNone) : ∃ e, x = .error e := by
  cases x with
  | error e => exact ⟨e, rfl⟩
  | ok a => contradiction

theorem exists_of_bind_eq_ok {b : β} (h : (x >>= f) = .ok b) : ∃ a, x = .ok a ∧ f a = .ok b := by
  cases x with
  | error e => contradiction
  | ok a => exact ⟨a, rfl, h⟩

/--
Every result of the computation has the property.
-/
def Yields (x : Except ε α) (p : α → Prop) : Prop :=
  ∀ result, x = .ok result → p result

section Yields

variable {p q : α → Prop} {r : β → Prop}

theorem yields_ok {a : α} (h : p a) : Yields (.ok a : Except ε α) p := by
  rintro _ ⟨⟩
  exact h

theorem yields_error (e : ε) : Yields (.error e : Except ε α) p :=
  nofun

theorem yields_trivial (x : Except ε α) : Yields x fun _ => True :=
  fun _ _ => trivial

theorem Yields.mono (h : Yields x p) (hpq : ∀ a, p a → q a) : Yields x q :=
  fun a ha => hpq a (h a ha)

theorem Yields.bind (h : Yields x p) (hnext : ∀ a, p a → Yields (f a) r) : Yields (x >>= f) r := by
  intro result hresult
  cases x with
  | error e => contradiction
  | ok a => exact hnext a (h a rfl) result hresult

theorem Yields.mapError {γ : Type} (h : Yields x p) (f : ε → γ) : Yields (x.mapError f) p := by
  intro result hresult
  cases x with
  | error e => contradiction
  | ok a =>
    cases hresult
    exact h _ rfl

end Yields

/--
Every error of the computation has the property.
-/
def Fails (x : Except ε α) (p : ε → Prop) : Prop :=
  ∀ error, x = .error error → p error

section Fails

variable {p : ε → Prop} {r : α → Prop}

theorem fails_ok (a : α) : Fails (.ok a) p :=
  nofun

theorem fails_error {e : ε} (h : p e) : Fails (.error e : Except ε α) p := by
  rintro _ ⟨⟩
  exact h

theorem Fails.mono {q : ε → Prop} (h : Fails x p) (hpq : ∀ e, p e → q e) : Fails x q :=
  fun e he => hpq e (h e he)

theorem Fails.bind_yields (h : Fails x p) (hx : Yields x r) (hnext : ∀ a, r a → Fails (f a) p)
    : Fails (x >>= f) p := by
  intro error herror
  cases x with
  | error e =>
    cases herror
    exact h _ rfl
  | ok a => exact hnext a (hx a rfl) error herror

theorem Fails.bind (h : Fails x p) (hnext : ∀ a, Fails (f a) p) : Fails (x >>= f) p :=
  h.bind_yields (yields_trivial x) fun a _ => hnext a

theorem Fails.map (h : Fails x p) (f : α → β) : Fails (x >>= fun a => pure (f a)) p :=
  h.bind fun _ => fails_ok _

theorem Fails.ite {c : Prop} [Decidable c] (hx : Fails x p) (hy : Fails y p)
    : Fails (if c then x else y) p := by
  split
  . exact hx
  . exact hy

theorem Fails.mapError {γ : Type} {q : γ → Prop} {f : ε → γ} (h : Fails x p)
    (hf : ∀ e, p e → q (f e)) : Fails (x.mapError f) q := by
  intro error herror
  cases x with
  | error e =>
    cases herror
    exact hf _ (h _ rfl)
  | ok a => contradiction

end Fails

/--
Every result of the computation has the first property, and every error the second one.
-/
structure Concludes (x : Except ε α) (p : α → Prop) (q : ε → Prop) : Prop where
  yields : Yields x p
  fails : Fails x q

section Concludes

variable {p : α → Prop} {q q' : ε → Prop} {r : β → Prop}

theorem concludes_ok {a : α} (h : p a) : Concludes (.ok a) p q :=
  ⟨yields_ok h, fails_ok a⟩

theorem concludes_error {e : ε} (h : q e) : Concludes (.error e) p q :=
  ⟨yields_error e, fails_error h⟩

theorem Concludes.mono (h : Concludes x p q) (hq : ∀ e, q e → q' e) : Concludes x p q' :=
  ⟨h.yields, h.fails.mono hq⟩

theorem Concludes.bind (h : Concludes x p q) (hnext : ∀ a, p a → Concludes (f a) r q)
    : Concludes (x >>= f) r q :=
  ⟨h.yields.bind fun a ha => (hnext a ha).yields,
    h.fails.bind_yields h.yields fun a ha => (hnext a ha).fails⟩

theorem concludes_mapM {p : β → Prop} {items : List β} {step : β → Except ε α}
    (h : ∀ item ∈ items, Concludes (step item) (fun _ => p item) q)
    : Concludes (items.mapM step) (fun _ => ∀ item ∈ items, p item) q := by
  induction items with
  | nil => exact concludes_ok (by simp)
  | cons item items ih =>
    obtain ⟨hitem, hitems⟩ := List.forall_mem_cons.mp h
    rw [List.mapM_cons]
    refine hitem.bind fun _ hfirst => (ih hitems).bind fun _ hothers => ?_
    exact concludes_ok (List.forall_mem_cons.mpr ⟨hfirst, hothers⟩)

end Concludes

/--
The second computation has the result of the first, if the first has one.
-/
def Extends (x y : Except ε α) : Prop :=
  Yields x fun result => y = .ok result

section Extends

theorem Extends.refl (x : Except ε α) : Extends x x :=
  fun _ h => h

theorem extends_error (e : ε) (x : Except ε α) : Extends (.error e) x :=
  yields_error e

theorem Extends.bind (h : Extends x y) (hnext : ∀ a, Extends (f a) (g a))
    : Extends (x >>= f) (y >>= g) := by
  intro result hresult
  cases x with
  | error e => contradiction
  | ok a =>
    rw [h a rfl]
    exact hnext a result hresult

theorem Extends.map (h : Extends x y) (f : α → β)
    : Extends (x >>= fun a => pure (f a)) (y >>= fun a => pure (f a)) :=
  h.bind fun _ => .refl _

theorem Extends.ite {p : Prop} [Decidable p] {x' y' : Except ε α} (h : Extends x y)
    (h' : Extends x' y') : Extends (if p then x else x') (if p then y else y') := by
  split
  . exact h
  . exact h'

theorem Extends.mapError {γ : Type} (h : Extends x y) (f g : ε → γ)
    : Extends (x.mapError f) (y.mapError g) := by
  intro result hresult
  cases x with
  | error e => contradiction
  | ok a =>
    rw [h a rfl]
    exact hresult

end Extends

/--
The computations fail with the same error, or both have results and these are related.
-/
def Abreast (r : α → β → Prop) : Except ε α → Except ε β → Prop
  | .ok a, .ok b => r a b
  | .error e, .error e' => e = e'
  | _, _ => False

section Abreast

variable {α' β' : Type} {r : α → β → Prop} {s : α' → β' → Prop} {z : Except ε β}

theorem Abreast.bind (h : Abreast r x z) {f : α → Except ε α'} {g : β → Except ε β'}
    (hnext : ∀ a b, r a b → Abreast s (f a) (g b)) : Abreast s (x >>= f) (z >>= g) := by
  match x, z with
  | .ok a, .ok b => exact hnext a b h
  | .error e, .error e' => exact h
  | .ok _, .error _ | .error _, .ok _ => contradiction

theorem Abreast.map (h : Abreast r x z) {f : α → α'} {g : β → β'}
    (hnext : ∀ a b, r a b → s (f a) (g b))
    : Abreast s (x >>= fun a => pure (f a)) (z >>= fun b => pure (g b)) :=
  h.bind hnext

theorem Abreast.mapError {ε' : Type} (h : Abreast r x z) (f : ε → ε')
    : Abreast r (x.mapError f) (z.mapError f) := by
  match x, z with
  | .ok a, .ok b => exact h
  | .error e, .error e' => exact congrArg f h
  | .ok _, .error _ | .error _, .ok _ => contradiction

theorem abreast_self {r : α → α → Prop} {x : Except ε α} (h : Yields x fun a => r a a)
    : Abreast r x x := by
  match x with
  | .ok a => exact h a rfl
  | .error _ => exact rfl

theorem Abreast.error_iff (h : Abreast r x z) (e : ε) : x = .error e ↔ z = .error e := by
  match x, z with
  | .ok a, .ok b => simp
  | .error e', .error e'' =>
    cases h
    simp
  | .ok _, .error _ | .error _, .ok _ => contradiction

end Abreast

end MathMarkup
