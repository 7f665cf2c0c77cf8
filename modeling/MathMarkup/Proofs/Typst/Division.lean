import Mathlib.Data.List.Chain
import Mathlib.Data.List.DropRight
import MathMarkup.Proofs.Typst.Reading

/-!
This module contains the proof that divisions are resolved as an operator between two operands that
associates to the left. Spaces at a slash do not matter, and the only error is an operand that is
missing.
-/

namespace MathMarkup
namespace Typst
namespace Item

def isSpace : Item → Bool
  | .node formula => formula.isSpace
  | .slash _ => false

def isSlash : Item → Bool
  | .node _ => false
  | .slash _ => true

def slashNext (items : List Item) : Bool :=
  (items.find? fun item => !item.isSpace).any isSlash

/--
The items without the spaces at a slash. These are the spaces between which and some slash, on
either side, there are only spaces.
-/
def closeUp (items : List Item) : List Item :=
  go [] items
where
  /-- `before` holds the items before the current one, last one first. -/
  go (before : List Item) : List Item → List Item
    | [] => []
    | item :: items =>
      if item.isSpace && (slashNext before || slashNext items) then
        go (item :: before) items
      else
        item :: go (item :: before) items

/--
Items in which a slash lacks an operand: it is the first or the last of them, or another slash
follows it.
-/
def LacksOperand (items : List Item) : Prop :=
  (∃ span rest, items = .slash span :: rest) ∨ (∃ front span, items = front ++ [.slash span]) ∨
    ∃ front one other rest, items = front ++ .slash one :: .slash other :: rest

/--
A formula and those that it is divided by, each with the place of the slash before it.
-/
structure Quotient where
  first : Formula
  divisors : List (Span × Formula)

namespace Quotient

def tail (divisors : List (Span × Formula)) : List Item :=
  divisors.flatMap fun (span, divisor) => [.slash span, .node divisor]

def items (quotient : Quotient) : List Item :=
  .node quotient.first :: tail quotient.divisors

def divide (num : Formula) (divisors : List (Span × Formula)) : Formula :=
  divisors.foldl (fun num (_, divisor) => .frac num (operand divisor)) num

/--
The formula that the quotient is: a fraction nested to the left, or the only formula as it is.
-/
def formula : Quotient → Formula
  | ⟨first, []⟩ => first
  | ⟨first, divisors⟩ => divide (operand first) divisors

/--
No operand of the quotient is a space.
-/
def IsSolid (quotient : Quotient) : Prop :=
  ∀ pair ∈ quotient.divisors, quotient.first.isSpace = false ∧ pair.2.isSpace = false

end Quotient

section SlashNext

variable {item : Item} {items : List Item}

theorem slashNext_space (h : item.isSpace) : slashNext (item :: items) = slashNext items := by
  simp [slashNext, h]

theorem slashNext_solid {node : Formula} (h : node.isSpace = false)
    : slashNext (.node node :: items) = false := by
  simp [slashNext, isSpace, h, isSlash]

end SlashNext

section CloseUp

variable {done : List Formula} {pending : Option (Formula × Span)} {items : List Item}

theorem go_dropWhile (h : slashNext items) (done : List Formula)
    : resolve.go done none items = resolve.go (done.dropWhile Formula.isSpace) none items := by
  induction items generalizing done with
  | nil => contradiction
  | cons item items ih =>
    cases item with
    | slash span =>
      rw [resolve.go, resolve.go, List.dropWhile_idempotent]
    | node node =>
      cases hspace : node.isSpace with
      | true =>
        rw [slashNext_space (by exact hspace)] at h
        rw [resolve.go, resolve.go, ih h (node :: done),
          ih h (node :: done.dropWhile Formula.isSpace)]
        simp [hspace, List.dropWhile_idempotent]
      | false =>
        rw [slashNext_solid hspace] at h
        contradiction

theorem go_space {node : Formula} (hspace : node.isSpace) (h : slashNext items)
    (done : List Formula) : resolve.go (node :: done) none items = resolve.go done none items := by
  rw [go_dropWhile h (node :: done), go_dropWhile h done, List.dropWhile_cons_of_pos hspace]

/--
Without the spaces at slashes the result is the same. A numerator is pending exactly if a slash
stands before the current item, apart from spaces.
-/
theorem go_closeUp (before : List Item) (hpending : pending.isSome = slashNext before)
    : resolve.go done pending (closeUp.go before items) = resolve.go done pending items := by
  induction items generalizing before done pending with
  | nil => rfl
  | cons item items ih =>
    cases item with
    | slash span =>
      have hkept : closeUp.go before (.slash span :: items) =
          .slash span :: closeUp.go (.slash span :: before) items := rfl
      rw [hkept]
      cases pending with
      | some pair => rw [resolve.go, resolve.go]
      | none =>
        rw [resolve.go, resolve.go]
        split
        . rfl
        . exact ih _ rfl
    | node node =>
      cases hspace : node.isSpace with
      | false =>
        have hkept : closeUp.go before (.node node :: items) =
            .node node :: closeUp.go (.node node :: before) items := by
          simp [closeUp.go, isSpace, hspace]
        have hnone : (none : Option (Formula × Span)).isSome = slashNext (.node node :: before) :=
          (slashNext_solid hspace).symm
        rw [hkept]
        cases pending with
        | none =>
          rw [resolve.go, resolve.go]
          exact ih _ hnone
        | some pair =>
          simp only [resolve.go, hspace, Bool.false_eq_true, if_false]
          exact ih _ hnone
      | true =>
        have hnext : slashNext (.node node :: before) = slashNext before :=
          slashNext_space (by exact hspace)
        have hafter := @ih done pending (.node node :: before) (hpending.trans hnext.symm)
        rw [closeUp.go]
        split
        next hdropped =>
          rw [hafter]
          cases pending with
          | some pair => simp only [resolve.go, hspace, if_true]
          | none =>
            have hslash : slashNext items := by
              rw [← hpending] at hdropped
              simpa [isSpace, hspace] using hdropped
            exact (go_space hspace hslash done).symm
        next hkept =>
          cases pending with
          | some pair =>
            rw [← hpending] at hkept
            simp [isSpace, hspace] at hkept
          | none =>
            rw [resolve.go, resolve.go]
            exact ih _ (hpending.trans hnext.symm)

theorem resolve_closeUp (items : List Item) : resolve (closeUp items) = resolve items :=
  go_closeUp [] rfl

/--
Items that do not stand side by side once the spaces at slashes are left out.
-/
def Touches (one next : Item) : Prop :=
  (one.isSpace ∧ next.isSlash) ∨ (one.isSlash ∧ next.isSpace)

theorem head?_closeUp_after {before : List Item} (hbefore : slashNext before)
    : ∀ next ∈ (closeUp.go before items).head?, next.isSpace = false := by
  induction items generalizing before with
  | nil => exact nofun
  | cons item items ih =>
    rw [closeUp.go]
    split
    next hdropped =>
      apply ih
      rw [Bool.and_eq_true] at hdropped
      rwa [slashNext_space hdropped.1]
    next hkept =>
      rintro _ ⟨⟩
      simpa [hbefore] using hkept

theorem head?_closeUp_before (before : List Item) (hitems : slashNext items = false)
    : ∀ next ∈ (closeUp.go before items).head?, next.isSlash = false := by
  induction items generalizing before with
  | nil => exact nofun
  | cons item items ih =>
    have hslash : item.isSlash = false := by
      cases item with
      | slash span => contradiction
      | node => rfl
    rw [closeUp.go]
    split
    next hdropped =>
      rw [Bool.and_eq_true] at hdropped
      rw [slashNext_space hdropped.1] at hitems
      exact ih _ hitems
    . rintro _ ⟨⟩
      exact hslash

theorem isChain_closeUp (before items : List Item)
    : (closeUp.go before items).IsChain fun one next => ¬ Touches one next := by
  induction items generalizing before with
  | nil => exact .nil
  | cons item items ih =>
    rw [closeUp.go]
    split
    . exact ih _
    next hkept =>
      rw [List.isChain_cons]
      refine ⟨fun next hnext => ?_, ih _⟩
      rintro (⟨hspace, hslash⟩ | ⟨hslash, hspace⟩)
      . have hitems : slashNext items = false := by
          simp only [hspace, Bool.true_and, Bool.or_eq_true, not_or] at hkept
          exact Bool.eq_false_iff.mpr hkept.2
        rw [head?_closeUp_before _ hitems next hnext] at hslash
        contradiction
      . have hbefore : slashNext (item :: before) := by
          cases item with
          | slash span => rfl
          | node => contradiction
        rw [head?_closeUp_after hbefore next hnext] at hspace
        contradiction

end CloseUp

section Quotients

variable {items : List Item} {quotient : Quotient} {quotients : List Quotient}

theorem go_slash {num den : Formula} {span : Span} (hnum : num.isSpace = false)
    (hden : den.isSpace = false) (done : List Formula) (rest : List Item)
    : resolve.go (num :: done) none (.slash span :: .node den :: rest) =
      resolve.go (.frac (operand num) (operand den) :: done) none rest := by
  simp [resolve.go, hnum, hden]

theorem go_divide {num den : Formula} {divisors : List (Span × Formula)}
    (h : ∀ pair ∈ divisors, pair.2.isSpace = false) (done : List Formula) (rest : List Item)
    : resolve.go (.frac num den :: done) none (Quotient.tail divisors ++ rest) =
      resolve.go (Quotient.divide (.frac num den) divisors :: done) none rest := by
  induction divisors generalizing num den with
  | nil => rfl
  | cons pair divisors ih =>
    rw [List.forall_mem_cons] at h
    have hnum : operand (.frac num den) = .frac num den := operand_of_ne_parens nofun
    have hslash := @go_slash (.frac num den) pair.2 pair.1 rfl h.1 done
      (Quotient.tail divisors ++ rest)
    rw [hnum] at hslash
    exact hslash.trans (ih h.2)

theorem Quotient.IsSolid.resolves (h : quotient.IsSolid)
    : Resolves quotient.items [quotient.formula] := by
  obtain ⟨first, divisors⟩ := quotient
  cases divisors with
  | nil => exact resolves_node
  | cons pair divisors =>
    have hpair := h pair List.mem_cons_self
    intro done rest
    exact (go_slash hpair.1 hpair.2 done _).trans
      (go_divide (fun other hother => (h other (List.mem_cons_of_mem _ hother)).2) done rest)

theorem resolve_quotients (h : ∀ quotient ∈ quotients, quotient.IsSolid)
    : resolve (quotients.flatMap Quotient.items) = .ok (quotients.map Quotient.formula) := by
  have hresolves :
      Resolves (quotients.flatMap Quotient.items) (quotients.map Quotient.formula) := by
    induction quotients with
    | nil => exact resolves_nil
    | cons quotient quotients ih =>
      rw [List.forall_mem_cons] at h
      exact h.1.resolves.append (ih h.2)
  exact hresolves.resolve_eq

theorem LacksOperand.prepend {node : Formula} (h : LacksOperand (.node node :: items))
    (front : List Item) : LacksOperand (front ++ .node node :: items) := by
  rcases h with ⟨span, rest, heq⟩ | ⟨before, span, heq⟩ | ⟨before, one, other, rest, heq⟩
  . simp at heq
  . rw [heq, ← List.append_assoc]
    exact .inr (.inl ⟨_, span, rfl⟩)
  . rw [heq, ← List.append_assoc]
    exact .inr (.inr ⟨_, one, other, rest, rfl⟩)

theorem exists_quotients : ∀ {items : List Item},
    (items.IsChain fun one next => ¬ Touches one next) → ¬ LacksOperand items →
    ∃ quotients : List Quotient, (∀ quotient ∈ quotients, quotient.IsSolid) ∧
      items = quotients.flatMap Quotient.items
  | [], _, _ => ⟨[], nofun, rfl⟩
  | .slash span :: items, _, h => absurd (.inl ⟨span, items, rfl⟩) h
  | [.node first], _, _ => ⟨[⟨first, []⟩], by simp [Quotient.IsSolid], rfl⟩
  | .node first :: .node second :: items, hchain, h => by
    have hrest : ¬ LacksOperand (.node second :: items) :=
      fun hlacks => h (hlacks.prepend [.node first])
    rw [List.isChain_cons_cons] at hchain
    obtain ⟨quotients, hsolid, heq⟩ := exists_quotients hchain.2 hrest
    refine ⟨⟨first, []⟩ :: quotients, ?_, ?_⟩
    . rw [List.forall_mem_cons]
      exact ⟨nofun, hsolid⟩
    . rw [heq]
      rfl
  | [.node first, .slash span], _, h => absurd (.inr (.inl ⟨[.node first], span, rfl⟩)) h
  | .node first :: .slash one :: .slash other :: items, _, h =>
    absurd (.inr (.inr ⟨[.node first], one, other, items, rfl⟩)) h
  | .node first :: .slash span :: .node second :: items, hchain, h => by
    have hrest : ¬ LacksOperand (.node second :: items) :=
      fun hlacks => h (hlacks.prepend [.node first, .slash span])
    rw [List.isChain_cons_cons, List.isChain_cons_cons] at hchain
    obtain ⟨quotients, hsolid, heq⟩ := exists_quotients hchain.2.2 hrest
    have hfirst : first.isSpace = false :=
      Bool.eq_false_iff.mpr fun hspace => hchain.1 (.inl ⟨hspace, rfl⟩)
    have hsecond : second.isSpace = false :=
      Bool.eq_false_iff.mpr fun hspace => hchain.2.1 (.inr ⟨rfl, hspace⟩)
    -- The quotient that begins after the slash is divided into the formula before it.
    cases quotients with
    | nil => contradiction
    | cons quotient quotients =>
      rw [List.forall_mem_cons] at hsolid
      rw [List.flatMap_cons, Quotient.items, List.cons_append, List.cons.injEq, node.injEq] at heq
      obtain ⟨rfl, rfl⟩ := heq
      refine ⟨⟨first, (span, quotient.first) :: quotient.divisors⟩ :: quotients, ?_, rfl⟩
      simp only [List.forall_mem_cons, Quotient.IsSolid]
      exact ⟨⟨⟨hfirst, hsecond⟩, fun pair hpair => ⟨hfirst, (hsolid.1 pair hpair).2⟩⟩, hsolid.2⟩

end Quotients

/--
The result of a resolution that fails because an operand is missing.
-/
def MissesOperand (result : Except ParseError (List Formula)) : Prop :=
  ∃ span hints, result = .error (missingOperand span hints)

section MissesOperand

variable {items : List Item}

theorem missesOperand_append (h : ∀ done pending, MissesOperand (resolve.go done pending items))
    (front : List Item) (done : List Formula) (pending : Option (Formula × Span))
    : MissesOperand (resolve.go done pending (front ++ items)) := by
  induction front generalizing done pending with
  | nil => exact h done pending
  | cons item front ih =>
    rw [List.cons_append]
    cases item with
    | slash span =>
      cases pending with
      | some pair => exact ⟨span, _, rfl⟩
      | none =>
        rw [resolve.go]
        split
        . exact ⟨span, _, rfl⟩
        . exact ih _ _
    | node node =>
      cases pending with
      | none => exact ih _ _
      | some pair =>
        simp only [resolve.go]
        split
        . exact ih _ _
        . exact ih _ _

theorem missesOperand_last (span : Span) (done : List Formula) (pending : Option (Formula × Span))
    : MissesOperand (resolve.go done pending [.slash span]) := by
  cases pending with
  | some pair => exact ⟨span, _, rfl⟩
  | none =>
    rw [resolve.go]
    split
    . exact ⟨span, _, rfl⟩
    . exact ⟨span, _, rfl⟩

theorem missesOperand_twice (one other : Span) (rest : List Item) (done : List Formula)
    (pending : Option (Formula × Span))
    : MissesOperand (resolve.go done pending (.slash one :: .slash other :: rest)) := by
  cases pending with
  | some pair => exact ⟨one, _, rfl⟩
  | none =>
    rw [resolve.go]
    split
    . exact ⟨one, _, rfl⟩
    . exact ⟨other, _, rfl⟩

theorem LacksOperand.missesOperand (h : LacksOperand items) : MissesOperand (resolve items) := by
  rcases h with ⟨span, rest, rfl⟩ | ⟨front, span, rfl⟩ | ⟨front, one, other, rest, rfl⟩
  . exact ⟨span, _, rfl⟩
  . exact missesOperand_append (missesOperand_last span) front [] none
  . exact missesOperand_append (missesOperand_twice one other rest) front [] none

end MissesOperand

/--
Divisions are resolved from left to right once the spaces at slashes are left out: there is an error
exactly if an operand is missing, and otherwise each quotient becomes one fraction and everything
else stays in its place.
-/
theorem resolve_eq_quotients (items : List Item)
    : ((∃ span hints, resolve items = .error (missingOperand span hints)) ↔
        LacksOperand (closeUp items)) ∧
      (¬ LacksOperand (closeUp items) →
        ∃ quotients : List Quotient, closeUp items = quotients.flatMap Quotient.items ∧
          resolve items = .ok (quotients.map Quotient.formula)) := by
  have hok : ¬ LacksOperand (closeUp items) →
      ∃ quotients : List Quotient, closeUp items = quotients.flatMap Quotient.items ∧
        resolve items = .ok (quotients.map Quotient.formula) := by
    intro hfull
    obtain ⟨quotients, hsolid, heq⟩ := exists_quotients (isChain_closeUp [] items) hfull
    refine ⟨quotients, heq, ?_⟩
    rw [← resolve_closeUp, ← resolve_quotients hsolid, ← heq]
    rfl
  refine ⟨⟨?_, ?_⟩, hok⟩
  . rintro ⟨span, hints, herror⟩
    by_contra hfull
    obtain ⟨quotients, -, hresult⟩ := hok hfull
    rw [herror] at hresult
    contradiction
  . intro hlacks
    have hmisses := hlacks.missesOperand
    rwa [resolve_closeUp] at hmisses

theorem resolve_eq_quotients_chain
    : ∃ items : List Item,
      items = [.node (.atom "a"), .node (.space " "), .slash .detached, .node (.parens [.atom "b"]),
        .slash .detached, .node (.atom "c")] ∧
      ¬ LacksOperand (closeUp items) ∧
      ∃ quotients : List Quotient, closeUp items = quotients.flatMap Quotient.items ∧
        resolve items = .ok (quotients.map Quotient.formula) ∧
        quotients.map Quotient.formula = [.frac (.frac (.atom "a") (.atom "b")) (.atom "c")] := by
  refine ⟨_, rfl, ?_⟩
  have hrun : resolve [.node (.atom "a"), .node (.space " "), .slash .detached,
      .node (.parens [.atom "b"]), .slash .detached, .node (.atom "c")] =
        .ok [.frac (.frac (.atom "a") (.atom "b")) (.atom "c")] := rfl
  obtain ⟨herror, hok⟩ := resolve_eq_quotients [.node (.atom "a"), .node (.space " "),
    .slash .detached, .node (.parens [.atom "b"]), .slash .detached, .node (.atom "c")]
  have hfull := mt herror.mpr (by rw [hrun]; simp)
  obtain ⟨quotients, heq, hresult⟩ := hok hfull
  refine ⟨hfull, quotients, heq, hresult, ?_⟩
  rw [hrun, Except.ok.injEq] at hresult
  exact hresult.symm

end Item
end Typst
end MathMarkup
