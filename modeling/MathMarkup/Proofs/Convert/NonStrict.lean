import MathMarkup.Convert
import MathMarkup.Proofs.Result

/-!
This module contains the proof that it only turns failures into results to pass on what is unknown:
whatever is converted in strict mode is converted to the same result in non-strict mode. For the
conversion to TeX, the same walk over a formula shows that its errors have no place yet.
-/

namespace MathMarkup

def Options.lenient (options : Options) : Options :=
  { options with nonStrict := true }

variable (options : Options)

namespace Typst

namespace OfTex

theorem extends_unknown (s : String) : Extends (unknown options s) (unknown options.lenient s) := by
  unfold unknown
  split
  . cases hstrict : options.nonStrict
    . exact extends_error _ _
    . exact .refl _
  . cases hstrict : options.nonStrict
    . exact extends_error _ _
    . exact .refl _

theorem extends_symbol (name : String)
    : Extends (symbol options name) (symbol options.lenient name) := by
  unfold symbol
  split
  . exact .refl _
  . exact extends_unknown options _

theorem extends_byName (name : String) (args : List Formula)
    : Extends (byName options name args) (byName options.lenient name args) := by
  unfold byName
  split
  . exact .refl _
  . cases hstrict : options.nonStrict
    . exact extends_error _ _
    . exact .refl _

theorem extends_alignArgument (spec columns : List Char)
    : Extends (alignArgument options spec columns) (alignArgument options.lenient spec columns) := by
  unfold alignArgument
  dsimp only
  split
  . exact .refl _
  . exact .refl _
  . exact .refl _
  . cases hstrict : options.nonStrict
    . exact extends_error _ _
    . exact .refl _

theorem extends_environment (name : String) (spec : Option String) (rows : List (List Formula))
    : Extends (environment options name spec rows) (environment options.lenient name spec rows) := by
  unfold environment
  split
  . exact .refl _
  split
  . exact .refl _
  split
  . unfold array
    dsimp only
    split
    . exact (extends_alignArgument options _ _).map _
    . exact extends_error _ _
  . exact .refl _

end OfTex

namespace Formula

open OfTex

mutual

theorem extends_ofTex (node : Tex.Formula)
    : Extends (ofTex options node) (ofTex options.lenient node) := by
  cases node with
  | symbol name => exact extends_symbol options name
  | unknown s => exact extends_unknown options s
  | group nodes => exact (extends_eachOfTex nodes).map _
  | attach base sub sup =>
    unfold ofTex
    split
    next body _ label => exact (extends_ofTex body).bind fun _ => (extends_ofTex label).map _
    next body _ label => exact (extends_ofTex body).bind fun _ => (extends_ofTex label).map _
    . exact (extends_ofTex base).bind fun _ => (extends_optionOfTex sub).bind fun _ =>
        (extends_optionOfTex sup).map _
  | func name args degree =>
    unfold ofTex
    split
    next num den _ => exact (extends_ofTex num).bind fun _ => (extends_ofTex den).map _
    next n k _ => exact (extends_ofTex n).bind fun _ => (extends_ofTex k).map _
    next radicand _ =>
      split
      next degree => exact (extends_ofTex degree).bind fun _ => (extends_ofTex radicand).map _
      . exact (extends_ofTex radicand).map _
    . exact .refl _
    . exact .refl _
    . exact .refl _
    . exact .refl _
    next body _ => exact (extends_ofTex body).map _
    . exact .ite (.refl _) (extends_byName options _ _)
    . exact .ite (.refl _) (extends_byName options _ _)
    next top base _ =>
      exact .ite (.refl _) ((extends_ofTex base).bind fun _ => (extends_ofTex top).map _)
    next bottom base _ => exact (extends_ofTex base).bind fun _ => (extends_ofTex bottom).map _
    . exact (extends_eachOfTex _).bind fun _ => extends_byName options _ _
  | leftRight left body right => exact (extends_ofTex body).bind fun _ => .refl _
  | env name spec rows =>
    exact (extends_rowsOfTex rows).bind fun _ => extends_environment options _ _ _
  | _ => exact .refl _
termination_by sizeOf node
decreasing_by
  all_goals
    subst_vars
    simp only [Tex.Formula.group.sizeOf_spec, Tex.Formula.attach.sizeOf_spec,
      Tex.Formula.func.sizeOf_spec, Tex.Formula.leftRight.sizeOf_spec,
      Tex.Formula.env.sizeOf_spec, List.cons.sizeOf_spec, Option.some.sizeOf_spec]
    omega

theorem extends_eachOfTex (nodes : List Tex.Formula)
    : Extends (eachOfTex options nodes) (eachOfTex options.lenient nodes) := by
  cases nodes with
  | nil => exact .refl _
  | cons node nodes => exact (extends_ofTex node).bind fun _ => (extends_eachOfTex nodes).map _
termination_by sizeOf nodes
decreasing_by all_goals (simp only [List.cons.sizeOf_spec]; omega)

theorem extends_rowsOfTex (rows : List (List Tex.Formula))
    : Extends (rowsOfTex options rows) (rowsOfTex options.lenient rows) := by
  cases rows with
  | nil => exact .refl _
  | cons row rows => exact (extends_eachOfTex row).bind fun _ => (extends_rowsOfTex rows).map _
termination_by sizeOf rows
decreasing_by all_goals (simp only [List.cons.sizeOf_spec]; omega)

theorem extends_optionOfTex (node : Option Tex.Formula)
    : Extends (optionOfTex options node) (optionOfTex options.lenient node) := by
  cases node with
  | none => exact .refl _
  | some node => exact (extends_ofTex node).map _
termination_by sizeOf node
decreasing_by all_goals (simp only [Option.some.sizeOf_spec]; omega)

end

end Formula
end Typst

namespace Tex

/--
The second computation has the result of the first, or the first fails with an error without a
place.
-/
structure Relaxes {α : Type} (x y : Except ConvertError α) : Prop where
  extended : Extends x y
  unplaced : Fails x (·.span = .detached)

section Relaxes

variable {α β : Type} {x y : Except ConvertError α} {f g : α → Except ConvertError β}

theorem relaxes_ok (a : α) : Relaxes (.ok a) (.ok a) :=
  ⟨.refl _, fails_ok a⟩

theorem relaxes_error {e : ConvertError} (h : e.span = .detached) : Relaxes (.error e) x :=
  ⟨extends_error e x, fails_error h⟩

theorem Relaxes.bind (h : Relaxes x y) (hnext : ∀ a, Relaxes (f a) (g a))
    : Relaxes (x >>= f) (y >>= g) :=
  ⟨h.extended.bind fun a => (hnext a).extended, h.unplaced.bind fun a => (hnext a).unplaced⟩

theorem Relaxes.map (h : Relaxes x y) (f : α → β)
    : Relaxes (x >>= fun a => pure (f a)) (y >>= fun a => pure (f a)) :=
  h.bind fun _ => relaxes_ok _

theorem Relaxes.ite {p : Prop} [Decidable p] {x' y' : Except ConvertError α} (h : Relaxes x y)
    (h' : Relaxes x' y') : Relaxes (if p then x else x') (if p then y else y') :=
  ⟨h.extended.ite h'.extended, h.unplaced.ite h'.unplaced⟩

theorem Relaxes.strict {e : ConvertError} (h : Relaxes x y) (he : e.span = .detached)
    : Relaxes (if options.nonStrict then x else .error e) y := by
  split
  . exact h
  . exact relaxes_error he

end Relaxes

namespace OfTypst

theorem relaxes_symbol (name : String)
    : Relaxes (symbol options name) (symbol options.lenient name) := by
  unfold symbol
  split
  . exact relaxes_ok _
  split
  . exact relaxes_ok _
  . exact .ite (relaxes_ok _) ((relaxes_ok _).strict options rfl)

theorem relaxes_byName (name : String) (args : List Formula)
    : Relaxes (byName options name args) (byName options.lenient name args) := by
  unfold byName
  split
  . split
    . exact .ite (relaxes_ok _) (relaxes_error rfl)
    . exact relaxes_ok _
  . exact .ite (relaxes_ok _) ((relaxes_ok _).strict options rfl)

theorem relaxes_delimiter? (delim : Option String)
    : Relaxes (delimiter? delim) (delimiter? delim) := by
  cases delim with
  | none => exact relaxes_ok _
  | some delim =>
    apply Relaxes.map
    unfold delimiter
    split
    case h_18 =>
      split
      . exact relaxes_ok _
      . exact relaxes_error rfl
    all_goals exact relaxes_ok _

theorem relaxes_columnLetter (align : Option Typst.Formula)
    : Relaxes (columnLetter align) (columnLetter align) := by
  unfold columnLetter
  split
  . exact relaxes_ok _
  . split
    case h_6 => exact relaxes_error rfl
    all_goals exact relaxes_ok _
  . exact relaxes_error rfl

theorem relaxes_columnLines (columns : Nat) (augment : Option Typst.Formula)
    : Relaxes (columnLines options columns augment)
        (columnLines options.lenient columns augment) := by
  unfold columnLines
  split
  . exact relaxes_ok _
  . split
    . exact relaxes_ok _
    . exact (relaxes_ok _).strict options rfl
  . exact relaxes_error rfl

theorem relaxes_matrixFrame (delim : Option Typst.Formula)
    : Relaxes (matrixFrame delim) (matrixFrame delim) := by
  unfold matrixFrame
  split
  . exact relaxes_ok _
  . exact relaxes_ok _
  . split
    . exact relaxes_ok _
    . exact relaxes_error rfl
  . exact relaxes_error rfl

theorem relaxes_matrix (named : List (String × Typst.Formula)) (rows : List (List Formula))
    : Relaxes (matrix options named rows) (matrix options.lenient named rows) := by
  apply (relaxes_matrixFrame _).bind
  intro frame
  cases foreignArgument? named
  case' some key =>
    cases options.nonStrict
    . exact relaxes_error rfl
  all_goals
    refine .ite (relaxes_ok _) (Relaxes.bind ?_ fun spec => ?_)
    . exact (relaxes_columnLetter _).bind fun _ => (relaxes_columnLines options _ _).map _
    . split
      . exact relaxes_ok _
      . exact relaxes_ok _

end OfTypst

namespace Formula

open OfTypst

mutual

theorem relaxes_ofTypst (node : Typst.Formula)
    : Relaxes (ofTypst options node) (ofTypst options.lenient node) := by
  cases node with
  | symbol name => exact relaxes_symbol options name
  | unknown s =>
    unfold ofTypst
    exact (relaxes_ok _).strict options rfl
  | group nodes => exact (relaxes_eachOfTypst nodes).map _
  | parens nodes => exact (relaxes_eachOfTypst nodes).map _
  | attach base sub sup =>
    unfold ofTypst
    apply (relaxes_optionOfTypst sub).bind
    intro sub
    apply (relaxes_optionOfTypst sup).bind
    intro sup
    split
    . split
      next body => exact (relaxes_ofTypst body).map _
      . exact relaxes_error rfl
    . exact relaxes_ok _
    . exact (relaxes_ofTypst base).map _
  | call name args named =>
    unfold ofTypst
    split
    . split
      . exact relaxes_ok _
      . exact ((relaxes_eachOfTypst args).bind (relaxes_byName options _)).strict options rfl
    . exact ((relaxes_eachOfTypst args).bind (relaxes_byName options _)).strict options rfl
    . split
      next num den _ => exact (relaxes_ofTypst num).bind fun _ => (relaxes_ofTypst den).map _
      next n k _ => exact (relaxes_ofTypst n).bind fun _ => (relaxes_ofTypst k).map _
      next radicand _ => exact (relaxes_ofTypst radicand).map _
      next degree radicand _ =>
        exact (relaxes_ofTypst radicand).bind fun _ => (relaxes_ofTypst degree).map _
      . exact relaxes_ok _
      . exact relaxes_ok _
      next body _ => exact (relaxes_ofTypst body).map _
      next body _ => exact (relaxes_ofTypst body).map _
      next body label _ => exact (relaxes_ofTypst body).bind fun _ => (relaxes_ofTypst label).map _
      next body label _ => exact (relaxes_ofTypst body).bind fun _ => (relaxes_ofTypst label).map _
      next body _ => exact relaxes_ofTypst body
      . exact .ite (relaxes_ok _) (relaxes_byName options _ _)
      . exact (relaxes_eachOfTypst _).bind fun _ => relaxes_byName options _ _
  | frac num den => exact (relaxes_ofTypst num).bind fun _ => (relaxes_ofTypst den).map _
  | leftRight left body right =>
    exact (relaxes_delimiter? left).bind fun _ => (relaxes_delimiter? right).bind fun _ =>
      (relaxes_ofTypst body).map _
  | matrix rows named =>
    exact (relaxes_rowsOfTypst rows).bind fun _ => relaxes_matrix options named _
  | cases rows named => exact (relaxes_rowsOfTypst rows).map _
  | align rows => exact (relaxes_rowsOfTypst rows).map _
  | _ => exact relaxes_ok _
termination_by sizeOf node
decreasing_by
  all_goals
    subst_vars
    simp only [Typst.Formula.group.sizeOf_spec, Typst.Formula.parens.sizeOf_spec,
      Typst.Formula.attach.sizeOf_spec, Typst.Formula.call.sizeOf_spec,
      Typst.Formula.frac.sizeOf_spec, Typst.Formula.leftRight.sizeOf_spec,
      Typst.Formula.matrix.sizeOf_spec, Typst.Formula.cases.sizeOf_spec,
      Typst.Formula.align.sizeOf_spec, List.cons.sizeOf_spec]
    omega

theorem relaxes_eachOfTypst (nodes : List Typst.Formula)
    : Relaxes (eachOfTypst options nodes) (eachOfTypst options.lenient nodes) := by
  cases nodes with
  | nil => exact relaxes_ok _
  | cons node nodes => exact (relaxes_ofTypst node).bind fun _ => (relaxes_eachOfTypst nodes).map _
termination_by sizeOf nodes
decreasing_by all_goals (simp only [List.cons.sizeOf_spec]; omega)

theorem relaxes_rowsOfTypst (rows : List (List Typst.Formula))
    : Relaxes (rowsOfTypst options rows) (rowsOfTypst options.lenient rows) := by
  cases rows with
  | nil => exact relaxes_ok _
  | cons row rows => exact (relaxes_eachOfTypst row).bind fun _ => (relaxes_rowsOfTypst rows).map _
termination_by sizeOf rows
decreasing_by all_goals (simp only [List.cons.sizeOf_spec]; omega)

theorem relaxes_optionOfTypst (node : Option Typst.Formula)
    : Relaxes (optionOfTypst options node) (optionOfTypst options.lenient node) := by
  cases node with
  | none => exact relaxes_ok _
  | some node => exact (relaxes_ofTypst node).map _
termination_by sizeOf node
decreasing_by all_goals (simp only [Option.some.sizeOf_spec]; omega)

end

end Formula
end Tex

theorem extends_texToTypst (text : String)
    : Extends (texToTypst options text) (texToTypst options.lenient text) := by
  apply (Extends.refl _).bind
  intro formula
  exact ((Typst.Formula.extends_ofTex options formula).mapError _ _).map _

theorem extends_typstToTex (text : String)
    : Extends (typstToTex options text) (typstToTex options.lenient text) := by
  apply (Extends.refl _).bind
  intro formula
  exact ((Tex.Formula.relaxes_ofTypst options formula).extended.mapError _ _).map _

/--
Non-strict mode only turns failures into results: what is converted in strict mode is converted to
the same in non-strict mode. This holds of texts in either language and of all formulas.
-/
theorem ok_of_strict
    : (∀ text result, texToTypst options text = .ok result →
        texToTypst { options with nonStrict := true } text = .ok result) ∧
      (∀ text result, typstToTex options text = .ok result →
        typstToTex { options with nonStrict := true } text = .ok result) ∧
      (∀ node result, Typst.Formula.ofTex options node = .ok result →
        Typst.Formula.ofTex { options with nonStrict := true } node = .ok result) ∧
      (∀ node result, Tex.Formula.ofTypst options node = .ok result →
        Tex.Formula.ofTypst { options with nonStrict := true } node = .ok result) :=
  ⟨extends_texToTypst options, extends_typstToTex options, Typst.Formula.extends_ofTex options,
    fun node => (Tex.Formula.relaxes_ofTypst options node).extended⟩

theorem ok_of_strict_half
    : texToTypst {} "\\frac12" = .ok "1/2" ∧
      texToTypst { nonStrict := true } "\\frac12" = .ok "1/2" ∧
      typstToTex { nonStrict := true } "1/2" = .ok "\\frac\x7b1\x7d\x7b2\x7d" := by
  have hforth : texToTypst {} "\\frac12" = .ok "1/2" :=
    eq_ok_of_toOption (by decide +kernel)
  have hback : typstToTex {} "1/2" = .ok "\\frac\x7b1\x7d\x7b2\x7d" :=
    eq_ok_of_toOption (by decide +kernel)
  have h := ok_of_strict {}
  exact ⟨hforth, h.1 _ _ hforth, h.2.1 _ _ hback⟩

end MathMarkup
