import MathMarkup.Proofs.Convert.ErrorPlaces
import MathMarkup.Proofs.Typst.Ink

/-!
This module contains what follows from the choice to keep the spaces of TeX formulas. The choice
does not change which formulas are converted. Apart from blanks it does not change what is written
either, as long as no base, script or operand has spaces in places where the writer takes them for a
part of it and adds parentheses.
-/

namespace MathMarkup

namespace Typst

open OfTex Formula

variable {options : Options} {node : Tex.Formula} {nodes args : List Tex.Formula}

/--
A formula is converted with its spaces if and only if it is converted without them, and the results
differ by nothing but the spaces.
-/
def ShedsSpaces (options : Options) (node : Tex.Formula) : Prop :=
  Abreast Sheds (ofTex { options with keepSpaces := true } node)
    (ofTex { options with keepSpaces := false } node)

theorem each_shedsSpaces (h : ∀ node ∈ nodes, ShedsSpaces options node)
    : Abreast (List.Forall₂ Sheds) (eachOfTex { options with keepSpaces := true } nodes)
      (eachOfTex { options with keepSpaces := false } nodes) := by
  induction nodes with
  | nil => exact .nil
  | cons node nodes ih =>
    rw [List.forall_mem_cons] at h
    rw [eachOfTex, eachOfTex]
    exact h.1.bind fun _ _ hnode => (ih h.2).map fun _ _ hnodes => .cons hnode hnodes

theorem rows_shedsSpaces {rows : List (List Tex.Formula)}
    (h : ∀ row ∈ rows, ∀ cell ∈ row, ShedsSpaces options cell)
    : Abreast (List.Forall₂ (List.Forall₂ Sheds))
      (rowsOfTex { options with keepSpaces := true } rows)
      (rowsOfTex { options with keepSpaces := false } rows) := by
  induction rows with
  | nil => exact .nil
  | cons row rows ih =>
    rw [List.forall_mem_cons] at h
    rw [rowsOfTex, rowsOfTex]
    exact (each_shedsSpaces h.1).bind fun _ _ hrow => (ih h.2).map fun _ _ hrows => .cons hrow hrows

theorem option_shedsSpaces {script : Option Tex.Formula}
    (h : ∀ node ∈ script, ShedsSpaces options node)
    : Abreast (Option.Rel Sheds) (optionOfTex { options with keepSpaces := true } script)
      (optionOfTex { options with keepSpaces := false } script) := by
  cases script with
  | none => exact .none
  | some node =>
    rw [optionOfTex, optionOfTex]
    exact (h node rfl).map fun _ _ => .some

theorem shedsSpaces_element (s : String) : ShedsSpaces options (.element s) := by
  refine abreast_self (yields_ok ?_)
  unfold element
  split
  all_goals exact sheds_self rfl rfl rfl

theorem shedsSpaces_unknown (s : String) : ShedsSpaces options (.unknown s) := by
  refine abreast_self (x := OfTex.unknown options s) ?_
  unfold OfTex.unknown
  split
  all_goals
    split
    . exact yields_ok (sheds_self rfl rfl rfl)
    . exact yields_error _

theorem shedsSpaces_control (s : String) : ShedsSpaces options (.control s) := by
  refine abreast_self (x := OfTex.control s) ?_
  unfold OfTex.control
  split
  case h_10 => exact yields_error _
  all_goals exact yields_ok (sheds_self rfl rfl rfl)

theorem shedsSpaces_symbol {name : String} (hname : (Symbol.toTypst? name).isSome)
    : ShedsSpaces options (.symbol name) := by
  obtain ⟨mapped, hmapped⟩ := Option.isSome_iff_exists.1 hname
  rw [ShedsSpaces, ofTex, ofTex, OfTex.symbol, OfTex.symbol, hmapped]
  exact sheds_self rfl rfl rfl

theorem shedsSpaces_raw {name : String} (hname : name ∈ Tex.textualCommands) (s : String)
    : ShedsSpaces options (.func name [.text s] none) := by
  simp only [Tex.textualCommands, List.mem_cons, List.not_mem_nil, or_false] at hname
  rcases hname with rfl | rfl | rfl | rfl
  . refine abreast_self (x := .ok (OfTex.text options s)) (yields_ok ?_)
    unfold OfTex.text
    split
    all_goals exact sheds_self rfl rfl rfl
  . refine abreast_self (x := .ok (OfTex.operator s)) (yields_ok ?_)
    unfold OfTex.operator
    split
    all_goals exact sheds_self rfl rfl rfl
  . exact sheds_self rfl rfl rfl
  . exact sheds_self rfl rfl rfl

theorem shedsSpaces_group (h : ∀ node ∈ nodes, ShedsSpaces options node)
    : ShedsSpaces options (.group nodes) := by
  rw [ShedsSpaces, ofTex, ofTex]
  exact (each_shedsSpaces h).map fun _ _ => sheds_ofList

section Arguments

variable {first second : Tex.Formula}

theorem abreast_one (h : ShedsSpaces options node) {build build' : Formula → Formula}
    (hbuild : ∀ kept bare, Sheds kept bare → Sheds (build kept) (build' bare))
    : Abreast Sheds
      (do
        let image ← ofTex { options with keepSpaces := true } node
        return build image)
      (do
        let image ← ofTex { options with keepSpaces := false } node
        return build' image) :=
  Abreast.map h hbuild

theorem abreast_two (hfirst : ShedsSpaces options first) (hsecond : ShedsSpaces options second)
    {build build' : Formula → Formula → Formula}
    (hbuild : ∀ kept bare other other', Sheds kept bare → Sheds other other' →
      Sheds (build kept other) (build' bare other'))
    : Abreast Sheds
      (do
        let image ← ofTex { options with keepSpaces := true } first
        let other ← ofTex { options with keepSpaces := true } second
        return build image other)
      (do
        let image ← ofTex { options with keepSpaces := false } first
        let other ← ofTex { options with keepSpaces := false } second
        return build' image other) :=
  Abreast.bind hfirst fun _ _ hkept => Abreast.map hsecond fun _ _ => hbuild _ _ _ _ hkept

theorem sheds_call_one (name : String) {kept bare : Formula} (h : Sheds kept bare)
    : Sheds (.plainCall name [kept]) (.plainCall name [bare]) :=
  sheds_call name [] (.cons h .nil)

theorem sheds_call_two (name : String) {kept bare other other' : Formula} (h : Sheds kept bare)
    (hother : Sheds other other')
    : Sheds (.plainCall name [kept, other]) (.plainCall name [bare, other']) :=
  sheds_call name [] (.cons h (.cons hother .nil))

theorem abreast_byName {name : String} (hname : (Symbol.toTypst? name).any (· != "#h"))
    (hargs : ∀ arg ∈ args, ShedsSpaces options arg)
    : Abreast Sheds
      (eachOfTex { options with keepSpaces := true } args >>=
        byName { options with keepSpaces := true } name)
      (eachOfTex { options with keepSpaces := false } args >>=
        byName { options with keepSpaces := false } name) := by
  refine (each_shedsSpaces hargs).bind fun kept bare h => ?_
  unfold byName
  cases hmapped : Symbol.toTypst? name with
  | none => simp [hmapped] at hname
  | some mapped => exact sheds_call mapped [] h

end Arguments

theorem shedsSpaces_func (hoptimize : options.optimize = false) {name : String}
    {arity : Symbol.Arity} (hname : name ∉ Tex.textualCommands)
    (harity : Symbol.arity? name = some arity) (hlength : args.length = arity.toNat)
    (hargs : ∀ arg ∈ args, ShedsSpaces options arg)
    : ShedsSpaces options (.func name args none) := by
  have hsuits := suits_of_mem_arities _ (Symbol.mem_of_lookup harity) hname
  have htwo := exists_two hlength hargs
  have hone := exists_one hlength hargs
  unfold ShedsSpaces ofTex
  generalize Head.ofName name = head at hsuits
  cases head with
  | fraction =>
    obtain ⟨num, den, rfl, hnum, hden⟩ := htwo hsuits
    refine abreast_two hnum hden fun _ _ _ _ hnum hden => ?_
    dsimp only
    split
    . exact sheds_frac hnum hden
    . exact sheds_call_two "frac" hnum hden
  | binomial =>
    obtain ⟨n, k, rfl, hn, hk⟩ := htwo hsuits
    exact abreast_two hn hk fun _ _ _ _ => sheds_call_two "binom"
  | root =>
    obtain ⟨radicand, rfl, hradicand⟩ := hone hsuits
    exact abreast_one hradicand fun _ _ => sheds_call_one "sqrt"
  | bold =>
    obtain ⟨body, rfl, hbody⟩ := hone hsuits
    exact abreast_one hbody fun _ _ h => sheds_call_one "upright" (sheds_call_one "bold" h)
  | above =>
    obtain ⟨top, base, rfl, htop, hbase⟩ := htwo hsuits
    dsimp only
    rw [if_neg (by simp [hoptimize]), if_neg (by simp [hoptimize])]
    exact abreast_two hbase htop fun _ _ _ _ hbase htop =>
      sheds_attach (sheds_call_one "limits" hbase) .none (.some htop)
  | below =>
    obtain ⟨bottom, base, rfl, hbottom, hbase⟩ := htwo hsuits
    exact abreast_two hbase hbottom fun _ _ _ _ hbase hbottom =>
      sheds_attach (sheds_call_one "limits" hbase) (.some hbottom) .none
  | blackboard | roman =>
    dsimp only
    split
    all_goals first | contradiction | skip
    . rw [hoptimize]
      exact abreast_byName hsuits hargs
    . exact abreast_byName hsuits hargs
  | other => exact abreast_byName hsuits hargs
  | text | operator | limitsOperator | hspace => contradiction

theorem scaled?_sheds (left right : Option String) {body body' : Formula} (h : Sheds body body')
    : Option.Rel Sheds (scaled? left right body) (scaled? left right body') := by
  unfold scaled?
  split
  . exact .some h
  . exact .some (sheds_parens h)
  . exact .some (sheds_bracketed rfl rfl h)
  . split
    . exact .some (sheds_bracketed rfl rfl h)
    . exact .none
  . exact .none

theorem shedsSpaces_leftRight (hoptimize : options.optimize = false) {left right : Option String}
    {body : Tex.Formula} (h : ShedsSpaces options body)
    : ShedsSpaces options (.leftRight left body right) := by
  rw [ShedsSpaces, ofTex, ofTex]
  refine Abreast.bind h fun kept bare hbody => ?_
  have hscaled := scaled?_sheds left right hbody
  unfold enclose
  cases hkept : scaled? left right kept with
  | some node =>
    cases hbare : scaled? left right bare with
    | some image =>
      rw [hkept, hbare] at hscaled
      cases hscaled with
      | some hsheds => exact hsheds
    | none =>
      rw [hkept, hbare] at hscaled
      contradiction
  | none =>
    cases hbare : scaled? left right bare with
    | some image =>
      rw [hkept, hbare] at hscaled
      contradiction
    | none =>
      simp only [hoptimize]
      refine (@abreast_self _ _ Eq _ fun _ _ => rfl).bind fun opening _ hopening => ?_
      cases hopening
      refine (@abreast_self _ _ Eq _ fun _ _ => rfl).bind fun closing _ hclosing => ?_
      cases hclosing
      exact sheds_leftRight opening closing hbody

theorem abreast_environment (name : String) (spec : Option String)
    {rows rows' : List (List Formula)} (h : List.Forall₂ (List.Forall₂ Sheds) rows rows')
    : Abreast Sheds (environment { options with keepSpaces := true } name spec rows)
      (environment { options with keepSpaces := false } name spec rows') := by
  unfold environment
  split
  . exact sheds_align h
  split
  . exact sheds_cases [] h
  split
  . unfold array
    dsimp only
    split
    . refine (@abreast_self _ _ Eq _ fun _ _ => rfl).map fun named _ hnamed => ?_
      cases hnamed
      exact sheds_matrix _ h
    . exact rfl
  . split
    . exact sheds_matrix _ h
    . exact rfl

theorem shedsSpaces_env {name : String} {spec : Option String} {rows : List (List Tex.Formula)}
    (h : ∀ row ∈ rows, ∀ cell ∈ row, ShedsSpaces options cell)
    : ShedsSpaces options (.env name spec rows) := by
  rw [ShedsSpaces, ofTex, ofTex]
  exact (rows_shedsSpaces h).bind fun _ _ => abreast_environment name spec

/--
The formula and its arguments, if it is a command, shed their spaces. A brace with a label has the
body of the brace and the label as arguments, so both levels matter.
-/
def ShedsArguments (options : Options) : Tex.Formula → Prop
  | .func name args degree =>
    ShedsSpaces options (.func name args degree) ∧ ∀ arg ∈ args, ShedsSpaces options arg
  | node => ShedsSpaces options node

theorem ShedsArguments.shedsSpaces (h : ShedsArguments options node)
    : ShedsSpaces options node := by
  cases node with
  | func => exact h.1
  | _ => exact h

theorem shedsSpaces_attach {base : Tex.Formula} {sub sup : Option Tex.Formula}
    (hbase : ShedsArguments options base) (hsub : ∀ node ∈ sub, ShedsSpaces options node)
    (hsup : ∀ node ∈ sup, ShedsSpaces options node)
    : ShedsSpaces options (.attach base sub sup) := by
  unfold ShedsSpaces ofTex
  split
  . next label =>
    exact abreast_two (hbase.2 _ (List.mem_singleton_self _)) (hsup label rfl)
      fun _ _ _ _ => sheds_call_two "overbrace"
  . next label =>
    exact abreast_two (hbase.2 _ (List.mem_singleton_self _)) (hsub label rfl)
      fun _ _ _ _ => sheds_call_two "underbrace"
  . refine hbase.shedsSpaces.bind fun _ _ hbase => ?_
    refine (option_shedsSpaces hsub).bind fun _ _ hsub => ?_
    exact (option_shedsSpaces hsup).map fun _ _ hsup => sheds_attach hbase hsub hsup

theorem isBlank_of_spelled {token : Tex.Token} (h : Tex.Spelled token.lexeme)
    (hspace : token.isSpace) : ∀ c ∈ token.text.toList, Text.isBlank c := by
  obtain ⟨kind, text, span⟩ := token
  cases kind with
  | space | newline => exact h
  | _ => contradiction

theorem shedsArguments_of_parsed (hoptimize : options.optimize = false) {inEnv : Bool}
    (h : Tex.Parsed (fun token => Tex.Spelled token.lexeme) inEnv node)
    : ShedsArguments options node := by
  induction h with
  | element => exact shedsSpaces_element _
  | text | comment => exact sheds_self rfl rfl rfl
  | empty => exact sheds_empty
  | space hspelled hspace => exact sheds_space (isBlank_of_spelled hspelled hspace)
  | character | command => exact shedsSpaces_unknown _
  | control | separator => exact shedsSpaces_control _
  | symbol _ hname => exact shedsSpaces_symbol hname
  | raw hname s =>
    exact ⟨shedsSpaces_raw hname s, List.forall_mem_singleton.2 (sheds_self rfl rfl rfl)⟩
  | func hname harity hlength _ ih =>
    have hargs arg (harg : arg ∈ _) := (ih arg harg).shedsSpaces
    exact ⟨shedsSpaces_func hoptimize hname harity hlength hargs, hargs⟩
  | root _ _ iharg ihdegree =>
    refine ⟨?_, List.forall_mem_singleton.2 iharg.shedsSpaces⟩
    exact abreast_two ihdegree.shedsSpaces iharg.shedsSpaces fun _ _ _ _ => sheds_call_two "root"
  | group _ _ ih => exact shedsSpaces_group fun node hnode => (ih node hnode).shedsSpaces
  | attach _ _ _ heq _ ihbase ihsub ihsup =>
    refine shedsSpaces_attach ihbase (fun node hnode => (ihsub node hnode).shedsSpaces) ?_
    rw [← heq]
    exact Scripts.forall_mem_superscript (shedsSpaces_element _) (fun _ => shedsSpaces_group)
      fun node hnode => (ihsup node hnode).shedsSpaces
  | leftRight _ _ _ ih => exact shedsSpaces_leftRight hoptimize ih.shedsSpaces
  | env _ _ _ _ ih =>
    exact shedsSpaces_env fun row hrow cell hcell => (ih row hrow cell hcell).shedsSpaces

end Typst

/--
The images of a formula that was read, with its spaces and without them, are abreast of each other.
-/
theorem abreast_ofTex {options : Options} (hoptimize : options.optimize = false) {text : String}
    {node : Tex.Formula} (hparse : Tex.parse (options.tokenize text) = .ok node)
    : Typst.ShedsSpaces options node :=
  (Typst.shedsArguments_of_parsed hoptimize
    (Tex.yields_parse (fun _ => spelled_of_mem) node hparse)).shedsSpaces

section Conversion

variable {options : Options} {text : String} {node : Tex.Formula}

theorem texToTypst_of_parse (h : Tex.parse (options.tokenize text) = .ok node) (keepSpaces : Bool)
    : texToTypst { options with keepSpaces } text =
      ((Typst.Formula.ofTex { options with keepSpaces } node).mapError (.convert <| ·.locate text)
        >>= fun image => pure (Typst.write options.style image)) := by
  change (Tex.parse (options.tokenize text)).mapError Failure.parse >>= _ = _
  rw [h]
  rfl

theorem texToTypst_of_parse_error {e : ParseError}
    (h : Tex.parse (options.tokenize text) = .error e) (keepSpaces : Bool)
    : texToTypst { options with keepSpaces } text = .error (.parse e) := by
  change (Tex.parse (options.tokenize text)).mapError Failure.parse >>= _ = _
  rw [h]
  rfl

theorem abreast_texToTypst (hoptimize : options.optimize = false) (text : String)
    : Abreast (fun _ _ => True) (texToTypst { options with keepSpaces := true } text)
      (texToTypst { options with keepSpaces := false } text) := by
  cases hparse : Tex.parse (options.tokenize text) with
  | error e =>
    rw [texToTypst_of_parse_error hparse, texToTypst_of_parse_error hparse]
    exact rfl
  | ok node =>
    rw [texToTypst_of_parse hparse, texToTypst_of_parse hparse]
    exact ((abreast_ofTex hoptimize hparse).mapError _).map fun _ _ _ => trivial

end Conversion

/--
With its spaces a formula is converted if and only if it is converted without them. Where the
bases, the scripts and the operands of the image look the same without spaces, the results are the
same apart from blanks.
-/
theorem removeBlanks_keepSpaces (options : Options) (hoptimize : options.optimize = false)
    (text : String)
    : (∀ failure, texToTypst { options with keepSpaces := true } text = .error failure ↔
        texToTypst { options with keepSpaces := false } text = .error failure) ∧
      ∀ node image, Tex.parse (options.tokenize text) = .ok node →
        Typst.Formula.ofTex { options with keepSpaces := true } node = .ok image →
        image.isCompact →
        ∃ kept bare, texToTypst { options with keepSpaces := true } text = .ok kept ∧
          texToTypst { options with keepSpaces := false } text = .ok bare ∧
          Text.removeBlanks kept = Text.removeBlanks bare := by
  refine ⟨(abreast_texToTypst hoptimize text).error_iff, ?_⟩
  intro node image hparse hkept hcompact
  have hsheds := abreast_ofTex hoptimize hparse
  rw [Typst.ShedsSpaces, hkept] at hsheds
  cases hbare : Typst.Formula.ofTex { options with keepSpaces := false } node with
  | error e =>
    rw [hbare] at hsheds
    contradiction
  | ok bare =>
    rw [hbare] at hsheds
    rw [texToTypst_of_parse hparse, texToTypst_of_parse hparse, hkept, hbare]
    refine ⟨_, _, rfl, rfl, ?_⟩
    rw [Typst.removeBlanks_write hoptimize, Typst.removeBlanks_write hoptimize]
    exact congrArg String.ofList (hsheds.ink_eq hcompact _ _).symm

/-- A root and a slash with spaces where they do not matter. -/
theorem removeBlanks_keepSpaces_root
    : ∃ kept bare,
      texToTypst { optimize := false, keepSpaces := true }
        "\\sqrt\x7b a \x7d \\frac\x7bb + c\x7d\x7bd\x7d" = .ok kept ∧
      texToTypst { optimize := false, keepSpaces := false }
        "\\sqrt\x7b a \x7d \\frac\x7bb + c\x7d\x7bd\x7d" = .ok bare ∧
      Text.removeBlanks kept = Text.removeBlanks bare := by
  have hrun : (Tex.parse (Options.tokenize { optimize := false }
      "\\sqrt\x7b a \x7d \\frac\x7bb + c\x7d\x7bd\x7d")).toOption.bind (fun node =>
        (Typst.Formula.ofTex { optimize := false, keepSpaces := true } node).toOption.map
          Typst.Formula.isCompact) = some true := by
    decide +kernel
  obtain ⟨node, hnode, himage⟩ := Option.bind_eq_some_iff.1 hrun
  obtain ⟨image, himage, hcompact⟩ := Option.map_eq_some_iff.1 himage
  exact (removeBlanks_keepSpaces { optimize := false } rfl _).2 node image
    (eq_ok_of_toOption hnode) (eq_ok_of_toOption himage) hcompact

/--
A kept space is taken for a part of an operand, which then needs parentheses.
-/
theorem keepSpaces_adds_parens
    : texToTypst { optimize := false, keepSpaces := true } "\\frac\x7b a\x7d\x7bb\x7d" =
        .ok "( a)/b" ∧
      texToTypst { optimize := false, keepSpaces := false } "\\frac\x7b a\x7d\x7bb\x7d" =
        .ok "a/b" ∧
      Text.removeBlanks "( a)/b" ≠ Text.removeBlanks "a/b" :=
  ⟨eq_ok_of_toOption (by decide +kernel), eq_ok_of_toOption (by decide +kernel), by decide +kernel⟩

end MathMarkup
