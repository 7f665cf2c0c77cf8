import MathMarkup.Proofs.Convert.KeptSpaces
import MathMarkup.Proofs.Convert.Shorthands

/-!
This module contains what follows from the choice between a slash and a call for fractions. The
choice does not change which formulas are converted, and the images differ in nothing else. Where
the image is a regular formula, both are converted back to the same. This is not so of every
formula: a fraction that carries scripts is written in parentheses if it has a slash, and these are
read as parentheses of the formula.
-/

namespace MathMarkup
namespace Typst

open OfTex

namespace Formula

mutual

def withCalls : Formula → Formula
  | .group nodes => .group (eachWithCalls nodes)
  | .parens nodes => .parens (eachWithCalls nodes)
  | .attach base sub sup => .attach base.withCalls (optionWithCalls sub) (optionWithCalls sup)
  | .call name args named => .call name (eachWithCalls args) named
  | .frac num den => .plainCall "frac" [num.withCalls, den.withCalls]
  | .leftRight left body right => .leftRight left body.withCalls right
  | .matrix rows named => .matrix (rowsWithCalls rows) named
  | .cases rows named => .cases (rowsWithCalls rows) named
  | .align rows => .align (rowsWithCalls rows)
  | node => node

def eachWithCalls : List Formula → List Formula
  | [] => []
  | node :: nodes => node.withCalls :: eachWithCalls nodes

def rowsWithCalls : List (List Formula) → List (List Formula)
  | [] => []
  | row :: rows => eachWithCalls row :: rowsWithCalls rows

def optionWithCalls : Option Formula → Option Formula
  | none => none
  | some node => some node.withCalls

end

theorem eachWithCalls_eq (nodes : List Formula) : eachWithCalls nodes = nodes.map withCalls := by
  induction nodes with
  | nil => rfl
  | cons node nodes ih => rw [eachWithCalls, List.map_cons, ih]

theorem rowsWithCalls_eq (rows : List (List Formula))
    : rowsWithCalls rows = rows.map (List.map withCalls) := by
  induction rows with
  | nil => rfl
  | cons row rows ih => rw [rowsWithCalls, List.map_cons, ih, eachWithCalls_eq]

theorem withCalls_ofList (nodes : List Formula)
    : (ofList nodes).withCalls = ofList (eachWithCalls nodes) := by
  match nodes with
  | [] | [_] | _ :: _ :: _ => rfl

theorem filter_eachWithCalls (nodes : List Formula)
    : (eachWithCalls nodes).filter (fun node => !node.isEmpty) =
      eachWithCalls (nodes.filter fun node => !node.isEmpty) := by
  have hempty (node : Formula) : node.withCalls.isEmpty = node.isEmpty := by
    cases node
    all_goals rfl
  simp only [eachWithCalls_eq, List.filter_map, Function.comp_def, hempty]

theorem nodesOf_withCalls (body : Formula)
    : nodesOf body.withCalls = eachWithCalls (nodesOf body) := by
  cases body
  all_goals rfl

theorem bracketed_withCalls (opening closing : String) (body : Formula)
    : bracketed opening body.withCalls closing = (bracketed opening body closing).withCalls := by
  simp [bracketed, withCalls, nodesOf_withCalls, eachWithCalls_eq]

theorem scaled?_withCalls (left right : Option String) (body : Formula)
    : scaled? left right body.withCalls = (scaled? left right body).map withCalls := by
  unfold scaled?
  split
  . rfl
  . rw [nodesOf_withCalls]
    rfl
  . rw [bracketed_withCalls]
    rfl
  . split
    . rw [bracketed_withCalls]
      rfl
    . rfl
  . rfl

end Formula

open Formula

/--
Both computations fail with the same error, or the second has the result of the first with calls in
place of slashes.
-/
abbrev Recasts (x y : Except ConvertError Formula) : Prop :=
  Abreast (fun image other => other = image.withCalls) x y

section Recasts

variable {x y x' y' : Except ConvertError Formula}

theorem Recasts.one (h : Recasts x y) {build build' : Formula → Formula}
    (hbuild : ∀ image, build' image.withCalls = (build image).withCalls)
    : Recasts (do let image ← x; return build image) (do let image ← y; return build' image) := by
  refine Abreast.map h fun image _ hother => ?_
  rw [hother]
  exact hbuild image

theorem Recasts.two (h : Recasts x y) (h' : Recasts x' y') {build build' : Formula → Formula → Formula}
    (hbuild : ∀ image other,
      build' image.withCalls other.withCalls = (build image other).withCalls)
    : Recasts (do let image ← x; let other ← x'; return build image other)
      (do let image ← y; let other ← y'; return build' image other) := by
  refine Abreast.bind h fun image _ himage => Abreast.map h' fun other _ hother => ?_
  rw [himage, hother]
  exact hbuild image other

end Recasts

variable (options : Options)

theorem recasts_unknown (s : String)
    : Recasts (OfTex.unknown options s) (OfTex.unknown options s) := by
  unfold OfTex.unknown
  split
  all_goals
    split
    . exact rfl
    . exact rfl

theorem recasts_symbol (name : String)
    : Recasts (OfTex.symbol options name) (OfTex.symbol options name) := by
  unfold OfTex.symbol
  split
  . exact rfl
  . exact recasts_unknown options _

theorem recasts_control (s : String) : Recasts (OfTex.control s) (OfTex.control s) := by
  unfold OfTex.control
  split
  all_goals exact rfl

theorem recasts_element (s : String) : Recasts (.ok (element s)) (.ok (element s)) := by
  unfold element
  split
  all_goals exact rfl

theorem recasts_text (s : String)
    : Recasts (.ok (OfTex.text options s)) (.ok (OfTex.text options s)) := by
  unfold OfTex.text
  split
  all_goals exact rfl

theorem recasts_operator (s : String) : Recasts (.ok (OfTex.operator s)) (.ok (OfTex.operator s)) := by
  unfold OfTex.operator
  split
  all_goals exact rfl

theorem recasts_byName (name : String) (args : List Formula)
    : Recasts (byName options name args) (byName options name (eachWithCalls args)) := by
  unfold byName
  split
  . exact rfl
  . split
    . exact rfl
    . exact rfl

/--
A command that is read at once if its argument is a certain letter.
-/
theorem recasts_letter (name letter symbol : String) (c : Prop) [Decidable c]
    : Recasts (if c then .ok (.symbol symbol) else byName options name [element letter])
      (if c then .ok (.symbol symbol) else byName options name [element letter]) := by
  have helement : [element letter] = eachWithCalls [element letter] :=
    congrArg (· :: []) (recasts_element letter)
  split
  . exact rfl
  . have hname := recasts_byName options name [element letter]
    rwa [← helement] at hname

theorem recasts_enclose (left right : Option String) (body : Formula)
    : Recasts (enclose options left right body) (enclose options left right body.withCalls) := by
  unfold enclose
  rw [scaled?_withCalls]
  cases scaled? left right body with
  | some node => exact rfl
  | none =>
    dsimp only [Option.map_none]
    split
    . exact rfl
    . refine (@abreast_self _ _ Eq _ fun _ _ => rfl).bind fun opening _ hopening => ?_
      cases hopening
      refine (@abreast_self _ _ Eq _ fun _ _ => rfl).map fun closing _ hclosing => ?_
      cases hclosing
      rfl

theorem recasts_environment (name : String) (spec : Option String) (rows : List (List Formula))
    : Recasts (environment options name spec rows)
      (environment options name spec (rowsWithCalls rows)) := by
  unfold environment
  split
  . exact rfl
  split
  . exact rfl
  split
  . unfold array
    dsimp only
    split
    . refine (@abreast_self _ _ Eq _ fun _ _ => rfl).map fun named _ hnamed => ?_
      cases hnamed
      rfl
    . exact rfl
  . split
    . exact rfl
    . exact rfl

mutual

theorem recasts_ofTex (node : Tex.Formula)
    : Recasts (ofTex { options with fracToSlash := true } node)
      (ofTex { options with fracToSlash := false } node) := by
  cases node with
  | element s => exact recasts_element s
  | symbol name => exact recasts_symbol options name
  | unknown s => exact recasts_unknown options s
  | control s => exact recasts_control s
  | space s =>
    unfold ofTex
    dsimp only
    split
    all_goals exact rfl
  | text | comment | empty => exact rfl
  | group nodes =>
    refine (recasts_eachOfTex nodes).map fun _ _ h => ?_
    rw [h, filter_eachWithCalls, withCalls_ofList]
  | attach base sub sup =>
    unfold ofTex
    split
    next body _ label => exact .two (recasts_ofTex body) (recasts_ofTex label) fun _ _ => rfl
    next body _ label => exact .two (recasts_ofTex body) (recasts_ofTex label) fun _ _ => rfl
    . refine (recasts_ofTex base).bind fun _ _ h => (recasts_optionOfTex sub).bind fun _ _ h' =>
        (recasts_optionOfTex sup).map fun _ _ h'' => ?_
      rw [h, h', h'']
      rfl
  | func name args degree =>
    unfold ofTex
    split
    next num den _ => exact .two (recasts_ofTex num) (recasts_ofTex den) fun _ _ => rfl
    next n k _ => exact .two (recasts_ofTex n) (recasts_ofTex k) fun _ _ => rfl
    next radicand _ =>
      split
      next degree => exact .two (recasts_ofTex degree) (recasts_ofTex radicand) fun _ _ => rfl
      . exact .one (recasts_ofTex radicand) fun _ => rfl
    . exact recasts_text options _
    . exact recasts_operator _
    . exact rfl
    . exact rfl
    next body _ => exact .one (recasts_ofTex body) fun _ => rfl
    next letter _ => exact recasts_letter options name letter _ _
    next letter _ => exact recasts_letter options name letter _ _
    next top base _ =>
      dsimp only
      split
      . exact rfl
      . exact .two (recasts_ofTex base) (recasts_ofTex top) fun _ _ => rfl
    next bottom base _ => exact .two (recasts_ofTex base) (recasts_ofTex bottom) fun _ _ => rfl
    . refine (recasts_eachOfTex _).bind fun _ _ h => ?_
      rw [h]
      exact recasts_byName options name _
  | leftRight left body right =>
    refine (recasts_ofTex body).bind fun _ _ h => ?_
    rw [h]
    exact recasts_enclose options left right _
  | env name spec rows =>
    refine (recasts_rowsOfTex rows).bind fun _ _ h => ?_
    rw [h]
    exact recasts_environment options name spec _
termination_by sizeOf node
decreasing_by
  all_goals
    subst_vars
    simp only [Tex.Formula.group.sizeOf_spec, Tex.Formula.attach.sizeOf_spec,
      Tex.Formula.func.sizeOf_spec, Tex.Formula.leftRight.sizeOf_spec,
      Tex.Formula.env.sizeOf_spec, List.cons.sizeOf_spec, Option.some.sizeOf_spec]
    omega

theorem recasts_eachOfTex (nodes : List Tex.Formula)
    : Abreast (fun images others => others = eachWithCalls images)
      (eachOfTex { options with fracToSlash := true } nodes)
      (eachOfTex { options with fracToSlash := false } nodes) := by
  cases nodes with
  | nil => exact rfl
  | cons node nodes =>
    refine (recasts_ofTex node).bind fun _ _ h => (recasts_eachOfTex nodes).map fun _ _ h' => ?_
    rw [h, h']
    rfl
termination_by sizeOf nodes
decreasing_by all_goals (simp only [List.cons.sizeOf_spec]; omega)

theorem recasts_rowsOfTex (rows : List (List Tex.Formula))
    : Abreast (fun images others => others = rowsWithCalls images)
      (rowsOfTex { options with fracToSlash := true } rows)
      (rowsOfTex { options with fracToSlash := false } rows) := by
  cases rows with
  | nil => exact rfl
  | cons row rows =>
    refine (recasts_eachOfTex row).bind fun _ _ h => (recasts_rowsOfTex rows).map fun _ _ h' => ?_
    rw [h, h']
    rfl
termination_by sizeOf rows
decreasing_by all_goals (simp only [List.cons.sizeOf_spec]; omega)

theorem recasts_optionOfTex (node : Option Tex.Formula)
    : Abreast (fun image other => other = optionWithCalls image)
      (optionOfTex { options with fracToSlash := true } node)
      (optionOfTex { options with fracToSlash := false } node) := by
  cases node with
  | none => exact rfl
  | some node =>
    refine (recasts_ofTex node).map fun _ _ h => ?_
    rw [h]
    rfl
termination_by sizeOf node
decreasing_by all_goals (simp only [Option.some.sizeOf_spec]; omega)

end

theorem ofTex_withCalls {options : Options} {node : Tex.Formula} {image : Formula}
    (h : ofTex { options with fracToSlash := true } node = .ok image)
    : ofTex { options with fracToSlash := false } node = .ok image.withCalls := by
  have hrecasts := recasts_ofTex options node
  rw [h] at hrecasts
  cases hother : ofTex { options with fracToSlash := false } node with
  | error e =>
    rw [hother] at hrecasts
    contradiction
  | ok other =>
    rw [hother] at hrecasts
    exact congrArg _ hrecasts

namespace Formula

section Regular

variable {style : Style} {words : Vocabulary} {node : Formula} {nodes : List Formula}

theorem withCalls_ne_group (h : ∀ more, node ≠ .group more) (more : List Formula)
    : node.withCalls ≠ .group more := by
  cases node with
  | group nodes => exact absurd rfl (h nodes)
  | _ => exact nofun

theorem isScriptBase_withCalls (h : node.isScriptBase) : node.withCalls.isScriptBase := by
  cases node
  all_goals first | exact h | contradiction

theorem closesWithNumber_withCalls (h : node.withCalls.closesWithNumber)
    : node.closesWithNumber := by
  cases node
  all_goals first | exact h | contradiction

theorem opensWithNumber_withCalls (h : node.withCalls.opensWithNumber) : node.opensWithNumber := by
  cases node
  all_goals first | exact h | contradiction

theorem withCalls_primes (count : Nat) : (primes count).withCalls = primes count := by
  change group (eachWithCalls _) = group _
  rw [eachWithCalls_eq, List.map_replicate]
  rfl

/--
A call keeps a fraction apart from what stands beside it at least as well as a slash does.
-/
theorem isChain_withCalls
    (h : nodes.IsChain fun node next => ¬ (node.closesWithNumber ∧ next.opensWithNumber))
    : (nodes.map withCalls).IsChain fun node next =>
      ¬ (node.closesWithNumber ∧ next.opensWithNumber) := by
  rw [List.isChain_map]
  exact h.imp fun node next hnot hboth =>
    hnot ⟨closesWithNumber_withCalls hboth.1, opensWithNumber_withCalls hboth.2⟩

theorem Regular.withCalls (hfrac : words.mem "frac") (h : Regular style words node)
    : Regular style words node.withCalls := by
  induction h with
  | letter h => exact .letter h
  | sign h => exact .sign h
  | number h hne => exact .number h hne
  | symbol h hinfinity => exact .symbol h hinfinity
  | parens hflat hnumbers _ ih =>
    rw [Formula.withCalls, eachWithCalls_eq]
    refine .parens ?_ (isChain_withCalls hnumbers) (List.forall_mem_map.mpr ih)
    exact List.forall_mem_map.mpr fun node hnode => withCalls_ne_group (hflat node hnode)
  | group hlength hflat hnumbers _ ih =>
    rw [Formula.withCalls, eachWithCalls_eq]
    refine .group (by simpa using hlength) ?_ (isChain_withCalls hnumbers)
      (List.forall_mem_map.mpr ih)
    exact List.forall_mem_map.mpr fun node hnode => withCalls_ne_group (hflat node hnode)
  | call hname hne _ ih =>
    rw [Formula.withCalls, eachWithCalls_eq]
    exact .call hname (by simpa using hne) (List.forall_mem_map.mpr ih)
  | frac _ _ _ _ ihnum ihden => exact .call hfrac (by simp) (by simpa using ⟨ihnum, ihden⟩)
  | @attach base sub sup _ hkind _ _ hsome ihbase ihsub ihsup =>
    have hoption {script : Option Formula}
        (ih : ∀ node ∈ script, Regular style words node.withCalls)
        : ∀ node ∈ optionWithCalls script, Regular style words node := by
      cases script with
      | none => exact nofun
      | some node => simpa [optionWithCalls] using ih
    have hisSome (script : Option Formula) : (optionWithCalls script).isSome = script.isSome := by
      cases script
      all_goals rfl
    refine .attach ihbase (isScriptBase_withCalls hkind) (hoption ihsub) (hoption ihsup) ?_
    rwa [hisSome, hisSome]
  | @primed base sub count _ hkind _ hcount ihbase ihsub =>
    change Regular style words (.attach _ _ (some (primes count).withCalls))
    rw [withCalls_primes]
    refine .primed ihbase (isScriptBase_withCalls hkind) ?_ hcount
    cases sub with
    | none => exact nofun
    | some node => simpa [optionWithCalls] using ihsub
  | leftRight hfences _ hwords ih => exact .leftRight hfences ih hwords
  | matrix hnamed hrows hcells _ ih =>
    rw [Formula.withCalls, rowsWithCalls_eq]
    refine .matrix hnamed (by simpa using hrows) ?_ ?_
    . exact List.forall_mem_map.mpr fun row hrow => by simpa using hcells row hrow
    . exact List.forall_mem_map.mpr fun row hrow => List.forall_mem_map.mpr (ih row hrow)
  | cases hrows hcells _ ih =>
    rw [Formula.withCalls, rowsWithCalls_eq]
    refine .cases (by simpa using hrows) ?_ ?_
    . exact List.forall_mem_map.mpr fun row hrow => by simpa using hcells row hrow
    . exact List.forall_mem_map.mpr fun row hrow => List.forall_mem_map.mpr (ih row hrow)

end Regular

end Formula

end Typst

namespace Tex
namespace Formula

open Typst.Formula (eachWithCalls rowsWithCalls optionWithCalls eachWithCalls_eq)

variable {options : Options} {style : Typst.Style} {words : Typst.Vocabulary} {node : Typst.Formula}

theorem forall₂_eachWithCalls {r : Typst.Formula → Typst.Formula → Prop}
    {nodes : List Typst.Formula} (h : ∀ node ∈ nodes, r node node.withCalls)
    : List.Forall₂ r nodes (eachWithCalls nodes) := by
  rw [eachWithCalls_eq, List.forall₂_map_right_iff, List.forall₂_same]
  exact h

theorem rowsOfTypst_withCalls {rows : List (List Typst.Formula)}
    (h : ∀ row ∈ rows, ∀ cell ∈ row, SameResult options cell cell.withCalls)
    : rowsOfTypst options rows = rowsOfTypst options (rowsWithCalls rows) := by
  induction rows with
  | nil => rfl
  | cons row rows ih =>
    rw [List.forall_mem_cons] at h
    rw [rowsWithCalls, rowsOfTypst, rowsOfTypst, ih h.2,
      eachOfTypst_congr (forall₂_eachWithCalls h.1)]

theorem optionOfTypst_withCalls {node : Option Typst.Formula}
    (h : ∀ some ∈ node, SameResult options some some.withCalls)
    : optionOfTypst options node = optionOfTypst options (optionWithCalls node) := by
  cases node with
  | none => rfl
  | some node => rw [optionWithCalls, optionOfTypst, optionOfTypst, h node rfl]

theorem optionTall_withCalls {node : Option Typst.Formula}
    (h : ∀ some ∈ node, some.isTall = some.withCalls.isTall)
    : Typst.Formula.optionTall node = Typst.Formula.optionTall (optionWithCalls node) := by
  cases node with
  | none => rfl
  | some node => exact h node rfl

/--
A slash and a call are converted to the same fraction.
-/
theorem alike_withCalls (h : Typst.Formula.Regular style words node)
    : Alike options node node.withCalls := by
  induction h with
  | letter | sign | number | symbol => exact ⟨.ordinary rfl rfl, rfl, rfl⟩
  | parens _ _ _ ih =>
    have halike := forall₂_eachWithCalls ih
    have htall := anyTall_congr (halike.imp fun _ _ h => h.isTall)
    refine ⟨.ordinary rfl rfl, ?_, htall⟩
    rw [SameResult, Typst.Formula.withCalls, ofTypst_parens, ofTypst_parens, htall, nonemptyOfTypst,
      nonemptyOfTypst, eachOfTypst_congr (halike.imp fun _ _ h => h.result)]
  | group _ _ _ _ ih =>
    have halike := forall₂_eachWithCalls ih
    refine ⟨.ordinary rfl rfl, ?_, anyTall_congr (halike.imp fun _ _ h => h.isTall)⟩
    rw [SameResult, Typst.Formula.withCalls, ofTypst_group, ofTypst_group, nonemptyOfTypst,
      nonemptyOfTypst, eachOfTypst_congr (halike.imp fun _ _ h => h.result)]
  | @call name _ hname _ _ ih =>
    have hlength : name ≠ "#h" := by
      rintro rfl
      exact absurd (words.typstName _ hname).isDotted (by decide)
    exact alike_call hlength (forall₂_eachWithCalls ih)
  | frac _ _ _ _ ihnum ihden =>
    refine ⟨.ordinary rfl rfl, ?_, rfl⟩
    rw [SameResult, ofTypst, ihnum.result, ihden.result]
    rfl
  | attach _ _ _ _ _ ihbase ihsub ihsup =>
    refine ⟨.ordinary rfl rfl, ?_, ?_⟩
    . exact ofTypst_attach_congr ihbase
        (optionOfTypst_withCalls fun node hnode => (ihsub node hnode).result)
        (optionOfTypst_withCalls fun node hnode => (ihsup node hnode).result)
    . rw [Typst.Formula.withCalls, Typst.Formula.isTall, Typst.Formula.isTall, ihbase.isTall,
        optionTall_withCalls fun node hnode => (ihsub node hnode).isTall,
        optionTall_withCalls fun node hnode => (ihsup node hnode).isTall]
  | @primed _ _ count _ _ _ _ ihbase ihsub =>
    rw [Typst.Formula.withCalls, optionWithCalls, Typst.Formula.withCalls_primes]
    refine ⟨.ordinary rfl rfl, ?_, ?_⟩
    . exact ofTypst_attach_congr ihbase
        (optionOfTypst_withCalls fun node hnode => (ihsub node hnode).result) rfl
    . rw [Typst.Formula.isTall, Typst.Formula.isTall, ihbase.isTall,
        optionTall_withCalls fun node hnode => (ihsub node hnode).isTall]
  | leftRight _ _ _ ih =>
    refine ⟨.ordinary rfl rfl, ?_, ih.isTall⟩
    rw [SameResult, Typst.Formula.withCalls, ofTypst, ofTypst, ih.result]
  | matrix _ _ _ _ ih | cases _ _ _ ih =>
    refine ⟨.ordinary rfl rfl, ?_, rfl⟩
    rw [SameResult, Typst.Formula.withCalls, ofTypst, ofTypst,
      rowsOfTypst_withCalls fun row hrow cell hcell => (ih row hrow cell hcell).result]

end Formula
end Tex

theorem abreast_fracToSlash (options : Options) (text : String)
    : Abreast (fun _ _ => True) (texToTypst { options with fracToSlash := true } text)
      (texToTypst { options with fracToSlash := false } text) := by
  refine (@abreast_self _ _ Eq _ fun _ _ => rfl).bind fun node _ hnode => ?_
  cases hnode
  exact ((Typst.recasts_ofTex options node).mapError _).map fun _ _ _ => trivial

/--
A slash and a call are a choice of notation for fractions. Either both are converted or neither is,
with the same error. The results for formulas that are converted to regular ones are converted back
to the same formula, or neither is. The atoms of regular formulas are letters, numbers, `+` and `=`.
They have no text and no comments, and no numbers side by side, not even at the end of a fraction.
-/
theorem toOption_typstToTex_slash (options : Options) (text : String)
    : (∀ failure, texToTypst { options with fracToSlash := true } text = .error failure ↔
        texToTypst { options with fracToSlash := false } text = .error failure) ∧
      ∀ (words : Typst.Vocabulary) (node : Tex.Formula) (image : Typst.Formula),
        words.mem "frac" → Tex.parse (options.tokenize text) = .ok node →
        Typst.Formula.ofTex { options with fracToSlash := true } node = .ok image →
        image.Regular options.style words →
        ∃ slash call,
          texToTypst { options with fracToSlash := true } text = .ok slash ∧
          texToTypst { options with fracToSlash := false } text = .ok call ∧
          (typstToTex options slash).toOption = (typstToTex options call).toOption := by
  refine ⟨(abreast_fracToSlash options text).error_iff, ?_⟩
  intro words node image hfrac hparse hconverted hregular
  have hslash := @texToTypst_eq_ok { options with fracToSlash := true } _ _ _ hparse hconverted
  have hcall := @texToTypst_eq_ok { options with fracToSlash := false } _ _ _ hparse
    (Typst.ofTex_withCalls hconverted)
  refine ⟨_, _, hslash, hcall, ?_⟩
  change (typstToTex options (Typst.write options.style image)).toOption =
    (typstToTex options (Typst.write options.style image.withCalls)).toOption
  rw [toOption_typstToTex_write options hregular,
    toOption_typstToTex_write options (hregular.withCalls hfrac),
    (Tex.Formula.alike_withCalls hregular).result]

theorem toOption_typstToTex_slash_sum
    : ∃ slash call,
      texToTypst {} "x + \\frac\x7ba\x7d\x7bb\x7d" = .ok slash ∧
      texToTypst { fracToSlash := false } "x + \\frac\x7ba\x7d\x7bb\x7d" = .ok call ∧
      (typstToTex {} slash).toOption = (typstToTex {} call).toOption := by
  have hletter : ∀ {c : Char}, c.isAlpha → Tex.Formula.Shared (.element (String.ofList [c])) :=
    .letter
  have hfraction := Tex.Formula.Shared.fraction (hletter (by decide : 'a'.isAlpha))
    (hletter (by decide : 'b'.isAlpha))
  have hshared : Tex.Formula.Shared (.group
      [.element "x", .element "+", .call "frac" [.element "a", .element "b"]]) := by
    refine .group (by decide) (by simp [Tex.Formula.call]) ?_ ?_
    . simp [Tex.Formula.isNumberOrFraction, Tex.Formula.isNumber]
    . simpa using ⟨hletter (by decide : 'x'.isAlpha), .sign (by decide), hfraction⟩
  have htext : Tex.write (.group
      [.element "x", .element "+", .call "frac" [.element "a", .element "b"]]) =
      "x + \\frac\x7ba\x7d\x7bb\x7d" := by
    decide +kernel
  obtain ⟨read, image, hparse, hforth, htranslation⟩ := hshared.exists_translation
  rw [htext] at hparse
  have hfrac : Typst.anyNames.mem "frac" :=
    ⟨⟨"frac".toList, rfl, by decide⟩, by decide⟩
  exact (toOption_typstToTex_slash {} _).2 Typst.anyNames read image hfrac hparse hforth
    htranslation.regular

/--
The parentheses around a slash that carries a script are read as parentheses of the formula, and a
number in front of a slash is read as the beginning of its numerator.
-/
theorem slash_adds_parens
    : texToTypst {} "\\frac\x7ba\x7d\x7bb\x7d^2" = .ok "(a/b)^2" ∧
      texToTypst { fracToSlash := false } "\\frac\x7ba\x7d\x7bb\x7d^2" = .ok "frac(a, b)^2" ∧
      typstToTex {} "(a/b)^2" = .ok "\\left( \\frac\x7ba\x7d\x7bb\x7d \\right)^2" ∧
      typstToTex {} "frac(a, b)^2" = .ok "\\frac\x7ba\x7d\x7bb\x7d^2" ∧
      texToTypst {} "2\\frac\x7b1\x7d\x7b3\x7d" = .ok "21/3" ∧
      texToTypst { fracToSlash := false } "2\\frac\x7b1\x7d\x7b3\x7d" = .ok "2 frac(1, 3)" ∧
      typstToTex {} "21/3" = .ok "\\frac\x7b21\x7d\x7b3\x7d" ∧
      typstToTex {} "2 frac(1, 3)" = .ok "2 \\frac\x7b1\x7d\x7b3\x7d" := by
  refine ⟨?_, ?_, ?_, ?_, ?_, ?_, ?_, ?_⟩
  all_goals exact eq_ok_of_toOption (by decide +kernel)

end MathMarkup
