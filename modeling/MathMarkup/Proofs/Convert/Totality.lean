import Mathlib.Computability.RegularExpressions
import MathMarkup.Proofs.Convert.OfTex
import MathMarkup.Proofs.Tex.Subformulas

/-!
This module contains the exact conditions under which a TeX formula that was read can be converted,
and the reasons for which the conversion fails otherwise.
-/

namespace MathMarkup

def environments : List String :=
  ["aligned", "align", "align*", "alignat", "alignat*", "gathered", "gather", "gather*", "split",
   "eqnarray", "eqnarray*", "cases", "array", "matrix", "smallmatrix", "pmatrix", "bmatrix",
   "Bmatrix", "vmatrix", "Vmatrix"]

section ColumnSpec

open RegularExpression

def columnPattern : RegularExpression Char :=
  (char 'l' + char 'c' + char 'r') * star (char '|')

def columnSpecPattern : RegularExpression Char :=
  star (char '|') * (columnPattern * star columnPattern)

end ColumnSpec

/--
The column specification of an array without its blanks. A missing one counts as empty.
-/
def columnSpec (spec : Option String) : List Char :=
  (spec.getD "").toList.filter fun c => !Text.isBlank c

/--
A column specification that can be converted. Columns with different alignments are only accepted
in non-strict mode.
-/
def ColumnsFit (options : Options) (spec : Option String) : Prop :=
  columnSpec spec ∈ columnSpecPattern.matches' ∧
    (options.nonStrict = true ∨
      ∀ c ∈ columnSpec spec, ∀ d ∈ columnSpec spec, c ≠ '|' → d ≠ '|' → c = d)

/--
The reasons for which the conversion of a formula that was read may fail. Unknown commands and
characters are no reason in non-strict mode.
-/
def ConvertFault.Documented (options : Options) : ConvertFault → Prop
  | .unknownCommand _ | .unknownToken _ => options.nonStrict = false
  | .unknownEnvironment _ | .invalidArgument _ => True
  | .unknownSymbol _ | .unknownDelimiter _ => False

section ColumnSpecLemmas

open Typst.OfTex

theorem mem_bars {cs : List Char}
    : cs ∈ (RegularExpression.star (.char '|')).matches' ↔ ∀ c ∈ cs, c = '|' := by
  rw [RegularExpression.matches'_star, RegularExpression.matches'_char, Language.mem_kstar]
  constructor
  . rintro ⟨parts, rfl, hparts⟩ c hc
    obtain ⟨part, hpart, hc⟩ := List.mem_flatten.1 hc
    cases Set.mem_singleton_iff.1 (hparts part hpart)
    exact List.mem_singleton.1 hc
  . intro h
    refine ⟨cs.map fun c => [c], by simp [List.flatten_eq_flatMap, List.flatMap_map], ?_⟩
    intro part hpart
    obtain ⟨c, hc, rfl⟩ := List.mem_map.1 hpart
    rw [h c hc]
    rfl

theorem mem_columnPattern {cs : List Char}
    : cs ∈ columnPattern.matches' ↔
      ∃ c bars, cs = c :: bars ∧ c ∈ ['l', 'c', 'r'] ∧ ∀ b ∈ bars, b = '|' := by
  rw [columnPattern, RegularExpression.matches'_mul, Language.mem_mul]
  constructor
  . rintro ⟨letter, hletter, bars, hbars, rfl⟩
    rw [mem_bars] at hbars
    rcases hletter with (hletter | hletter) | hletter
    all_goals
      cases hletter
      exact ⟨_, bars, rfl, by decide, hbars⟩
  . rintro ⟨c, bars, rfl, hc, hbars⟩
    refine ⟨[c], ?_, bars, mem_bars.2 hbars, rfl⟩
    simp only [List.mem_cons, List.not_mem_nil, or_false] at hc
    rcases hc with rfl | rfl | rfl
    . exact .inl (.inl rfl)
    . exact .inl (.inr rfl)
    . exact .inr rfl

theorem exists_columns {cs : List Char} (h : ∀ c ∈ cs, c ∈ ['l', 'c', 'r'] ∨ c = '|')
    : ∃ (bars : List Char) (columns : List (List Char)), cs = bars ++ columns.flatten ∧
      (∀ b ∈ bars, b = '|') ∧ ∀ column ∈ columns, column ∈ columnPattern.matches' := by
  induction cs with
  | nil => exact ⟨[], [], rfl, nofun, nofun⟩
  | cons c cs ih =>
    obtain ⟨hc, hcs⟩ := List.forall_mem_cons.1 h
    obtain ⟨bars, columns, rfl, hbars, hcolumns⟩ := ih hcs
    cases hc with
    | inr hbar => exact ⟨c :: bars, columns, rfl, List.forall_mem_cons.2 ⟨hbar, hbars⟩, hcolumns⟩
    | inl hletter =>
      have hcolumn : c :: bars ∈ columnPattern.matches' :=
        mem_columnPattern.2 ⟨c, bars, rfl, hletter, hbars⟩
      exact ⟨[], (c :: bars) :: columns, by simp, nofun,
        List.forall_mem_cons.2 ⟨hcolumn, hcolumns⟩⟩

theorem isColumnSpec_iff {cs : List Char}
    : isColumnSpec cs ↔ (∀ c ∈ cs, c ∈ ['l', 'c', 'r'] ∨ c = '|') ∧ ∃ c ∈ cs, c ≠ '|' := by
  simp only [isColumnSpec, Bool.and_eq_true, List.all_eq_true, List.any_eq_true, bne_iff_ne]
  refine and_congr_left' (forall₂_congr fun c _ => ?_)
  split
  all_goals simp_all

theorem specChars_of_column {column : List Char} (h : column ∈ columnPattern.matches')
    : ∀ c ∈ column, c ∈ ['l', 'c', 'r'] ∨ c = '|' := by
  obtain ⟨c, bars, rfl, hletter, hbars⟩ := mem_columnPattern.1 h
  exact List.forall_mem_cons.2 ⟨.inl hletter, fun b hb => .inr (hbars b hb)⟩

theorem mem_columnSpecPattern {cs : List Char}
    : cs ∈ columnSpecPattern.matches' ↔ isColumnSpec cs := by
  rw [isColumnSpec_iff, columnSpecPattern, RegularExpression.matches'_mul,
    RegularExpression.matches'_mul, RegularExpression.matches'_star, Language.mem_mul]
  constructor
  . rintro ⟨bars, hbars, rest, hrest, rfl⟩
    obtain ⟨first, hfirst, others, hothers, rfl⟩ := Language.mem_mul.1 hrest
    obtain ⟨columns, rfl, hcolumns⟩ := Language.mem_kstar.1 hothers
    constructor
    . simp only [List.forall_mem_append]
      refine ⟨fun b hb => .inr (mem_bars.1 hbars b hb), specChars_of_column hfirst, ?_⟩
      intro c hc
      obtain ⟨column, hcolumn, hc⟩ := List.mem_flatten.1 hc
      exact specChars_of_column (hcolumns column hcolumn) c hc
    . obtain ⟨c, _, rfl, hletter, _⟩ := mem_columnPattern.1 hfirst
      refine ⟨c, by simp, ?_⟩
      rintro rfl
      contradiction
  . rintro ⟨hall, c, hc, hletter⟩
    obtain ⟨bars, columns, rfl, hbars, hcolumns⟩ := exists_columns hall
    cases columns with
    | nil => exact absurd (hbars c (by simpa using hc)) hletter
    | cons column columns =>
      obtain ⟨hcolumn, hcolumns⟩ := List.forall_mem_cons.1 hcolumns
      exact ⟨bars, mem_bars.2 hbars, _,
        Language.append_mem_mul hcolumn (Language.join_mem_kstar hcolumns), rfl⟩

end ColumnSpecLemmas

namespace Typst

open OfTex Formula

/--
The computation has a result exactly if `fits`, and fails for a documented reason otherwise.
-/
def Settles {α : Type} (options : Options) (fits : Prop) (x : Except ConvertError α) : Prop :=
  (fits ∧ ∃ result, x = .ok result) ∨
    (¬fits ∧ ∃ error, x = .error error ∧ error.fault.Documented options)

section Settles

variable {α β : Type} {options : Options} {fits next : Prop} {x : Except ConvertError α}
  {f : α → Except ConvertError β}

theorem settles_ok {a : α} (h : fits) : Settles options fits (.ok a : Except ConvertError α) :=
  .inl ⟨h, a, rfl⟩

theorem settles_error {error : ConvertError} (h : ¬fits) (herror : error.fault.Documented options)
    : Settles options fits (.error error : Except ConvertError α) :=
  .inr ⟨h, error, rfl, herror⟩

theorem Settles.bind (h : Settles options fits x) (hnext : ∀ a, Settles options next (f a))
    : Settles options (fits ∧ next) (x >>= f) := by
  rcases h with ⟨hfits, a, rfl⟩ | ⟨hnot, error, rfl, herror⟩
  . rcases hnext a with ⟨hnext, result, hresult⟩ | ⟨hnot, error, hresult, herror⟩
    . exact .inl ⟨⟨hfits, hnext⟩, result, hresult⟩
    . exact .inr ⟨fun h => hnot h.2, error, hresult, herror⟩
  . exact .inr ⟨fun h => hnot h.1, error, rfl, herror⟩

theorem Settles.congr (h : Settles options fits x) (hiff : fits ↔ next)
    : Settles options next x :=
  propext hiff ▸ h

theorem Settles.map (h : Settles options fits x) (f : α → β)
    : Settles options fits (x >>= fun a => pure (f a)) :=
  (h.bind fun _ => settles_ok trivial).congr (and_iff_left trivial)

theorem Settles.of_map {f : α → β} (h : Settles options fits (x >>= fun a => pure (f a)))
    : Settles options fits x := by
  cases x with
  | error e => exact h.imp (fun ⟨_, _, h⟩ => nomatch h) fun ⟨hnot, error, heq, herror⟩ =>
      ⟨hnot, e, rfl, by cases heq; exact herror⟩
  | ok a => exact h.imp (fun ⟨hfits, _⟩ => ⟨hfits, a, rfl⟩) fun ⟨_, _, h, _⟩ => nomatch h

end Settles

/--
A node that does not keep the formula around it from being converted.
-/
def Admissible (options : Options) : Tex.Formula → Prop
  | .unknown _ => options.nonStrict = true
  | .env name spec _ => name ∈ environments ∧ (name = "array" → ColumnsFit options spec)
  | _ => True

/--
None of the nodes keeps the formulas from being converted.
-/
def AllFit (options : Options) (nodes : List Tex.Formula) : Prop :=
  ∀ node ∈ nodes, Admissible options node

section AllFit

variable {options : Options} {node : Tex.Formula} {nodes more : List Tex.Formula}

@[simp]
theorem allFit_nil : AllFit options [] := List.forall_mem_nil _

@[simp]
theorem allFit_cons : AllFit options (node :: nodes) ↔ Admissible options node ∧ AllFit options nodes :=
  List.forall_mem_cons

@[simp]
theorem allFit_append : AllFit options (nodes ++ more) ↔ AllFit options nodes ∧ AllFit options more :=
  List.forall_mem_append

/--
The conversion of the formula succeeds exactly if its nodes allow it.
-/
def Converts (options : Options) (node : Tex.Formula) : Prop :=
  Settles options (AllFit options node.subformulas) (ofTex options node)

theorem settles_each (h : ∀ node ∈ nodes, Converts options node)
    : Settles options (AllFit options (Tex.Formula.eachSubformulas nodes))
        (eachOfTex options nodes) := by
  induction nodes with
  | nil => exact settles_ok allFit_nil
  | cons node nodes ih =>
    obtain ⟨hnode, hnodes⟩ := List.forall_mem_cons.1 h
    rw [eachOfTex, Tex.Formula.eachSubformulas, allFit_append]
    exact hnode.bind fun image => (ih hnodes).map (image :: ·)

theorem settles_rows {rows : List (List Tex.Formula)}
    (h : ∀ row ∈ rows, ∀ cell ∈ row, Converts options cell)
    : Settles options (AllFit options (Tex.Formula.rowsSubformulas rows))
        (rowsOfTex options rows) := by
  induction rows with
  | nil => exact settles_ok allFit_nil
  | cons row rows ih =>
    obtain ⟨hrow, hrows⟩ := List.forall_mem_cons.1 h
    rw [rowsOfTex, Tex.Formula.rowsSubformulas, allFit_append]
    exact (settles_each hrow).bind fun image => (ih hrows).map (image :: ·)

theorem settles_option {script : Option Tex.Formula} (h : ∀ node ∈ script, Converts options node)
    : Settles options (AllFit options (Tex.Formula.optionSubformulas script))
        (optionOfTex options script) := by
  cases script with
  | none => exact settles_ok allFit_nil
  | some node => exact (h node rfl).map some

end AllFit

section Cases

variable {options : Options} {node : Tex.Formula} {args nodes : List Tex.Formula}

theorem converts_unknown (options : Options) (text : String)
    : Converts options (.unknown text) := by
  have hfits : AllFit options (Tex.Formula.unknown text).subformulas ↔ options.nonStrict = true := by
    simp [Tex.Formula.subformulas, Admissible]
  refine Settles.congr ?_ hfits.symm
  unfold ofTex OfTex.unknown
  cases hstrict : options.nonStrict with
  | true =>
    split
    . exact settles_ok rfl
    . exact settles_ok rfl
  | false =>
    split
    . exact settles_error Bool.false_ne_true hstrict
    . exact settles_error Bool.false_ne_true hstrict

theorem settles_applied {x : Except ConvertError Formula} (h : Applied options args x)
    (hargs : ∀ arg ∈ args, Converts options arg)
    : Settles options (AllFit options (Tex.Formula.eachSubformulas args)) x := by
  cases h with
  | call _ => exact (settles_each hargs).map _
  | fraction num den =>
    simp only [List.forall_mem_cons] at hargs
    simp only [Tex.Formula.eachSubformulas, allFit_append, allFit_nil, and_true]
    exact hargs.1.bind fun _ => hargs.2.1.map _
  | bold body =>
    simp only [List.forall_mem_cons] at hargs
    simp only [Tex.Formula.eachSubformulas, allFit_append, allFit_nil, and_true]
    exact hargs.1.map _
  | above top base | below top base =>
    simp only [List.forall_mem_cons] at hargs
    simp only [Tex.Formula.eachSubformulas, allFit_append, allFit_nil, and_true]
    exact (hargs.2.1.bind fun _ => hargs.1.map _).congr and_comm

theorem converts_group (h : ∀ node ∈ nodes, Converts options node)
    : Converts options (.group nodes) := by
  unfold Converts ofTex
  simp only [Tex.Formula.subformulas, allFit_cons, Admissible, true_and]
  exact (settles_each h).map _

theorem converts_attach {base : Tex.Formula} {sub sup : Option Tex.Formula}
    (hbase : Converts options base) (hsub : ∀ node ∈ sub, Converts options node)
    (hsup : ∀ node ∈ sup, Converts options node)
    : Converts options (.attach base sub sup) := by
  have hfits : AllFit options (Tex.Formula.attach base sub sup).subformulas ↔
      AllFit options base.subformulas ∧ AllFit options (Tex.Formula.optionSubformulas sub) ∧
        AllFit options (Tex.Formula.optionSubformulas sup) := by
    simp [Tex.Formula.subformulas, Admissible]
  refine Settles.congr ?_ hfits.symm
  -- A brace with a label is converted from its body, which succeeds when the brace does.
  have hbody {name : String} (hname : name ∈ ["overbrace", "underbrace"]) {body : Tex.Formula}
      {degree : Option Tex.Formula} (heq : base = .func name [body] degree)
      : Settles options (AllFit options base.subformulas) (ofTex options body) := by
    subst heq
    rw [Converts, ofTex_brace hname] at hbase
    exact hbase.of_map
  unfold ofTex
  split
  next label =>
    simp only [Tex.Formula.optionSubformulas, allFit_nil, true_and]
    exact (hbody (by decide) rfl).bind fun _ => (hsup label rfl).map _
  next label =>
    simp only [Tex.Formula.optionSubformulas, allFit_nil, and_true]
    exact (hbody (by decide) rfl).bind fun _ => (hsub label rfl).map _
  . exact hbase.bind fun _ => (settles_option hsub).bind fun _ => (settles_option hsup).map _

theorem converts_leftRight {left right : Option String} {body : Tex.Formula}
    (hoptimize : options.optimize = false)
    (hleft : ∀ delim ∈ left, Tex.Fence (fun token => Tex.Spelled token.lexeme) delim)
    (hright : ∀ delim ∈ right, Tex.Fence (fun token => Tex.Spelled token.lexeme) delim)
    (hbody : Converts options body) : Converts options (.leftRight left body right) := by
  obtain ⟨opening, hopening⟩ := exists_delimiter? hleft
  obtain ⟨closing, hclosing⟩ := exists_delimiter? hright
  have henclose (image : Formula) : Settles options True (enclose options left right image) := by
    unfold enclose
    simp only [hoptimize, hopening, hclosing]
    split
    . exact settles_ok trivial
    . exact settles_ok trivial
  unfold Converts ofTex
  simp only [Tex.Formula.subformulas, allFit_cons, Admissible, true_and]
  exact (hbody.bind henclose).congr (and_iff_left trivial)

theorem uniform_iff (spec : List Char)
    : (specColumns spec).all (fun c => some c == (specColumns spec).head?) ↔
      ∀ c ∈ spec, ∀ d ∈ spec, c ≠ '|' → d ≠ '|' → c = d := by
  have hmem (c : Char) : c ∈ specColumns spec ↔ c ∈ spec ∧ c ≠ '|' := by
    simp [specColumns]
  have hpairs : (∀ c ∈ spec, ∀ d ∈ spec, c ≠ '|' → d ≠ '|' → c = d) ↔
      ∀ c ∈ specColumns spec, ∀ d ∈ specColumns spec, c = d := by
    simp only [hmem]
    exact ⟨fun h c hc d hd => h c hc.1 d hd.1 hc.2 hd.2,
      fun h c hc d hd hbar hbar' => h c ⟨hc, hbar⟩ d ⟨hd, hbar'⟩⟩
  rw [hpairs]
  cases specColumns spec with
  | nil => simp
  | cons first columns =>
    simp only [List.all_eq_true, List.head?_cons, beq_iff_eq, Option.some.injEq]
    constructor
    . intro h c hc d hd
      rw [h c hc, h d hd]
    . intro h c hc
      exact h c hc first List.mem_cons_self

theorem settles_alignArgument (options : Options) (spec : List Char)
    : Settles options (options.nonStrict = true ∨
          ∀ c ∈ spec, ∀ d ∈ spec, c ≠ '|' → d ≠ '|' → c = d)
        (alignArgument options spec (specColumns spec)) := by
  rw [← uniform_iff]
  simp only [alignArgument]
  split
  . rename_i huniform _
    exact settles_ok (.inr huniform)
  . rename_i huniform _
    exact settles_ok (.inr huniform)
  . rename_i huniform _ _
    exact settles_ok (.inr huniform)
  . rename_i huniform
    split
    . exact settles_ok (.inl ‹_›)
    . exact settles_error (by simp_all) trivial

theorem settles_array (options : Options) (spec : Option String) (rows : List (List Formula))
    : Settles options (ColumnsFit options spec) (array options (spec.getD "") rows) := by
  rw [ColumnsFit, mem_columnSpecPattern]
  simp only [array]
  change Settles options _ (if isColumnSpec (columnSpec spec) then _ else _)
  split
  next hspec =>
    exact ((settles_alignArgument options (columnSpec spec)).map _).congr
      (and_iff_right hspec).symm
  next hspec => exact settles_error (fun h => hspec h.1) trivial

theorem mem_environments_iff {name : String}
    : name ∈ environments ↔ name ∈ alignments ∨ name = "cases" ∨ name = "array" ∨
        (matrixDelimiter? name).isSome := by
  have hsplit : environments = alignments ++ ["cases", "array"] ++
      ["matrix", "smallmatrix", "pmatrix", "bmatrix", "Bmatrix", "vmatrix", "Vmatrix"] := rfl
  have hmatrix : (matrixDelimiter? name).isSome ↔ name ∈ ["matrix", "smallmatrix", "pmatrix",
      "bmatrix", "Bmatrix", "vmatrix", "Vmatrix"] := by
    unfold matrixDelimiter?
    split
    all_goals simp_all
  rw [hsplit, hmatrix, List.mem_append, List.mem_append]
  simp only [List.mem_cons, List.not_mem_nil, or_false, or_assoc]

theorem settles_environment (options : Options) (name : String) (spec : Option String)
    (rows : List (List Formula))
    : Settles options (name ∈ environments ∧ (name = "array" → ColumnsFit options spec))
        (environment options name spec rows) := by
  rw [mem_environments_iff]
  unfold environment
  split
  next halign =>
    have halign := List.contains_iff_mem.1 halign
    refine settles_ok ⟨.inl halign, ?_⟩
    rintro rfl
    contradiction
  next halign =>
    split
    next hcases =>
      cases eq_of_beq hcases
      exact settles_ok ⟨.inr (.inl rfl), nofun⟩
    next hcases =>
      split
      next harray =>
        cases eq_of_beq harray
        refine (settles_array options spec rows).congr ?_
        simp
      next harray =>
        split
        next delim hdelim =>
          refine settles_ok ⟨.inr (.inr (.inr (by simp [hdelim]))), fun hname => ?_⟩
          simp [hname] at harray
        next hdelim =>
          refine settles_error ?_ trivial
          simp_all

theorem converts_env {name : String} {spec : Option String} {rows : List (List Tex.Formula)}
    (hcells : ∀ row ∈ rows, ∀ cell ∈ row, Converts options cell)
    : Converts options (.env name spec rows) := by
  unfold Converts ofTex
  simp only [Tex.Formula.subformulas, allFit_cons, Admissible]
  exact ((settles_rows hcells).bind (settles_environment options name spec)).congr and_comm

theorem converts_leaf (hfits : AllFit options node.subformulas)
    (h : ∃ image, ofTex options node = .ok image) : Converts options node :=
  .inl ⟨hfits, h⟩

theorem converts_control {text : String} (h : ∃ image, OfTex.control text = .ok image)
    : Converts options (.control text) :=
  converts_leaf (by simp [Tex.Formula.subformulas, Admissible]) h

theorem converts_symbol {name : String} (h : (Symbol.toTypst? name).isSome)
    : Converts options (.symbol name) := by
  apply converts_leaf (by simp [Tex.Formula.subformulas, Admissible])
  obtain ⟨mapped, hmapped⟩ := Option.isSome_iff_exists.1 h
  exact ⟨.symbol mapped, by simp only [ofTex, OfTex.symbol, hmapped]⟩

theorem converts_raw {name : String} (hname : name ∈ Tex.textualCommands) (text : String)
    : Converts options (.func name [.text text] none) := by
  apply converts_leaf
  . simp [Tex.Formula.subformulas, Tex.Formula.eachSubformulas, Tex.Formula.optionSubformulas,
      Admissible]
  . simp only [Tex.textualCommands, List.mem_cons, List.not_mem_nil, or_false] at hname
    rcases hname with rfl | rfl | rfl | rfl
    all_goals exact ⟨_, rfl⟩

theorem converts_root {arg degree : Tex.Formula} (harg : Converts options arg)
    (hdegree : Converts options degree)
    : Converts options (.func "sqrt" [arg] (some degree)) := by
  have hfits : AllFit options (Tex.Formula.func "sqrt" [arg] (some degree)).subformulas ↔
      AllFit options degree.subformulas ∧ AllFit options arg.subformulas := by
    simp [Tex.Formula.subformulas, Tex.Formula.eachSubformulas, Tex.Formula.optionSubformulas,
      Admissible, and_comm]
  refine Settles.congr ?_ hfits.symm
  unfold ofTex
  exact hdegree.bind fun _ => harg.map _

theorem converts_of_parsed (hoptimize : options.optimize = false) {inEnv : Bool}
    (h : Tex.Parsed (fun token => Tex.Spelled token.lexeme) inEnv node)
    : Converts options node := by
  induction h with
  | element | text | comment | space | empty =>
    exact converts_leaf (by simp [Tex.Formula.subformulas, Admissible]) ⟨_, rfl⟩
  | character | command => exact converts_unknown options _
  | control hspelled hkind hscript htext =>
    simp only [Tex.Token.script?, hkind, beq_self_eq_true, if_true] at hscript
    simp only [Token.lexeme, hkind, Tex.Spelled] at hspelled
    refine converts_control (exists_of_isSome (control_of_mem _ hspelled hscript ?_))
    simp_all
  | separator htext =>
    refine converts_control (exists_of_isSome ?_)
    simp only [List.mem_cons, List.not_mem_nil, or_false] at htext
    rcases htext with rfl | rfl
    all_goals rfl
  | symbol _ hname => exact converts_symbol hname
  | raw hname text => exact converts_raw hname text
  | func hname harity hlength _ ih =>
    have hsettles := settles_applied (applied_func hoptimize hname harity hlength) ih
    refine hsettles.congr ?_
    simp [Tex.Formula.subformulas, Tex.Formula.optionSubformulas, Admissible]
  | root _ _ iharg ihdegree => exact converts_root iharg ihdegree
  | group _ _ ih => exact converts_group ih
  | attach _ _ _ heq _ ihbase ihsub ihsup =>
    refine converts_attach ihbase ihsub ?_
    rw [← heq]
    exact Scripts.forall_mem_superscript
      (converts_leaf (by simp [Tex.Formula.subformulas, Admissible]) ⟨_, rfl⟩)
      (fun _ => converts_group) ihsup
  | leftRight hleft hright _ ih => exact converts_leftRight hoptimize hleft hright ih
  | env _ _ _ _ ih => exact converts_env ih

end Cases

/--
The formulas that can be converted: unknown commands and characters occur in non-strict mode only,
every environment has a counterpart, and so do the columns of every array.
-/
structure Convertible (options : Options) (node : Tex.Formula) : Prop where
  known : options.nonStrict = true ∨ ∀ text, .unknown text ∉ node.subformulas
  supported : ∀ name spec rows, .env name spec rows ∈ node.subformulas → name ∈ environments
  columns : ∀ spec rows, .env "array" spec rows ∈ node.subformulas → ColumnsFit options spec

theorem allFit_iff_convertible {options : Options} {node : Tex.Formula}
    : AllFit options node.subformulas ↔ Convertible options node := by
  constructor
  . intro h
    refine ⟨?_, fun name spec rows henv => (h _ henv).1, fun spec rows henv => (h _ henv).2 rfl⟩
    by_cases hstrict : options.nonStrict = true
    . exact .inl hstrict
    . exact .inr fun text htext => hstrict (h _ htext)
  . intro h other hother
    cases other with
    | unknown text => exact h.known.resolve_right fun hknown => hknown text hother
    | env name spec rows =>
      refine ⟨h.supported name spec rows hother, ?_⟩
      rintro rfl
      exact h.columns spec rows hother
    | _ => trivial

/--
A formula that was read can be converted exactly if it is convertible, and the reason is documented
if it cannot.
-/
theorem ofTex_isOk_iff (options : Options) (hoptimize : options.optimize = false) (text : String)
    (node : Tex.Formula) (hparse : Tex.parseText text = .ok node)
    : ((∃ image, ofTex options node = .ok image) ↔ Convertible options node) ∧
      ∀ error, ofTex options node = .error error → error.fault.Documented options := by
  have hconverts := converts_of_parsed hoptimize (Tex.yields_parseText text node hparse)
  rw [← allFit_iff_convertible]
  rcases hconverts with ⟨hfits, image, himage⟩ | ⟨hnot, error, herror, hdocumented⟩
  . simp [himage, hfits]
  . simp [herror, hnot, hdocumented]

theorem ofTex_isOk_iff_array
    : ∃ node, Tex.parseText "\\begin\x7barray\x7d\x7bl|r\x7dx&\\foo\\end\x7barray\x7d" = .ok node ∧
      ¬Convertible { optimize := false } node ∧
      Convertible { optimize := false, nonStrict := true } node := by
  have hrun : (Tex.parseText "\\begin\x7barray\x7d\x7bl|r\x7dx&\\foo\\end\x7barray\x7d").toOption.map
      (fun node => ((ofTex { optimize := false } node).toOption.isSome,
        (ofTex { optimize := false, nonStrict := true } node).toOption.isSome)) =
      some (false, true) := by
    decide +kernel
  obtain ⟨node, hnode, hruns⟩ := Option.map_eq_some_iff.1 hrun
  obtain ⟨hstrict, hlenient⟩ := Prod.mk.inj hruns
  have hnode := eq_ok_of_toOption hnode
  refine ⟨node, hnode, ?_, ?_⟩
  . rw [← (ofTex_isOk_iff _ rfl _ node hnode).1]
    rintro ⟨image, himage⟩
    simp [himage, Except.toOption] at hstrict
  . exact (ofTex_isOk_iff _ rfl _ node hnode).1.1 (exists_of_isSome hlenient)

end Typst
end MathMarkup
