import MathMarkup.Proofs.Tex.Parsed

/-!
This module contains the invariants of the formulas that are read. They are said by a function that
checks a formula node by node, so they can be evaluated as well as reasoned about; that every
formula that is read passes the check follows from the shape in which the parser builds it.
-/

namespace MathMarkup
namespace Tex

/--
Whether a text is a visible delimiter, as an element or as a command.
-/
def isFence (delim : String) : Bool :=
  delim != "." &&
    [Kind.element, Kind.command].any fun kind => Token.isDelimiter ⟨kind, delim, .detached⟩

namespace Formula

def isText : Formula → Bool
  | .text _ => true
  | _ => false

/--
Whether a command has as many arguments as the table says. The starred operator is not in the table
and has one.
-/
def hasArity (name : String) (args : List Formula) : Bool :=
  if name == "operatorname*" then
    args.length == 1
  else
    (Symbol.arity? name).any (·.toNat == args.length)

/--
Whether a superscript may be a group of these nodes. The marks of primes are a group even if there
is one of them only.
-/
def isSuperscriptGroup (nodes : List Formula) : Bool :=
  2 ≤ nodes.length || (nodes.length == 1 && nodes.all isPrime)

mutual

/--
Whether the formula and all formulas within it have the form in which formulas are read. Separators
may be nodes in an environment only, where `inEnv` is set.
-/
def wellFormed (inEnv : Bool) : Formula → Bool
  | .control s => inEnv || !(["&", "\\\\"].contains s)
  | .symbol name => (Symbol.toTypst? name).isSome && (Symbol.arity? name).isNone
  | .group nodes => 2 ≤ nodes.length && eachWellFormed inEnv nodes
  | .attach base sub sup =>
    (sub.isSome || sup.isSome) && base.wellFormed inEnv && optionWellFormed inEnv sub &&
      superscriptWellFormed inEnv sup
  | .func name args degree =>
    hasArity name args && (!textualCommands.contains name || args.all isText) &&
      (degree.isNone || name == "sqrt") && eachWellFormed inEnv args &&
      optionWellFormed inEnv degree
  | .leftRight left body right => left.all isFence && right.all isFence && body.wellFormed inEnv
  | .env name spec rows =>
    !rows.isEmpty && rows.all (!·.isEmpty) && (spec.isNone || name == "array") &&
      rowsWellFormed rows
  | _ => true

def eachWellFormed (inEnv : Bool) : List Formula → Bool
  | [] => true
  | node :: nodes => node.wellFormed inEnv && eachWellFormed inEnv nodes

def rowsWellFormed : List (List Formula) → Bool
  | [] => true
  | row :: rows => eachWellFormed true row && rowsWellFormed rows

def optionWellFormed (inEnv : Bool) : Option Formula → Bool
  | none => true
  | some node => node.wellFormed inEnv

def superscriptWellFormed (inEnv : Bool) : Option Formula → Bool
  | none => true
  | some (.group nodes) => isSuperscriptGroup nodes && eachWellFormed inEnv nodes
  | some node => node.wellFormed inEnv

end

section Lists

variable {inEnv : Bool} {node : Formula} {nodes : List Formula}

theorem eachWellFormed_iff
    : eachWellFormed inEnv nodes ↔ ∀ node ∈ nodes, node.wellFormed inEnv := by
  induction nodes with
  | nil => simp [eachWellFormed]
  | cons node nodes ih => simp [eachWellFormed, ih]

theorem rowsWellFormed_iff {rows : List (List Formula)}
    : rowsWellFormed rows ↔ ∀ row ∈ rows, ∀ cell ∈ row, cell.wellFormed true := by
  induction rows with
  | nil => simp [rowsWellFormed]
  | cons row rows ih => simp [rowsWellFormed, ih, eachWellFormed_iff]

theorem optionWellFormed_iff {node : Option Formula}
    : optionWellFormed inEnv node ↔ ∀ formula ∈ node, formula.wellFormed inEnv := by
  cases node with
  | none => simp [optionWellFormed]
  | some node => simp [optionWellFormed]

theorem superscriptWellFormed_some (h : node.wellFormed inEnv)
    : superscriptWellFormed inEnv (some node) := by
  cases node with
  | group nodes =>
    rw [wellFormed, Bool.and_eq_true] at h
    rw [superscriptWellFormed, isSuperscriptGroup, h.1, h.2]
    rfl
  | _ => exact h

theorem superscriptWellFormed_superscript {found : Scripts Formula}
    (h : ∀ node ∈ found.sup, node.wellFormed inEnv)
    : superscriptWellFormed inEnv (found.superscript (.element "'") .group) := by
  unfold Scripts.superscript
  split
  next =>
    cases hsup : found.sup with
    | none => rfl
    | some node => exact superscriptWellFormed_some (h node hsup)
  next hprimes =>
    rw [superscriptWellFormed, Bool.and_eq_true]
    constructor
    . cases hsup : found.sup with
      | none =>
        simp only [isSuperscriptGroup, Option.toList_none, List.append_nil, List.length_replicate,
          List.all_replicate, hprimes, if_false, Bool.or_eq_true, decide_eq_true_eq,
          Bool.and_eq_true, beq_iff_eq]
        have : isPrime (.element "'") := rfl
        simp only [this, and_true]
        omega
      | some node =>
        simp only [isSuperscriptGroup, Option.toList_some, List.length_append,
          List.length_replicate, List.length_singleton, Bool.or_eq_true, decide_eq_true_eq]
        omega
    . rw [eachWellFormed_iff]
      intro node hnode
      cases List.mem_append.mp hnode with
      | inl hmark =>
        cases List.eq_of_mem_replicate hmark
        rfl
      | inr hsup => exact h node (Option.mem_toList.mp hsup)

end Lists

end Formula

open Formula

theorem isFence_of_fence {p : Token → Prop} {delim : String} (h : Fence p delim)
    : isFence delim := by
  obtain ⟨token, -, hdelimiter, rfl, hpoint⟩ := h
  unfold isFence
  rw [Bool.and_eq_true, bne_iff_ne]
  refine ⟨hpoint, ?_⟩
  rw [List.any_cons, List.any_cons, List.any_nil, Bool.or_false, Bool.or_eq_true]
  unfold Token.isDelimiter at hdelimiter
  split at hdelimiter
  next => exact .inl hdelimiter
  next => exact .inr hdelimiter
  next => contradiction

theorem all_isFence {p : Token → Prop} {delim : Option String} (h : ∀ text ∈ delim, Fence p text)
    : delim.all isFence := by
  cases delim with
  | none => rfl
  | some delim => exact isFence_of_fence (h delim rfl)

theorem arity_of_textual : ∀ name ∈ textualCommands, name ≠ "operatorname*" →
    Symbol.arity? name = some .one := by
  decide +kernel

theorem arity_operatorname_star : Symbol.arity? "operatorname*" = none :=
  rfl

theorem wellFormed_raw {inEnv : Bool} {name : String} (hname : name ∈ textualCommands)
    (s : String) : (Formula.func name [.text s] none).wellFormed inEnv := by
  have harity : hasArity name [.text s] := by
    unfold hasArity
    split
    next => rfl
    next hstar =>
      rw [arity_of_textual name hname (by simpa using hstar)]
      rfl
  simp [Formula.wellFormed, harity, isText, eachWellFormed, optionWellFormed]

theorem wellFormed_func {inEnv : Bool} {name : String} {arity : Symbol.Arity}
    {args : List Formula} {degree : Option Formula} (hname : name ∉ textualCommands)
    (harity : Symbol.arity? name = some arity) (hlength : args.length = arity.toNat)
    (hdegree : degree.isSome → name = "sqrt") (hargs : ∀ arg ∈ args, arg.wellFormed inEnv)
    (hdegrees : ∀ node ∈ degree, node.wellFormed inEnv)
    : (Formula.func name args degree).wellFormed inEnv := by
  have hhas : hasArity name args := by
    unfold hasArity
    split
    next hstar =>
      rw [eq_of_beq hstar, arity_operatorname_star] at harity
      contradiction
    next => simp [harity, hlength]
  have hroot : degree.isNone || name == "sqrt" := by
    cases degree with
    | none => rfl
    | some node => simp [hdegree rfl]
  simp [Formula.wellFormed, hhas, hname, hroot, eachWellFormed_iff.mpr hargs,
    optionWellFormed_iff.mpr hdegrees]

theorem Parsed.wellFormed {p : Token → Prop} {inEnv : Bool} {formula : Formula}
    (h : Parsed p inEnv formula) : formula.wellFormed inEnv := by
  induction h with
  | element | text | comment | space | character | command | empty => rfl
  | control htoken hkind hscript htext => simp_all [Formula.wellFormed]
  | separator htext => rfl
  | symbol harity hname => simp [Formula.wellFormed, harity, hname]
  | raw hname text => exact wellFormed_raw hname text
  | func hname harity hlength hargs ih =>
    exact wellFormed_func hname harity hlength nofun ih nofun
  | root harg hdegree iharg ihdegree =>
    have hone : Symbol.arity? "sqrt" = some .one := rfl
    refine wellFormed_func (by decide) hone rfl (fun _ => rfl) ?_ ?_
    . simpa using iharg
    . simpa using ihdegree
  | group hlength hnodes ih => simp [Formula.wellFormed, hlength, eachWellFormed_iff.mpr ih]
  | attach hbase hsub hsup heq hsome ihbase ihsub ihsup =>
    subst heq
    simp only [Formula.wellFormed, Bool.and_eq_true, Bool.or_eq_true]
    exact ⟨⟨⟨hsome, ihbase⟩, optionWellFormed_iff.mpr ihsub⟩,
      superscriptWellFormed_superscript ihsup⟩
  | leftRight hleft hright hbody ih =>
    simp [Formula.wellFormed, all_isFence hleft, all_isFence hright, ih]
  | @env inEnv name spec rows hspec hrows hrow hcells ih =>
    have harray : spec.isNone || name == "array" := by
      cases spec with
      | none => rfl
      | some spec => simp [hspec rfl]
    simp only [Formula.wellFormed, Bool.and_eq_true]
    refine ⟨⟨⟨by simp [hrows], ?_⟩, harray⟩, rowsWellFormed_iff.mpr ih⟩
    simpa using hrow

/--
Every formula that is read is well-formed: scripts, groups, commands, symbols, delimiters and
environments have the form that the check asks for, and separators stand in environments only.
-/
theorem wellFormed_of_parse {tokens : List Token} {formula : Formula}
    (h : parse tokens = .ok formula) : formula.wellFormed false :=
  (yields_parse (p := fun _ => True) (fun _ _ => trivial) formula h).wellFormed

theorem wellFormed_of_parse_root
    : ∃ formula, parse (tokenize "\\sqrt[n]\x7bf'\x7d\\left(\\alpha\\right.") = .ok formula ∧
      formula.wellFormed false := by
  have hrun : (parse (tokenize
      "\\sqrt[n]\x7bf'\x7d\\left(\\alpha\\right.")).toOption.isSome := by
    decide +kernel
  obtain ⟨formula, hformula⟩ := Option.isSome_iff_exists.mp hrun
  have hparse := eq_ok_of_toOption hformula
  exact ⟨formula, hparse, wellFormed_of_parse hparse⟩

end Tex
end MathMarkup
