import MathMarkup.Proofs.Symbol
import MathMarkup.Proofs.Tex.Parsed
import MathMarkup.Typst.Formula.OfTex

/-!
This module contains what the conversion from TeX does with the commands, delimiters and controls
that the parser lets through: the tables of the parser and those of the conversion agree, so every
command falls under one of a few rules and no delimiter or control is left over.
-/

namespace MathMarkup
namespace Typst

open OfTex Formula

variable {options : Options}

/--
What the conversion makes of a command with these arguments: a call by another name, or one of four
constructions that Typst has no name for.
-/
inductive Applied (options : Options)
    : (args : List Tex.Formula) → (result : Except ConvertError Formula) → Prop where
  | call {mapped : String} (hmapped : mapped ≠ "#h") (args : List Tex.Formula)
    : Applied options args (do
        let args ← eachOfTex options args
        return .plainCall mapped args)
  | fraction (num den : Tex.Formula)
    : Applied options [num, den] (do
        let num ← ofTex options num
        let den ← ofTex options den
        return .frac num den)
  | bold (body : Tex.Formula)
    : Applied options [body] (do
        let body ← ofTex options body
        return .plainCall "upright" [.plainCall "bold" [body]])
  | above (top base : Tex.Formula)
    : Applied options [top, base] (do
        let base ← ofTex options base
        let top ← ofTex options top
        return .attach (.plainCall "limits" [base]) none (some top))
  | below (bottom base : Tex.Formula)
    : Applied options [bottom, base] (do
        let base ← ofTex options base
        let bottom ← ofTex options bottom
        return .attach (.plainCall "limits" [base]) (some bottom) none)

/--
The number of arguments that a rule of the conversion asks for, or the name that takes any number.
-/
def Head.Suits (name : String) (arity : Symbol.Arity) : Head → Bool
  | .fraction | .binomial | .above | .below => arity == .two
  | .root | .bold => arity == .one
  | .blackboard | .roman | .other => (Symbol.toTypst? name).any (· != "#h")
  | .text | .operator | .limitsOperator | .hspace => false

theorem suits_of_mem_arities : ∀ entry ∈ Symbol.arities, entry.1 ∉ Tex.textualCommands →
    Head.Suits entry.1 entry.2 (Head.ofName entry.1) := by
  decide +kernel

theorem eachOfTex_one (options : Options) (arg : Tex.Formula) (build : List Formula → Formula)
    : (do let args ← eachOfTex options [arg]; return build args) =
      (do let image ← ofTex options arg; return build [image]) := by
  rw [eachOfTex]
  cases ofTex options arg with
  | error e => rfl
  | ok image => rfl

theorem eachOfTex_two (options : Options) (first second : Tex.Formula)
    (build : List Formula → Formula)
    : (do let args ← eachOfTex options [first, second]; return build args) =
      (do
        let image ← ofTex options first
        let other ← ofTex options second
        return build [image, other]) := by
  rw [eachOfTex, eachOfTex]
  cases ofTex options first with
  | error e => rfl
  | ok image =>
    cases ofTex options second with
    | error e => rfl
    | ok other => rfl

theorem applied_call_one {mapped : String} (hmapped : mapped ≠ "#h") (arg : Tex.Formula)
    : Applied options [arg] (do
        let image ← ofTex options arg
        return .plainCall mapped [image]) :=
  eachOfTex_one options arg (.plainCall mapped) ▸ .call hmapped [arg]

theorem applied_call_two {mapped : String} (hmapped : mapped ≠ "#h") (first second : Tex.Formula)
    : Applied options [first, second] (do
        let image ← ofTex options first
        let other ← ofTex options second
        return .plainCall mapped [image, other]) :=
  eachOfTex_two options first second (.plainCall mapped) ▸ .call hmapped [first, second]

theorem applied_byName {name : String} (hname : (Symbol.toTypst? name).any (· != "#h"))
    (args : List Tex.Formula)
    : Applied options args (do
        let args ← eachOfTex options args
        byName options name args) := by
  unfold byName
  cases hmapped : Symbol.toTypst? name with
  | none => simp [hmapped] at hname
  | some mapped => exact .call (by simpa [hmapped] using hname) args

section Arguments

variable {p : Tex.Formula → Prop} {arity : Symbol.Arity} {args : List Tex.Formula}

theorem exists_two (hlength : args.length = arity.toNat) (hargs : ∀ arg ∈ args, p arg)
    (h : arity == .two) : ∃ first second, args = [first, second] ∧ p first ∧ p second := by
  cases eq_of_beq h
  obtain ⟨first, second, rfl⟩ := List.length_eq_two.1 hlength
  exact ⟨first, second, rfl, hargs first (by simp), hargs second (by simp)⟩

theorem exists_one (hlength : args.length = arity.toNat) (hargs : ∀ arg ∈ args, p arg)
    (h : arity == .one) : ∃ arg, args = [arg] ∧ p arg := by
  cases eq_of_beq h
  obtain ⟨arg, rfl⟩ := List.length_eq_one_iff.1 hlength
  exact ⟨arg, rfl, hargs arg (by simp)⟩

end Arguments

theorem applied_func (hoptimize : options.optimize = false) {name : String} {arity : Symbol.Arity}
    {args : List Tex.Formula} (hname : name ∉ Tex.textualCommands)
    (harity : Symbol.arity? name = some arity) (hlength : args.length = arity.toNat)
    : Applied options args (ofTex options (.func name args none)) := by
  have hsuits := suits_of_mem_arities _ (Symbol.mem_of_lookup harity) hname
  have htwo := exists_two hlength fun _ _ => trivial
  have hone := exists_one hlength fun _ _ => trivial
  unfold ofTex
  generalize Head.ofName name = head at hsuits
  cases head with
  | fraction =>
    obtain ⟨num, den, rfl, -⟩ := htwo hsuits
    cases hslash : options.fracToSlash with
    | true => exact .fraction num den
    | false => exact applied_call_two (by decide) num den
  | binomial =>
    obtain ⟨n, k, rfl, -⟩ := htwo hsuits
    exact applied_call_two (by decide) n k
  | root =>
    obtain ⟨radicand, rfl, -⟩ := hone hsuits
    exact applied_call_one (by decide) radicand
  | bold =>
    obtain ⟨body, rfl, -⟩ := hone hsuits
    exact .bold body
  | above =>
    obtain ⟨top, base, rfl, -⟩ := htwo hsuits
    simp only [hoptimize, Bool.false_and]
    exact .above top base
  | below =>
    obtain ⟨bottom, base, rfl, -⟩ := htwo hsuits
    exact .below bottom base
  | blackboard | roman =>
    -- A letter is converted at once; with `optimize` off this is what happens to all arguments.
    dsimp only
    split
    all_goals first | contradiction | skip
    . rw [hoptimize]
      exact applied_byName hsuits [.element _]
    . exact applied_byName hsuits _
  | other =>
    exact applied_byName hsuits args
  | text | operator | limitsOperator | hspace => contradiction

theorem braces_by_name : ∀ name ∈ ["overbrace", "underbrace"],
    Symbol.toTypst? name = some name ∧ Head.ofName name = .other := by
  decide +kernel

theorem ofTex_brace {name : String} (hname : name ∈ ["overbrace", "underbrace"])
    (body : Tex.Formula) (degree : Option Tex.Formula)
    : ofTex options (.func name [body] degree) =
      (do let image ← ofTex options body; return .plainCall name [image]) := by
  obtain ⟨hmapped, hhead⟩ := braces_by_name name hname
  rw [← eachOfTex_one options body (.plainCall name)]
  unfold ofTex
  simp only [hhead, byName, hmapped]
  rfl

theorem control_of_mem : ∀ text ∈ Tex.controls, Script.ofMarker? text = none →
    text ∉ ["\x7b", "\x7d"] → (OfTex.control text).toOption.isSome := by
  decide +kernel

theorem delimiter_of_mem_elements : ∀ text ∈ Tex.elementDelimiters, text ≠ "." →
    (OfTex.delimiter text).toOption.isSome := by
  decide +kernel

theorem delimiter_of_mem_commands {name : String} (h : name ∈ Tex.commandDelimiters)
    : (OfTex.delimiter ("\\" ++ name)).toOption.isSome := by
  have hlisted : ∀ name ∈ Tex.commandDelimiters,
      name ∈ (Symbol.arrows ++ Symbol.miscellaneous ++ Symbol.delimiters).map Prod.fst := by
    decide +kernel
  have hmem : name ∈ Symbol.pairs.map Prod.fst := by
    have hname := hlisted name h
    simp only [Symbol.pairs, List.map_append, List.mem_append] at hname ⊢
    tauto
  obtain ⟨mapped, hmapped⟩ := Symbol.exists_toTypst? hmem
  have hletters : ("\\" ++ name).toList = '\\' :: name.toList := by simp
  unfold OfTex.delimiter
  split
  all_goals first | rfl | skip
  simp only [hletters, String.ofList_toList, hmapped]
  rfl

theorem exists_delimiter {delim : String}
    (h : Tex.Fence (fun token => Tex.Spelled token.lexeme) delim)
    : ∃ mapped, OfTex.delimiter delim = .ok mapped := by
  obtain ⟨token, hspelled, hdelimiter, rfl, hpoint⟩ := h
  apply exists_of_isSome
  unfold Tex.Token.isDelimiter at hdelimiter
  split at hdelimiter
  . exact delimiter_of_mem_elements _ (List.contains_iff_mem.1 hdelimiter) hpoint
  next hkind =>
    have htext := delimiter_of_mem_commands (List.contains_iff_mem.1 hdelimiter)
    rwa [Tex.backslash_append_name hspelled hkind] at htext
  . contradiction

theorem exists_delimiter? {delim : Option String}
    (h : ∀ text ∈ delim, Tex.Fence (fun token => Tex.Spelled token.lexeme) text)
    : ∃ mapped, OfTex.delimiter? delim = .ok mapped := by
  cases delim with
  | none => exact ⟨none, rfl⟩
  | some delim =>
    obtain ⟨mapped, hmapped⟩ := exists_delimiter (h delim rfl)
    exact ⟨some mapped, by simp only [OfTex.delimiter?, hmapped]; rfl⟩

end Typst
end MathMarkup
