import Mathlib.Data.List.Forall2
import MathMarkup.Proofs.Typst.WithoutSpaces
import MathMarkup.Tex.Formula.OfTypst

/-!
This module contains what the conversion from Typst sees of a formula within another one. Formulas
that look alike to it may take each other's place, and spaces do not count.
-/

namespace MathMarkup

def Typst.Formula.isOrdinary : Typst.Formula → Bool
  | .text _ => false
  | .call name _ _ => name != "bold" && name != "limits"
  | _ => true

namespace Tex
namespace Formula

open OfTypst

/--
Both formulas are converted in the same way.
-/
abbrev SameResult (options : Options) (node other : Typst.Formula) : Prop :=
  ofTypst options node = ofTypst options other

/--
Both formulas are the same to the rules that look into a formula.
-/
inductive Peers (options : Options) : Typst.Formula → Typst.Formula → Prop where
  | text (s : String) : Peers options (.text s) (.text s)
  | bold {args others : List Typst.Formula} {named : List (String × Typst.Formula)}
    (h : List.Forall₂ (SameResult options) args others) :
    Peers options (.call "bold" args named) (.call "bold" others named)
  | limits {args others : List Typst.Formula} {named : List (String × Typst.Formula)}
    (h : List.Forall₂ (SameResult options) args others) :
    Peers options (.call "limits" args named) (.call "limits" others named)
  | ordinary {node other : Typst.Formula} (hnode : node.isOrdinary) (hother : other.isOrdinary) :
    Peers options node other

/--
Both formulas may take each other's place.
-/
structure Alike (options : Options) (node other : Typst.Formula) : Prop where
  peers : Peers options node other
  result : SameResult options node other
  isTall : node.isTall = other.isTall

section Congruence

variable {options : Options} {name : String} {node other arg base : Typst.Formula}
  {nodes args others : List Typst.Formula} {named : List (String × Typst.Formula)}
  {sub sup below above : Option Typst.Formula}

theorem ne_text_of_isOrdinary (h : node.isOrdinary) (s : String) : node ≠ .text s := by
  rintro rfl
  contradiction

theorem ne_call_of_isOrdinary (h : node.isOrdinary) (hname : name ∈ ["bold", "limits"])
    (args : List Typst.Formula) (named : List (String × Typst.Formula))
    : node ≠ .call name args named := by
  rintro rfl
  simp only [List.mem_cons, List.not_mem_nil, or_false] at hname
  rcases hname with rfl | rfl
  all_goals contradiction

theorem eachOfTypst_congr (h : List.Forall₂ (SameResult options) nodes others)
    : eachOfTypst options nodes = eachOfTypst options others := by
  induction h with
  | nil => rfl
  | cons hnode _ ih =>
    rw [eachOfTypst, eachOfTypst, ih, hnode]

theorem anyTall_congr (h : List.Forall₂ (fun node other => node.isTall = other.isTall) nodes others)
    : Typst.Formula.anyTall nodes = Typst.Formula.anyTall others := by
  induction h with
  | nil => rfl
  | cons hnode _ ih => rw [Typst.Formula.anyTall, Typst.Formula.anyTall, ih, hnode]

theorem ofTypst_attach_ordinary (hlimits : ∀ args, base ≠ .call "limits" args [])
    (htext : base ≠ .text "")
    : ofTypst options (.attach base sub sup) = (do
        let sub ← optionOfTypst options sub
        let sup ← optionOfTypst options sup
        let base ← ofTypst options base
        return .attach base sub sup) := by
  rw [ofTypst.eq_def]
  dsimp only
  split
  next args => exact absurd rfl (hlimits args)
  . exact absurd rfl htext
  . rfl

theorem ofTypst_attach_congr (hbase : Alike options base other)
    (hsub : optionOfTypst options sub = optionOfTypst options below)
    (hsup : optionOfTypst options sup = optionOfTypst options above)
    : ofTypst options (.attach base sub sup) = ofTypst options (.attach other below above) := by
  obtain ⟨hpeers, hresult, _⟩ := hbase
  have hordinary (hbase : ∀ args, base ≠ .call "limits" args []) (hbaseText : base ≠ .text "")
      (hother : ∀ args, other ≠ .call "limits" args []) (hotherText : other ≠ .text "")
      : ofTypst options (.attach base sub sup) = ofTypst options (.attach other below above) := by
    rw [ofTypst_attach_ordinary hbase hbaseText, ofTypst_attach_ordinary hother hotherText, hsub,
      hsup, hresult]
  cases hpeers with
  | text s =>
    rw [ofTypst.eq_def, ofTypst.eq_def]
    simp only [hsub, hsup]
  | bold h => exact hordinary (by simp) (by simp) (by simp) (by simp)
  | @limits args others named h =>
    cases named with
    | cons => exact hordinary (by simp) (by simp) (by simp) (by simp)
    | nil =>
      rw [ofTypst.eq_def, ofTypst.eq_def _ (.attach _ below above)]
      simp only [hsub, hsup]
      cases h with
      | nil => rfl
      | cons hbody h =>
        cases h with
        | nil => simp only [hbody]
        | cons => rfl
  | ordinary hbase hother =>
    have hlimits : "limits" ∈ ["bold", "limits"] := by decide
    exact hordinary (ne_call_of_isOrdinary hbase hlimits · []) (ne_text_of_isOrdinary hbase "")
      (ne_call_of_isOrdinary hother hlimits · []) (ne_text_of_isOrdinary hother "")

theorem ofName_ne_hspace (h : name ≠ "#h") : Head.ofName name ≠ .hspace := by
  unfold Head.ofName
  split
  all_goals simp_all

theorem ofTypst_call_ordinary (hname : Head.ofName name ≠ .hspace) (htext : ∀ s, arg ≠ .text s)
    (hbold : ∀ body, arg ≠ .call "bold" [body] [])
    : ofTypst options (.call name [arg] []) =
      (match Head.ofName name with
        | .squareRoot => do
          let radicand ← ofTypst options arg
          return .call "sqrt" [radicand]
        | .fence left right => do
          let inner ← ofTypst options arg
          return enclose left right arg.isTall inner
        | .transparent => ofTypst options arg
        | _ => do
          let args ← eachOfTypst options [arg]
          byName options name args) := by
  rw [ofTypst.eq_def]
  dsimp only
  generalize Head.ofName name = head at hname
  cases head with
  | hspace => contradiction
  | squareRoot | fence | transparent => rfl
  | _ =>
    dsimp only
    split
    all_goals simp_all

theorem ofTypst_call_one_congr (hname : Head.ofName name ≠ .hspace) (h : Alike options arg other)
    : ofTypst options (.call name [arg] []) = ofTypst options (.call name [other] []) := by
  obtain ⟨hpeers, hresult, htall⟩ := h
  have hordinary (harg : ∀ s, arg ≠ .text s) (hargBold : ∀ body, arg ≠ .call "bold" [body] [])
      (hother : ∀ s, other ≠ .text s) (hotherBold : ∀ body, other ≠ .call "bold" [body] [])
      : ofTypst options (.call name [arg] []) = ofTypst options (.call name [other] []) := by
    rw [ofTypst_call_ordinary hname harg hargBold, ofTypst_call_ordinary hname hother hotherBold,
      htall, hresult, eachOfTypst_congr (.cons hresult .nil)]
  cases hpeers with
  | text => rfl
  | limits => exact hordinary (by simp) (by simp) (by simp) (by simp)
  | ordinary harg hother =>
    have hbold : "bold" ∈ ["bold", "limits"] := by decide
    exact hordinary (ne_text_of_isOrdinary harg) (fun body => ne_call_of_isOrdinary harg hbold _ [])
      (ne_text_of_isOrdinary hother) fun body => ne_call_of_isOrdinary hother hbold _ []
  | @bold args others named h =>
    cases named with
    | cons => exact hordinary (by simp) (by simp) (by simp) (by simp)
    | nil =>
      cases h with
      | nil => rfl
      | cons hbody h =>
        cases h with
        | cons => exact hordinary (by simp) (by simp) (by simp) (by simp)
        | nil =>
          -- Only upright type looks into its argument here.
          rw [ofTypst.eq_def, ofTypst.eq_def _ (.call name _ _)]
          dsimp only
          generalize Head.ofName name = head at hname
          cases head with
          | hspace => contradiction
          | upright => simp only [hbody]
          | fence => simp only [hresult, htall]
          | _ => simp only [hresult, eachOfTypst]

theorem ofTypst_call_named {key : String} {value : Typst.Formula} (h : ∀ s, args ≠ [.text s])
    : ofTypst options (.call name args [(key, value)]) =
      if options.nonStrict then
        eachOfTypst options args >>= byName options name
      else
        .error (namedArgument name key) := by
  rw [ofTypst.eq_def]
  dsimp only
  split
  next s => exact absurd rfl (h s)
  . rfl

theorem ofTypst_call_congr (hname : name ≠ "#h") (h : List.Forall₂ (Alike options) args others)
    : ofTypst options (.call name args named) = ofTypst options (.call name others named) := by
  have heach := eachOfTypst_congr (h.imp fun _ _ halike => halike.result)
  match named with
  | [] =>
    cases h with
    | nil => rfl
    | cons hfirst h =>
      cases h with
      | nil => exact ofTypst_call_one_congr (ofName_ne_hspace hname) hfirst
      | cons hsecond h =>
        rw [ofTypst.eq_def, ofTypst.eq_def _ (.call name _ _)]
        dsimp only
        generalize Head.ofName name = head
        cases h with
        | nil =>
          cases head
          all_goals simp only [hfirst.result, hsecond.result, heach]
        | cons =>
          cases head
          all_goals simp only [heach]
  | [(key, value)] =>
    have hnamed (hargs : ∀ s, args ≠ [.text s]) (hothers : ∀ s, others ≠ [.text s])
        : ofTypst options (.call name args [(key, value)]) =
          ofTypst options (.call name others [(key, value)]) := by
      rw [ofTypst_call_named hargs, ofTypst_call_named hothers, heach]
    cases h with
    | nil => rfl
    | cons hfirst h =>
      cases h with
      | cons => exact hnamed (by simp) (by simp)
      | nil =>
        cases hfirst.peers with
        | text => rfl
        | bold | limits => exact hnamed (by simp) (by simp)
        | ordinary harg hother =>
          exact hnamed (by simpa using ne_text_of_isOrdinary harg)
            (by simpa using ne_text_of_isOrdinary hother)
  | _ :: _ :: _ =>
    rw [ofTypst.eq_def, ofTypst.eq_def _ (.call name others _)]
    simp only [heach]

theorem peers_call (h : List.Forall₂ (SameResult options) args others)
    : Peers options (.call name args named) (.call name others named) := by
  by_cases hbold : name = "bold"
  . subst hbold
    exact .bold h
  . by_cases hlimits : name = "limits"
    . subst hlimits
      exact .limits h
    . have hordinary : ∀ args, (Typst.Formula.call name args named).isOrdinary := by
        simp [Typst.Formula.isOrdinary, hbold, hlimits]
      exact .ordinary (hordinary args) (hordinary others)

theorem alike_call (hname : name ≠ "#h") (h : List.Forall₂ (Alike options) args others)
    : Alike options (.call name args named) (.call name others named) := by
  refine ⟨peers_call (h.imp fun _ _ halike => halike.result), ofTypst_call_congr hname h, ?_⟩
  rw [Typst.Formula.isTall, Typst.Formula.isTall,
    anyTall_congr (h.imp fun _ _ halike => halike.isTall)]

end Congruence

section Spaces

variable {options : Options} {node : Typst.Formula} {nodes : List Typst.Formula}

open Typst.Formula (Tidy Trimmed)

theorem isTall_ofList (nodes : List Typst.Formula)
    : (Typst.Formula.ofList nodes).isTall = Typst.Formula.anyTall nodes := by
  match nodes with
  | [] => rfl
  | [node] =>
    rw [Typst.Formula.anyTall, Typst.Formula.anyTall, Bool.or_false]
    rfl
  | _ :: _ :: _ => rfl

mutual

theorem isTall_withoutSpaces (node : Typst.Formula) : node.withoutSpaces.isTall = node.isTall := by
  cases node with
  | group nodes =>
    rw [Typst.Formula.withoutSpaces, Typst.Formula.isTall]
    split
    . rw [isTall_ofList, anyTall_dropSpaces]
    . rw [Typst.Formula.isTall, anyTall_dropSpaces]
  | parens nodes =>
    rw [Typst.Formula.withoutSpaces, Typst.Formula.isTall, Typst.Formula.isTall, anyTall_dropSpaces]
  | attach base sub sup =>
    rw [Typst.Formula.withoutSpaces, Typst.Formula.isTall, Typst.Formula.isTall,
      isTall_withoutSpaces, optionTall_withoutSpaces, optionTall_withoutSpaces]
  | call name args named =>
    rw [Typst.Formula.withoutSpaces, Typst.Formula.isTall, Typst.Formula.isTall,
      anyTall_withoutSpaces]
  | leftRight left body right =>
    rw [Typst.Formula.withoutSpaces, Typst.Formula.isTall, Typst.Formula.isTall,
      isTall_withoutSpaces]
  | _ => simp only [Typst.Formula.withoutSpaces, Typst.Formula.isTall]

theorem anyTall_withoutSpaces (nodes : List Typst.Formula)
    : Typst.Formula.anyTall (Typst.Formula.eachWithoutSpaces nodes) =
      Typst.Formula.anyTall nodes := by
  cases nodes with
  | nil => rw [Typst.Formula.eachWithoutSpaces]
  | cons node nodes =>
    rw [Typst.Formula.eachWithoutSpaces, Typst.Formula.anyTall, Typst.Formula.anyTall,
      isTall_withoutSpaces, anyTall_withoutSpaces]

theorem anyTall_dropSpaces (nodes : List Typst.Formula)
    : Typst.Formula.anyTall (Typst.Formula.dropSpaces nodes) = Typst.Formula.anyTall nodes := by
  cases nodes with
  | nil => rw [Typst.Formula.dropSpaces]
  | cons node nodes =>
    rw [Typst.Formula.dropSpaces, Typst.Formula.anyTall]
    split
    next hspace =>
      cases node with
      | space s => exact anyTall_dropSpaces nodes
      | _ => contradiction
    . rw [Typst.Formula.anyTall, isTall_withoutSpaces, anyTall_dropSpaces]

theorem optionTall_withoutSpaces (node : Option Typst.Formula)
    : Typst.Formula.optionTall (Typst.Formula.optionWithoutSpaces node) =
      Typst.Formula.optionTall node := by
  cases node with
  | none => rw [Typst.Formula.optionWithoutSpaces]
  | some node =>
    rw [Typst.Formula.optionWithoutSpaces, Typst.Formula.optionTall, Typst.Formula.optionTall,
      isTall_withoutSpaces]

end

/--
Convert formulas side by side and drop those that are empty.
-/
def nonemptyOfTypst (options : Options) (nodes : List Typst.Formula)
    : Except ConvertError (List Formula) := do
  let nodes ← eachOfTypst options nodes
  return nodes.filter fun node => !node.isEmpty

theorem ofTypst_group (nodes : List Typst.Formula)
    : ofTypst options (.group nodes) = (do return .ofList (← nonemptyOfTypst options nodes)) := by
  change eachOfTypst options nodes >>= _ = _
  rw [nonemptyOfTypst]
  cases eachOfTypst options nodes
  all_goals rfl

theorem ofTypst_parens (nodes : List Typst.Formula)
    : ofTypst options (.parens nodes) = (do
        return enclose "(" ")" (Typst.Formula.anyTall nodes)
          (.ofList (← nonemptyOfTypst options nodes))) := by
  change eachOfTypst options nodes >>= _ = _
  rw [nonemptyOfTypst]
  cases eachOfTypst options nodes
  all_goals rfl

theorem ofTypst_ofList (nodes : List Typst.Formula)
    : ofTypst options (.ofList nodes) = ofTypst options (.group nodes) := by
  match nodes with
  | [] => rfl
  | [node] =>
    change ofTypst options node = _
    rw [ofTypst_group, nonemptyOfTypst, eachOfTypst, eachOfTypst]
    cases ofTypst options node with
    | error e => rfl
    | ok result =>
      cases result
      all_goals rfl
  | _ :: _ :: _ => rfl

theorem nonemptyOfTypst_cons (node : Typst.Formula) (nodes : List Typst.Formula)
    : nonemptyOfTypst options (node :: nodes) = (do
        let node ← ofTypst options node
        let nodes ← nonemptyOfTypst options nodes
        return if node.isEmpty then nodes else node :: nodes) := by
  simp only [nonemptyOfTypst, eachOfTypst]
  cases ofTypst options node with
  | error e => rfl
  | ok result =>
    cases eachOfTypst options nodes with
    | error e => rfl
    | ok results =>
      cases hempty : result.isEmpty
      all_goals simp [bind, Except.bind, pure, Except.pure, hempty]

theorem nonemptyOfTypst_dropSpaces (h : ∀ node ∈ nodes, SameResult options node node.withoutSpaces)
    : nonemptyOfTypst options (Typst.Formula.dropSpaces nodes) = nonemptyOfTypst options nodes := by
  induction nodes with
  | nil => rw [Typst.Formula.dropSpaces]
  | cons node nodes ih =>
    rw [List.forall_mem_cons] at h
    rw [Typst.Formula.dropSpaces, nonemptyOfTypst_cons]
    split
    next hspace =>
      cases node with
      | space s =>
        rw [ih h.2]
        change _ = nonemptyOfTypst options nodes >>= pure
        rw [bind_pure]
      | _ => contradiction
    . rw [nonemptyOfTypst_cons, ih h.2, h.1]

theorem forall₂_eachWithoutSpaces {r : Typst.Formula → Typst.Formula → Prop}
    (h : ∀ node ∈ nodes, r node node.withoutSpaces)
    : List.Forall₂ r nodes (Typst.Formula.eachWithoutSpaces nodes) := by
  rw [Typst.Formula.eachWithoutSpaces_eq, List.forall₂_map_right_iff, List.forall₂_same]
  exact h

theorem rowsOfTypst_withoutSpaces {rows : List (List Typst.Formula)}
    (h : ∀ row ∈ rows, ∀ cell ∈ row, SameResult options cell cell.withoutSpaces)
    : rowsOfTypst options rows = rowsOfTypst options (Typst.Formula.rowsWithoutSpaces rows) := by
  induction rows with
  | nil => rw [Typst.Formula.rowsWithoutSpaces]
  | cons row rows ih =>
    rw [List.forall_mem_cons] at h
    rw [Typst.Formula.rowsWithoutSpaces, rowsOfTypst, rowsOfTypst, ih h.2,
      eachOfTypst_congr (forall₂_eachWithoutSpaces h.1)]

theorem optionOfTypst_withoutSpaces {node : Option Typst.Formula}
    (h : ∀ some ∈ node, SameResult options some some.withoutSpaces)
    : optionOfTypst options node =
      optionOfTypst options (Typst.Formula.optionWithoutSpaces node) := by
  cases node with
  | none => rw [Typst.Formula.optionWithoutSpaces]
  | some node => rw [Typst.Formula.optionWithoutSpaces, optionOfTypst, optionOfTypst, h node rfl]

/--
A tidy formula is converted as if there were no spaces in it. In its place it looks the same without
them, unless it is a group that is taken apart.
-/
theorem sameResult_withoutSpaces (h : Tidy node)
    : SameResult options node node.withoutSpaces ∧
      (Trimmed node → Peers options node node.withoutSpaces) := by
  induction h with
  | atom | symbol | nothing | empty | space =>
    unfold Typst.Formula.withoutSpaces
    exact ⟨rfl, fun _ => .ordinary rfl rfl⟩
  | text s =>
    unfold Typst.Formula.withoutSpaces
    exact ⟨rfl, fun _ => .text s⟩
  | @group nodes _ ih =>
    have hnodes := nonemptyOfTypst_dropSpaces fun node hnode => (ih node hnode).1
    refine ⟨?_, fun htrimmed => ?_⟩
    . rw [SameResult, Typst.Formula.withoutSpaces]
      split
      . rw [ofTypst_ofList, ofTypst_group, ofTypst_group, hnodes]
      . rw [ofTypst_group, ofTypst_group, hnodes]
    . obtain ⟨others, hgroup⟩ := htrimmed nodes rfl
      rw [hgroup]
      exact .ordinary rfl rfl
  | parens _ ih =>
    have hnodes := nonemptyOfTypst_dropSpaces fun node hnode => (ih node hnode).1
    rw [Typst.Formula.withoutSpaces]
    refine ⟨?_, fun _ => .ordinary rfl rfl⟩
    rw [SameResult, ofTypst_parens, ofTypst_parens, hnodes, anyTall_dropSpaces]
  | @attach base sub sup hbase htrimmed _ _ ihbase ihsub ihsup =>
    have hbase : Alike options base base.withoutSpaces :=
      ⟨ihbase.2 htrimmed, ihbase.1, (isTall_withoutSpaces base).symm⟩
    rw [Typst.Formula.withoutSpaces]
    refine ⟨?_, fun _ => .ordinary rfl rfl⟩
    exact ofTypst_attach_congr hbase
      (optionOfTypst_withoutSpaces fun node hnode => (ihsub node hnode).1)
      (optionOfTypst_withoutSpaces fun node hnode => (ihsup node hnode).1)
  | @call name args named hname _ htrimmed hnamed ih =>
    have hargs : List.Forall₂ (Alike options) args (Typst.Formula.eachWithoutSpaces args) :=
      forall₂_eachWithoutSpaces fun arg harg =>
        ⟨(ih arg harg).2 (htrimmed arg harg), (ih arg harg).1, (isTall_withoutSpaces arg).symm⟩
    have halike := @alike_call _ _ _ _ named hname hargs
    rw [Typst.Formula.withoutSpaces, hnamed]
    exact ⟨halike.result, fun _ => halike.peers⟩
  | frac _ _ ihnum ihden =>
    rw [Typst.Formula.withoutSpaces]
    refine ⟨?_, fun _ => .ordinary rfl rfl⟩
    rw [SameResult, ofTypst, ofTypst, ihnum.1, ihden.1]
  | leftRight _ ih =>
    rw [Typst.Formula.withoutSpaces]
    refine ⟨?_, fun _ => .ordinary rfl rfl⟩
    rw [SameResult, ofTypst, ofTypst, ih.1]
  | matrix _ hnamed ih | cases _ hnamed ih =>
    have hrows := rowsOfTypst_withoutSpaces fun row hrow cell hcell => (ih row hrow cell hcell).1
    rw [Typst.Formula.withoutSpaces, hnamed]
    refine ⟨?_, fun _ => .ordinary rfl rfl⟩
    rw [SameResult, ofTypst, ofTypst, hrows]

end Spaces

end Formula
end Tex
end MathMarkup
