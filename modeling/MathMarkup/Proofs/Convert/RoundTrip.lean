import MathMarkup.Proofs.Convert.Inverse
import MathMarkup.Proofs.Convert.OfTypst
import MathMarkup.Proofs.Tex.RoundTrip
import MathMarkup.Proofs.Typst.RoundTrip

/-!
This module contains the round trip of written formulas: what is written for a formula in the idioms
that both languages share is converted to Typst and back without a change.
-/

namespace MathMarkup

open Text

/--
The commands of one argument that are shared by both languages under a name of their own.
-/
def sharedCommands : List String :=
  ["hat", "tilde", "bar", "vec", "dot", "ddot", "overline", "underline", "mathcal", "mathfrak"]

namespace Tex
namespace Formula

/--
Whether the formula is a number or a fraction, of which no two may stand side by side.
-/
def isNumberOrFraction : Formula → Bool
  | .func name _ _ => name == "frac"
  | node => node.isNumber

/--
Whether the formula carries scripts: a letter, a symbol, a root or a command of one argument.
-/
def carriesScripts : Formula → Bool
  | .element s =>
    match s.toList with
    | [c] => c.isAlpha
    | _ => false
  | .symbol _ => true
  | .func name _ _ => ("sqrt" :: "mathbb" :: "mathbf" :: sharedCommands).contains name
  | _ => false

/--
The formulas in the idioms that both languages share.
-/
inductive Shared : Formula → Prop where
  | letter {c : Char} (h : c.isAlpha) : Shared (.element (String.ofList [c]))
  | number {digits : String} (h : ∀ c ∈ digits.toList, c.isDigit) (hne : digits.toList ≠ []) :
    Shared (.element digits)
  | sign {s : String} (h : s ∈ ["+", "="]) : Shared (.element s)
  | symbol {name mapped : String} (harity : Symbol.arity? name = none)
    (hto : Symbol.toTypst? name = some mapped)
    (hof : OfTypst.symbol {} mapped = .ok (.symbol name))
    (hround : name ∉ ["lfloor", "rfloor", "lceil", "rceil"]) : Shared (.symbol name)
  | fraction {num den : Formula} (hnum : Shared num) (hden : Shared den) :
    Shared (.call "frac" [num, den])
  | binomial {n k : Formula} (hn : Shared n) (hk : Shared k) : Shared (.call "binom" [n, k])
  | root {radicand : Formula} {degree : Option Formula} (hradicand : Shared radicand)
    (hdegree : ∀ node ∈ degree, Shared node) : Shared (.func "sqrt" [radicand] degree)
  | command {name : String} {arg : Formula} (hname : name ∈ sharedCommands) (harg : Shared arg) :
    Shared (.call name [arg])
  | blackboard {arg : Formula} (harg : Shared arg) : Shared (.call "mathbb" [arg])
  | bold {arg : Formula} (harg : Shared arg) : Shared (.call "mathbf" [arg])
  | attach {base : Formula} {sub sup : Option Formula} (hbase : Shared base)
    (hkind : base.carriesScripts) (hsub : ∀ node ∈ sub, Shared node)
    (hsup : ∀ node ∈ sup, Shared node) (hsome : sub.isSome ∨ sup.isSome) :
    Shared (.attach base sub sup)
  | group {nodes : List Formula} (hlength : 2 ≤ nodes.length)
    (hflat : ∀ node ∈ nodes, ∀ more, node ≠ .group more)
    (hnumbers : nodes.IsChain fun node next =>
      ¬ (node.isNumberOrFraction ∧ next.isNumberOrFraction))
    (h : ∀ node ∈ nodes, Shared node) : Shared (.group nodes)

theorem Shared.isEmpty {node : Formula} (h : Shared node) : node.isEmpty = false := by
  cases h
  all_goals rfl

theorem arity?_sharedCommands : ∀ name ∈ "mathbb" :: "mathbf" :: sharedCommands,
    Symbol.arity? name = some .one ∧ name ∉ ["text", "operatorname", "hspace", "frac"] := by
  decide +kernel

theorem isNumber_of_carriesScripts {node : Formula} (h : node.carriesScripts)
    : node.isNumber = false := by
  cases node with
  | element s =>
    simp only [carriesScripts] at h
    split at h
    next c hs => simp [isNumber, hs, isDigit_of_isAlpha h]
    . contradiction
  | _ => rfl

theorem isNumberOrFraction_of_isNumber {node : Formula} (h : node.isNumber)
    : node.isNumberOrFraction := by
  cases node with
  | func => contradiction
  | _ => exact h

theorem Shared.regular {node : Formula} (h : Shared node) (inDegree : Bool)
    : Regular inDegree node := by
  induction h generalizing inDegree with
  | letter h => exact .char (.inl h)
  | number h hne => exact .number ⟨_, [], h, hne, nofun, .inl rfl⟩
  | sign h =>
    simp only [List.mem_cons, List.not_mem_nil, or_false] at h
    rcases h with rfl | rfl
    . exact @Regular.char _ '+' (.inr (by decide))
    . exact @Regular.char _ '=' (.inr (by decide))
  | symbol harity hto => exact .symbol (by simp [hto]) harity
  | fraction _ _ ihnum ihden =>
    exact .func rfl (by decide) rfl (by simpa using ⟨ihnum inDegree, ihden inDegree⟩)
  | binomial _ _ ihn ihk =>
    exact .func rfl (by decide) rfl (by simpa using ⟨ihn inDegree, ihk inDegree⟩)
  | @root radicand degree _ _ ihradicand ihdegree =>
    cases degree with
    | none => exact .func rfl (by decide) rfl (by simpa using ihradicand inDegree)
    | some degree => exact .root (ihdegree degree rfl true) (ihradicand inDegree)
  | @command name arg hname _ ih =>
    obtain ⟨harity, hraw⟩ := arity?_sharedCommands name
      (List.mem_cons_of_mem _ (List.mem_cons_of_mem _ hname))
    refine .func harity ?_ rfl (by simpa using ih inDegree)
    simp only [List.mem_cons, not_or] at hraw ⊢
    tauto
  | blackboard _ ih => exact .func rfl (by decide) rfl (by simpa using ih inDegree)
  | bold _ ih => exact .func rfl (by decide) rfl (by simpa using ih inDegree)
  | attach _ hkind _ _ hsome ihbase ihsub ihsup =>
    exact @Regular.attach _ _ _ _ 0 (ihbase inDegree) (isNumber_of_carriesScripts hkind)
      (fun node hnode => ihsub node hnode inDegree) (fun node hnode => ihsup node hnode inDegree)
      hsome
  | @group nodes hlength hflat hnumbers h ih =>
    refine .group hlength hflat ?_ ?_ fun node hnode => ih node hnode inDegree
    . rintro node hnode rfl
      exact absurd (h _ hnode).isEmpty (by decide)
    . refine hnumbers.imp fun node next hnot hboth => hnot ?_
      exact ⟨isNumberOrFraction_of_isNumber hboth.1, isNumberOrFraction_of_isNumber hboth.2⟩

end Formula
end Tex
def Typst.anyNames : Typst.Vocabulary where
  mem name := Symbol.TypstName name ∧ name ∉ reservedCalls
  typstName _ h := h.1
  not_reserved _ h := h.2

/--
A Typst formula that the TeX formula is converted to, in a form in which it is written, read and
converted back.
-/
structure Translation (tree : Tex.Formula) (image : Typst.Formula) : Prop where
  regular : Typst.Formula.Regular ({} : Options).style Typst.anyNames image
  back : Tex.Formula.ofTypst {} image = .ok tree
  isScriptBase : tree.carriesScripts → image.isScriptBase
  numbers : (∀ nodes, tree ≠ .group nodes) → image.opensWithNumber ∨ image.closesWithNumber →
    tree.isNumberOrFraction
  flat : (∀ nodes, tree ≠ .group nodes) → ∀ nodes, image ≠ .group nodes
  not_parens : ∀ nodes, image ≠ .parens nodes
  not_limits : ∀ args, image ≠ .call "limits" args []

/--
The TeX formula is translated, whatever spaces there are in it.
-/
def Translates (tree : Tex.Formula) : Prop :=
  ∀ node : Tex.Formula, node.withoutSpaces = tree →
    ∃ image, Typst.Formula.ofTex {} node = .ok image ∧ Translation tree image

section Spaces

variable {tree : Tex.Formula} {image : Typst.Formula}

theorem eachOfTex_append {options : Options} {nodes more : List Tex.Formula}
    {images others : List Typst.Formula} (h : Typst.Formula.eachOfTex options nodes = .ok images)
    (hmore : Typst.Formula.eachOfTex options more = .ok others)
    : Typst.Formula.eachOfTex options (nodes ++ more) = .ok (images ++ others) := by
  induction nodes generalizing images with
  | nil =>
    cases h
    exact hmore
  | cons node nodes ih =>
    obtain ⟨image, himage, hrest⟩ := exists_of_bind_eq_ok h
    obtain ⟨rest, hnodes, hpure⟩ := exists_of_bind_eq_ok hrest
    cases hpure
    exact Tex.Formula.eachOfTex_cons himage (ih hnodes)

theorem eachOfTex_spaces {nodes : List Tex.Formula} (h : ∀ node ∈ nodes, node.isSpace)
    : Typst.Formula.eachOfTex {} nodes = .ok (nodes.map fun _ => .empty) := by
  induction nodes with
  | nil => rfl
  | cons node nodes ih =>
    rw [List.forall_mem_cons] at h
    cases node with
    | space s => exact Tex.Formula.eachOfTex_cons rfl (ih h.2)
    | _ => exact absurd h.1 Bool.false_ne_true

theorem ofTex_padded {front back : List Tex.Formula} {node : Tex.Formula}
    (hfront : ∀ space ∈ front, space.isSpace) (hback : ∀ space ∈ back, space.isSpace)
    (h : Typst.Formula.ofTex {} node = .ok image) (hne : image.isEmpty = false)
    : Typst.Formula.ofTex {} (.group (front ++ node :: back)) = .ok image := by
  have heach := eachOfTex_append (eachOfTex_spaces hfront)
    (Tex.Formula.eachOfTex_cons h (eachOfTex_spaces hback))
  have hfilter : ∀ nodes : List Tex.Formula, ((nodes.map fun _ => Typst.Formula.empty).filter
      fun node => !node.isEmpty) = [] := by
    intro nodes
    simp [Typst.Formula.isEmpty]
  refine (Tex.Formula.bind_of_ok heach).trans ?_
  rw [List.filter_append, hfilter, List.nil_append, List.filter_cons_of_pos (by simp [hne]), hfilter]
  rfl

theorem exists_image_of_flat {P : Typst.Formula → Prop}
    (hP : ∀ image, P image → image.isEmpty = false) (hne : tree.isEmpty = false)
    (hflat : ∀ nodes, tree ≠ .group nodes)
    (h : ∀ node : Tex.Formula, (∀ nodes, node ≠ .group nodes) → node.withoutSpaces = tree →
      ∃ image, Typst.Formula.ofTex {} node = .ok image ∧ P image)
    (node : Tex.Formula) (hnode : node.withoutSpaces = tree)
    : ∃ image, Typst.Formula.ofTex {} node = .ok image ∧ P image := by
  refine Tex.Formula.withoutSpaces_induction hne h ?_ ?_ node hnode
  . intro nodes hnodes
    exact absurd hnodes.symm (hflat _)
  . rintro front node back hfront hback ⟨image, himage, hrest⟩
    exact ⟨image, ofTex_padded hfront hback himage (hP image hrest), hrest⟩

theorem translates_of_flat (hne : tree.isEmpty = false) (hflat : ∀ nodes, tree ≠ .group nodes)
    (h : ∀ node : Tex.Formula, (∀ nodes, node ≠ .group nodes) → node.withoutSpaces = tree →
      ∃ image, Typst.Formula.ofTex {} node = .ok image ∧ Translation tree image)
    : Translates tree :=
  exists_image_of_flat (fun _ htranslation => htranslation.regular.isEmpty) hne hflat h

end Spaces

section Constructs

variable {tree arg other : Tex.Formula} {image first second : Typst.Formula} {name mapped s : String}
  {args : List Typst.Formula}

theorem translates_element (hmatches : Tex.Formula.Matches {} (.element s) (.atom s))
    (hregular : Typst.Formula.Regular ({} : Options).style Typst.anyNames (.atom s))
    : Translates (.element s) := by
  refine translates_of_flat rfl nofun fun node hflat h => ⟨.atom s, ?_, ?_⟩
  . rw [Tex.Formula.eq_element_of_withoutSpaces hflat h]
    exact hmatches.forth
  . exact ⟨hregular, hmatches.back, id, fun _ hnumber => hnumber.elim id id, nofun, nofun, nofun⟩

theorem translation_symbol (hname : Typst.anyNames.mem mapped)
    (hof : Tex.OfTypst.symbol {} mapped = .ok tree) : Translation tree (.symbol mapped) :=
  ⟨.symbol hname nofun, hof, fun _ => rfl, nofun, nofun, nofun, nofun⟩

theorem translates_symbol (hname : Typst.anyNames.mem mapped)
    (hto : Symbol.toTypst? name = some mapped)
    (hof : Tex.OfTypst.symbol {} mapped = .ok (.symbol name)) : Translates (.symbol name) := by
  refine translates_of_flat rfl nofun fun node hflat h => ⟨.symbol mapped, ?_, ?_⟩
  . rw [Tex.Formula.eq_symbol_of_withoutSpaces hflat h]
    change Typst.OfTex.symbol {} name = _
    rw [Typst.OfTex.symbol, hto]
  . exact translation_symbol hname hof

theorem translates_fraction (harg : Translates arg) (hother : Translates other)
    : Translates (.call "frac" [arg, other]) := by
  refine translates_of_flat rfl nofun fun node hflat h => ?_
  obtain ⟨args, rfl, hargs⟩ := Tex.Formula.eq_call_of_withoutSpaces hflat h
  obtain ⟨num, den, rfl, hnum, hden⟩ := Tex.Formula.eq_pair_of_withoutSpaces hargs
  obtain ⟨numImage, hnumForth, hnumTranslation⟩ := harg num hnum
  obtain ⟨denImage, hdenForth, hdenTranslation⟩ := hother den hden
  refine ⟨.frac numImage denImage, Tex.Formula.bind_bind_of_ok hnumForth hdenForth, ?_⟩
  exact ⟨.frac hnumTranslation.regular hdenTranslation.regular hnumTranslation.not_parens
    hdenTranslation.not_parens, Tex.Formula.bind_bind_of_ok hnumTranslation.back hdenTranslation.back,
    nofun, fun _ _ => rfl, nofun, nofun, nofun⟩

theorem translation_call (hname : Typst.anyNames.mem mapped) (hlimits : mapped ≠ "limits")
    (hargs : args ≠ [])
    (hregular : ∀ arg ∈ args, Typst.Formula.Regular ({} : Options).style Typst.anyNames arg)
    (hback : Tex.Formula.ofTypst {} (.call mapped args []) = .ok tree)
    : Translation tree (.call mapped args []) := by
  refine ⟨.call hname hargs hregular, hback, fun _ => rfl, nofun, nofun, nofun, ?_⟩
  rintro args ⟨⟩
  contradiction

theorem translation_one (hname : Typst.anyNames.mem mapped) (hlimits : mapped ≠ "limits")
    (h : Translation arg first)
    (hback : Tex.Formula.ofTypst {} (.call mapped [first] []) = .ok tree)
    : Translation tree (.call mapped [first] []) :=
  translation_call hname hlimits (by simp) (by simpa using h.regular) hback

theorem translation_two (hname : Typst.anyNames.mem mapped) (hlimits : mapped ≠ "limits")
    (h : Translation arg first) (hother : Translation other second)
    (hback : Tex.Formula.ofTypst {} (.call mapped [first, second] []) = .ok tree)
    : Translation tree (.call mapped [first, second] []) :=
  translation_call hname hlimits (by simp) (by simpa using ⟨h.regular, hother.regular⟩) hback

theorem translates_binomial (harg : Translates arg) (hother : Translates other)
    : Translates (.call "binom" [arg, other]) := by
  refine translates_of_flat rfl nofun fun node hflat h => ?_
  obtain ⟨args, rfl, hargs⟩ := Tex.Formula.eq_call_of_withoutSpaces hflat h
  obtain ⟨n, k, rfl, hn, hk⟩ := Tex.Formula.eq_pair_of_withoutSpaces hargs
  obtain ⟨nImage, hnForth, hnTranslation⟩ := harg n hn
  obtain ⟨kImage, hkForth, hkTranslation⟩ := hother k hk
  refine ⟨_, Tex.Formula.bind_bind_of_ok hnForth hkForth, ?_⟩
  exact translation_two ⟨⟨_, rfl, rfl⟩, by decide⟩ (by decide) hnTranslation hkTranslation
    (Tex.Formula.bind_bind_of_ok hnTranslation.back hkTranslation.back)

theorem translates_root {degree : Option Tex.Formula} (harg : Translates arg)
    (hdegree : ∀ node ∈ degree, Translates node) : Translates (.func "sqrt" [arg] degree) := by
  refine translates_of_flat rfl nofun fun node hflat h => ?_
  obtain ⟨args, written, rfl, hargs, hwritten⟩ := Tex.Formula.eq_func_of_withoutSpaces hflat h
  obtain ⟨radicand, rfl, hradicand⟩ := Tex.Formula.eq_singleton_of_withoutSpaces hargs
  obtain ⟨radicandImage, hforth, htranslation⟩ := harg radicand hradicand
  cases written with
  | none =>
    rw [Tex.Formula.optionWithoutSpaces] at hwritten
    subst hwritten
    refine ⟨_, Tex.Formula.bind_of_ok hforth, ?_⟩
    exact translation_one ⟨⟨_, rfl, rfl⟩, by decide⟩ (by decide) htranslation
      (Tex.Formula.bind_of_ok htranslation.back)
  | some index =>
    rw [Tex.Formula.optionWithoutSpaces] at hwritten
    subst hwritten
    obtain ⟨indexImage, hindexForth, hindexTranslation⟩ := hdegree _ rfl index rfl
    refine ⟨_, Tex.Formula.bind_bind_of_ok hindexForth hforth, ?_⟩
    exact translation_two ⟨⟨_, rfl, rfl⟩, by decide⟩ (by decide) hindexTranslation htranslation
      (Tex.Formula.bind_bind_of_ok htranslation.back hindexTranslation.back)

theorem translates_bold (harg : Translates arg) : Translates (.call "mathbf" [arg]) := by
  refine translates_of_flat rfl nofun fun node hflat h => ?_
  obtain ⟨args, rfl, hargs⟩ := Tex.Formula.eq_call_of_withoutSpaces hflat h
  obtain ⟨body, rfl, hbody⟩ := Tex.Formula.eq_singleton_of_withoutSpaces hargs
  obtain ⟨bodyImage, hforth, htranslation⟩ := harg body hbody
  have hbold : Typst.anyNames.mem "bold" := ⟨⟨_, rfl, rfl⟩, by decide⟩
  refine ⟨_, Tex.Formula.bind_of_ok hforth, ?_⟩
  exact translation_call ⟨⟨_, rfl, rfl⟩, by decide⟩ (by decide) (by simp)
    (by simpa using .call hbold (by simp) (by simpa using htranslation.regular))
    (Tex.Formula.bind_of_ok htranslation.back)

theorem anyNames_of_toTypst? {name mapped : String} (h : Symbol.toTypst? name = some mapped)
    (hround : name ∉ ["lfloor", "rfloor", "lceil", "rceil"]) : Typst.anyNames.mem mapped := by
  have hpair : (name, mapped) ∈ Symbol.pairs := Symbol.mem_of_lookup h
  have hmem := List.mem_append_left Symbol.aliases hpair
  refine ⟨?_, fun hreserved => ?_⟩
  . refine (Symbol.typstName_of_mem_pairs _ hmem).resolve_left fun hrounding => hround ?_
    exact @List.mem_map_of_mem _ _ _ _ Prod.fst hrounding
  . exact Typst.reservedCalls_not_mem mapped hreserved (List.mem_map_of_mem hmem)

theorem sharedCommands_subset : sharedCommands ⊆ namedCommands := by
  decide +kernel

theorem exists_translation_command (hname : name ∈ "mathbb" :: sharedCommands)
    (h : Translation arg first)
    : ∃ image, Typst.OfTex.byName {} name [first] = .ok image ∧
      Translation (.call name [arg]) image := by
  have hnamed : name ∈ "mathbb" :: namedCommands :=
    List.cons_subset_cons _ sharedCommands_subset hname
  obtain ⟨mapped, hmapped, hempty, hlimits, htex, harity, hhead⟩ :=
    Tex.Formula.namedCommands_correspond name hnamed
  have hround : name ∉ ["lfloor", "rfloor", "lceil", "rceil"] := fun hmem =>
    (by decide : ∀ name ∈ ["lfloor", "rfloor", "lceil", "rceil"],
      name ∉ "mathbb" :: sharedCommands) name hmem hname
  refine ⟨.call mapped [first] [], ?_, ?_⟩
  . simp only [Typst.OfTex.byName, Option.mem_def.mp hmapped]
    rfl
  . refine translation_one (anyNames_of_toTypst? hmapped hround) hlimits h ?_
    have hcall := @Tex.Formula.ofTypst_call_one {} mapped first arg hhead (Ne.symm hempty) h.back
    exact hcall.trans (Tex.Formula.byName_of_arity htex harity rfl)

theorem translates_command (hname : name ∈ sharedCommands) (harg : Translates arg)
    : Translates (.call name [arg]) := by
  refine translates_of_flat rfl nofun fun node hflat h => ?_
  obtain ⟨args, rfl, hargs⟩ := Tex.Formula.eq_call_of_withoutSpaces hflat h
  obtain ⟨body, rfl, hbody⟩ := Tex.Formula.eq_singleton_of_withoutSpaces hargs
  obtain ⟨bodyImage, hforth, htranslation⟩ := harg body hbody
  obtain ⟨image, himage, hresult⟩ :=
    exists_translation_command (List.mem_cons_of_mem _ hname) htranslation
  refine ⟨image, ?_, hresult⟩
  have hother := Tex.Formula.ofName_namedCommands name (sharedCommands_subset hname)
  rw [Tex.Formula.ofTex_call_one hother hforth, himage]

theorem exists_of_isCapital (h : Typst.OfTex.isCapital s) : ∃ c, c.isUpper ∧ s = String.ofList [c] := by
  unfold Typst.OfTex.isCapital at h
  split at h
  next c hs => exact ⟨c, h, by rw [← hs, String.ofList_toList]⟩
  . contradiction

theorem anyNames_doubled {c : Char} (hc : c.isUpper) : Typst.anyNames.mem (String.ofList [c, c]) := by
  have halpha : c.isAlpha := (Bool.or_eq_true _ _).mpr (.inl hc)
  have hpoint : c ≠ '.' := by
    rintro rfl
    contradiction
  refine ⟨⟨[c, c], rfl, ?_⟩, ?_⟩
  . have hlong : ∀ word ∈ [['f', 'l', 'o', 'o', 'r'], ['c', 'e', 'i', 'l'],
        ['r', 'o', 'u', 'n', 'd']], 2 < word.length := by
      decide
    have hshort : ∀ word ∈ [['f', 'l', 'o', 'o', 'r'], ['c', 'e', 'i', 'l'],
        ['r', 'o', 'u', 'n', 'd']], ¬ word <:+: [c, c] := by
      intro word hword hfound
      exact absurd hfound.length_le (Nat.not_le_of_lt (hlong word hword))
    simpa [Symbol.isTypstName, Symbol.isDotted, hpoint, halpha] using hshort
  . intro hmem
    have hdifferent : ∀ name ∈ Typst.reservedCalls, name.toList.head? ≠ name.toList.getLast? := by
      decide
    exact hdifferent _ hmem (by simp)

/--
A capital letter in blackboard bold is converted to a symbol if there is no space beside it.
-/
theorem translates_blackboard (harg : Translates arg) : Translates (.call "mathbb" [arg]) := by
  refine translates_of_flat rfl nofun fun node hflat h => ?_
  obtain ⟨args, rfl, hargs⟩ := Tex.Formula.eq_call_of_withoutSpaces hflat h
  obtain ⟨body, rfl, hbody⟩ := Tex.Formula.eq_singleton_of_withoutSpaces hargs
  obtain ⟨bodyImage, hforth, htranslation⟩ := harg body hbody
  obtain ⟨image, himage, hresult⟩ := exists_translation_command List.mem_cons_self htranslation
  have heach : (Typst.Formula.eachOfTex {} [body] >>= Typst.OfTex.byName {} "mathbb") =
      .ok image := by
    rw [Tex.Formula.eachOfTex_cons hforth rfl]
    exact himage
  cases body with
  | element letter =>
    cases hcapital : Typst.OfTex.isCapital letter with
    | true =>
      obtain ⟨c, hc, rfl⟩ := exists_of_isCapital hcapital
      have hsame : arg = .element (String.ofList [c]) := by
        simpa [Tex.Formula.withoutSpaces] using hbody.symm
      rw [hsame]
      have hmatches := Tex.Formula.matches_doubled hc (rfl : ({} : Options).optimize = true)
      exact ⟨_, hmatches.forth, translation_symbol (anyNames_doubled hc) hmatches.back⟩
    | false =>
      refine ⟨image, ?_, hresult⟩
      change (if ({} : Options).optimize && Typst.OfTex.isCapital letter then _ else
        Typst.OfTex.byName {} "mathbb" [Typst.OfTex.element letter]) = _
      rw [hcapital]
      cases hforth
      exact himage
  | _ => exact ⟨image, heach, hresult⟩

end Constructs

section Scripts

variable {base : Tex.Formula} {script sub sup : Option Tex.Formula}

theorem exists_optionTranslation (h : ∀ node ∈ script, Translates node) {written : Option Tex.Formula}
    (hwritten : Tex.Formula.optionWithoutSpaces written = script)
    : ∃ image, Typst.Formula.optionOfTex {} written = .ok image ∧
      Option.Rel Translation script image := by
  cases written with
  | none =>
    rw [Tex.Formula.optionWithoutSpaces] at hwritten
    subst hwritten
    exact ⟨none, rfl, .none⟩
  | some node =>
    rw [Tex.Formula.optionWithoutSpaces] at hwritten
    subst hwritten
    obtain ⟨image, hforth, htranslation⟩ := h _ rfl node rfl
    exact ⟨some image, Tex.Formula.bind_of_ok hforth, .some htranslation⟩

theorem optionOfTypst_eq {image : Option Typst.Formula} (h : Option.Rel Translation script image)
    : Tex.Formula.optionOfTypst {} image = .ok script := by
  cases h with
  | some htranslation => exact Tex.Formula.bind_of_ok htranslation.back
  | none => rfl

theorem regular_of_rel {image : Option Typst.Formula} (h : Option.Rel Translation script image)
    : (∀ node ∈ image, Typst.Formula.Regular ({} : Options).style Typst.anyNames node) ∧
      image.isSome = script.isSome := by
  cases h with
  | some htranslation =>
    refine ⟨?_, rfl⟩
    rintro _ ⟨⟩
    exact htranslation.regular
  | none => exact ⟨nofun, rfl⟩

theorem ofTex_attach {node : Tex.Formula} {below above : Option Tex.Formula} {image : Typst.Formula}
    {subImage supImage : Option Typst.Formula} (hnode : Typst.Formula.ofTex {} node = .ok image)
    (hbelow : Typst.Formula.optionOfTex {} below = .ok subImage)
    (habove : Typst.Formula.optionOfTex {} above = .ok supImage)
    (hbraces : ∀ name ∈ ["overbrace", "underbrace"], ∀ args degree, node ≠ .func name args degree)
    : Typst.Formula.ofTex {} (.attach node below above) = .ok (.attach image subImage supImage) := by
  rw [Typst.Formula.ofTex.eq_def]
  dsimp only
  split
  . exact absurd rfl (hbraces _ (by decide) _ _)
  . exact absurd rfl (hbraces _ (by decide) _ _)
  . rw [hnode, hbelow, habove]
    rfl

theorem translation_attach {image : Typst.Formula} {subImage supImage : Option Typst.Formula}
    (hregular : Typst.Formula.Regular ({} : Options).style Typst.anyNames
      (.attach image subImage supImage))
    (hback : Tex.Formula.ofTypst {} (.attach image subImage supImage) =
      .ok (.attach base sub sup))
    : Translation (.attach base sub sup) (.attach image subImage supImage) where
  regular := hregular
  back := hback
  isScriptBase := nofun
  numbers := nofun
  flat := nofun
  not_parens := nofun
  not_limits := nofun

theorem translates_attach (hbase : Translates base) (hkind : base.carriesScripts)
    (hsub : ∀ node ∈ sub, Translates node) (hsup : ∀ node ∈ sup, Translates node)
    (hsome : sub.isSome ∨ sup.isSome) : Translates (.attach base sub sup) := by
  refine translates_of_flat rfl (by simp) fun node hflat h => ?_
  obtain ⟨other, below, above, rfl, rfl, hbelow, habove⟩ :=
    Tex.Formula.eq_attach_of_withoutSpaces hflat h
  obtain ⟨image, hforth, htranslation⟩ := hbase other rfl
  obtain ⟨subImage, hsubForth, hsubTranslation⟩ := exists_optionTranslation hsub hbelow
  obtain ⟨supImage, hsupForth, hsupTranslation⟩ := exists_optionTranslation hsup habove
  have hbraces : ∀ name ∈ ["overbrace", "underbrace"], ∀ args degree,
      other ≠ .func name args degree := by
    rintro name hname args degree rfl
    rw [Tex.Formula.withoutSpaces, Tex.Formula.carriesScripts] at hkind
    exact (by decide : ∀ name ∈ ["overbrace", "underbrace"],
      ¬ ("sqrt" :: "mathbb" :: "mathbf" :: sharedCommands).contains name) name hname hkind
  obtain ⟨hsubRegular, hsubSome⟩ := regular_of_rel hsubTranslation
  obtain ⟨hsupRegular, hsupSome⟩ := regular_of_rel hsupTranslation
  have hscriptBase := htranslation.isScriptBase hkind
  refine ⟨_, ofTex_attach hforth hsubForth hsupForth hbraces, ?_⟩
  refine translation_attach (.attach htranslation.regular hscriptBase hsubRegular hsupRegular
    (by rwa [hsubSome, hsupSome])) ?_
  have htext : image ≠ .text "" := by
    rintro rfl
    contradiction
  rw [Tex.Formula.ofTypst_attach_ordinary htranslation.not_limits htext,
    optionOfTypst_eq hsubTranslation, optionOfTypst_eq hsupTranslation, htranslation.back]
  rfl

end Scripts

section Groups

variable {nodes : List Tex.Formula} {images : List Typst.Formula}

section Images

variable {R : Tex.Formula → Typst.Formula → Prop}
  (hR : ∀ tree image, R tree image → image.isEmpty = false)

include hR

theorem exists_eachImage
    (h : ∀ tree ∈ Tex.Formula.dropSpaces nodes, ∀ node : Tex.Formula, node.withoutSpaces = tree →
      ∃ image, Typst.Formula.ofTex {} node = .ok image ∧ R tree image)
    : ∃ images, Typst.Formula.eachOfTex {} nodes = .ok images ∧
      List.Forall₂ R (Tex.Formula.dropSpaces nodes)
        (images.filter fun image => !image.isEmpty) := by
  induction nodes with
  | nil => exact ⟨[], rfl, by rw [Tex.Formula.dropSpaces]; exact .nil⟩
  | cons node nodes ih =>
    rw [Tex.Formula.dropSpaces] at h ⊢
    split at h
    next hspace =>
      obtain ⟨images, himages, hrel⟩ := ih h
      cases node with
      | space s => exact ⟨.empty :: images, Tex.Formula.eachOfTex_cons rfl himages, hrel⟩
      | _ => contradiction
    next hspace =>
      rw [List.forall_mem_cons] at h
      obtain ⟨images, himages, hrel⟩ := ih h.2
      obtain ⟨image, himage, hfirst⟩ := h.1 node rfl
      refine ⟨image :: images, Tex.Formula.eachOfTex_cons himage himages, ?_⟩
      rw [if_neg hspace, List.filter_cons_of_pos (by simp [hR _ _ hfirst])]
      exact .cons hfirst hrel

theorem exists_images_of_group
    (h : ∀ tree ∈ nodes, ∀ node : Tex.Formula, node.withoutSpaces = tree →
      ∃ image, Typst.Formula.ofTex {} node = .ok image ∧ R tree image)
    (hlength : 2 ≤ nodes.length) (node : Tex.Formula) (hnode : node.withoutSpaces = .group nodes)
    : ∃ images, Typst.Formula.ofTex {} node = .ok (.group images) ∧
      List.Forall₂ R nodes images := by
  refine Tex.Formula.withoutSpaces_induction (motive := fun node => ∃ images,
    Typst.Formula.ofTex {} node = .ok (.group images) ∧ List.Forall₂ R nodes images) rfl ?_ ?_ ?_
    node hnode
  . intro node hflat hnode
    cases node with
    | group nodes => exact absurd rfl (hflat nodes)
    | _ => simp [Tex.Formula.withoutSpaces] at hnode
  . intro written hwritten
    cases Tex.Formula.group.inj hwritten
    obtain ⟨images, himages, hrel⟩ := exists_eachImage hR h
    refine ⟨_, ?_, hrel⟩
    refine (Tex.Formula.bind_of_ok himages).trans ?_
    rw [Tex.Formula.ofList_of_length_typst (hrel.length_eq ▸ hlength)]
    rfl
  . rintro front node back hfront hback ⟨images, himages, hrel⟩
    exact ⟨images, ofTex_padded hfront hback himages rfl, hrel⟩

end Images

theorem eachOfTypst_eq (h : List.Forall₂ Translation nodes images)
    : Tex.Formula.eachOfTypst {} images = .ok nodes := by
  induction h with
  | nil => rfl
  | cons htranslation _ ih => exact Tex.Formula.eachOfTypst_cons htranslation.back ih

theorem isChain_translation (h : List.Forall₂ Translation nodes images)
    (hflat : ∀ node ∈ nodes, ∀ more, node ≠ .group more)
    (hnumbers : nodes.IsChain fun node next =>
      ¬ (node.isNumberOrFraction ∧ next.isNumberOrFraction))
    : images.IsChain fun image next => ¬ (image.closesWithNumber ∧ next.opensWithNumber) := by
  induction h with
  | nil => exact .nil
  | @cons node image nodes images htranslation h ih =>
    rw [List.forall_mem_cons] at hflat
    cases h with
    | nil => exact .singleton _
    | @cons next nextImage nodes images hnext h =>
      rw [List.isChain_cons_cons] at hnumbers ⊢
      refine ⟨?_, ih hflat.2 hnumbers.2⟩
      rintro ⟨hcloses, hopens⟩
      exact hnumbers.1 ⟨htranslation.numbers hflat.1 (.inr hcloses),
        hnext.numbers (hflat.2 next List.mem_cons_self) (.inl hopens)⟩

theorem exists_of_mem (h : List.Forall₂ Translation nodes images) {image : Typst.Formula}
    (himage : image ∈ images) : ∃ node ∈ nodes, Translation node image := by
  induction h with
  | nil => contradiction
  | @cons node _ _ _ htranslation _ ih =>
    rcases List.mem_cons.mp himage with rfl | himage
    . exact ⟨node, List.mem_cons_self, htranslation⟩
    . obtain ⟨node, hnode, htranslation⟩ := ih himage
      exact ⟨node, List.mem_cons_of_mem _ hnode, htranslation⟩

theorem translation_group (h : List.Forall₂ Translation nodes images) (hlength : 2 ≤ nodes.length)
    (hflat : ∀ node ∈ nodes, ∀ more, node ≠ .group more)
    (hnumbers : nodes.IsChain fun node next =>
      ¬ (node.isNumberOrFraction ∧ next.isNumberOrFraction))
    (hne : ∀ node ∈ nodes, node.isEmpty = false) : Translation (.group nodes) (.group images) := by
  have hback : Tex.Formula.ofTypst {} (.group images) = .ok (.group nodes) := by
    refine (Tex.Formula.bind_of_ok (eachOfTypst_eq h)).trans ?_
    rw [List.filter_eq_self.mpr (by simpa using hne), Tex.Formula.ofList_of_length hlength]
    rfl
  refine ⟨.group (h.length_eq ▸ hlength) ?_ (isChain_translation h hflat hnumbers) ?_, hback, nofun,
    ?_, ?_, nofun, nofun⟩
  . intro image himage
    obtain ⟨node, hnode, htranslation⟩ := exists_of_mem h himage
    exact htranslation.flat (hflat node hnode)
  . intro image himage
    obtain ⟨node, _, htranslation⟩ := exists_of_mem h himage
    exact htranslation.regular
  . intro hgroup
    exact absurd rfl (hgroup nodes)
  . intro hgroup
    exact absurd rfl (hgroup nodes)

theorem translates_group (h : ∀ node ∈ nodes, Translates node) (hlength : 2 ≤ nodes.length)
    (hflat : ∀ node ∈ nodes, ∀ more, node ≠ .group more)
    (hnumbers : nodes.IsChain fun node next =>
      ¬ (node.isNumberOrFraction ∧ next.isNumberOrFraction))
    (hne : ∀ node ∈ nodes, node.isEmpty = false) : Translates (.group nodes) := by
  intro node hnode
  obtain ⟨images, himages, htranslations⟩ := exists_images_of_group
    (fun _ _ htranslation => htranslation.regular.isEmpty) h hlength node hnode
  exact ⟨_, himages, translation_group htranslations hlength hflat hnumbers hne⟩

end Groups

theorem matches_of_digits {digits : String} (h : ∀ c ∈ digits.toList, c.isDigit)
    (hne : digits.toList ≠ []) : Tex.Formula.Matches {} (.element digits) (.atom digits) := by
  obtain ⟨c, cs, hdigits⟩ := List.exists_cons_of_ne_nil hne
  obtain rfl := String.toList_inj.mp (hdigits.trans String.toList_ofList.symm)
  refine Tex.Formula.matches_plain_element fun hc => ?_
  have hdigit : c.isDigit := h c (by simp)
  revert hdigit
  exact (by decide : ∀ c ∈ ['/', '\\', '{', '}', '%', '~'], ¬ c.isDigit) c hc

theorem matches_letter {c : Char} (h : c.isAlpha) :
    Tex.Formula.Matches {} (.element (String.ofList [c])) (.atom (String.ofList [c])) := by
  refine Tex.Formula.matches_plain_element fun hc => ?_
  revert h
  exact (by decide : ∀ c ∈ ['/', '\\', '{', '}', '%', '~'], ¬ c.isAlpha) c hc

theorem matches_sign {s : String} (h : s ∈ ["+", "="])
    : Tex.Formula.Matches {} (.element s) (.atom s) := by
  simp only [List.mem_cons, List.not_mem_nil, or_false] at h
  rcases h with rfl | rfl
  . exact @Tex.Formula.matches_plain_element _ '+' [] (by decide)
  . exact @Tex.Formula.matches_plain_element _ '=' [] (by decide)

theorem Tex.Formula.Shared.translates {node : Tex.Formula} (h : node.Shared)
    : Translates node := by
  induction h with
  | letter h => exact translates_element (matches_letter h) (.letter h)
  | number h hne => exact translates_element (matches_of_digits h hne) (.number h hne)
  | sign h => exact translates_element (matches_sign h) (.sign h)
  | symbol _ hto hof hround => exact translates_symbol (anyNames_of_toTypst? hto hround) hto hof
  | fraction _ _ ihnum ihden => exact translates_fraction ihnum ihden
  | binomial _ _ ihn ihk => exact translates_binomial ihn ihk
  | root _ _ ihradicand ihdegree => exact translates_root ihradicand ihdegree
  | command hname _ ih => exact translates_command hname ih
  | blackboard _ ih => exact translates_blackboard ih
  | bold _ ih => exact translates_bold ih
  | attach _ hkind _ _ hsome ihbase ihsub ihsup =>
    exact translates_attach ihbase hkind ihsub ihsup hsome
  | group hlength hflat hnumbers h ih =>
    exact translates_group ih hlength hflat hnumbers fun node hnode => (h node hnode).isEmpty

theorem parse_tokenize_default (text : String)
    : Tex.parse (({} : Options).tokenize text) = Tex.parseText text := by
  rw [Options.tokenize, Tex.expandMacros, Tex.parseText]
  conv_rhs => rw [← List.flatMap_singleton' (Tex.tokenize text)]
  congr 2
  funext token
  split <;> rfl

theorem texToTypst_eq_ok {options : Options} {text : String} {read : Tex.Formula}
    {image : Typst.Formula} (hparse : Tex.parse (options.tokenize text) = .ok read)
    (hforth : Typst.Formula.ofTex options read = .ok image)
    : texToTypst options text = .ok (Typst.write options.style image) := by
  rw [texToTypst, hparse]
  change ((Typst.Formula.ofTex options read).mapError _ >>= _) = _
  rw [hforth]
  rfl

theorem typstToTex_eq_ok {text : String} {read : Typst.Formula} {image : Tex.Formula}
    (hparse : Typst.parseText text = .ok read) (hback : Tex.Formula.ofTypst {} read = .ok image)
    : typstToTex {} text = .ok (Tex.write image) := by
  rw [typstToTex, hparse]
  change ((Tex.Formula.ofTypst {} read).mapError _ >>= _) = _
  rw [hback]
  rfl

theorem Tex.Formula.Shared.exists_translation {node : Tex.Formula} (h : node.Shared)
    : ∃ read image, Tex.parse (({} : Options).tokenize (Tex.write node)) = .ok read ∧
      Typst.Formula.ofTex {} read = .ok image ∧ Translation node image := by
  obtain ⟨read, hparse, hread⟩ := Tex.Formula.parse_of_reading (h.regular false).reading
  rw [(h.regular false).readable.flat] at hread
  obtain ⟨image, hforth, htranslation⟩ := h.translates read hread
  exact ⟨read, image, (parse_tokenize_default _).trans hparse, hforth, htranslation⟩

/--
The conversion to Typst and back is the identity on what is written for a formula in the idioms that
both languages share.
-/
theorem typstToTex_texToTypst_write (node : Tex.Formula) (h : node.Shared)
    : ∃ typst, texToTypst {} (Tex.write node) = .ok typst ∧
      typstToTex {} typst = .ok (Tex.write node) := by
  obtain ⟨read, image, hparse, hforth, htranslation⟩ := h.exists_translation
  obtain ⟨other, hother, himage⟩ := htranslation.regular.exists_image
  have hsame := (@Tex.Formula.sameResult_withoutSpaces {} _ himage.tidy).1
  rw [himage.withoutSpaces] at hsame
  exact ⟨_, texToTypst_eq_ok hparse hforth,
    typstToTex_eq_ok hother (hsame.trans htranslation.back)⟩

theorem typstToTex_texToTypst_write_equation
    : ∃ typst,
      texToTypst {} (Tex.write (.group
        [.attach (.symbol "alpha") (some (.element "12")) (some (.call "mathbb" [.element "R"])),
          .element "=",
          .call "frac" [.func "sqrt" [.call "hat" [.element "x"]] (some (.element "3")),
            .element "2"]])) = .ok typst ∧
      typstToTex {} typst = .ok (Tex.write (.group
        [.attach (.symbol "alpha") (some (.element "12")) (some (.call "mathbb" [.element "R"])),
          .element "=",
          .call "frac" [.func "sqrt" [.call "hat" [.element "x"]] (some (.element "3")),
            .element "2"]])) := by
  have hletter : ∀ {c : Char}, c.isAlpha → Tex.Formula.Shared (.element (String.ofList [c])) :=
    .letter
  have hnumber : ∀ {digits : String}, (∀ c ∈ digits.toList, c.isDigit) → digits.toList ≠ [] →
    Tex.Formula.Shared (.element digits) := .number
  have halpha : Tex.Formula.Shared (.symbol "alpha") := .symbol rfl rfl rfl (by decide)
  have hscripts : Tex.Formula.Shared (.attach (.symbol "alpha") (some (.element "12"))
      (some (.call "mathbb" [.element "R"]))) := by
    refine .attach halpha rfl ?_ ?_ (.inl rfl)
    . rintro _ ⟨⟩
      exact hnumber (by decide) (by decide)
    . rintro _ ⟨⟩
      exact .blackboard (hletter (by decide : 'R'.isAlpha))
  have hroot : Tex.Formula.Shared
      (.func "sqrt" [.call "hat" [.element "x"]] (some (.element "3"))) := by
    refine .root (.command (by decide) (hletter (by decide : 'x'.isAlpha))) ?_
    rintro _ ⟨⟩
    exact hnumber (by decide) (by decide)
  have hfraction := Tex.Formula.Shared.fraction hroot
    (@hnumber "2" (by decide) (by decide))
  refine typstToTex_texToTypst_write _ (.group (by decide) ?_ ?_ ?_)
  . simp [Tex.Formula.call]
  . simp [Tex.Formula.isNumberOrFraction, Tex.Formula.isNumber]
  . simpa using ⟨hscripts, .sign (by decide), hfraction⟩

end MathMarkup
