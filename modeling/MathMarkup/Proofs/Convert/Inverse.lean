import MathMarkup.Convert
import MathMarkup.Proofs.Result
import MathMarkup.Proofs.Tex.Element
import MathMarkup.Proofs.Typst.CleanUp

/-!
This module contains the proof that the two conversions undo each other: a TeX formula that is
converted to Typst and back is the same formula again, if it is built from the constructions that
have one preferred spelling in either language.
-/

namespace MathMarkup

open Text

/--
The commands of one argument that are converted by their name alone, in both directions.
-/
def namedCommands : List String :=
  ["mathcal", "mathfrak", "mathit", "mathsf", "mathtt", "mathscr", "boldsymbol", "hat", "tilde",
   "bar", "overline", "underline", "vec", "dot", "ddot", "dddot", "acute", "grave", "breve", "check",
   "mathring", "cancel", "overbrace", "underbrace"]

def spacingControls : List String :=
  ["\\,", "\\:", "\\;", "\\!", "\\ ", "~"]

def matrixNames : List String :=
  ["matrix", "pmatrix", "bmatrix", "Bmatrix", "vmatrix", "Vmatrix"]

/--
The pairs of delimiters that are kept around a tall body only.
-/
def tallFences : List (String × String) :=
  [("(", ")"), ("|", "|"), ("\\|", "\\|"), ("\\lfloor", "\\rfloor"), ("\\lceil", "\\rceil"),
   ("\\lfloor", "\\rceil")]

/--
Whether no wrapper of text is set, or one that Typst does not use for anything else.
-/
def Options.HasPlainWrapper (options : Options) : Prop :=
  options.nonAsciiWrapper = "" ∨
    (Tex.OfTypst.Head.ofName options.nonAsciiWrapper = .other ∧
      Symbol.toTex? options.nonAsciiWrapper = none)

namespace Tex

/--
A delimiter that is itself again after its conversion to Typst and back.
-/
def IsStableDelimiter (delim : String) : Prop :=
  ∃ mapped, Typst.OfTex.delimiter delim = .ok mapped ∧ OfTypst.delimiter mapped = .ok delim

/--
The delimiters that a body keeps: one, two that are no pair with a notation of its own, or a pair
around a tall body.
-/
inductive KeepsFences (options : Options) (tall : Bool) : Option String → Option String → Prop where
  | left {delim : String} (h : IsStableDelimiter delim) : KeepsFences options tall (some delim) none
  | right {delim : String} (h : IsStableDelimiter delim) :
    KeepsFences options tall none (some delim)
  | both {left right : String} (hleft : IsStableDelimiter left) (hright : IsStableDelimiter right)
    (hscaled : ∀ body, Typst.OfTex.scaled? (some left) (some right) body = none)
    (hname : options.optimize → Typst.OfTex.fenceName? left right = none) :
    KeepsFences options tall (some left) (some right)
  | tall {left right : String} (h : (left, right) ∈ tallFences) (htall : tall = true) :
    KeepsFences options tall (some left) (some right)

namespace Formula

/--
The formulas that have one preferred spelling in either language.
-/
inductive Canonical (options : Options) : Formula → Prop where
  | empty : Canonical options .empty
  | element {text : String} {token : Token} (hmem : token ∈ tokenize text)
    (hkind : token.kind = .element) (hbar : token.text ≠ "\\|") :
    Canonical options (.element token.text)
  | symbol {name mapped : String} (hto : Symbol.toTypst? name = some mapped)
    (hof : OfTypst.symbol options mapped = .ok (.symbol name)) : Canonical options (.symbol name)
  | control {s : String} (h : s ∈ spacingControls) : Canonical options (.control s)
  | comment (s : String) : Canonical options (.comment s)
  | group {nodes : List Formula} (hlength : 2 ≤ nodes.length)
    (hnodes : ∀ node ∈ nodes, Canonical options node) (hne : ∀ node ∈ nodes, node ≠ .empty) :
    Canonical options (.group nodes)
  | attach {base : Formula} {sub sup : Option Formula} (hbase : Canonical options base)
    (hsub : ∀ node ∈ sub, Canonical options node) (hsup : ∀ node ∈ sup, Canonical options node)
    (hsome : sub.isSome ∨ sup.isSome) : Canonical options (.attach base sub sup)
  | named {name : String} {arg : Formula} (hname : name ∈ namedCommands)
    (harg : Canonical options arg) : Canonical options (.call name [arg])
  | fraction {num den : Formula} (hnum : Canonical options num) (hden : Canonical options den) :
    Canonical options (.call "frac" [num, den])
  | binomial {n k : Formula} (hn : Canonical options n) (hk : Canonical options k) :
    Canonical options (.call "binom" [n, k])
  | root {radicand : Formula} {degree : Option Formula} (hradicand : Canonical options radicand)
    (hdegree : ∀ node ∈ degree, Canonical options node) :
    Canonical options (.func "sqrt" [radicand] degree)
  | bold {body : Formula} (h : Canonical options body) : Canonical options (.call "mathbf" [body])
  | blackboard {body : Formula} (h : Canonical options body) :
    Canonical options (.call "mathbb" [body])
  | overset {top base : Formula} (htop : Canonical options top) (hbase : Canonical options base)
    (hne : base ≠ .element "=") : Canonical options (.call "overset" [top, base])
  | underset {bottom base : Formula} (hbottom : Canonical options bottom)
    (hbase : Canonical options base) : Canonical options (.call "underset" [bottom, base])
  | text {s : String} (h : s ≠ "") : Canonical options (.call "text" [.text s])
  | operator {name : String} (htrim : trim name = name) (h : Symbol.isOperator name = false) :
    Canonical options (.call "operatorname" [.text name])
  | limitsOperator {name : String} (htrim : trim name = name) :
    Canonical options (.call "operatorname*" [.text name])
  | hspace {length : String} (hne : length ≠ "") (hblank : ∀ c ∈ length.toList, Text.isBlank c = false)
    (hthin : length ≠ "-math.thin.amount") : Canonical options (.call "hspace" [.text length])
  | leftRight {left right : Option String} {body : Formula} (hbody : Canonical options body)
    (hfences : KeepsFences options body.isTall left right) :
    Canonical options (.leftRight left body right)
  | env {name : String} {rows : List (List Formula)}
    (hname : name ∈ matrixNames ∨ name = "cases" ∨ name = "aligned")
    (hrows : ∀ row ∈ rows, ∀ cell ∈ row, Canonical options cell) :
    Canonical options (.env name none rows)

/--
A TeX formula and a Typst formula that are converted into each other. The Typst formula is as tall
as the TeX formula, and it is nothing that changes its meaning as a base of scripts.
-/
structure Matches (options : Options) (node : Formula) (image : Typst.Formula) : Prop where
  forth : Typst.Formula.ofTex options node = .ok image
  back : ofTypst options image = .ok node
  tall : node.isTall → image.isTall
  notLimits : ∀ args, image ≠ .call "limits" args []
  notBlank : image ≠ .text ""

/--
Two sequences that are converted into each other.
-/
structure EachMatches (options : Options) (nodes : List Formula) (images : List Typst.Formula) :
    Prop where
  forth : Typst.Formula.eachOfTex options nodes = .ok images
  back : eachOfTypst options images = .ok nodes
  tall : anyTall nodes → Typst.Formula.anyTall images
  length : images.length = nodes.length
  nonempty : (∀ node ∈ nodes, node ≠ .empty) → ∀ image ∈ images, image.isEmpty = false

variable {options : Options} {node : Formula} {image : Typst.Formula}

theorem bind_of_ok {ε α β : Type} {x : Except ε α} {a : α} {f : α → Except ε β} (hx : x = .ok a)
    : (x >>= f) = f a := by
  rw [hx]
  rfl

theorem bind_bind_of_ok {ε α β γ : Type} {x : Except ε α} {y : Except ε β} {a : α} {b : β}
    {f : α → β → Except ε γ} (hx : x = .ok a) (hy : y = .ok b)
    : (x >>= fun a => y >>= fun b => f a b) = f a b := by
  rw [hx, hy]
  rfl

theorem Matches.nonempty (h : Matches options node image) (hne : node ≠ .empty)
    : image.isEmpty = false := by
  cases image
  case empty => exact absurd (Except.ok.inj h.back).symm hne
  all_goals rfl

theorem EachMatches.nil : EachMatches options [] [] :=
  ⟨rfl, rfl, id, rfl, nofun⟩

theorem eachOfTex_cons {nodes : List Formula} {images : List Typst.Formula}
    (h : Typst.Formula.ofTex options node = .ok image)
    (hs : Typst.Formula.eachOfTex options nodes = .ok images)
    : Typst.Formula.eachOfTex options (node :: nodes) = .ok (image :: images) :=
  bind_bind_of_ok h hs

theorem eachOfTypst_cons {nodes : List Formula} {images : List Typst.Formula}
    (h : ofTypst options image = .ok node) (hs : eachOfTypst options images = .ok nodes)
    : eachOfTypst options (image :: images) = .ok (node :: nodes) :=
  bind_bind_of_ok h hs

theorem EachMatches.cons {nodes : List Formula} {images : List Typst.Formula}
    (h : Matches options node image) (hs : EachMatches options nodes images)
    : EachMatches options (node :: nodes) (image :: images) where
  forth := eachOfTex_cons h.forth hs.forth
  back := eachOfTypst_cons h.back hs.back
  tall := by
    simp only [anyTall, Typst.Formula.anyTall, Bool.or_eq_true]
    exact Or.imp h.tall hs.tall
  length := by rw [List.length_cons, List.length_cons, hs.length]
  nonempty := by
    intro hne
    simp only [List.mem_cons, forall_eq_or_imp] at hne ⊢
    exact ⟨h.nonempty hne.1, hs.nonempty hne.2⟩

theorem exists_eachMatches {nodes : List Formula}
    (h : ∀ node ∈ nodes, ∃ image, Matches options node image)
    : ∃ images, EachMatches options nodes images := by
  induction nodes with
  | nil => exact ⟨[], .nil⟩
  | cons node nodes ih =>
    obtain ⟨image, himage⟩ := h node List.mem_cons_self
    obtain ⟨images, himages⟩ := ih fun other hmem => h other (List.mem_cons_of_mem _ hmem)
    exact ⟨image :: images, himages.cons himage⟩

theorem exists_rowsMatch {rows : List (List Formula)}
    (h : ∀ row ∈ rows, ∀ cell ∈ row, ∃ image, Matches options cell image)
    : ∃ images, Typst.Formula.rowsOfTex options rows = .ok images ∧
      rowsOfTypst options images = .ok rows := by
  induction rows with
  | nil => exact ⟨[], rfl, rfl⟩
  | cons row rows ih =>
    obtain ⟨image, himage⟩ := exists_eachMatches (h row List.mem_cons_self)
    obtain ⟨images, hforth, hback⟩ := ih fun other hmem => h other (List.mem_cons_of_mem _ hmem)
    exact ⟨image :: images, bind_bind_of_ok himage.forth hforth, bind_bind_of_ok himage.back hback⟩

theorem exists_optionMatches {script : Option Formula}
    (h : ∀ node ∈ script, ∃ image, Matches options node image)
    : ∃ image, Typst.Formula.optionOfTex options script = .ok image ∧
      optionOfTypst options image = .ok script ∧
      (optionTall script → Typst.Formula.optionTall image) := by
  cases script with
  | none => exact ⟨none, rfl, rfl, id⟩
  | some node =>
    obtain ⟨image, himage⟩ := h node rfl
    exact ⟨some image, bind_of_ok himage.forth, bind_of_ok himage.back, himage.tall⟩

theorem filter_nonempty {images : List Typst.Formula} (h : ∀ image ∈ images, image.isEmpty = false)
    : (images.filter fun image => !image.isEmpty) = images := by
  apply List.filter_eq_self.mpr
  intro image hmem
  simp [h image hmem]

theorem filter_ne_empty {nodes : List Formula} (h : ∀ node ∈ nodes, node ≠ .empty)
    : (nodes.filter fun node => !node.isEmpty) = nodes := by
  apply List.filter_eq_self.mpr
  intro node hmem
  have hne := h node hmem
  cases node
  case empty => contradiction
  all_goals rfl

theorem ofList_of_length {nodes : List Formula} (h : 2 ≤ nodes.length)
    : ofList nodes = .group nodes := by
  match nodes, h with
  | _ :: _ :: _, _ => rfl

theorem ofList_of_length_typst {images : List Typst.Formula} (h : 2 ≤ images.length)
    : Typst.Formula.ofList images = .group images := by
  match images, h with
  | _ :: _ :: _, _ => rfl

theorem EachMatches.group {nodes : List Formula} {images : List Typst.Formula}
    (h : EachMatches options nodes images) (hlength : 2 ≤ nodes.length)
    (hne : ∀ node ∈ nodes, node ≠ .empty) : Matches options (.group nodes) (.group images) where
  forth := by
    refine (bind_of_ok h.forth).trans ?_
    rw [filter_nonempty (h.nonempty hne), ofList_of_length_typst (h.length ▸ hlength)]
    rfl
  back := by
    refine (bind_of_ok h.back).trans ?_
    rw [filter_ne_empty hne, ofList_of_length hlength]
    rfl
  tall := h.tall
  notLimits := nofun
  notBlank := nofun

theorem element_eq_atom {s : String} (h : s ∉ ["/", "\\\x7b", "\\\x7d", "\\%", "\\|"])
    : Typst.OfTex.element s = .atom s := by
  simp only [List.mem_cons, List.not_mem_nil, or_false, not_or] at h
  unfold Typst.OfTex.element
  split
  all_goals simp_all

theorem atom_eq_element {s : String} (hslash : s.toList.head? ≠ some '\\')
    (h : s ∉ ["\x7b", "\x7d", "%", "~"]) : OfTypst.atom s = .element s := by
  simp only [List.mem_cons, List.not_mem_nil, or_false, not_or] at h
  unfold OfTypst.atom
  split
  case h_13 =>
    split
    . simp_all
    . rfl
  all_goals simp_all

theorem matches_atom {s : String} (hforth : Typst.Formula.ofTex options node = .ok (.atom s))
    (hback : ofTypst options (.atom s) = .ok node) (hflat : node.isTall = false)
    : Matches options node (.atom s) where
  forth := hforth
  back := hback
  tall := by simp [hflat]
  notLimits := by simp
  notBlank := by simp

theorem matches_symbol {name : String}
    (hforth : Typst.Formula.ofTex options node = .ok (.symbol name))
    (hback : ofTypst options (.symbol name) = .ok node) (hflat : node.isTall = false)
    : Matches options node (.symbol name) where
  forth := hforth
  back := hback
  tall := by simp [hflat]
  notLimits := by simp
  notBlank := by simp

theorem matches_plain_element {c : Char} {cs : List Char}
    (h : c ∉ ['/', '\\', '{', '}', '%', '~'])
    : Matches options (.element (String.ofList (c :: cs))) (.atom (String.ofList (c :: cs))) := by
  have hne : ∀ s : String, s.toList.head? ∈ ['/', '\\', '{', '}', '%', '~'].map some →
      String.ofList (c :: cs) ≠ s := by
    rintro s hs rfl
    simp_all
  refine matches_atom (congrArg Except.ok ?_) (congrArg Except.ok ?_) rfl
  . apply element_eq_atom
    intro hmem
    refine hne _ ?_ rfl
    simp only [List.mem_cons, List.not_mem_nil, or_false] at hmem
    rcases hmem with hmem | hmem | hmem | hmem | hmem
    all_goals rw [hmem]; decide
  . apply atom_eq_element
    . simp_all
    . intro hmem
      refine hne _ ?_ rfl
      simp only [List.mem_cons, List.not_mem_nil, or_false] at hmem
      rcases hmem with hmem | hmem | hmem | hmem
      all_goals rw [hmem]; decide

theorem exists_matches_element {s : String} (h : IsElement s) (hbar : s ≠ "\\|")
    : ∃ image, Matches options (.element s) image := by
  have hplain : ∀ c cs, c ∉ ['/', '\\', '{', '}', '%', '~'] →
      ∃ image, Matches options (.element (String.ofList (c :: cs))) image :=
    fun c cs hc => ⟨_, matches_plain_element hc⟩
  cases h with
  | escaped hc =>
    simp only [escapes, List.mem_cons, List.not_mem_nil, or_false] at hc
    rcases hc with rfl | rfl | rfl | rfl | rfl | rfl | rfl | rfl
    case inr.inr.inr.inr.inr.inr.inr => contradiction
    all_goals exact ⟨_, matches_atom rfl rfl rfl⟩
  | @number digit digits hdigit =>
    apply hplain
    intro hmem
    simp only [List.mem_cons, List.not_mem_nil, or_false] at hmem
    rcases hmem with rfl | rfl | rfl | rfl | rfl | rfl
    all_goals contradiction
  | @char c hc =>
    by_cases hslash : c = '/'
    . subst hslash
      exact ⟨_, matches_atom rfl rfl rfl⟩
    . apply hplain
      intro hmem
      simp only [List.mem_cons, hslash, List.not_mem_nil, or_false, false_or] at hmem
      rcases hmem with rfl | rfl | rfl | rfl | rfl
      all_goals exact absurd hc (by unfold IsElementChar; decide)

theorem exists_matches_control {s : String} (h : s ∈ spacingControls)
    : ∃ image, Matches options (.control s) image := by
  simp only [spacingControls, List.mem_cons, List.not_mem_nil, or_false] at h
  rcases h with rfl | rfl | rfl | rfl | rfl | rfl
  case inr.inr.inr.inl =>
    refine ⟨.plainCall "#h" [.atom "-math.thin.amount"], rfl, rfl, ?_, ?_, ?_⟩
    . simp [isTall]
    all_goals simp [Typst.Formula.plainCall]
  all_goals exact ⟨_, matches_symbol rfl rfl rfl⟩

theorem plain_atom {s : String} (hne : s ≠ "") (hblank : ∀ c ∈ s.toList, Text.isBlank c = false)
    : OfTypst.plain (.atom s) = s := by
  have hlast : ∀ c, s.toList.getLast? = some c → Text.isBlank c = false :=
    fun c hc => hblank c (List.mem_of_getLast? hc)
  have hnewline : '\n' ∉ s.toList := by
    intro hmem
    exact absurd (hblank _ hmem) (by decide)
  have hline : ((({} : Typst.Line).push s).reversed).reverse = s.toList := by
    cases hs : s.toList with
    | nil => exact absurd (String.toList_eq_nil_iff.mp hs) hne
    | cons c cs =>
      rw [hs] at hblank hnewline
      have hc := hblank c List.mem_cons_self
      simp only [List.mem_cons, not_or] at hnewline
      simp [Typst.Line.push, hs, hc, Ne.symm hnewline.1, Typst.Line.needsSpace]
  have hatom : Typst.Formula.atomText {} s = s := by simp [Typst.Formula.atomText]
  unfold OfTypst.plain Typst.write
  simp only [Typst.Formula.pieces, Typst.Line.setPieces, hatom, hline]
  rw [Typst.cleanUp_of_not_optimize rfl hnewline hlast, removeBlanks_of_no_blank hblank,
    String.ofList_toList]

theorem wrapper_ne (h : options.HasPlainWrapper) {name tex : String} (hne : name ≠ "")
    (hname : Symbol.toTex? name = some tex) : options.nonAsciiWrapper ≠ name := by
  rintro rfl
  cases h with
  | inl hempty => contradiction
  | inr hplain =>
    rw [hplain.2] at hname
    contradiction

theorem ofTypst_call_one {name : String} {arg : Typst.Formula} {arg' : Formula}
    (hhead : OfTypst.Head.ofName name ∈ [.other, .overbrace, .underbrace])
    (hwrapper : options.nonAsciiWrapper ≠ name) (harg : ofTypst options arg = .ok arg')
    : ofTypst options (.plainCall name [arg]) = OfTypst.byName options name [arg'] := by
  have heach : (eachOfTypst options [arg] >>= OfTypst.byName options name) =
      OfTypst.byName options name [arg'] := by
    rw [eachOfTypst_cons harg rfl]
    rfl
  simp only [List.mem_cons, List.not_mem_nil, or_false] at hhead
  rw [Typst.Formula.plainCall, ofTypst.eq_def]
  dsimp only
  generalize OfTypst.Head.ofName name = head at hhead ⊢
  rcases hhead with rfl | rfl | rfl
  all_goals
    cases arg
    case text =>
      cases harg
      simp only [beq_iff_eq, if_neg hwrapper]
    all_goals exact heach

theorem ofTypst_wrapper {s : String}
    (hhead : OfTypst.Head.ofName options.nonAsciiWrapper = .other)
    : ofTypst options (.plainCall options.nonAsciiWrapper [.text s]) =
      .ok (.call "text" [.text s]) := by
  rw [Typst.Formula.plainCall, ofTypst.eq_def]
  simp only [hhead, BEq.rfl, if_true]

theorem byName_of_arity {name tex : String} {args : List Formula} {arity : Symbol.Arity}
    (hname : Symbol.toTex? name = some tex) (harity : Symbol.arity? tex = some arity)
    (hlength : args.length = arity.toNat)
    : OfTypst.byName options name args = .ok (.call tex args) := by
  simp only [OfTypst.byName, hname, harity, hlength, if_true]

theorem namedCommands_correspond : ∀ name ∈ "mathbb" :: namedCommands,
    ∃ mapped ∈ Symbol.toTypst? name, mapped ≠ "" ∧ mapped ≠ "limits" ∧
      Symbol.toTex? mapped = some name ∧ Symbol.arity? name = some .one ∧
      OfTypst.Head.ofName mapped ∈ [.other, .overbrace, .underbrace] := by
  decide +kernel

theorem ofName_namedCommands : ∀ name ∈ namedCommands, Typst.OfTex.Head.ofName name = .other := by
  decide +kernel

theorem not_tall_namedCommands : ∀ name ∈ "mathbb" :: namedCommands,
    tallCommands.contains name = false := by
  decide +kernel

theorem ofTex_call_one {name : String} {arg : Formula} {image : Typst.Formula}
    (hhead : Typst.OfTex.Head.ofName name = .other)
    (harg : Typst.Formula.ofTex options arg = .ok image)
    : Typst.Formula.ofTex options (.call name [arg]) = Typst.OfTex.byName options name [image] := by
  have heach : Typst.Formula.eachOfTex options [arg] = .ok [image] := eachOfTex_cons harg rfl
  rw [call, Typst.Formula.ofTex.eq_def]
  simp only [hhead, heach]
  rfl

theorem matches_call {name : String} {arg : Formula} (hwrapper : options.HasPlainWrapper)
    (hname : name ∈ "mathbb" :: namedCommands) (harg : Matches options arg image)
    (hforth : Typst.Formula.ofTex options (.call name [arg]) =
      Typst.OfTex.byName options name [image])
    : ∃ image, Matches options (.call name [arg]) image := by
  obtain ⟨mapped, hmapped, hempty, hlimits, htex, harity, hhead⟩ :=
    namedCommands_correspond name hname
  refine ⟨.plainCall mapped [image], ?_, ?_, ?_, ?_, nofun⟩
  . rw [hforth]
    simp only [Typst.OfTex.byName, Option.mem_def.mp hmapped]
  . rw [ofTypst_call_one hhead (wrapper_ne hwrapper hempty htex) harg.back]
    exact byName_of_arity htex harity rfl
  . simp only [call, isTall, not_tall_namedCommands name hname, anyTall, Typst.Formula.plainCall,
      Typst.Formula.isTall, Typst.Formula.anyTall, Bool.or_false, Bool.false_or, Bool.or_eq_true]
    exact fun htall => .inr (harg.tall htall)
  . intro args heq
    simp only [Typst.Formula.plainCall, Typst.Formula.call.injEq] at heq
    exact hlimits heq.1

theorem special?_doubled {c : Char} (hc : c.isUpper)
    : OfTypst.special? (String.ofList [c, c]) =
      some (.call "mathbb" [.element (String.ofList [c])]) := by
  have hne : ∀ s : String, s.toList.length ≠ 2 → String.ofList [c, c] ≠ s := by
    rintro s hs rfl
    simp at hs
  unfold OfTypst.special?
  split
  case h_10 => simp [OfTypst.doubledCapital?, hc]
  all_goals exact absurd ‹_› (hne _ (by decide))

theorem matches_doubled {c : Char} (hc : c.isUpper) (hoptimize : options.optimize = true)
    : Matches options (.call "mathbb" [.element (String.ofList [c])])
      (.symbol (String.ofList [c, c])) where
  forth := by
    have hcapital : Typst.OfTex.isCapital (String.ofList [c]) = true := by
      simpa [Typst.OfTex.isCapital] using hc
    change (if options.optimize && Typst.OfTex.isCapital (String.ofList [c]) then
      Except.ok (Typst.Formula.symbol (String.ofList [c] ++ String.ofList [c])) else _) = _
    rw [hoptimize, hcapital, ← String.ofList_append]
    rfl
  back := by
    change OfTypst.symbol options _ = _
    rw [OfTypst.symbol, special?_doubled hc]
  tall := nofun
  notLimits := nofun
  notBlank := nofun

theorem matches_blackboard {arg : Formula} (hwrapper : options.HasPlainWrapper)
    (harg : Matches options arg image) : ∃ image, Matches options (.call "mathbb" [arg]) image := by
  by_cases hletter : ∃ c, c.isUpper ∧ arg = .element (String.ofList [c]) ∧ options.optimize = true
  . obtain ⟨c, hc, rfl, hoptimize⟩ := hletter
    exact ⟨_, matches_doubled hc hoptimize⟩
  . apply matches_call hwrapper List.mem_cons_self harg
    have heach : (Typst.Formula.eachOfTex options [arg] >>= Typst.OfTex.byName options "mathbb") =
        Typst.OfTex.byName options "mathbb" [image] := by
      rw [eachOfTex_cons harg.forth rfl]
      rfl
    cases arg
    case element letter =>
      have hcapital : (options.optimize && Typst.OfTex.isCapital letter) = false := by
        rw [Bool.and_eq_false_iff, ← Bool.not_eq_true, Classical.or_iff_not_imp_left,
          Classical.not_not]
        intro hoptimize
        rw [← Bool.not_eq_true]
        intro hcapital
        unfold Typst.OfTex.isCapital at hcapital
        split at hcapital
        next c hc =>
          refine hletter ⟨c, hcapital, ?_, hoptimize⟩
          rw [← hc, String.ofList_toList]
        . contradiction
      cases harg.forth
      change (if options.optimize && Typst.OfTex.isCapital letter then _ else
        Typst.OfTex.byName options "mathbb" [Typst.OfTex.element letter]) = _
      rw [hcapital]
      rfl
    all_goals exact heach

section Commands

variable {arg other : Formula} {first second : Typst.Formula}

theorem matches_fraction (hnum : Matches options arg first) (hden : Matches options other second)
    : ∃ image, Matches options (.call "frac" [arg, other]) image := by
  have hforth : Typst.Formula.ofTex options (.call "frac" [arg, other]) = .ok
      (if options.fracToSlash then .frac first second else .plainCall "frac" [first, second]) :=
    bind_bind_of_ok hnum.forth hden.forth
  cases hslash : options.fracToSlash
  . rw [hslash] at hforth
    refine ⟨_, hforth, bind_bind_of_ok hnum.back hden.back, fun _ => rfl, ?_, nofun⟩
    simp [Typst.Formula.plainCall]
  . rw [hslash] at hforth
    exact ⟨_, hforth, bind_bind_of_ok hnum.back hden.back, fun _ => rfl, nofun, nofun⟩

theorem matches_binomial (hn : Matches options arg first) (hk : Matches options other second)
    : Matches options (.call "binom" [arg, other]) (.plainCall "binom" [first, second]) where
  forth := bind_bind_of_ok hn.forth hk.forth
  back := bind_bind_of_ok hn.back hk.back
  tall := fun _ => rfl
  notLimits := by simp [Typst.Formula.plainCall]
  notBlank := nofun

theorem matches_squareRoot (h : Matches options arg first)
    : Matches options (.func "sqrt" [arg] none) (.plainCall "sqrt" [first]) where
  forth := bind_of_ok h.forth
  back := bind_of_ok h.back
  tall := (EachMatches.nil.cons h).tall
  notLimits := by simp [Typst.Formula.plainCall]
  notBlank := nofun

theorem matches_root (hradicand : Matches options arg first) (hdegree : Matches options other second)
    : Matches options (.func "sqrt" [arg] (some other)) (.plainCall "root" [second, first]) where
  forth := bind_bind_of_ok hdegree.forth hradicand.forth
  back := bind_bind_of_ok hradicand.back hdegree.back
  tall := by
    simp only [isTall, anyTall, Typst.Formula.plainCall, Typst.Formula.isTall,
      Typst.Formula.anyTall, Bool.or_false, Bool.or_eq_true]
    rintro (hname | htall)
    . contradiction
    . exact .inr (.inr (hradicand.tall htall))
  notLimits := by simp [Typst.Formula.plainCall]
  notBlank := by simp [Typst.Formula.plainCall]

theorem matches_bold (h : Matches options arg first)
    : Matches options (.call "mathbf" [arg])
      (.plainCall "upright" [.plainCall "bold" [first]]) where
  forth := bind_of_ok h.forth
  back := bind_of_ok h.back
  tall := by
    simp only [call, isTall, anyTall, Typst.Formula.plainCall, Typst.Formula.isTall,
      Typst.Formula.anyTall, Bool.or_false, Bool.or_eq_true]
    rintro (hname | htall)
    . contradiction
    . exact .inr (.inr (h.tall htall))
  notLimits := by simp [Typst.Formula.plainCall]
  notBlank := by simp [Typst.Formula.plainCall]

theorem optionOfTypst_some (h : ofTypst options image = .ok node)
    : optionOfTypst options (some image) = .ok (some node) :=
  bind_of_ok h

theorem isEqualSign_eq_false (hne : other ≠ .element "=")
    : Typst.OfTex.isEqualSign other = false := by
  cases other
  case element s => simpa [Typst.OfTex.isEqualSign] using hne
  all_goals rfl

theorem matches_overset (htop : Matches options arg first) (hbase : Matches options other second)
    (hne : other ≠ .element "=")
    : Matches options (.call "overset" [arg, other])
      (.attach (.plainCall "limits" [second]) none (some first)) where
  forth := by
    change (if options.optimize && Typst.OfTex.isDef arg && Typst.OfTex.isEqualSign other then _
      else _) = _
    rw [isEqualSign_eq_false hne, Bool.and_false]
    exact bind_bind_of_ok hbase.forth htop.forth
  back := by
    refine (bind_bind_of_ok rfl (optionOfTypst_some htop.back)).trans ?_
    exact bind_of_ok hbase.back
  tall := by
    simp only [call, isTall, anyTall, Typst.Formula.plainCall, Typst.Formula.isTall,
      Typst.Formula.anyTall, Typst.Formula.optionTall, Bool.or_false, Bool.or_eq_true]
    rintro (hname | htall | htall)
    . contradiction
    . exact .inr (htop.tall htall)
    . exact .inl (.inr (hbase.tall htall))
  notLimits := nofun
  notBlank := nofun

theorem matches_underset (hbottom : Matches options arg first) (hbase : Matches options other second)
    : Matches options (.call "underset" [arg, other])
      (.attach (.plainCall "limits" [second]) (some first) none) where
  forth := bind_bind_of_ok hbase.forth hbottom.forth
  back := by
    refine (bind_bind_of_ok (optionOfTypst_some hbottom.back) rfl).trans ?_
    exact bind_of_ok hbase.back
  tall := by
    simp only [call, isTall, anyTall, Typst.Formula.plainCall, Typst.Formula.isTall,
      Typst.Formula.anyTall, Typst.Formula.optionTall, Bool.or_false, Bool.or_eq_true]
    rintro (hname | htall | htall)
    . contradiction
    . exact .inr (hbottom.tall htall)
    . exact .inl (.inr (hbase.tall htall))
  notLimits := nofun
  notBlank := nofun

end Commands

theorem exists_matches_text {s : String} (hwrapper : options.HasPlainWrapper) (hne : s ≠ "")
    : ∃ image, Matches options (.call "text" [.text s]) image := by
  have hforth : Typst.Formula.ofTex options (.call "text" [.text s]) =
      .ok (Typst.OfTex.text options s) := rfl
  unfold Typst.OfTex.text at hforth
  split at hforth
  next hwrapped =>
    have hhead : OfTypst.Head.ofName options.nonAsciiWrapper = .other := by
      cases hwrapper with
      | inl hempty => simp [hempty] at hwrapped
      | inr hplain => exact hplain.1
    refine ⟨_, hforth, ofTypst_wrapper hhead, nofun, ?_, nofun⟩
    intro args heq
    simp only [Typst.Formula.plainCall, Typst.Formula.call.injEq] at heq
    rw [heq.1] at hhead
    contradiction
  . exact ⟨_, hforth, rfl, nofun, nofun, by simpa using hne⟩

theorem matches_operator {name : String} (htrim : trim name = name)
    (h : Symbol.isOperator name = false)
    : Matches options (.call "operatorname" [.text name]) (.plainCall "op" [.text name]) where
  forth := by
    change Except.ok (Typst.OfTex.operator name) = _
    rw [Typst.OfTex.operator, htrim, h]
    rfl
  back := rfl
  tall := nofun
  notLimits := by simp [Typst.Formula.plainCall]
  notBlank := nofun

theorem matches_limitsOperator {name : String} (htrim : trim name = name)
    : Matches options (.call "operatorname*" [.text name])
      (.call "op" [.text name] [("limits", .symbol "#true")]) where
  forth := by
    change Except.ok (Typst.Formula.call "op" [.text (trim name)] _) = _
    rw [htrim]
  back := rfl
  tall := nofun
  notLimits := by simp
  notBlank := nofun

theorem matches_hspace {length : String} (hne : length ≠ "")
    (hblank : ∀ c ∈ length.toList, Text.isBlank c = false) (hthin : length ≠ "-math.thin.amount")
    : Matches options (.call "hspace" [.text length]) (.plainCall "#h" [.atom length]) where
  forth := by
    change Except.ok (Typst.Formula.plainCall "#h" [.atom (trim length)]) = _
    rw [trim_of_no_blank hblank]
  back := by
    change Except.ok (OfTypst.space (.atom length)) = _
    simp only [OfTypst.space, plain_atom hne hblank, beq_iff_eq, if_neg hthin]
  tall := nofun
  notLimits := by simp [Typst.Formula.plainCall]
  notBlank := nofun

theorem fenceName?_right (left : String) : Typst.OfTex.fenceName? left "" = none := by
  simp [Typst.OfTex.fenceName?]

theorem fenceName?_left (right : String) : Typst.OfTex.fenceName? "" right = none := by
  simp [Typst.OfTex.fenceName?]

theorem exists_delimiter? {delim : Option String} (h : ∀ d ∈ delim, IsStableDelimiter d)
    : ∃ mapped, Typst.OfTex.delimiter? delim = .ok mapped ∧
      OfTypst.delimiter? mapped = .ok delim := by
  cases delim with
  | none => exact ⟨none, rfl, rfl⟩
  | some d =>
    obtain ⟨mapped, hforth, hback⟩ := h d rfl
    exact ⟨some mapped, bind_of_ok hforth, bind_of_ok hback⟩

theorem exists_matches_delimited {left right : Option String} {body : Formula}
    (hbody : Matches options body image)
    (hleft : ∀ delim ∈ left, IsStableDelimiter delim)
    (hright : ∀ delim ∈ right, IsStableDelimiter delim)
    (hscaled : Typst.OfTex.scaled? left right image = none)
    (hname : options.optimize → Typst.OfTex.fenceName? (left.getD "") (right.getD "") = none)
    : ∃ image, Matches options (.leftRight left body right) image := by
  obtain ⟨opening, hleftForth, hleftBack⟩ := exists_delimiter? hleft
  obtain ⟨closing, hrightForth, hrightBack⟩ := exists_delimiter? hright
  refine ⟨.leftRight opening image closing, ?_, ?_, hbody.tall, nofun, nofun⟩
  . refine (bind_of_ok hbody.forth).trans ?_
    have hfence : (if options.optimize then
        Typst.OfTex.fenceName? (left.getD "") (right.getD "") else none) = none :=
      ite_eq_right_iff.mpr hname
    simp only [Typst.OfTex.enclose, hscaled, hfence]
    exact bind_bind_of_ok hleftForth hrightForth
  . exact (bind_bind_of_ok hleftBack hrightBack).trans (bind_of_ok hbody.back)

theorem anyTall_nodesOf (h : image.isTall)
    : Typst.Formula.anyTall (Typst.OfTex.nodesOf image) := by
  cases image
  case group => exact h
  case empty => contradiction
  all_goals simp [Typst.OfTex.nodesOf, Typst.Formula.anyTall, h]

theorem matches_parens {body : Formula} (hbody : Matches options body image) (htall : body.isTall)
    : Matches options (.leftRight (some "(") body (some ")"))
      (.parens (Typst.OfTex.nodesOf image)) where
  forth := bind_of_ok hbody.forth
  back := by
    have hne : body.isEmpty = false := by
      cases body
      case empty => contradiction
      all_goals rfl
    have henclose : ∀ nodes images, eachOfTypst options images = .ok nodes →
        Typst.Formula.anyTall images →
        ofList (nodes.filter fun node => !node.isEmpty) = body →
        ofTypst options (.parens images) = .ok (.leftRight (some "(") body (some ")")) := by
      intro nodes images heach hany hlist
      refine (bind_of_ok heach).trans ?_
      rw [hlist, hany]
      rfl
    have hsingle : ofTypst options (.parens [image]) =
        .ok (.leftRight (some "(") body (some ")")) := by
      refine henclose [body] [image] (eachOfTypst_cons hbody.back rfl) ?_ ?_
      . simp [Typst.Formula.anyTall, hbody.tall htall]
      . simp [hne, ofList]
    cases image
    case group images =>
      obtain ⟨nodes, heach, hlist⟩ := exists_of_bind_eq_ok hbody.back
      exact henclose nodes images heach (hbody.tall htall) (Except.ok.inj hlist)
    case empty => exact absurd (hbody.tall htall) Bool.false_ne_true
    all_goals exact hsingle
  tall := fun _ => anyTall_nodesOf (hbody.tall htall)
  notLimits := by simp
  notBlank := by simp

theorem matches_fence {left right name : String} {body : Formula}
    (hbody : Matches options body image) (htall : body.isTall)
    (hscaled : ∀ body, Typst.OfTex.scaled? (some left) (some right) body = none)
    (hoptimize : options.optimize) (hname : Typst.OfTex.fenceName? left right = some name)
    (hback : OfTypst.Head.ofName name = .fence left right)
    : Matches options (.leftRight (some left) body (some right)) (.plainCall name [image]) where
  forth := by
    refine (bind_of_ok hbody.forth).trans ?_
    simp only [Typst.OfTex.enclose, hscaled, hoptimize, if_true, Option.getD_some, hname]
  back := by
    rw [Typst.Formula.plainCall, ofTypst.eq_def]
    simp only [hback]
    refine (bind_of_ok hbody.back).trans ?_
    rw [hbody.tall htall]
    rfl
  tall := by
    simp only [isTall, Typst.Formula.plainCall, Typst.Formula.isTall, Typst.Formula.anyTall,
      Bool.or_false, Bool.or_eq_true]
    exact fun htall => .inr (hbody.tall htall)
  notLimits := by
    intro args heq
    simp only [Typst.Formula.plainCall, Typst.Formula.call.injEq] at heq
    rw [heq.1] at hback
    contradiction
  notBlank := nofun

theorem exists_matches_fence {left right name : String} {body : Formula}
    (hbody : Matches options body image) (htall : body.isTall)
    (hleft : IsStableDelimiter left) (hright : IsStableDelimiter right)
    (hscaled : ∀ body, Typst.OfTex.scaled? (some left) (some right) body = none)
    (hname : Typst.OfTex.fenceName? left right = some name)
    (hback : OfTypst.Head.ofName name = .fence left right)
    : ∃ image, Matches options (.leftRight (some left) body (some right)) image := by
  cases hoptimize : options.optimize with
  | true => exact ⟨_, matches_fence hbody htall hscaled hoptimize hname hback⟩
  | false =>
    refine exists_matches_delimited hbody ?_ ?_ (hscaled image) (by simp [hoptimize])
    . rintro _ ⟨⟩
      exact hleft
    . rintro _ ⟨⟩
      exact hright

theorem exists_matches_leftRight {left right : Option String} {body : Formula}
    (hbody : Matches options body image) (hfences : KeepsFences options body.isTall left right)
    : ∃ image, Matches options (.leftRight left body right) image := by
  cases hfences with
  | left h =>
    refine exists_matches_delimited hbody ?_ nofun (by simp [Typst.OfTex.scaled?])
      fun _ => fenceName?_right _
    rintro _ ⟨⟩
    exact h
  | right h =>
    refine exists_matches_delimited hbody nofun ?_ rfl fun _ => fenceName?_left _
    rintro _ ⟨⟩
    exact h
  | both hleft hright hscaled hname =>
    refine exists_matches_delimited hbody ?_ ?_ (hscaled image) hname
    . rintro _ ⟨⟩
      exact hleft
    . rintro _ ⟨⟩
      exact hright
  | tall h htall =>
    simp only [tallFences, List.mem_cons, Prod.mk.injEq, List.not_mem_nil, or_false] at h
    rcases h with ⟨rfl, rfl⟩ | h | h | h | h | h
    . exact ⟨_, matches_parens hbody htall⟩
    all_goals
      obtain ⟨rfl, rfl⟩ := h
      exact exists_matches_fence hbody htall ⟨_, rfl, rfl⟩ ⟨_, rfl, rfl⟩ (fun _ => rfl) rfl rfl

theorem exists_matches_env {name : String} {rows : List (List Formula)}
    (hname : name ∈ matrixNames ∨ name = "cases" ∨ name = "aligned")
    (hrows : ∀ row ∈ rows, ∀ cell ∈ row, ∃ image, Matches options cell image)
    : ∃ image, Matches options (.env name none rows) image := by
  obtain ⟨images, hforth, hback⟩ := exists_rowsMatch hrows
  simp only [matrixNames, List.mem_cons, List.not_mem_nil, or_false] at hname
  rcases hname with (rfl | rfl | rfl | rfl | rfl | rfl) | rfl | rfl
  case inr.inl =>
    exact ⟨.cases images [], bind_of_ok hforth, bind_of_ok hback, fun _ => rfl, by simp, by simp⟩
  case inr.inr =>
    exact ⟨.align images, bind_of_ok hforth, bind_of_ok hback, fun _ => rfl, by simp, by simp⟩
  all_goals
    exact ⟨.matrix images _, bind_of_ok hforth, bind_of_ok hback, fun _ => rfl, by simp, by simp⟩

theorem exists_matches_attach {base : Formula} {sub sup : Option Formula}
    (hbase : Matches options base image)
    (hsub : ∀ node ∈ sub, ∃ image, Matches options node image)
    (hsup : ∀ node ∈ sup, ∃ image, Matches options node image)
    (hover : ∀ body degree label, base = .func "overbrace" [body] degree → sub = none → sup = some label → False)
    (hunder : ∀ body degree label, base = .func "underbrace" [body] degree → sub = some label → sup = none → False)
    : ∃ image, Matches options (.attach base sub sup) image := by
  obtain ⟨subImage, hsubForth, hsubBack, hsubTall⟩ := exists_optionMatches hsub
  obtain ⟨supImage, hsupForth, hsupBack, hsupTall⟩ := exists_optionMatches hsup
  refine ⟨.attach image subImage supImage, ?_, ?_, ?_, nofun, nofun⟩
  . rw [Typst.Formula.ofTex.eq_def]
    dsimp only
    split
    . exact (hover _ _ _ rfl rfl rfl).elim
    . exact (hunder _ _ _ rfl rfl rfl).elim
    . rw [hbase.forth, hsubForth, hsupForth]
      rfl
  . rw [ofTypst.eq_def]
    dsimp only
    rw [hsubBack, hsupBack]
    refine (bind_bind_of_ok rfl rfl).trans ?_
    split
    . exact absurd rfl (hbase.notLimits _)
    . exact absurd rfl hbase.notBlank
    . exact bind_of_ok hbase.back
  . simp only [isTall, Typst.Formula.isTall, Bool.or_eq_true]
    exact Or.imp (Or.imp hbase.tall hsubTall) hsupTall

theorem exists_matches_labelled {name : String} {sub sup : Option Formula} {body label : Formula}
    {labelImage : Typst.Formula}
    (h : (name, sub, sup) ∈ [("overbrace", none, some label), ("underbrace", some label, none)])
    (hbody : Matches options body image) (hlabel : Matches options label labelImage)
    : ∃ image, Matches options (.attach (.call name [body]) sub sup) image := by
  simp only [List.mem_cons, Prod.mk.injEq, List.not_mem_nil, or_false] at h
  rcases h with ⟨rfl, rfl, rfl⟩ | ⟨rfl, rfl, rfl⟩
  all_goals
    refine ⟨.plainCall _ [image, labelImage], bind_bind_of_ok hbody.forth hlabel.forth,
      bind_bind_of_ok hbody.back hlabel.back, ?_, ?_, ?_⟩
    . simp only [call, isTall, anyTall, optionTall, Typst.Formula.plainCall, Typst.Formula.isTall,
        Typst.Formula.anyTall, Bool.or_false, Bool.or_eq_true]
      rintro ((hname | htall) | htall)
      . contradiction
      . exact .inr (.inl (hbody.tall htall))
      . exact .inr (.inr (hlabel.tall htall))
    all_goals simp [Typst.Formula.plainCall]

/--
A brace is without a degree and has a body with a match.
-/
def BraceMatches (options : Options) (node : Formula) : Prop :=
  ∀ name ∈ ["overbrace", "underbrace"], ∀ body degree, node = .func name [body] degree →
    degree = none ∧ ∃ image, Matches options body image

theorem braceMatches_of_call {name : String} {args : List Formula} {degree : Option Formula}
    (h : name ∉ ["overbrace", "underbrace"]) : BraceMatches options (.func name args degree) := by
  rintro other hother body degree ⟨⟩
  exact absurd hother h

theorem exists_matches_script {base : Formula} {sub sup : Option Formula}
    (hbase : Matches options base image) (hbrace : BraceMatches options base)
    (hsub : ∀ node ∈ sub, ∃ image, Matches options node image)
    (hsup : ∀ node ∈ sup, ∃ image, Matches options node image)
    : ∃ image, Matches options (.attach base sub sup) image := by
  by_cases hlabelled : ∃ name body degree label, base = .func name [body] degree ∧
      (name, sub, sup) ∈ [("overbrace", none, some label), ("underbrace", some label, none)]
  . obtain ⟨name, body, degree, label, rfl, hmem⟩ := hlabelled
    have hname : name ∈ ["overbrace", "underbrace"] := by
      simp only [List.mem_cons, Prod.mk.injEq, List.not_mem_nil, or_false] at hmem ⊢
      exact hmem.imp And.left And.left
    obtain ⟨rfl, bodyImage, hbody⟩ := hbrace name hname body degree rfl
    have hlabel : ∃ image, Matches options label image := by
      simp only [List.mem_cons, Prod.mk.injEq, List.not_mem_nil, or_false] at hmem
      rcases hmem with ⟨_, _, rfl⟩ | ⟨_, rfl, _⟩
      . exact hsup label rfl
      . exact hsub label rfl
    obtain ⟨labelImage, hlabel⟩ := hlabel
    exact exists_matches_labelled hmem hbody hlabel
  . apply exists_matches_attach hbase hsub hsup
    . rintro body degree label rfl rfl rfl
      exact hlabelled ⟨_, body, degree, label, rfl, by simp⟩
    . rintro body degree label rfl rfl rfl
      exact hlabelled ⟨_, body, degree, label, rfl, by simp⟩

theorem exists_matches (hwrapper : options.HasPlainWrapper) (h : Canonical options node)
    : (∃ image, Matches options node image) ∧ BraceMatches options node := by
  induction h with
  | empty => exact ⟨⟨.empty, rfl, rfl, nofun, nofun, nofun⟩, nofun⟩
  | element hmem hkind hbar =>
    exact ⟨exists_matches_element (isElement_of_mem_tokenize hmem hkind) hbar, nofun⟩
  | @symbol name mapped hto hof =>
    refine ⟨⟨.symbol mapped, ?_, hof, nofun, nofun, nofun⟩, nofun⟩
    change Typst.OfTex.symbol options name = _
    rw [Typst.OfTex.symbol, hto]
  | control hs => exact ⟨exists_matches_control hs, nofun⟩
  | comment s => exact ⟨⟨.comment s, rfl, rfl, nofun, nofun, nofun⟩, nofun⟩
  | group hlength _ hne ih =>
    obtain ⟨images, himages⟩ := exists_eachMatches fun node hmem => (ih node hmem).1
    exact ⟨⟨_, himages.group hlength hne⟩, nofun⟩
  | attach _ _ _ _ ihbase ihsub ihsup =>
    obtain ⟨⟨image, himage⟩, hbrace⟩ := ihbase
    exact ⟨exists_matches_script himage hbrace (fun node hmem => (ihsub node hmem).1)
      fun node hmem => (ihsup node hmem).1, nofun⟩
  | @named name arg hname _ ih =>
    obtain ⟨⟨image, himage⟩, _⟩ := ih
    refine ⟨matches_call hwrapper (List.mem_cons_of_mem _ hname) himage
      (ofTex_call_one (ofName_namedCommands name hname) himage.forth), ?_⟩
    rintro other _ body degree ⟨⟩
    exact ⟨rfl, image, himage⟩
  | fraction _ _ ihnum ihden =>
    obtain ⟨⟨⟨_, hnum⟩, _⟩, ⟨_, hden⟩, _⟩ := And.intro ihnum ihden
    exact ⟨matches_fraction hnum hden, braceMatches_of_call (by decide)⟩
  | binomial _ _ ihn ihk =>
    obtain ⟨⟨⟨_, hn⟩, _⟩, ⟨_, hk⟩, _⟩ := And.intro ihn ihk
    exact ⟨⟨_, matches_binomial hn hk⟩, braceMatches_of_call (by decide)⟩
  | @root radicand degree _ _ ihradicand ihdegree =>
    obtain ⟨⟨_, hradicand⟩, _⟩ := ihradicand
    refine ⟨?_, braceMatches_of_call (by decide)⟩
    cases degree with
    | none => exact ⟨_, matches_squareRoot hradicand⟩
    | some degree =>
      obtain ⟨⟨_, hdegree⟩, _⟩ := ihdegree degree rfl
      exact ⟨_, matches_root hradicand hdegree⟩
  | bold _ ih =>
    obtain ⟨⟨_, himage⟩, _⟩ := ih
    exact ⟨⟨_, matches_bold himage⟩, braceMatches_of_call (by decide)⟩
  | blackboard _ ih =>
    obtain ⟨⟨_, himage⟩, _⟩ := ih
    exact ⟨matches_blackboard hwrapper himage, braceMatches_of_call (by decide)⟩
  | overset _ _ hne ihtop ihbase =>
    obtain ⟨⟨⟨_, htop⟩, _⟩, ⟨_, hbase⟩, _⟩ := And.intro ihtop ihbase
    exact ⟨⟨_, matches_overset htop hbase hne⟩, braceMatches_of_call (by decide)⟩
  | underset _ _ ihbottom ihbase =>
    obtain ⟨⟨⟨_, hbottom⟩, _⟩, ⟨_, hbase⟩, _⟩ := And.intro ihbottom ihbase
    exact ⟨⟨_, matches_underset hbottom hbase⟩, braceMatches_of_call (by decide)⟩
  | text hne => exact ⟨exists_matches_text hwrapper hne, braceMatches_of_call (by decide)⟩
  | operator htrim hname =>
    exact ⟨⟨_, matches_operator htrim hname⟩, braceMatches_of_call (by decide)⟩
  | limitsOperator htrim =>
    exact ⟨⟨_, matches_limitsOperator htrim⟩, braceMatches_of_call (by decide)⟩
  | hspace hne hblank hthin =>
    exact ⟨⟨_, matches_hspace hne hblank hthin⟩, braceMatches_of_call (by decide)⟩
  | leftRight _ hfences ih =>
    obtain ⟨⟨_, himage⟩, _⟩ := ih
    exact ⟨exists_matches_leftRight himage hfences, nofun⟩
  | env hname _ ih =>
    exact ⟨exists_matches_env hname fun row hrow cell hcell => (ih row hrow cell hcell).1, nofun⟩

/--
A formula with one preferred spelling in either language survives its conversion to Typst and back.
-/
theorem ofTypst_ofTex (options : Options) (hwrapper : options.HasPlainWrapper) (node : Formula)
    (h : Canonical options node)
    : ∃ image, Typst.Formula.ofTex options node = .ok image ∧
      ofTypst options image = .ok node := by
  obtain ⟨⟨image, himage⟩, _⟩ := exists_matches hwrapper h
  exact ⟨image, himage.forth, himage.back⟩

theorem ofTypst_ofTex_fraction
    : ∃ image,
      Typst.Formula.ofTex {} (.leftRight (some "(")
        (.call "frac" [.symbol "alpha", .call "hat" [.symbol "beta"]]) (some ")")) = .ok image ∧
      ofTypst {} image = .ok (.leftRight (some "(")
        (.call "frac" [.symbol "alpha", .call "hat" [.symbol "beta"]]) (some ")")) := by
  have hnum : Canonical {} (.symbol "alpha") := .symbol rfl rfl
  have hden : Canonical {} (.call "hat" [.symbol "beta"]) := .named (by decide) (.symbol rfl rfl)
  exact ofTypst_ofTex {} (.inl rfl) _ (.leftRight (.fraction hnum hden) (.tall (by decide) rfl))

end Formula
end Tex
end MathMarkup
