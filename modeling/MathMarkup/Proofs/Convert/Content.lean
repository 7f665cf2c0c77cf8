import Mathlib.Algebra.Order.Group.Multiset
import MathMarkup.Proofs.Convert.OfTex
import MathMarkup.Proofs.Tex.Subformulas

/-!
This module contains the proof that the conversion from TeX neither loses nor duplicates content:
letters, numbers, characters beyond ASCII and comments are the same before and after, however the
formulas around them are rearranged.
-/

namespace MathMarkup

/--
Whether the text of an element is a letter, a number or a character beyond ASCII, and not
punctuation.
-/
def isContent (text : String) : Bool :=
  text.toList.any fun c => c.isAlphanum || 128 ≤ c.toNat

def count {α : Type} (leaf : α → Option String) (nodes : List α) : Multiset String :=
  nodes.filterMap leaf

section Count

variable {α : Type} {leaf : α → Option String} {node : α} {nodes more : List α}

@[simp]
theorem count_nil : count leaf [] = 0 := rfl

@[simp]
theorem count_append : count leaf (nodes ++ more) = count leaf nodes + count leaf more := by
  simp [count]

theorem count_singleton : count leaf [node] = (leaf node).elim 0 fun text => {text} := by
  cases h : leaf node with
  | none => simp [count, h]
  | some text => simp [count, h]

theorem count_cons_of_none (h : leaf node = none)
    : count leaf (node :: nodes) = count leaf nodes := by
  simp [count, h]

end Count

namespace Tex.Formula

def content? : Formula → Option String
  | .element s => if isContent s then some s else none
  | _ => none

def comment? : Formula → Option String
  | .comment s => some s
  | _ => none

/--
The letters, numbers and characters beyond ASCII of a formula.
-/
def contents (node : Formula) : Multiset String :=
  count content? node.subformulas

def comments (node : Formula) : Multiset String :=
  count comment? node.subformulas

end Tex.Formula

namespace Typst.Formula

mutual

/--
The formula and the formulas within it, without the arguments of calls that `enters` excludes.
-/
def parts (enters : String → Bool) : Formula → List Formula
  | .group nodes => .group nodes :: eachParts enters nodes
  | .parens nodes => .parens nodes :: eachParts enters nodes
  | .attach base sub sup =>
    .attach base sub sup ::
      (base.parts enters ++ optionParts enters sub ++ optionParts enters sup)
  | .call name args named =>
    .call name args named ::
      (if enters name then eachParts enters args ++ namedParts enters named else [])
  | .frac num den => .frac num den :: (num.parts enters ++ den.parts enters)
  | .leftRight left body right => .leftRight left body right :: body.parts enters
  | .matrix rows named => .matrix rows named :: (rowsParts enters rows ++ namedParts enters named)
  | .cases rows named => .cases rows named :: (rowsParts enters rows ++ namedParts enters named)
  | .align rows => .align rows :: rowsParts enters rows
  | node => [node]

def eachParts (enters : String → Bool) : List Formula → List Formula
  | [] => []
  | node :: nodes => node.parts enters ++ eachParts enters nodes

def rowsParts (enters : String → Bool) : List (List Formula) → List Formula
  | [] => []
  | row :: rows => eachParts enters row ++ rowsParts enters rows

def optionParts (enters : String → Bool) : Option Formula → List Formula
  | none => []
  | some node => node.parts enters

def namedParts (enters : String → Bool) : List (String × Formula) → List Formula
  | [] => []
  | (_, node) :: named => node.parts enters ++ namedParts enters named

end

theorem eachParts_append (enters : String → Bool) (nodes more : List Formula)
    : eachParts enters (nodes ++ more) = eachParts enters nodes ++ eachParts enters more := by
  induction nodes with
  | nil => rfl
  | cons node nodes ih => simp [eachParts, ih]

theorem parts_bracketed (enters : String → Bool) (opening closing : String) (body : Formula)
    : (OfTex.bracketed opening body closing).parts enters =
      OfTex.bracketed opening body closing ::
        .atom opening :: (eachParts enters (OfTex.nodesOf body) ++ [.atom closing]) := by
  rw [OfTex.bracketed, parts, List.cons_append, eachParts, eachParts_append]
  simp [eachParts, parts]

def content? : Formula → Option String
  | .atom s => if isContent s then some s else none
  | _ => none

def comment? : Formula → Option String
  | .comment s => some s
  | _ => none

/--
Whether the formula is a leaf other than an atom or a comment.
-/
def isSilent : Formula → Bool
  | .symbol _ | .text _ | .space _ | .control _ | .nothing | .empty => true
  | _ => false

/--
The letters, numbers and characters beyond ASCII of a formula. The lengths of spaces are not
content.
-/
def contents (node : Formula) : Multiset String :=
  count content? (node.parts (· != "#h"))

def comments (node : Formula) : Multiset String :=
  count comment? (node.parts fun _ => true)

end Typst.Formula

namespace Typst

open OfTex Formula

/--
Two ways of counting leaves that agree on what the conversion makes of a leaf, and in which nothing
counts that the conversion adds.
-/
structure Agree (leaf : Tex.Formula → Option String) (leaf' : Formula → Option String)
    (enters : String → Bool) : Prop where
  element : ∀ text, leaf' (OfTex.element text) = leaf (.element text)
  comment : ∀ text, leaf' (.comment text) = leaf (.comment text)
  silent : ∀ node, leaf node ≠ none → node matches .element _ | .comment _
  silent' : ∀ node, leaf' node ≠ none → node matches .atom _ | .comment _
  bracket : ∀ text ∈ ["[", "]", "\x7b", "\x7d"], leaf' (.atom text) = none
  calls : ∀ name, name ≠ "#h" → enters name
  spacing : enters "#h" → ∀ text, leaf' (.atom text) = none

theorem agree_content : Agree Tex.Formula.content? content? (· != "#h") where
  element text := by
    unfold OfTex.element
    split
    all_goals rfl
  comment _ := rfl
  silent node := by cases node <;> simp [Tex.Formula.content?]
  silent' node := by cases node <;> simp [content?]
  bracket := by decide
  calls name h := by simpa using h
  spacing h := by contradiction

theorem agree_comment : Agree Tex.Formula.comment? comment? fun _ => true where
  element text := by
    unfold OfTex.element
    split
    all_goals rfl
  comment _ := rfl
  silent node := by cases node <;> simp [Tex.Formula.comment?]
  silent' node := by cases node <;> simp [comment?]
  bracket := by decide
  calls _ _ := rfl
  spacing _ _ := rfl

section Keeps

variable {options : Options} {leaf : Tex.Formula → Option String}
  {leaf' : Formula → Option String} {enters : String → Bool}

theorem Agree.leaf_eq_none (h : Agree leaf leaf' enters) {node : Tex.Formula}
    (hnode : (node matches .element _ | .comment _) = false) : leaf node = none := by
  by_contra hne
  exact Bool.false_ne_true (hnode.symm.trans (h.silent node hne))

theorem Agree.leaf'_eq_none (h : Agree leaf leaf' enters) {u : Formula}
    (hu : (u matches .atom _ | .comment _) = false) : leaf' u = none := by
  by_contra hne
  exact Bool.false_ne_true (hu.symm.trans (h.silent' u hne))

/--
The image of a formula counts for as much as the formula.
-/
def Keeps (options : Options) (leaf : Tex.Formula → Option String)
    (leaf' : Formula → Option String) (enters : String → Bool) (node : Tex.Formula) : Prop :=
  Yields (ofTex options node) fun image =>
    count leaf' (image.parts enters) = count leaf node.subformulas

variable {node : Tex.Formula} {nodes args : List Tex.Formula}

theorem yields_each (h : ∀ node ∈ nodes, Keeps options leaf leaf' enters node)
    : Yields (eachOfTex options nodes) fun images =>
        count leaf' (eachParts enters images) = count leaf (Tex.Formula.eachSubformulas nodes) := by
  induction nodes with
  | nil => exact yields_ok rfl
  | cons node nodes ih =>
    obtain ⟨hnode, hnodes⟩ := List.forall_mem_cons.1 h
    rw [eachOfTex]
    refine hnode.bind fun image himage => (ih hnodes).bind fun images himages => yields_ok ?_
    simp only [eachParts, Tex.Formula.eachSubformulas, count_append, himage, himages]

theorem yields_rows {rows : List (List Tex.Formula)}
    (h : ∀ row ∈ rows, ∀ cell ∈ row, Keeps options leaf leaf' enters cell)
    : Yields (rowsOfTex options rows) fun images =>
        count leaf' (rowsParts enters images) = count leaf (Tex.Formula.rowsSubformulas rows) := by
  induction rows with
  | nil => exact yields_ok rfl
  | cons row rows ih =>
    obtain ⟨hrow, hrows⟩ := List.forall_mem_cons.1 h
    rw [rowsOfTex]
    refine (yields_each hrow).bind fun image himage =>
      (ih hrows).bind fun images himages => yields_ok ?_
    simp only [rowsParts, Tex.Formula.rowsSubformulas, count_append, himage, himages]

theorem yields_option {script : Option Tex.Formula}
    (h : ∀ node ∈ script, Keeps options leaf leaf' enters node)
    : Yields (optionOfTex options script) fun image =>
        count leaf' (optionParts enters image) =
          count leaf (Tex.Formula.optionSubformulas script) := by
  cases script with
  | none => exact yields_ok rfl
  | some node =>
    rw [optionOfTex]
    exact (h node rfl).bind fun image himage => yields_ok himage

namespace Agree

theorem count_group (h : Agree leaf leaf' enters) (images : List Formula)
    : count leaf' ((Formula.group images).parts enters) = count leaf' (eachParts enters images) := by
  rw [parts, count_cons_of_none (h.leaf'_eq_none rfl)]

theorem count_empty (h : Agree leaf leaf' enters)
    : count leaf' (Formula.empty.parts enters) = 0 := by
  simp [parts, count_cons_of_none (h.leaf'_eq_none (u := .empty) rfl)]

theorem count_ofList (h : Agree leaf leaf' enters) (images : List Formula)
    : count leaf' ((Formula.ofList images).parts enters) =
      count leaf' (eachParts enters images) := by
  match images with
  | [] => exact h.count_empty
  | [image] => simp [Formula.ofList, eachParts]
  | first :: second :: images => exact h.count_group _

theorem count_nonempty (h : Agree leaf leaf' enters) (images : List Formula)
    : count leaf' (eachParts enters (images.filter fun image => !image.isEmpty)) =
      count leaf' (eachParts enters images) := by
  induction images with
  | nil => rfl
  | cons image images ih =>
    cases hempty : image.isEmpty with
    | false => simp [hempty, eachParts, ih]
    | true =>
      cases image with
      | empty => simp [hempty, eachParts, ih, h.count_empty]
      | _ => contradiction

theorem count_nodesOf (h : Agree leaf leaf' enters) (image : Formula)
    : count leaf' (eachParts enters (nodesOf image)) = count leaf' (image.parts enters) := by
  cases image with
  | group nodes => exact (h.count_group nodes).symm
  | empty => exact h.count_empty.symm
  | _ => simp [nodesOf, eachParts]

theorem count_call (h : Agree leaf leaf' enters) {name : String} (hname : name ≠ "#h")
    (args : List Formula)
    : count leaf' ((plainCall name args).parts enters) = count leaf' (eachParts enters args) := by
  rw [plainCall, parts, count_cons_of_none (h.leaf'_eq_none rfl), if_pos (h.calls name hname)]
  simp [namedParts]

theorem count_attach (h : Agree leaf leaf' enters) (base : Formula) (sub sup : Option Formula)
    : count leaf' ((Formula.attach base sub sup).parts enters) =
      count leaf' (base.parts enters) + count leaf' (optionParts enters sub) +
        count leaf' (optionParts enters sup) := by
  rw [parts, count_cons_of_none (h.leaf'_eq_none rfl), count_append, count_append]

theorem count_silent (h : Agree leaf leaf' enters) {u : Formula} (hu : u.isSilent)
    : count leaf' (u.parts enters) = 0 := by
  cases u with
  | symbol | text | space | control | nothing | empty =>
    exact count_cons_of_none (h.leaf'_eq_none rfl)
  | _ => contradiction

theorem count_node (h : Agree leaf leaf' enters) {t : Tex.Formula} {nodes : List Tex.Formula}
    (ht : (t matches .element _ | .comment _) = false)
    : count leaf (t :: nodes) = count leaf nodes :=
  count_cons_of_none (h.leaf_eq_none ht)

theorem count_leaf (h : Agree leaf leaf' enters) {t : Tex.Formula}
    (ht : t matches .symbol _ | .unknown _ | .text _ | .space _ | .control _ | .empty)
    : count leaf t.subformulas = 0 := by
  cases t with
  | symbol | unknown | text | space | control | empty => exact h.count_node rfl
  | _ => contradiction

theorem count_spacing (h : Agree leaf leaf' enters) (length : String)
    : count leaf' ((plainCall "#h" [.atom length]).parts enters) = 0 := by
  rw [plainCall, parts, count_cons_of_none (h.leaf'_eq_none rfl)]
  split
  next henters =>
    simp [eachParts, namedParts, parts, count_cons_of_none (h.spacing henters length)]
  . rfl

theorem count_call_text (h : Agree leaf leaf' enters) (name s : String)
    {named : List (String × Formula)} (hnamed : count leaf' (namedParts enters named) = 0)
    : count leaf' ((Formula.call name [.text s] named).parts enters) = 0 := by
  rw [parts, count_cons_of_none (h.leaf'_eq_none rfl)]
  split
  . simp [eachParts, hnamed, h.count_silent (u := .text s) rfl]
  . rfl

theorem keeps_element (h : Agree leaf leaf' enters) (s : String)
    : Keeps options leaf leaf' enters (.element s) := by
  apply yields_ok
  have hparts : (OfTex.element s).parts enters = [OfTex.element s] := by
    unfold OfTex.element
    split
    all_goals rfl
  have hnode : (Tex.Formula.element s).subformulas = [.element s] := rfl
  rw [hparts, hnode, count_singleton, count_singleton, h.element]

theorem keeps_comment (h : Agree leaf leaf' enters) (s : String)
    : Keeps options leaf leaf' enters (.comment s) := by
  apply yields_ok
  change count leaf' [.comment s] = count leaf [.comment s]
  rw [count_singleton, count_singleton, h.comment]

theorem keeps_unknown (h : Agree leaf leaf' enters) (s : String)
    : Keeps options leaf leaf' enters (.unknown s) := by
  unfold Keeps ofTex OfTex.unknown
  rw [h.count_leaf rfl]
  split
  . split
    . exact yields_ok (h.count_silent rfl)
    . exact yields_error _
  . split
    . exact yields_ok (h.count_silent rfl)
    . exact yields_error _

theorem keeps_control (h : Agree leaf leaf' enters) (s : String)
    : Keeps options leaf leaf' enters (.control s) := by
  unfold Keeps ofTex OfTex.control
  rw [h.count_leaf rfl]
  split
  case h_3 => exact yields_ok (h.count_spacing _)
  case h_10 => exact yields_error _
  all_goals exact yields_ok (h.count_silent rfl)

theorem keeps_symbol (h : Agree leaf leaf' enters) {name : String}
    (hname : (Symbol.toTypst? name).isSome)
    : Keeps options leaf leaf' enters (.symbol name) := by
  obtain ⟨mapped, hmapped⟩ := Option.isSome_iff_exists.1 hname
  simp only [Keeps, ofTex, OfTex.symbol, hmapped]
  rw [h.count_leaf rfl]
  exact yields_ok (h.count_silent rfl)

theorem keeps_raw (h : Agree leaf leaf' enters) {name : String}
    (hname : name ∈ Tex.textualCommands) (s : String)
    : Keeps options leaf leaf' enters (.func name [.text s] none) := by
  have hcount : count leaf (Tex.Formula.func name [.text s] none).subformulas = 0 := by
    rw [Tex.Formula.subformulas, h.count_node rfl]
    simp [Tex.Formula.eachSubformulas, Tex.Formula.optionSubformulas,
      h.count_leaf (t := Tex.Formula.text s) rfl]
  simp only [Keeps, hcount]
  simp only [Tex.textualCommands, List.mem_cons, List.not_mem_nil, or_false] at hname
  rcases hname with rfl | rfl | rfl | rfl
  . refine yields_ok (a := OfTex.text options s) ?_
    unfold OfTex.text
    split
    . exact h.count_call_text _ s rfl
    . exact h.count_silent rfl
  . refine yields_ok (a := OfTex.operator s) ?_
    unfold OfTex.operator
    split
    . exact h.count_silent rfl
    . exact h.count_call_text _ _ rfl
  . refine yields_ok (h.count_call_text "op" (Text.trim s) ?_)
    simp [namedParts, h.count_silent (u := .symbol _) rfl]
  . exact yields_ok (h.count_spacing (Text.trim s))

theorem keeps_group (h : Agree leaf leaf' enters) {nodes : List Tex.Formula}
    (hnodes : ∀ node ∈ nodes, Keeps options leaf leaf' enters node)
    : Keeps options leaf leaf' enters (.group nodes) := by
  unfold Keeps ofTex
  rw [Tex.Formula.subformulas, h.count_node rfl]
  refine (yields_each hnodes).bind fun images himages => yields_ok ?_
  rw [h.count_ofList, h.count_nonempty, himages]

theorem yields_applied (h : Agree leaf leaf' enters) {args : List Tex.Formula}
    {x : Except ConvertError Formula} (happlied : Applied options args x)
    (hargs : ∀ arg ∈ args, Keeps options leaf leaf' enters arg)
    : Yields x fun image =>
        count leaf' (image.parts enters) = count leaf (Tex.Formula.eachSubformulas args) := by
  cases happlied with
  | call hmapped =>
    refine (yields_each hargs).bind fun images himages => yields_ok ?_
    rw [h.count_call hmapped, himages]
  | fraction num den =>
    simp only [List.forall_mem_cons] at hargs
    refine hargs.1.bind fun num hnum => hargs.2.1.bind fun den hden => yields_ok ?_
    rw [parts, count_cons_of_none (h.leaf'_eq_none rfl)]
    simp [Tex.Formula.eachSubformulas, hnum, hden]
  | bold body =>
    simp only [List.forall_mem_cons] at hargs
    refine hargs.1.bind fun body hbody => yields_ok ?_
    simp [h.count_call, eachParts, Tex.Formula.eachSubformulas, hbody]
  | above top base | below top base =>
    simp only [List.forall_mem_cons] at hargs
    refine hargs.2.1.bind fun base hbase => hargs.1.bind fun top htop => yields_ok ?_
    simp [h.count_attach, h.count_call, optionParts, eachParts, Tex.Formula.eachSubformulas,
      hbase, htop, add_comm]

theorem keeps_attach (h : Agree leaf leaf' enters) {base : Tex.Formula}
    {sub sup : Option Tex.Formula} (hbase : Keeps options leaf leaf' enters base)
    (hsub : ∀ node ∈ sub, Keeps options leaf leaf' enters node)
    (hsup : ∀ node ∈ sup, Keeps options leaf leaf' enters node)
    : Keeps options leaf leaf' enters (.attach base sub sup) := by
  -- A brace with a label is converted from its body, which counts for as much as the brace.
  have hbody {name : String} (hname : name ∈ ["overbrace", "underbrace"]) {body : Tex.Formula}
      {degree : Option Tex.Formula} (heq : base = .func name [body] degree)
      : Yields (ofTex options body) fun image =>
          count leaf' (image.parts enters) = count leaf base.subformulas := by
    intro image himage
    subst heq
    have hne : name ≠ "#h" := by
      rintro rfl
      contradiction
    have hcount : count leaf' ((plainCall name [image]).parts enters) = _ :=
      hbase _ (by rw [ofTex_brace hname, himage]; rfl)
    rw [h.count_call hne] at hcount
    simpa [eachParts] using hcount
  simp only [Keeps, Tex.Formula.subformulas, h.count_node (t := .attach _ _ _) rfl, count_append]
  unfold ofTex
  split
  next label =>
    refine (hbody (by decide) rfl).bind fun body hbody =>
      (hsup label rfl).bind fun label hlabel => yields_ok ?_
    simp [h.count_call, eachParts, Tex.Formula.optionSubformulas, hbody, hlabel]
  next label =>
    refine (hbody (by decide) rfl).bind fun body hbody =>
      (hsub label rfl).bind fun label hlabel => yields_ok ?_
    simp [h.count_call, eachParts, Tex.Formula.optionSubformulas, hbody, hlabel]
  . refine hbase.bind fun base hbase => (yields_option hsub).bind fun sub hsub =>
      (yields_option hsup).bind fun sup hsup => yields_ok ?_
    rw [h.count_attach, hbase, hsub, hsup]

theorem count_bracketed (h : Agree leaf leaf' enters) {opening closing : String}
    (hopening : leaf' (.atom opening) = none) (hclosing : leaf' (.atom closing) = none)
    (image : Formula)
    : count leaf' ((bracketed opening image closing).parts enters) =
      count leaf' (image.parts enters) := by
  rw [parts_bracketed, count_cons_of_none (h.leaf'_eq_none rfl), count_cons_of_none hopening,
    count_append, h.count_nodesOf, count_cons_of_none hclosing, count_nil, add_zero]

theorem count_scaled (h : Agree leaf leaf' enters) {left right : Option String}
    {body image : Formula} (hscaled : scaled? left right body = some image)
    : count leaf' (image.parts enters) = count leaf' (body.parts enters) := by
  unfold scaled? at hscaled
  split at hscaled
  . cases hscaled
    rfl
  . cases hscaled
    rw [parts, count_cons_of_none (h.leaf'_eq_none rfl), h.count_nodesOf]
  . cases hscaled
    exact h.count_bracketed (h.bracket _ (by decide)) (h.bracket _ (by decide)) body
  . split at hscaled
    . cases hscaled
      exact h.count_bracketed (h.bracket _ (by decide)) (h.bracket _ (by decide)) body
    . contradiction
  . contradiction

theorem keeps_leftRight (h : Agree leaf leaf' enters) {left right : Option String}
    {body : Tex.Formula} (hoptimize : options.optimize = false)
    (hbody : Keeps options leaf leaf' enters body)
    : Keeps options leaf leaf' enters (.leftRight left body right) := by
  simp only [Keeps, Tex.Formula.subformulas, h.count_node (t := .leftRight _ _ _) rfl]
  unfold ofTex
  refine hbody.bind fun image himage => ?_
  rw [← himage]
  unfold enclose
  split
  next hscaled => exact yields_ok (h.count_scaled hscaled)
  next =>
    simp only [hoptimize]
    refine (yields_trivial _).bind fun opening _ => (yields_trivial _).bind fun closing _ =>
      yields_ok ?_
    rw [parts, count_cons_of_none (h.leaf'_eq_none rfl)]

theorem count_named (h : Agree leaf leaf' enters) {named : List (String × Formula)}
    (hnamed : ∀ entry ∈ named, entry.2.isSilent)
    : count leaf' (namedParts enters named) = 0 := by
  induction named with
  | nil => rfl
  | cons entry named ih =>
    obtain ⟨hentry, hothers⟩ := List.forall_mem_cons.1 hnamed
    rw [namedParts, count_append, ih hothers, h.count_silent hentry, add_zero]

theorem count_matrix (h : Agree leaf leaf' enters) (rows : List (List Formula))
    {named : List (String × Formula)}
    (hnamed : ∀ entry ∈ named, entry.2.isSilent)
    : count leaf' ((Formula.matrix rows named).parts enters) =
      count leaf' (rowsParts enters rows) := by
  rw [parts, count_cons_of_none (h.leaf'_eq_none rfl), count_append, h.count_named hnamed, add_zero]

end Agree

theorem yields_alignArgument (options : Options) (spec columns : List Char)
    : Yields (alignArgument options spec columns) fun named =>
        ∀ entry ∈ named, entry.2.isSilent := by
  simp only [alignArgument]
  split
  . exact yields_ok (by simp [isSilent])
  . exact yields_ok (by simp [isSilent])
  . exact yields_ok nofun
  . split
    . exact yields_ok nofun
    . exact yields_error _

theorem augmentArgument_silent (lines : List Nat)
    : ∀ entry ∈ augmentArgument lines, entry.2.isSilent := by
  unfold augmentArgument
  split
  all_goals simp [isSilent]

theorem matrixDelimiter?_silent {name : String} {delim : Formula}
    (h : matrixDelimiter? name = some delim) : delim.isSilent := by
  unfold matrixDelimiter? at h
  split at h
  case h_8 => contradiction
  all_goals cases h; rfl

theorem Agree.yields_environment (h : Agree leaf leaf' enters) (name : String)
    (spec : Option String) (rows : List (List Formula))
    : Yields (environment options name spec rows) fun image =>
        count leaf' (image.parts enters) = count leaf' (rowsParts enters rows) := by
  unfold environment
  split
  . apply yields_ok
    rw [parts, count_cons_of_none (h.leaf'_eq_none rfl)]
  . split
    . apply yields_ok
      rw [parts, count_cons_of_none (h.leaf'_eq_none rfl), namedParts, List.append_nil]
    . split
      . simp only [array]
        split
        . refine (yields_alignArgument _ _ _).bind fun align halign => yields_ok ?_
          apply h.count_matrix
          refine List.forall_mem_append.2 ⟨List.forall_mem_cons.2 ⟨rfl, halign⟩, ?_⟩
          exact augmentArgument_silent _
        . exact yields_error _
      . split
        next delim hdelim =>
          apply yields_ok
          apply h.count_matrix
          exact List.forall_mem_singleton.2 (matrixDelimiter?_silent hdelim)
        next => exact yields_error _

theorem Agree.keeps_env (h : Agree leaf leaf' enters) {name : String} {spec : Option String}
    {rows : List (List Tex.Formula)}
    (hcells : ∀ row ∈ rows, ∀ cell ∈ row, Keeps options leaf leaf' enters cell)
    : Keeps options leaf leaf' enters (.env name spec rows) := by
  simp only [Keeps, Tex.Formula.subformulas, h.count_node (t := .env _ _ _) rfl]
  unfold ofTex
  refine (yields_rows hcells).bind fun rows hrows => ?_
  rw [← hrows]
  exact h.yields_environment name spec rows

theorem Agree.keeps_root (h : Agree leaf leaf' enters) {arg degree : Tex.Formula}
    (harg : Keeps options leaf leaf' enters arg) (hdegree : Keeps options leaf leaf' enters degree)
    : Keeps options leaf leaf' enters (.func "sqrt" [arg] (some degree)) := by
  simp only [Keeps, Tex.Formula.subformulas, h.count_node (t := .func _ _ _) rfl]
  unfold ofTex
  refine hdegree.bind fun degree hdegree => harg.bind fun arg harg => yields_ok ?_
  simp [h.count_call, eachParts, Tex.Formula.eachSubformulas, Tex.Formula.optionSubformulas, harg,
    hdegree, add_comm]

theorem Agree.keeps (h : Agree leaf leaf' enters) (hoptimize : options.optimize = false)
    {p : Tex.Token → Prop} {inEnv : Bool} {node : Tex.Formula} (hnode : Tex.Parsed p inEnv node)
    : Keeps options leaf leaf' enters node := by
  induction hnode with
  | element => exact h.keeps_element _
  | comment => exact h.keeps_comment _
  | text | empty =>
    apply yields_ok
    rw [h.count_silent rfl, h.count_leaf rfl]
  | space =>
    apply yields_ok
    rw [h.count_leaf rfl]
    split
    . exact h.count_silent rfl
    . exact h.count_silent rfl
  | character | command => exact h.keeps_unknown _
  | control | separator => exact h.keeps_control _
  | symbol _ hname => exact h.keeps_symbol hname
  | raw hname s => exact h.keeps_raw hname s
  | func hname harity hlength _ ih =>
    simp only [Keeps, Tex.Formula.subformulas, h.count_node (t := .func _ _ _) rfl,
      Tex.Formula.optionSubformulas, List.append_nil]
    exact h.yields_applied (applied_func hoptimize hname harity hlength) ih
  | root _ _ iharg ihdegree => exact h.keeps_root iharg ihdegree
  | group _ _ ih => exact h.keeps_group ih
  | attach _ _ _ heq _ ihbase ihsub ihsup =>
    refine h.keeps_attach ihbase ihsub ?_
    rw [← heq]
    exact Scripts.forall_mem_superscript (h.keeps_element _) (fun _ => h.keeps_group) ihsup
  | leftRight _ _ _ ih => exact h.keeps_leftRight hoptimize ih
  | env _ _ _ _ ih => exact h.keeps_env ih

end Keeps

/--
A formula that was read and its image have the same letters, numbers and characters beyond ASCII,
and the same comments.
-/
theorem contents_ofTex (options : Options) (hoptimize : options.optimize = false) (text : String)
    (node : Tex.Formula) (hparse : Tex.parseText text = .ok node) (image : Formula)
    (himage : ofTex options node = .ok image)
    : image.contents = node.contents ∧ image.comments = node.comments := by
  have hparsed := Tex.yields_parseText text node hparse
  exact ⟨agree_content.keeps hoptimize hparsed image himage,
    agree_comment.keeps hoptimize hparsed image himage⟩

theorem contents_ofTex_root
    : ∃ node image, Tex.parseText "\\sqrt[3]\x7bx\x7d\\overset\x7bé\x7d\x7b=\x7d%done" = .ok node ∧
      ofTex { optimize := false } node = .ok image ∧
      image.contents = {"x", "3", "é"} ∧ image.comments = {"done"} := by
  have hrun : (Tex.parseText "\\sqrt[3]\x7bx\x7d\\overset\x7bé\x7d\x7b=\x7d%done").toOption.map
      (fun node => ((ofTex { optimize := false } node).toOption.isSome, node.contents,
        node.comments)) = some (true, {"x", "3", "é"}, {"done"}) := by
    decide +kernel
  obtain ⟨node, hnode, hruns⟩ := Option.map_eq_some_iff.1 hrun
  simp only [Prod.mk.injEq] at hruns
  obtain ⟨hconverts, hcontents, hcomments⟩ := hruns
  have hnode := eq_ok_of_toOption hnode
  obtain ⟨image, himage⟩ := exists_of_isSome hconverts
  have hkeeps := contents_ofTex _ rfl _ node hnode image himage
  exact ⟨node, image, hnode, himage, hkeeps.1.trans hcontents, hkeeps.2.trans hcomments⟩

end Typst
end MathMarkup
