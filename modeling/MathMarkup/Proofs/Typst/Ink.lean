import Mathlib.Data.List.Forall2
import MathMarkup.Proofs.Typst.Regular
import MathMarkup.Typst.Formula.OfTex

/-!
This module contains what is written for a Typst formula apart from blanks. That is what its pieces
contribute, one after the other, wherever the writer sets spaces. So two formulas are written with
the same ink if their parts are, as long as the writer sees the same parentheses to be needed.
-/

namespace MathMarkup
namespace Typst

open Text

def inked (cs : List Char) : List Char :=
  cs.filter fun c => !isBlank c

/--
The characters that a piece adds to what is written, apart from blanks. Of a text that begins with a
blank, nothing but a space is written, unless it begins with the end of a line.
-/
def Piece.ink : Piece → List Char
  | .softSpace => []
  | .token text =>
    if text.toList.head?.any fun c => isBlank c && c != '\n' then [] else inked text.toList

/--
The characters that pieces add to what is written, apart from blanks.
-/
def ink (pieces : List Piece) : List Char :=
  pieces.flatMap Piece.ink

section Writing

variable {style : Style} {line : Line} {pieces : List Piece} {cs : List Char}

theorem inked_append (front back : List Char) : inked (front ++ back) = inked front ++ inked back :=
  List.filter_append front back

theorem inked_reverse (cs : List Char) : inked cs.reverse = (inked cs).reverse :=
  List.filter_reverse

theorem inked_eq_nil (h : ∀ c ∈ cs, isBlank c) : inked cs = [] := by
  rw [inked, List.filter_eq_nil_iff]
  simpa using h

theorem inked_dropWhile {p : Char → Bool} (hp : ∀ c, p c → isBlank c) (cs : List Char)
    : inked (cs.dropWhile p) = inked cs := by
  induction cs with
  | nil => rfl
  | cons c cs ih =>
    rw [List.dropWhile_cons]
    split
    next hc => rw [ih, inked, inked, List.filter_cons_of_neg (by simp [hp c hc])]
    . rfl

theorem inked_trimEnd (cs : List Char) : inked (trimEnd cs) = inked cs := by
  rw [trimEnd, inked_reverse, inked_dropWhile (fun _ h => h), inked_reverse, List.reverse_reverse]

theorem Line.inked_space (line : Line)
    : inked line.space.reversed.reverse = inked line.reversed.reverse := by
  unfold Line.space
  split
  . rfl
  next last before hreversed =>
    split
    . rfl
    . rw [List.reverse_cons, inked_append]
      exact List.append_nil _

theorem Line.inked_push (line : Line) (text : String)
    : inked (line.push text).reversed.reverse =
      inked line.reversed.reverse ++ Piece.ink (.token text) := by
  rw [Line.push, Piece.ink]
  cases text.toList with
  | nil => exact (List.append_nil _).symm
  | cons first rest =>
    dsimp only [List.head?_cons, Option.any_some]
    split
    next hnewline =>
      have hspaces : ∀ c, (c == ' ') = true → isBlank c := by
        intro c hc
        cases eq_of_beq hc
        decide
      simp only [hnewline, bne_self_eq_false, Bool.and_false, Bool.false_eq_true, if_false,
        List.reverse_append, List.reverse_reverse, inked_append]
      rw [inked_reverse, inked_dropWhile hspaces, ← inked_reverse]
    next hnewline =>
      split
      next hblank => simp [hblank, hnewline, Line.inked_space]
      next hblank =>
        have hgap : inked (if line.needsSpace text then [' '] else []) = [] := by
          split
          all_goals rfl
        simp only [hblank, Bool.false_and, Bool.false_eq_true, if_false, List.reverse_append,
          List.reverse_reverse, inked_append, inked_reverse, hgap, List.reverse_nil,
          List.nil_append]

theorem Line.inked_setPieces (line : Line) (pieces : List Piece)
    : inked (line.setPieces pieces).reversed.reverse =
      inked line.reversed.reverse ++ ink pieces := by
  induction pieces generalizing line with
  | nil => exact (List.append_nil _).symm
  | cons piece pieces ih =>
    cases piece with
    | softSpace =>
      rw [Line.setPieces, ih]
      split
      . rfl
      . rw [Line.inked_space]
        rfl
    | token text =>
      rw [Line.setPieces, ih, Line.inked_push, List.append_assoc]
      rfl

theorem inked_intersperse (texts : List (List Char))
    : inked ((texts.map trimEnd).intersperse ['\n']).flatten = inked texts.flatten := by
  have hnewline : inked ['\n'] = [] := by decide
  match texts with
  | [] => rfl
  | [cs] => simp [inked_trimEnd]
  | cs :: next :: texts =>
    have ih := inked_intersperse (next :: texts)
    rw [List.map_cons] at ih ⊢
    rw [List.map_cons, List.intersperse_cons_cons, List.flatten_cons, List.flatten_cons,
      inked_append, inked_append, hnewline, List.nil_append, ih, inked_trimEnd, ← inked_append]
    rfl

theorem inked_lines_go (cs current : List Char)
    : inked (lines.go cs current).flatten = inked (current.reverse ++ cs) := by
  have hreturn : ∀ current, inked (lines.dropReturn current) = inked current := by
    intro current
    unfold lines.dropReturn
    split
    . rw [inked, inked, List.filter_cons_of_neg (by decide)]
    . rfl
  fun_induction lines.go cs current with
  | case1 => rfl
  | case2 => simp
  | case3 rest current ih =>
    have hrest : inked ('\n' :: rest) = inked rest := List.filter_cons_of_neg (by decide)
    rw [List.flatten_cons, inked_append, ih, inked_reverse, hreturn, ← inked_reverse, inked_append,
      inked_append, hrest]
    rfl
  | case4 current c rest _ ih => simpa using ih

/--
The ink of what is written is the ink of the pieces. Brackets are left as they are where `optimize`
is not set.
-/
theorem removeBlanks_write (hoptimize : style.optimize = false) (node : Formula)
    : removeBlanks (write style node) = String.ofList (ink (node.pieces style {})) := by
  have hsetting := Line.inked_setPieces {} (node.pieces style {})
  have hlines := inked_lines_go (Line.setPieces {} (node.pieces style {})).reversed.reverse []
  unfold removeBlanks write cleanUp
  rw [String.toList_ofList, hoptimize]
  exact congrArg String.ofList ((inked_intersperse _).trans (hlines.trans hsetting))

end Writing

namespace Formula

open OfTex (nodesOf bracketed)

def isGroup : Formula → Bool
  | .group _ => true
  | _ => false

/--
Whether brackets at the front have a sequence alone between them.
-/
def opensLoneGroup : List Formula → Bool
  | opening :: .group _ :: closing :: _ => opening.bracketDepth == 1 && closing.bracketDepth == -1
  | _ => false

/--
Whether brackets have a sequence alone between them somewhere.
-/
def hasLoneGroup : List Formula → Bool
  | [] => false
  | node :: nodes => opensLoneGroup (node :: nodes) || hasLoneGroup nodes

mutual

/--
Whether a formula looks the same to the writer without its spaces. It is no space, and a sequence
neither begins nor ends with one. Primes have no spaces between them, and no sequence of its own
stands alone between brackets, where it would lose its bounds together with the spaces around it.
-/
def isFirm : Formula → Bool
  | .space _ => false
  | .group nodes =>
    !nodes.head?.any isSpace && !nodes.getLast?.any isSpace && eachFirm nodes &&
      !(nodes.any isSpace && nodes.all fun node => node.isSpace || node.isPrime) &&
      !hasLoneGroup (nodes.filter fun node => !node.isSpace)
  | _ => true

/--
Whether each formula is a space or looks the same without its spaces.
-/
def eachFirm : List Formula → Bool
  | [] => true
  | node :: nodes => (node.isSpace || node.isFirm) && eachFirm nodes

end

mutual

/--
Whether the bases, the scripts and the operands in a formula look the same without their spaces.
-/
def isCompact : Formula → Bool
  | .group nodes | .parens nodes => eachCompact nodes
  | .attach base sub sup =>
    base.isFirm && base.isCompact && scriptCompact sub && scriptCompact sup
  | .call _ args _ => eachCompact args
  | .frac num den => num.isFirm && num.isCompact && den.isFirm && den.isCompact
  | .leftRight _ body _ => body.isCompact
  | .matrix rows _ | .cases rows _ | .align rows => rowsCompact rows
  | _ => true

/--
Whether the bases, the scripts and the operands in each formula look the same without their spaces.
-/
def eachCompact : List Formula → Bool
  | [] => true
  | node :: nodes => node.isCompact && eachCompact nodes

/--
Whether the bases, the scripts and the operands in each cell look the same without their spaces.
-/
def rowsCompact : List (List Formula) → Bool
  | [] => true
  | row :: rows => eachCompact row && rowsCompact rows

/--
Whether a script, and what stands in it, looks the same without its spaces.
-/
def scriptCompact : Option Formula → Bool
  | none => true
  | some node => node.isFirm && node.isCompact

end

theorem eachCompact_iff {nodes : List Formula}
    : eachCompact nodes ↔ ∀ node ∈ nodes, node.isCompact := by
  induction nodes with
  | nil => simp [eachCompact]
  | cons node nodes ih => simp [eachCompact, ih]

theorem eachFirm_iff {nodes : List Formula}
    : eachFirm nodes ↔ ∀ node ∈ nodes, node.isSpace ∨ node.isFirm := by
  induction nodes with
  | nil => simp [eachFirm]
  | cons node nodes ih => simp [eachFirm, ih]

theorem eachCompact_nodesOf (node : Formula) : eachCompact (nodesOf node) = node.isCompact := by
  cases node with
  | group nodes => rw [nodesOf, isCompact]
  | empty => rw [nodesOf, eachCompact, isCompact] <;> simp
  | _ => rw [nodesOf, eachCompact, eachCompact, Bool.and_true] <;> simp

/--
Two formulas that the writer puts in parentheses in the same places.
-/
structure SameShape (kept bare : Formula) : Prop where
  isEmpty : bare.isEmpty = kept.isEmpty
  isGroup : bare.isGroup = kept.isGroup
  isPrime : bare.isPrime = kept.isPrime
  bracketDepth : bare.bracketDepth = kept.bracketDepth
  needsParens : bare.needsParens = kept.needsParens
  isWrappedScript : bare.isWrappedScript = kept.isWrappedScript
  primeMarks : bare.primeMarks? = kept.primeMarks?

theorem SameShape.refl (node : Formula) : SameShape node node :=
  ⟨rfl, rfl, rfl, rfl, rfl, rfl, rfl⟩

/--
Sequences of which the second has no spaces and otherwise the shapes of the first.
-/
inductive Strips : (kept bare : List Formula) → Prop where
  | nil : Strips [] []
  | space {node : Formula} {kept bare : List Formula} (hspace : node.isSpace)
    (h : Strips kept bare) : Strips (node :: kept) bare
  | node {node image : Formula} {kept bare : List Formula} (hspace : node.isSpace = false)
    (hshape : SameShape node image) (h : Strips kept bare) : Strips (node :: kept) (image :: bare)

section Strips

variable {kept bare : List Formula}

theorem bracketDepth_of_isSpace {node : Formula} (h : node.isSpace) : node.bracketDepth = 0 := by
  cases node with
  | space s => rfl
  | _ => contradiction

theorem isPrime_of_isSpace {node : Formula} (h : node.isSpace) : node.isPrime = false := by
  cases node with
  | space s => rfl
  | _ => contradiction

theorem closesAtEnd_cons (depth : Int) (node : Formula) (nodes : List Formula)
    : closesAtEnd depth (node :: nodes) =
      if depth + node.bracketDepth = 0 then nodes.isEmpty
      else closesAtEnd (depth + node.bracketDepth) nodes := by
  rw [closesAtEnd]

theorem getLast?_of_cons {node : Formula} (h : (node :: kept).getLast?.any isSpace = false)
    : kept.getLast?.any isSpace = false := by
  cases kept with
  | nil => rfl
  | cons next kept => rwa [List.getLast?_cons_cons] at h

theorem Strips.isEmpty_eq (h : Strips kept bare) (hlast : kept.getLast?.any isSpace = false)
    : bare.isEmpty = kept.isEmpty := by
  induction h with
  | nil => rfl
  | @space node kept bare hspace h ih =>
    cases kept with
    | nil => simp [hspace] at hlast
    | cons next kept => exact ih (getLast?_of_cons hlast)
  | node => rfl

theorem Strips.closesAtEnd_eq (h : Strips kept bare) (hlast : kept.getLast?.any isSpace = false)
    {depth : Int} (hdepth : depth ≠ 0) : closesAtEnd depth bare = closesAtEnd depth kept := by
  induction h generalizing depth with
  | nil => rfl
  | space hspace _ ih =>
    rw [ih (getLast?_of_cons hlast) hdepth, closesAtEnd_cons, bracketDepth_of_isSpace hspace,
      Int.add_zero, if_neg hdepth]
  | node hspace hshape h ih =>
    have htail := getLast?_of_cons hlast
    rw [closesAtEnd_cons, closesAtEnd_cons, hshape.bracketDepth, h.isEmpty_eq htail]
    split
    . rfl
    next hnext => exact ih htail hnext

theorem Strips.isEnclosed_eq (h : Strips kept bare) (hhead : kept.head?.any isSpace = false)
    (hlast : kept.getLast?.any isSpace = false) : isEnclosed bare = isEnclosed kept := by
  cases h with
  | nil => rfl
  | space hspace => simp [hspace] at hhead
  | @node node image kept bare hspace hshape h =>
    have htail := getLast?_of_cons hlast
    have hempty := h.isEmpty_eq htail
    match kept, bare with
    | [], [] => rfl
    | next :: kept, nextImage :: bare =>
      rw [isEnclosed, isEnclosed, hshape.bracketDepth]
      cases hopens : node.bracketDepth == 1 with
      | false => rfl
      | true =>
        -- From here on the depth is one, so that spaces cannot close the brackets.
        have hone : (0 : Int) + node.bracketDepth ≠ 0 := by
          rw [eq_of_beq hopens]
          decide
        rw [closesAtEnd_cons 0 image, closesAtEnd_cons 0 node, hshape.bracketDepth, if_neg hone,
          if_neg hone, h.closesAtEnd_eq htail hone]

theorem Strips.all_isPrime (h : Strips kept bare)
    : bare.all isPrime = kept.all fun node => node.isSpace || node.isPrime := by
  induction h with
  | nil => rfl
  | space hspace _ ih => rw [List.all_cons, hspace, ih, Bool.true_or, Bool.true_and]
  | node hspace hshape _ ih =>
    rw [List.all_cons, List.all_cons, hspace, hshape.isPrime, ih, Bool.false_or]

theorem Strips.length_eq (h : Strips kept bare) (hspaces : kept.any isSpace = false)
    : bare.length = kept.length := by
  induction h with
  | nil => rfl
  | space hspace => simp [hspace] at hspaces
  | node hspace _ _ ih =>
    rw [List.any_cons, hspace, Bool.false_or] at hspaces
    rw [List.length_cons, List.length_cons, ih hspaces]

theorem Strips.primeMarks?_eq (h : Strips kept bare) (hne : bare.isEmpty = kept.isEmpty)
    (hprimes : (kept.any isSpace && kept.all fun node => node.isSpace || node.isPrime) = false)
    : primeMarks? (.group bare) = primeMarks? (.group kept) := by
  rw [primeMarks?, primeMarks?, hne, h.all_isPrime]
  cases hspaces : kept.any isSpace with
  | true =>
    rw [hspaces, Bool.true_and] at hprimes
    have hnone : kept.all isPrime = false := by
      obtain ⟨node, hnode, hspace⟩ := List.any_eq_true.mp hspaces
      rw [List.all_eq_false]
      exact ⟨node, hnode, by simp [isPrime_of_isSpace hspace]⟩
    rw [hprimes, hnone, Bool.and_false]
    rfl
  | false =>
    have hall : (kept.all fun node => node.isSpace || node.isPrime) = kept.all isPrime := by
      rw [List.any_eq_false] at hspaces
      rw [Bool.eq_iff_iff, List.all_eq_true, List.all_eq_true]
      refine forall₂_congr fun node hnode => ?_
      simp [hspaces node hnode]
    rw [hall, h.length_eq hspaces]

theorem Strips.append {kept' bare' : List Formula} (h : Strips kept bare) (h' : Strips kept' bare')
    : Strips (kept ++ kept') (bare ++ bare') := by
  induction h with
  | nil => exact h'
  | space hspace _ ih => exact .space hspace ih
  | node hspace hshape _ ih => exact .node hspace hshape ih

theorem Strips.forall₂_filter (h : Strips kept bare)
    : List.Forall₂ SameShape (kept.filter fun node => !node.isSpace) bare := by
  induction h with
  | nil => exact .nil
  | space hspace _ ih => rwa [List.filter_cons_of_neg (by simp [hspace])]
  | node hspace hshape _ ih =>
    rw [List.filter_cons_of_pos (by simp [hspace])]
    exact .cons hshape ih

theorem Strips.sameShape (h : Strips kept bare) (hfirm : (Formula.group kept).isFirm)
    : SameShape (.group kept) (.group bare) := by
  simp only [isFirm, Bool.and_eq_true, Bool.not_eq_eq_eq_not, Bool.not_true] at hfirm
  obtain ⟨⟨⟨⟨hhead, hlast⟩, _⟩, hprimes⟩, _⟩ := hfirm
  refine ⟨rfl, rfl, rfl, rfl, ?_, rfl, h.primeMarks?_eq (h.isEmpty_eq hlast) hprimes⟩
  rw [needsParens, needsParens, h.isEnclosed_eq hhead hlast]

end Strips

/--
The second formula is the first one without its spaces. It is written with the same ink if the first
one is compact.
-/
structure Sheds (kept bare : Formula) : Prop where
  ink_eq : kept.isCompact → ∀ style cx, ink (bare.pieces style cx) = ink (kept.pieces style cx)
  isEmpty : kept.isSpace ∨ kept.isEmpty → bare.isEmpty
  shape : kept.isFirm → SameShape kept bare
  strips : eachFirm (nodesOf kept) →
    hasLoneGroup ((nodesOf kept).filter fun node => !node.isSpace) = false →
    (∀ nodes, (nodesOf kept).filter (fun node => !node.isSpace) ≠ [.group nodes]) →
    Strips (nodesOf kept) (nodesOf bare)

section Ink

variable {kept bare : Formula} {style : Style} {cx : Context}

theorem ink_append (front back : List Piece) : ink (front ++ back) = ink front ++ ink back :=
  List.flatMap_append

theorem ink_cons (piece : Piece) (pieces : List Piece)
    : ink (piece :: pieces) = piece.ink ++ ink pieces :=
  List.flatMap_cons

theorem ink_parenthesized {spelled other : List Piece} (h : ink spelled = ink other)
    : ink (parenthesized spelled) = ink (parenthesized other) := by
  simp only [parenthesized, List.cons_append, ink_cons, ink_append, h]

theorem ink_separated (separator : List Piece) (parts : List (List Piece))
    : ink (separated separator parts) = ((parts.map ink).intersperse (ink separator)).flatten := by
  unfold separated
  match parts with
  | [] => rfl
  | [part] => simp
  | part :: next :: parts =>
    have ih := ink_separated separator (next :: parts)
    unfold separated at ih
    rw [List.map_cons] at ih
    rw [List.map_cons, List.map_cons, List.intersperse_cons_cons, List.intersperse_cons_cons,
      List.flatten_cons, List.flatten_cons, ink_append, ink_append, ih, List.flatten_cons,
      List.flatten_cons]

theorem ink_separated_congr (separator : List Piece) {parts others : List (List Piece)}
    (h : parts.map ink = others.map ink)
    : ink (separated separator parts) = ink (separated separator others) := by
  rw [ink_separated, ink_separated, h]

theorem ink_each {kept bare : List Formula} (h : List.Forall₂ Sheds kept bare)
    (hcompact : eachCompact kept) (style : Style) (cx : Context)
    : (eachPieces style cx bare).map ink = (eachPieces style cx kept).map ink := by
  induction h with
  | nil => rfl
  | cons hsheds _ ih =>
    rw [eachCompact, Bool.and_eq_true] at hcompact
    rw [eachPieces, eachPieces, List.map_cons, List.map_cons, hsheds.ink_eq hcompact.1,
      ih hcompact.2]

theorem ink_rows {kept bare : List (List Formula)}
    (h : List.Forall₂ (List.Forall₂ Sheds) kept bare) (hcompact : rowsCompact kept) (style : Style)
    (cx : Context) (separator : List Piece)
    : ((rowPieces style cx bare).map (separated separator)).map ink =
      ((rowPieces style cx kept).map (separated separator)).map ink := by
  induction h with
  | nil => rfl
  | cons hrow _ ih =>
    rw [rowsCompact, Bool.and_eq_true] at hcompact
    simp only [rowPieces, List.map_cons]
    rw [ink_separated_congr _ (ink_each hrow hcompact.1 style cx), ih hcompact.2]

theorem ink_grid {kept bare : List (List Formula)}
    (h : List.Forall₂ (List.Forall₂ Sheds) kept bare) (hcompact : rowsCompact kept) (style : Style)
    (cx : Context) (rowSep cellSep : List Piece)
    : ink (grid rowSep cellSep (rowPieces style cx bare)) =
      ink (grid rowSep cellSep (rowPieces style cx kept)) :=
  ink_separated_congr rowSep (ink_rows h hcompact style cx cellSep)

theorem ink_gridCall {kept bare : List (List Formula)}
    (h : List.Forall₂ (List.Forall₂ Sheds) kept bare) (hcompact : rowsCompact kept) (style : Style)
    (cx : Context) (head rowSep cellSep : String) (named : List (List Piece))
    : ink (gridCall head rowSep cellSep named (rowPieces style cx bare)) =
      ink (gridCall head rowSep cellSep named (rowPieces style cx kept)) := by
  have hempty : (rowPieces style cx bare).isEmpty = (rowPieces style cx kept).isEmpty := by
    rw [rowPieces_eq, rowPieces_eq, List.isEmpty_map, List.isEmpty_map]
    cases h with
    | nil => rfl
    | cons => rfl
  simp only [gridCall, hempty, List.cons_append, ink_cons, ink_append, ink_grid h hcompact]

theorem ink_group {kept bare : List Formula} (h : List.Forall₂ Sheds kept bare)
    (hcompact : eachCompact kept) (style : Style) (cx : Context)
    : ink (eachPieces style cx bare).flatten = ink (eachPieces style cx kept).flatten := by
  have hflatten : ∀ parts : List (List Piece), ink parts.flatten = (parts.map ink).flatten := by
    intro parts
    induction parts with
    | nil => rfl
    | cons part parts ih => rw [List.flatten_cons, ink_append, ih, List.map_cons, List.flatten_cons]
  rw [hflatten, hflatten, ink_each h hcompact]

theorem ink_scriptPieces {kept bare : Option Formula} (h : Option.Rel Sheds kept bare)
    (hcompact : scriptCompact kept) (marker : String)
    : ink (scriptPieces style cx marker bare) = ink (scriptPieces style cx marker kept) := by
  cases h with
  | none => rfl
  | some hsheds =>
    rw [scriptCompact, Bool.and_eq_true] at hcompact
    rw [scriptPieces, scriptPieces, (hsheds.shape hcompact.1).isWrappedScript, ink_cons, ink_cons]
    split
    . rw [ink_parenthesized (hsheds.ink_eq hcompact.2 style .nested)]
    . rw [hsheds.ink_eq hcompact.2]

theorem primeMarks?_script {kept bare : Option Formula} (h : Option.Rel Sheds kept bare)
    (hcompact : scriptCompact kept) : bare.bind primeMarks? = kept.bind primeMarks? := by
  cases h with
  | none => rfl
  | some hsheds =>
    rw [scriptCompact, Bool.and_eq_true] at hcompact
    exact (hsheds.shape hcompact.1).primeMarks

theorem ink_scriptGap (sub sup : Option Formula) : ink (scriptGap sub sup) = [] := by
  unfold scriptGap
  split
  all_goals first | rfl | split <;> rfl

end Ink

section Sheds

variable {kept bare : Formula}

/--
What is neither a sequence nor a space nor nothing at all stands for itself in a sequence.
-/
theorem sheds_of_sameShape (hspace : kept.isSpace = false) (hempty : kept.isEmpty = false)
    (hgroup : kept.isGroup = false) (hshape : SameShape kept bare)
    (hink : kept.isCompact → ∀ style cx, ink (bare.pieces style cx) = ink (kept.pieces style cx))
    : Sheds kept bare := by
  have hnodes : ∀ node : Formula, node.isEmpty = false → node.isGroup = false →
      nodesOf node = [node] := by
    intro node hempty hgroup
    cases node with
    | empty | group => contradiction
    | _ => rfl
  refine ⟨hink, ?_, fun _ => hshape, fun _ _ _ => ?_⟩
  . rintro (h | h)
    . rw [hspace] at h
      contradiction
    . rw [hempty] at h
      contradiction
  . rw [hnodes kept hempty hgroup, hnodes bare (hshape.isEmpty.trans hempty)
      (hshape.isGroup.trans hgroup)]
    exact .node hspace hshape .nil

theorem sheds_self (hspace : kept.isSpace = false) (hempty : kept.isEmpty = false)
    (hgroup : kept.isGroup = false) : Sheds kept kept :=
  sheds_of_sameShape hspace hempty hgroup (.refl kept) fun _ _ _ => rfl

theorem sheds_empty : Sheds .empty .empty :=
  ⟨fun _ _ _ => rfl, fun _ => rfl, fun _ => .refl _, fun _ _ _ => .nil⟩

theorem sheds_space {s : String} (h : ∀ c ∈ s.toList, isBlank c) : Sheds (.space s) .empty := by
  refine ⟨fun _ style cx => ?_, fun _ => rfl, nofun, fun _ _ _ => .space rfl .nil⟩
  rw [pieces, pieces, ink_cons, Piece.ink, inked_eq_nil h, ite_self]
  rfl

theorem sheds_attach {base base' : Formula} {sub sub' sup sup' : Option Formula}
    (hbase : Sheds base base') (hsub : Option.Rel Sheds sub sub') (hsup : Option.Rel Sheds sup sup')
    : Sheds (.attach base sub sup) (.attach base' sub' sup') := by
  refine sheds_of_sameShape rfl rfl rfl ⟨rfl, rfl, rfl, rfl, rfl, rfl, rfl⟩
    fun hcompact style cx => ?_
  simp only [isCompact, Bool.and_eq_true] at hcompact
  obtain ⟨⟨⟨hfirm, hbaseCompact⟩, hsubCompact⟩, hsupCompact⟩ := hcompact
  have hshape := hbase.shape hfirm
  have hspelled : ink
      (if base'.isEmpty then [.token "\"\""]
        else if base'.needsParens then parenthesized (base'.pieces style .nested)
        else base'.pieces style cx) = ink
      (if base.isEmpty then [.token "\"\""]
        else if base.needsParens then parenthesized (base.pieces style .nested)
        else base.pieces style cx) := by
    rw [hshape.isEmpty, hshape.needsParens]
    split
    . rfl
    split
    . exact ink_parenthesized (hbase.ink_eq hbaseCompact style .nested)
    . exact hbase.ink_eq hbaseCompact style cx
  have hmarks :
      ink (if (sup'.bind primeMarks?).isSome then [] else scriptPieces style cx "^" sup') =
      ink (if (sup.bind primeMarks?).isSome then [] else scriptPieces style cx "^" sup) := by
    rw [primeMarks?_script hsup hsupCompact]
    split
    . rfl
    . exact ink_scriptPieces hsup hsupCompact "^"
  simp only [pieces, ink_append, ink_scriptGap, List.append_nil]
  rw [hspelled, hmarks, primeMarks?_script hsup hsupCompact, ink_scriptPieces hsub hsubCompact]

theorem sheds_frac {num num' den den' : Formula} (hnum : Sheds num num') (hden : Sheds den den')
    : Sheds (.frac num den) (.frac num' den') := by
  refine sheds_of_sameShape rfl rfl rfl ⟨rfl, rfl, rfl, rfl, rfl, rfl, rfl⟩
    fun hcompact style cx => ?_
  simp only [isCompact, Bool.and_eq_true] at hcompact
  obtain ⟨⟨⟨hnumFirm, hnumCompact⟩, hdenFirm⟩, hdenCompact⟩ := hcompact
  simp only [pieces, ink_append, ink_cons, (hnum.shape hnumFirm).needsParens,
    (hden.shape hdenFirm).needsParens]
  congr 1
  . split
    . rw [ink_cons, ink_cons, ink_parenthesized (hnum.ink_eq hnumCompact style .nested)]
    . exact hnum.ink_eq hnumCompact style cx
  . congr 1
    split
    . exact ink_parenthesized (hden.ink_eq hdenCompact style .nested)
    . exact hden.ink_eq hdenCompact style cx

theorem sheds_call {args args' : List Formula} (name : String) (named : List (String × Formula))
    (h : List.Forall₂ Sheds args args')
    : Sheds (.call name args named) (.call name args' named) := by
  refine sheds_of_sameShape rfl rfl rfl ⟨rfl, rfl, rfl, rfl, rfl, rfl, rfl⟩
    fun hcompact style cx => ?_
  rw [isCompact] at hcompact
  have hargs : (eachPieces style .args args' ++ namedPieces style named).map ink =
      (eachPieces style .args args ++ namedPieces style named).map ink := by
    rw [List.map_append, List.map_append, ink_each h hcompact]
  simp only [pieces, List.cons_append, ink_cons, ink_append, ink_separated_congr _ hargs]

theorem sheds_leftRight {body body' : Formula} (left right : Option String) (h : Sheds body body')
    : Sheds (.leftRight left body right) (.leftRight left body' right) := by
  refine sheds_of_sameShape rfl rfl rfl ⟨rfl, rfl, rfl, rfl, rfl, rfl, rfl⟩
    fun hcompact style cx => ?_
  rw [isCompact] at hcompact
  simp only [pieces, List.cons_append, ink_cons, ink_append, h.ink_eq hcompact]

theorem sheds_matrix {rows rows' : List (List Formula)} (named : List (String × Formula))
    (h : List.Forall₂ (List.Forall₂ Sheds) rows rows')
    : Sheds (.matrix rows named) (.matrix rows' named) := by
  refine sheds_of_sameShape rfl rfl rfl ⟨rfl, rfl, rfl, rfl, rfl, rfl, rfl⟩
    fun hcompact style cx => ?_
  rw [isCompact] at hcompact
  rw [pieces, pieces, ink_gridCall h hcompact]

theorem sheds_cases {rows rows' : List (List Formula)} (named : List (String × Formula))
    (h : List.Forall₂ (List.Forall₂ Sheds) rows rows')
    : Sheds (.cases rows named) (.cases rows' named) := by
  refine sheds_of_sameShape rfl rfl rfl ⟨rfl, rfl, rfl, rfl, rfl, rfl, rfl⟩
    fun hcompact style cx => ?_
  rw [isCompact] at hcompact
  rw [pieces, pieces, ink_gridCall h hcompact]

theorem sheds_align {rows rows' : List (List Formula)}
    (h : List.Forall₂ (List.Forall₂ Sheds) rows rows') : Sheds (.align rows) (.align rows') := by
  refine sheds_of_sameShape rfl rfl rfl ⟨rfl, rfl, rfl, rfl, rfl, rfl, rfl⟩
    fun hcompact style cx => ?_
  rw [isCompact] at hcompact
  rw [pieces, pieces, ink_grid h hcompact]

theorem nodesOf_ofList {nodes : List Formula} (h : ∀ node ∈ nodes, node.isEmpty = false)
    (hgroup : ∀ node, nodes = [node] → node.isGroup = false) : nodesOf (ofList nodes) = nodes := by
  match nodes with
  | [] => rfl
  | [node] =>
    have hempty := h node (List.mem_singleton_self node)
    have hsingle := hgroup node rfl
    cases node with
    | empty | group => contradiction
    | _ => rfl
  | _ :: _ :: _ => rfl

theorem pieces_ofList (style : Style) (cx : Context) (nodes : List Formula)
    : (ofList nodes).pieces style cx = (eachPieces style cx nodes).flatten := by
  match nodes with
  | [] => rw [ofList, pieces, eachPieces, List.flatten_nil]
  | [node] => simp [ofList, eachPieces]
  | _ :: _ :: _ => rw [ofList, pieces] <;> simp

theorem pieces_nodesOf (style : Style) (cx : Context) (node : Formula)
    : (eachPieces style cx (nodesOf node)).flatten = node.pieces style cx := by
  cases node with
  | empty => rw [nodesOf, eachPieces, List.flatten_nil, pieces]
  | group nodes => rw [nodesOf, pieces]
  | _ => simp [nodesOf, eachPieces]

section Sequences

variable {kepts bares : List Formula}

theorem flatten_filter (style : Style) (cx : Context) (nodes : List Formula)
    : (eachPieces style cx (nodes.filter fun node => !node.isEmpty)).flatten =
      (eachPieces style cx nodes).flatten := by
  induction nodes with
  | nil => rfl
  | cons node nodes ih =>
    cases node with
    | empty =>
      rw [List.filter_cons_of_neg (by simp [Formula.isEmpty]), ih, eachPieces, pieces,
        List.flatten_cons, List.nil_append]
    | _ =>
      rw [List.filter_cons_of_pos (by simp [Formula.isEmpty]), eachPieces, eachPieces,
        List.flatten_cons, List.flatten_cons, ih]

theorem eachCompact_filter (nodes : List Formula)
    : eachCompact (nodes.filter fun node => !node.isEmpty) = eachCompact nodes := by
  induction nodes with
  | nil => rfl
  | cons node nodes ih =>
    cases node with
    | empty =>
      rw [List.filter_cons_of_neg (by simp [Formula.isEmpty]), ih, eachCompact, isCompact,
        Bool.true_and] <;> simp
    | _ => rw [List.filter_cons_of_pos (by simp [Formula.isEmpty]), eachCompact, eachCompact, ih]

theorem filter_eq_nil_of_sheds (h : List.Forall₂ Sheds kepts bares)
    (hblank : ∀ node ∈ kepts, node.isSpace ∨ node.isEmpty)
    : bares.filter (fun node => !node.isEmpty) = [] := by
  induction h with
  | nil => rfl
  | cons hsheds _ ih =>
    rw [List.forall_mem_cons] at hblank
    rw [List.filter_cons_of_neg (by simp [hsheds.isEmpty hblank.1]), ih hblank.2]

theorem sheds_of_filter_singleton {node : Formula} (h : List.Forall₂ Sheds kepts bares)
    (hnode : kepts.filter (fun node => !node.isEmpty) = [node])
    : Sheds node (ofList (bares.filter fun node => !node.isEmpty)) := by
  induction h with
  | nil => contradiction
  | @cons kept bare kepts bares hsheds hrest ih =>
    cases hempty : kept.isEmpty with
    | true =>
      rw [List.filter_cons_of_neg (by simp [hempty])] at hnode
      rw [List.filter_cons_of_neg (by simp [hsheds.isEmpty (.inr hempty)])]
      exact ih hnode
    | false =>
      rw [List.filter_cons_of_pos (by simp [hempty]), List.cons.injEq] at hnode
      obtain ⟨rfl, hnone⟩ := hnode
      have hbares : bares.filter (fun node => !node.isEmpty) = [] := by
        refine filter_eq_nil_of_sheds hrest fun node hnode => .inr ?_
        simpa using List.filter_eq_nil_iff.mp hnone node hnode
      cases hbare : bare.isEmpty with
      | true =>
        rw [List.filter_cons_of_neg (by simp [hbare]), hbares]
        cases bare with
        | empty => exact hsheds
        | _ => contradiction
      | false =>
        rw [List.filter_cons_of_pos (by simp [hbare]), hbares]
        exact hsheds

theorem strips_of_sheds (h : List.Forall₂ Sheds kepts bares)
    (hfirm : eachFirm (kepts.filter fun node => !node.isEmpty))
    : Strips (kepts.filter fun node => !node.isEmpty) (bares.filter fun node => !node.isEmpty) := by
  induction h with
  | nil => exact .nil
  | @cons kept bare kepts bares hsheds _ ih =>
    cases hempty : kept.isEmpty with
    | true =>
      rw [List.filter_cons_of_neg (by simp [hempty])] at hfirm ⊢
      rw [List.filter_cons_of_neg (by simp [hsheds.isEmpty (.inr hempty)])]
      exact ih hfirm
    | false =>
      rw [List.filter_cons_of_pos (by simp [hempty])] at hfirm ⊢
      rw [eachFirm, Bool.and_eq_true] at hfirm
      cases hspace : kept.isSpace with
      | true =>
        rw [List.filter_cons_of_neg (by simp [hsheds.isEmpty (.inl hspace)])]
        exact .space hspace (ih hfirm.2)
      | false =>
        rw [hspace, Bool.false_or] at hfirm
        have hshape := hsheds.shape hfirm.1
        rw [List.filter_cons_of_pos (by simp [hshape.isEmpty, hempty])]
        exact .node hspace hshape (ih hfirm.2)

theorem sheds_group {first second : Formula} {nodes images : List Formula}
    (hfull : ∀ image ∈ images, image.isEmpty = false)
    (hink : eachCompact (first :: second :: nodes) → ∀ style cx,
      ink ((ofList images).pieces style cx) =
        ink ((Formula.group (first :: second :: nodes)).pieces style cx))
    (hstrips : eachFirm (first :: second :: nodes) → Strips (first :: second :: nodes) images)
    : Sheds (.group (first :: second :: nodes)) (ofList images) := by
  refine ⟨?_, by simp [isSpace, Formula.isEmpty], fun hfirm => ?_, fun hfirm _ hlone => ?_⟩
  . rwa [isCompact]
  . have hparts := hfirm
    simp only [isFirm, Bool.and_eq_true, Bool.not_eq_eq_eq_not, Bool.not_true] at hparts
    obtain ⟨⟨⟨⟨hhead, hlast⟩, heach⟩, _⟩, _⟩ := hparts
    have hstrips := hstrips heach
    -- The ends are no spaces, so at least two formulas are left.
    have hgroup : ofList images = .group images := by
      cases hstrips with
      | space hspace => simp [hspace] at hhead
      | @node _ _ _ others _ _ hrest =>
        have hempty := hrest.isEmpty_eq (getLast?_of_cons hlast)
        match others, hempty with
        | _ :: _, _ => rfl
    rw [hgroup]
    exact hstrips.sameShape hfirm
  . have hstrips := hstrips hfirm
    have hforall := hstrips.forall₂_filter
    rw [nodesOf_ofList hfull]
    . exact hstrips
    . rintro image rfl
      obtain ⟨node, solid, hshape, hnone, hsolid⟩ := List.forall₂_cons_right_iff.mp hforall
      cases hnone
      rw [hshape.isGroup, Bool.eq_false_iff]
      intro hgroup
      cases node with
      | group more => exact hlone more hsolid
      | _ => contradiction

/--
A sequence without its spaces. It may be left with one formula or none, but not if it is firm.
-/
theorem sheds_ofList (h : List.Forall₂ Sheds kepts bares)
    : Sheds (ofList (kepts.filter fun node => !node.isEmpty))
      (ofList (bares.filter fun node => !node.isEmpty)) := by
  have hstrips := strips_of_sheds h
  have hfull : ∀ node ∈ bares.filter fun node => !node.isEmpty, node.isEmpty = false := by
    intro node hnode
    simpa using (List.mem_filter.mp hnode).2
  have hink : eachCompact (kepts.filter fun node => !node.isEmpty) → ∀ style cx,
      ink ((ofList (bares.filter fun node => !node.isEmpty)).pieces style cx) =
        ink ((ofList (kepts.filter fun node => !node.isEmpty)).pieces style cx) := by
    intro hcompact style cx
    rw [eachCompact_filter] at hcompact
    rw [pieces_ofList, pieces_ofList, flatten_filter, flatten_filter, ink_group h hcompact]
  rcases hkepts : kepts.filter (fun node => !node.isEmpty) with _ | ⟨node, _ | ⟨second, nodes⟩⟩
  . have hbares : bares.filter (fun node => !node.isEmpty) = [] := by
      refine filter_eq_nil_of_sheds h fun node hnode => .inr ?_
      simpa using List.filter_eq_nil_iff.mp hkepts node hnode
    rw [hkepts, hbares]
    exact sheds_empty
  . rw [hkepts]
    exact sheds_of_filter_singleton h hkepts
  . rw [hkepts] at hstrips hink ⊢
    exact sheds_group hfull hink hstrips

end Sequences

theorem sheds_parens {body body' : Formula} (h : Sheds body body')
    : Sheds (.parens (nodesOf body)) (.parens (nodesOf body')) := by
  refine sheds_of_sameShape rfl rfl rfl ⟨rfl, rfl, rfl, rfl, rfl, rfl, rfl⟩
    fun hcompact style cx => ?_
  rw [isCompact, eachCompact_nodesOf] at hcompact
  rw [pieces, pieces, pieces_nodesOf, pieces_nodesOf]
  exact ink_parenthesized (h.ink_eq hcompact style .nested)

theorem opensLoneGroup_append {front back : List Formula}
    (h : opensLoneGroup (front ++ back) = false)
    : opensLoneGroup front = false := by
  match front with
  | [] | [_] => rfl
  | [_, node] =>
    cases node with
    | _ => rfl
  | _ :: node :: _ :: _ =>
    cases node with
    | group => exact h
    | _ => rfl

theorem hasLoneGroup_append {front back : List Formula} (h : hasLoneGroup (front ++ back) = false)
    : hasLoneGroup front = false ∧ hasLoneGroup back = false := by
  induction front with
  | nil => exact ⟨rfl, h⟩
  | cons node front ih =>
    rw [List.cons_append, hasLoneGroup, Bool.or_eq_false_iff] at h
    obtain ⟨hfront, hback⟩ := ih h.2
    refine ⟨?_, hback⟩
    rw [hasLoneGroup, hfront, Bool.or_false]
    exact @opensLoneGroup_append (node :: front) back h.1

theorem sheds_bracketed {body body' : Formula} {opening closing : String}
    (hopening : (Formula.atom opening).bracketDepth = 1)
    (hclosing : (Formula.atom closing).bracketDepth = -1) (h : Sheds body body')
    : Sheds (bracketed opening body closing) (bracketed opening body' closing) := by
  have hstrips : eachFirm (atom opening :: nodesOf body ++ [atom closing]) →
      hasLoneGroup ((atom opening :: nodesOf body ++ [atom closing]).filter
        fun node => !node.isSpace) = false →
      Strips (atom opening :: nodesOf body ++ [atom closing])
        (atom opening :: nodesOf body' ++ [atom closing]) := by
    intro hfirm hlone
    rw [List.filter_append, List.filter_cons_of_pos rfl, List.filter_cons_of_pos rfl,
      List.filter_nil] at hlone
    have hbody : Strips (nodesOf body) (nodesOf body') := by
      refine h.strips ?_ ?_ ?_
      . rw [eachFirm_iff] at hfirm ⊢
        exact fun node hnode => hfirm node (by simp [hnode])
      . have hfront := (hasLoneGroup_append hlone).1
        rw [hasLoneGroup, Bool.or_eq_false_iff] at hfront
        exact hfront.2
      . intro nodes hnodes
        rw [hnodes] at hlone
        simp [hasLoneGroup, opensLoneGroup, hopening, hclosing] at hlone
    exact .node rfl (.refl _) (hbody.append (.node rfl (.refl _) .nil))
  refine ⟨fun hcompact style cx => ?_, by simp [bracketed, isSpace, isEmpty], fun hfirm => ?_,
    fun hfirm hlone _ => hstrips hfirm hlone⟩
  . have hbody : body.isCompact := by
      rw [bracketed, isCompact, eachCompact_iff] at hcompact
      rw [← eachCompact_nodesOf, eachCompact_iff]
      exact fun node hnode => hcompact node (by simp [hnode])
    have hpieces : ∀ body : Formula, (bracketed opening body closing).pieces style cx =
        [.token (atomText cx opening)] ++ body.pieces style cx ++
          [.token (atomText cx closing)] := by
      intro body
      rw [bracketed, pieces, eachPieces_eq, ← pieces_nodesOf, eachPieces_eq]
      simp [pieces]
    rw [hpieces, hpieces, ink_append, ink_append, h.ink_eq hbody, ← ink_append, ← ink_append]
  . have hparts := hfirm
    rw [bracketed, isFirm] at hparts
    simp only [Bool.and_eq_true, Bool.not_eq_eq_eq_not, Bool.not_true] at hparts
    exact (hstrips hparts.1.1.2 hparts.2).sameShape hfirm

end Sheds

end Formula

end Typst
end MathMarkup
