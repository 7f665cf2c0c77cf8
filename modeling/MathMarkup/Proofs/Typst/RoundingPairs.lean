import MathMarkup.Proofs.Typst.Marks

/-!
This module contains the reading of written pairs of floor and ceiling brackets. A pair is read as
a call, unless a pair of the same kind stands inside it: then the outer left bracket is paired with
the inner right one, and two brackets are left over.
-/

namespace MathMarkup
namespace Typst

open Text Formula

/--
Marks that make up formulas side by side. No call is without an argument.
-/
inductive Formed : List Mark → List Formula → Prop where
  | nil : Formed [] []
  | plain {letter : AlphabeticChar} {marks : List Mark} {nodes : List Formula}
    (h : Formed marks nodes) : Formed (.plain letter :: marks) (.atom letter.text :: nodes)
  | bracket {rounding : Rounding} {side : Side} {marks : List Mark} {nodes : List Formula}
    (h : Formed marks nodes) :
    Formed (.bracket rounding side :: marks) (.symbol (rounding.bracket side) :: nodes)
  | call {rounding : Rounding} {inner marks : List Mark} {content nodes : List Formula}
    (hinner : Formed inner content) (hne : content ≠ []) (h : Formed marks nodes) :
    Formed (.opening rounding :: (inner ++ .closing :: marks))
      (.call rounding.name [ofList content] [] :: nodes)

section Formed

variable {name : Bool} {marks : List Mark} {tree node : Formula} {trees nodes : List Formula}
  {tokens gap own more : List Token}

theorem Formed.ne_nil (h : Formed marks nodes) (hne : marks ≠ []) : nodes ≠ [] := by
  cases h with
  | nil => contradiction
  | _ => exact List.cons_ne_nil _ _

theorem exists_formed {marks : List Mark} (h : closesAll 0 marks) (hapart : Apart marks)
    : ∃ nodes, Formed marks nodes := by
  match marks with
  | [] => exact ⟨[], .nil⟩
  | .plain letter :: marks =>
    obtain ⟨nodes, hnodes⟩ := @exists_formed marks h hapart.tail
    exact ⟨_, .plain hnodes⟩
  | .bracket rounding side :: marks =>
    obtain ⟨nodes, hnodes⟩ := @exists_formed marks h hapart.tail
    exact ⟨_, .bracket hnodes⟩
  | .opening rounding :: marks =>
    obtain ⟨inner, rest, hmarks, hinner, hrest⟩ := @exists_of_closesAll marks 0 0 h
    rw [hmarks] at hapart
    obtain ⟨content, hcontent⟩ := exists_formed hinner hapart.tail.left_of_append
    obtain ⟨nodes, hnodes⟩ := exists_formed hrest hapart.tail.right_of_append.tail
    have hne : inner ≠ [] := by
      rintro rfl
      exact (List.isChain_cons_cons.mp hapart).1 ⟨rfl, rfl⟩
    exact ⟨_, hmarks ▸ Formed.call hcontent (hcontent.ne_nil hne) hnodes⟩
  | .closing :: marks => contradiction
termination_by marks.length
decreasing_by
  . simp
  . simp
  . rw [hmarks, List.length_cons, List.length_append]
    omega
  . rw [hmarks, List.length_cons, List.length_append, List.length_cons]
    omega

theorem Reading.widen (h : Reading name trees tokens) : Reading true trees tokens := by
  obtain ⟨hnested, nodes, ⟨items, hresolves, hitems⟩, himages⟩ := h
  refine ⟨hnested, nodes, ⟨items, hresolves, fun rest hrest => hitems rest ?_⟩, himages⟩
  exact ⟨hrest.isPrime, hrest.script?, fun _ => hrest.unopened rfl⟩

theorem Reading.cons (hgap : IsGap gap) (hnested : Nested Whole own) (hown : Atomic name own node)
    (himage : Image tree node) (hflat : ∀ nodes, node ≠ .group nodes)
    (hmore : Reading true trees more) (hstops : ∀ rest, Stops true rest → Stops true (more ++ rest))
    : Reading true (tree :: trees) (gap ++ (own ++ more)) := by
  have hfirst := reading_gap hgap ((nested_gap hgap).append hnested) hown.readsAs
    (fun _ => hown.stops) himage hflat
  rw [← List.append_assoc]
  exact hfirst.widen.append hmore hstops

theorem Formed.stops (h : Formed marks nodes)
    (htokens : tokens.map Token.lexeme = markLexemes false marks) {rest : List Token}
    (hrest : Stops true rest) : Stops true (tokens ++ rest) := by
  cases h with
  | nil =>
    cases List.map_eq_nil_iff.mp htokens
    exact hrest
  | _ =>
    obtain ⟨space, others, rfl, hspace, _⟩ := List.map_eq_cons_iff.mp htokens
    exact stops_space (isGap_space hspace space List.mem_cons_self)

theorem Formed.exists_begins (h : Formed marks nodes) (hne : nodes ≠ [])
    (htokens : tokens.map Token.lexeme = markLexemes true marks)
    : ∃ first rest, tokens = first :: rest ∧ Begins first := by
  cases h with
  | nil => contradiction
  | plain =>
    obtain ⟨first, rest, rfl, hfirst, _⟩ := List.map_eq_cons_iff.mp htokens
    cases atomic_letter hfirst with
    | intro hbegins => exact ⟨first, rest, rfl, hbegins⟩
  | bracket | call =>
    obtain ⟨first, rest, rfl, hfirst, _⟩ := List.map_eq_cons_iff.mp htokens
    exact ⟨first, rest, rfl, begins_symbol (congrArg Prod.fst hfirst)⟩

theorem Formed.isEmpty (h : Formed marks nodes) (hne : nodes ≠ [])
    : (ofList nodes).isEmpty = false := by
  match nodes with
  | [] => contradiction
  | [node] => cases h <;> rfl
  | _ :: _ :: _ => rfl

theorem isGap_of_lexemes {tight : Bool}
    (h : gap.map Token.lexeme = if tight then [] else [(.space, " ")]) : IsGap gap := by
  cases tight with
  | true =>
    cases List.map_eq_nil_iff.mp h
    exact List.forall_mem_nil _
  | false =>
    obtain ⟨space, rfl, hspace⟩ := List.map_eq_singleton_iff.mp h
    exact isGap_space hspace

theorem Formed.reading (h : Formed marks nodes) {joined : Bool}
    (htokens : tokens.map Token.lexeme = markLexemes joined marks) : Reading true nodes tokens := by
  induction h generalizing joined tokens with
  | nil =>
    cases List.map_eq_nil_iff.mp htokens
    exact reading_nil
  | plain h ih =>
    obtain ⟨gap, others, rfl, hgap, hothers⟩ := List.map_eq_append_iff.mp htokens
    obtain ⟨token, more, rfl, htoken, hmore⟩ := List.map_eq_cons_iff.mp hothers
    exact Reading.cons (isGap_of_lexemes hgap) (nested_letter htoken) (atomic_letter htoken)
      (image_atom _) (by simp) (ih hmore) fun _ => h.stops hmore
  | @bracket rounding side marks nodes h ih =>
    obtain ⟨gap, others, rfl, hgap, hothers⟩ := List.map_eq_append_iff.mp htokens
    obtain ⟨token, more, rfl, htoken, hmore⟩ := List.map_eq_cons_iff.mp hothers
    have hnested : Nested Whole [token] :=
      nested_mark htoken (by cases rounding <;> cases side <;> decide)
    have htext : token.text = rounding.bracket side := congrArg Prod.snd htoken
    have hatomic := atomic_symbol (congrArg Prod.fst htoken)
    rw [htext] at hatomic
    exact Reading.cons (isGap_of_lexemes hgap) hnested hatomic (image_symbol _) (by simp) (ih hmore)
      fun _ => h.stops hmore
  | @call rounding inner marks content nodes hinner hne h ihinner ih =>
    obtain ⟨gap, others, rfl, hgap, hothers⟩ := List.map_eq_append_iff.mp htokens
    obtain ⟨head, others, rfl, hhead, hothers⟩ := List.map_eq_cons_iff.mp hothers
    obtain ⟨opener, others, rfl, hopener, hothers⟩ := List.map_eq_cons_iff.mp hothers
    obtain ⟨body, others, rfl, hbody, hothers⟩ :=
      List.map_eq_append_iff.mp (hothers.trans (markLexemes_closing _ _ _))
    obtain ⟨closer, more, rfl, hcloser, hmore⟩ := List.map_eq_cons_iff.mp hothers
    obtain ⟨first, rest, rfl, hfirst⟩ := hinner.exists_begins hne hbody
    have hcell : CellReading (ofList content) (first :: rest) := by
      have hcell := (ihinner hbody).cellReading isGap_nil hfirst hne (hinner.isEmpty hne) isGap_nil
      rwa [List.append_nil] at hcell
    have hjoined : Joined Token.isComma (first :: rest) [first :: rest] :=
      .last (hcell.nested.mono fun _ => isComma_of_whole)
    have hname : rounding.name ∉ reservedCalls ∧ rounding.name ≠ "#h" := by
      cases rounding <;> decide
    obtain ⟨node, hnode, himage, hflat⟩ := exists_call hname.1 hname.2 hjoined (.cons hcell .nil)
    obtain ⟨hnested, hatomic⟩ :=
      atomic_of_call hhead hopener hcloser (hcell.nested.mono fun _ _ => trivial) hnode
    have hreading := Reading.cons (isGap_of_lexemes hgap) hnested hatomic himage hflat (ih hmore)
      fun _ => h.stops hmore
    simpa using hreading

theorem Formed.exists_read (h : Formed marks nodes)
    : ∃ read, parseText (String.ofList (render true marks)) = .ok read ∧
      read.withoutSpaces = ofList nodes := by
  have hlexemes := tokenize_lexemes (String.ofList (render true marks))
  rw [String.toList_ofList, lex_render] at hlexemes
  have hreading := h.reading hlexemes
  obtain ⟨read, hread, himages⟩ := hreading.reads
  refine ⟨ofList read, parse_of_readsAs hreading.nested hread, ?_⟩
  rw [dropsSpaces.strip_ofList, himages.dropSpaces]

theorem Formed.append {others : List Mark} {after : List Formula} (h : Formed marks nodes)
    (hmore : Formed others after) : Formed (marks ++ others) (nodes ++ after) := by
  induction h with
  | nil => exact hmore
  | plain _ ih => exact .plain ih
  | bracket _ ih => exact .bracket ih
  | call hinner hne _ _ ih =>
    rw [List.cons_append, List.append_assoc]
    exact .call hinner hne ih

theorem Formed.single (h : Formed marks nodes)
    : ∀ node ∈ nodes, node ≠ .empty ∧ ∀ more, node ≠ .group more := by
  induction h with
  | nil => exact List.forall_mem_nil _
  | plain _ ih | bracket _ ih | call _ _ _ _ ih =>
    exact List.forall_mem_cons.mpr ⟨by simp, ih⟩

theorem ofList_injective {others : List Formula}
    (h : ∀ node ∈ nodes, node ≠ .empty ∧ ∀ more, node ≠ .group more)
    (hothers : ∀ node ∈ others, node ≠ .empty ∧ ∀ more, node ≠ .group more)
    (heq : ofList nodes = ofList others) : nodes = others := by
  match nodes, others with
  | [], [] => rfl
  | [], [node] => exact absurd heq.symm (hothers node List.mem_cons_self).1
  | [node], [] => exact absurd heq (h node List.mem_cons_self).1
  | [node], [other] => exact congrArg ([·]) heq
  | [node], other :: next :: others => exact absurd heq ((h node List.mem_cons_self).2 _)
  | node :: next :: nodes, [other] => exact absurd heq.symm ((hothers other List.mem_cons_self).2 _)
  | _ :: _ :: _, _ :: _ :: _ => exact Formula.group.inj heq

theorem bracket_injective {rounding other : Rounding} {side otherSide : Side}
    (h : rounding.bracket side = other.bracket otherSide)
    : rounding = other ∧ side = otherSide := by
  cases rounding <;> cases other <;> cases side <;> cases otherSide <;> revert h <;> decide

theorem name_injective {rounding other : Rounding} (h : rounding.name = other.name)
    : rounding = other := by
  cases rounding <;> cases other <;> revert h <;> decide

theorem text_injective {letter other : AlphabeticChar} (h : letter.text = other.text)
    : letter = other := by
  have hchars := congrArg String.toList h
  rw [letter.toList_text, other.toList_text] at hchars
  cases letter
  cases other
  cases List.head_eq_of_cons_eq hchars
  rfl

theorem Formed.injective {others : List Mark} (h : Formed marks nodes)
    (hothers : Formed others nodes) : marks = others := by
  induction h generalizing others with
  | nil =>
    cases hothers
    rfl
  | @plain letter marks nodes _ ih =>
    generalize hnodes : Formula.atom letter.text :: nodes = all at hothers
    cases hothers with
    | nil => contradiction
    | plain hothers =>
      obtain ⟨hnode, rfl⟩ := List.cons.inj hnodes
      rw [text_injective (Formula.atom.inj hnode), ih hothers]
    | bracket | call => exact absurd (List.head_eq_of_cons_eq hnodes) (by simp)
  | @bracket rounding side marks nodes _ ih =>
    generalize hnodes : Formula.symbol (rounding.bracket side) :: nodes = all at hothers
    cases hothers with
    | nil => contradiction
    | bracket hothers =>
      obtain ⟨hnode, rfl⟩ := List.cons.inj hnodes
      obtain ⟨rfl, rfl⟩ := bracket_injective (Formula.symbol.inj hnode)
      rw [ih hothers]
    | plain | call => exact absurd (List.head_eq_of_cons_eq hnodes) (by simp)
  | @call rounding inner marks content nodes hinner hne _ ihinner ih =>
    generalize hnodes : Formula.call rounding.name [ofList content] [] :: nodes = all at hothers
    cases hothers with
    | nil => contradiction
    | call hother _ hothers =>
      obtain ⟨hnode, rfl⟩ := List.cons.inj hnodes
      obtain ⟨hname, hargs, _⟩ := Formula.call.inj hnode
      cases name_injective hname
      cases ofList_injective hinner.single hother.single (List.head_eq_of_cons_eq hargs)
      rw [ihinner hother, ih hothers]
    | plain | bracket => exact absurd (List.head_eq_of_cons_eq hnodes) (by simp)

theorem bracket_names
    : Rounding.floor.bracket .left = "floor.l" ∧ Rounding.floor.bracket .right = "floor.r" ∧
      Rounding.ceil.bracket .left = "ceil.l" ∧ Rounding.ceil.bracket .right = "ceil.r" := by
  decide

theorem symbolText_bracket (style : Style) (rounding : Rounding) (side : Side)
    : symbolText style (rounding.bracket side) = rounding.bracket side := by
  have hspec : ∀ name ∈ ["floor.l", "floor.r", "ceil.l", "ceil.r"],
      (name == "infinity") = false ∧ Symbol.shorthand? name = none := by decide +kernel
  have hmem : rounding.bracket side ∈ ["floor.l", "floor.r", "ceil.l", "ceil.r"] := by
    cases rounding <;> cases side <;> decide
  obtain ⟨hinfinity, hshorthand⟩ := hspec _ hmem
  simp [symbolText, hinfinity, hshorthand]

theorem lettered_bracket (rounding : Rounding) (side : Side)
    : Lettered (rounding.bracket side) := by
  constructor
  all_goals cases rounding <;> cases side <;> decide +kernel

theorem Formed.words (h : Formed marks nodes) (hwords : ∀ mark ∈ marks, mark.isOpening = false)
    (style : Style) (cx : Context)
    : (eachPieces style cx nodes).flatten = (marks.map Mark.text).map .token ∧
      ∀ word ∈ marks.map Mark.text, Lettered word := by
  induction h with
  | nil => exact ⟨rfl, List.forall_mem_nil _⟩
  | @plain letter marks nodes _ ih =>
    obtain ⟨hpieces, hlettered⟩ := ih (List.forall_mem_cons.mp hwords).2
    refine ⟨?_, List.forall_mem_cons.mpr ⟨lettered_letter letter, hlettered⟩⟩
    rw [eachPieces, List.flatten_cons, hpieces, pieces, atomText_letter]
    rfl
  | @bracket rounding side marks nodes _ ih =>
    obtain ⟨hpieces, hlettered⟩ := ih (List.forall_mem_cons.mp hwords).2
    refine ⟨?_, List.forall_mem_cons.mpr ⟨lettered_bracket rounding side, hlettered⟩⟩
    rw [eachPieces, List.flatten_cons, hpieces, pieces, symbolText_bracket]
    rfl
  | call => exact absurd (hwords _ List.mem_cons_self) (by simp [Mark.isOpening])

theorem render_words (h : ∀ mark ∈ marks, mark.isOpening = false ∧ mark.isClosing = false)
    : render false marks = (marks.map Mark.text).flatMap fun word => ' ' :: word.toList := by
  induction marks with
  | nil => rfl
  | cons mark marks ih =>
    obtain ⟨⟨hopening, hclosing⟩, hmarks⟩ := List.forall_mem_cons.mp h
    rw [List.map_cons, List.flatMap_cons, ← ih hmarks, render, hopening, Mark.gap, hclosing,
      Mark.text, String.toList_ofList]
    rfl

theorem Formed.write_eq (h : Formed marks nodes)
    (hwords : ∀ mark ∈ marks, mark.isOpening = false ∧ mark.isClosing = false) (style : Style)
    : write style (.group nodes) = String.ofList (cleanUp style (render true marks)) := by
  obtain ⟨hpieces, hlettered⟩ := h.words (fun mark hmark => (hwords mark hmark).1) style {}
  cases marks with
  | nil =>
    rw [write, pieces, hpieces]
    rfl
  | cons mark marks =>
    obtain ⟨⟨hopening, _⟩, hmarks⟩ := List.forall_mem_cons.mp hwords
    rw [write_words hpieces hlettered, ← render_words hmarks, render, hopening, Mark.text,
      String.toList_ofList]
    rfl

end Formed

section Kinds

variable {marks : List Mark} {mark : Mark} {rounding other : Rounding} {inside within : Bool}

theorem foldMarks_cons (hmark : ∀ side, mark ≠ .bracket rounding side) (marks : List Mark)
    : foldMarks rounding inside (mark :: marks) = mark :: foldMarks rounding inside marks := by
  rw [foldMarks, foldMark_other (hmark _)]

theorem endsInside_append (rounding : Rounding) (inside : Bool) (marks more : List Mark)
    : endsInside rounding inside (marks ++ more) =
      endsInside rounding (endsInside rounding inside marks) more := by
  induction marks generalizing inside with
  | nil => rfl
  | cons mark marks ih => exact ih _

theorem foldMarks_append (rounding : Rounding) (inside : Bool) (marks more : List Mark)
    : foldMarks rounding inside (marks ++ more) =
      foldMarks rounding inside marks ++
        foldMarks rounding (endsInside rounding inside marks) more := by
  induction marks generalizing inside with
  | nil => rfl
  | cons mark marks ih => exact congrArg _ (ih _)

theorem foldMark_comm (h : rounding ≠ other) (inside within : Bool) (mark : Mark)
    : (foldMark rounding inside (foldMark other within mark).1).1 =
        (foldMark other within (foldMark rounding inside mark).1).1 ∧
      (foldMark rounding inside (foldMark other within mark).1).2 =
        (foldMark rounding inside mark).2 := by
  cases mark with
  | bracket kind side =>
    cases rounding <;> cases other <;> first | contradiction | skip
    all_goals cases inside <;> cases within <;> cases kind <;> cases side <;> exact ⟨rfl, rfl⟩
  | plain | opening | closing => cases inside <;> cases within <;> exact ⟨rfl, rfl⟩

theorem endsInside_foldMarks (h : rounding ≠ other) (inside within : Bool) (marks : List Mark)
    : endsInside rounding inside (foldMarks other within marks) =
      endsInside rounding inside marks := by
  induction marks generalizing inside within with
  | nil => rfl
  | cons mark marks ih =>
    rw [foldMarks, endsInside, (foldMark_comm h inside within mark).2, ih, endsInside]

theorem foldMarks_comm (h : rounding ≠ other) (inside within : Bool) (marks : List Mark)
    : foldMarks rounding inside (foldMarks other within marks) =
      foldMarks other within (foldMarks rounding inside marks) := by
  induction marks generalizing inside within with
  | nil => rfl
  | cons mark marks ih =>
    obtain ⟨hmark, hinside⟩ := foldMark_comm h inside within mark
    obtain ⟨_, hwithin⟩ := foldMark_comm h.symm within inside mark
    rw [foldMarks, foldMarks, foldMarks, foldMarks, hmark, hinside, hwithin, ih]

theorem mem_foldMarks {side : Side} (hmem : .bracket rounding side ∈ marks) (h : other ≠ rounding)
    (within : Bool) : .bracket rounding side ∈ foldMarks other within marks := by
  induction marks generalizing within with
  | nil => contradiction
  | cons mark marks ih =>
    rcases List.mem_cons.mp hmem with rfl | hmem
    . rw [foldMarks_cons fun side heq => h (Mark.bracket.inj heq).1.symm]
      exact List.mem_cons_self
    . exact List.mem_cons_of_mem _ (ih hmem _)

end Kinds

/--
Letters and pairs of brackets side by side. Nothing stands between the brackets of no pair.
-/
inductive Pairing : (isEmpty : Bool) → Type where
  | nil : Pairing true
  | plain {isEmpty : Bool} (letter : AlphabeticChar) (rest : Pairing isEmpty) : Pairing false
  | pair {isEmpty : Bool} (rounding : Rounding) (content : Pairing false) (rest : Pairing isEmpty) :
    Pairing false

namespace Pairing

def flat {isEmpty : Bool} : Pairing isEmpty → List Formula
  | .nil => []
  | .plain letter rest => .atom letter.text :: rest.flat
  | .pair rounding content rest =>
    .symbol (rounding.bracket .left) ::
      (content.flat ++ .symbol (rounding.bracket .right) :: rest.flat)

def folded {isEmpty : Bool} : Pairing isEmpty → List Formula
  | .nil => []
  | .plain letter rest => .atom letter.text :: rest.folded
  | .pair rounding content rest =>
    .call rounding.name [ofList content.folded] [] :: rest.folded

def holds (rounding : Rounding) {isEmpty : Bool} : Pairing isEmpty → Bool
  | .nil => false
  | .plain _ rest => rest.holds rounding
  | .pair other content rest =>
    other = rounding || content.holds rounding || rest.holds rounding

def isUnnested {isEmpty : Bool} : Pairing isEmpty → Bool
  | .nil => true
  | .plain _ rest => rest.isUnnested
  | .pair rounding content rest =>
    !content.holds rounding && content.isUnnested && rest.isUnnested

/--
The mark before the content of a pair. Pairs of the given kinds have parentheses.
-/
def leftMark (folds : Rounding → Bool) (rounding : Rounding) : Mark :=
  if folds rounding then .opening rounding else .bracket rounding .left

def rightMark (folds : Rounding → Bool) (rounding : Rounding) : Mark :=
  if folds rounding then .closing else .bracket rounding .right

def marks (folds : Rounding → Bool) {isEmpty : Bool} : Pairing isEmpty → List Mark
  | .nil => []
  | .plain letter rest => .plain letter :: rest.marks folds
  | .pair rounding content rest =>
    leftMark folds rounding :: (content.marks folds ++ rightMark folds rounding :: rest.marks folds)

def brackets {isEmpty : Bool} (row : Pairing isEmpty) : List Mark :=
  row.marks fun _ => false

section Marks

variable {isEmpty : Bool} {rounding other : Rounding} {inside : Bool} {folds : Rounding → Bool}

theorem marks_ne_nil (folds : Rounding → Bool) (row : Pairing false) : row.marks folds ≠ [] := by
  cases row with
  | plain | pair => exact List.cons_ne_nil _ _

theorem marks_pair_append (content : Pairing false) (rest : Pairing isEmpty) (more : List Mark)
    : (Pairing.pair rounding content rest).marks folds ++ more =
      leftMark folds rounding ::
        (content.marks folds ++ rightMark folds rounding :: (rest.marks folds ++ more)) := by
  simp [marks]

theorem leftMark_ne (h : other ≠ rounding) (side : Side)
    : leftMark folds other ≠ .bracket rounding side := by
  unfold leftMark
  split <;> simp [h]

theorem rightMark_ne (h : other ≠ rounding) (side : Side)
    : rightMark folds other ≠ .bracket rounding side := by
  unfold rightMark
  split <;> simp [h]

theorem formed_flat (row : Pairing isEmpty) : Formed row.brackets row.flat := by
  induction row with
  | nil => exact .nil
  | plain letter rest ih => exact .plain ih
  | pair rounding content rest ihcontent ih => exact .bracket (ihcontent.append (.bracket ih))

theorem formed_folded (row : Pairing isEmpty) : Formed (row.marks fun _ => true) row.folded := by
  induction row with
  | nil => exact .nil
  | plain letter rest ih => exact .plain ih
  | pair rounding content rest ihcontent ih =>
    exact .call ihcontent (ihcontent.ne_nil (content.marks_ne_nil _)) ih

theorem brackets_spec (row : Pairing isEmpty)
    : ∀ mark ∈ row.brackets, mark.isOpening = false ∧ mark.isClosing = false := by
  induction row with
  | nil => exact List.forall_mem_nil _
  | plain letter rest ih => exact List.forall_mem_cons.mpr ⟨⟨rfl, rfl⟩, ih⟩
  | pair rounding content rest ihcontent ih =>
    refine List.forall_mem_cons.mpr ⟨⟨rfl, rfl⟩, List.forall_mem_append.mpr ⟨ihcontent, ?_⟩⟩
    exact List.forall_mem_cons.mpr ⟨⟨rfl, rfl⟩, ih⟩

theorem closesAll_brackets (row : Pairing isEmpty) : closesAll 0 row.brackets :=
  closesAll_words row.brackets_spec

theorem head?_brackets (row : Pairing false) (more : List Mark)
    : ∀ mark ∈ (row.brackets ++ more).head?, mark.closes = false := by
  cases row with
  | plain | pair => simp [brackets, marks, leftMark, Mark.closes]

theorem apart_append (row : Pairing isEmpty) {more : List Mark} (h : Apart more)
    : Apart (row.brackets ++ more) := by
  induction row generalizing more with
  | nil => exact h
  | plain letter rest ih =>
    exact List.isChain_cons.mpr ⟨fun _ _ hpair => absurd hpair.1 Bool.false_ne_true, ih h⟩
  | pair rounding content rest ihcontent ih =>
    have hright : Apart (.bracket rounding .right :: (rest.brackets ++ more)) :=
      List.isChain_cons.mpr ⟨fun _ _ hpair => absurd hpair.1 Bool.false_ne_true, ih h⟩
    rw [brackets, marks_pair_append]
    refine List.isChain_cons.mpr ⟨fun mark hmark hpair => ?_, ihcontent hright⟩
    exact absurd hpair.2 (Bool.eq_false_iff.mp (head?_brackets content _ mark hmark))

theorem apart_brackets (row : Pairing isEmpty) : Apart row.brackets := by
  have hapart := row.apart_append .nil
  rwa [List.append_nil] at hapart

theorem endsInside_brackets (rounding : Rounding) (row : Pairing isEmpty)
    : endsInside rounding false row.brackets = false := by
  induction row with
  | nil => rfl
  | plain letter rest ih => exact ih
  | pair other content rest ihcontent ih =>
    by_cases hother : other = rounding
    . subst hother
      have hpair : ∀ inside, endsInside other inside (.bracket other .right :: rest.brackets) =
          false := by
        intro inside
        cases inside with
        | false => exact ih
        | true => rw [endsInside, foldMark_right, ih]
      exact (endsInside_append other _ content.brackets _).trans (hpair _)
    . rw [brackets, marks, endsInside, foldMark_other (leftMark_ne hother _), endsInside_append]
      change endsInside rounding (endsInside rounding false content.brackets) _ = false
      rw [ihcontent, endsInside, foldMark_other (rightMark_ne hother _)]
      exact ih

theorem foldMarks_of_not_holds {row : Pairing isEmpty} (h : row.holds rounding = false)
    (inside : Bool) (more : List Mark)
    : foldMarks rounding inside (row.marks folds ++ more) =
      row.marks folds ++ foldMarks rounding inside more := by
  induction row generalizing more with
  | nil => rfl
  | plain letter rest ih => rw [marks, List.cons_append, foldMarks_cons (by simp), ih h]; rfl
  | pair other content rest ihcontent ih =>
    simp only [holds, Bool.or_eq_false_iff, decide_eq_false_iff_not] at h
    obtain ⟨⟨hother, hcontent⟩, hrest⟩ := h
    rw [marks_pair_append, foldMarks_cons (leftMark_ne hother), ihcontent hcontent,
      foldMarks_cons (rightMark_ne hother), ih hrest, marks_pair_append]

theorem marks_update {row : Pairing isEmpty} (h : row.holds rounding = false)
    : row.marks (Function.update folds rounding true) = row.marks folds := by
  induction row with
  | nil => rfl
  | plain letter rest ih => rw [marks, ih h, marks]
  | pair other content rest ihcontent ih =>
    simp only [holds, Bool.or_eq_false_iff, decide_eq_false_iff_not] at h
    obtain ⟨⟨hother, hcontent⟩, hrest⟩ := h
    rw [marks, ihcontent hcontent, ih hrest, marks, leftMark, rightMark,
      Function.update_of_ne hother, leftMark, rightMark]

/--
Where no pair stands inside a pair of its own kind, the brackets of each pair become the parentheses
of a call.
-/
theorem foldMarks_of_isUnnested {row : Pairing isEmpty} (h : row.isUnnested)
    (hfolds : folds rounding = false) (more : List Mark)
    : foldMarks rounding false (row.marks folds ++ more) =
      row.marks (Function.update folds rounding true) ++ foldMarks rounding false more := by
  induction row generalizing more with
  | nil => rfl
  | plain letter rest ih => rw [marks, List.cons_append, foldMarks_cons (by simp), ih h]; rfl
  | pair other content rest ihcontent ih =>
    simp only [isUnnested, Bool.and_eq_true, Bool.not_eq_true'] at h
    obtain ⟨⟨hholds, hcontent⟩, hrest⟩ := h
    rw [marks_pair_append, marks_pair_append]
    by_cases hother : other = rounding
    . subst hother
      have hfolded : Function.update folds other true other = true := Function.update_self ..
      rw [leftMark, rightMark, hfolds, leftMark, rightMark, hfolded, marks_update hholds]
      change foldMarks other false (.bracket other .left ::
        (content.marks folds ++ .bracket other .right :: (rest.marks folds ++ more))) = _
      rw [foldMarks, foldMark_left, foldMarks_of_not_holds hholds, foldMarks, foldMark_right,
        ih hrest]
      rfl
    . rw [foldMarks_cons (leftMark_ne hother), ihcontent hcontent,
        foldMarks_cons (rightMark_ne hother), ih hrest, leftMark, rightMark, leftMark, rightMark,
        Function.update_of_ne hother]

theorem mem_foldMarks_of_holds {row : Pairing isEmpty} (h : row.holds rounding) (more : List Mark)
    : .bracket rounding .left ∈ foldMarks rounding true (row.brackets ++ more) := by
  induction row generalizing more with
  | nil => contradiction
  | plain letter rest ih => exact List.mem_cons_of_mem _ (ih h more)
  | pair other content rest ihcontent ih =>
    rw [brackets, marks_pair_append]
    by_cases hother : other = rounding
    . subst hother
      exact List.mem_cons_self
    . simp only [holds, hother, decide_false, Bool.false_or, Bool.or_eq_true] at h
      rw [foldMarks_cons (leftMark_ne hother)]
      apply List.mem_cons_of_mem
      by_cases hcontent : content.holds rounding
      . exact ihcontent hcontent _
      . rw [foldMarks_of_not_holds (Bool.eq_false_iff.mpr hcontent),
          foldMarks_cons (rightMark_ne hother)]
        apply List.mem_append_right
        exact List.mem_cons_of_mem _ (ih (h.resolve_left hcontent) more)

theorem brackets_pair (rounding : Rounding) (content : Pairing false) (rest : Pairing isEmpty)
    : (Pairing.pair rounding content rest).brackets =
      .bracket rounding .left ::
        (content.brackets ++ .bracket rounding .right :: rest.brackets) :=
  rfl

theorem exists_mem_foldMarks {row : Pairing isEmpty} (h : row.isUnnested = false)
    : ∃ rounding, row.holds rounding ∧
      .bracket rounding .left ∈ foldMarks rounding false row.brackets := by
  induction row with
  | nil => contradiction
  | plain letter rest ih =>
    obtain ⟨rounding, hholds, hmem⟩ := ih h
    exact ⟨rounding, hholds, List.mem_cons_of_mem _ hmem⟩
  | pair other content rest ihcontent ih =>
    by_cases hother : content.holds other
    . refine ⟨other, by simp [holds], ?_⟩
      rw [brackets_pair, foldMarks, foldMark_left]
      exact List.mem_cons_of_mem _ (mem_foldMarks_of_holds hother _)
    rw [isUnnested, Bool.eq_false_iff.mpr hother, Bool.not_false, Bool.true_and,
      Bool.and_eq_false_iff] at h
    rcases h with hcontent | hrest
    . obtain ⟨rounding, hholds, hmem⟩ := ihcontent hcontent
      have hne : other ≠ rounding := by
        rintro rfl
        exact hother hholds
      refine ⟨rounding, by simp [holds, hholds], ?_⟩
      rw [brackets_pair, foldMarks_cons (by simp [hne]), foldMarks_append]
      exact List.mem_cons_of_mem _ (List.mem_append_left _ hmem)
    . obtain ⟨rounding, hholds, hmem⟩ := ih hrest
      have happend : (Pairing.pair other content rest).brackets =
          (Pairing.pair other content .nil).brackets ++ rest.brackets := by
        rw [brackets_pair, brackets_pair, List.cons_append, List.append_assoc]
        rfl
      refine ⟨rounding, by simp [holds, hholds], ?_⟩
      rw [happend, foldMarks_append, endsInside_brackets]
      exact List.mem_append_right _ hmem

theorem foldAll_of_isUnnested {row : Pairing isEmpty} (h : row.isUnnested)
    : foldAll row.brackets = row.marks fun _ => true := by
  have hfloor := @foldMarks_of_isUnnested _ .floor (fun _ => false) row h rfl []
  have hceil := @foldMarks_of_isUnnested _ .ceil (Function.update (fun _ => false) .floor true) row
    h rfl []
  simp only [List.append_nil, foldMarks] at hfloor hceil
  have hall : Function.update (Function.update (fun _ => false) Rounding.floor true) .ceil true =
      fun _ => true := by
    funext rounding
    cases rounding <;> rfl
  rw [foldAll, brackets, hfloor, hceil, hall]

theorem mem_foldAll {row : Pairing isEmpty} (h : row.isUnnested = false)
    : ∃ rounding, .bracket rounding .left ∈ foldAll row.brackets := by
  obtain ⟨rounding, _, hmem⟩ := exists_mem_foldMarks h
  refine ⟨rounding, ?_⟩
  cases rounding with
  | floor => exact mem_foldMarks hmem (by decide) false
  | ceil =>
    -- The bracket is left over by the folding of its own kind, which may as well be the first one.
    rw [foldAll, foldMarks_comm (by decide)]
    exact mem_foldMarks hmem (by decide) false

theorem bracket_not_mem (row : Pairing isEmpty) (rounding : Rounding) (side : Side)
    : .bracket rounding side ∉ row.marks fun _ => true := by
  induction row with
  | nil => exact List.not_mem_nil
  | plain letter rest ih => simpa [marks] using ih
  | pair other content rest ihcontent ih => simp [marks, leftMark, rightMark, ihcontent, ih]

theorem cleanUp_brackets (row : Pairing isEmpty) {style : Style} (hstyle : style.optimize)
    : cleanUp style (render true row.brackets) = render true (foldAll row.brackets) := by
  apply cleanUp_render hstyle (endsInside_brackets .floor row) _ row.apart_brackets
  rw [endsInside_foldMarks (by decide), endsInside_brackets]

theorem exists_formed_foldAll (row : Pairing isEmpty)
    : ∃ nodes, Formed (foldAll row.brackets) nodes := by
  have hfloor := closesAll_foldMarks (endsInside_brackets .floor row) row.closesAll_brackets
  have hends : endsInside .ceil false (foldMarks .floor false row.brackets) = false := by
    rw [endsInside_foldMarks (by decide), endsInside_brackets]
  exact exists_formed (closesAll_foldMarks hends hfloor)
    ((row.apart_brackets.foldMarks .floor false).foldMarks .ceil false)

end Marks

end Pairing

/--
Written pairs of brackets are read. Each pair is read as a call with what stands in between if and
only if no pair stands inside a pair of its own kind.
-/
theorem read_folded_iff_isUnnested {style : Style} (hstyle : style.optimize) {isEmpty : Bool}
    (row : Pairing isEmpty)
    : ∃ read, parseText (write style (.group row.flat)) = .ok read ∧
      (read.withoutSpaces = ofList row.folded ↔ row.isUnnested) := by
  rw [row.formed_flat.write_eq row.brackets_spec, row.cleanUp_brackets hstyle]
  cases hnested : row.isUnnested with
  | true =>
    obtain ⟨read, hread, hsame⟩ := row.formed_folded.exists_read
    rw [Pairing.foldAll_of_isUnnested hnested]
    exact ⟨read, hread, iff_of_true hsame rfl⟩
  | false =>
    -- What is read has a bracket left over, and different marks do not make up the same formulas.
    obtain ⟨nodes, hnodes⟩ := row.exists_formed_foldAll
    obtain ⟨read, hread, hsame⟩ := hnodes.exists_read
    refine ⟨read, hread, iff_of_false (fun hfolded => ?_) Bool.false_ne_true⟩
    have heq := ofList_injective hnodes.single row.formed_folded.single (hsame.symm.trans hfolded)
    obtain ⟨rounding, hmem⟩ := Pairing.mem_foldAll hnested
    rw [hnodes.injective (heq ▸ row.formed_folded)] at hmem
    exact row.bracket_not_mem rounding .left hmem

/--
A pair inside a pair of the other kind, and another pair.
-/
theorem read_folded_iff_isUnnested_crossed
    : ∃ read, parseText (write {} (.group [.symbol "floor.l", .symbol "ceil.l", .atom "a",
          .symbol "ceil.r", .atom "b", .symbol "floor.r", .symbol "ceil.l", .atom "a",
          .symbol "ceil.r"])) = .ok read ∧
      read.withoutSpaces =
        .group [.call "floor" [.group [.call "ceil" [.atom "a"] [], .atom "b"]] [],
          .call "ceil" [.atom "a"] []] := by
  obtain ⟨read, hread, hiff⟩ := @read_folded_iff_isUnnested {} rfl false
    (.pair .floor (.pair .ceil (.plain ⟨'a', by decide⟩ .nil) (.plain ⟨'b', by decide⟩ .nil))
      (.pair .ceil (.plain ⟨'a', by decide⟩ .nil) .nil))
  simp only [Pairing.flat, bracket_names, List.cons_append, List.nil_append] at hread
  exact ⟨read, hread, hiff.mpr rfl⟩

/--
The right bracket of the inner pair is taken for that of the outer one.
-/
theorem nested_floor_mispaired
    : write {} (.group [.symbol "floor.l", .atom "a", .symbol "floor.l", .atom "b",
        .symbol "floor.r", .symbol "floor.r"]) = "floor(a floor.l b) floor.r" ∧
      ∃ read, parseText "floor(a floor.l b) floor.r" = .ok read ∧
        read.withoutSpaces =
          .group [.call "floor" [.group [.atom "a", .symbol "floor.l", .atom "b"]] [],
            .symbol "floor.r"] := by
  refine ⟨by decide +kernel, ?_⟩
  have htext : "floor(a floor.l b) floor.r" = String.ofList (render true [.opening .floor,
      .plain ⟨'a', by decide⟩, .bracket .floor .left, .plain ⟨'b', by decide⟩, .closing,
      .bracket .floor .right]) := by decide +kernel
  rw [htext]
  have hformed := @Formed.call .floor _ _ _ _
    (@Formed.plain ⟨'a', by decide⟩ _ _ (@Formed.bracket .floor .left _ _
      (@Formed.plain ⟨'b', by decide⟩ _ _ .nil)))
    (List.cons_ne_nil _ _) (@Formed.bracket .floor .right _ _ .nil)
  obtain ⟨read, hread, hsame⟩ := hformed.exists_read
  simp only [bracket_names] at hsame
  exact ⟨read, hread, hsame⟩

end Typst
end MathMarkup
