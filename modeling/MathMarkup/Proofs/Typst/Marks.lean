import MathMarkup.Proofs.Typst.Filled
import MathMarkup.Proofs.Typst.Words

/-!
This module contains formulas of single letters and of brackets for rounding as sequences of marks.
The folding of pairs in the written text is a relabelling of marks, by an automaton with two states
for either kind of brackets, and what is written is cut into the tokens of the marks.
-/

namespace MathMarkup
namespace Typst

open Text Formula

/--
The functions that pairs of brackets are folded into.
-/
inductive Rounding where
  | floor
  | ceil
deriving DecidableEq

/--
The sides of a pair of brackets.
-/
inductive Side where
  | left
  | right
deriving DecidableEq

namespace Rounding

def name : Rounding → String
  | .floor => "floor"
  | .ceil => "ceil"

def bracketChars (rounding : Rounding) : Side → List Char
  | .left => rounding.name.toList ++ ['.', 'l']
  | .right => rounding.name.toList ++ ['.', 'r']

def bracket (rounding : Rounding) (side : Side) : String :=
  String.ofList (rounding.bracketChars side)

end Rounding

/--
A part of a written formula: a letter or a bracket, or one of the parentheses of a call.
-/
inductive Mark where
  | plain (letter : AlphabeticChar)
  | bracket (rounding : Rounding) (side : Side)
  | opening (rounding : Rounding)
  | closing

namespace Mark

def chars : Mark → List Char
  | .plain letter => [letter.char]
  | .bracket rounding side => rounding.bracketChars side
  | .opening rounding => rounding.name.toList ++ ['(']
  | .closing => [')']

def text (mark : Mark) : String :=
  String.ofList mark.chars

def lexemes : Mark → List Lexeme
  | .plain letter => [(.element, letter.text)]
  | .bracket rounding side => [(.symbol, rounding.bracket side)]
  | .opening rounding => [(.symbol, rounding.name), (.element, "(")]
  | .closing => [(.element, ")")]

def isOpening : Mark → Bool
  | .opening _ => true
  | _ => false

def isClosing : Mark → Bool
  | .closing => true
  | _ => false

def opens : Mark → Bool
  | .bracket _ .left | .opening _ => true
  | _ => false

def closes : Mark → Bool
  | .bracket _ .right | .closing => true
  | _ => false

/--
The space before a mark. `joined` says whether the mark before does without one.
-/
def gap (joined : Bool) (mark : Mark) : List Char :=
  if joined || mark.isClosing then [] else [' ']

end Mark

def render (joined : Bool) : List Mark → List Char
  | [] => []
  | mark :: marks => mark.gap joined ++ (mark.chars ++ render mark.isOpening marks)

def markLexemes (joined : Bool) : List Mark → List Lexeme
  | [] => []
  | mark :: marks =>
    (if joined || mark.isClosing then [] else [(.space, " ")]) ++
      (mark.lexemes ++ markLexemes mark.isOpening marks)

/--
Relabel a mark. Outside of a pair, a left bracket of the given kind becomes an opening parenthesis;
inside, a right bracket becomes a closing one. The second component says whether what follows is
inside.
-/
def foldMark (rounding : Rounding) : (inside : Bool) → Mark → Mark × Bool
  | false, .bracket other .left =>
    if other = rounding then (.opening rounding, true) else (.bracket other .left, false)
  | true, .bracket other .right =>
    if other = rounding then (.closing, false) else (.bracket other .right, true)
  | inside, mark => (mark, inside)

def foldMarks (rounding : Rounding) (inside : Bool) : List Mark → List Mark
  | [] => []
  | mark :: marks =>
    (foldMark rounding inside mark).1 :: foldMarks rounding (foldMark rounding inside mark).2 marks

def endsInside (rounding : Rounding) (inside : Bool) : List Mark → Bool
  | [] => inside
  | mark :: marks => endsInside rounding (foldMark rounding inside mark).2 marks

section Skipping

variable {name bracket word rest : List Char}

theorem dropFront?_eq_none (h : ¬ word <+: rest) : dropFront? word rest = none := by
  rw [← Option.not_isSome_iff_eq_none]
  exact fun hsome => h (isSome_dropFront?_iff.mp hsome)

theorem foldPairs_append
    (h : ∀ later, later <:+ word → later ≠ [] → ¬ name ++ ['.', 'l'] <+: later ++ rest)
    : foldPairs name (word ++ rest) = word ++ foldPairs name rest := by
  induction word with
  | nil => rfl
  | cons c word ih =>
    have hnone := dropFront?_eq_none (h (c :: word) List.suffix_rfl (List.cons_ne_nil _ _))
    rw [List.cons_append] at hnone ⊢
    rw [foldPairs_of_none (by rw [bracketPair?, hnone]; rfl),
      ih fun later hlater => h later (hlater.trans (List.suffix_cons c word))]
    rfl

theorem upTo?_append (hword : ∀ c ∈ word, isBlank c = false)
    (h : ∀ later, later <:+ word → later ≠ [] → ¬ bracket <+: later ++ rest)
    : upTo? bracket (word ++ rest) =
      (upTo? bracket rest).map fun (content, after) => (word ++ content, after) := by
  induction word with
  | nil => simp
  | cons c word ih =>
    have hc := hword c List.mem_cons_self
    have hline : c ≠ '\n' := by
      rintro rfl
      contradiction
    have hnone := dropFront?_eq_none (h (c :: word) List.suffix_rfl (List.cons_ne_nil _ _))
    have ih := ih (fun c hc => hword c (List.mem_cons_of_mem _ hc))
      fun later hlater => h later (hlater.trans (List.suffix_cons c word))
    rw [List.cons_append] at hnone ⊢
    rw [upTo?, trimStart, List.dropWhile_cons_of_neg (by simp [hc]), hnone]
    simp only [if_neg hline, ih, Option.map_map]
    rfl

theorem upTo?_space (hrest : NotStartsWith isBlank rest) (h : ¬ bracket <+: rest)
    : upTo? bracket (' ' :: rest) =
      (upTo? bracket rest).map fun (content, after) => (' ' :: content, after) := by
  have htrim : trimStart (' ' :: rest) = rest :=
    @dropWhile_append_of_all isBlank [' '] rest (by decide) hrest
  rw [upTo?, htrim, dropFront?_eq_none h]
  rfl

theorem prefix_of_append {front : List Char} (h : word <+: front ++ rest)
    (hend : (∀ c ∈ rest.head?, c ∉ word) ∨ ∃ c ∈ front, c ∉ word) : word <+: front := by
  rcases List.prefix_or_prefix_of_prefix h (List.prefix_append front rest) with h | ⟨more, rfl⟩
  . exact h
  cases more with
  | nil => simp
  | cons d more =>
    exfalso
    rcases hend with hhead | ⟨c, hc, hnot⟩
    . rw [List.prefix_append_right_inj] at h
      obtain ⟨later, rfl⟩ := h
      exact hhead d rfl (by simp)
    . exact hnot (List.mem_append_left _ hc)

end Skipping

section Render

variable {mark : Mark} {marks content rest : List Mark} {joined : Bool} {rounding : Rounding}
  {side : Side}

theorem bracketChars_spec (rounding : Rounding) (side : Side)
    : (∀ c ∈ rounding.bracketChars side, isBlank c = false ∧ c ∉ ['(', ')']) ∧
      rounding.bracketChars side ≠ [] := by
  cases rounding <;> cases side <;> decide

theorem Mark.chars_spec (mark : Mark)
    : (∀ c ∈ mark.chars, isBlank c = false) ∧ mark.chars ≠ [] := by
  cases mark with
  | plain letter =>
    refine ⟨fun c hc => ?_, List.cons_ne_nil _ _⟩
    rw [List.mem_singleton.mp hc]
    exact isBlank_of_isAlphabetic letter.alphabetic
  | bracket rounding side =>
    obtain ⟨hchars, hne⟩ := bracketChars_spec rounding side
    exact ⟨fun c hc => (hchars c hc).1, hne⟩
  | opening rounding => cases rounding <;> exact ⟨by decide, by decide⟩
  | closing => exact ⟨by decide, by decide⟩

theorem Mark.notStartsWith_chars (mark : Mark) (cs : List Char)
    : NotStartsWith isBlank (mark.chars ++ cs) := by
  obtain ⟨hblank, hne⟩ := mark.chars_spec
  rw [notStartsWith_append hne]
  exact fun c hc => hblank c (List.mem_of_head? hc)

theorem Mark.exists_first (h : mark.isClosing = false)
    : ∃ c cs, mark.chars = c :: cs ∧ isAlphabetic c := by
  cases mark with
  | plain letter => exact ⟨_, [], rfl, letter.alphabetic⟩
  | bracket rounding side =>
    cases rounding <;> cases side <;> exact ⟨_, _, rfl, by decide⟩
  | opening rounding => cases rounding <;> exact ⟨_, _, rfl, by decide⟩
  | closing => contradiction

theorem head?_render (marks : List Mark) : ∀ c ∈ (render false marks).head?, c ∈ [' ', ')'] := by
  cases marks with
  | nil => exact nofun
  | cons mark marks =>
    intro c hc
    cases mark
    all_goals
      cases hc
      decide

theorem not_prefix_of_suffix (hmark : mark ≠ .bracket rounding side) {later : List Char}
    (hlater : later <:+ mark.chars) : ¬ rounding.bracketChars side <+: later := by
  have hroundings : ∀ rounding : Rounding, rounding ∈ [.floor, .ceil] := by
    rintro (_ | _) <;> simp
  have hsides : ∀ side : Side, side ∈ [.left, .right] := by
    rintro (_ | _) <;> simp
  have hbrackets : ∀ rounding ∈ [Rounding.floor, .ceil], ∀ side ∈ [Side.left, .right],
      (∀ other ∈ [Rounding.floor, .ceil], ∀ facing ∈ [Side.left, .right],
        (other, facing) ≠ (rounding, side) → ∀ later ∈ (other.bracketChars facing).tails,
          ¬ rounding.bracketChars side <+: later) ∧
      (∀ other ∈ [Rounding.floor, .ceil], ∀ later ∈ (Mark.opening other).chars.tails,
        ¬ rounding.bracketChars side <+: later) ∧
      (∀ later ∈ Mark.closing.chars.tails, ¬ rounding.bracketChars side <+: later) ∧
      2 ≤ (rounding.bracketChars side).length := by
    decide
  obtain ⟨hbracket, hopening, hclosing, hlong⟩ :=
    hbrackets rounding (hroundings rounding) side (hsides side)
  cases mark with
  | plain letter =>
    intro hprefix
    have hlength := hprefix.length_le.trans hlater.length_le
    rw [Mark.chars, List.length_singleton] at hlength
    omega
  | bracket other facing =>
    refine hbracket other (hroundings other) facing (hsides facing) ?_ later
      ((List.mem_tails _ _).mpr hlater)
    rintro ⟨⟩
    contradiction
  | opening other => exact hopening other (hroundings other) later ((List.mem_tails _ _).mpr hlater)
  | closing => exact hclosing later ((List.mem_tails _ _).mpr hlater)

theorem not_prefix_bracket (hmark : mark ≠ .bracket rounding side) {later : List Char}
    (hlater : later <:+ mark.chars) (hne : later ≠ []) (marks : List Mark)
    : ¬ rounding.bracketChars side <+: later ++ render mark.isOpening marks := by
  have hchars := (bracketChars_spec rounding side).1
  intro hprefix
  refine not_prefix_of_suffix hmark hlater (prefix_of_append hprefix ?_)
  cases mark with
  | opening other =>
    refine .inr ⟨later.getLast hne, List.getLast_mem hne, fun hmem => ?_⟩
    have hlast : later.getLast hne = '(' := by
      rw [hlater.getLast]
      exact List.getLast_concat
    exact (hchars _ hmem).2 (by rw [hlast]; decide)
  | _ =>
    refine .inl fun c hc hmem => ?_
    have hspec : ∀ c ∈ [' ', ')'], isBlank c ∨ c ∈ ['(', ')'] := by decide
    rcases hspec c (head?_render marks c hc) with hblank | hparen
    . rw [(hchars c hmem).1] at hblank
      contradiction
    . exact (hchars c hmem).2 hparen

theorem trimStart_render (joined : Bool) (marks : List Mark)
    : trimStart (render joined marks) = render true marks := by
  cases marks with
  | nil => rfl
  | cons mark marks =>
    have hstart := mark.notStartsWith_chars (render mark.isOpening marks)
    have hgap : ∀ c ∈ mark.gap joined, isBlank c := by
      unfold Mark.gap
      split <;> decide
    rw [trimStart, render, dropWhile_append_of_all hgap hstart]
    rfl

theorem render_closing (joined : Bool) (content rest : List Mark)
    : render joined (content ++ .closing :: rest) =
      render joined content ++ ')' :: render false rest := by
  induction content generalizing joined with
  | nil => simp [render, Mark.gap, Mark.isClosing, Mark.chars, Mark.isOpening]
  | cons mark content ih =>
    rw [List.cons_append, render, ih, render]
    simp

theorem upTo?_render (hcontent : .bracket rounding side ∉ content) (joined : Bool)
    (rest : List Mark)
    : upTo? (rounding.bracketChars side)
        (render joined (content ++ .bracket rounding side :: rest)) =
      some (render joined content, render false rest) := by
  induction content generalizing joined with
  | nil =>
    have hfound : dropFront? (rounding.bracketChars side)
        (trimStart (render joined (.bracket rounding side :: rest))) =
          some (render false rest) := by
      rw [trimStart_render]
      exact dropFront?_append _ _
    unfold upTo?
    rw [List.nil_append, hfound]
    rfl
  | cons mark content ih =>
    simp only [List.mem_cons, not_or] at hcontent
    have hskip {later : List Char} (hlater : later <:+ mark.chars) (hne : later ≠ []) :=
      not_prefix_bracket (Ne.symm hcontent.1) hlater hne (content ++ .bracket rounding side :: rest)
    have hstart := mark.notStartsWith_chars
      (render mark.isOpening (content ++ .bracket rounding side :: rest))
    have hword := upTo?_append mark.chars_spec.1 fun _ => hskip
    rw [ih hcontent.2] at hword
    rw [List.cons_append, render, render, Mark.gap]
    split
    . rw [List.nil_append, hword]
      rfl
    . rw [List.singleton_append, upTo?_space hstart (hskip List.suffix_rfl mark.chars_spec.2),
        hword]
      rfl

end Render

section Folding

variable {mark : Mark} {marks : List Mark} {rounding : Rounding}

theorem foldMark_left (rounding : Rounding)
    : foldMark rounding false (.bracket rounding .left) = (.opening rounding, true) :=
  if_pos rfl

theorem foldMark_right (rounding : Rounding)
    : foldMark rounding true (.bracket rounding .right) = (.closing, false) :=
  if_pos rfl

theorem foldMark_other {inside : Bool}
    (hmark : mark ≠ .bracket rounding (if inside then .right else .left))
    : foldMark rounding inside mark = (mark, inside) := by
  unfold foldMark
  split
  . rw [if_neg]
    rintro rfl
    exact hmark rfl
  . rw [if_neg]
    rintro rfl
    exact hmark rfl
  . rfl

theorem exists_of_inside (h : endsInside rounding true marks = false)
    : ∃ content rest, marks = content ++ .bracket rounding .right :: rest ∧
      .bracket rounding .right ∉ content ∧ endsInside rounding false rest = false ∧
      foldMarks rounding true marks = content ++ .closing :: foldMarks rounding false rest := by
  induction marks with
  | nil => contradiction
  | cons mark marks ih =>
    by_cases hmark : mark = .bracket rounding .right
    . subst hmark
      rw [endsInside, foldMark_right] at h
      refine ⟨[], marks, rfl, List.not_mem_nil, h, ?_⟩
      rw [foldMarks, foldMark_right]
      rfl
    . have hsame : foldMark rounding true mark = (mark, true) := foldMark_other hmark
      rw [endsInside, hsame] at h
      obtain ⟨content, rest, rfl, hnot, hends, hfold⟩ := ih h
      refine ⟨mark :: content, rest, rfl, by simp [Ne.symm hmark, hnot], hends, ?_⟩
      rw [foldMarks, hsame, hfold]
      rfl

theorem foldPairs_gap (rounding : Rounding) (joined : Bool) (mark : Mark) (cs : List Char)
    : foldPairs rounding.name.toList (mark.gap joined ++ cs) =
      mark.gap joined ++ foldPairs rounding.name.toList cs := by
  unfold Mark.gap
  split
  . rfl
  . apply foldPairs_of_none
    have hspace : ¬ rounding.bracketChars .left <+: ' ' :: cs := by
      cases rounding <;> simp [Rounding.bracketChars, Rounding.name]
    rw [bracketPair?]
    exact congrArg (Option.bind · _) (dropFront?_eq_none hspace)

theorem bracketPair?_render {content : List Mark} (h : .bracket rounding .right ∉ content)
    (rest : List Mark)
    : bracketPair? rounding.name.toList (rounding.bracketChars .left ++
        render false (content ++ .bracket rounding .right :: rest)) =
      some (render true content, render false rest) := by
  have hclose := upTo?_render h true rest
  rw [← trimStart_render false] at hclose
  have hopen := dropFront?_append (rounding.bracketChars .left)
    (render false (content ++ .bracket rounding .right :: rest))
  exact (congrArg (Option.bind · _) hopen).trans hclose

theorem foldPairs_render {marks : List Mark} (h : endsInside rounding false marks = false)
    (joined : Bool)
    : foldPairs rounding.name.toList (render joined marks) =
      render joined (foldMarks rounding false marks) := by
  -- A pair is folded as a whole. The recursion goes on behind it, where there are fewer marks.
  match marks with
  | [] => exact foldPairs_nil _
  | mark :: marks =>
    rw [render, foldPairs_gap]
    by_cases hmark : mark = .bracket rounding .left
    . subst hmark
      rw [endsInside, foldMark_left] at h
      obtain ⟨content, rest, rfl, hnot, hends, hfold⟩ := exists_of_inside h
      have ih := foldPairs_render hends false
      have hpair := foldPairs_of_pair (bracketPair?_render hnot rest)
      rw [ih] at hpair
      rw [foldMarks, foldMark_left, hfold, render, render_closing]
      refine congrArg (_ ++ ·) (hpair.trans ?_)
      simp [Mark.chars, Mark.isOpening]
    . have hsame : foldMark rounding false mark = (mark, false) := foldMark_other hmark
      rw [endsInside, hsame] at h
      have ih := foldPairs_render h mark.isOpening
      rw [foldPairs_append fun later hlater hne => not_prefix_bracket hmark hlater hne marks, ih,
        foldMarks, hsame, render]
termination_by marks.length
decreasing_by
  all_goals simp_all
  all_goals omega

end Folding

/--
Marks in which no pair is empty.
-/
def Apart (marks : List Mark) : Prop :=
  marks.IsChain fun mark next => ¬ (mark.opens ∧ next.closes)

section Apart

variable {marks : List Mark} {rounding other : Rounding} {inside : Bool}

theorem foldMark_keeps (rounding : Rounding) (inside : Bool) (mark : Mark)
    : (foldMark rounding inside mark).1.opens = mark.opens ∧
      (foldMark rounding inside mark).1.closes = mark.closes := by
  unfold foldMark
  split
  . split <;> exact ⟨rfl, rfl⟩
  . split <;> exact ⟨rfl, rfl⟩
  . exact ⟨rfl, rfl⟩

theorem Apart.foldMarks (h : Apart marks) (rounding : Rounding) (inside : Bool)
    : Apart (foldMarks rounding inside marks) := by
  induction marks generalizing inside with
  | nil => exact .nil
  | cons mark marks ih =>
    cases marks with
    | nil => exact .singleton _
    | cons next marks =>
      obtain ⟨hpair, hmarks⟩ := List.isChain_cons_cons.mp h
      refine List.isChain_cons_cons.mpr ⟨?_, ih hmarks _⟩
      rwa [(foldMark_keeps _ _ _).1, (foldMark_keeps _ _ _).2]

theorem infix_of_append {word rest : List Char} (hword : '(' ∉ word)
    (h : ['(', ')'] <:+: word ++ rest) : ['(', ')'] <:+: rest := by
  induction word with
  | nil => exact h
  | cons c word ih =>
    simp only [List.mem_cons, not_or] at hword
    rcases List.infix_cons_iff.mp h with hprefix | hinfix
    . exact absurd (List.cons_prefix_cons.mp hprefix).1 hword.1
    . exact ih hword.2 hinfix

theorem isClosing_of_head? (h : (render true marks).head? = some ')')
    : ∃ rest, marks = .closing :: rest := by
  cases marks with
  | nil => contradiction
  | cons mark marks =>
    cases hmark : mark.isClosing with
    | true =>
      cases mark with
      | closing => exact ⟨marks, rfl⟩
      | _ => contradiction
    | false =>
      obtain ⟨c, cs, hchars, halphabetic⟩ := mark.exists_first hmark
      rw [render, Mark.gap, Bool.true_or, if_pos rfl, List.nil_append, hchars] at h
      cases h
      contradiction

theorem Apart.not_infix (h : Apart marks) (joined : Bool)
    : ¬ ['(', ')'] <:+: render joined marks := by
  induction marks generalizing joined with
  | nil => simp [render]
  | cons mark marks ih =>
    intro hinfix
    have hgap : '(' ∉ mark.gap joined := by
      unfold Mark.gap
      split <;> decide
    have hinfix := infix_of_append hgap hinfix
    have hlater : ¬ ['(', ')'] <:+: render mark.isOpening marks := ih h.tail _
    cases mark with
    | plain letter =>
      refine hlater (infix_of_append ?_ hinfix)
      intro hmem
      have halphabetic := letter.alphabetic
      rw [← List.mem_singleton.mp hmem] at halphabetic
      contradiction
    | bracket rounding side =>
      refine hlater (infix_of_append (fun hmem => ?_) hinfix)
      exact ((bracketChars_spec rounding side).1 _ hmem).2 (by decide)
    | closing => exact hlater (infix_of_append (by decide) hinfix)
    | opening rounding =>
      rw [Mark.chars, List.append_assoc] at hinfix
      have hinfix := infix_of_append (by cases rounding <;> decide) hinfix
      rcases List.infix_cons_iff.mp hinfix with hprefix | hinfix
      . obtain ⟨more, hmore⟩ := (List.cons_prefix_cons.mp hprefix).2
        have hmore : ')' :: more = render true marks := hmore
        obtain ⟨rest, rfl⟩ := isClosing_of_head? (by rw [← hmore]; rfl)
        exact (List.isChain_cons_cons.mp h).1 ⟨rfl, rfl⟩
      . exact hlater hinfix

end Apart

/--
Whether marks close the parentheses that are open and all that they open themselves.
-/
def closesAll (depth : Nat) : List Mark → Bool
  | [] => depth == 0
  | .opening _ :: marks => closesAll (depth + 1) marks
  | .closing :: marks => depth != 0 && closesAll (depth - 1) marks
  | _ :: marks => closesAll depth marks

section Depth

variable {marks : List Mark} {rounding : Rounding} {inside : Bool} {depth : Nat}

theorem closesAll_closing (depth : Nat) (marks : List Mark)
    : closesAll (depth + 1) (.closing :: marks) = closesAll depth marks := by
  simp [closesAll]

theorem closesAll_words (h : ∀ mark ∈ marks, mark.isOpening = false ∧ mark.isClosing = false)
    : closesAll 0 marks := by
  induction marks with
  | nil => rfl
  | cons mark marks ih =>
    obtain ⟨hmark, hmarks⟩ := List.forall_mem_cons.mp h
    cases mark with
    | plain | bracket => exact ih hmarks
    | opening | closing => simp [Mark.isOpening, Mark.isClosing] at hmark

theorem closesAll_foldMarks (hends : endsInside rounding inside marks = false)
    (h : closesAll depth marks)
    : closesAll (depth + inside.toNat) (foldMarks rounding inside marks) := by
  induction marks generalizing inside depth with
  | nil =>
    rw [endsInside] at hends
    subst hends
    exact h
  | cons mark marks ih =>
    by_cases hmark : mark = .bracket rounding (if inside then .right else .left)
    . cases inside with
      | false =>
        subst hmark
        rw [endsInside, if_neg Bool.false_ne_true, foldMark_left] at hends
        rw [foldMarks, if_neg Bool.false_ne_true, foldMark_left]
        exact ih hends h
      | true =>
        subst hmark
        rw [endsInside, if_pos rfl, foldMark_right] at hends
        rw [foldMarks, if_pos rfl, foldMark_right]
        exact (closesAll_closing depth _).trans (ih hends h)
    . rw [endsInside, foldMark_other hmark] at hends
      rw [foldMarks, foldMark_other hmark]
      cases mark with
      | plain => exact ih hends h
      | bracket => exact ih hends h
      | opening =>
        have ih := ih hends h
        rwa [Nat.add_right_comm] at ih
      | closing =>
        cases depth with
        | zero => contradiction
        | succ depth =>
          rw [closesAll_closing] at h
          rw [Nat.add_right_comm, closesAll_closing]
          exact ih hends h

theorem exists_of_closesAll {inner : Nat} (h : closesAll (depth + 1 + inner) marks)
    : ∃ content rest, marks = content ++ .closing :: rest ∧ closesAll inner content ∧
      closesAll depth rest := by
  induction marks generalizing inner with
  | nil =>
    have hzero : depth + 1 + inner = 0 := beq_iff_eq.mp h
    omega
  | cons mark marks ih =>
    cases mark with
    | plain letter =>
      obtain ⟨content, rest, rfl, hcontent, hrest⟩ := ih h
      exact ⟨.plain letter :: content, rest, rfl, hcontent, hrest⟩
    | bracket rounding side =>
      obtain ⟨content, rest, rfl, hcontent, hrest⟩ := ih h
      exact ⟨.bracket rounding side :: content, rest, rfl, hcontent, hrest⟩
    | opening rounding =>
      obtain ⟨content, rest, rfl, hcontent, hrest⟩ := @ih (inner + 1) h
      exact ⟨.opening rounding :: content, rest, rfl, hcontent, hrest⟩
    | closing =>
      cases inner with
      | zero =>
        rw [Nat.add_zero, closesAll_closing] at h
        exact ⟨[], marks, rfl, rfl, h⟩
      | succ inner =>
        rw [← Nat.add_assoc, closesAll_closing] at h
        obtain ⟨content, rest, rfl, hcontent, hrest⟩ := ih h
        exact ⟨.closing :: content, rest, rfl, (closesAll_closing inner _).trans hcontent, hrest⟩

end Depth

def foldAll (marks : List Mark) : List Mark :=
  foldMarks .ceil false (foldMarks .floor false marks)

section CleanUp

variable {marks : List Mark} {style : Style}

theorem mem_render {joined : Bool} {c : Char} (h : c ∈ render joined marks)
    : c = ' ' ∨ isBlank c = false := by
  induction marks generalizing joined with
  | nil => contradiction
  | cons mark marks ih =>
    rw [render, List.mem_append, List.mem_append, Mark.gap] at h
    rcases h with h | h | h
    . split at h
      . contradiction
      . exact .inl (List.mem_singleton.mp h)
    . exact .inr (mark.chars_spec.1 c h)
    . exact ih h

theorem getLast?_render (joined : Bool)
    : ∀ c, (render joined marks).getLast? = some c → isBlank c = false := by
  induction marks generalizing joined with
  | nil => exact nofun
  | cons mark marks ih =>
    intro c hc
    obtain ⟨hblank, hne⟩ := mark.chars_spec
    rw [render, List.getLast?_append, List.getLast?_append, List.getLast?_eq_some_getLast hne] at hc
    cases hlast : (render mark.isOpening marks).getLast? with
    | some d =>
      rw [hlast] at hc
      cases hc
      exact ih _ c hlast
    | none =>
      rw [hlast] at hc
      cases hc
      exact hblank _ (List.getLast_mem hne)

theorem cleanUp_render (hstyle : style.optimize) (hfloor : endsInside .floor false marks = false)
    (hceil : endsInside .ceil false (foldMarks .floor false marks) = false) (h : Apart marks)
    : cleanUp style (render true marks) = render true (foldAll marks) := by
  have hfolded : folded style (render true marks) = render true (foldAll marks) := by
    rw [folded, if_pos hstyle]
    exact (congrArg _ (foldPairs_render hfloor true)).trans (foldPairs_render hceil true)
  have hcalls : ¬ HasEmptyCall false (render true (foldAll marks)) := by
    rintro ⟨before, name, after, _, _, heq⟩
    have hapart : Apart (foldAll marks) := (h.foldMarks .floor false).foldMarks .ceil false
    refine hapart.not_infix true ⟨before ++ name, after, ?_⟩
    rw [heq]
    simp
  have hfilled : filled style (render true marks) = render true (foldAll marks) := by
    rw [filled, if_pos hstyle, hfolded, fillEmptyCalls_eq_self hcalls]
  rw [cleanUp_eq_lines, hfilled, flatten_lines]
  . intro hmem
    rcases mem_render hmem with hspace | hblank
    . contradiction
    . contradiction
  . exact getLast?_render true

end CleanUp

section Lexing

variable {marks : List Mark}

theorem endsName_render (marks : List Mark) : EndsName (render false marks) := by
  have hspec : ∀ c ∈ [' ', ')'], c.isAlpha = false ∧ c ≠ '.' := by decide
  refine ⟨fun c hc => (hspec c (head?_render marks c hc)).1, fun cs hcs => ?_⟩
  have hpoint := head?_render marks '.' (by rw [hcs]; rfl)
  contradiction

theorem lex_name_of_rounding (rounding : Rounding) {rest : List Char} (hrest : EndsName rest)
    : lex (rounding.name.toList ++ rest) = (.symbol, rounding.name) :: lex rest := by
  apply lex_dotted _ _ hrest
  all_goals cases rounding <;> decide

theorem lex_bracket (rounding : Rounding) (side : Side) {rest : List Char} (hrest : EndsName rest)
    : lex (rounding.bracketChars side ++ rest) = (.symbol, rounding.bracket side) :: lex rest := by
  have hlex := @lex_dotted rest (rounding.bracket side)
    (by cases rounding <;> cases side <;> decide)
    (by cases rounding <;> cases side <;> decide) hrest
  rwa [Rounding.bracket, String.toList_ofList] at hlex

theorem lex_mark_append (mark : Mark) (marks : List Mark)
    : lex (mark.chars ++ render mark.isOpening marks) =
      mark.lexemes ++ lex (render mark.isOpening marks) := by
  cases mark with
  | plain letter => exact lex_alphabetic letter.alphabetic (endsName_render marks)
  | bracket rounding side => exact lex_bracket rounding side (endsName_render marks)
  | opening rounding =>
    rw [Mark.chars, List.append_assoc, List.singleton_append,
      lex_name_of_rounding rounding (endsName_argumentMark (by decide) _),
      lex_argumentMark (by decide)]
    rfl
  | closing => exact lex_argumentMark (by decide) _

theorem lex_render (joined : Bool) (marks : List Mark)
    : lex (render joined marks) = markLexemes joined marks := by
  induction marks generalizing joined with
  | nil => exact lex_nil
  | cons mark marks ih =>
    have hmark := lex_mark_append mark marks
    rw [ih] at hmark
    rw [render, markLexemes, Mark.gap]
    split
    . exact hmark
    . rw [List.singleton_append, lex_space (mark.notStartsWith_chars _), hmark]
      rfl

theorem markLexemes_closing (joined : Bool) (content rest : List Mark)
    : markLexemes joined (content ++ .closing :: rest) =
      markLexemes joined content ++ (.element, ")") :: markLexemes false rest := by
  induction content generalizing joined with
  | nil => simp [markLexemes, Mark.isClosing, Mark.lexemes, Mark.isOpening]
  | cons mark content ih =>
    rw [List.cons_append, markLexemes, ih, markLexemes]
    simp

end Lexing

end Typst
end MathMarkup
