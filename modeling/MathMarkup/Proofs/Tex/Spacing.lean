import MathMarkup.Proofs.Tex.Lexing
import MathMarkup.Tex.Formula.Parser
import MathMarkup.Tex.Formula.Printer

/-!
This module contains the proof that the spaces which the writer puts between pieces, and those that
it leaves out, never change the tokens: what is written is read as the tokens of the pieces, with
blanks in between.
-/

namespace MathMarkup
namespace Tex

open Text Scan

namespace Piece

def chars : Piece → List Char
  | .token text | .glued text => text.toList

/--
The tokens of a piece on its own. What is joined to an array is the raw text of its specification.
-/
def lexemes : Piece → List Lexeme
  | .token text => lex text.toList
  | .glued text => bracedTokens text.toList.tail.dropLast

end Piece

namespace Line

def added (line : Line) : Piece → List Char
  | .glued text => text.toList
  | .token text =>
    if text.isEmpty then [] else (if line.needsSpace text then [' '] else []) ++ text.toList

def emit (line : Line) : List Piece → List Char
  | [] => []
  | piece :: pieces => line.added piece ++ (line.push piece).emit pieces

theorem push_reversed (line : Line) (piece : Piece)
    : (line.push piece).reversed = (line.added piece).reverse ++ line.reversed := by
  cases piece with
  | glued text => rfl
  | token text =>
    simp only [push, added]
    split
    . rfl
    . split
      all_goals simp

theorem foldl_push_reversed (line : Line) (pieces : List Piece)
    : (pieces.foldl push line).reversed = (line.emit pieces).reverse ++ line.reversed := by
  induction pieces generalizing line with
  | nil => rfl
  | cons piece pieces ih => simp [emit, ih, push_reversed]

theorem getLast?_added (line : Line) (piece : Piece)
    : (line.added piece).getLast? = piece.chars.getLast? := by
  cases piece with
  | glued text => rfl
  | token text =>
    rw [added, Piece.chars]
    split
    next hempty => simp [String.isEmpty_iff.mp hempty]
    next hne =>
      have hne : text.toList ≠ [] := by simpa using hne
      rw [List.getLast?_append, List.getLast?_eq_some_getLast hne]
      rfl

theorem getLast?_emit (line : Line) (pieces : List Piece)
    : (line.emit pieces).getLast? = (pieces.flatMap Piece.chars).getLast? := by
  induction pieces generalizing line with
  | nil => rfl
  | cons piece pieces ih =>
    rw [emit, List.flatMap_cons, List.getLast?_append, List.getLast?_append, ih, getLast?_added]

end Line

theorem write_eq (node : Formula)
    : write node = String.ofList (trimEnd (({} : Line).emit node.pieces)) := by
  simp [write, setPieces, Line.foldl_push_reversed, trimEnd]

namespace Line

variable {line : Line} {last : Char} {before : List Char} {text : String}

def opens : Char → Bool
  | '{' | '(' | '[' | '|' | '_' | '^' => true
  | _ => false

def isSign : Char → Bool
  | '-' | '+' => true
  | _ => false

theorem needsSpace_eq (hline : line.reversed = last :: before)
    : line.needsSpace text =
      !(isBlank last || isBlank (text.toList.headD ' ') || opens last ||
        (text == "[" && endsWithCommand (last :: before)) || tight.contains text ||
        (text == "|" && line.openBar) || (before.isEmpty && isSign last) ||
        endsWithLeadingSign (last :: before) || (last == '&' && text == "=") ||
        (last.isDigit && (text.toList.headD ' ').isDigit)) := by
  simp only [needsSpace, hline, Bool.if_false_left, Bool.not_or, Bool.decide_eq_true, Bool.and_assoc]
  simp [opens]
  rfl

theorem needsSpace_of_tight (h : text ∈ tight) : line.needsSpace text = false := by
  cases hline : line.reversed with
  | nil => simp [needsSpace, hline]
  | cons last before => simp [needsSpace_eq hline, h]

theorem needsSpace_of_blank {first : Char} (htext : text.toList.head? = some first)
    (h : isBlank first) : line.needsSpace text = false := by
  cases hline : line.reversed with
  | nil => simp [needsSpace, hline]
  | cons last before => simp [needsSpace_eq hline, htext, h]

theorem needsSpace_of_last (hline : line.reversed = last :: before) (h : opens last ∨ isBlank last)
    (text : String) : line.needsSpace text = false := by
  rcases h with h | h
  all_goals simp [needsSpace_eq hline, h]

theorem tight_not_alphanum : ∀ text ∈ "[" :: "|" :: tight,
    NotStartsWith Char.isAlphanum text.toList := by
  decide +kernel

/--
The characters after which no space is written, or not before every token.
-/
def openers : List Char :=
  ['{', '(', '[', '|', '_', '^', '-', '+', '&']

theorem needsSpace_of_not_opener (hline : line.reversed = last :: before)
    (hblank : isBlank last = false) (hdigit : last.isDigit = false) (hopener : last ∉ openers)
    : line.needsSpace text =
      !(isBlank (text.toList.headD ' ') || (text == "[" && endsWithCommand (last :: before)) ||
        tight.contains text || (text == "|" && line.openBar)) := by
  have hne : ∀ c ∈ openers, last ≠ c := by
    rintro c hc rfl
    exact hopener hc
  have hopens : opens last = false := by
    unfold opens
    split
    case h_7 => rfl
    all_goals exact absurd rfl (hne _ (by decide))
  have hsign : isSign last = false := by
    unfold isSign
    split
    case h_3 => rfl
    all_goals exact absurd rfl (hne _ (by decide))
  have hleading : endsWithLeadingSign (last :: before) = false := by
    change (isSign last && _) = false
    rw [hsign, Bool.false_and]
  have hcell : (last == '&') = false := beq_eq_false_iff_ne.mpr (hne _ (by decide))
  simp only [needsSpace_eq hline, hblank, hopens, hsign, hdigit, hleading, hcell, Bool.and_false,
    Bool.false_and, Bool.or_false, Bool.false_or]

theorem openers_not_alpha : ∀ c ∈ openers, ¬ (c.isAlpha ∨ c = '.') := by
  decide

/--
Where a space is left out after a letter or a point, neither a letter nor a digit follows.
-/
theorem not_alphanum_of_joined (hline : line.reversed = last :: before)
    (hlast : last.isAlpha ∨ last = '.') (h : line.needsSpace text = false)
    : NotStartsWith Char.isAlphanum text.toList := by
  have hspec : isBlank last = false ∧ last.isDigit = false := by
    rcases hlast with halpha | rfl
    . exact ⟨isBlank_of_isAlpha halpha, isDigit_of_isAlpha halpha⟩
    . decide
  have hopener : last ∉ openers := fun hmem => openers_not_alpha last hmem hlast
  simp only [needsSpace_of_not_opener hline hspec.1 hspec.2 hopener, Bool.not_eq_false',
    Bool.or_eq_true, Bool.and_eq_true, beq_iff_eq, List.contains_iff_mem] at h
  rcases h with ((hfirst | ⟨rfl, _⟩) | htight) | ⟨rfl, _⟩
  . intro c hc
    rw [List.headD_eq_head?_getD, hc, Option.getD_some] at hfirst
    rw [Bool.eq_false_iff]
    intro halphanum
    rw [isBlank_of_isAlphanum halphanum] at hfirst
    contradiction
  . exact tight_not_alphanum _ (by simp)
  . exact tight_not_alphanum _ (by simp [htight])
  . exact tight_not_alphanum _ (by simp)

end Line

theorem notStartsWith_inline {cs : List Char} (h : NotStartsWith isBlank cs)
    : NotStartsWith isInlineBlank cs := by
  intro c hc
  simp [isInlineBlank, h c hc]

/--
Whether a text does not make a letter at the end of a word part of a longer name.
-/
def Follows (word rest : List Char) : Prop :=
  ∀ c, word.getLast? = some c → c.isAlpha → NotStartsWith Char.isAlpha rest

/--
The pieces that are cut off from what follows by a space at most.
-/
inductive IsWord : List Char → Prop where
  | single {c : Char} {kind : Kind} (h : singleKind? c = some kind) : IsWord [c]
  | escaped {c : Char} (h : c ∈ escapes) : IsWord ['\\', c]
  | rowEnd : IsWord ['\\', '\\']
  | command {name : List Char} (hname : ∀ c ∈ name, c.isAlpha) (hne : name ≠ [])
    (hraw : String.ofList name ∉ rawCommands) (harity : Symbol.arity? (String.ofList name) = none) :
    IsWord ('\\' :: name)
  | fence {side delim : List Char} (hside : side ∈ ["left".toList, "right".toList])
    (hdelim : IsWord delim) (hstart : NotStartsWith Char.isAlpha delim) :
    IsWord ('\\' :: side ++ delim)
  | raw {side name : List Char} (hside : side ∈ ["begin".toList, "end".toList])
    (hname : ∀ c ∈ name, c.isAlpha) (hne : side = "begin".toList → name ≠ "array".toList) :
    IsWord ('\\' :: side ++ '{' :: name ++ ['}'])

theorem IsWord.ne_nil {word : List Char} (h : IsWord word) : word ≠ [] := by
  cases h
  all_goals simp

theorem getLast?_append_of_ne_nil {front word : List Char} (h : word ≠ [])
    : (front ++ word).getLast? = word.getLast? := by
  rw [List.getLast?_append, List.getLast?_eq_some_getLast h]
  rfl

theorem lex_append_of {word rest : List Char} (lexemes : List Lexeme)
    (halone : lex (word ++ []) = lexemes ++ lex []) (h : lex (word ++ rest) = lexemes ++ lex rest)
    : lex (word ++ rest) = lex word ++ lex rest := by
  rw [List.append_nil, lex_nil, List.append_nil] at halone
  rw [h, halone]

theorem lex_fence {side delim : List Char} (hside : side ∈ ["left".toList, "right".toList])
    (hstart : NotStartsWith Char.isAlpha delim)
    : lex ('\\' :: side ++ delim) = (.command, String.ofList ('\\' :: side)) :: lex delim := by
  simp only [List.mem_cons, List.not_mem_nil, or_false] at hside
  rcases hside with rfl | rfl
  all_goals exact lex_command (by decide) (by decide) hstart (by decide) (.inl (by decide))

theorem lex_raw {side name : List Char} (hside : side ∈ ["begin".toList, "end".toList])
    (hname : ∀ c ∈ name, c.isAlpha) (hne : side = "begin".toList → name ≠ "array".toList)
    (rest : List Char)
    : lex ('\\' :: side ++ '{' :: name ++ '}' :: rest) =
      (.command, String.ofList ('\\' :: side)) :: bracedTokens name ++ lex rest := by
  have hplain : ∀ c ∈ name, c ∉ ['{', '}', '\\'] := by
    intro c hc hmem
    exact (by decide : ∀ c ∈ ['{', '}', '\\'], ¬ c.isAlpha) c hmem (hname c hc)
  simp only [List.mem_cons, List.not_mem_nil, or_false] at hside
  rcases hside with rfl | rfl
  . exact lex_rawArgument rest (by decide) (by decide) hplain
      (arrayStart_of_name_ne hname (hne rfl) rest)
  . refine lex_rawArgument rest (by decide) (by decide) hplain ?_
    rw [List.append_assoc]
    exact arrayStart_append (by decide) (notStartsWith_cons.mpr rfl) (by decide)

theorem lex_raw_alone {side name : List Char} (hside : side ∈ ["begin".toList, "end".toList])
    (hname : ∀ c ∈ name, c.isAlpha)
    : lex ('\\' :: side ++ '{' :: name ++ ['}']) =
      (.command, String.ofList ('\\' :: side)) :: bracedTokens name := by
  by_cases harray : side = "begin".toList ∧ name = "array".toList
  . rw [harray.1, harray.2]
    have := @lex_rawArgument "begin".toList "array".toList [] (by decide) (by decide) (by decide) rfl
    rwa [lex_nil, List.append_nil] at this
  . have := lex_raw hside hname (fun h hne => harray ⟨h, hne⟩) []
    rwa [lex_nil, List.append_nil] at this

theorem IsWord.lex_append {word rest : List Char} (h : IsWord word) (hrest : Follows word rest)
    : lex (word ++ rest) = lex word ++ lex rest := by
  induction h with
  | single h => exact lex_append_of [_] (lex_single h []) (lex_single h rest)
  | escaped h => exact lex_append_of [_] (lex_escaped h []) (lex_escaped h rest)
  | rowEnd => exact lex_append_of [_] (lex_rowEnd []) (lex_rowEnd rest)
  | @command name hname hne hraw harity =>
    have hlast : NotStartsWith Char.isAlpha rest := by
      have hmem := List.getLast_mem hne
      refine hrest _ ?_ (hname _ hmem)
      rw [← List.singleton_append, getLast?_append_of_ne_nil hne, List.getLast?_eq_some_getLast hne]
    exact lex_append_of [_] (lex_command hname hne notStartsWith_nil hraw (.inl harity))
      (lex_command hname hne hlast hraw (.inl harity))
  | @fence side delim hside hdelim hstart ih =>
    have hfollows : Follows delim rest := by
      intro c hc
      apply hrest c
      rw [getLast?_append_of_ne_nil hdelim.ne_nil, hc]
    rw [List.append_assoc, lex_fence hside ((notStartsWith_append hdelim.ne_nil).mpr hstart),
      ih hfollows, lex_fence hside hstart, List.cons_append]
  | @raw side name hside hname hne =>
    apply lex_append_of ((.command, String.ofList ('\\' :: side)) :: bracedTokens name)
    . simpa using lex_raw hside hname hne []
    . simpa using lex_raw hside hname hne rest

def joined (pieces : List Piece) : List Char :=
  pieces.flatMap Piece.chars

def isMarkerChar (c : Char) : Bool :=
  c == '_' || c == '^'

/--
Pieces that can be told apart once they are written: numbers are not side by side, a command with
arguments is followed by a bracket, and blanks do not stand next to script markers.
-/
inductive Fits : List Piece → Prop where
  | nil : Fits []
  | word {text : String} {pieces : List Piece} (h : IsWord text.toList) (hpieces : Fits pieces) :
    Fits (.token text :: pieces)
  | newline {pieces : List Piece} (hnext : NotStartsWith isMarkerChar (joined pieces))
    (hpieces : Fits pieces) : Fits (.token "\n" :: pieces)
  | space {text : String} {pieces : List Piece} (hne : text.toList ≠ [])
    (h : ∀ c ∈ text.toList, c ∈ [' ', '\t'])
    (hnext : NotStartsWith isMarkerChar (joined pieces))
    (hblank : NotStartsWith isInlineBlank (joined pieces)) (hpieces : Fits pieces) :
    Fits (.token text :: pieces)
  | number {text : String} {pieces : List Piece} (h : IsNumber text.toList)
    (hnext : NotStartsWith Char.isDigit (joined pieces)) (hpieces : Fits pieces) :
    Fits (.token text :: pieces)
  | marker {marker : Char} {pieces : List Piece} (h : marker ∈ ['_', '^'])
    (hblank : NotStartsWith isBlank (joined pieces))
    (hdigit : NotStartsWith Char.isDigit (joined pieces)) (hpieces : Fits pieces) :
    Fits (.token (String.ofList [marker]) :: pieces)
  | scriptDigit {marker digit : Char} {pieces : List Piece} (h : marker ∈ ['_', '^'])
    (hdigit : digit.isDigit) (hpieces : Fits pieces) :
    Fits (.token (String.ofList [marker]) :: .token (String.ofList [digit]) :: pieces)
  | func {name : List Char} {bracket : String} {pieces : List Piece}
    (hname : ∀ c ∈ name, c.isAlpha) (hne : name ≠ []) (hraw : String.ofList name ∉ rawCommands)
    (hbracket : bracket ∈ ["\x7b", "["]) (hpieces : Fits (.token bracket :: pieces)) :
    Fits (.token (String.ofList ('\\' :: name)) :: .token bracket :: pieces)
  | array {spec : List Char} {pieces : List Piece} (h : '}' ∉ spec) (hpieces : Fits pieces) :
    Fits (.token "\\begin\x7barray\x7d" :: .glued (String.ofList ('{' :: spec ++ ['}'])) :: pieces)

/--
The tokens of pieces with optional spaces between them, but not where a space is never written.
-/
inductive Spaced : List Piece → List Lexeme → Prop where
  | nil : Spaced [] []
  | joined {piece : Piece} {pieces : List Piece} {lexemes : List Lexeme}
    (hpieces : Spaced pieces lexemes) : Spaced (piece :: pieces) (piece.lexemes ++ lexemes)
  | spaced {text : String} {pieces : List Piece} {lexemes : List Lexeme} (h : text ∉ Line.tight)
    (hpieces : Spaced pieces lexemes) :
    Spaced (.token text :: pieces) ((.space, " ") :: (Piece.token text).lexemes ++ lexemes)

namespace Line

def gap (line : Line) : Piece → List Lexeme
  | .token text => if line.needsSpace text then [(.space, " ")] else []
  | .glued _ => []

/--
The tokens of pieces with the spaces that are written before them.
-/
def lexemes (line : Line) : List Piece → List Lexeme
  | [] => []
  | piece :: pieces => line.gap piece ++ (piece.lexemes ++ (line.push piece).lexemes pieces)

theorem spaced_lexemes (line : Line) (pieces : List Piece)
    : Spaced pieces (line.lexemes pieces) := by
  induction pieces generalizing line with
  | nil => exact .nil
  | cons piece pieces ih =>
    rw [lexemes, gap.eq_def]
    split
    next text =>
      split
      next hspace =>
        refine .spaced (fun htight => ?_) (ih _)
        rw [needsSpace_of_tight htight] at hspace
        contradiction
      . exact .joined (ih _)
    . exact .joined (ih _)

end Line

theorem Fits.exists_token {piece : Piece} {pieces : List Piece} (h : Fits (piece :: pieces))
    : ∃ text, piece = .token text ∧ text.toList ≠ [] := by
  cases h with
  | word h => exact ⟨_, rfl, h.ne_nil⟩
  | space hne => exact ⟨_, rfl, hne⟩
  | number h =>
    obtain ⟨digit, digits, _, htext⟩ := h.exists_digit
    exact ⟨_, rfl, by simp [htext]⟩
  | _ => exact ⟨_, rfl, by simp⟩

namespace Line

variable {line : Line} {last : Char} {before : List Char} {text : String} {pieces : List Piece}

theorem added_token (h : text.toList ≠ [])
    : line.added (.token text) =
      (if line.needsSpace text then [' '] else []) ++ text.toList := by
  have hne : text.isEmpty = false := by simpa using h
  simp [added, hne]

theorem push_last (h : text.toList.getLast? = some last)
    : ∃ before, (line.push (.token text)).reversed = last :: before := by
  have hne : text.toList ≠ [] := by
    intro heq
    simp [heq] at h
  rw [List.getLast?_eq_head?_reverse] at h
  obtain ⟨before, hbefore⟩ := List.head?_eq_some_iff.mp h
  rw [push_reversed, added_token hne, List.reverse_append, hbefore]
  exact ⟨_, rfl⟩

theorem emit_joined {p : Char → Bool} (hp : p ' ' = false) (hpieces : Fits pieces)
    (h : NotStartsWith p (joined pieces)) : NotStartsWith p (line.emit pieces) := by
  cases pieces with
  | nil => exact notStartsWith_nil
  | cons piece pieces =>
    obtain ⟨text, rfl, hne⟩ := hpieces.exists_token
    rw [joined, List.flatMap_cons, Piece.chars, notStartsWith_append hne] at h
    rw [emit, added_token hne]
    split
    . exact notStartsWith_cons.mpr hp
    . rw [List.nil_append]
      exact (notStartsWith_append hne).mpr h

theorem emit_unspaced {p : Char → Bool} (hline : ∀ text, line.needsSpace text = false)
    (hpieces : Fits pieces) (h : NotStartsWith p (joined pieces))
    : NotStartsWith p (line.emit pieces) := by
  cases pieces with
  | nil => exact notStartsWith_nil
  | cons piece pieces =>
    obtain ⟨text, rfl, hne⟩ := hpieces.exists_token
    rw [joined, List.flatMap_cons, Piece.chars, notStartsWith_append hne] at h
    rw [emit, added_token hne, hline]
    exact (notStartsWith_append hne).mpr h

theorem emit_after_letter (hline : line.reversed = last :: before)
    (hlast : last.isAlpha ∨ last = '.') (hpieces : Fits pieces)
    : NotStartsWith Char.isAlphanum (line.emit pieces) := by
  cases pieces with
  | nil => exact notStartsWith_nil
  | cons piece pieces =>
    obtain ⟨text, rfl, hne⟩ := hpieces.exists_token
    rw [emit, added_token hne]
    cases hspace : line.needsSpace text with
    | true => exact notStartsWith_cons.mpr rfl
    | false =>
      exact (notStartsWith_append hne).mpr (not_alphanum_of_joined hline hlast hspace)

end Line

theorem IsWord.of_point {word cs : List Char} (h : IsWord word) (hword : word = '.' :: cs)
    : cs = [] := by
  cases h
  all_goals simp_all

theorem Fits.of_point {text : String} {cs : List Char} {pieces : List Piece}
    (h : Fits (.token text :: pieces)) (htext : text.toList = '.' :: cs)
    : cs = [] ∧ Fits pieces := by
  generalize hall : Piece.token text :: pieces = all at h
  cases h with
  | nil => contradiction
  | word h hpieces =>
    cases hall
    exact ⟨h.of_point htext, hpieces⟩
  | number h =>
    cases hall
    obtain ⟨digit, digits, hdigit, heq⟩ := h.exists_digit
    rw [htext] at heq
    cases heq
    contradiction
  | marker h | scriptDigit h =>
    cases hall
    simp only [String.toList_ofList, List.cons.injEq] at htext
    rw [htext.1] at h
    exact absurd h (by decide)
  | space hne h =>
    cases hall
    have hpoint := h '.' (by simp [htext])
    simp at hpoint
  | newline | func | array =>
    cases hall
    simp at htext

theorem Line.emit_endsNumber {line : Line} {pieces : List Piece} (hpieces : Fits pieces)
    : ∀ cs, line.emit pieces = '.' :: cs → NotStartsWith Char.isDigit cs := by
  intro cs hcs
  cases pieces with
  | nil => contradiction
  | cons piece pieces =>
    obtain ⟨text, rfl, hne⟩ := hpieces.exists_token
    rw [emit, added_token hne] at hcs
    split at hcs
    . exact absurd (List.cons.inj hcs).1 (by decide)
    . rw [List.nil_append] at hcs
      obtain ⟨c, rest, htext⟩ := List.exists_cons_of_ne_nil hne
      rw [htext, List.cons_append, List.cons.injEq] at hcs
      obtain ⟨rfl, hcs⟩ := hcs
      obtain ⟨rfl, hrest⟩ := hpieces.of_point htext
      have hlast : text.toList.getLast? = some '.' := by
        rw [htext]
        rfl
      obtain ⟨before, hline⟩ := line.push_last hlast
      have halphanum := emit_after_letter hline (.inr rfl) hrest
      rw [← hcs]
      intro digit hdigit
      have := halphanum digit hdigit
      simp only [Char.isAlphanum, Bool.or_eq_false_iff] at this
      exact this.2

namespace Lexeme

def isSpace (lexeme : Lexeme) : Bool :=
  lexeme.1 == .space || lexeme.1 == .newline

def isMarker (lexeme : Lexeme) : Bool :=
  lexeme == (.control, "_") || lexeme == (.control, "^")

end Lexeme

theorem isMarker_lexeme (token : Token) : token.isMarker = Lexeme.isMarker token.lexeme := by
  simp only [Token.isMarker, Token.script?, Lexeme.isMarker, Token.lexeme]
  cases hkind : token.kind
  case control =>
    simp only [BEq.rfl, if_true, Script.ofMarker?]
    split
    . simp_all
    . simp_all
    . simp_all
  all_goals simp

/--
Whether no blanks are dropped next to script markers. `afterMarker` says whether a marker stands
before.
-/
def Unstripped (afterMarker : Bool) (lexemes : List Lexeme) : Prop :=
  ∀ tokens : List Token, tokens.map Token.lexeme = lexemes →
    stripScriptSpaces.go afterMarker tokens = tokens

/--
Whether no script marker comes next, after any blanks.
-/
def NoMarkerNext (lexemes : List Lexeme) : Prop :=
  ∀ next, lexemes.find? (!·.isSpace) = some next → next.isMarker = false

theorem unstripped_nil {afterMarker : Bool} : Unstripped afterMarker [] := by
  intro tokens h
  rw [List.map_eq_nil_iff.mp h]
  rfl

theorem unstripped_cons {afterMarker : Bool} {lexeme : Lexeme} {lexemes : List Lexeme}
    (hspace : lexeme.isSpace = false) (h : Unstripped lexeme.isMarker lexemes)
    : Unstripped afterMarker (lexeme :: lexemes) := by
  intro tokens htokens
  obtain ⟨token, tokens, rfl, rfl, rfl⟩ := List.map_eq_cons_iff.mp htokens
  have htoken : Token.isSpace token = false := hspace
  rw [stripScriptSpaces.go, htoken, isMarker_lexeme, h tokens rfl]
  rfl

theorem unstripped_space {lexeme : Lexeme} {lexemes : List Lexeme} (hspace : lexeme.isSpace)
    (hnext : NoMarkerNext lexemes)
    (h : Unstripped false lexemes) : Unstripped false (lexeme :: lexemes) := by
  intro tokens htokens
  obtain ⟨token, tokens, rfl, rfl, rfl⟩ := List.map_eq_cons_iff.mp htokens
  have htoken : Token.isSpace token = true := hspace
  have hmarker : (tokens.find? fun next => !Token.isSpace next).any Token.isMarker = false := by
    cases hfind : tokens.find? fun next => !Token.isSpace next with
    | none => rfl
    | some next =>
      rw [Option.any_some, isMarker_lexeme]
      apply hnext
      rw [List.find?_map]
      exact congrArg (Option.map Token.lexeme) hfind
  rw [stripScriptSpaces.go, htoken, hmarker, h tokens rfl]
  rfl

theorem noMarkerNext_cons {lexeme : Lexeme} {lexemes : List Lexeme}
    (hspace : lexeme.isSpace = false) (hmarker : lexeme.isMarker = false)
    : NoMarkerNext (lexeme :: lexemes) := by
  intro next hnext
  rw [List.find?_cons_of_pos (by simp [hspace])] at hnext
  cases hnext
  exact hmarker

theorem noMarkerNext_space {lexeme : Lexeme} {lexemes : List Lexeme} (hspace : lexeme.isSpace)
    (h : NoMarkerNext lexemes) : NoMarkerNext (lexeme :: lexemes) := by
  intro next hnext
  rw [List.find?_cons_of_neg (by simp [hspace])] at hnext
  exact h next hnext

/--
The tokens that are neither blank nor script markers.
-/
def Lexeme.IsSolid (lexeme : Lexeme) : Prop :=
  lexeme.isSpace = false ∧ lexeme.isMarker = false

instance (lexeme : Lexeme) : Decidable (Lexeme.IsSolid lexeme) :=
  inferInstanceAs (Decidable (_ ∧ _))

theorem isSolid_of_kind {lexeme : Lexeme} (h : lexeme.1 ∈ [.element, .command, .text])
    : lexeme.IsSolid := by
  obtain ⟨kind, text⟩ := lexeme
  simp only [List.mem_cons, List.not_mem_nil, or_false] at h
  rcases h with rfl | rfl | rfl
  all_goals exact ⟨rfl, rfl⟩

theorem isSolid_bracedTokens (text : List Char)
    : ∀ lexeme ∈ bracedTokens text, Lexeme.IsSolid lexeme := by
  simp only [bracedTokens, List.forall_mem_cons]
  exact ⟨by decide, isSolid_of_kind (by simp), by decide, List.forall_mem_nil _⟩

theorem isSolid_single {c : Char} {kind : Kind} (h : singleKind? c = some kind)
    : Lexeme.IsSolid (kind, String.ofList [c]) := by
  rcases singleKind?_cases h with ⟨rfl, hmem⟩ | ⟨rfl, _⟩
  . simp only [List.mem_cons, List.not_mem_nil, or_false] at hmem
    rcases hmem with rfl | rfl | rfl | rfl
    all_goals decide
  . exact isSolid_of_kind (by simp)

theorem IsWord.isSolid {word : List Char} (h : IsWord word)
    : lex word ≠ [] ∧ ∀ lexeme ∈ lex word, Lexeme.IsSolid lexeme := by
  induction h with
  | single h =>
    rw [lex_single h [], lex_nil]
    exact ⟨List.cons_ne_nil _ _, by simpa only [List.forall_mem_singleton] using isSolid_single h⟩
  | escaped h => simp [lex_escaped h [], isSolid_of_kind]
  | rowEnd => simp [lex_rowEnd [], (by decide : Lexeme.IsSolid (.control, "\\\\"))]
  | command hname hne hraw harity =>
    have hlex := lex_command hname hne notStartsWith_nil hraw (.inl harity)
    rw [List.append_nil, lex_nil] at hlex
    simp [hlex, isSolid_of_kind]
  | fence hside hdelim hstart ih =>
    rw [lex_fence hside hstart]
    simp only [ne_eq, reduceCtorEq, not_false_eq_true, List.forall_mem_cons, true_and]
    exact ⟨isSolid_of_kind (by simp), ih.2⟩
  | @raw side name hside hname hne =>
    rw [lex_raw hside hname hne [], lex_nil, List.append_nil]
    simp only [ne_eq, reduceCtorEq, not_false_eq_true, List.forall_mem_cons, true_and]
    exact ⟨isSolid_of_kind (by simp), isSolid_bracedTokens name⟩

theorem unstripped_append {lexemes more : List Lexeme} (hne : lexemes ≠ [])
    (hsolid : ∀ lexeme ∈ lexemes, Lexeme.IsSolid lexeme) (h : Unstripped false more)
    {afterMarker : Bool} : Unstripped afterMarker (lexemes ++ more) := by
  induction lexemes generalizing afterMarker with
  | nil => contradiction
  | cons lexeme lexemes ih =>
    simp only [List.forall_mem_cons] at hsolid
    apply unstripped_cons hsolid.1.1
    rw [hsolid.1.2]
    cases lexemes with
    | nil => exact h
    | cons next lexemes => exact ih (List.cons_ne_nil _ _) hsolid.2

theorem noMarkerNext_append {lexemes more : List Lexeme} (hne : lexemes ≠ [])
    (hsolid : ∀ lexeme ∈ lexemes, Lexeme.IsSolid lexeme) : NoMarkerNext (lexemes ++ more) := by
  cases lexemes with
  | nil => contradiction
  | cons lexeme lexemes =>
    have hfirst := hsolid lexeme List.mem_cons_self
    exact noMarkerNext_cons hfirst.1 hfirst.2

/--
What is read where pieces have been written: their tokens with the spaces that were written, none
of which stand next to a script marker. `afterMarker` says whether a marker stands before.
-/
structure Settled (line : Line) (afterMarker : Bool) (pieces : List Piece)
    (lexemes : List Lexeme) : Prop where
  lexemes_eq : lexemes = line.lexemes pieces
  unstripped : (afterMarker → NotStartsWith isBlank (joined pieces)) →
    Unstripped afterMarker lexemes
  noMarker : NotStartsWith isMarkerChar (joined pieces) → NoMarkerNext lexemes

/--
Whether no space comes next if a marker stands before.
-/
def Line.AfterMarker (line : Line) (afterMarker : Bool) : Prop :=
  afterMarker = true → ∀ text, line.needsSpace text = false

theorem Line.AfterMarker.false (line : Line) : line.AfterMarker false := nofun

section Settled

variable {line : Line} {afterMarker : Bool} {text : String} {pieces : List Piece}
  {lexemes : List Lexeme}

theorem Settled.of_solid (hline : line.AfterMarker afterMarker) (hne : text.toList ≠ [])
    (hblank : NotStartsWith isBlank text.toList) (hlex : lex text.toList ≠ [])
    (hsolid : ∀ lexeme ∈ lex text.toList, Lexeme.IsSolid lexeme)
    (hrest : lex (text.toList ++ (line.push (.token text)).emit pieces) =
      lex text.toList ++ lexemes)
    (h : Settled (line.push (.token text)) false pieces lexemes)
    : Settled line afterMarker (.token text :: pieces) (lex (line.emit (.token text :: pieces))) := by
  have hown : line.lexemes (.token text :: pieces) =
      line.gap (.token text) ++ (lex text.toList ++ lexemes) := by
    rw [Line.lexemes, Piece.lexemes, h.lexemes_eq]
  rw [Line.gap] at hown
  rw [Line.emit, Line.added_token hne]
  cases hspace : line.needsSpace text with
  | false =>
    simp only [hspace, Bool.false_eq_true, if_false, List.nil_append, hrest] at hown ⊢
    refine ⟨hown.symm, fun _ => ?_, fun _ => noMarkerNext_append hlex hsolid⟩
    exact unstripped_append hlex hsolid (h.unstripped nofun)
  | true =>
    have hafter : afterMarker = false := by
      rw [Bool.eq_false_iff]
      intro hmarker
      rw [hline hmarker] at hspace
      contradiction
    subst hafter
    have hstart : NotStartsWith isInlineBlank
        (text.toList ++ (line.push (.token text)).emit pieces) :=
      (notStartsWith_append hne).mpr (notStartsWith_inline hblank)
    simp only [hspace, if_true, List.cons_append, List.nil_append, lex_space hstart, hrest] at hown ⊢
    have hnext : NoMarkerNext (lex text.toList ++ lexemes) := noMarkerNext_append hlex hsolid
    refine ⟨hown.symm, fun _ => ?_, fun _ => noMarkerNext_space rfl hnext⟩
    exact unstripped_space rfl hnext (unstripped_append hlex hsolid (h.unstripped nofun))

theorem emit_newline
    : line.emit (.token "\n" :: pieces) = '\n' :: (line.push (.token "\n")).emit pieces := by
  have hfirst : "\n".toList.head? = some '\n' := rfl
  rw [Line.emit, Line.added_token (by simp), Line.needsSpace_of_blank hfirst (by decide)]
  rfl

theorem emit_space (hne : text.toList ≠ []) (h : ∀ c ∈ text.toList, isBlank c)
    : line.emit (.token text :: pieces) = text.toList ++ (line.push (.token text)).emit pieces := by
  obtain ⟨c, cs, htext⟩ := List.exists_cons_of_ne_nil hne
  have hfirst : text.toList.head? = some c := by rw [htext, List.head?_cons]
  rw [Line.emit, Line.added_token hne, Line.needsSpace_of_blank hfirst (h c (by simp [htext]))]
  rfl

theorem tight_marker {marker : Char} (h : marker ∈ ['_', '^'])
    : String.ofList [marker] ∈ Line.tight := by
  simp only [List.mem_cons, List.not_mem_nil, or_false] at h
  rcases h with rfl | rfl
  all_goals decide

theorem emit_marker {marker : Char} (h : marker ∈ ['_', '^'])
    : line.emit (.token (String.ofList [marker]) :: pieces) =
      marker :: (line.push (.token (String.ofList [marker]))).emit pieces := by
  rw [Line.emit, Line.added_token (by simp), Line.needsSpace_of_tight (tight_marker h)]
  simp

theorem Settled.of_blank {lexeme : Lexeme} (hlex : lex text.toList = [lexeme])
    (hspace : lexeme.isSpace) (hne : text.toList ≠ []) (hblank : ∀ c ∈ text.toList, isBlank c)
    (hnext : NotStartsWith isMarkerChar (joined pieces))
    (h : Settled (line.push (.token text)) false pieces lexemes)
    : Settled line afterMarker (.token text :: pieces) (lexeme :: lexemes) := by
  obtain ⟨c, cs, htext⟩ := List.exists_cons_of_ne_nil hne
  have hfirst : text.toList.head? = some c := by rw [htext, List.head?_cons]
  have hc : isBlank c := hblank c (by simp [htext])
  refine ⟨?_, ?_, fun _ => noMarkerNext_space hspace (h.noMarker hnext)⟩
  . rw [Line.lexemes, Line.gap, Line.needsSpace_of_blank hfirst hc, Piece.lexemes, hlex,
      h.lexemes_eq]
    rfl
  intro hafter
  have hfalse : afterMarker = false := by
    rw [Bool.eq_false_iff]
    intro hmarker
    have hstart := hafter hmarker
    rw [joined, List.flatMap_cons, Piece.chars, notStartsWith_append hne] at hstart
    rw [hstart c hfirst] at hc
    contradiction
  rw [hfalse]
  exact unstripped_space hspace (h.noMarker hnext) (h.unstripped nofun)

theorem unspaced_after_marker {marker : Char} (h : marker ∈ ['_', '^']) (text : String)
    : (line.push (.token (String.ofList [marker]))).needsSpace text = false := by
  have hlast : (String.ofList [marker]).toList.getLast? = some marker := by simp
  obtain ⟨before, hreversed⟩ := line.push_last hlast
  apply Line.needsSpace_of_last hreversed
  simp only [List.mem_cons, List.not_mem_nil, or_false] at h
  rcases h with rfl | rfl
  all_goals exact .inl rfl

theorem emit_scriptDigit (line : Line) {marker : Char} (h : marker ∈ ['_', '^']) (digit : Char)
    (pieces : List Piece)
    : line.emit (.token (String.ofList [marker]) :: .token (String.ofList [digit]) :: pieces) =
      marker :: digit :: ((line.push (.token (String.ofList [marker]))).push
        (.token (String.ofList [digit]))).emit pieces := by
  rw [emit_marker h, Line.emit, Line.added_token (by simp), unspaced_after_marker h,
    String.toList_ofList]
  rfl

theorem unspaced_after_space (hne : text.toList ≠ []) (h : ∀ c ∈ text.toList, isBlank c)
    (next : String) : (line.push (.token text)).needsSpace next = false := by
  obtain ⟨before, hreversed⟩ := line.push_last (List.getLast?_eq_some_getLast hne)
  exact Line.needsSpace_of_last hreversed (.inr (h _ (List.getLast_mem hne))) next

theorem isMarker_marker {marker : Char} (h : marker ∈ ['_', '^'])
    : Lexeme.isSpace (.control, String.ofList [marker]) = false ∧
      Lexeme.isMarker (.control, String.ofList [marker]) = true ∧ isMarkerChar marker = true := by
  simp only [List.mem_cons, List.not_mem_nil, or_false] at h
  rcases h with rfl | rfl
  all_goals decide

theorem lexemes_marker {marker : Char} (h : marker ∈ ['_', '^'])
    : (Piece.token (String.ofList [marker])).lexemes = [(.control, String.ofList [marker])] := by
  rw [Piece.lexemes, String.toList_ofList, lex_marker h notStartsWith_nil notStartsWith_nil, lex_nil]

theorem Settled.of_marker {marker : Char} (h : marker ∈ ['_', '^'])
    (hnext : Unstripped true lexemes)
    (hpieces : lexemes = (line.push (.token (String.ofList [marker]))).lexemes pieces)
    : Settled line afterMarker (.token (String.ofList [marker]) :: pieces)
      ((.control, String.ofList [marker]) :: lexemes) := by
  obtain ⟨hspace, hmarker, hchar⟩ := isMarker_marker h
  refine ⟨?_, fun _ => unstripped_cons hspace (hmarker ▸ hnext), ?_⟩
  . rw [Line.lexemes, Line.gap, Line.needsSpace_of_tight (tight_marker h), lexemes_marker h,
      hpieces]
    rfl
  . intro hstart
    simp [joined, Piece.chars, notStartsWith_cons, hchar] at hstart

end Settled

theorem IsWord.notStartsWith_blank {word : List Char} (h : IsWord word)
    : NotStartsWith isBlank word := by
  cases h with
  | single h => exact notStartsWith_cons.mpr (isBlank_of_singleKind? h)
  | _ => exact notStartsWith_cons.mpr (by decide)

theorem NotStartsWith.of_alphanum {cs : List Char} (h : NotStartsWith Char.isAlphanum cs)
    : NotStartsWith Char.isAlpha cs ∧ NotStartsWith Char.isDigit cs := by
  have hboth : ∀ c, cs.head? = some c → c.isAlpha = false ∧ c.isDigit = false := by
    intro c hc
    have := h c hc
    simpa only [Char.isAlphanum, Bool.or_eq_false_iff] using this
  exact ⟨fun c hc => (hboth c hc).1, fun c hc => (hboth c hc).2⟩

section Emit

variable {line : Line} {afterMarker : Bool} {pieces : List Piece}

theorem settled_word {text : String} (hline : line.AfterMarker afterMarker)
    (h : IsWord text.toList) (hpieces : Fits pieces)
    (ih : Settled (line.push (.token text)) false pieces
      (lex ((line.push (.token text)).emit pieces)))
    : Settled line afterMarker (.token text :: pieces) (lex (line.emit (.token text :: pieces))) := by
  obtain ⟨hlex, hsolid⟩ := h.isSolid
  refine .of_solid hline h.ne_nil h.notStartsWith_blank hlex hsolid (h.lex_append ?_) ih
  intro c hc halpha
  obtain ⟨before, hreversed⟩ := line.push_last hc
  exact (NotStartsWith.of_alphanum (Line.emit_after_letter hreversed (.inl halpha) hpieces)).1

theorem settled_number {text : String} (hline : line.AfterMarker afterMarker)
    (h : IsNumber text.toList) (hnext : NotStartsWith Char.isDigit (joined pieces))
    (hpieces : Fits pieces)
    (ih : Settled (line.push (.token text)) false pieces
      (lex ((line.push (.token text)).emit pieces)))
    : Settled line afterMarker (.token text :: pieces) (lex (line.emit (.token text :: pieces))) := by
  have hends : EndsNumber ((line.push (.token text)).emit pieces) :=
    ⟨Line.emit_joined rfl hpieces hnext, Line.emit_endsNumber hpieces⟩
  have halone : lex text.toList = [(.element, String.ofList text.toList)] := by
    have := lex_number h ⟨notStartsWith_nil, nofun⟩
    rwa [List.append_nil, lex_nil] at this
  obtain ⟨digit, digits, hdigit, htext⟩ := h.exists_digit
  refine .of_solid hline ?_ ?_ ?_ ?_ ?_ ih
  . simp [htext]
  . rw [htext, notStartsWith_cons]
    exact isBlank_of_isDigit hdigit
  . rw [halone]
    exact List.cons_ne_nil _ _
  . rw [halone, List.forall_mem_singleton]
    exact isSolid_of_kind (by simp)
  . rw [lex_number h hends, halone]
    rfl

theorem Line.endsWithCommand_push (line : Line) {name : List Char} (hname : ∀ c ∈ name, c.isAlpha) (hne : name ≠ [])
    : Line.endsWithCommand (line.push (.token (String.ofList ('\\' :: name)))).reversed := by
  have hslash : ∀ cs, NotStartsWith Char.isAlpha ('\\' :: cs) := fun cs => by
    rw [notStartsWith_cons]
    rfl
  have hreverse : ∀ c ∈ name.reverse, c.isAlpha := by simpa using hname
  rw [Line.push_reversed, Line.added_token (by simp), List.reverse_append, String.toList_ofList,
    List.reverse_cons, List.append_assoc, List.append_assoc, List.singleton_append,
    Line.endsWithCommand, takeWhile_append_of_all hreverse (hslash _),
    dropWhile_append_of_all hreverse (hslash _)]
  simpa using hne

theorem emit_bracket {bracket : String} (hbracket : bracket ∈ ["\x7b", "["])
    (hline : Line.endsWithCommand line.reversed) (pieces : List Piece)
    : line.emit (.token bracket :: pieces) =
      bracket.toList ++ (line.push (.token bracket)).emit pieces := by
  have hspace : line.needsSpace bracket = false := by
    simp only [List.mem_cons, List.not_mem_nil, or_false] at hbracket
    rcases hbracket with rfl | rfl
    . exact Line.needsSpace_of_tight (by decide)
    . cases hreversed : line.reversed with
      | nil => simp [Line.needsSpace, hreversed]
      | cons last before =>
        rw [hreversed] at hline
        simp [Line.needsSpace_eq hreversed, hline]
  have hne : bracket.toList ≠ [] := by
    simp only [List.mem_cons, List.not_mem_nil, or_false] at hbracket
    rcases hbracket with rfl | rfl
    all_goals simp
  rw [Line.emit, Line.added_token hne, hspace]
  rfl

theorem settled_func {name : List Char} {bracket : String} (hline : line.AfterMarker afterMarker)
    (hname : ∀ c ∈ name, c.isAlpha) (hne : name ≠ []) (hraw : String.ofList name ∉ rawCommands)
    (hbracket : bracket ∈ ["\x7b", "["])
    (ih : Settled (line.push (.token (String.ofList ('\\' :: name)))) false
      (.token bracket :: pieces)
      (lex ((line.push (.token (String.ofList ('\\' :: name)))).emit (.token bracket :: pieces))))
    : Settled line afterMarker (.token (String.ofList ('\\' :: name)) :: .token bracket :: pieces)
      (lex (line.emit (.token (String.ofList ('\\' :: name)) :: .token bracket :: pieces))) := by
  have hemit := emit_bracket hbracket (line.endsWithCommand_push hname hne) pieces
  have hnext : ∀ cs, NotStartsWith Char.isAlpha (bracket.toList ++ cs) ∧
      bareArgument? (bracket.toList ++ cs) = none := by
    intro cs
    simp only [List.mem_cons, List.not_mem_nil, or_false] at hbracket
    rcases hbracket with rfl | rfl
    all_goals exact ⟨notStartsWith_cons.mpr rfl, rfl⟩
  have halone : lex ('\\' :: name) = [(.command, String.ofList ('\\' :: name))] := by
    have := lex_command hname hne notStartsWith_nil hraw (.inr rfl)
    rwa [List.append_nil, lex_nil] at this
  refine .of_solid hline ?_ ?_ ?_ ?_ ?_ ih
  all_goals rw [String.toList_ofList]
  . exact List.cons_ne_nil _ _
  . exact notStartsWith_cons.mpr (by decide)
  . rw [halone]
    exact List.cons_ne_nil _ _
  . rw [halone, List.forall_mem_singleton]
    exact isSolid_of_kind (by simp)
  . rw [hemit, lex_command hname hne (hnext _).1 hraw (.inr (hnext _).2), halone]
    rfl

theorem Settled.glued {spec : List Char} {lexemes : List Lexeme}
    (h : Settled (line.push (.glued (String.ofList ('{' :: spec ++ ['}'])))) false pieces lexemes)
    : Settled line false (.glued (String.ofList ('{' :: spec ++ ['}'])) :: pieces)
      (bracedTokens spec ++ lexemes) := by
  have hlexemes : (Piece.glued (String.ofList ('{' :: spec ++ ['}']))).lexemes =
      bracedTokens spec := by
    simp [Piece.lexemes]
  have hsolid := isSolid_bracedTokens spec
  refine ⟨?_, fun _ => unstripped_append (by simp [bracedTokens]) hsolid (h.unstripped nofun),
    fun _ => noMarkerNext_append (by simp [bracedTokens]) hsolid⟩
  rw [Line.lexemes, Line.gap, hlexemes, h.lexemes_eq]
  rfl

theorem settled_array {spec : List Char} (hline : line.AfterMarker afterMarker) (h : '}' ∉ spec)
    (ih : ∀ line : Line, Settled line false pieces (lex (line.emit pieces)))
    : Settled line afterMarker
      (.token "\\begin\x7barray\x7d" :: .glued (String.ofList ('{' :: spec ++ ['}'])) :: pieces)
      (lex (line.emit (.token "\\begin\x7barray\x7d" ::
        .glued (String.ofList ('{' :: spec ++ ['}'])) :: pieces))) := by
  have halone : lex "\\begin\x7barray\x7d".toList =
      (.command, "\\begin") :: bracedTokens "array".toList :=
    @lex_raw_alone "begin".toList "array".toList (by simp) (by decide)
  have hrest := ih ((line.push (.token "\\begin\x7barray\x7d")).push
    (.glued (String.ofList ('{' :: spec ++ ['}']))))
  refine .of_solid hline ?_ ?_ ?_ ?_ ?_ hrest.glued
  . simp
  . decide
  . rw [halone]
    exact List.cons_ne_nil _ _
  . rw [halone, List.forall_mem_cons]
    exact ⟨isSolid_of_kind (by simp), isSolid_bracedTokens _⟩
  . have hlex := lex_array h (Line.emit ((line.push (.token "\\begin\x7barray\x7d")).push
      (.glued (String.ofList ('{' :: spec ++ ['}'])))) pieces)
    rw [List.append_assoc, List.cons_append] at hlex
    rw [halone, Line.emit, Line.added]
    simpa using hlex

end Emit

theorem settled_emit {pieces : List Piece} (h : Fits pieces) (line : Line) {afterMarker : Bool}
    (hline : line.AfterMarker afterMarker)
    : Settled line afterMarker pieces (lex (line.emit pieces)) := by
  induction h generalizing line afterMarker with
  | nil =>
    rw [Line.emit, lex_nil]
    exact ⟨rfl, fun _ => unstripped_nil, fun _ => nofun⟩
  | word h hpieces ih => exact settled_word hline h hpieces (ih _ (.false _))
  | newline hnext hpieces ih =>
    have halone : lex "\n".toList = [(.newline, "\n")] := by
      rw [← lex_nil]
      exact lex_newline []
    rw [emit_newline, lex_newline]
    exact .of_blank halone rfl (by decide) (by decide) hnext (ih _ (.false _))
  | @space text pieces hne h hnext hblank hpieces ih =>
    have halone : lex text.toList = [(.space, String.ofList text.toList)] := by
      have := lex_blanks hne h notStartsWith_nil
      rwa [List.append_nil, lex_nil] at this
    have hblanks : ∀ c ∈ text.toList, isBlank c := fun c hc =>
      (by decide : ∀ c ∈ [' ', '\t'], isBlank c) c (h c hc)
    rw [emit_space hne hblanks, lex_blanks hne h
      (Line.emit_unspaced (unspaced_after_space hne hblanks) hpieces hblank)]
    exact .of_blank halone rfl hne hblanks hnext (ih _ (.false _))
  | number h hnext hpieces ih => exact settled_number hline h hnext hpieces (ih _ (.false _))
  | @marker marker pieces h hblank hdigit hpieces ih =>
    rw [emit_marker h, lex_marker h
      (Line.emit_unspaced (unspaced_after_marker h) hpieces hblank)
      (Line.emit_unspaced (unspaced_after_marker h) hpieces hdigit)]
    have hsettled := ih (line.push (.token (String.ofList [marker])))
      fun (_ : true) => unspaced_after_marker h
    exact .of_marker h (hsettled.unstripped fun _ => hblank) hsettled.lexemes_eq
  | @scriptDigit marker digit pieces h hdigit hpieces ih =>
    have halone : lex [digit] = [(.element, String.ofList [digit])] := by
      have := lex_number (isNumber_digit hdigit) ⟨notStartsWith_nil, nofun⟩
      rwa [List.append_nil, lex_nil] at this
    rw [emit_scriptDigit line h digit pieces,
      lex_marker_digit h hdigit (Line.emit_endsNumber hpieces)]
    have hsettled := ih ((line.push (.token (String.ofList [marker]))).push
      (.token (String.ofList [digit]))) (.false _)
    refine .of_marker h (unstripped_cons rfl (hsettled.unstripped nofun)) ?_
    rw [Line.lexemes, Line.gap, unspaced_after_marker h, Piece.lexemes, String.toList_ofList, halone,
      hsettled.lexemes_eq]
    rfl
  | func hname hne hraw hbracket hpieces ih =>
    exact settled_func hline hname hne hraw hbracket (ih _ (.false _))
  | array h hpieces ih => exact settled_array hline h fun _ => ih _ (.false _)

end Tex
end MathMarkup
