import MathMarkup.Proofs.Typst.Reading
import MathMarkup.Proofs.Typst.Regular

/-!
This module contains the tokens that pieces are cut into once they are written, and how they are
found again piece by piece.
-/

namespace MathMarkup
namespace Typst

open Text Scan Formula

/--
Tokens that pieces are cut into, with spaces in between. `afterName` says whether the token before
them is a name.
-/
def Spells (afterName : Bool) (spelled : List Piece) (tokens : List Token) : Prop :=
  Spaced afterName spelled (tokens.map Token.lexeme)

/--
Whether the last token of pieces is a name. Without tokens, it is the one before them.
-/
def lastName (afterName : Bool) (spelled : List Piece) : Bool :=
  match (tokenTexts spelled).getLast? with
  | none => afterName
  | some last => endsWithName (lex last.toList)

section Spells

variable {afterName : Bool} {spelled more : List Piece} {tokens gap : List Token} {text : String}
  {lexeme : Lexeme}

theorem lastName_token : lastName afterName (.token text :: spelled) =
    lastName (endsWithName (lex text.toList)) spelled := by
  have htexts : tokenTexts (.token text :: spelled) = text :: tokenTexts spelled := rfl
  rw [lastName, lastName, htexts, List.getLast?_cons]
  cases (tokenTexts spelled).getLast?
  all_goals rfl

theorem isGap_nil : IsGap [] := nofun

theorem isGap_space {token : Token} (h : token.lexeme = (.space, " ")) : IsGap [token] := by
  have hkind : token.kind = .space := congrArg Prod.fst h
  simp [IsGap, Token.isSpace, hkind]

theorem Spells.eq_nil (h : Spells afterName [] tokens) : tokens = [] := by
  rw [Spells] at h
  generalize hlexemes : tokens.map Token.lexeme = lexemes at h
  cases h
  exact List.map_eq_nil_iff.mp hlexemes

theorem Spells.soft_inv (h : Spells afterName (.softSpace :: more) tokens)
    : Spells afterName more tokens := by
  rw [Spells] at h
  generalize hlexemes : tokens.map Token.lexeme = lexemes at h
  cases h with
  | soft h =>
    rw [Spells, hlexemes]
    exact h

theorem Spells.eq_nil_of_soft (h : Spells afterName spelled tokens) (hsoft : tokenTexts spelled = [])
    : tokens = [] := by
  induction spelled with
  | nil => exact h.eq_nil
  | cons piece spelled ih =>
    cases piece with
    | softSpace => exact ih h.soft_inv hsoft
    | token text => contradiction

/--
The tokens of the first piece come first, after a space at most. No parenthesis joins a name.
-/
theorem Spells.token_inv (h : Spells afterName (.token text :: more) tokens)
    : ∃ gap own rest, tokens = gap ++ (own ++ rest) ∧ IsGap gap ∧
      own.map Token.lexeme = lex text.toList ∧
      Spells (endsWithName (lex text.toList)) more rest ∧ (text ∈ Line.tight → gap = []) ∧
      (gap = [] → afterName = true → text ≠ "(") := by
  rw [Spells] at h
  generalize hlexemes : tokens.map Token.lexeme = lexemes at h
  cases h with
  | joined hcall h =>
    obtain ⟨own, rest, rfl, hown, rfl⟩ := List.map_eq_append_iff.mp hlexemes
    exact ⟨[], own, rest, rfl, isGap_nil, hown, h, fun _ => rfl, fun _ => hcall⟩
  | spaced htight h =>
    obtain ⟨space, tokens, rfl, hspace, htokens⟩ := List.map_eq_cons_iff.mp hlexemes
    obtain ⟨own, rest, rfl, hown, rfl⟩ := List.map_eq_append_iff.mp htokens
    exact ⟨[space], own, rest, rfl, isGap_space hspace, hown, h, fun hmem => absurd hmem htight, nofun⟩

theorem Spells.append_inv (h : Spells afterName (spelled ++ more) tokens)
    : ∃ own rest, tokens = own ++ rest ∧ Spells afterName spelled own ∧
      Spells (lastName afterName spelled) more rest := by
  induction spelled generalizing afterName tokens with
  | nil => exact ⟨[], tokens, rfl, .nil, h⟩
  | cons piece spelled ih =>
    rw [List.cons_append] at h
    cases piece with
    | softSpace =>
      obtain ⟨own, rest, rfl, hown, hrest⟩ := ih h.soft_inv
      exact ⟨own, rest, rfl, .soft hown, hrest⟩
    | token text =>
      rw [lastName_token]
      rw [Spells] at h
      generalize hlexemes : tokens.map Token.lexeme = lexemes at h
      cases h with
      | joined hcall h =>
        obtain ⟨own, tokens, rfl, hown, rfl⟩ := List.map_eq_append_iff.mp hlexemes
        obtain ⟨middle, rest, rfl, hmiddle, hrest⟩ := ih h
        refine ⟨own ++ middle, rest, by simp, ?_, hrest⟩
        rw [Spells, List.map_append, hown]
        exact .joined hcall hmiddle
      | spaced htight h =>
        obtain ⟨space, tokens, rfl, hspace, htokens⟩ := List.map_eq_cons_iff.mp hlexemes
        obtain ⟨own, tokens, rfl, hown, rfl⟩ := List.map_eq_append_iff.mp htokens
        obtain ⟨middle, rest, rfl, hmiddle, hrest⟩ := ih h
        refine ⟨space :: (own ++ middle), rest, by simp, ?_, hrest⟩
        rw [Spells, List.map_cons, List.map_append, hown, hspace]
        exact .spaced htight hmiddle

theorem Spells.single_inv (hlex : lex text.toList = [lexeme])
    (h : Spells afterName (.token text :: more) tokens)
    : ∃ gap token rest, tokens = gap ++ token :: rest ∧ IsGap gap ∧ token.lexeme = lexeme ∧
      Spells (endsWithName [lexeme]) more rest ∧ (text ∈ Line.tight → gap = []) := by
  obtain ⟨gap, own, rest, rfl, hgap, hown, hrest, htight, _⟩ := h.token_inv
  rw [hlex] at hown hrest
  obtain ⟨token, own, rfl, htoken, hown⟩ := List.map_eq_cons_iff.mp hown
  rw [List.map_eq_nil_iff.mp hown]
  exact ⟨gap, token, rest, rfl, hgap, htoken, hrest, htight⟩

theorem lex_single_mark {c : Char} (h : c ∈ pieceMarks)
    : lex [c] = [(.element, String.ofList [c])] := by
  rw [lex_pieceMark h follows_nil, lex_nil]

theorem Spells.tight_inv {c : Char} (hc : c ∈ [')', ',', ';', '\''])
    (h : Spells afterName (.token (String.ofList [c]) :: more) tokens)
    : ∃ token rest, tokens = token :: rest ∧ token.lexeme = (.element, String.ofList [c]) ∧
      Spells false more rest := by
  have hmark : c ∈ pieceMarks :=
    (by decide : ∀ c ∈ [')', ',', ';', '\''], c ∈ pieceMarks) c hc
  have htight : String.ofList [c] ∈ Line.tight :=
    (by decide : ∀ c ∈ [')', ',', ';', '\''], String.ofList [c] ∈ Line.tight) c hc
  have hlex : lex (String.ofList [c]).toList = [(.element, String.ofList [c])] := by
    rw [String.toList_ofList, lex_single_mark hmark]
  obtain ⟨gap, token, rest, rfl, _, htoken, hrest, hnone⟩ := h.single_inv hlex
  rw [hnone htight]
  exact ⟨token, rest, rfl, htoken, hrest⟩

theorem Spells.parenthesized_inv (h : Spells afterName (parenthesized spelled) tokens)
    : ∃ gap opener inner closer, tokens = gap ++ opener :: (inner ++ [closer]) ∧ IsGap gap ∧
      opener.isOpen ∧ closer.isClose ∧ Spells false spelled inner := by
  have hopen : lex "(".toList = [(.element, "(")] := lex_single_mark (by decide : '(' ∈ pieceMarks)
  obtain ⟨gap, opener, rest, rfl, hgap, hopener, hrest, _⟩ := h.single_inv hopen
  obtain ⟨inner, last, rfl, hinner, hlast⟩ := hrest.append_inv
  obtain ⟨closer, none, rfl, hcloser, hnone⟩ := @Spells.tight_inv _ _ _ ')' (by decide) hlast
  rw [hnone.eq_nil]
  exact ⟨gap, opener, inner, closer, rfl, hgap, is_iff.mpr hopener, is_iff.mpr hcloser, hinner⟩

end Spells

/--
A token that is no parenthesis, no mark and no separator.
-/
inductive Simple (words : Vocabulary) : Lexeme → Prop where
  | element {text : String} (h : text.toList.head?.any isAtomStart) : Simple words (.element, text)
  | symbol {name : String} (h : words.mem name ∨ name ∈ reservedCalls) : Simple words (.symbol, name)

section Ends

variable {words : Vocabulary} {style : Style} {number : Bool} {text : String}

theorem simple_letter {c : Char} (h : c.isAlpha)
    : lex (String.ofList [c]).toList = [(.element, String.ofList [c])] ∧
      Simple words (.element, String.ofList [c]) := by
  rw [String.toList_ofList, lex_letter h endsName_nil, lex_nil]
  refine ⟨rfl, .element ?_⟩
  simp [isAtomStart, Char.isAlphanum, h]

theorem simple_sign (h : text ∈ ["+", "="])
    : lex text.toList = [(.element, text)] ∧ Simple words (.element, text) := by
  simp only [List.mem_cons, List.not_mem_nil, or_false] at h
  rcases h with rfl | rfl
  . exact ⟨lex_single_mark (by decide : '+' ∈ pieceMarks), .element (by decide)⟩
  . exact ⟨lex_single_mark (by decide : '=' ∈ pieceMarks), .element (by decide)⟩

theorem simple_number (h : ∀ c ∈ text.toList, c.isDigit) (hne : text.toList ≠ [])
    : lex text.toList = [(.element, text)] ∧ Simple words (.element, text) := by
  have hlex := lex_number h hne (endsNumber_of_notStartsWith notStartsWith_nil)
  rw [List.append_nil, lex_nil, String.ofList_toList] at hlex
  refine ⟨hlex, .element ?_⟩
  cases htext : text.toList with
  | nil => contradiction
  | cons c cs => simp [isAtomStart, Char.isAlphanum, h c (by simp [htext])]

theorem lex_name_alone {name : String} (h : Symbol.TypstName name)
    : lex name.toList = [(.symbol, name)] := by
  have hlex := lex_name h endsName_nil
  rwa [List.append_nil, lex_nil] at hlex

theorem lex_shorthand_alone {name spelling : String} (h : (name, spelling) ∈ Symbol.shorthands)
    : lex spelling.toList = [(.symbol, name)] := by
  have hlex := lex_shorthand h notStartsWith_nil
  rwa [List.append_nil, lex_nil] at hlex

theorem lex_call_alone {name : String} (h : Symbol.TypstName name)
    : lex (name ++ "(").toList = [(.symbol, name), (.element, "(")] := by
  have hlex := @lex_call [] _ h
  rw [lex_nil] at hlex
  rw [String.toList_append]
  exact hlex

theorem Formula.Opener.lex_eq (h : Opener words number text)
    : ∃ lexeme more, lex text.toList = lexeme :: more ∧
      (Simple words lexeme ∨ (lexeme = (.element, "(") ∧ text = "(")) := by
  cases h with
  | letter h => exact ⟨_, _, (@simple_letter words _ h).1, .inl (simple_letter h).2⟩
  | sign h => exact ⟨_, _, (@simple_sign words _ h).1, .inl (simple_sign h).2⟩
  | number h hne => exact ⟨_, _, (@simple_number words _ h hne).1, .inl (simple_number h hne).2⟩
  | name h => exact ⟨_, _, lex_name_alone (words.typstName _ h), .inl (.symbol (.inl h))⟩
  | shorthand h hspelling => exact ⟨_, _, lex_shorthand_alone hspelling, .inl (.symbol (.inl h))⟩
  | paren => exact ⟨_, _, lex_single_mark (by decide : '(' ∈ pieceMarks), .inr ⟨rfl, rfl⟩⟩
  | call h hname => exact ⟨_, _, lex_call_alone h, .inl (.symbol hname)⟩

theorem Formula.Closer.lex_eq (h : Closer words text)
    : ∃ lexeme, lex text.toList = [lexeme] ∧
      (Simple words lexeme ∨ lexeme ∈ [(.element, ")"), (.element, "'")]) := by
  cases h with
  | letter h => exact ⟨_, (@simple_letter words _ h).1, .inl (simple_letter h).2⟩
  | sign h => exact ⟨_, (@simple_sign words _ h).1, .inl (simple_sign h).2⟩
  | number h hne => exact ⟨_, (@simple_number words _ h hne).1, .inl (simple_number h hne).2⟩
  | name h => exact ⟨_, lex_name_alone (words.typstName _ h), .inl (.symbol (.inl h))⟩
  | shorthand h hspelling => exact ⟨_, lex_shorthand_alone hspelling, .inl (.symbol (.inl h))⟩
  | paren => exact ⟨_, lex_single_mark (by decide : ')' ∈ pieceMarks), .inr (by decide)⟩
  | prime => exact ⟨_, lex_single_mark (by decide : '\'' ∈ pieceMarks), .inr (by decide)⟩

theorem lastName_append (afterName : Bool) (spelled more : List Piece)
    : lastName afterName (spelled ++ more) = lastName (lastName afterName spelled) more := by
  rw [lastName, lastName, tokenTexts_append, List.getLast?_append]
  cases (tokenTexts more).getLast? with
  | none => rfl
  | some last => rfl

theorem lastName_paren (afterName : Bool) (spelled : List Piece)
    : lastName afterName (spelled ++ [.token ")"]) = false := by
  have hparen : lex ")".toList = [(.element, ")")] := lex_single_mark (by decide : ')' ∈ pieceMarks)
  rw [lastName_append, lastName_token, hparen]
  rfl

/--
Tokens that a formula begins with, after a space at most.
-/
structure Opening (words : Vocabulary) (afterName : Bool) (gap : List Token) (first : Token) :
    Prop where
  isGap : IsGap gap
  simple : Simple words first.lexeme ∨ first.isOpen
  unopened : gap = [] → afterName = true → first.isOpen = false

theorem Simple.isOpen {token : Token} (h : Simple words token.lexeme) : token.isOpen = false := by
  rw [Token.isOpen, is_eq_false_iff]
  generalize token.lexeme = lexeme at h
  cases h with
  | element h =>
    rintro ⟨⟩
    contradiction
  | symbol => simp

theorem Spells.opening {afterName : Bool} {spelled : List Piece} {tokens : List Token}
    (h : Spells afterName spelled tokens) (hhead : (tokenTexts spelled).head? = some text)
    (hopener : Opener words number text)
    : ∃ gap first rest, tokens = gap ++ first :: rest ∧ Opening words afterName gap first ∧
      Spells false spelled (first :: rest) := by
  induction spelled with
  | nil => contradiction
  | cons piece spelled ih =>
    cases piece with
    | softSpace =>
      obtain ⟨gap, first, rest, htokens, hopening, hspells⟩ := ih h.soft_inv hhead
      exact ⟨gap, first, rest, htokens, hopening, .soft hspells⟩
    | token text' =>
      cases hhead
      obtain ⟨lexeme, more, hlex, hfirst⟩ := hopener.lex_eq
      obtain ⟨gap, own, rest, rfl, hgap, hown, hrest, _, hcall⟩ := h.token_inv
      have hspells : Spells false (.token text :: spelled) (own ++ rest) := by
        rw [Spells, List.map_append, hown]
        exact .joined nofun hrest
      rw [hlex] at hown
      obtain ⟨first, own, rfl, rfl, hnil⟩ := List.map_eq_cons_iff.mp hown
      refine ⟨gap, first, own ++ rest, rfl, ⟨hgap, ?_, ?_⟩, hspells⟩
      . exact hfirst.imp_right fun hparen => is_iff.mpr hparen.1
      . intro hnone hname
        rcases hfirst with hsimple | ⟨_, rfl⟩
        . exact hsimple.isOpen
        . exact absurd rfl (hcall hnone hname)

theorem Spells.closing {afterName : Bool} {spelled : List Piece} {tokens : List Token}
    (h : Spells afterName spelled tokens) (hlast : (tokenTexts spelled).getLast? = some text)
    (hcloser : Closer words text)
    : ∃ front last, tokens = front ++ [last] ∧
      (Simple words last.lexeme ∨ last.lexeme ∈ [(.element, ")"), (.element, "'")]) := by
  obtain ⟨lexeme, hlex, hsimple⟩ := hcloser.lex_eq
  induction spelled generalizing afterName tokens with
  | nil => contradiction
  | cons piece spelled ih =>
    cases piece with
    | softSpace => exact ih h.soft_inv hlast
    | token text' =>
      obtain ⟨gap, own, rest, rfl, _, hown, hrest, _⟩ := h.token_inv
      have htexts : tokenTexts (.token text' :: spelled) = text' :: tokenTexts spelled := rfl
      rw [htexts, List.getLast?_cons] at hlast
      cases hmore : (tokenTexts spelled).getLast? with
      | some last =>
        rw [hmore] at hlast
        obtain ⟨front, last, rfl, hend⟩ := ih hrest (hmore.trans hlast)
        exact ⟨gap ++ (own ++ front), last, by simp, hend⟩
      | none =>
        rw [hmore, Option.getD_none, Option.some_inj] at hlast
        rw [hlast, hlex] at hown
        obtain ⟨last, own, rfl, rfl, hnil⟩ := List.map_eq_cons_iff.mp hown
        rw [List.map_eq_nil_iff.mp hnil, hrest.eq_nil_of_soft (List.getLast?_eq_none_iff.mp hmore)]
        exact ⟨gap, last, rfl, hsimple⟩

end Ends

end Typst
end MathMarkup
