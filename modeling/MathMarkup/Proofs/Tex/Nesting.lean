import MathMarkup.Proofs.Tex.Parsed

/-!
This module contains the proof that only properly nested input can be read. The tokens that the
parser uses nest, and the spaces that are taken out before have nothing to do with it.
-/

namespace MathMarkup
namespace Tex

section Strip

variable {opened : List OpenBracket} {tokens : List Token} {afterMarker : Bool}

theorem find?_strip (afterMarker : Bool) (tokens : List Token)
    : (stripScriptSpaces.go afterMarker tokens).find? (fun token => !token.isSpace) =
      tokens.find? fun token => !token.isSpace := by
  induction tokens generalizing afterMarker with
  | nil => rfl
  | cons token tokens ih =>
    unfold stripScriptSpaces.go
    split
    next hspace =>
      split
      . simp [ih, hspace]
      . simp [ih, hspace]
    next hspace => simp [hspace]

theorem exists_of_strip_eq_cons {first : Token} {rest : List Token}
    (h : stripScriptSpaces.go false tokens = first :: rest) (hspace : first.isSpace = false)
    (hmarker : first.isMarker = false)
    : ∃ further, tokens = first :: further ∧ rest = stripScriptSpaces.go false further := by
  cases tokens with
  | nil => contradiction
  | cons token tokens =>
    unfold stripScriptSpaces.go at h
    split at h
    next htoken =>
      split at h
      next hdropped =>
        -- A space is only dropped here if the next token that is none is a marker.
        rw [← find?_strip false tokens, h] at hdropped
        simp [hspace, hmarker] at hdropped
      next =>
        cases h
        simp [hspace] at htoken
    next =>
      obtain ⟨rfl, rfl⟩ := List.cons_eq_cons.mp h
      exact ⟨tokens, rfl, by rw [hmarker]⟩

theorem strip_cons {token : Token} (hspace : token.isSpace = false)
    : stripScriptSpaces.go afterMarker (token :: tokens) =
      token :: stripScriptSpaces.go token.isMarker tokens := by
  rw [stripScriptSpaces.go, hspace]
  rfl

theorem isSpace_of_lexeme {token : Token} {kind : Kind} {text : String}
    (h : token.lexeme = (kind, text)) (hkind : kind ∉ [.space, .newline])
    : token.isSpace = false := by
  have htoken : token.kind = kind := congrArg Prod.fst h
  simp_all [Token.isSpace]

theorem isMarker_of_lexeme {token : Token} {kind : Kind} {text : String}
    (h : token.lexeme = (kind, text)) (hmarker : kind = .control → Script.ofMarker? text = none)
    : token.isMarker = false := by
  have hkind : token.kind = kind := congrArg Prod.fst h
  have htext : token.text = text := congrArg Prod.snd h
  simp_all [Token.isMarker, Token.script?]

theorem bracedText?_strip (tokens : List Token)
    : bracedText? (stripScriptSpaces.go false tokens) = bracedText? tokens := by
  have hspace {token : Token} {text : String} (h : token.lexeme = (.control, text))
      : token.isSpace = false :=
    isSpace_of_lexeme h (by decide)
  have hopenerMarker {token : Token} (h : token.lexeme = (.control, "\x7b"))
      : token.isMarker = false :=
    isMarker_of_lexeme h fun _ => rfl
  have hcloserMarker {token : Token} (h : token.lexeme = (.control, "\x7d"))
      : token.isMarker = false :=
    isMarker_of_lexeme h fun _ => rfl
  have hraw {token : Token} (h : token.kind = .text)
      : token.isSpace = false ∧ token.isMarker = false := by
    simp [Token.isSpace, Token.isMarker, Token.script?, h]
  cases htext : bracedText? tokens with
  | some text =>
    obtain ⟨opener, raw, closer, rest, rfl, hopener, hkind, hcloser⟩ := exists_of_bracedText? htext
    rw [strip_cons (hspace hopener), hopenerMarker hopener, strip_cons (hraw hkind).1,
      (hraw hkind).2, strip_cons (hspace hcloser)]
    exact htext
  | none =>
    cases hstripped : bracedText? (stripScriptSpaces.go false tokens) with
    | none => rfl
    | some text =>
      obtain ⟨opener, raw, closer, rest, heq, hopener, hkind, hcloser⟩ :=
        exists_of_bracedText? hstripped
      obtain ⟨second, rfl, hsecond⟩ :=
        exists_of_strip_eq_cons heq (hspace hopener) (hopenerMarker hopener)
      obtain ⟨third, rfl, hthird⟩ :=
        exists_of_strip_eq_cons hsecond.symm (hraw hkind).1 (hraw hkind).2
      obtain ⟨last, rfl, -⟩ :=
        exists_of_strip_eq_cons hthird.symm (hspace hcloser) (hcloserMarker hcloser)
      rw [heq] at hstripped
      exact absurd (hstripped.symm.trans htext) (Option.some_ne_none text)

theorem Closes.of_strip (h : Closes opened (stripScriptSpaces.go afterMarker tokens))
    : Closes opened tokens := by
  induction tokens generalizing opened afterMarker with
  | nil => exact h
  | cons token tokens ih =>
    cases hspace : token.isSpace with
    | true =>
      have hplain := isPlain_of_isSpace hspace
      rw [stripScriptSpaces.go, if_pos hspace] at h
      refine (closes_plain hplain.1).mpr ⟨by simp [hplain.2], ?_⟩
      split at h
      . exact ih h
      . exact ih ((closes_plain hplain.1).mp h).2
    | false =>
      rw [strip_cons hspace] at h
      have hmarker {edge : Edge} (hedge : token.edge? = some edge) : token.isMarker = false := by
        cases hscript : token.script? with
        | none => simp [Token.isMarker, hscript]
        | some place => simp [(isPlain_of_script? hscript).1] at hedge
      match hedge : token.edge? with
      | some (.opening bracket) =>
        rw [hmarker hedge, closes_opening hedge, bracedText?_strip] at h
        exact (closes_opening hedge).mpr (ih h)
      | some (.closing bracket) =>
        rw [hmarker hedge, closes_closing hedge, bracedText?_strip] at h
        obtain ⟨last, outer, hopened, hbracket, hname, h⟩ := h
        exact (closes_closing hedge).mpr ⟨last, outer, hopened, hbracket, hname, ih h⟩
      | none =>
        rw [closes_plain hedge] at h
        exact (closes_plain hedge).mpr ⟨h.1, ih h.2⟩

end Strip

/--
Properly nested tokens.
-/
structure Nested (tokens : List Token) : Prop where
  /-- Braces, fences and environments are paired and do not cross. -/
  wellBracketed : WellBracketed (edges tokens)
  /-- The two ends of an environment are followed by the same name, apart from blanks around it. -/
  sameName : ∀ {before start inner stop after},
    Matching .environment tokens before start inner stop after →
    ∃ name, bracedText? inner = some name ∧ bracedText? after = some name
  /-- Every separator stands between the two ends of some environment. -/
  enclosed : ∀ {before separator after}, tokens = before ++ separator :: after →
    separator.isSeparator →
    ∃ outer start left right stop rest, before = outer ++ start :: left ∧
      after = right ++ stop :: rest ∧
      Matching .environment tokens outer start (left ++ separator :: right) stop rest

section Nested

variable {tokens : List Token}

theorem Closes.sameName (h : Closes [] tokens) {before inner after : List Token}
    {start stop : Token} (hmatching : Matching .environment tokens before start inner stop after)
    : ∃ name, bracedText? inner = some name ∧ bracedText? after = some name := by
  obtain ⟨rfl, hstart, hstop, hinner⟩ := hmatching
  obtain ⟨opened, hopened, -⟩ := h.of_append
  have hrest := ((closes_opening hstart).mp hopened).of_wellBracketed hinner
  obtain ⟨last, outer, heq, -, hname, -⟩ := (closes_closing hstop).mp hrest
  cases heq
  obtain ⟨hsome, hafter⟩ := hname rfl
  obtain ⟨name, hbegin⟩ := Option.isSome_iff_exists.mp hsome
  have hkind : stop.kind = .command := kind_of_closing_environment hstop
  exact ⟨name, bracedText?_of_append hkind hbegin, hafter.trans hbegin⟩

theorem Closes.enclosed (h : Closes [] tokens) {before after : List Token} {separator : Token}
    (htokens : tokens = before ++ separator :: after) (hseparator : separator.isSeparator)
    : ∃ outer start left right stop rest, before = outer ++ start :: left ∧
        after = right ++ stop :: rest ∧
        Matching .environment tokens outer start (left ++ separator :: right) stop rest := by
  subst htokens
  obtain ⟨opened, hopened, hopen⟩ := h.of_append
  have hedge := edge?_of_isSeparator hseparator
  obtain ⟨henv, hafter⟩ := (closes_plain hedge).mp hopened
  obtain ⟨last, hlast, hbracket⟩ := henv hseparator
  obtain ⟨inner, outer, rfl⟩ := List.append_of_mem hlast
  obtain ⟨front, start, left, rfl, hstart, hleft⟩ | ⟨further, hfurther, -⟩ :=
    hopen inner last outer rfl
  . obtain ⟨right, stop, rest, rfl, hstop, hright⟩ := hafter.exists_closer
    rw [hbracket] at hstart hstop
    refine ⟨front, start, left, right, stop, rest, rfl, rfl, by simp, hstart, hstop, ?_⟩
    rw [WellBracketed, edges_append, edges_cons_none hedge, leftOpen?_append, hleft]
    exact hright
  . simp at hfurther

theorem closes_parse (h : ∀ token ∈ tokens, token.IsBackslashed)
    : Yields (parse tokens) fun _ => Closes [] tokens := by
  have hstripped : ∀ token ∈ stripScriptSpaces tokens, token.IsBackslashed :=
    fun token htoken => h token ((stripScriptSpaces_go_sublist false tokens).mem htoken)
  refine (Parser.yields_sequence false _ hstripped).bind ?_
  rintro nodes ⟨-, hnests⟩
  apply yields_ok
  have hcloses : Closes [] (stripScriptSpaces tokens ++ []) :=
    hnests (fun _ htoken => htoken) [] [] nofun rfl
  rw [List.append_nil] at hcloses
  exact hcloses.of_strip

/--
Only properly nested tokens can be read.
-/
theorem nested_of_parse {formula : Formula}
    (hcommands : ∀ token ∈ tokens, token.kind = .command → token.text.toList.head? = some '\\')
    (h : parse tokens = .ok formula) : Nested tokens := by
  have hcloses : Closes [] tokens := closes_parse hcommands formula h
  exact ⟨hcloses.leftOpen?_eq, hcloses.sameName, hcloses.enclosed⟩

theorem nested_of_parse_matrix
    : ∃ formula, parse (tokenize "\\begin\x7bmatrix\x7d\x7ba&b\x7d\\end\x7bmatrix\x7d") =
        .ok formula ∧
      Nested (tokenize "\\begin\x7bmatrix\x7d\x7ba&b\x7d\\end\x7bmatrix\x7d") := by
  have hrun : (parse (tokenize
      "\\begin\x7bmatrix\x7d\x7ba&b\x7d\\end\x7bmatrix\x7d")).toOption.isSome := by
    decide +kernel
  obtain ⟨formula, hformula⟩ := Option.isSome_iff_exists.mp hrun
  have hparse := eq_ok_of_toOption hformula
  refine ⟨formula, hparse, nested_of_parse ?_ hparse⟩
  decide +kernel

example : ¬WellBracketed (edges (tokenize "\x7b\\left(\x7d\\right)")) := by
  decide +kernel

end Nested

end Tex
end MathMarkup
