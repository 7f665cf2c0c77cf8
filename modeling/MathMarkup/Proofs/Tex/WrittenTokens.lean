import MathMarkup.Proofs.Scan.Places
import MathMarkup.Proofs.Tex.RoundTrip

/-!
This module contains the tokens of written TeX. Formulas of one token each are cut into just these
tokens, wherever the writer sets a space or leaves it out, and escaped text is cut off whole, with
its escapes resolved.
-/

namespace MathMarkup

open Text Scan

/--
A match of the whole text gives all tokens, and each of them has the whole text as its place.
-/
theorem Scan.scan_of_best {κ : Type} {rules : List (Rule κ)} {unknown : κ} {text : String}
    {tokens : List (κ × String)} (hne : text.toList ≠ [])
    (h : best rules text.toList = some (.whole text.toList.length tokens))
    : scan rules unknown text =
      tokens.map fun (kind, s) => ⟨kind, s, .ofOffsets 0 text.utf8ByteSize⟩ := by
  rw [scan, ← byteSize_toList]
  cases hcs : text.toList with
  | nil => contradiction
  | cons c cs =>
    have hstep : step rules unknown c cs = ((c :: cs).length, tokens) := by
      rw [hcs] at h
      simp [step, h, Match.whole, Match.consumed]
    rw [scan.go]
    simp only [hstep, List.take_length, List.drop_length, Nat.zero_add]
    rw [scan.go, List.append_nil]

namespace Tex

/--
A formula of one token: a letter, a mark, an escaped character, a character beyond ASCII or a
command without arguments.
-/
inductive IsSingle : Formula → Prop where
  | char {c : Char} (h : c.isAlpha ∨ c ∈ marks ∨ (128 ≤ c.toNat ∧ isBlank c = false)) :
    IsSingle (.element (String.ofList [c]))
  | escaped {c : Char} (h : c ∈ escapes) : IsSingle (.element (String.ofList ['\\', c]))
  | symbol {name : String} (h : (Symbol.toTypst? name).isSome)
    (harity : Symbol.arity? name = none) : IsSingle (.symbol name)

/--
A token that stands for a formula on its own.
-/
inductive Lexeme.StandsFor : Lexeme → Formula → Prop where
  | element (text : String) : StandsFor (.element, text) (.element text)
  | command (name : String) : StandsFor (.command, "\\" ++ name) (.symbol name)

theorem Lexeme.StandsFor.isSpace {lexeme : Lexeme} {node : Formula} (h : lexeme.StandsFor node)
    : lexeme.isSpace = false := by
  cases h
  all_goals rfl

theorem singleKind?_eq {c : Char} (h : c.isAlpha ∨ c ∈ marks ∨ (128 ≤ c.toNat ∧ isBlank c = false))
    : singleKind? c = some .element := by
  have hcontrol : ¬ ['{', '}', '&', '~'].contains c := by
    intro hmem
    have hspec : ∀ c ∈ ['{', '}', '&', '~'], ¬ (c.isAlpha ∨ c ∈ marks ∨ 128 ≤ c.toNat) := by decide
    apply hspec c (List.contains_iff_mem.mp hmem)
    exact h.imp_right (Or.imp_right And.left)
  rw [singleKind?, if_neg hcontrol, if_pos]
  simpa [or_assoc] using h

namespace Formula

theorem exists_word {node : Formula} (h : IsSingle node)
    : ∃ text lexeme, node.pieces = [.token text] ∧ IsWord text.toList ∧ Ends [.token text] ∧
        lex text.toList = [lexeme] ∧ lexeme.StandsFor node := by
  cases h with
  | @char c h =>
    have hkind := singleKind?_eq h
    refine ⟨_, _, by rw [pieces], ?_, ends_token ?_, lex_char String.toList_ofList hkind,
      .element _⟩
    . rw [String.toList_ofList]
      exact .single hkind
    . simpa using isBlank_of_singleKind? hkind
  | @escaped c h =>
    refine ⟨_, _, by rw [pieces], ?_, ends_token ?_, lex_escapedText String.toList_ofList h,
      .element _⟩
    . rw [String.toList_ofList]
      exact .escaped h
    . have hblank : ∀ c ∈ escapes, ∀ d ∈ ['\\', c], Text.isBlank d = false := by decide
      simpa using hblank c h
  | @symbol name h harity =>
    have hname := Symbol.commandName_of_toTypst? h
    have hlex : lex ('\\' :: name.toList ++ []) =
        [(.command, String.ofList ('\\' :: name.toList))] := by
      rw [← lex_nil]
      apply lex_command hname.isAlpha hname.ne_nil notStartsWith_nil (not_raw_of_commandName hname)
      rw [String.ofList_toList]
      exact .inl harity
    have htext : '\\' :: name.toList = ("\\" ++ name).toList := by simp
    rw [List.append_nil, htext, String.ofList_toList] at hlex
    exact ⟨_, _, by rw [pieces], isWord_command hname harity, ends_command hname, hlex, .command _⟩

variable {nodes : List Formula}

theorem fits_singles (h : ∀ node ∈ nodes, IsSingle node)
    : Fits (nodes.flatMap pieces) ∧ Ends (nodes.flatMap pieces) := by
  induction nodes with
  | nil => exact ⟨.nil, ends_nil⟩
  | cons node nodes ih =>
    rw [List.forall_mem_cons] at h
    obtain ⟨text, _, hpieces, hword, hends, _⟩ := exists_word h.1
    rw [List.flatMap_cons, hpieces]
    exact ⟨.word hword (ih h.2).1, hends.append (ih h.2).2⟩

theorem standsFor_lexemes (h : ∀ node ∈ nodes, IsSingle node) (line : Line)
    : List.Forall₂ Lexeme.StandsFor
        ((line.lexemes (nodes.flatMap pieces)).filter (!Lexeme.isSpace ·))
        nodes := by
  induction nodes generalizing line with
  | nil => exact .nil
  | cons node nodes ih =>
    rw [List.forall_mem_cons] at h
    obtain ⟨text, lexeme, hpieces, _, _, hlex, hstands⟩ := exists_word h.1
    have hgap : (line.gap (.token text)).filter (!Lexeme.isSpace ·) = [] := by
      rw [Line.gap]
      split
      all_goals rfl
    rw [List.flatMap_cons, hpieces, List.singleton_append, Line.lexemes, Piece.lexemes, hlex,
      List.filter_append, hgap, List.nil_append, List.singleton_append, List.filter_cons,
      hstands.isSpace]
    exact .cons hstands (ih h.2 _)

end Formula

/--
Apart from spaces, formulas of one token each are written as just these tokens in their order.
-/
theorem standsFor_tokenize_write {nodes : List Formula} (h : ∀ node ∈ nodes, IsSingle node)
    : List.Forall₂ Lexeme.StandsFor
        (((tokenize (write (.group nodes))).filter (!·.isSpace)).map Token.lexeme) nodes := by
  have hpieces : (Formula.group nodes).pieces = nodes.flatMap Formula.pieces := by
    rw [Formula.pieces, Formula.eachPieces_eq, List.flatMap_def]
  have hfits := Formula.fits_singles h
  rw [← hpieces] at hfits
  have hfilter : ((tokenize (write (.group nodes))).filter (!·.isSpace)).map Token.lexeme =
      ((tokenize (write (.group nodes))).map Token.lexeme).filter (!Lexeme.isSpace ·) := by
    rw [List.filter_map]
    rfl
  rw [hfilter, (Formula.lexemes_of_fits hfits.1 hfits.2).1, hpieces]
  exact Formula.standsFor_lexemes h {}

theorem standsFor_tokenize_write_signs
    : let nodes : List Formula :=
        [.element "(", .element "-", .symbol "alpha", .element "x", .element "\\_", .element "é"]
      (∀ node ∈ nodes, IsSingle node) ∧ List.Forall₂ Lexeme.StandsFor
        (((tokenize (write (.group nodes))).filter (!·.isSpace)).map Token.lexeme) nodes := by
  intro nodes
  have hnodes : ∀ node ∈ nodes, IsSingle node := by
    simp only [nodes, List.forall_mem_cons]
    refine ⟨@IsSingle.char '(' (by decide), @IsSingle.char '-' (by decide), ?_,
      @IsSingle.char 'x' (by decide), @IsSingle.escaped '_' (by decide),
      @IsSingle.char 'é' (by decide), List.forall_mem_nil _⟩
    exact .symbol (by decide +kernel) (by decide +kernel)
  exact ⟨hnodes, standsFor_tokenize_write hnodes⟩

section RawText

variable {name : String}

theorem best_rawText (h : name ∈ ["text", "operatorname", "hspace"]) (text : List Char)
    : best rules ('\\' :: name.toList ++ '{' :: escape text ++ ['}']) =
      some (.whole (name.toList.length + (escape text).length + 3)
        ((.command, "\\" ++ name) :: bracedTokens text)) := by
  have hspec : ∀ name ∈ ["text", "operatorname", "hspace"], (∀ c ∈ name.toList, c.isAlpha) ∧
      String.ofList name.toList ∈ rawCommands ∧ name.toList ≠ "begin".toList := by decide
  obtain ⟨hname, hcommand, hbegin⟩ := hspec name h
  have harray : arrayStart ('\\' :: name.toList ++ '{' :: escape text ++ ['}']) = none := by
    rw [List.append_assoc, List.cons_append]
    exact arrayStart_append hname (notStartsWith_cons.mpr rfl) hbegin
  have hbest := best_escapedArgument [] hname hcommand (rawText?_escape text [])
  have htext : String.ofList ('\\' :: name.toList) = "\\" ++ name := by
    rw [← String.toList_inj]
    simp
  rw [unescape_escape, htext] at hbest
  exact (best_of_none harray).trans hbest

/--
Escaped text in braces is cut off whole behind its command, and the escapes are resolved.
-/
theorem tokenize_rawText (h : name ∈ ["text", "operatorname", "hspace"]) (text : String)
    : let input := "\\" ++ name ++ "\x7b" ++ Formula.escaped text ++ "\x7d"
      let whole := Span.ofOffsets 0 input.utf8ByteSize
      tokenize input = [⟨.command, "\\" ++ name, whole⟩, ⟨.control, "\x7b", whole⟩,
        ⟨.text, text, whole⟩, ⟨.control, "\x7d", whole⟩] := by
  intro input whole
  have hinput : input.toList = '\\' :: name.toList ++ '{' :: escape text.toList ++ ['}'] := by
    simp [input, Formula.escaped]
  have hbest := best_rawText h text.toList
  have hsize : name.toList.length + (escape text.toList).length + 3 = input.toList.length := by
    rw [hinput]
    simp
    omega
  rw [← hinput, hsize] at hbest
  rw [tokenize, scan_of_best (by simp [hinput]) hbest]
  simp [bracedTokens, whole]

/--
The text is a backslash, an opening brace and a line end.
-/
theorem tokenize_rawText_backslash
    : "text" ∈ ["text", "operatorname", "hspace"] ∧
      tokenize "\\text\x7b\\textbackslash\x7b\x7d\\\x7b\n\x7d" =
        [⟨.command, "\\text", .ofOffsets 0 26⟩, ⟨.control, "\x7b", .ofOffsets 0 26⟩,
          ⟨.text, "\\\x7b\n", .ofOffsets 0 26⟩, ⟨.control, "\x7d", .ofOffsets 0 26⟩] := by
  have htokens := @tokenize_rawText "text" (by decide) "\\\x7b\n"
  have hinput : "\\" ++ "text" ++ "\x7b" ++ Formula.escaped "\\\x7b\n" ++ "\x7d" =
      "\\text\x7b\\textbackslash\x7b\x7d\\\x7b\n\x7d" := by
    decide +kernel
  simp only [hinput] at htokens
  exact ⟨by decide, htokens⟩

end RawText

end Tex
end MathMarkup
