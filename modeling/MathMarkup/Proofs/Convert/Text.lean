import MathMarkup.Proofs.Convert.RoundTrip

/-!
This module contains what becomes of text on the way from Typst to TeX and back. Both languages have
escapes of their own, and every text passes through both of them. Only the blanks at its ends are
lost, since raw text is trimmed when TeX is read.
-/

namespace MathMarkup

open Text

namespace Typst

theorem parseText_quote (text : String) : parseText (quote text) = .ok (.text text) := by
  have hlexemes : (tokenize (quote text)).map Token.lexeme = [(.text, text)] := by
    rw [tokenize_lexemes, lex_quote_alone]
  obtain ⟨token, rest, htokens, htoken, hrest⟩ := List.map_eq_cons_iff.mp hlexemes
  cases List.map_eq_nil_iff.mp hrest
  have hsequence : Parser.sequence [token] = .ok [.text text] :=
    (atomic_text htoken).readsAs.sequence_eq
  obtain ⟨kind, text, span⟩ := token
  cases htoken
  rw [parseText, htokens, parse]
  change (do
    let nodes ← Parser.sequence [⟨.text, text, span⟩]
    return Formula.ofList nodes) = _
  rw [hsequence]
  rfl

theorem toList_quote (text : String) : (quote text).toList = '"' :: quoteChars text.toList ++ ['"'] :=
  String.toList_ofList

theorem mem_quoteChars {c : Char} {cs : List Char} (h : c ∈ quoteChars cs) : c ∈ cs ∨ c = '\\' := by
  fun_induction quoteChars cs with
  | case1 => contradiction
  | case2 d cs hd ih => 
    simp only [List.mem_cons] at h ⊢
    tauto
  | case3 d cs hd ih =>
    simp only [List.mem_cons] at h ⊢
    tauto

theorem quote_injective {one other : String} (h : quote one = quote other) : one = other := by
  have hchars : quoteChars one.toList ++ ['"'] = quoteChars other.toList ++ ['"'] := by
    have hlists := congrArg String.toList h
    rw [toList_quote, toList_quote] at hlists
    exact (List.cons.inj hlists).2
  have hread := congrArg unquote? hchars
  rw [unquote?_quoteChars, unquote?_quoteChars, Option.some.injEq, Prod.mk.injEq,
    String.toList_inj] at hread
  exact hread.1

theorem write_text_eq (style : Style) (text : String)
    : write style (.text text) = String.ofList (cleanUp style (quote text).toList) := by
  have hpush : (Line.push {} (quote text)).reversed = (quote text).toList.reverse := by
    rw [Line.push, toList_quote]
    simp [Line.needsSpace, isBlank]
  simp only [write, Formula.pieces, Line.setPieces, hpush, List.reverse_reverse]

theorem write_text {style : Style} (hstyle : style.optimize = false) {text : String}
    (h : '\n' ∉ text.toList) : write style (.text text) = quote text := by
  have hnewline : '\n' ∉ (quote text).toList := by
    rw [toList_quote]
    simp only [List.cons_append, List.mem_cons, List.mem_append, List.not_mem_nil, or_false]
    rintro (hmem | hmem | hmem)
    . contradiction
    . exact (mem_quoteChars hmem).elim h (by decide)
    . contradiction
  have hlast : ∀ c, (quote text).toList.getLast? = some c → isBlank c = false := by
    intro c hc
    rw [toList_quote, List.getLast?_concat] at hc
    cases hc
    rfl
  rw [write_text_eq, cleanUp_of_not_optimize hstyle hnewline hlast, String.ofList_toList]

end Typst

namespace Tex

theorem Line.added_of_not_needsSpace {line : Line} {text : String}
    (h : line.needsSpace text = false) : line.added (.token text) = text.toList := by
  rw [Line.added, h]
  split
  next hempty => rw [String.isEmpty_iff.mp hempty, String.toList_empty]
  next => rfl

theorem write_rawCall (name text : String)
    : write (.call name [.text text])
        = "\\" ++ name ++ "\x7b" ++ Formula.escaped text ++ "\x7d" := by
  have hpieces : (Formula.call name [.text text]).pieces
      = [.token ("\\" ++ name), .token "\x7b", .token (Formula.escaped text), .token "\x7d"] := rfl
  have hopening (line : Line)
      : (line.push (.token "\x7b")).needsSpace (Formula.escaped text) = false := by
    obtain ⟨before, hline⟩ := @Line.push_last line '{' "\x7b" rfl
    exact Line.needsSpace_of_last hline (.inl rfl) _
  have hemit : ({} : Line).emit (Formula.call name [.text text]).pieces
      = ("\\" ++ name ++ "\x7b" ++ Formula.escaped text ++ "\x7d").toList := by
    rw [hpieces]
    simp only [Line.emit]
    rw [Line.added_of_not_needsSpace rfl,
      Line.added_of_not_needsSpace (Line.needsSpace_of_tight (by decide)),
      Line.added_of_not_needsSpace (hopening _),
      Line.added_of_not_needsSpace (Line.needsSpace_of_tight (by decide))]
    simp
  have hlast : ∀ c, ("\\" ++ name ++ "\x7b" ++ Formula.escaped text ++ "\x7d").toList.getLast? = some c →
      isBlank c = false := by
    intro c hc
    rw [String.toList_append] at hc
    have hlast : "\x7d".toList = ['}'] := rfl
    rw [hlast, List.getLast?_concat] at hc
    cases hc
    rfl
  rw [write_eq, hemit, trimEnd_of_last hlast, String.ofList_toList]

theorem stripScriptSpaces_of_not_space {tokens : List Token}
    (h : ∀ token ∈ tokens, token.isSpace = false) : stripScriptSpaces tokens = tokens := by
  have hgo (afterMarker : Bool) : stripScriptSpaces.go afterMarker tokens = tokens := by
    induction tokens generalizing afterMarker with
    | nil => rfl
    | cons token tokens ih =>
      rw [List.forall_mem_cons] at h
      rw [stripScriptSpaces.go, if_neg (by simp [h.1]), ih h.2]
  exact hgo false

theorem expandMacros_of_none {lookup : String → Option String} {tokens : List Token}
    (h : ∀ token ∈ tokens, token.kind = .command → lookup token.name = none)
    : expandMacros lookup tokens = tokens := by
  induction tokens with
  | nil => rfl
  | cons token tokens ih =>
    rw [List.forall_mem_cons] at h
    have hrest := ih h.2
    rw [expandMacros] at hrest ⊢
    rw [List.flatMap_cons, hrest]
    split
    next hkind => rw [h.1 hkind]; rfl
    next => rfl

theorem lex_rawCall {name : List Char} (hname : ∀ c ∈ name, c.isAlpha)
    (hcommand : String.ofList name ∈ rawCommands) (hbegin : name ≠ "begin".toList)
    (text : List Char)
    : lex ('\\' :: name ++ '{' :: escape text ++ ['}'])
        = (.command, String.ofList ('\\' :: name)) :: bracedTokens text := by
  have hbrace : NotStartsWith Char.isAlpha ('{' :: (escape text ++ ['}'])) := by
    rw [notStartsWith_cons]
    rfl
  have harray : arrayStart ('\\' :: name ++ '{' :: escape text ++ ['}']) = none := by
    rw [List.append_assoc, List.cons_append]
    exact arrayStart_append hname hbrace hbegin
  rw [lex_escapedArgument [] hname hcommand (rawText?_escape text []) harray, unescape_escape,
    lex_nil, List.append_nil]

theorem tokenName_of_text {token : Token} {name : String} (h : token.text = "\\" ++ name)
    : token.name = name := by
  simp [Token.name, h]

section RawCalls

variable {name : String} {raw : List Char} {tokens : List Token}
  (h : tokens.map Token.lexeme = (.command, "\\" ++ name) :: bracedTokens raw)

include h in
/--
Among these tokens there is no space, and the only command is the one that takes the text.
-/
theorem rawCall_tokens {token : Token} (htoken : token ∈ tokens)
    : token.isSpace = false ∧ (token.kind = .command → token.name = name) := by
  have hmem : token.lexeme ∈ tokens.map Token.lexeme := List.mem_map_of_mem htoken
  rw [h] at hmem
  simp only [bracedTokens, List.mem_cons, List.not_mem_nil, or_false, Token.lexeme,
    Prod.mk.injEq] at hmem
  rcases hmem with ⟨hkind, htext⟩ | ⟨hkind, htext⟩ | ⟨hkind, htext⟩ | ⟨hkind, htext⟩
  . exact ⟨by simp [Token.isSpace, hkind], fun _ => tokenName_of_text htext⟩
  all_goals exact ⟨by simp [Token.isSpace, hkind], fun hcommand => by simp [hkind] at hcommand⟩

include h in
theorem parse_rawCall (hcall : name ∈ rawCalls)
    : parse tokens = .ok (.call name [.text (trim (String.ofList raw))]) := by
  have hspaces : ∀ token ∈ tokens, token.isSpace = false :=
    fun token htoken => (rawCall_tokens h htoken).1
  obtain ⟨token, own, rfl, htoken, hown⟩ := List.map_eq_cons_iff.mp h
  have hname : Token.name token = name := tokenName_of_text (congrArg Prod.snd htoken)
  have hatomic := atomic_rawCall (congrArg Prod.fst htoken) (by rwa [hname]) hown
  rw [parse, stripScriptSpaces_of_not_space hspaces, hatomic.readsAs.sequence_eq, hname]
  rfl

end RawCalls

/--
A command with raw text is read back with its text trimmed, unless the user has defined the command.
-/
theorem parse_write_rawCall {options : Options} {name : String}
    (hname : ∀ c ∈ name.toList, c.isAlpha) (hcommand : name ∈ rawCommands) (hcall : name ∈ rawCalls)
    (hfree : options.customMacros.find? name = none) (text : String)
    : parse (options.tokenize (write (.call name [.text text])))
        = .ok (.call name [.text (trim text)]) := by
  have hbegin : name.toList ≠ "begin".toList := by
    intro heq
    rw [String.toList_inj.mp heq] at hcall
    exact absurd hcall (by decide)
  have htext : (write (.call name [.text text])).toList
      = '\\' :: name.toList ++ '{' :: escape text.toList ++ ['}'] := by
    simp [write_rawCall, Formula.escaped]
  have hcommandText : String.ofList ('\\' :: name.toList) = "\\" ++ name := by
    rw [← String.toList_inj]
    simp
  have hlexemes : (tokenize (write (.call name [.text text]))).map Token.lexeme
      = (.command, "\\" ++ name) :: bracedTokens text.toList := by
    rw [tokenize_lexemes, htext, lex_rawCall hname (by rwa [String.ofList_toList]) hbegin,
      hcommandText]
  have hexpand : options.tokenize (write (.call name [.text text]))
      = tokenize (write (.call name [.text text])) := by
    apply expandMacros_of_none
    intro token htoken hkind
    rw [(rawCall_tokens hlexemes htoken).2 hkind, hfree]
  rw [hexpand, parse_rawCall hlexemes hcall, String.ofList_toList]

end Tex

theorem mem_of_mem_trim {text : String} {c : Char} (h : c ∈ (trim text).toList)
    : c ∈ text.toList := by
  rw [trim, String.toList_ofList, trimEnd, List.mem_reverse] at h
  have hstart : c ∈ trimStart text.toList :=
    List.mem_reverse.mp ((List.dropWhile_sublist _).mem h)
  exact (List.dropWhile_sublist _).mem hstart

theorem typstToTex_quote (options : Options) (text : String)
    : typstToTex options (Typst.quote text) = .ok (Tex.write (.call "text" [.text text])) := by
  rw [typstToTex, Typst.parseText_quote]
  rfl

theorem texToTypst_text {options : Options} (hoptimize : options.optimize = false)
    (hwrapper : options.nonAsciiWrapper = "") (hfree : options.customMacros.find? "text" = none)
    {text : String} (h : '\n' ∉ text.toList)
    : texToTypst options (Tex.write (.call "text" [.text text])) = .ok (Typst.quote (trim text)) := by
  have hparse := Tex.parse_write_rawCall (by decide) (by decide) (by decide) hfree text
  have hconvert : Typst.Formula.ofTex options (.call "text" [.text (trim text)])
      = .ok (.text (trim text)) := by
    simp [Tex.Formula.call, Typst.Formula.ofTex, Typst.OfTex.Head.ofName, Typst.OfTex.text, hwrapper]
  have hwrite : Typst.write options.style (.text (trim text)) = Typst.quote (trim text) :=
    Typst.write_text hoptimize fun hmem => h (mem_of_mem_trim hmem)
  rw [texToTypst, hparse]
  simp only [Except.mapError, bind, Except.bind, hconvert, hwrite]
  rfl

/--
Text that is converted to TeX and back loses the blanks at its ends and nothing else.
-/
theorem texToTypst_typstToTex_quote {options : Options} (hoptimize : options.optimize = false)
    (hwrapper : options.nonAsciiWrapper = "") (hfree : options.customMacros.find? "text" = none)
    {text : String} (h : '\n' ∉ text.toList)
    : ∃ tex, typstToTex options (Typst.quote text) = .ok tex
        ∧ texToTypst options tex = .ok (Typst.quote (trim text))
        ∧ (texToTypst options tex = .ok (Typst.quote text) ↔ trim text = text) := by
  have hback := texToTypst_text hoptimize hwrapper hfree h
  refine ⟨_, typstToTex_quote options text, hback, ?_⟩
  rw [hback, Except.ok.injEq]
  exact ⟨fun heq => Typst.quote_injective heq, fun heq => by rw [heq]⟩

theorem texToTypst_typstToTex_quote_escapes
    : ∃ tex, typstToTex { optimize := false } (Typst.quote "50% \\b \"x_1\"") = .ok tex
        ∧ texToTypst { optimize := false } tex = .ok (Typst.quote "50% \\b \"x_1\"") := by
  have htrim : trim "50% \\b \"x_1\"" = "50% \\b \"x_1\"" := by decide +kernel
  obtain ⟨tex, hforth, hback, _⟩ := @texToTypst_typstToTex_quote { optimize := false } rfl rfl rfl
    "50% \\b \"x_1\"" (by decide)
  rw [htrim] at hback
  exact ⟨tex, hforth, hback⟩

/--
A blank at the front is written in TeX but not read.
-/
theorem blank_lost_in_text
    : typstToTex { optimize := false } "\" a\"" = .ok "\\text\x7b a\x7d"
        ∧ texToTypst { optimize := false } "\\text\x7b a\x7d" = .ok "\"a\"" := by
  have hquote : Typst.quote " a" = "\" a\"" := by decide +kernel
  have hwritten : Tex.write (.call "text" [.text " a"]) = "\\text\x7b a\x7d" := by
    rw [Tex.write_rawCall]
    decide +kernel
  have htrim : Typst.quote (trim " a") = "\"a\"" := by decide +kernel
  rw [← hquote, ← hwritten, ← htrim]
  exact ⟨typstToTex_quote _ _, texToTypst_text rfl rfl rfl (by decide)⟩

end MathMarkup
