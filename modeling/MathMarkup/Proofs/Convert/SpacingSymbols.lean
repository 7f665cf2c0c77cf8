import MathMarkup.Proofs.Convert.Text
import MathMarkup.Proofs.Typst.Ink
import MathMarkup.Proofs.Typst.Words

/-!
This module contains the round trip of letters and named spaces from Typst. Each space has a command
in TeX, and most of them come back. Only a backslash and a blank do not at the end of a formula,
where the blank is dropped and the backslash alone has no meaning.
-/

namespace MathMarkup

open Text

/--
The spaces with a name in Typst and a command in TeX.
-/
inductive NamedSpace where
  | thin
  | med
  | thick
  | word
  | tie
deriving DecidableEq

namespace NamedSpace

def name : NamedSpace → String
  | .thin => "thin"
  | .med => "med"
  | .thick => "thick"
  | .word => "space"
  | .tie => "space.nobreak"

def command : NamedSpace → String
  | .thin => "\\,"
  | .med => "\\:"
  | .thick => "\\;"
  | .word => "\\ "
  | .tie => "~"

end NamedSpace

/--
A letter or a named space.
-/
inductive Glyph where
  | letter (c : Char) (h : c.isAlpha)
  | gap (space : NamedSpace)

namespace Glyph

def word : Glyph → String
  | .letter c _ => String.ofList [c]
  | .gap space => space.name

def command : Glyph → String
  | .letter c _ => String.ofList [c]
  | .gap space => space.command

def typst : Glyph → Typst.Formula
  | .letter c _ => .atom (String.ofList [c])
  | .gap space => .symbol space.name

def tex : Glyph → Tex.Formula
  | .letter c _ => .element (String.ofList [c])
  | .gap space => .control space.command

def endsBlank : Glyph → Bool
  | .gap .word => true
  | _ => false

def lexeme : Glyph → Tex.Lexeme
  | .letter c _ => (.element, String.ofList [c])
  | .gap space => (.control, space.command)

theorem matches_tex (glyph : Glyph) : Tex.Formula.Matches {} glyph.tex glyph.typst := by
  cases glyph with
  | letter c h => exact matches_letter h
  | gap space =>
    cases space
    all_goals exact ⟨rfl, rfl, by simp [tex, Tex.Formula.isTall], by simp [typst], by simp [typst]⟩

end Glyph

section Typst

variable {glyphs : List Glyph}

theorem eachMatches_glyphs (glyphs : List Glyph)
    : Tex.Formula.EachMatches {} (glyphs.map Glyph.tex) (glyphs.map Glyph.typst) := by
  induction glyphs with
  | nil => exact .nil
  | cons glyph glyphs ih => exact .cons glyph.matches_tex ih

theorem names_spec : ∀ name ∈ ["thin", "med", "thick", "space", "space.nobreak"],
    Symbol.isTypstName name.toList ∧ name ∉ Typst.reservedCalls ∧
      (name == "infinity") = false ∧ Symbol.shorthand? name = none ∧
      isAlphabetic (name.toList.headD ' ') ∧ isAlphabetic (name.toList.getLastD ' ') := by
  decide +kernel

theorem NamedSpace.name_mem (space : NamedSpace)
    : space.name ∈ ["thin", "med", "thick", "space", "space.nobreak"] := by
  cases space <;> decide

theorem NamedSpace.typstName (space : NamedSpace) : Symbol.TypstName space.name :=
  ⟨space.name.toList, String.ofList_toList.symm, (names_spec _ space.name_mem).1⟩

namespace Glyph

variable (glyph : Glyph) (style : Typst.Style)

theorem regular (hstyle : style.inftyToOo = false)
    : Typst.Formula.Regular style Typst.anyNames glyph.typst := by
  cases glyph with
  | letter c h => exact .letter h
  | gap space =>
    exact .symbol ⟨space.typstName, (names_spec _ space.name_mem).2.1⟩ (by simp [hstyle])

theorem lettered : Typst.Lettered glyph.word := by
  cases glyph with
  | letter c h => exact Typst.lettered_letter ⟨c, isAlphabetic_of_isAlpha h⟩
  | gap space =>
    obtain ⟨_, _, _, _, hfirst, hlast⟩ := names_spec _ space.name_mem
    exact ⟨hfirst, hlast⟩

theorem isWord : Typst.IsWord glyph.word.toList := by
  cases glyph with
  | letter c h =>
    rw [word, String.toList_ofList]
    exact .letter h
  | gap space => exact .name space.typstName

theorem pieces_typst (cx : Typst.Context) : glyph.typst.pieces style cx = [.token glyph.word] := by
  cases glyph with
  | letter c h =>
    have htext := Typst.atomText_letter cx ⟨c, isAlphabetic_of_isAlpha h⟩
    rw [typst, Typst.Formula.pieces]
    exact congrArg (fun text => [Typst.Piece.token text]) htext
  | gap space =>
    obtain ⟨_, _, hinfinity, hshorthand, _⟩ := names_spec _ space.name_mem
    simp [typst, Typst.Formula.pieces, Typst.Formula.symbolText, hinfinity, hshorthand, word]

end Glyph

theorem toList_intercalate (word : String) (words : List String)
    : (" ".intercalate (word :: words)).toList =
      word.toList ++ words.flatMap fun word => ' ' :: word.toList := by
  induction words generalizing word with
  | nil => simp
  | cons next words ih =>
    rw [String.intercalate_cons_cons, String.toList_append, String.toList_append, ih,
      List.append_assoc]
    rfl

theorem eachPieces_glyphs (style : Typst.Style) (glyphs : List Glyph)
    : (Typst.Formula.eachPieces style {} (glyphs.map Glyph.typst)).flatten =
      (glyphs.map Glyph.word).map .token := by
  induction glyphs with
  | nil => rfl
  | cons glyph glyphs ih =>
    rw [List.map_cons, Typst.Formula.eachPieces, List.flatten_cons, ih, glyph.pieces_typst]
    rfl

theorem fits_glyphs (glyphs : List Glyph)
    : Typst.Fits ((glyphs.map Glyph.word).map .token) := by
  induction glyphs with
  | nil => exact .nil
  | cons glyph glyphs ih => exact .word glyph.isWord ih

theorem write_glyphs (style : Typst.Style) (hne : glyphs ≠ [])
    : Typst.write style (.ofList (glyphs.map Glyph.typst)) =
      " ".intercalate (glyphs.map Glyph.word) := by
  obtain ⟨glyph, rest, rfl⟩ := List.exists_cons_of_ne_nil hne
  have hgroup : Typst.write style (.ofList ((glyph :: rest).map Glyph.typst)) =
      Typst.write style (.group ((glyph :: rest).map Glyph.typst)) := by
    rw [Typst.write, Typst.write, Typst.Formula.pieces_ofList, Typst.Formula.pieces]
  have hlettered : ∀ text ∈ (glyph :: rest).map Glyph.word, Typst.Lettered text := by
    intro text htext
    obtain ⟨glyph, _, rfl⟩ := List.mem_map.mp htext
    exact glyph.lettered
  have hclean := (fits_glyphs (glyph :: rest)).cleanUp_emit style {}
  have hemit := Typst.emit_words_front hlettered
  rw [← List.map_cons] at hemit
  rw [hemit] at hclean
  rw [hgroup, Typst.write_words (eachPieces_glyphs style _) hlettered, hclean, List.map_cons,
    ← toList_intercalate, String.ofList_toList]

theorem regular_glyphs {style : Typst.Style} (hstyle : style.inftyToOo = false) (hne : glyphs ≠ [])
    : Typst.Formula.Regular style Typst.anyNames (.ofList (glyphs.map Glyph.typst)) := by
  have hflat : ∀ node ∈ glyphs.map Glyph.typst, node.closesWithNumber = false ∧
      (∀ more, node ≠ .group more) ∧ Typst.Formula.Regular style Typst.anyNames node := by
    intro node hnode
    obtain ⟨glyph, _, rfl⟩ := List.mem_map.mp hnode
    refine ⟨?_, ?_, glyph.regular style hstyle⟩
    . cases glyph with
      | letter c h =>
        simp [Glyph.typst, Typst.Formula.closesWithNumber, Typst.Formula.isNumber,
          isDigit_of_isAlpha h]
      | gap space => rfl
    . cases glyph <;> simp [Glyph.typst]
  cases glyphs with
  | nil => contradiction
  | cons first glyphs =>
    cases glyphs with
    | nil => exact first.regular style hstyle
    | cons second glyphs =>
      refine .group (Nat.le_add_left 2 _) (fun node hnode => (hflat node hnode).2.1) ?_
        fun node hnode => (hflat node hnode).2.2
      refine (List.pairwise_of_forall_mem_list fun node hnode _ _ hnumbers => ?_).isChain
      rw [(hflat node hnode).1] at hnumbers
      exact absurd hnumbers.1 Bool.false_ne_true

theorem typstToTex_glyphs (hne : glyphs ≠ [])
    : typstToTex {} (" ".intercalate (glyphs.map Glyph.word)) =
      .ok (Tex.write (.ofList (glyphs.map Glyph.tex))) := by
  obtain ⟨read, hread, himage⟩ := (@regular_glyphs glyphs ({} : Options).style rfl hne).exists_image
  rw [write_glyphs _ hne] at hread
  have hof : Tex.Formula.ofTypst {} read = .ok (.ofList (glyphs.map Glyph.tex)) := by
    have hsame : Tex.Formula.ofTypst {} read = Tex.Formula.ofTypst {} read.withoutSpaces :=
      (Tex.Formula.sameResult_withoutSpaces himage.tidy).1
    have hne : ∀ node ∈ glyphs.map Glyph.tex, node ≠ .empty := by
      intro node hnode
      obtain ⟨glyph, _, rfl⟩ := List.mem_map.mp hnode
      cases glyph <;> simp [Glyph.tex]
    rw [hsame, himage.withoutSpaces, Tex.Formula.ofTypst_ofList]
    refine (Tex.Formula.bind_of_ok (eachMatches_glyphs glyphs).back).trans ?_
    rw [Tex.Formula.filter_ne_empty hne]
    rfl
  rw [typstToTex, hread]
  change ((Tex.Formula.ofTypst {} read).mapError _ >>= _) = _
  rw [hof]
  rfl

end Typst

section Gaps

/--
The blank before a part of a TeX text. `joined` says whether what stands before does without it.
-/
def gapChars (joined : Bool) : List Char :=
  if joined then [] else [' ']

def gapLexemes (joined : Bool) : List Tex.Lexeme :=
  if joined then [] else [(.space, " ")]

def gapNodes (joined : Bool) : List Tex.Formula :=
  if joined then [] else [.space " "]

variable {joined : Bool}

theorem lex_gap (joined : Bool) {rest : List Char} (h : NotStartsWith isInlineBlank rest)
    : Tex.lex (gapChars joined ++ rest) = gapLexemes joined ++ Tex.lex rest := by
  cases joined with
  | true => rfl
  | false => exact Tex.lex_space h

theorem readsAs_gap {gap : List Tex.Token} (h : gap.map Token.lexeme = gapLexemes joined)
    : Tex.ReadsAs gap (gapNodes joined) := by
  cases joined with
  | true =>
    cases List.map_eq_nil_iff.mp h
    exact Tex.readsAs_nil
  | false =>
    obtain ⟨space, rfl, hspace⟩ := List.map_eq_singleton_iff.mp h
    have htext : space.text = " " := congrArg Prod.snd hspace
    have hreads := Tex.readsAs_gap (Tex.isGap_of_lexeme hspace Tex.isGap_nil)
    rw [List.map_singleton, htext] at hreads
    exact hreads

theorem eachOfTex_gap (joined : Bool)
    : ∃ blanks, Typst.Formula.eachOfTex {} (gapNodes joined) = .ok blanks ∧
      (blanks.filter fun image => !image.isEmpty) = [] := by
  cases joined with
  | true => exact ⟨[], rfl, rfl⟩
  | false => exact ⟨[.empty], rfl, rfl⟩

end Gaps

section Written

def texChars (joined : Bool) : List Glyph → List Char
  | [] => []
  | glyph :: glyphs =>
    gapChars joined ++ (glyph.command.toList ++ texChars glyph.endsBlank glyphs)

def texLexemes (joined : Bool) : List Glyph → List Tex.Lexeme
  | [] => []
  | glyph :: glyphs => gapLexemes joined ++ glyph.lexeme :: texLexemes glyph.endsBlank glyphs

def texNodes (joined : Bool) : List Glyph → List Tex.Formula
  | [] => []
  | glyph :: glyphs => gapNodes joined ++ glyph.tex :: texNodes glyph.endsBlank glyphs

theorem Glyph.exists_last (glyph : Glyph) (h : glyph.endsBlank = false)
    : ∃ last, glyph.command.toList.getLast? = some last ∧ isBlank last = false ∧
      last.isDigit = false ∧ last ∉ Tex.Line.openers := by
  cases glyph with
  | letter c hc =>
    refine ⟨c, by simp [command], isBlank_of_isAlpha hc, isDigit_of_isAlpha hc, fun hmem => ?_⟩
    exact Tex.Line.openers_not_alpha c hmem (.inl hc)
  | gap space =>
    cases space with
    | thin => exact ⟨',', by decide⟩
    | med => exact ⟨':', by decide⟩
    | thick => exact ⟨';', by decide⟩
    | word => contradiction
    | tie => exact ⟨'~', by decide⟩

theorem Glyph.exists_first (glyph : Glyph)
    : ∃ first rest, glyph.command.toList = first :: rest ∧ isBlank first = false ∧
      glyph.command ∉ "[" :: "|" :: Tex.Line.tight := by
  cases glyph with
  | letter c hc =>
    refine ⟨c, [], by simp [command], isBlank_of_isAlpha hc, fun hmem => ?_⟩
    have halphanum := Tex.Line.tight_not_alphanum _ hmem c (by simp [command])
    rw [Char.isAlphanum, hc] at halphanum
    contradiction
  | gap space =>
    cases space with
    | tie => exact ⟨'~', [], by decide⟩
    | _ => exact ⟨'\\', _, rfl, by decide⟩

theorem needsSpace_glyph (line : Tex.Line) (glyph next : Glyph)
    : (line.push (.token glyph.command)).needsSpace next.command = !glyph.endsBlank := by
  cases hblank : glyph.endsBlank with
  | true =>
    have hlast : glyph.command.toList.getLast? = some ' ' := by
      cases glyph with
      | letter => contradiction
      | gap space =>
        cases space with
        | word => decide
        | _ => contradiction
    obtain ⟨before, hline⟩ := @Tex.Line.push_last line ' ' _ hlast
    exact Tex.Line.needsSpace_of_last hline (.inr (by decide)) _
  | false =>
    obtain ⟨last, hlast, hlastBlank, hdigit, hopener⟩ := glyph.exists_last hblank
    obtain ⟨before, hline⟩ := @Tex.Line.push_last line last _ hlast
    obtain ⟨first, rest, hcommand, hfirst, hnext⟩ := next.exists_first
    simp only [List.mem_cons, not_or] at hnext
    rw [Tex.Line.needsSpace_of_not_opener hline hlastBlank hdigit hopener, hcommand]
    simp [hfirst, hnext]

theorem emit_glyphs (joined : Bool) (line : Tex.Line) (glyphs : List Glyph)
    (h : ∀ glyph : Glyph, line.needsSpace glyph.command = !joined)
    : line.emit (glyphs.map fun glyph => .token glyph.command) = texChars joined glyphs := by
  induction glyphs generalizing joined line with
  | nil => rfl
  | cons glyph glyphs ih =>
    have hne : glyph.command.toList ≠ [] := by
      obtain ⟨first, rest, hcommand, _⟩ := glyph.exists_first
      rw [hcommand]
      exact List.cons_ne_nil _ _
    rw [List.map_cons, Tex.Line.emit, Tex.Line.added_token hne, h,
      ih glyph.endsBlank _ (needsSpace_glyph line glyph), texChars]
    cases joined <;> rfl

theorem pieces_glyphs (glyphs : List Glyph)
    : (Tex.Formula.ofList (glyphs.map Glyph.tex)).pieces =
      glyphs.map fun glyph => .token glyph.command := by
  have hglyph : ∀ glyph : Glyph, glyph.tex.pieces = [.token glyph.command] := by
    intro glyph
    cases glyph <;> rw [Glyph.tex, Tex.Formula.pieces, Glyph.command]
  have heach : (Tex.Formula.eachPieces (glyphs.map Glyph.tex)).flatten =
      glyphs.map fun glyph => .token glyph.command := by
    induction glyphs with
    | nil => rfl
    | cons glyph glyphs ih =>
      rw [List.map_cons, Tex.Formula.eachPieces, List.flatten_cons, ih, hglyph]
      rfl
  cases glyphs with
  | nil => rw [List.map_nil, Tex.Formula.ofList, Tex.Formula.pieces, List.map_nil]
  | cons first glyphs =>
    cases glyphs with
    | nil => exact hglyph first
    | cons second glyphs => exact heach

theorem write_tex (glyphs : List Glyph)
    : Tex.write (.ofList (glyphs.map Glyph.tex)) =
      String.ofList (trimEnd (texChars true glyphs)) := by
  rw [Tex.write_eq, pieces_glyphs, emit_glyphs true {} glyphs fun _ => rfl]

theorem lex_glyph (glyph : Glyph) (rest : List Char)
    : Tex.lex (glyph.command.toList ++ rest) = glyph.lexeme :: Tex.lex rest := by
  cases glyph with
  | letter c h =>
    rw [Glyph.command, String.toList_ofList]
    exact Tex.lex_single (Tex.Formula.isWord_char (.inl h)) rest
  | gap space =>
    cases space with
    | tie => exact Tex.lex_single (by decide) rest
    | _ => exact Tex.lex_escapedControl (by decide) rest

theorem lex_texChars (joined : Bool) (glyphs : List Glyph) (rest : List Char)
    : Tex.lex (texChars joined glyphs ++ rest) = texLexemes joined glyphs ++ Tex.lex rest := by
  induction glyphs generalizing joined with
  | nil => rfl
  | cons glyph glyphs ih =>
    have hglyph := lex_glyph glyph (texChars glyph.endsBlank glyphs ++ rest)
    rw [ih] at hglyph
    obtain ⟨first, others, hcommand, hfirst, _⟩ := glyph.exists_first
    have hstart : NotStartsWith isInlineBlank
        (glyph.command.toList ++ (texChars glyph.endsBlank glyphs ++ rest)) := by
      rw [hcommand, List.cons_append, notStartsWith_cons, isInlineBlank, hfirst]
      rfl
    rw [texChars, texLexemes, List.append_assoc, List.append_assoc, List.append_assoc,
      lex_gap joined hstart, hglyph]
    rfl

theorem texChars_append (joined : Bool) (glyphs more : List Glyph)
    : ∃ after, texChars joined (glyphs ++ more) =
      texChars joined glyphs ++ texChars after more := by
  induction glyphs generalizing joined with
  | nil => exact ⟨joined, rfl⟩
  | cons glyph glyphs ih =>
    obtain ⟨after, hafter⟩ := ih glyph.endsBlank
    refine ⟨after, ?_⟩
    rw [List.cons_append, texChars, hafter, texChars, List.append_assoc, List.append_assoc]

end Written

section Read

variable {tokens : List Tex.Token} {glyphs : List Glyph} {joined : Bool}

theorem readsAs_glyph {token : Tex.Token} {glyph : Glyph} (h : token.lexeme = glyph.lexeme)
    : Tex.ReadsAs [token] [glyph.tex] := by
  cases glyph with
  | letter c hc =>
    have htext : token.text = String.ofList [c] := congrArg Prod.snd h
    have hprime : token.text ≠ "'" := by
      intro heq
      have hchars := congrArg String.toList (htext.symm.trans heq)
      rw [String.toList_ofList] at hchars
      cases List.head_eq_of_cons_eq hchars
      contradiction
    have hatomic := Tex.atomic_element (congrArg Prod.fst h) hprime
    rw [htext] at hatomic
    exact hatomic.readsAs
  | gap space =>
    obtain ⟨kind, text, span⟩ := token
    cases h
    have hatomic : Tex.Atomic [⟨.control, space.command, span⟩] (.control space.command) := by
      refine .intro ?_ fun inEnv rest => ?_
      . cases space
        all_goals exact ⟨rfl, rfl, rfl, rfl, rfl⟩
      . rw [Tex.Parser.atom]
        cases space
        all_goals rfl
    exact hatomic.readsAs

theorem readsAs_glyphs (h : tokens.map Token.lexeme = texLexemes joined glyphs)
    : Tex.ReadsAs tokens (texNodes joined glyphs) := by
  induction glyphs generalizing tokens joined with
  | nil =>
    cases List.map_eq_nil_iff.mp h
    exact Tex.readsAs_nil
  | cons glyph glyphs ih =>
    obtain ⟨gap, others, rfl, hgap, hothers⟩ := List.map_eq_append_iff.mp h
    obtain ⟨token, more, rfl, htoken, hmore⟩ := List.map_eq_cons_iff.mp hothers
    exact (readsAs_gap hgap).append ((readsAs_glyph htoken).append (ih hmore))

theorem readsAs_stray {token : Tex.Token} (h : token.lexeme = (.unknown, "\\"))
    : Tex.ReadsAs [token] [.unknown "\\"] := by
  obtain ⟨kind, text, span⟩ := token
  cases h
  have hatomic : Tex.Atomic [⟨.unknown, "\\", span⟩] (.unknown "\\") := by
    refine .intro ⟨rfl, rfl, rfl, rfl, rfl⟩ fun inEnv rest => ?_
    rw [Tex.Parser.atom]
    rfl
  exact hatomic.readsAs

/--
Tokens that are neither replaced nor next to a space that is dropped.
-/
def Inert (lexeme : Tex.Lexeme) : Prop :=
  lexeme.1 ≠ .command ∧ lexeme ∉ [(.control, "_"), (.control, "^")]

theorem inert_gap : ∀ lexeme ∈ gapLexemes joined, Inert lexeme := by
  cases joined with
  | true => exact List.forall_mem_nil _
  | false => exact List.forall_mem_singleton.mpr ⟨by decide, by decide⟩

theorem inert_texLexemes : ∀ lexeme ∈ texLexemes joined glyphs, Inert lexeme := by
  induction glyphs generalizing joined with
  | nil => exact List.forall_mem_nil _
  | cons glyph glyphs ih =>
    have hglyph : Inert glyph.lexeme := by
      cases glyph with
      | letter => exact ⟨by simp [Glyph.lexeme], by simp [Glyph.lexeme]⟩
      | gap space => cases space <;> exact ⟨by decide, by decide⟩
    exact List.forall_mem_append.mpr ⟨inert_gap, List.forall_mem_cons.mpr ⟨hglyph, ih⟩⟩

theorem isMarker_of_inert {token : Tex.Token} (h : Inert token.lexeme)
    : Tex.Token.isMarker token = false := by
  obtain ⟨kind, text, span⟩ := token
  have hlexeme : (kind, text) ∉ [(Tex.Kind.control, "_"), (.control, "^")] := h.2
  unfold Tex.Token.isMarker Tex.Token.script?
  split
  next hkind =>
    cases beq_iff_eq.mp hkind
    unfold Script.ofMarker?
    split
    . simp_all
    . simp_all
    . rfl
  . rfl

theorem stripScriptSpaces_of_inert (h : ∀ token ∈ tokens, Inert token.lexeme)
    : Tex.stripScriptSpaces tokens = tokens := by
  rw [Tex.stripScriptSpaces]
  induction tokens with
  | nil => rfl
  | cons token tokens ih =>
    obtain ⟨htoken, htokens⟩ := List.forall_mem_cons.mp h
    have hnext : (tokens.find? fun next => !Tex.Token.isSpace next).any Tex.Token.isMarker =
        false := by
      cases hfind : tokens.find? fun next => !Tex.Token.isSpace next with
      | none => rfl
      | some next => exact isMarker_of_inert (htokens next (List.mem_of_find?_eq_some hfind))
    rw [Tex.stripScriptSpaces.go, isMarker_of_inert htoken, hnext, ih htokens]
    split <;> rfl

theorem parse_of_inert {nodes : List Tex.Formula} {text : String}
    (h : ∀ lexeme ∈ Tex.lex text.toList, Inert lexeme)
    (hreads : ∀ tokens : List Tex.Token, tokens.map Token.lexeme = Tex.lex text.toList →
      Tex.ReadsAs tokens nodes)
    : Tex.parse (({} : Options).tokenize text) = .ok (.ofList nodes) := by
  have hlexemes := Tex.tokenize_lexemes text
  have hinert : ∀ token ∈ Tex.tokenize text, Inert token.lexeme := by
    intro token htoken
    apply h
    rw [← hlexemes]
    exact List.mem_map_of_mem htoken
  have hexpand : ({} : Options).tokenize text = Tex.tokenize text :=
    Tex.expandMacros_of_none fun token htoken hkind => absurd hkind (hinert token htoken).1
  rw [hexpand, Tex.parse, stripScriptSpaces_of_inert hinert, (hreads _ hlexemes).sequence_eq]
  rfl

end Read

section Back

theorem ofTex_ofList (options : Options) (nodes : List Tex.Formula)
    : Typst.Formula.ofTex options (.ofList nodes) = Typst.Formula.ofTex options (.group nodes) := by
  match nodes with
  | [] => rfl
  | [node] =>
    change Typst.Formula.ofTex options node = (do
      let nodes ← Typst.Formula.eachOfTex options [node]
      return .ofList (nodes.filter fun node => !node.isEmpty))
    rw [Typst.Formula.eachOfTex, Typst.Formula.eachOfTex]
    cases Typst.Formula.ofTex options node with
    | error e => rfl
    | ok image =>
      cases image
      all_goals rfl
  | _ :: _ :: _ => rfl

theorem eachOfTex_texNodes (joined : Bool) (glyphs : List Glyph)
    : ∃ images, Typst.Formula.eachOfTex {} (texNodes joined glyphs) = .ok images ∧
      (images.filter fun image => !image.isEmpty) = glyphs.map Glyph.typst := by
  induction glyphs generalizing joined with
  | nil => exact ⟨[], rfl, rfl⟩
  | cons glyph glyphs ih =>
    obtain ⟨images, himages, hfilter⟩ := ih glyph.endsBlank
    obtain ⟨blanks, hblanks, hnone⟩ := eachOfTex_gap joined
    have hcons := Tex.Formula.eachOfTex_cons glyph.matches_tex.forth himages
    refine ⟨_, eachOfTex_append hblanks hcons, ?_⟩
    rw [List.filter_append, hnone, List.nil_append, List.map_cons, ← hfilter]
    cases glyph <;> rfl

theorem eachOfTex_concat_error {options : Options} {nodes : List Tex.Formula}
    {images : List Typst.Formula} {last : Tex.Formula} {e : ConvertError}
    (h : Typst.Formula.eachOfTex options nodes = .ok images)
    (hlast : Typst.Formula.ofTex options last = .error e)
    : Typst.Formula.eachOfTex options (nodes ++ [last]) = .error e := by
  induction nodes generalizing images with
  | nil =>
    rw [List.nil_append, Typst.Formula.eachOfTex, hlast]
    rfl
  | cons node nodes ih =>
    rw [Typst.Formula.eachOfTex] at h
    cases hnode : Typst.Formula.ofTex options node with
    | error =>
      rw [hnode] at h
      contradiction
    | ok image =>
      cases hnodes : Typst.Formula.eachOfTex options nodes with
      | error =>
        rw [hnode, hnodes] at h
        contradiction
      | ok images =>
        rw [List.cons_append, Typst.Formula.eachOfTex, hnode, ih hnodes]
        rfl

theorem texToTypst_texChars {glyphs : List Glyph} (hne : glyphs ≠ [])
    : texToTypst {} (String.ofList (texChars true glyphs)) =
      .ok (" ".intercalate (glyphs.map Glyph.word)) := by
  have hlex := lex_texChars true glyphs []
  rw [List.append_nil, Tex.lex_nil, List.append_nil] at hlex
  have hparse : Tex.parse (({} : Options).tokenize (String.ofList (texChars true glyphs))) =
      .ok (.ofList (texNodes true glyphs)) := by
    apply parse_of_inert
    . rw [String.toList_ofList, hlex]
      exact inert_texLexemes
    . rw [String.toList_ofList, hlex]
      exact fun tokens => readsAs_glyphs
  obtain ⟨images, himages, hfilter⟩ := eachOfTex_texNodes true glyphs
  have hof : Typst.Formula.ofTex {} (.ofList (texNodes true glyphs)) =
      .ok (.ofList (glyphs.map Glyph.typst)) := by
    rw [ofTex_ofList, ← hfilter]
    exact Tex.Formula.bind_of_ok himages
  rw [texToTypst, hparse]
  change ((Typst.Formula.ofTex {} _).mapError _ >>= _) = _
  rw [hof]
  exact congrArg Except.ok (write_glyphs _ hne)

theorem lex_stray (joined : Bool)
    : Tex.lex (gapChars joined ++ ['\\']) = gapLexemes joined ++ [(.unknown, "\\")] := by
  have hstep : Scan.step Tex.rules .unknown '\\' [] = (1, [(.unknown, "\\")]) := rfl
  have hstray : Tex.lex ['\\'] = [(.unknown, "\\")] := by
    rw [Tex.lex, Scan.cut, hstep]
    exact congrArg _ Tex.lex_nil
  rw [lex_gap joined (by decide), hstray]

theorem texToTypst_stray (joined : Bool) (glyphs : List Glyph)
    : ∃ failure, texToTypst {} (String.ofList (texChars true glyphs ++
        (gapChars joined ++ ['\\']))) = .error failure := by
  generalize htext : String.ofList (texChars true glyphs ++ (gapChars joined ++ ['\\'])) = text
  have hlex : Tex.lex text.toList =
      texLexemes true glyphs ++ (gapLexemes joined ++ [(.unknown, "\\")]) := by
    rw [← htext, String.toList_ofList, lex_texChars, lex_stray]
  have hparse : Tex.parse (({} : Options).tokenize text) =
      .ok (.ofList (texNodes true glyphs ++ (gapNodes joined ++ [.unknown "\\"]))) := by
    apply parse_of_inert
    . rw [hlex]
      have hstray : Inert (.unknown, "\\") := ⟨by decide, by decide⟩
      exact List.forall_mem_append.mpr ⟨inert_texLexemes,
        List.forall_mem_append.mpr ⟨inert_gap, List.forall_mem_singleton.mpr hstray⟩⟩
    . intro tokens htokens
      rw [hlex] at htokens
      obtain ⟨front, others, rfl, hfront, hothers⟩ := List.map_eq_append_iff.mp htokens
      obtain ⟨gap, last, rfl, hgap, hlast⟩ := List.map_eq_append_iff.mp hothers
      obtain ⟨token, rfl, htoken⟩ := List.map_eq_singleton_iff.mp hlast
      exact (readsAs_glyphs hfront).append ((readsAs_gap hgap).append (readsAs_stray htoken))
  obtain ⟨images, himages, _⟩ := eachOfTex_texNodes true glyphs
  obtain ⟨blanks, hblanks, _⟩ := eachOfTex_gap joined
  have herror := eachOfTex_concat_error (eachOfTex_append himages hblanks)
    (rfl : Typst.Formula.ofTex {} (.unknown "\\") = .error _)
  rw [List.append_assoc] at herror
  rw [texToTypst, hparse]
  change ∃ failure, ((Typst.Formula.ofTex {} _).mapError _ >>= _) = _
  rw [ofTex_ofList]
  change ∃ failure, (((Typst.Formula.eachOfTex {} _) >>= _).mapError _ >>= _) = _
  rw [herror]
  exact ⟨_, rfl⟩

theorem trimEnd_of_endsBlank (front : List Glyph) {last : Glyph} (h : last.endsBlank)
    : ∃ after, trimEnd (texChars true (front ++ [last])) =
      texChars true front ++ (gapChars after ++ ['\\']) := by
  obtain ⟨after, hafter⟩ := texChars_append true front [last]
  refine ⟨after, ?_⟩
  cases last with
  | letter => contradiction
  | gap space =>
    cases space with
    | word =>
      have hcommand : texChars after [.gap .word] = gapChars after ++ ['\\', ' '] := rfl
      rw [hafter, hcommand]
      simp [trimEnd, isBlank]
    | _ => contradiction

theorem trimEnd_of_not_endsBlank (front : List Glyph) {last : Glyph} (h : last.endsBlank = false)
    : trimEnd (texChars true (front ++ [last])) = texChars true (front ++ [last]) := by
  obtain ⟨after, hafter⟩ := texChars_append true front [last]
  obtain ⟨c, hlast, hblank, _⟩ := last.exists_last h
  apply trimEnd_of_last
  rw [hafter, texChars, texChars, List.append_nil, ← List.append_assoc, List.getLast?_append, hlast]
  intro c' hc'
  cases hc'
  exact hblank

/--
Letters and named spaces are converted to TeX and back without a change if and only if the last of
them is no space of the width of a blank.
-/
theorem texToTypst_typstToTex_spaces (glyphs : List Glyph) (hne : glyphs ≠ [])
    : ∃ tex, typstToTex {} (" ".intercalate (glyphs.map Glyph.word)) = .ok tex ∧
      (texToTypst {} tex = .ok (" ".intercalate (glyphs.map Glyph.word)) ↔
        glyphs.getLast? ≠ some (.gap .word)) := by
  refine ⟨_, typstToTex_glyphs hne, ?_⟩
  rw [write_tex]
  obtain ⟨front, last, rfl⟩ := (List.eq_nil_or_concat' glyphs).resolve_left hne
  rw [List.getLast?_concat]
  cases hblank : last.endsBlank with
  | true =>
    obtain ⟨after, htrim⟩ := trimEnd_of_endsBlank front hblank
    obtain ⟨failure, hfailure⟩ := texToTypst_stray after front
    have hlast : last = .gap .word := by
      unfold Glyph.endsBlank at hblank
      split at hblank
      . rfl
      . contradiction
    rw [htrim, hfailure]
    exact iff_of_false (by simp) (by simp [hlast])
  | false =>
    have hlast : last ≠ .gap .word := by
      rintro rfl
      contradiction
    rw [trimEnd_of_not_endsBlank front hblank]
    exact iff_of_true (texToTypst_texChars hne) (by simpa using hlast)

/--
Spaces in all places but the last.
-/
theorem texToTypst_typstToTex_spaces_inner
    : ∃ tex, typstToTex {} "space a thin space space.nobreak b med" = .ok tex ∧
      texToTypst {} tex = .ok "space a thin space space.nobreak b med" := by
  obtain ⟨tex, htex, hiff⟩ := texToTypst_typstToTex_spaces
    [.gap .word, .letter 'a' rfl, .gap .thin, .gap .word, .gap .tie, .letter 'b' rfl, .gap .med]
    (List.cons_ne_nil _ _)
  exact ⟨tex, htex, hiff.mpr (by simp)⟩

/--
The blank of the command is dropped at the end, and the backslash alone is no command.
-/
theorem last_space_lost
    : typstToTex {} "a space" = .ok "a \\" ∧
      ∃ failure, texToTypst {} "a \\" = .error failure := by
  refine ⟨?_, texToTypst_stray false [.letter 'a' rfl]⟩
  have hwritten := @typstToTex_glyphs [.letter 'a' rfl, .gap .word] (List.cons_ne_nil _ _)
  rw [write_tex] at hwritten
  exact hwritten.trans (congrArg Except.ok (by decide))

end Back

end MathMarkup
