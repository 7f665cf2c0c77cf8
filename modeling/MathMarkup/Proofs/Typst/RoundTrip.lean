import MathMarkup.Proofs.Result
import MathMarkup.Proofs.Typst.CleanUp
import MathMarkup.Proofs.Typst.Readable

/-!
This module contains the proof that the parser undoes the writer: a regular formula is read back
from what is written for it, up to spaces.
-/

namespace MathMarkup
namespace Typst

open Text Formula

section Calls

variable {style : Style} {words : Vocabulary} {afterName : Bool} {tree : Formula}
  {spelled : List Piece} {tokens gap part : List Token} {parts : List (List Token)}
  {row nodes : List Formula} {rows : List (List Formula)} {isSep : Token → Bool}
  {separator : String} {lexeme : Lexeme}

theorem Spells.call_inv {name : String} (hname : Symbol.TypstName name)
    (h : Spells afterName (.token (name ++ "(") :: (spelled ++ [.token ")"])) tokens)
    : ∃ gap own body, tokens = gap ++ own ∧ IsGap gap ∧ Spells false spelled body ∧
      (Nested (fun _ => True) body → Nested Whole own ∧
        ∀ node, Parser.call name body = .ok node → Atomic false own node) := by
  obtain ⟨gap, own, rest, rfl, hgap, hown, hrest, _⟩ := h.token_inv
  rw [lex_call_alone hname] at hown hrest
  obtain ⟨callee, own, rfl, hcallee, hown⟩ := List.map_eq_cons_iff.mp hown
  obtain ⟨opener, own, rfl, hopener, hown⟩ := List.map_eq_cons_iff.mp hown
  cases List.map_eq_nil_iff.mp hown
  obtain ⟨body, last, rfl, hspells, hlast⟩ := hrest.append_inv
  obtain ⟨closer, none, rfl, hcloser, hnone⟩ := @Spells.tight_inv _ _ _ ')' (by decide) hlast
  cases hnone.eq_nil
  have hopen : Token.isOpen opener := is_iff.mpr hopener
  have hclose : Token.isClose closer := is_iff.mpr hcloser
  have hkind : callee.kind = .symbol := congrArg Prod.fst hcallee
  have hsame : callee.text = name := congrArg Prod.snd hcallee
  refine ⟨gap, _, body, rfl, hgap, hspells, fun hnested => ⟨?_, fun node hcall => ?_⟩⟩
  . refine (nested_mark hcallee ?_).append (.wrap hopen hclose hnested .nil)
    exact fun hmem => (by decide : ∀ lexeme ∈ (Kind.element, "(") :: (Kind.element, ")") :: splitting,
      lexeme.1 ≠ Kind.symbol) _ hmem rfl
  . exact atomic_call hkind hopen hclose hnested (hsame ▸ hcall)

theorem readable_call_of {name : String} (hname : Symbol.TypstName name)
    (hflat : ∀ nodes, tree ≠ .group nodes) (hempty : tree.isEmpty = false)
    (hspelling : tree.spelling style = .token (name ++ "(") :: (spelled ++ [.token ")"]))
    (hbody : ∀ body, Spells false spelled body → Nested (fun _ => True) body ∧
      ∃ node, Parser.call name body = .ok node ∧ Image tree node ∧ ∀ nodes, node ≠ .group nodes)
    : Readable style tree := by
  refine readable_of_argument hflat hempty fun afterName tokens h => ?_
  rw [hspelling] at h ⊢
  have hlast : lastName afterName (.token (name ++ "(") :: (spelled ++ [.token ")"])) = false :=
    lastName_paren afterName (.token (name ++ "(") :: spelled)
  obtain ⟨gap, own, body, rfl, hgap, hspells, hread⟩ := h.call_inv hname
  obtain ⟨hnested, node, hcall, himage, hnode⟩ := hbody body hspells
  obtain ⟨hown, hatomic⟩ := hread hnested
  rw [hlast]
  exact ⟨(nested_gap hgap).append hown, node, .intro hgap (hatomic node hcall), himage, hnode⟩

theorem isComma_of_whole {token : Token} (h : Whole token) : token.isComma = false :=
  h.is_eq_false (by decide : (.element, ",") ∈ splitting)

theorem isSemicolon_of_whole {token : Token} (h : Whole token) : token.isSemicolon = false :=
  h.is_eq_false (by decide : (.element, ";") ∈ splitting)

theorem isComma_of_whole_or_alignment {token : Token}
    (h : Whole token ∨ token.lexeme = (.control, "&")) : token.isComma = false := by
  rcases h with hwhole | halign
  . exact isComma_of_whole hwhole
  . exact is_eq_false_iff.mpr (by simp [halign])

theorem isSemicolon_of_whole_or_comma {token : Token}
    (h : Whole token ∨ token.lexeme = (.element, ",")) : token.isSemicolon = false := by
  rcases h with hwhole | hcomma
  . exact isSemicolon_of_whole hwhole
  . exact is_eq_false_iff.mpr (by simp [hcomma])

theorem isAlignment_of_whole {token : Token} (h : Whole token) : token.isAlignment = false :=
  h.is_eq_false (by decide : (.control, "&") ∈ splitting)

theorem exists_cells (h : List.Forall₂ CellReading row parts)
    : ∃ nodes, List.Forall₂ Cell parts nodes ∧ List.Forall₂ Image row nodes ∧
      (∀ node ∈ nodes, Trimmed node) ∧ ∀ node ∈ nodes, node.isEmpty = false := by
  induction h with
  | nil => exact ⟨[], .nil, .nil, nofun, nofun⟩
  | cons hcell _ ih =>
    obtain ⟨node, hnode, himage, htrimmed⟩ := hcell.cell
    obtain ⟨nodes, hnodes, himages, hall, hfull⟩ := ih
    exact ⟨node :: nodes, .cons hnode hnodes, .cons himage himages,
      List.forall_mem_cons.mpr ⟨htrimmed, hall⟩, List.forall_mem_cons.mpr ⟨hnode.not_empty, hfull⟩⟩

theorem eachWithoutSpaces_of_images (h : List.Forall₂ Image row nodes)
    : eachWithoutSpaces nodes = row ∧ ∀ node ∈ nodes, Tidy node := by
  induction h with
  | nil => exact ⟨by rw [eachWithoutSpaces], nofun⟩
  | cons himage _ ih =>
    refine ⟨?_, List.forall_mem_cons.mpr ⟨himage.tidy, ih.2⟩⟩
    rw [eachWithoutSpaces, himage.withoutSpaces, ih.1]

theorem exists_call {name : String} {args : List Formula} {body : List Token}
    (hname : name ∉ reservedCalls) (hlength : name ≠ "#h")
    (hjoined : Joined Token.isComma body parts) (h : List.Forall₂ CellReading args parts)
    : ∃ node, Parser.call name body = .ok node ∧ Image (.call name args []) node ∧
      ∀ nodes, node ≠ .group nodes := by
  obtain ⟨nodes, hnodes, himages, htrimmed, _⟩ := exists_cells h
  obtain ⟨heach, htidy⟩ := eachWithoutSpaces_of_images himages
  refine ⟨.call name nodes [], call_eq hname hjoined hnodes,
    ⟨rfl, ?_, .call hlength htidy htrimmed (by rw [namedWithoutSpaces])⟩, nofun⟩
  rw [withoutSpaces, heach, namedWithoutSpaces]

theorem readable_call {name : String} {args : List Formula} (hname : words.mem name)
    (hne : args ≠ []) (hargs : ∀ arg ∈ args, Regular style words arg)
    (ih : ∀ arg ∈ args, Readable style arg) : Readable style (.call name args []) := by
  refine readable_call_of (words.typstName _ hname) nofun rfl (spelling_call hargs) ?_
  intro body hbody
  obtain ⟨parts, hjoined, hparts, hnested⟩ :=
    separator_comma.exists_joined (fun _ => isComma_of_whole) hne
      (fun arg harg _ _ _ h hgap => (ih arg harg).cellReading (hargs arg harg) h hgap)
      (fun _ _ h => h.nested) hbody isGap_nil
  rw [List.append_nil] at hjoined hnested
  have hlength : name ≠ "#h" := by
    rintro rfl
    exact absurd (words.typstName _ hname).isDotted (by decide)
  exact ⟨hnested.mono fun _ _ => trivial,
    exists_call (words.not_reserved name hname) hlength hjoined hparts⟩

theorem Joined.isBlankPart_eq_false (h : Joined isSep tokens (part :: parts))
    (hpart : isBlankPart part = false) : isBlankPart tokens = false := by
  cases h with
  | last => exact hpart
  | cons =>
    rw [isBlankPart, List.all_append, ← isBlankPart, hpart]
    rfl

theorem Separator.rowReading (hseparator : Separator separator lexeme isSep)
    (hsep : ∀ token, Whole token → isSep token = false) (hne : row ≠ [])
    (hcells : ∀ cell ∈ row, Regular style words cell) (ih : ∀ cell ∈ row, Readable style cell)
    (h : Spells afterName (separated [.token separator] (row.map (spelling style))) tokens)
    (hgap : IsGap gap) : RowReading isSep lexeme row (tokens ++ gap) := by
  obtain ⟨parts, hjoined, hparts, hnested⟩ :=
    hseparator.exists_joined hsep hne
      (fun cell hcell _ _ _ h hgap => (ih cell hcell).cellReading (hcells cell hcell) h hgap)
      (fun _ _ h => h.nested) h hgap
  obtain ⟨nodes, hnodes, himages, _, hfull⟩ := exists_cells hparts
  refine ⟨hnested, nodes, ⟨⟨?_, ?_⟩, hfull, ?_⟩, himages⟩
  . rw [hjoined.split_eq, arguments_eq (hnodes.imp fun _ _ hcell => hcell.toLooseCell)]
  . rintro rfl
    cases himages
    contradiction
  . cases hnodes with
    | nil =>
      cases hparts
      contradiction
    | cons hcell => exact hjoined.isBlankPart_eq_false hcell.not_blank

theorem Separator.exists_rows {rowSeparator : String} {rowLexeme : Lexeme} {isRowSep : Token → Bool}
    (hrow : Separator rowSeparator rowLexeme isRowSep) (hcell : Separator separator lexeme isSep)
    (hrowSep : ∀ token, Whole token ∨ token.lexeme = lexeme → isRowSep token = false)
    (hcellSep : ∀ token, Whole token → isSep token = false) (hrows : rows ≠ [])
    (hne : ∀ row ∈ rows, row ≠ []) (hcells : ∀ row ∈ rows, ∀ cell ∈ row, Regular style words cell)
    (ih : ∀ row ∈ rows, ∀ cell ∈ row, Readable style cell)
    (h : Spells afterName (grid [.token rowSeparator] [.token separator]
      (rows.map (List.map (spelling style)))) tokens)
    : Nested (fun _ => True) tokens ∧ ∃ parts, Joined isRowSep tokens parts ∧
      List.Forall₂ (RowReading isSep lexeme) rows parts := by
  rw [grid, List.map_map] at h
  obtain ⟨parts, hjoined, hparts, hnested⟩ :=
    hrow.exists_joined hrowSep hrows
      (fun row hmem _ _ _ h hgap =>
        hcell.rowReading hcellSep (hne row hmem) (hcells row hmem) (ih row hmem) h hgap)
      (fun _ _ h => h.nested) h isGap_nil
  rw [List.append_nil] at hjoined hnested
  exact ⟨hnested.mono fun _ _ => trivial, parts, hjoined, hparts⟩

theorem exists_grid (h : List.Forall₂ (RowReading isSep lexeme) rows parts)
    : ∃ nodes, List.Forall₂ (fun part row => Row isSep part row []) parts nodes ∧
      rowsWithoutSpaces nodes = rows ∧ ∀ row ∈ nodes, ∀ cell ∈ row, Tidy cell := by
  induction h with
  | nil => exact ⟨[], .nil, by rw [rowsWithoutSpaces], nofun⟩
  | cons hrow _ ih =>
    obtain ⟨row, hcells, himages⟩ := hrow.row
    obtain ⟨nodes, hnodes, hsame, htidy⟩ := ih
    obtain ⟨heach, hall⟩ := eachWithoutSpaces_of_images himages
    refine ⟨row :: nodes, .cons hcells hnodes, ?_, List.forall_mem_cons.mpr ⟨hall, htidy⟩⟩
    rw [rowsWithoutSpaces, heach, hsame]

theorem readable_cases (hrows : rows ≠ []) (hne : ∀ row ∈ rows, row ≠ [])
    (hcells : ∀ row ∈ rows, ∀ cell ∈ row, Regular style words cell)
    (ih : ∀ row ∈ rows, ∀ cell ∈ row, Readable style cell) : Readable style (.cases rows []) := by
  refine @readable_call_of _ _ _ "cases" ⟨_, rfl, rfl⟩ nofun rfl 
    (spelling_cases (uniform_of_regular hcells)) ?_
  intro body hbody
  obtain ⟨hnested, parts, hjoined, hparts⟩ :=
    separator_comma.exists_rows separator_alignment (fun _ => isComma_of_whole_or_alignment)
      (fun _ => isAlignment_of_whole) hrows hne hcells ih hbody
  obtain ⟨nodes, hnodes, hsame, htidy⟩ := exists_grid hparts
  refine ⟨hnested, .cases nodes [], call_cases hjoined hnodes,
    ⟨rfl, ?_, .cases htidy (by rw [namedWithoutSpaces])⟩, nofun⟩
  rw [withoutSpaces, hsame, namedWithoutSpaces]

end Calls

/--
Tokens that are read as the named arguments of a matrix, before the comma that follows them.
-/
structure NamedReading (named : List (String × Formula)) (part : List Token) : Prop where
  nested : Nested (fun token => token.isComma = false ∧ token.isSemicolon = false) part
  not_blank : isBlankPart part = false
  arguments : ∀ parts cells, Parser.arguments parts = .ok (cells, []) →
    Parser.arguments (part :: parts) = .ok (cells, named)

section Matrix

variable {style : Style} {words : Vocabulary} {afterName : Bool} {value : Formula}
  {named : List (String × Formula)} {rows : List (List Formula)} {tokens gap part : List Token}
  {comma : Token}

theorem trimSpaces_concat {spaces : List Formula} (hspaces : ∀ node ∈ spaces, node.isSpace)
    (hvalue : value.isSpace = false) : trimSpaces (spaces ++ [value]) = [value] := by
  rw [trimSpaces, List.dropWhile_append_of_pos hspaces, List.dropWhile_cons_of_neg (by simp [hvalue]),
    List.reverse_singleton, List.dropWhile_cons_of_neg (by simp [hvalue]), List.reverse_singleton]

theorem namedArgument?_delim {key colon : Token} (hgap : IsGap gap)
    (hkey : key.lexeme = (.symbol, "delim")) (hcolon : colon.lexeme = (.element, ":"))
    : namedArgument? (gap ++ key :: colon :: part) = some ("delim", gap.length + 2) := by
  have hkind : key.kind = .symbol := congrArg Prod.fst hkey
  have hname : key.text = "delim" := congrArg Prod.snd hkey
  have hblanks : Token.countFront Token.isSpace (gap ++ key :: colon :: part) = gap.length := by
    rw [Token.countFront, List.takeWhile_append_of_pos hgap, List.takeWhile_cons_of_neg,
      List.append_nil]
    simp [Token.isSpace, hkind]
  unfold namedArgument?
  rw [hblanks]
  simp only [List.drop_left, hkind, hname, is_iff.mpr hcolon]
  rfl

theorem namedReading {text : String} {lexeme : Lexeme} (hlex : lex text.toList = [lexeme])
    (hatomic : ∀ token : Token, token.lexeme = lexeme → Atomic false [token] value)
    (hspace : value.isSpace = false) (hkind : lexeme.1 ∈ [.text, .nothing])
    (h : Spells afterName [.token "delim:", .token text, .token ","] tokens)
    : ∃ part comma, tokens = part ++ [comma] ∧ comma.lexeme = (.element, ",") ∧
      NamedReading [("delim", value)] part := by
  have hkey : lex "delim:".toList = [(.symbol, "delim"), (.element, ":")] :=
    (@lex_key [] "delim" ⟨_, rfl, rfl⟩ notStartsWith_nil).trans (by rw [lex_nil])
  obtain ⟨gap, own, rest, rfl, hgap, hown, hrest, _⟩ := h.token_inv
  rw [hkey] at hown
  obtain ⟨key, own, rfl, hkey, hown⟩ := List.map_eq_cons_iff.mp hown
  obtain ⟨colon, own, rfl, hcolon, hown⟩ := List.map_eq_cons_iff.mp hown
  cases List.map_eq_nil_iff.mp hown
  obtain ⟨before, token, rest, rfl, hbefore, rfl, hrest, _⟩ := hrest.single_inv hlex
  obtain ⟨comma, none, rfl, hcomma, hnone⟩ := @Spells.tight_inv _ _ _ ',' (by decide) hrest
  cases hnone.eq_nil
  have hargument : Argument false (before ++ [token]) value := .intro hbefore (hatomic token rfl)
  obtain ⟨spaces, hreads, hspaces⟩ := hargument.readsAs
  have hcell : Parser.cell (before ++ [token]) = .ok value := by
    rw [Parser.cell, hreads.sequence_eq]
    simp only [bind, Except.bind, trimSpaces_concat hspaces hspace]
    rfl
  refine ⟨gap ++ key :: colon :: (before ++ [token]), comma, by simp, hcomma, ?_, ?_, ?_⟩
  . have hgaps : ∀ {gap}, IsGap gap →
        Nested (fun token : Token => token.isComma = false ∧ token.isSemicolon = false) gap :=
      fun hgap => (nested_gap hgap).mono fun _ hwhole =>
        ⟨isComma_of_whole hwhole, isSemicolon_of_whole hwhole⟩
    have hplain : ∀ {token : Token}, token.lexeme ∉ [(.element, "("), (.element, ")"),
        (.element, ","), (.element, ";")] →
          Nested (fun token : Token => token.isComma = false ∧ token.isSemicolon = false) [token] := by
      intro token h
      simp only [List.mem_cons, List.not_mem_nil, or_false, not_or] at h
      exact .cons (is_eq_false_iff.mpr h.1) (is_eq_false_iff.mpr h.2.1)
        ⟨is_eq_false_iff.mpr h.2.2.1, is_eq_false_iff.mpr h.2.2.2⟩ .nil
    have hvalue : token.lexeme ∉ [(.element, "("), (.element, ")"), (.element, ","),
        (.element, ";")] := by
      intro hmem
      exact (by decide : ∀ lexeme ∈ [(Kind.element, "("), (.element, ")"), (.element, ","),
        (.element, ";")], lexeme.1 ∉ [Kind.text, .nothing]) _ hmem hkind
    exact (hgaps hgap).append ((hplain (hkey ▸ by decide)).append
      ((hplain (hcolon ▸ by decide)).append ((hgaps hbefore).append (hplain hvalue))))
  . exact isBlankPart_eq_false (begins_symbol (congrArg Prod.fst hkey))
  . intro parts cells hparts
    have hdrop : (gap ++ key :: colon :: (before ++ [token])).drop (gap.length + 2) =
        before ++ [token] := by
      rw [← List.drop_drop, List.drop_left]
      rfl
    rw [Parser.arguments, namedArgument?_delim hgap hkey hcolon]
    simp only [hdrop, hcell, hparts, bind, Except.bind]
    rfl

theorem atomic_text {token : Token} {text : String} (h : token.lexeme = (.text, text))
    : Atomic false [token] (.text text) := by
  obtain ⟨kind, text, span⟩ := token
  cases h
  refine .intro ⟨rfl, rfl, rfl, rfl, rfl, rfl⟩ fun rest _ => ?_
  unfold Parser.atom
  rfl

theorem atomic_nothing {token : Token} {text : String} (h : token.lexeme = (.nothing, text))
    : Atomic false [token] .nothing := by
  obtain ⟨kind, text, span⟩ := token
  cases h
  refine .intro ⟨rfl, rfl, rfl, rfl, rfl, rfl⟩ fun rest _ => ?_
  unfold Parser.atom
  rfl

theorem NamedReading.looseRow {row : List Formula} (h : NamedReading named part)
    (hcomma : comma.lexeme = (.element, ",")) (hrow : LooseRow Token.isComma tokens row [])
    : LooseRow Token.isComma (part ++ comma :: tokens) row named := by
  refine ⟨?_, hrow.nonempty⟩
  have hnested : Nested (Token.isComma · = false) part := h.nested.mono fun _ h => h.1
  rw [hnested.split_append (separator_comma.isSep comma hcomma)
    (separator_comma.isOpen comma hcomma) (separator_comma.isClose comma hcomma)]
  exact h.arguments _ _ hrow.arguments

theorem NamedReading.isBlankPart_append (h : NamedReading named part) (more : List Token)
    : isBlankPart (part ++ more) = false := by
  rw [isBlankPart, List.all_append, ← isBlankPart, h.not_blank]
  rfl

theorem NamedReading.joined (h : NamedReading named part) (hcomma : comma.lexeme = (.element, ","))
    {first : List Token} {parts : List (List Token)}
    (hjoined : Joined Token.isSemicolon tokens (first :: parts))
    : Nested (fun _ => True) (part ++ [comma]) ∧
      Joined Token.isSemicolon (part ++ [comma] ++ tokens) ((part ++ comma :: first) :: parts) := by
  have hmark : Nested (fun token : Token => token.isSemicolon = false) [comma] :=
    .cons (separator_comma.isOpen comma hcomma) (separator_comma.isClose comma hcomma)
      (is_eq_false_iff.mpr (by simp [hcomma])) .nil
  have hfront := (h.nested.mono fun _ h => h.2).append hmark
  have hall := hjoined.prepend hfront
  rw [List.append_assoc part [comma] first] at hall
  exact ⟨hfront.mono fun _ _ => trivial, hall⟩

theorem Spells.delim_inv (hnamed : MatrixNamed named)
    (h : Spells afterName (delimSpelling named) tokens)
    : (named = [] ∧ tokens = []) ∨ ∃ part comma, tokens = part ++ [comma] ∧
      comma.lexeme = (.element, ",") ∧ NamedReading named part := by
  cases hnamed with
  | none => exact .inl ⟨rfl, h.eq_nil⟩
  | bare =>
    have hlex : lex "#none".toList = [(.nothing, "#none")] :=
      (lex_nothing notStartsWith_nil).trans (congrArg _ lex_nil)
    exact .inr (namedReading hlex (fun _ => atomic_nothing) rfl (by decide) h)
  | @delim delim hdelim =>
    exact .inr (namedReading (lex_quote_alone delim) (fun _ => atomic_text) rfl List.mem_cons_self h)

theorem readable_matrix (hnamed : MatrixNamed named) (hrows : rows ≠ [])
    (hne : ∀ row ∈ rows, row ≠ [])
    (hcells : ∀ row ∈ rows, ∀ cell ∈ row, Regular style words cell)
    (ih : ∀ row ∈ rows, ∀ cell ∈ row, Readable style cell)
    : Readable style (.matrix rows named) := by
  have hspelling := spelling_matrix (uniform_of_regular hcells) hnamed hrows
  rw [← List.append_assoc] at hspelling
  refine @readable_call_of _ _ _ "mat" ⟨_, rfl, rfl⟩ nofun rfl hspelling ?_
  intro body hbody
  obtain ⟨front, body, rfl, hfront, hbody⟩ := hbody.append_inv
  obtain ⟨hnested, parts, hjoined, hparts⟩ :=
    separator_semicolon.exists_rows separator_comma (fun _ => isSemicolon_of_whole_or_comma)
      (fun _ => isComma_of_whole) hrows hne hcells ih hbody
  obtain ⟨nodes, hnodes, hsame, htidy⟩ := exists_grid hparts
  have hnamedSame : namedWithoutSpaces named = named := by
    cases hnamed
    all_goals simp [namedWithoutSpaces, withoutSpaces]
  have himage : Image (.matrix rows named) (.matrix nodes named) :=
    ⟨rfl, by rw [withoutSpaces, hsame, hnamedSame], .matrix htidy hnamedSame⟩
  cases hnodes with
  | nil =>
    cases hparts
    contradiction
  | cons hrow hmore =>
    rcases hfront.delim_inv hnamed with ⟨rfl, rfl⟩ | ⟨part, comma, rfl, hcomma, hdelim⟩
    . exact ⟨hnested, _, call_matrix hjoined hrow hmore, himage, nofun⟩
    . obtain ⟨hfrontNested, hall⟩ := hdelim.joined hcomma hjoined
      refine ⟨hfrontNested.append hnested, _, ?_, himage, nofun⟩
      have hfirst := hdelim.looseRow hcomma hrow.toLooseRow
      exact call_matrix hall ⟨hfirst, hrow.not_empty, hdelim.isBlankPart_append _⟩ hmore

end Matrix

section Fenced

variable {style : Style} {words : Vocabulary} {afterName : Bool} {body : Formula} {delim : String}
  {left right : Option String} {more : List Piece} {tokens : List Token} {token : Token}

/--
The names that are used are no delimiters.
-/
def NoDelimiters (words : Vocabulary) : Prop :=
  ∀ name, words.mem name → name ∉ symbolDelimiters

theorem Simple.isDelimiter (hwords : NoDelimiters words) (h : Simple words token.lexeme)
    : token.isDelimiter = false := by
  obtain ⟨kind, text, span⟩ := token
  cases h with
  | element h =>
    have hfirst : ∀ text ∈ elementDelimiters, ¬ text.toList.head?.any isAtomStart := by decide
    simp only [Token.isDelimiter, List.contains_eq_mem, decide_eq_false_iff_not]
    exact fun hmem => hfirst text hmem h
  | symbol h =>
    simp only [Token.isDelimiter, List.contains_eq_mem, decide_eq_false_iff_not]
    rcases h with hmem | hmem
    . exact hwords text hmem
    . exact (by decide : ∀ name ∈ reservedCalls, name ∉ symbolDelimiters) text hmem

theorem lex_elementDelimiters : ∀ delim ∈ elementDelimiters,
    lex delim.toList = [(.element, delim)] := by
  decide +kernel

theorem Formula.IsDelimiter.lex_eq (h : IsDelimiter delim)
    : ∃ kind, lex delim.toList = [(kind, delim)] ∧
      ∀ token : Token, token.lexeme = (kind, delim) → token.isDelimiter := by
  rcases List.mem_append.mp h.1 with hmem | hmem
  . refine ⟨.element, lex_elementDelimiters delim hmem, ?_⟩
    intro token htoken
    have hkind : token.kind = .element := congrArg Prod.fst htoken
    have hsame : token.text = delim := congrArg Prod.snd htoken
    simpa [Token.isDelimiter, hkind, hsame] using hmem
  . have hname := (symbolDelimiters_spec delim hmem).resolve_left h.2
    refine ⟨.symbol, lex_name_alone hname, ?_⟩
    intro token htoken
    have hkind : token.kind = .symbol := congrArg Prod.fst htoken
    have hsame : token.text = delim := congrArg Prod.snd htoken
    simpa [Token.isDelimiter, hkind, hsame] using hmem

theorem Spells.delimiter_inv (hdelim : IsDelimiter delim ∧ delim ∉ ["(", ")"])
    (h : Spells afterName (.token delim :: more) tokens)
    : ∃ gap token rest other, tokens = gap ++ token :: rest ∧ IsGap gap ∧ token.isDelimiter ∧
      token.text = delim ∧ token.isOpen = false ∧ token.isClose = false ∧
      Spells other more rest := by
  obtain ⟨kind, hlex, hall⟩ := hdelim.1.lex_eq
  obtain ⟨gap, token, rest, rfl, hgap, htoken, hrest, _⟩ := h.single_inv hlex
  have hne := hdelim.2
  simp only [List.mem_cons, List.not_mem_nil, or_false, not_or] at hne
  refine ⟨gap, token, rest, _, rfl, hgap, hall token htoken, congrArg Prod.snd htoken, ?_, ?_, hrest⟩
  . exact is_eq_false_iff.mpr (by simp [htoken, hne])
  . exact is_eq_false_iff.mpr (by simp [htoken, hne])

theorem closing_spec (hwords : NoDelimiters words)
    (h : Simple words token.lexeme ∨ token.lexeme ∈ [(.element, ")"), (.element, "'")])
    : token.isSpace = false ∧ (token.isDelimiter → token.isClose) := by
  rcases h with hsimple | hmem
  . refine ⟨hsimple.begins.isSpace, fun hdelim => ?_⟩
    rw [hsimple.isDelimiter hwords] at hdelim
    contradiction
  . obtain ⟨kind, text, span⟩ := token
    simp only [List.mem_cons, List.not_mem_nil, or_false] at hmem
    rcases hmem with heq | heq
    . cases heq
      exact ⟨rfl, fun _ => rfl⟩
    . cases heq
      exact ⟨rfl, fun hdelim => absurd hdelim Bool.false_ne_true⟩

theorem Spells.takeRight_inv (hwords : NoDelimiters words) (hbody : Regular style words body)
    (hread : Readable style body)
    (hright : ∀ delim ∈ right, IsDelimiter delim ∧ delim ∉ ["(", ")"])
    (h : Spells afterName (body.spelling style ++ right.toList.map .token) tokens)
    : ∃ inner, Delimited.takeRight tokens = (inner, right) ∧ CellReading body inner ∧
      Nested (fun _ => True) tokens ∧ ∀ last ∈ tokens.getLast?, last.isSpace = false := by
  obtain ⟨own, rest, rfl, hown, hrest⟩ := h.append_inv
  cases right with
  | some delim =>
    obtain ⟨gap, token, rest, _, rfl, hgap, hdelim, rfl, hopen, hclose, hnone⟩ :=
      hrest.delimiter_inv (hright delim rfl)
    cases hnone.eq_nil
    have hcell := hread.cellReading hbody hown hgap
    have hnested := hcell.nested.mono fun _ _ => trivial
    rw [← List.append_assoc]
    refine ⟨own ++ gap, Delimited.takeRight_some hdelim hclose, hcell,
      hnested.append (.cons hopen hclose trivial .nil), ?_⟩
    rw [List.getLast?_concat]
    rintro _ ⟨⟩
    exact Delimited.isSpace_of_isDelimiter hdelim
  | none =>
    cases hrest.eq_nil
    have hcell := hread.cellReading hbody hown isGap_nil
    rw [List.append_nil] at hcell ⊢
    obtain ⟨text, htext, hcloser⟩ := hbody.exists_closer
    obtain ⟨front, last, rfl, hlast⟩ := hown.closing htext hcloser
    obtain ⟨hspace, hdelim⟩ := closing_spec hwords hlast
    refine ⟨_, Delimited.takeRight_none hcell.nested hdelim, hcell,
      hcell.nested.mono fun _ _ => trivial, ?_⟩
    rw [List.getLast?_concat]
    rintro _ ⟨⟩
    exact hspace

theorem Spells.ofTokens_inv (hfences : Fences left right) (hwords : NoDelimiters words)
    (hbody : Regular style words body) (hread : Readable style body)
    (h : Spells afterName
      (left.toList.map .token ++ (body.spelling style ++ right.toList.map .token)) tokens)
    : Nested (fun _ => True) tokens ∧ ∃ inner, Delimited.ofTokens tokens = ⟨left, inner, right⟩ ∧
      CellReading body inner := by
  cases hfences with
  | parens =>
    obtain ⟨gap, opener, inner, closer, rfl, hgap, hopener, hcloser, hinner⟩ :=
      Spells.parenthesized_inv h
    have hcell := hread.cellReading hbody hinner isGap_nil
    rw [List.append_nil] at hcell
    have hnested := hcell.nested.mono fun _ _ => trivial
    exact ⟨((nested_gap hgap).mono fun _ _ => trivial).append (.wrap hopener hcloser hnested .nil),
      inner, Delimited.ofTokens_parens hgap hopener hcloser hcell.nested, hcell⟩
  | other hsome hleft hright =>
    cases left with
    | some delim =>
      obtain ⟨gap, token, rest, _, rfl, hgap, hdelim, rfl, hopen, hclose, hrest⟩ :=
        Spells.delimiter_inv (hleft delim rfl) h
      obtain ⟨inner, htake, hcell, hnested, hlast⟩ := hrest.takeRight_inv hwords hbody hread hright
      refine ⟨((nested_gap hgap).mono fun _ _ => trivial).append (.cons hopen hclose trivial hnested),
        inner, ?_, hcell⟩
      rw [Delimited.ofTokens_left hgap hdelim hopen hlast, htake]
    | none =>
      cases right with
      | none => simp at hsome
      | some delim =>
        obtain ⟨own, rest, rfl, hown, hrest⟩ := @Spells.append_inv _ (spelling style body) _ _ h
        obtain ⟨gap, token, rest, _, rfl, hgap, hdelim, rfl, hopen, hclose, hnone⟩ :=
          hrest.delimiter_inv (hright delim rfl)
        cases hnone.eq_nil
        rw [← List.append_nil (spelling style body)] at hown
        obtain ⟨front, first, more, rfl, hopening, hown⟩ := hbody.opening hown
        rw [List.append_nil] at hown
        have hcell := hread.cellReading hbody hown isGap_nil
        have hcellGap := hread.cellReading hbody hown hgap
        rw [List.append_nil] at hcell
        have hfirst : first.isDelimiter → first.isOpen := by
          intro hdelim
          rcases hopening.simple with hsimple | hopen
          . rw [hsimple.isDelimiter hwords] at hdelim
            contradiction
          . exact hopen
        have hnested : Nested (fun _ => True) (first :: more ++ (gap ++ [token])) := by
          rw [← List.append_assoc]
          exact (hcellGap.nested.mono fun _ _ => trivial).append (.cons hopen hclose trivial .nil)
        rw [List.append_assoc]
        refine ⟨((nested_gap hopening.isGap).mono fun _ _ => trivial).append hnested, _, ?_, hcellGap⟩
        exact Delimited.ofTokens_right hopening.isGap hcell.nested hopening.begins.isSpace hfirst
          hdelim hclose

theorem Formula.Fences.isSome (h : Fences left right) : left.isSome ∨ right.isSome := by
  cases h with
  | parens => exact .inl rfl
  | other hsome => exact hsome

theorem readable_leftRight (hfences : Fences left right) (hwords : NoDelimiters words)
    (hbody : Regular style words body) (hread : Readable style body)
    : Readable style (.leftRight left body right) := by
  have hspelling := @spelling_leftRight _ _ left right _ hbody
  rw [← List.append_assoc (spelling style body), ← List.append_assoc] at hspelling
  refine @readable_call_of _ _ _ "lr" ⟨_, rfl, rfl⟩ nofun rfl hspelling ?_
  intro tokens htokens
  obtain ⟨hnested, inner, hinner, hcell⟩ := htokens.ofTokens_inv hfences hwords hbody hread
  obtain ⟨node, hnode, himage, _⟩ := hcell.cell
  refine ⟨hnested, .leftRight left node right, call_lr hinner hnode.cell hfences.isSome,
    ⟨rfl, ?_, .leftRight himage.tidy⟩, nofun⟩
  rw [withoutSpaces, himage.withoutSpaces]

end Fenced

section Regular

variable {style : Style} {words : Vocabulary} {tree : Formula}

theorem Formula.Regular.readable (h : Regular style words tree) : Readable style tree := by
  induction h with
  | letter h =>
    exact readable_atom (@Regular.letter _ words _ h).spelling_atom (@simple_letter words _ h)
  | sign h =>
    exact readable_atom (@Regular.sign _ words _ h).spelling_atom (@simple_sign words _ h)
  | number h hne =>
    exact readable_atom (@Regular.number _ words _ h hne).spelling_atom
      (@simple_number words _ h hne)
  | symbol h hinfinity => exact readable_symbol h hinfinity
  | parens hflat _ h ih => exact readable_parens hflat h ih
  | group hlength hflat hnumbers h ih =>
    exact readable_group (.group hlength hflat hnumbers h) hflat h hlength ih
  | call hname hne h ih => exact readable_call hname hne h ih
  | frac _ _ hnumParens hdenParens ihnum ihden =>
    exact readable_frac ihnum ihden hnumParens hdenParens
  | attach _ hkind hsub hsup hsome ihbase ihsub ihsup =>
    exact readable_attach ihbase hkind (fun tree htree => ⟨hsub tree htree, ihsub tree htree⟩)
      (fun tree htree => ⟨hsup tree htree, ihsup tree htree⟩) hsome
  | primed _ hkind hsub hcount ihbase ihsub =>
    exact readable_primed ihbase hkind (fun tree htree => ⟨hsub tree htree, ihsub tree htree⟩) hcount
  | leftRight hfences hbody hwords ih => exact readable_leftRight hfences hwords hbody ih
  | matrix hnamed hrows hcells h ih => exact readable_matrix hnamed hrows hcells h ih
  | cases hrows hcells h ih => exact readable_cases hrows hcells h ih

theorem meets_nil : Meets tree [] :=
  ⟨fun _ => notStartsWith_nil, fun _ => nofun⟩

theorem toList_write (hfits : Fits (tree.spelling style))
    : (write style tree).toList = Line.emit {} (tree.spelling style) := by
  have hline := @Line.setPieces_reversed {} _ hfits.solid
  rw [List.append_nil] at hline
  rw [write, String.toList_ofList]
  change cleanUp style (Line.setPieces {} (tree.spelling style)).reversed.reverse = _
  rw [hline, List.reverse_reverse, hfits.cleanUp_emit]

theorem spells_of_fits (hfits : Fits (tree.spelling style))
    : Spells false (tree.spelling style) (tokenize (write style tree)) := by
  rw [Spells, tokenize_lexemes, toList_write hfits]
  exact hfits.settled.spaced {} false (by simp)

theorem Formula.Regular.spells (h : Regular style words tree)
    : Spells false (tree.spelling style) (tokenize (write style tree)) := by
  have hfits := h.fitting [] .nil meets_nil
  rw [List.append_nil] at hfits
  exact spells_of_fits hfits

/--
Without a line break or an alignment point outside of parentheses, tokens are read side by side.
-/
theorem parse_of_readsAs {name : Bool} {tokens : List Token} {nodes : List Formula}
    (hnested : Nested Whole tokens) (h : ReadsAs name tokens nodes)
    : parse tokens = .ok (ofList nodes) := by
  have hwhole : Nested (fun token => (token.isLineBreak || token.isAlignment) = false) tokens := by
    refine hnested.mono fun token hwhole => ?_
    have hbreak := hwhole.is_eq_false (by decide : (.control, "\\") ∈ splitting)
    rw [Bool.or_eq_false_iff]
    exact ⟨hbreak, isAlignment_of_whole hwhole⟩
  rw [parse, hwhole.split_eq, h.sequence_eq]
  rfl

theorem Reading.exists_image {name : Bool} {trees : List Formula} {tokens : List Token}
    (h : Reading name trees tokens) (hne : trees ≠ [])
    : ∃ image, parse tokens = .ok image ∧ Image (ofList trees) image := by
  obtain ⟨nodes, hnodes, himages⟩ := h.reads
  exact ⟨ofList nodes, parse_of_readsAs h.nested hnodes, himages.image_ofList hne⟩

theorem Formula.Regular.exists_image (h : Regular style words tree)
    : ∃ image, parseText (write style tree) = .ok image ∧ Image tree image := by
  have hreading := h.readable.reading false _ h.spells
  have himage := hreading.exists_image h.readable.nonempty
  rwa [h.readable.ofList] at himage

theorem reservedCalls_not_mem : ∀ name ∈ reservedCalls,
    name ∉ (Symbol.pairs ++ Symbol.aliases).map Prod.snd := by
  decide +kernel

def tableNames : Vocabulary where
  mem name := name ∈ (Symbol.pairs ++ Symbol.aliases).map Prod.snd ∧ name ∉ symbolDelimiters
  typstName := by
    rintro name ⟨hmem, hdelim⟩
    obtain ⟨pair, hpair, rfl⟩ := List.mem_map.mp hmem
    refine (Symbol.typstName_of_mem_pairs pair hpair).resolve_left fun hrounding => hdelim ?_
    exact (by decide : ∀ pair ∈ [("lfloor", "floor.l"), ("rfloor", "floor.r"), ("lceil", "ceil.l"),
      ("rceil", "ceil.r")], pair.2 ∈ symbolDelimiters) pair hrounding
  not_reserved := by
    rintro name ⟨hmem, _⟩ hreserved
    exact reservedCalls_not_mem name hreserved hmem

/--
The parser undoes the writer: what is written for a regular formula over the names of the symbol
table is read, and without the spaces that were written it is the formula again.
-/
theorem parse_written (style : Style) (node : Formula) (h : Regular style tableNames node)
    : ∃ read, parseText (write style node) = .ok read ∧ read.withoutSpaces = node := by
  obtain ⟨read, hparse, himage⟩ := h.exists_image
  exact ⟨read, hparse, himage.withoutSpaces⟩

theorem parse_written_product
    : ∃ read,
      parseText (write {} (.group [.symbol "alpha", .parens [.atom "x"],
        .attach (.matrix [[.atom "a", .frac (.atom "b") (.atom "c")]] [("delim", .text "[")])
          (some (.call "sqrt" [.atom "y"] [])) (some (.primes 2))])) = .ok read ∧
      read.withoutSpaces = .group [.symbol "alpha", .parens [.atom "x"],
        .attach (.matrix [[.atom "a", .frac (.atom "b") (.atom "c")]] [("delim", .text "[")])
          (some (.call "sqrt" [.atom "y"] [])) (some (.primes 2))] := by
  have hletter : ∀ {c : Char}, c.isAlpha → Regular {} tableNames (.atom (String.ofList [c])) := .letter
  have halpha : Regular {} tableNames (.symbol "alpha") :=
    .symbol ⟨by decide +kernel, by decide⟩ nofun
  have hparens : Regular {} tableNames (.parens [.atom "x"]) :=
    .parens (by simp) (by simp) (by simpa using hletter (by decide : 'x'.isAlpha))
  have hfrac : Regular {} tableNames (.frac (.atom "b") (.atom "c")) :=
    .frac (hletter (by decide : 'b'.isAlpha)) (hletter (by decide : 'c'.isAlpha)) nofun nofun
  have hmatrix : Regular {} tableNames
      (.matrix [[.atom "a", .frac (.atom "b") (.atom "c")]] [("delim", .text "[")]) := by
    refine .matrix (.delim (by decide)) (by simp) (by simp) ?_
    simpa using ⟨hletter (by decide : 'a'.isAlpha), hfrac⟩
  have hroot : Regular {} tableNames (.call "sqrt" [.atom "y"] []) :=
    .call ⟨by decide +kernel, by decide⟩ (by simp) (by simpa using hletter (by decide : 'y'.isAlpha))
  refine parse_written {} _ (.group (by decide) (by simp) (by simp [closesWithNumber, isNumber]) ?_)
  have hsub : ∀ node ∈ some (.call "sqrt" [.atom "y"] []), Regular {} tableNames node := by
    rintro _ ⟨⟩
    exact hroot
  have hprimed := Regular.primed hmatrix rfl hsub (by decide : 2 ≠ 0)
  simpa using ⟨halpha, hparens, hprimed⟩

end Regular

/--
A text that is read and written again.
-/
def format (style : Style) (text : String) : Except ParseError String :=
  write style <$> parseText text

/--
As in TeX there is one more line break after a comment each time. Of nested rounding brackets only
one pair is folded at a time, and an empty cell at the end of a row is written and then not read.
-/
theorem format_not_stable
    : format {} "a // c\nb" = .ok "a // c\n\nb" ∧ format {} "a // c\n\nb" = .ok "a // c\n\n\nb" ∧
      format {} "floor.l a floor.l b floor.r floor.r" = .ok "floor(a floor.l b) floor.r" ∧
      format {} "floor(a floor.l b) floor.r" = .ok "floor(a floor(b))" ∧
      format {} "mat(a, , ; b)" = .ok "mat(a,; b)" ∧ format {} "mat(a,; b)" = .ok "mat(a; b)" := by
  refine ⟨?_, ?_, ?_, ?_, ?_, ?_⟩
  all_goals exact eq_ok_of_toOption (by decide +kernel)

end Typst
end MathMarkup
