import MathMarkup.Proofs.Convert.RoundTrip

/-!
This module contains the proof of what the conversion to Typst and back does to a grid of letters
and empty cells: each row loses an empty cell at its end, and the grid then an empty row at its end.
-/

namespace MathMarkup

section DropLastOf

variable {α β : Type} [DecidableEq α] {x : α} {xs : List α}

/--
A list without its last element if that is `x`, unless it is the only one.
-/
def dropLastOf (x : α) (xs : List α) : List α :=
  if 1 < xs.length ∧ xs.getLast? = some x then xs.dropLast else xs

theorem dropLastOf_ne_nil (h : xs ≠ []) : dropLastOf x xs ≠ [] := by
  rw [dropLastOf]
  split
  next hdrop =>
    rw [← List.length_pos_iff, List.length_dropLast]
    omega
  . exact h

theorem length_dropLastOf
    : (dropLastOf x xs).length = xs.length ↔ (1 < xs.length → xs.getLast? ≠ some x) := by
  rw [dropLastOf]
  split
  next hdrop =>
    rw [List.length_dropLast]
    constructor
    . omega
    . exact fun h => absurd hdrop.2 (h hdrop.1)
  next hkept => exact ⟨fun _ hlength hlast => hkept ⟨hlength, hlast⟩, fun _ => rfl⟩

theorem dropLastOf_eq (h : 1 < xs.length → xs.getLast? ≠ some x) : dropLastOf x xs = xs :=
  if_neg fun hdrop => h hdrop.1 hdrop.2

theorem map_dropLastOf {f : α → β} {p : β → Bool} (h : ∀ y, p (f y) = decide (y = x)) (xs : List α)
    : (if 1 < (xs.map f).length && (xs.map f).getLast?.any p then (xs.map f).dropLast
        else xs.map f) = (dropLastOf x xs).map f := by
  have hlast : (xs.getLast?.map f).any p = decide (xs.getLast? = some x) := by
    cases xs.getLast? with
    | none => rfl
    | some y => simp [h]
  rw [dropLastOf, List.length_map, List.getLast?_map, hlast, ← Bool.decide_and, ← List.map_dropLast]
  simp only [decide_eq_true_eq]
  split
  all_goals rfl

end DropLastOf

abbrev Letter := { c : Char // c.isAlpha }

/--
A grid of letters and empty cells. It has one row at least, and each row one cell at least.
-/
structure LetterGrid where
  rows : List (List (Option Letter))
  rows_ne_nil : rows ≠ [] := by simp
  row_ne_nil : ∀ row ∈ rows, row ≠ [] := by simp

namespace LetterGrid

def shortened (grid : LetterGrid) : LetterGrid where
  rows := grid.rows.map (dropLastOf none)
  rows_ne_nil := by simpa using grid.rows_ne_nil
  row_ne_nil := by
    rw [List.forall_mem_map]
    exact fun row hrow => dropLastOf_ne_nil (grid.row_ne_nil row hrow)

/--
The rows of the grid without the row of one empty cell at its end.
-/
def fullRows (grid : LetterGrid) : List (List (Option Letter)) :=
  dropLastOf [none] grid.rows

theorem shape_shortened_iff {grid : LetterGrid} (hlast : grid.rows.getLast? ≠ some [none])
    : grid.shortened.fullRows.map List.length = grid.rows.map List.length ↔
      ∀ row ∈ grid.rows, 1 < row.length → row.getLast? ≠ some none := by
  constructor
  . intro hshape row hrow
    have hlength : grid.shortened.fullRows.length = grid.shortened.rows.length := by
      have := congrArg List.length hshape
      simpa [shortened] using this
    rw [fullRows, dropLastOf_eq (length_dropLastOf.mp hlength), shortened, List.map_map] at hshape
    exact length_dropLastOf.mp (List.map_inj_left.mp hshape row hrow)
  . intro hrows
    have hshort : grid.shortened.rows = grid.rows := by
      conv_rhs => rw [← List.map_id grid.rows]
      exact List.map_congr_left fun row hrow => dropLastOf_eq (hrows row hrow)
    rw [fullRows, hshort, dropLastOf_eq fun _ => hlast]

end LetterGrid

theorem dropWhile_ends {α : Type} {p : α → Bool} {front inner back : List α}
    (hfront : ∀ x ∈ front, p x) (hinner : ∀ x ∈ inner, p x = false) (hback : ∀ x ∈ back, p x)
    : (((front ++ (inner ++ back)).dropWhile p).reverse.dropWhile p).reverse = inner := by
  have hkept : ∀ xs : List α, (∀ x ∈ xs, p x = false) → xs.dropWhile p = xs := by
    intro xs hxs
    cases xs with
    | nil => rfl
    | cons x xs => exact List.dropWhile_cons_of_neg (by simp [hxs x List.mem_cons_self])
  rw [List.dropWhile_append_of_pos hfront]
  cases inner with
  | nil =>
    rw [List.nil_append, ← List.append_nil back, List.dropWhile_append_of_pos hback]
    rfl
  | cons x inner =>
    have hx : ¬ p x = true := by simp [hinner x List.mem_cons_self]
    rw [List.cons_append, List.dropWhile_cons_of_neg hx, ← List.cons_append, List.reverse_append,
      List.dropWhile_append_of_pos (by simpa using hback), hkept, List.reverse_reverse]
    intro y hy
    exact hinner y (List.mem_reverse.mp hy)

theorem eq_nil_of_lexemes {κ : Type} {p : Token κ → Bool} {front own : List (Token κ)}
    {lexeme : κ × String} {more : List (κ × String)} (hfront : ∀ token ∈ front, p token)
    (h : (front ++ own).map Token.lexeme = lexeme :: more)
    (hfirst : ∀ token : Token κ, token.lexeme = lexeme → p token = false) : front = [] := by
  cases front with
  | nil => rfl
  | cons token front =>
    have htoken := hfront token List.mem_cons_self
    rw [hfirst token (List.cons.inj h).1] at htoken
    contradiction

namespace Tex

open Formula

def Formula.ofCell : Option Letter → Formula
  | none => .empty
  | some letter => .element (String.ofList [letter.val])

def Formula.ofRows (name : String) (rows : List (List (Option Letter))) : Formula :=
  .env name none (rows.map (List.map ofCell))

section Grids

variable {inDegree : Bool} {name : String}

theorem regular_ofCell (cell : Option Letter) : Regular inDegree (ofCell cell) := by
  cases cell with
  | none => exact .empty
  | some letter => exact .char (.inl letter.property)

theorem atomic_letter {token : Token} {letter : Letter}
    (h : token.lexeme = (.element, String.ofList [letter.val]))
    : Atomic [token] (.element (String.ofList [letter.val])) := by
  have htext : token.text = String.ofList [letter.val] := congrArg Prod.snd h
  rw [← htext]
  apply atomic_element (congrArg Prod.fst h)
  rw [htext, ← String.toList_inj.ne, String.toList_ofList]
  intro heq
  obtain ⟨c, hc⟩ := letter
  cases heq
  contradiction

theorem readableCell_ofCell (cell : Option Letter) : ReadableCell inDegree id (ofCell cell) := by
  intro front tokens back hfront htokens hback
  have hreadable := (@regular_ofCell inDegree cell).readable.readableCell
  refine ⟨(hreadable front tokens back hfront htokens hback).paired, ?_⟩
  have hspaces : ∀ gap : List Token, ∀ node ∈ gap.map fun token => Formula.space token.text,
      node.isSpace := by
    simp [Formula.isSpace]
  cases cell with
  | none =>
    rw [ofCell, pieces] at htokens
    cases htokens.eq_nil
    refine ⟨_, (readsAs_gap hfront).append (readsAs_gap hback), ?_⟩
    exact congrArg ofList
      (@dropWhile_ends _ _ _ [] _ (hspaces front) (List.forall_mem_nil _) (hspaces back))
  | some letter =>
    rw [ofCell, pieces] at htokens
    obtain ⟨gap, token, rest, rfl, hgap, htoken, hrest, _⟩ :=
      htokens.token_inv (lex_char String.toList_ofList (isWord_char (.inl letter.property)))
    cases hrest.eq_nil
    have hreads := (readsAs_gap (hfront.append hgap)).append
      ((atomic_letter htoken).readsAs.append (readsAs_gap hback))
    have hlist : front ++ (gap ++ [token] ++ back) = (front ++ gap) ++ ([token] ++ back) := by simp
    rw [hlist]
    refine ⟨_, hreads, ?_⟩
    exact congrArg ofList (@dropWhile_ends _ _ _ [.element (String.ofList [letter.val])] _
      (hspaces (front ++ gap)) (by simp [Formula.isSpace]) (hspaces back))

theorem withoutEmptyRow_map_ofCell (grid : LetterGrid)
    : GridItem.withoutEmptyRow (grid.rows.map (List.map ofCell)) =
      grid.fullRows.map (List.map ofCell) := by
  refine map_dropLastOf (fun row => ?_) grid.rows
  match row with
  | [] => rfl
  | [none] => rfl
  | [some letter] => rfl
  | _ :: _ :: _ => simp [GridItem.isEmptyRow]

theorem parse_write_ofRows (hhead : GridHead name none) (grid : LetterGrid)
    : parse (tokenize (write (ofRows name grid.rows))) = .ok (ofRows name grid.fullRows) := by
  have hcells : ∀ row ∈ grid.rows.map (List.map ofCell), ∀ cell ∈ row, Regular false cell := by
    simp only [List.forall_mem_map]
    exact fun row _ cell _ => regular_ofCell cell
  have hreads : ∀ row ∈ grid.rows.map (List.map ofCell), ∀ cell ∈ row,
      ReadableCell false id cell := by
    simp only [List.forall_mem_map]
    exact fun row _ cell _ => readableCell_ofCell cell
  have hrow : ∀ row ∈ grid.rows.map (List.map ofCell), row ≠ [] := by
    simp only [List.forall_mem_map, ne_eq, List.map_eq_nil_iff]
    exact grid.row_ne_nil
  have hfits : Fits (ofRows name grid.rows).pieces := by
    have := @fits_env [] _ _ _ hhead (fun row hrow cell hcell =>
      have hcell := hcells row hrow cell hcell
      ⟨hcell.spares_marker, hcell.fitting.closable⟩) .nil
    rwa [List.append_nil] at this
  obtain ⟨hlexemes, hstripped⟩ := lexemes_of_fits hfits (ends_env hhead)
  have hspells := spells_of_fits hfits (ends_env hhead)
  obtain ⟨gap, own, table, htokens, hgap, _, htable, hatomic⟩ := atomic_of_spells_env hhead
    (by simpa using grid.rows_ne_nil) hrow hreads hspells
  have hstart : gap = [] := by
    have hbegin := @lex_raw_alone "begin".toList name.toList (by simp) hhead.isAlpha
    have htext : ("\\begin\x7b" ++ name ++ "\x7d").toList =
        '\\' :: "begin".toList ++ '{' :: name.toList ++ ['}'] := by
      simp
    rw [htokens, ofRows, pieces_env, Line.lexemes, Piece.lexemes, htext, hbegin] at hlexemes
    exact eq_nil_of_lexemes hgap hlexemes fun _ h => (begins_command (congrArg Prod.fst h)).isSpace
  rw [hstart, List.nil_append] at htokens
  rw [List.map_id_fun, List.map_id] at htable
  rw [htable, withoutEmptyRow_map_ofCell] at hatomic
  rw [parse, hstripped, htokens, hatomic.readsAs.sequence_eq]
  rfl

end Grids

end Tex

namespace Typst

open Formula

def Formula.ofCell : Option Letter → Formula
  | none => .empty
  | some letter => .atom (String.ofList [letter.val])

/--
Tokens that hold a letter or nothing.
-/
structure LetterReading (cell : Option Letter) (part : List Token) : Prop where
  nested : Nested Whole part
  reads : LooseCell part (ofCell cell)
  not_blank : cell ≠ none → isBlankPart part = false

/--
Tokens that hold a row of letters and empty cells.
-/
structure LetterRowReading (isSep : Token → Bool) (separator : Lexeme) (row : List (Option Letter))
    (part : List Token) : Prop where
  nested : Nested (fun token => Whole token ∨ token.lexeme = separator) part
  reads : LooseRow isSep part (row.map ofCell) []
  not_blank : row ≠ [none] → isBlankPart part = false

section Grids

variable {style : Style} {afterName : Bool} {tokens gap : List Token} {row : List (Option Letter)}
  {isSep : Token → Bool} {separator : String} {lexeme : Lexeme}

theorem cell_gap (hgap : IsGap gap) : Parser.cell gap = .ok .empty := by
  have htrim : trimSpaces (spacesOf gap) = [] := by
    have := @dropWhile_ends _ Formula.isSpace (spacesOf gap) [] [] isSpace_of_mem_spacesOf nofun
      nofun
    rwa [List.append_nil, List.append_nil] at this
  rw [Parser.cell, (readsAs_gap hgap).sequence_eq]
  simp only [bind, Except.bind, htrim]
  rfl

theorem namedArgument?_gap (hgap : IsGap gap) : namedArgument? gap = none := by
  have hblanks : Token.countFront Token.isSpace gap = gap.length := by
    have := @List.takeWhile_append_of_pos _ Token.isSpace gap [] hgap
    rw [List.append_nil, List.takeWhile_nil, List.append_nil] at this
    rw [Token.countFront, this]
  unfold namedArgument?
  rw [hblanks]
  simp only [List.drop_length]

theorem spelling_ofCell (cell : Option Letter)
    : (ofCell cell).spelling style =
      match cell with
      | none => []
      | some letter => [.token (String.ofList [letter.val])] := by
  cases cell with
  | none => rw [ofCell, spelling, pieces]
  | some letter => exact (@Regular.letter style anyNames _ letter.property).spelling_atom

theorem letterReading (cell : Option Letter)
    (h : Spells afterName ((ofCell cell).spelling style) tokens) (hgap : IsGap gap)
    : LetterReading cell (tokens ++ gap) := by
  cases cell with
  | none =>
    rw [spelling_ofCell] at h
    cases h.eq_nil
    exact ⟨nested_gap hgap, ⟨cell_gap hgap, namedArgument?_gap hgap⟩, absurd rfl⟩
  | some letter =>
    have hregular := @Regular.letter style anyNames _ letter.property
    obtain ⟨hnested, _, hcell, _⟩ := hregular.readable.cellReading hregular h hgap
    refine ⟨hnested, ⟨?_, hcell.unnamed⟩, fun _ => hcell.not_blank⟩
    rw [spelling_ofCell] at h
    obtain ⟨hlex, hsimple⟩ := @simple_letter anyNames _ letter.property
    obtain ⟨before, token, rest, rfl, hbefore, htoken, hrest, _⟩ := h.single_inv hlex
    cases hrest.eq_nil
    have hatomic := atomic_simple htoken hsimple
    obtain ⟨spaces, hreads, hspaces⟩ := (Argument.intro hbefore hatomic).readsAs
    have htrim := @dropWhile_ends _ _ _ [.atom (String.ofList [letter.val])] _ hspaces
      (by simp [Formula.isSpace]) (@isSpace_of_mem_spacesOf gap)
    rw [Parser.cell, hreads.sequence_gap hgap, List.append_assoc]
    exact congrArg (fun nodes => Except.ok (Formula.ofList nodes)) htrim

theorem isBlankPart_of_joined (hspace : ∀ token, isSep token → token.isSpace = false)
    {first next : List Token} {parts : List (List Token)}
    (h : Joined isSep tokens (first :: next :: parts)) : isBlankPart tokens = false := by
  cases h with
  | cons _ hsep => simp [isBlankPart, hspace _ hsep]

theorem Separator.letterRowReading (hseparator : Separator separator lexeme isSep)
    (hwhole : ∀ token, Whole token → isSep token = false)
    (hspace : ∀ token, isSep token → token.isSpace = false) (hne : row ≠ [])
    (h : Spells afterName
      (separated [.token separator] ((row.map ofCell).map (spelling style))) tokens)
    (hgap : IsGap gap) : LetterRowReading isSep lexeme row (tokens ++ gap) := by
  rw [List.map_map] at h
  obtain ⟨parts, hjoined, hparts, hnested⟩ := hseparator.exists_joined hwhole hne
    (fun cell _ _ _ _ h hgap => letterReading cell h hgap) (fun _ _ h => h.nested) h hgap
  have hcells : List.Forall₂ LooseCell parts (row.map ofCell) := by
    rw [List.forall₂_map_right_iff]
    exact hparts.flip.imp fun _ _ hpart => hpart.reads
  refine ⟨hnested, ⟨?_, by simpa using hne⟩, fun hblank => ?_⟩
  . rw [hjoined.split_eq, arguments_eq hcells]
  . cases hparts with
    | nil => contradiction
    | cons hpart hmore =>
      cases hmore with
      | nil => exact hjoined.isBlankPart_eq_false (hpart.not_blank (by simpa using hblank))
      | cons => exact isBlankPart_of_joined hspace hjoined

/--
The rows of a grid of letters and empty cells. The last of them is not blank, since it does not
consist of an empty cell.
-/
theorem Separator.exists_letterRows {rowSeparator : String} {rowLexeme : Lexeme}
    {isRowSep : Token → Bool} (hrow : Separator rowSeparator rowLexeme isRowSep)
    (hcell : Separator separator lexeme isSep)
    (hrowSep : ∀ token, Whole token ∨ token.lexeme = lexeme → isRowSep token = false)
    (hcellSep : ∀ token, Whole token → isSep token = false)
    (hspace : ∀ token, isSep token → token.isSpace = false) {grid : LetterGrid}
    (hlast : grid.rows.getLast? ≠ some [none])
    (h : Spells afterName (Formula.grid [.token rowSeparator] [.token separator]
      ((grid.rows.map (List.map ofCell)).map (List.map (spelling style)))) tokens)
    : Nested (fun _ => True) tokens ∧ ∃ parts, Joined isRowSep tokens parts ∧
      List.Forall₂ (fun part row => LooseRow isSep part row []) parts
        (grid.rows.map (List.map ofCell)) ∧
      ∀ part ∈ parts.getLast?, isBlankPart part = false := by
  rw [Formula.grid, List.map_map, List.map_map] at h
  obtain ⟨parts, hjoined, hparts, hnested⟩ := hrow.exists_joined hrowSep grid.rows_ne_nil
    (fun row hmem _ _ _ h hgap =>
      hcell.letterRowReading hcellSep hspace (grid.row_ne_nil row hmem) h hgap)
    (fun _ _ h => h.nested) h isGap_nil
  rw [List.append_nil] at hjoined hnested
  refine ⟨hnested.mono fun _ _ => trivial, parts, hjoined, ?_, ?_⟩
  . rw [List.forall₂_map_right_iff]
    exact hparts.flip.imp fun _ _ hpart => hpart.reads
  . intro part hpart
    obtain ⟨row, hmem, hreading⟩ := exists_of_getLast? hparts.flip hpart
    apply hreading.not_blank
    rintro rfl
    exact hlast hmem

theorem parseText_write_call {name : String} {tree node : Formula} {spelled : List Piece}
    (hname : Symbol.TypstName name)
    (hspelling : tree.spelling style = .token (name ++ "(") :: (spelled ++ [.token ")"]))
    (hfits : Fits (tree.spelling style))
    (hbody : ∀ body, Spells false spelled body →
      Nested (fun _ => True) body ∧ Parser.call name body = .ok node)
    : parseText (write style tree) = .ok node := by
  have hlexemes : (tokenize (write style tree)).map Token.lexeme =
      (.symbol, name) :: (.element, "(") ::
        lex (Line.emit (Line.push {} (name ++ "(")) (spelled ++ [.token ")"])) := by
    have hopen : Line.emit {} (tree.spelling style) =
        name.toList ++ '(' :: Line.emit (Line.push {} (name ++ "(")) (spelled ++ [.token ")"]) := by
      rw [hspelling, Line.emit]
      simp [Line.gap, Line.needsSpace]
    rw [tokenize_lexemes, toList_write hfits, hopen, lex_call hname]
  have hspells := spells_of_fits hfits
  rw [hspelling] at hspells
  obtain ⟨gap, own, body, htokens, hgap, hspells, hread⟩ := hspells.call_inv hname
  obtain ⟨hnested, hcall⟩ := hbody body hspells
  obtain ⟨hown, hatomic⟩ := hread hnested
  have hstart : gap = [] := by
    rw [htokens] at hlexemes
    exact eq_nil_of_lexemes hgap hlexemes fun _ h => (begins_symbol (congrArg Prod.fst h)).isSpace
  rw [hstart, List.nil_append] at htokens
  rw [parseText, htokens, parse_of_readsAs hown (hatomic node hcall).readsAs]
  rfl

theorem uniform_ofCell (cell : Option Letter) : Uniform style (ofCell cell) := by
  cases cell with
  | none =>
    intro cx
    rw [spelling_ofCell, ofCell, pieces]
  | some letter => exact (@Regular.letter style anyNames _ letter.property).pieces_eq

theorem fitting_ofCell (cell : Option Letter) : Fitting style (ofCell cell) := by
  cases cell with
  | none =>
    intro more hmore _
    rw [spelling_ofCell]
    exact hmore
  | some letter => exact (@Regular.letter style anyNames _ letter.property).fitting

theorem uniform_rows (style : Style) (grid : LetterGrid)
    : ∀ row ∈ grid.rows.map (List.map ofCell), ∀ cell ∈ row, Uniform style cell := by
  simp only [List.forall_mem_map]
  exact fun row _ cell _ => uniform_ofCell cell

theorem fitting_rows (style : Style) (grid : LetterGrid)
    : ∀ row ∈ grid.rows.map (List.map ofCell), ∀ cell ∈ row, Fitting style cell := by
  simp only [List.forall_mem_map]
  exact fun row _ cell _ => fitting_ofCell cell

theorem map_dropEmptyLast (grid : LetterGrid)
    : (grid.rows.map (List.map ofCell)).map dropEmptyLast =
      grid.shortened.rows.map (List.map ofCell) := by
  rw [LetterGrid.shortened, List.map_map, List.map_map]
  apply List.map_congr_left
  intro row _
  refine map_dropLastOf (fun cell => ?_) row
  cases cell
  all_goals rfl

theorem isSpace_of_isComma {token : Token} (h : token.isComma) : token.isSpace = false := by
  have hkind : token.kind = .element := congrArg Prod.fst (is_iff.mp h)
  simp [Token.isSpace, hkind]

theorem isSpace_of_isAlignment {token : Token} (h : token.isAlignment) : token.isSpace = false := by
  have hkind : token.kind = .control := congrArg Prod.fst (is_iff.mp h)
  simp [Token.isSpace, hkind]

section Reads

variable {grid : LetterGrid} (hlast : grid.rows.getLast? ≠ some [none])

include hlast

theorem parseText_write_cases
    : parseText (write style (.cases (grid.rows.map (List.map ofCell)) [])) =
      .ok (.cases (grid.shortened.rows.map (List.map ofCell)) []) := by
  have hfits := fits_cases (uniform_rows style grid) (fitting_rows style grid) .nil
  rw [List.append_nil] at hfits
  rw [← map_dropEmptyLast]
  refine @parseText_write_call _ "cases" _ _ _ ⟨_, rfl, rfl⟩
    (spelling_cases (uniform_rows style grid)) hfits ?_
  intro body hbody
  obtain ⟨hnested, parts, hjoined, hparts, hfull⟩ := separator_comma.exists_letterRows
    separator_alignment (fun _ => isComma_of_whole_or_alignment) (fun _ => isAlignment_of_whole)
    (fun _ => isSpace_of_isAlignment) hlast hbody
  exact ⟨hnested, call_cases_loose hjoined hfull hparts⟩

theorem parseText_write_matrix {named : List (String × Formula)} (hnamed : MatrixNamed named)
    : parseText (write style (.matrix (grid.rows.map (List.map ofCell)) named)) =
      .ok (.matrix (grid.shortened.rows.map (List.map ofCell)) named) := by
  have hne : grid.rows.map (List.map ofCell) ≠ [] := by simpa using grid.rows_ne_nil
  have hfits := fits_matrix hnamed hne (uniform_rows style grid) (fitting_rows style grid) .nil
  rw [List.append_nil] at hfits
  have hspelling := spelling_matrix (uniform_rows style grid) hnamed hne
  rw [← List.append_assoc] at hspelling
  rw [← map_dropEmptyLast]
  refine @parseText_write_call _ "mat" _ _ _ ⟨_, rfl, rfl⟩ hspelling hfits ?_
  intro body hbody
  obtain ⟨front, body, rfl, hfront, hbody⟩ := hbody.append_inv
  obtain ⟨hnested, parts, hjoined, hparts, hfull⟩ := separator_semicolon.exists_letterRows
    separator_comma (fun _ => isSemicolon_of_whole_or_comma) (fun _ => isComma_of_whole)
    (fun _ => isSpace_of_isComma) hlast hbody
  generalize grid.rows.map (List.map ofCell) = rows at hparts hne ⊢
  cases hparts with
  | nil => contradiction
  | @cons first _ parts _ hrow hmore =>
    rcases hfront.delim_inv hnamed with ⟨rfl, rfl⟩ | ⟨part, comma, rfl, hcomma, hdelim⟩
    . exact ⟨hnested, call_matrix_loose hjoined hfull hrow hmore⟩
    . obtain ⟨hfrontNested, hall⟩ := hdelim.joined hcomma hjoined
      refine ⟨hfrontNested.append hnested,
        call_matrix_loose hall ?_ (hdelim.looseRow hcomma hrow) hmore⟩
      -- The delimiter stands in the first part, so that only a further part could be blank.
      intro last hmem
      cases parts with
      | nil =>
        cases hmem
        exact hdelim.isBlankPart_append _
      | cons next parts =>
        rw [List.getLast?_cons_cons] at hmem hfull
        exact hfull last hmem

end Reads

end Grids

end Typst

section Conversion

theorem matches_ofCell (cell : Option Letter)
    : Tex.Formula.Matches {} (Tex.Formula.ofCell cell) (Typst.Formula.ofCell cell) := by
  cases cell with
  | none => exact ⟨rfl, rfl, nofun, nofun, nofun⟩
  | some letter => exact matches_letter letter.property

theorem each_ofCell (row : List (Option Letter))
    : Typst.Formula.eachOfTex {} (row.map Tex.Formula.ofCell) = .ok (row.map Typst.Formula.ofCell) ∧
      Tex.Formula.eachOfTypst {} (row.map Typst.Formula.ofCell) =
        .ok (row.map Tex.Formula.ofCell) := by
  induction row with
  | nil => exact ⟨rfl, rfl⟩
  | cons cell row ih =>
    have hcell := matches_ofCell cell
    exact ⟨Tex.Formula.eachOfTex_cons hcell.forth ih.1,
      Tex.Formula.eachOfTypst_cons hcell.back ih.2⟩

theorem rows_ofCell (rows : List (List (Option Letter)))
    : Typst.Formula.rowsOfTex {} (rows.map (List.map Tex.Formula.ofCell)) =
        .ok (rows.map (List.map Typst.Formula.ofCell)) ∧
      Tex.Formula.rowsOfTypst {} (rows.map (List.map Typst.Formula.ofCell)) =
        .ok (rows.map (List.map Tex.Formula.ofCell)) := by
  induction rows with
  | nil => exact ⟨rfl, rfl⟩
  | cons row rows ih =>
    have hrow := each_ofCell row
    exact ⟨Tex.Formula.bind_bind_of_ok hrow.1 ih.1, Tex.Formula.bind_bind_of_ok hrow.2 ih.2⟩

/--
The Typst formula that a grid becomes in an environment of this name.
-/
structure GridForm (name : String) (build : List (List Typst.Formula) → Typst.Formula) : Prop where
  head : Tex.Formula.GridHead name none
  forth : ∀ rows, Typst.OfTex.environment {} name none rows = .ok (build rows)
  back : ∀ images rows, Tex.Formula.rowsOfTypst {} images = .ok rows →
    Tex.Formula.ofTypst {} (build images) = .ok (.env name none rows)
  reads : ∀ grid : LetterGrid, grid.rows.getLast? ≠ some [none] →
    Typst.parseText (Typst.write ({} : Options).style
      (build (grid.rows.map (List.map Typst.Formula.ofCell)))) =
        .ok (build (grid.shortened.rows.map (List.map Typst.Formula.ofCell)))

theorem gridForm_cases : GridForm "cases" (.cases · []) where
  head := .plain (by decide) (by decide)
  forth _ := rfl
  back _ _ h := Tex.Formula.bind_of_ok h
  reads _ hlast := Typst.parseText_write_cases hlast

theorem gridForm_matrix {name : String} {delim : Typst.Formula}
    (hhead : Tex.Formula.GridHead name none)
    (hforth : ∀ rows,
      Typst.OfTex.environment {} name none rows = .ok (.matrix rows [("delim", delim)]))
    (hback : ∀ rows, Tex.OfTypst.matrix {} [("delim", delim)] rows = .ok (.env name none rows))
    (hnamed : Typst.Formula.MatrixNamed [("delim", delim)])
    : GridForm name (.matrix · [("delim", delim)]) where
  head := hhead
  forth := hforth
  back _ _ h := (Tex.Formula.bind_of_ok h).trans (hback _)
  reads _ hlast := Typst.parseText_write_matrix hlast hnamed

theorem exists_gridForm {name : String} (h : name ∈ matrixNames ∨ name = "cases")
    : ∃ build, GridForm name build := by
  have hhead : ∀ name ∈ matrixNames, Tex.Formula.GridHead name none := fun name hmem =>
    .plain ((by decide : ∀ name ∈ matrixNames, ∀ c ∈ name.toList, c.isAlpha) name hmem)
      ((by decide : ∀ name ∈ matrixNames, name ≠ "array") name hmem)
  rcases h with h | rfl
  . have hhead := hhead name h
    simp only [matrixNames, List.mem_cons, List.not_mem_nil, or_false] at h
    rcases h with rfl | rfl | rfl | rfl | rfl | rfl
    . exact ⟨_, gridForm_matrix hhead (fun _ => rfl) (fun _ => rfl) .bare⟩
    all_goals
      exact ⟨_, gridForm_matrix hhead (fun _ => rfl) (fun _ => rfl) (.delim (by decide))⟩
  . exact ⟨_, gridForm_cases⟩

section RoundTrip

variable {name : String} {build : List (List Typst.Formula) → Typst.Formula} {grid : LetterGrid}
  (hform : GridForm name build) (hlast : grid.rows.getLast? ≠ some [none])

include hform hlast

theorem texToTypst_write_ofRows
    : texToTypst {} (Tex.write (.ofRows name grid.rows)) =
      .ok (Typst.write ({} : Options).style
        (build (grid.rows.map (List.map Typst.Formula.ofCell)))) := by
  have hfull : grid.fullRows = grid.rows := dropLastOf_eq fun _ => hlast
  have hforth : Typst.Formula.ofTex {} (.ofRows name grid.rows) =
      .ok (build (grid.rows.map (List.map Typst.Formula.ofCell))) :=
    (Tex.Formula.bind_of_ok (rows_ofCell _).1).trans (hform.forth _)
  have hparse := Tex.parse_write_ofRows hform.head grid
  rw [hfull] at hparse
  exact texToTypst_eq_ok ((parse_tokenize_default _).trans hparse) hforth

theorem typstToTex_write_ofRows
    : typstToTex {} (Typst.write ({} : Options).style
        (build (grid.rows.map (List.map Typst.Formula.ofCell)))) =
      .ok (Tex.write (.ofRows name grid.shortened.rows)) := by
  have hback := hform.back _ _ (rows_ofCell grid.shortened.rows).2
  exact typstToTex_eq_ok (hform.reads grid hlast) hback

end RoundTrip

/--
A grid that is converted to Typst and back keeps its letters, but loses the empty cells at the ends
of its rows and after that an empty row at its end.
-/
theorem typstToTex_texToTypst_grid {name : String} (hname : name ∈ matrixNames ∨ name = "cases")
    (grid : LetterGrid) (hlast : grid.rows.getLast? ≠ some [none])
    : ∃ typst tex, texToTypst {} (Tex.write (.ofRows name grid.rows)) = .ok typst ∧
      typstToTex {} typst = .ok tex ∧
      Tex.parseText tex = .ok (.ofRows name grid.shortened.fullRows) ∧
      (grid.shortened.fullRows.map List.length = grid.rows.map List.length ↔
        ∀ row ∈ grid.rows, 1 < row.length → row.getLast? ≠ some none) := by
  obtain ⟨build, hform⟩ := exists_gridForm hname
  exact ⟨_, _, texToTypst_write_ofRows hform hlast, typstToTex_write_ofRows hform hlast,
    Tex.parse_write_ofRows hform.head grid.shortened, LetterGrid.shape_shortened_iff hlast⟩

theorem typstToTex_texToTypst_grid_ragged
    : ∃ typst tex, texToTypst {} (Tex.write (.env "cases" none
        [[.empty, .empty, .element "a"], [.empty], [.element "b", .empty, .empty]])) = .ok typst ∧
      typstToTex {} typst = .ok tex ∧
      Tex.parseText tex = .ok (.env "cases" none
        [[.empty, .empty, .element "a"], [.empty], [.element "b", .empty]]) := by
  let grid : LetterGrid :=
    { rows := [[none, none, some ⟨'a', rfl⟩], [none], [some ⟨'b', rfl⟩, none, none]] }
  obtain ⟨typst, tex, hforth, hback, hparse, _⟩ :=
    typstToTex_texToTypst_grid (.inr rfl) grid (by decide)
  exact ⟨typst, tex, hforth, hback, hparse⟩

/--
The empty cell at the end of the first row is written in Typst but not read.
-/
theorem empty_cell_lost_at_row_end
    : texToTypst {} "\\begin\x7bpmatrix\x7d\na & \\\\\nc & d\n\\end\x7bpmatrix\x7d" =
        .ok "mat(delim: \"(\", a,; c, d)" ∧
      typstToTex {} "mat(delim: \"(\", a,; c, d)" =
        .ok "\\begin\x7bpmatrix\x7d\na \\\\\nc & d\n\\end\x7bpmatrix\x7d" := by
  let grid : LetterGrid := { rows := [[some ⟨'a', rfl⟩, none], [some ⟨'c', rfl⟩, some ⟨'d', rfl⟩]] }
  have hform : GridForm "pmatrix" (.matrix · [("delim", .text "(")]) :=
    gridForm_matrix (.plain (by decide) (by decide)) (fun _ => rfl) (fun _ => rfl)
      (.delim (by decide))
  have hlast : grid.rows.getLast? ≠ some [none] := by decide
  have hforth := texToTypst_write_ofRows hform hlast
  have hback := typstToTex_write_ofRows hform hlast
  have htex : Tex.write (.ofRows "pmatrix" grid.rows) =
      "\\begin\x7bpmatrix\x7d\na & \\\\\nc & d\n\\end\x7bpmatrix\x7d" := by
    decide +kernel
  have htypst : Typst.write ({} : Options).style (.matrix
      (grid.rows.map (List.map Typst.Formula.ofCell)) [("delim", .text "(")]) =
        "mat(delim: \"(\", a,; c, d)" := by
    decide +kernel
  have hshort : Tex.write (.ofRows "pmatrix" grid.shortened.rows) =
      "\\begin\x7bpmatrix\x7d\na \\\\\nc & d\n\\end\x7bpmatrix\x7d" := by
    decide +kernel
  rw [htex, htypst] at hforth
  rw [htypst, hshort] at hback
  exact ⟨hforth, hback⟩

end Conversion

end MathMarkup
