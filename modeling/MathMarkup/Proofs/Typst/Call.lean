import Mathlib.Data.List.Forall2
import MathMarkup.Proofs.Typst.Reading

/-!
This module contains how a call is read from what stands between its parentheses: its arguments, the
rows of a grid, or a body between delimiters.
-/

namespace MathMarkup
namespace Typst

/--
A part that is read as an argument or a cell, which may be empty.
-/
structure LooseCell (part : List Token) (node : Formula) : Prop where
  cell : Parser.cell part = .ok node
  unnamed : namedArgument? part = none

/--
A part that is read as an argument or a cell.
-/
structure Cell (part : List Token) (node : Formula) : Prop extends LooseCell part node where
  not_blank : isBlankPart part = false
  not_empty : node.isEmpty = false

/--
A part that is read as a row, possibly with named arguments before its first cell. Cells may be
empty.
-/
structure LooseRow (isSep : Token → Bool) (part : List Token) (row : List Formula)
    (named : List (String × Formula)) : Prop where
  arguments : Parser.arguments (split isSep part) = .ok (row, named)
  nonempty : row ≠ []

/--
A part that is read as a row without empty cells.
-/
structure Row (isSep : Token → Bool) (part : List Token) (row : List Formula)
    (named : List (String × Formula)) : Prop extends LooseRow isSep part row named where
  not_empty : ∀ node ∈ row, node.isEmpty = false
  not_blank : isBlankPart part = false

section Arguments

variable {isSep : Token → Bool} {part body : List Token} {parts : List (List Token)}
  {args row : List Formula} {rows : List (List Formula)} {named : List (String × Formula)}

theorem arguments_eq (h : List.Forall₂ LooseCell parts args)
    : Parser.arguments parts = .ok (args, []) := by
  induction h with
  | nil => rw [Parser.arguments]
  | cons hcell _ ih =>
    rw [Parser.arguments, hcell.unnamed]
    simp only [hcell.cell, ih, bind, Except.bind]
    rfl

theorem dropBlankLast_eq (h : ∀ part ∈ parts.getLast?, isBlankPart part = false)
    : dropBlankLast parts = parts := by
  unfold dropBlankLast
  cases hlast : parts.getLast? with
  | none => rfl
  | some part => simp [h part hlast]

theorem dropEmptyLast_ne_nil (h : row ≠ []) : dropEmptyLast row ≠ [] := by
  rw [dropEmptyLast]
  split
  next hdrop =>
    rw [Bool.and_eq_true, decide_eq_true_eq] at hdrop
    rw [← List.length_pos_iff, List.length_dropLast]
    omega
  . exact h

theorem dropEmptyLast_eq (h : ∀ node ∈ row, node.isEmpty = false) : dropEmptyLast row = row := by
  unfold dropEmptyLast
  cases hlast : row.getLast? with
  | none => simp
  | some node => simp [h node (List.mem_of_getLast? hlast)]

theorem map_dropEmptyLast_eq (h : List.Forall₂ (fun part row => Row isSep part row []) parts rows)
    : rows.map dropEmptyLast = rows := by
  induction h with
  | nil => rfl
  | cons hrow _ ih => rw [List.map_cons, dropEmptyLast_eq hrow.not_empty, ih]

theorem consRow_eq (h : row ≠ []) : consRow row rows = row :: rows := by
  rw [consRow, if_neg]
  rwa [List.isEmpty_iff]

theorem rows_eq (h : List.Forall₂ (fun part row => LooseRow isSep part row []) parts rows)
    : Parser.rows isSep parts = .ok (rows.map dropEmptyLast, []) := by
  induction h with
  | nil => rw [Parser.rows, List.map_nil]
  | cons hrow _ ih =>
    rw [Parser.rows, hrow.arguments]
    simp only [ih, bind, Except.bind, consRow_eq (dropEmptyLast_ne_nil hrow.nonempty)]
    rfl

theorem rows_cons (hrow : LooseRow isSep part row named)
    (h : List.Forall₂ (fun part row => LooseRow isSep part row []) parts rows)
    : Parser.rows isSep (part :: parts) = .ok ((row :: rows).map dropEmptyLast, named) := by
  rw [Parser.rows, hrow.arguments]
  simp only [rows_eq h, bind, Except.bind, consRow_eq (dropEmptyLast_ne_nil hrow.nonempty),
    List.append_nil]
  rfl

theorem exists_of_getLast? {α β : Type} {r : α → β → Prop} {xs : List α} {ys : List β}
    (h : List.Forall₂ r xs ys) {x : α} (hx : x ∈ xs.getLast?) : ∃ y ∈ ys.getLast?, r x y := by
  induction h with
  | nil => contradiction
  | @cons x' y' xs ys hxy hmore ih =>
    cases hmore with
    | nil =>
      cases hx
      exact ⟨y', rfl, hxy⟩
    | cons =>
      rw [List.getLast?_cons_cons] at hx ⊢
      exact ih hx

theorem call_eq {name : String} (hname : name ∉ ["mat", "cases", "lr"])
    (hbody : Joined Token.isComma body parts) (h : List.Forall₂ Cell parts args)
    : Parser.call name body = .ok (.call name args []) := by
  have hlast : ∀ part ∈ parts.getLast?, isBlankPart part = false := by
    intro part hpart
    obtain ⟨node, _, hcell⟩ := exists_of_getLast? h hpart
    exact hcell.not_blank
  simp only [List.mem_cons, List.not_mem_nil, or_false, not_or] at hname
  unfold Parser.call
  split
  case h_4 =>
    rw [hbody.split_eq, dropBlankLast_eq hlast,
      arguments_eq (h.imp fun _ _ hcell => hcell.toLooseCell)]
    rfl
  all_goals simp_all

theorem call_cases_loose (hbody : Joined Token.isComma body parts)
    (hlast : ∀ part ∈ parts.getLast?, isBlankPart part = false)
    (h : List.Forall₂ (fun part row => LooseRow Token.isAlignment part row []) parts rows)
    : Parser.call "cases" body = .ok (.cases (rows.map dropEmptyLast) []) := by
  rw [Parser.call, hbody.split_eq, dropBlankLast_eq hlast, rows_eq h]
  rfl

theorem call_cases (hbody : Joined Token.isComma body parts)
    (h : List.Forall₂ (fun part row => Row Token.isAlignment part row []) parts rows)
    : Parser.call "cases" body = .ok (.cases rows []) := by
  have hlast : ∀ part ∈ parts.getLast?, isBlankPart part = false := by
    intro part hpart
    obtain ⟨row, _, hrow⟩ := exists_of_getLast? h hpart
    exact hrow.not_blank
  rw [call_cases_loose hbody hlast (h.imp fun _ _ hrow => hrow.toLooseRow), map_dropEmptyLast_eq h]

theorem call_matrix_loose (hbody : Joined Token.isSemicolon body (part :: parts))
    (hlast : ∀ last ∈ (part :: parts).getLast?, isBlankPart last = false)
    (hrow : LooseRow Token.isComma part row named)
    (h : List.Forall₂ (fun part row => LooseRow Token.isComma part row []) parts rows)
    : Parser.call "mat" body = .ok (.matrix ((row :: rows).map dropEmptyLast) named) := by
  rw [Parser.call, hbody.split_eq, dropBlankLast_eq hlast, rows_cons hrow h]
  rfl

theorem call_matrix (hbody : Joined Token.isSemicolon body (part :: parts))
    (hrow : Row Token.isComma part row named)
    (h : List.Forall₂ (fun part row => Row Token.isComma part row []) parts rows)
    : Parser.call "mat" body = .ok (.matrix (row :: rows) named) := by
  have hlast : ∀ last ∈ (part :: parts).getLast?, isBlankPart last = false := by
    intro last hlast
    cases parts with
    | nil =>
      cases hlast
      exact hrow.not_blank
    | cons next parts =>
      rw [List.getLast?_cons_cons] at hlast
      obtain ⟨row, _, hrow⟩ := exists_of_getLast? h hlast
      exact hrow.not_blank
  rw [call_matrix_loose hbody hlast hrow.toLooseRow (h.imp fun _ _ hrow => hrow.toLooseRow),
    List.map_cons, dropEmptyLast_eq hrow.not_empty, map_dropEmptyLast_eq h]

end Arguments

namespace Delimited

variable {token last opener closer : Token} {tokens front gap inner : List Token} {p : Token → Prop}

theorem trimTokens_eq (hgap : IsGap gap) (hfirst : ∀ token ∈ tokens.head?, token.isSpace = false)
    (hlast : ∀ token ∈ tokens.getLast?, token.isSpace = false) : trimTokens (gap ++ tokens) = tokens := by
  have hdrop : ∀ tokens : List Token, (∀ token ∈ tokens.head?, token.isSpace = false) →
      tokens.dropWhile Token.isSpace = tokens := by
    intro tokens h
    cases tokens with
    | nil => rfl
    | cons token tokens => exact List.dropWhile_cons_of_neg (by simp [h token rfl])
  have hback : ∀ token ∈ tokens.reverse.head?, token.isSpace = false := by
    rwa [List.head?_reverse]
  rw [trimTokens, List.dropWhile_append_of_pos hgap, hdrop tokens hfirst, hdrop _ hback,
    List.reverse_reverse]

theorem takeLeft_some (h : token.isDelimiter) (hopen : token.isOpen = false)
    : takeLeft (token :: tokens) = (some token.text, tokens) := by
  simp [takeLeft, h, hopen]

theorem takeLeft_none (h : Nested p (token :: tokens)) (hdelim : token.isDelimiter → token.isOpen)
    (more : List Token) : takeLeft (token :: tokens ++ more) = (none, token :: tokens ++ more) := by
  rw [List.cons_append, takeLeft, if_neg]
  intro hleft
  simp only [Bool.and_eq_true, Bool.not_eq_true', Bool.and_eq_false_imp] at hleft
  have hopen := hdelim hleft.1
  have hnone := hleft.2 hopen
  cases h with
  | cons hopen' => simp_all
  | wrap _ hcloser hinner =>
    rw [List.append_assoc, List.cons_append, Nested.closingParen?_eq hinner hcloser] at hnone
    contradiction

theorem takeRight_some (h : token.isDelimiter) (hclose : token.isClose = false)
    : takeRight (tokens ++ [token]) = (tokens, some token.text) := by
  simp [takeRight, h, hclose]

theorem takeRight_none (h : Nested p (tokens ++ [last])) (hdelim : last.isDelimiter → last.isClose)
    : takeRight (tokens ++ [last]) = (tokens ++ [last], none) := by
  unfold takeRight
  rw [List.getLast?_concat]
  dsimp only
  rw [List.dropLast_concat, if_neg]
  intro hright
  simp only [Bool.and_eq_true, Bool.not_eq_true', Bool.and_eq_false_imp] at hright
  have hclose := hdelim hright.1
  have hpos := h.openParens_pos hclose
  have hzero := hright.2 hclose
  simp only [decide_eq_false_iff_not] at hzero
  contradiction

theorem isParenthesized_of_last (h : last.isClose = false)
    : isParenthesized (token :: (tokens ++ [last])) = false := by
  unfold isParenthesized
  rw [Bool.and_eq_false_imp]
  intro _
  cases hclosing : closingParen? (tokens ++ [last]) with
  | none => rfl
  | some found =>
    obtain ⟨size, closer⟩ := found
    obtain ⟨hcloser, hclose⟩ := Token.mem_of_closing? hclosing
    rw [Option.any_some, decide_eq_false_iff_not]
    intro hsize
    simp only [List.length_append, List.length_singleton, Nat.add_right_cancel_iff] at hsize
    rw [hsize, List.getElem?_concat_length] at hcloser
    cases hcloser
    rw [h] at hclose
    contradiction

theorem isParenthesized_of_first (h : token.isOpen = false)
    : isParenthesized (token :: tokens) = false := by
  simp [isParenthesized, h]

theorem isSpace_of_isOpen (h : token.isOpen) : token.isSpace = false :=
  (begins_open h).isSpace

theorem isSpace_of_isClose (h : token.isClose) : token.isSpace = false := by
  obtain ⟨kind, text, span⟩ := token
  cases is_iff.mp h
  rfl

theorem ofTokens_parens (hgap : IsGap gap) (hopener : opener.isOpen) (hcloser : closer.isClose)
    (hinner : Nested p inner)
    : ofTokens (gap ++ opener :: (inner ++ [closer])) = ⟨some "(", inner, some ")"⟩ := by
  have hclosing := @hinner.closingParen?_eq _ closer inner [] hcloser
  have htrim : trimTokens (gap ++ opener :: (inner ++ [closer])) = opener :: (inner ++ [closer]) := by
    apply trimTokens_eq hgap
    . rintro _ ⟨⟩
      exact isSpace_of_isOpen hopener
    . intro token htoken
      rw [← List.cons_append, List.getLast?_concat] at htoken
      cases htoken
      exact isSpace_of_isClose hcloser
  have hparens : isParenthesized (opener :: (inner ++ [closer])) = true := by
    simp [isParenthesized, hopener, hclosing]
  unfold ofTokens
  dsimp only
  rw [htrim, if_pos hparens, List.tail_cons, List.dropLast_concat]

theorem isSpace_of_isDelimiter (h : token.isDelimiter) : token.isSpace = false := by
  unfold Token.isDelimiter at h
  split at h
  next hkind => simp [Token.isSpace, hkind]
  next hkind => simp [Token.isSpace, hkind]
  . contradiction

theorem ofTokens_left (hgap : IsGap gap) (hdelim : token.isDelimiter) (hopen : token.isOpen = false)
    (hlast : ∀ last ∈ tokens.getLast?, last.isSpace = false)
    : ofTokens (gap ++ token :: tokens) =
      ⟨some token.text, (takeRight tokens).1, (takeRight tokens).2⟩ := by
  have htrim : trimTokens (gap ++ token :: tokens) = token :: tokens := by
    apply trimTokens_eq hgap
    . rintro _ ⟨⟩
      exact isSpace_of_isDelimiter hdelim
    . intro last hmem
      cases tokens with
      | nil =>
        cases hmem
        exact isSpace_of_isDelimiter hdelim
      | cons next tokens =>
        rw [List.getLast?_cons_cons] at hmem
        exact hlast last hmem
  unfold ofTokens
  dsimp only
  rw [htrim, isParenthesized_of_first hopen, takeLeft_some hdelim hopen]
  rfl

theorem ofTokens_right (hgap : IsGap gap) (h : Nested p (token :: tokens))
    (hspace : token.isSpace = false) (hfirst : token.isDelimiter → token.isOpen)
    (hdelim : last.isDelimiter) (hclose : last.isClose = false)
    : ofTokens (gap ++ (token :: tokens ++ (front ++ [last]))) =
      ⟨none, token :: tokens ++ front, some last.text⟩ := by
  have htrim : trimTokens (gap ++ (token :: tokens ++ (front ++ [last]))) =
      token :: tokens ++ (front ++ [last]) := by
    apply trimTokens_eq hgap
    . rintro _ ⟨⟩
      exact hspace
    . intro other hother
      rw [← List.append_assoc, List.getLast?_concat] at hother
      cases hother
      exact isSpace_of_isDelimiter hdelim
  have hparens : isParenthesized (token :: tokens ++ (front ++ [last])) = false := by
    rw [List.cons_append, ← List.append_assoc]
    exact isParenthesized_of_last hclose
  unfold ofTokens
  dsimp only
  rw [htrim, hparens, takeLeft_none h hfirst, ← List.append_assoc, takeRight_some hdelim hclose]
  rfl

end Delimited

theorem call_lr {body inner : List Token} {left right : Option String} {node : Formula}
    (hbody : Delimited.ofTokens body = ⟨left, inner, right⟩) (h : Parser.cell inner = .ok node)
    (hsome : left.isSome ∨ right.isSome)
    : Parser.call "lr" body = .ok (.leftRight left node right) := by
  rw [Parser.call, hbody]
  simp only [h, bind, Except.bind]
  cases left with
  | some left => rfl
  | none =>
    cases right with
    | some right => rfl
    | none => simp at hsome

end Typst
end MathMarkup
