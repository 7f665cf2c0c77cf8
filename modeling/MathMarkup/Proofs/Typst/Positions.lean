import MathMarkup.Proofs.Token.Positions
import MathMarkup.Proofs.Typst.Reading

/-!
This module contains the reading of Typst formulas by positions. The parts between separators are
pairs of positions here, and the body of `lr` is cut off at both ends by moving its positions. The
readers are shown to agree with those of `Parser`, so all their indices and ranges are valid, every
expression uses at least one token and the fuel is sufficient.
-/

namespace MathMarkup
namespace Typst

open Positions

namespace RangeParser

def signs : ExprSigns Kind Formula where
  script? := Token.script?
  isPrime := Token.isPrime
  brackets := "parentheses"
  empty := .empty
  attach := attachScripts

def isKey (token : Token) : Bool :=
  match token.kind with
  | .symbol => token.text.toList.head? != some '#'
  | .element => token.text.toList.all Char.isAlpha
  | _ => false

def slash? (token : Token) : Option Item :=
  if token.is .element "/" then some (.slash token.span) else none

/--
The ranges between separators outside of parentheses, where `depth` parentheses are open. The first
range starts at `start`, and the given tokens are those from `pos` on.
-/
def cuts (isSep : Token → Bool) (depth start pos : Nat) : List Token → List (Nat × Nat)
  | [] => [(start, pos)]
  | token :: tokens =>
    if token.isOpen then
      cuts isSep (depth + 1) start (pos + 1) tokens
    else if token.isClose then
      cuts isSep (depth - 1) start (pos + 1) tokens
    else if depth = 0 && isSep token then
      (start, pos) :: cuts isSep depth (pos + 1) (pos + 1) tokens
    else
      cuts isSep depth start (pos + 1) tokens

section Readers

variable (tokens : List Token)

/--
Split a range at the separators that stand outside of parentheses.
-/
def split (isSep : Token → Bool) (start stop : Nat) : Checked (List (Nat × Nat)) := do
  let range ← slice tokens start stop
  return cuts isSep 0 start start range

def dropBlankLast (ranges : List (Nat × Nat)) : Checked (List (Nat × Nat)) :=
  match ranges.getLast? with
  | none => return ranges
  | some (start, stop) => do
    let last ← slice tokens start stop
    return if isBlankPart last then ranges.dropLast else ranges

def dropBlankLine (ranges : List (Nat × Nat)) : Checked (List (Nat × Nat)) :=
  if 1 < ranges.length then dropBlankLast tokens ranges else return ranges

/--
Recognise a named argument: its name, and where its value starts.
-/
def namedArgument (start stop : Nat) : Checked (Option (String × Nat)) := do
  let blanks ← frontSize Token.isSpace tokens start stop
  let key ← get? tokens (start + blanks) stop
  let colon ← get? tokens (start + blanks + 1) stop
  match key, colon with
  | some key, some colon =>
    return if isKey key && colon.is .element ":" then some (key.text, start + blanks + 2) else none
  | _, _ => return none

def closingParen (pos stop : Nat) : Checked Nat := do
  match ← findClosing tokens Token.isOpen Token.isClose pos stop with
  | some close => return close
  | none =>
    let token ← index tokens pos
    throw { fault := .unclosedDelimiter "(", span := token.span }

def trim (start stop : Nat) : Checked (Nat × Nat) := do
  let blanks ← frontSize Token.isSpace tokens start stop
  let range ← slice tokens (start + blanks) stop
  let trailing := Token.countFront Token.isSpace range.reverse
  Checked.check (trailing ≤ stop)
  return (start + blanks, stop - trailing)

/--
Whether a range is one pair of parentheses with all other tokens in between.
-/
def isParenthesized (start stop : Nat) : Checked Bool :=
  if start < stop then do
    let token : Token ← index tokens start
    let close ← findClosing tokens Token.isOpen Token.isClose start stop
    return token.isOpen && close == some (stop - 1)
  else
    return false

def takeLeft (start stop : Nat) : Checked (Option String × Nat) :=
  if start < stop then do
    let token : Token ← index tokens start
    let close ← findClosing tokens Token.isOpen Token.isClose start stop
    return if token.isDelimiter && !(token.isOpen && close.isSome) then
      (some token.text, start + 1)
    else
      (none, start)
  else
    return (none, start)

def takeRight (start stop : Nat) : Checked (Nat × Option String) :=
  if start < stop then do
    let token : Token ← index tokens (stop - 1)
    let front ← slice tokens start (stop - 1)
    return if token.isDelimiter && !(token.isClose && 0 < openParens front) then
      (stop - 1, some token.text)
    else
      (stop, none)
  else
    return (stop, none)

/--
Find the delimiters of the body of `lr`, and the range that they leave.
-/
def delimited (start stop : Nat) : Checked (Option String × (Nat × Nat) × Option String) := do
  let (start, stop) ← trim tokens start stop
  if ← isParenthesized tokens start stop then
    return (some "(", (start + 1, stop - 1), some ")")
  else
    let (left, start) ← takeLeft tokens start stop
    let (stop, right) ← takeRight tokens start stop
    return (left, (start, stop), right)

section Nested

variable (atom : (pos stop : Nat) → Checked (Formula × Nat)) (fuel : Nat)

def operand (owner : Token) (pos stop : Nat) : Checked (Formula × Nat) :=
  afterSpaces Token.isSpace tokens (missingArgument owner) (fun (token : Token) pos =>
    if token.kind == .control || token.isClose then
      throw (missingArgument owner)
    else do
      let (node, next) ← atom pos stop
      return (Item.operand node, next)) pos stop

def expr (fuel pos stop : Nat) : Checked (Formula × Nat) :=
  Positions.expr signs atom (operand tokens atom) tokens fuel pos stop

/--
Read a range as formulas side by side, and resolve the divisions among them.
-/
def sequence (start stop : Nat) : Checked (List Formula) := do
  let items ← loop slash? .node (expr tokens atom) tokens fuel start stop
  Checked.ofExcept (Item.resolve items)

def cell (start stop : Nat) : Checked Formula := do
  let nodes ← sequence tokens atom fuel start stop
  return .ofList (Formula.trimSpaces nodes)

/--
Read arguments, with or without names, or the cells of a row.
-/
def arguments : List (Nat × Nat) → Checked (List Formula × List (String × Formula))
  | [] => return ([], [])
  | (start, stop) :: ranges => do
    match ← namedArgument tokens start stop with
    | some (key, value) =>
      let value ← cell tokens atom fuel value stop
      let (args, named) ← arguments ranges
      return (args, (key, value) :: named)
    | none =>
      let arg ← cell tokens atom fuel start stop
      let (args, named) ← arguments ranges
      return (arg :: args, named)

/--
Read the rows of a grid, which are split into cells at `isSep`, and its named arguments.
-/
def rows (isSep : Token → Bool) : List (Nat × Nat) →
    Checked (List (List Formula) × List (String × Formula))
  | [] => return ([], [])
  | (start, stop) :: ranges => do
    let cells ← split tokens isSep start stop
    let (row, named) ← arguments tokens atom fuel cells
    let (rest, more) ← rows isSep ranges
    return (consRow (dropEmptyLast row) rest, named ++ more)

def cells (isRow isCell : Token → Bool) (start stop : Nat) :
    Checked (List (List Formula) × List (String × Formula)) := do
  let ranges ← split tokens isRow start stop
  let ranges ← dropBlankLast tokens ranges
  rows tokens atom fuel isCell ranges

def leftRight (start stop : Nat) : Checked Formula := do
  let (left, (start, stop), right) ← delimited tokens start stop
  let body ← cell tokens atom fuel start stop
  match left, right with
  | none, none => return .plainCall "lr" [body]
  | left, right => return .leftRight left body right

def call (name : String) (start stop : Nat) : Checked Formula :=
  match name with
  | "mat" => do
    let (cells, named) ← cells tokens atom fuel Token.isSemicolon Token.isComma start stop
    return .matrix cells named
  | "cases" => do
    let (cells, named) ← cells tokens atom fuel Token.isComma Token.isAlignment start stop
    return .cases cells named
  | "lr" => leftRight tokens atom fuel start stop
  | name => do
    let ranges ← split tokens Token.isComma start stop
    let ranges ← dropBlankLast tokens ranges
    let (args, named) ← arguments tokens atom fuel ranges
    return .call name args named

/--
Read an expression without scripts, where `atom` reads those inside of it. Nothing is used of a
script without a base.
-/
def step (pos stop : Nat) : Checked (Formula × Nat) := do
  let token ← index tokens pos
  match token.kind with
  | .text => return (.text token.text, pos + 1)
  | .comment => return (.comment token.text, pos + 1)
  | .space | .newline => return (.space token.text, pos + 1)
  | .control =>
    match token.text with
    | "_" | "^" => return (.empty, pos)
    | text => return (.control text, pos + 1)
  | .nothing => return (.nothing, pos + 1)
  | .unknown => return (.unknown token.text, pos + 1)
  | .element =>
    match token.text with
    | "(" =>
      let close ← closingParen tokens pos stop
      let nodes ← sequence tokens atom fuel (pos + 1) close
      return (.parens nodes, close + 1)
    | ")" => throw { fault := .unexpectedClose ")", span := token.span }
    | text => return (.atom text, pos + 1)
  | .symbol =>
    let next ← get? tokens (pos + 1) stop
    if next.any Token.isOpen then
      let close ← closingParen tokens (pos + 1) stop
      let node ← call tokens atom fuel token.text (pos + 2) close
      return (node, close + 1)
    else
      return (.symbol token.text, pos + 1)

def lines (ranges : List (Nat × Nat)) : Checked (List (List Formula)) :=
  ranges.mapM fun (start, stop) => do
    let cells ← split tokens Token.isAlignment start stop
    cells.mapM fun (start, stop) => cell tokens atom fuel start stop

end Nested

/--
Read an expression without scripts. The fuel is spent on the expressions inside of it.
-/
def atom : (fuel pos stop : Nat) → Checked (Formula × Nat)
  | 0, _, _ => Checked.refused
  | fuel + 1, pos, stop => step tokens (atom fuel) (fuel + 1) pos stop

end Readers

def parse (fuel : Nat) (tokens : List Token) : Checked Formula := do
  let aligned ← split tokens (fun token => token.isLineBreak || token.isAlignment) 0 tokens.length
  if aligned.length = 1 then
    let nodes ← sequence tokens (atom tokens fuel) fuel 0 tokens.length
    return .ofList nodes
  else
    let ranges ← split tokens Token.isLineBreak 0 tokens.length
    let ranges ← dropBlankLine tokens ranges
    let rows ← lines tokens (atom tokens fuel) fuel ranges
    return .align rows

def exprReader : ExprReader Kind Formula where
  toExprSigns := signs
  atom := Parser.atom
  argument := Parser.operand
  script := Parser.script
  scripts := Parser.scripts
  expr := Parser.expr
  isPrime_of_script? _ _ h := (isPrime_of_script? h).1
  script_eq found place owner tokens := by
    rw [Parser.script]
    rfl
  scripts_nil := scripts_nil
  scripts_cons found token tokens := by
    rw [Parser.scripts]
    rfl
  expr_eq token tokens := by
    rw [Parser.expr]
    rfl

/--
A range inside of another one, and the tokens in it.
-/
inductive IsRange (tokens : List Token) (start stop : Nat) : Nat × Nat → List Token → Prop where
  | intro {first last : Nat} {own : List Token} (hfirst : start ≤ first) (hle : first ≤ last)
    (hlast : last ≤ stop) (hown : own = part tokens first last) :
    IsRange tokens start stop (first, last) own

section Cuts

variable {tokens : List Token} {start stop : Nat}

theorem cuts_agrees (isSep : Token → Bool) {depth first pos : Nat} (hstop : stop ≤ tokens.length)
    (hstart : start ≤ first) (hfirst : first ≤ pos) (hpos : pos ≤ stop)
    : List.Forall₂ (IsRange tokens start stop)
      (cuts isSep depth first pos (part tokens pos stop))
      ((part tokens first pos ++ (Typst.split.go isSep depth (part tokens pos stop)).1) ::
        (Typst.split.go isSep depth (part tokens pos stop)).2) := by
  -- The tokens from `first` to `pos` belong to the first part already.
  generalize hrange : part tokens pos stop = range
  induction range generalizing depth first pos with
  | nil =>
    exact .cons (.intro hstart hfirst hpos (List.append_nil _)) .nil
  | cons token range ih =>
    obtain ⟨htoken, rfl⟩ := holds_of_part hstop hrange
    have hlt := htoken.lt
    have hcons (depth : Nat) : List.Forall₂ (IsRange tokens start stop)
        (cuts isSep depth first (pos + 1) (part tokens (pos + 1) stop))
        ((part tokens first pos ++
          token :: (Typst.split.go isSep depth (part tokens (pos + 1) stop)).1) ::
          (Typst.split.go isSep depth (part tokens (pos + 1) stop)).2) := by
      have := @ih depth first (pos + 1) hstart (by omega) hlt rfl
      rwa [htoken.part_succ hfirst, List.append_assoc, List.singleton_append] at this
    unfold cuts Typst.split.go
    split
    . exact hcons _
    . split
      . exact hcons _
      . split
        . refine .cons (.intro hstart hfirst hpos (List.append_nil _)) ?_
          have := @ih depth (pos + 1) (pos + 1) (by omega) (Nat.le_refl _) hlt rfl
          rwa [part_eq_nil (Nat.le_refl _), List.nil_append] at this
        . exact hcons _

theorem exists_split (isSep : Token → Bool) (hstart : start ≤ stop) (hstop : stop ≤ tokens.length)
    : ∃ ranges, split tokens isSep start stop = pure ranges ∧
        List.Forall₂ (IsRange tokens start stop) ranges
          (Typst.split isSep (part tokens start stop)) := by
  have hcuts := @cuts_agrees tokens start stop isSep 0 start start hstop (Nat.le_refl _)
    (Nat.le_refl _) hstart
  rw [part_eq_nil (Nat.le_refl _), List.nil_append] at hcuts
  refine ⟨_, ?_, hcuts⟩
  rw [split, slice_eq hstart hstop, pure_bind]

theorem rel_getLast? {α β : Type} {r : α → β → Prop} {xs : List α} {ys : List β}
    (h : List.Forall₂ r xs ys) : Option.Rel r xs.getLast? ys.getLast? := by
  induction h with
  | nil => exact .none
  | cons hhead htail ih =>
    cases htail with
    | nil => exact .some hhead
    | cons => exact ih

theorem forall₂_dropLast {α β : Type} {r : α → β → Prop} {xs : List α} {ys : List β}
    (h : List.Forall₂ r xs ys) : List.Forall₂ r xs.dropLast ys.dropLast := by
  induction h with
  | nil => exact .nil
  | cons hhead htail ih =>
    cases htail with
    | nil => exact .nil
    | cons hnext htail => exact .cons hhead ih

theorem exists_dropBlankLast {ranges : List (Nat × Nat)} {parts : List (List Token)}
    (hstop : stop ≤ tokens.length) (h : List.Forall₂ (IsRange tokens start stop) ranges parts)
    : ∃ kept, dropBlankLast tokens ranges = pure kept ∧
        List.Forall₂ (IsRange tokens start stop) kept (Typst.dropBlankLast parts) := by
  have hlast := rel_getLast? h
  rw [dropBlankLast, Typst.dropBlankLast]
  cases hrange : ranges.getLast? with
  | none =>
    rw [hrange] at hlast
    cases hparts : parts.getLast? with
    | none => exact ⟨ranges, rfl, h⟩
    | some last =>
      rw [hparts] at hlast
      contradiction
  | some range =>
    rw [hrange] at hlast
    cases hparts : parts.getLast? with
    | none =>
      rw [hparts] at hlast
      contradiction
    | some last =>
      rw [hparts] at hlast
      obtain ⟨⟨_, hle, hlast, rfl⟩⟩ := hlast
      . dsimp only
        rw [slice_eq hle (Nat.le_trans hlast hstop), pure_bind, Option.any_some]
        refine ⟨_, rfl, ?_⟩
        split
        . exact forall₂_dropLast h
        . exact h

theorem exists_dropBlankLine {ranges : List (Nat × Nat)} {parts : List (List Token)}
    (hstop : stop ≤ tokens.length) (h : List.Forall₂ (IsRange tokens start stop) ranges parts)
    : ∃ kept, dropBlankLine tokens ranges = pure kept ∧
        List.Forall₂ (IsRange tokens start stop) kept
          (if 1 < parts.length then Typst.dropBlankLast parts else parts) := by
  rw [dropBlankLine, h.length_eq]
  split
  . exact exists_dropBlankLast hstop h
  . exact ⟨ranges, rfl, h⟩

theorem exists_namedArgument (hstart : start ≤ stop) (hstop : stop ≤ tokens.length)
    : ∃ found, namedArgument tokens start stop = pure found ∧
        Option.Rel (Ends start stop) found (namedArgument? (part tokens start stop)) := by
  rw [namedArgument, frontSize_eq _ hstart hstop, pure_bind, namedArgument?, drop_part]
  generalize Token.countFront Token.isSpace (part tokens start stop) = blanks
  rw [get?_eq hstop, pure_bind, get?_eq hstop, pure_bind]
  by_cases hkey : start + blanks < stop
  . obtain ⟨key, hkey⟩ := exists_holds hkey hstop
    rw [hkey.part_eq]
    by_cases hcolon : start + blanks + 1 < stop
    . obtain ⟨colon, hcolon⟩ := exists_holds hcolon hstop
      rw [hcolon.part_eq]
      refine ⟨_, rfl, ?_⟩
      change Option.Rel (Ends start stop) _ (if isKey key && colon.is .element ":" then _ else none)
      split
      . exact .some (.intro (by omega) hcolon.lt)
      . exact .none
    . rw [part_eq_nil (by omega)]
      exact ⟨none, rfl, .none⟩
  . rw [part_eq_nil (by omega)]
    exact ⟨none, rfl, .none⟩

end Cuts

section Delimiters

variable {tokens : List Token} {start stop : Nat}

theorem exists_trim (hstart : start ≤ stop) (hstop : stop ≤ tokens.length)
    : ∃ range, trim tokens start stop = pure range ∧
        IsRange tokens start stop range (trimTokens (part tokens start stop)) := by
  have hfirst := add_countFront_le Token.isSpace hstart hstop
  rw [trim, frontSize_eq _ hstart hstop, pure_bind, slice_eq hfirst hstop, pure_bind, trimTokens,
    ← Token.drop_countFront, ← Token.drop_countFront, drop_part]
  have hle : start ≤ start + Token.countFront Token.isSpace (part tokens start stop) :=
    Nat.le_add_right _ _
  generalize start + Token.countFront Token.isSpace (part tokens start stop) = first at hfirst hle
  have htrailing := countFront_le Token.isSpace (part tokens first stop).reverse
  rw [List.length_reverse, length_part hstop] at htrailing
  dsimp only
  rw [List.drop_reverse, List.reverse_reverse, length_part hstop]
  generalize Token.countFront Token.isSpace (part tokens first stop).reverse = trailing at *
  rw [check_eq (by omega), pure_bind, take_part (by omega)]
  refine ⟨_, rfl, .intro hle (by omega) (Nat.sub_le _ _) ?_⟩
  congr 1
  omega

theorem isParenthesized_eq (hstart : start ≤ stop) (hstop : stop ≤ tokens.length)
    : isParenthesized tokens start stop =
        pure (Delimited.isParenthesized (part tokens start stop)) := by
  rw [isParenthesized]
  split
  next hlt =>
    obtain ⟨token, htoken⟩ := exists_holds hlt hstop
    rw [htoken.index_eq, pure_bind, htoken.findClosing_eq, pure_bind, htoken.part_eq,
      Delimited.isParenthesized, closingParen?]
    cases hclosing : Token.closing? _ _ 0 (part tokens (start + 1) stop) with
    | none => rfl
    | some found =>
      obtain ⟨inner, closer⟩ := found
      have hclose := (holds_of_closing? hstop hclosing).lt
      have hend : (start + 1 + inner == stop - 1) = decide (inner + 1 = stop - (start + 1)) := by
        rw [Bool.eq_iff_iff, beq_iff_eq, decide_eq_true_iff]
        omega
      simp [length_part hstop, hend]
  next hlt =>
    rw [part_eq_nil (by omega)]
    rfl

theorem add_two_le (hstop : stop ≤ tokens.length)
    (h : Delimited.isParenthesized (part tokens start stop)) : start + 2 ≤ stop := by
  cases hpart : part tokens start stop with
  | nil =>
    rw [hpart] at h
    contradiction
  | cons token rest =>
    obtain ⟨_, rfl⟩ := holds_of_part hstop hpart
    rw [hpart, Delimited.isParenthesized, closingParen?] at h
    cases hclosing : Token.closing? Token.isOpen Token.isClose 0 (part tokens (start + 1) stop) with
    | none => simp [hclosing] at h
    | some found =>
      have := (holds_of_closing? hstop hclosing).lt
      omega

theorem exists_takeLeft (hstart : start ≤ stop) (hstop : stop ≤ tokens.length)
    : ∃ next, takeLeft tokens start stop =
          pure ((Delimited.takeLeft (part tokens start stop)).1, next) ∧
        IsRange tokens start stop (next, stop) (Delimited.takeLeft (part tokens start stop)).2 := by
  rw [takeLeft]
  split
  next hlt =>
    obtain ⟨token, htoken⟩ := exists_holds hlt hstop
    rw [htoken.index_eq, pure_bind, htoken.findClosing_eq, pure_bind, htoken.part_eq,
      Delimited.takeLeft, Option.isSome_map]
    split
    next hdelimiter =>
      rw [closingParen?, if_pos hdelimiter]
      exact ⟨start + 1, rfl, .intro (Nat.le_succ _) hlt (Nat.le_refl _) rfl⟩
    next hdelimiter =>
      rw [closingParen?, if_neg hdelimiter, ← htoken.part_eq]
      exact ⟨start, rfl, .intro (Nat.le_refl _) hstart (Nat.le_refl _) rfl⟩
  next hlt =>
    rw [part_eq_nil (by omega)]
    exact ⟨start, rfl,
      .intro (Nat.le_refl _) hstart (Nat.le_refl _) (part_eq_nil (by omega)).symm⟩

theorem exists_takeRight (hstart : start ≤ stop) (hstop : stop ≤ tokens.length)
    : ∃ last, takeRight tokens start stop =
          pure (last, (Delimited.takeRight (part tokens start stop)).2) ∧
        IsRange tokens start stop (start, last)
          (Delimited.takeRight (part tokens start stop)).1 := by
  rw [takeRight]
  split
  next hlt =>
    obtain ⟨token, htoken⟩ := exists_holds (by omega : stop - 1 < stop) hstop
    have hpart := htoken.part_succ (by omega : start ≤ stop - 1)
    rw [Nat.sub_add_cancel (by omega)] at hpart
    rw [htoken.index_eq, pure_bind, slice_eq (by omega) (by omega), pure_bind, Delimited.takeRight,
      dropLast_part hstop, hpart, List.getLast?_concat]
    dsimp only
    split
    . exact ⟨stop - 1, rfl, .intro (Nat.le_refl _) (by omega) (by omega) rfl⟩
    . exact ⟨stop, rfl, .intro (Nat.le_refl _) hstart (Nat.le_refl _) hpart.symm⟩
  next hlt =>
    rw [part_eq_nil (by omega)]
    exact ⟨stop, rfl,
      .intro (Nat.le_refl _) hstart (Nat.le_refl _) (part_eq_nil (by omega)).symm⟩

theorem exists_delimited (hstart : start ≤ stop) (hstop : stop ≤ tokens.length)
    : ∃ range, delimited tokens start stop =
          pure ((Delimited.ofTokens (part tokens start stop)).left, range,
            (Delimited.ofTokens (part tokens start stop)).right) ∧
        IsRange tokens start stop range (Delimited.ofTokens (part tokens start stop)).body := by
  obtain ⟨_, htrim, ⟨hfirst, hle, hlast, htrimmed⟩⟩ := exists_trim hstart hstop
  rename_i first last
  rw [delimited, htrim, pure_bind, Delimited.ofTokens, htrimmed]
  dsimp only
  rw [isParenthesized_eq hle (by omega), pure_bind]
  split
  next hparens =>
    have htwo := add_two_le (by omega) hparens
    have hend : last ≤ tokens.length := by omega
    obtain ⟨token, htoken⟩ := exists_holds (by omega : first < last) hend
    refine ⟨_, rfl, .intro (by omega) (by omega) (by omega) ?_⟩
    rw [htoken.part_eq, List.tail_cons, dropLast_part hend]
  next hparens =>
    obtain ⟨next, hleft, ⟨hnext, hbody, _, hown⟩⟩ :=
      exists_takeLeft hle (by omega : last ≤ tokens.length)
    obtain ⟨rest, hright, ⟨_, hrest, hend, hback⟩⟩ :=
      exists_takeRight hbody (by omega : last ≤ tokens.length)
    rw [hleft, pure_bind, hown]
    dsimp only
    rw [hright, pure_bind]
    exact ⟨_, rfl, .intro (by omega) hrest (by omega) hback⟩

end Delimiters

section Agreement

variable {tokens : List Token} {pos start stop size fuel : Nat} {token : Token}
  {atom : (pos stop : Nat) → Checked (Formula × Nat)}

theorem closingParen_eq (htoken : Holds tokens pos stop token)
    : closingParen tokens pos stop =
        match closingParen? (part tokens (pos + 1) stop) with
        | none => throw { fault := .unclosedDelimiter "(", span := token.span }
        | some (size, _) => pure (pos + 1 + size) := by
  rw [closingParen, htoken.findClosing_eq, pure_bind, closingParen?]
  cases Token.closing? _ _ 0 (part tokens (pos + 1) stop) with
  | none =>
    dsimp only [Option.map_none]
    rw [htoken.index_eq, pure_bind]
  | some found => rfl

section Nested

variable (hatom : Reads exprReader tokens size atom)

include hatom

theorem operand_agrees (owner : Token) (hpos : pos ≤ stop) (hstop : stop ≤ tokens.length)
    (hsize : stop ≤ pos + size)
    : Agrees (Ends pos stop) (operand tokens atom owner pos stop)
      (Parser.operand owner (part tokens pos stop)) := by
  have hskip (token : Token) (tokens : List Token) (hspace : token.isSpace)
      : Parser.operand owner (token :: tokens) = (do
          let (node, used) ← Parser.operand owner tokens
          return (node, used + 1)) := by
    rw [Parser.operand, if_pos hspace]
  rw [skip_spaces hskip, drop_part]
  apply afterSpaces_agrees hpos hstop rfl
  . intro hpart
    rw [hpart, Parser.operand]
    rfl
  . intro token htoken hspace
    rw [htoken.part_eq, Parser.operand, hspace, if_neg Bool.false_ne_true]
    split
    . exact agrees_throw _
    next hends =>
      have hscript : Token.script? token = none := by
        rw [Token.script?, if_neg]
        intro hkind
        simp [hkind] at hends
      rw [bind_assoc]
      apply (hatom.agrees htoken (by omega) hscript).map
      rintro _ _ ⟨rfl, hnext⟩
      exact .intro (by omega) hnext

theorem expr_agrees (htoken : Holds tokens pos stop token) (hsize : stop ≤ pos + size)
    (hfuel : stop < pos + fuel)
    : Agrees (Ends (pos + 1) stop) (expr tokens atom fuel pos stop)
      (Parser.expr token (part tokens (pos + 1) stop)) :=
  Positions.expr_agrees htoken.le
    (fun owner _ hpos hsize => operand_agrees hatom owner hpos htoken.le hsize)
    hatom htoken hsize hfuel

theorem sequence_agrees (hpos : pos ≤ stop) (hstop : stop ≤ tokens.length)
    (hsize : stop ≤ pos + size) (hfuel : stop < pos + fuel)
    : Agrees Eq (sequence tokens atom fuel pos stop) (Parser.sequence (part tokens pos stop)) := by
  have hitems : Agrees Eq (loop slash? .node (expr tokens atom) tokens fuel pos stop)
      (Parser.items (part tokens pos stop)) := by
    refine loop_agrees Parser.expr hstop ?_ ?_ ?_ ?_ (Nat.le_refl pos) hpos hfuel
    . rw [Parser.items]
    . intro token tokens item hitem
      unfold slash? at hitem
      split at hitem
      next hslash =>
        cases hitem
        rw [Parser.items, if_pos hslash]
      next => contradiction
    . intro token tokens hitem
      unfold slash? at hitem
      split at hitem
      next => contradiction
      next hslash => rw [Parser.items, if_neg hslash]
    . intro fuel pos token htoken hstart hfuel
      exact expr_agrees hatom htoken (by omega) hfuel
  rw [Parser.sequence]
  apply hitems.bind
  rintro items _ rfl
  exact agrees_ofExcept _

theorem cell_agrees (hpos : pos ≤ stop) (hstop : stop ≤ tokens.length)
    (hsize : stop ≤ pos + size) (hfuel : stop < pos + fuel)
    : Agrees Eq (cell tokens atom fuel pos stop) (Parser.cell (part tokens pos stop)) := by
  rw [Parser.cell]
  exact (sequence_agrees hatom hpos hstop hsize hfuel).map_eq _

section Ranges

variable (hstop : stop ≤ tokens.length) (hsize : stop ≤ start + size) (hfuel : stop < start + fuel)

include hstop hsize hfuel

theorem arguments_agrees {ranges : List (Nat × Nat)} {parts : List (List Token)}
    (h : List.Forall₂ (IsRange tokens start stop) ranges parts)
    : Agrees Eq (arguments tokens atom fuel ranges) (Parser.arguments parts) := by
  induction h with
  | nil =>
    rw [Parser.arguments]
    exact agrees_pure rfl
  | cons hrange _ ih =>
    obtain ⟨hfirst, hle, hlast, rfl⟩ := hrange
    obtain ⟨found, hfound, hnamed⟩ :=
      exists_namedArgument hle (Nat.le_trans hlast hstop)
    rw [arguments, hfound, pure_bind, Parser.arguments]
    generalize namedArgument? (part tokens _ _) = named at hnamed
    cases hnamed with
    | none =>
      apply (cell_agrees hatom hle (by omega) (by omega) (by omega)).bind
      rintro arg _ rfl
      exact ih.map_eq _
    | some hends =>
      obtain ⟨rfl, hvalue⟩ := hends
      dsimp only
      rw [drop_part]
      apply (cell_agrees hatom hvalue (by omega) (by omega) (by omega)).bind
      rintro value _ rfl
      exact ih.map_eq _

theorem rows_agrees (isSep : Token → Bool) {ranges : List (Nat × Nat)} {parts : List (List Token)}
    (h : List.Forall₂ (IsRange tokens start stop) ranges parts)
    : Agrees Eq (rows tokens atom fuel isSep ranges) (Parser.rows isSep parts) := by
  induction h with
  | nil =>
    rw [Parser.rows]
    exact agrees_pure rfl
  | cons hrange _ ih =>
    obtain ⟨hfirst, hle, hlast, rfl⟩ := hrange
    obtain ⟨cells, hcells, hparts⟩ := exists_split isSep hle (Nat.le_trans hlast hstop)
    rw [rows, hcells, pure_bind, Parser.rows]
    apply (arguments_agrees hatom (by omega) (by omega) (by omega) hparts).bind
    rintro row _ rfl
    exact ih.map_eq _

theorem leftRight_agrees (hstart : start ≤ stop)
    : Agrees Eq (leftRight tokens atom fuel start stop) (do
        let parts := Delimited.ofTokens (part tokens start stop)
        let node ← Parser.cell parts.body
        match parts.left, parts.right with
        | none, none => return .plainCall "lr" [node]
        | left, right => return .leftRight left node right) := by
  obtain ⟨range, hrange, hbody⟩ := exists_delimited hstart hstop
  rw [leftRight, hrange, pure_bind]
  generalize Delimited.ofTokens (part tokens start stop) = parts at hbody
  obtain ⟨left, body, right⟩ := parts
  obtain ⟨_, hle, _, rfl⟩ := hbody
  apply (cell_agrees hatom hle (by omega) (by omega) (by omega)).bind
  rintro node _ rfl
  cases left with
  | some left => exact agrees_pure rfl
  | none =>
    cases right with
    | some right => exact agrees_pure rfl
    | none => exact agrees_pure rfl

theorem call_agrees (name : String) (hstart : start ≤ stop)
    : Agrees Eq (call tokens atom fuel name start stop)
      (Parser.call name (part tokens start stop)) := by
  have hcells (isRow isCell : Token → Bool)
      : Agrees Eq (cells tokens atom fuel isRow isCell start stop)
        (Parser.rows isCell
          (Typst.dropBlankLast (Typst.split isRow (part tokens start stop)))) := by
    obtain ⟨ranges, hranges, hparts⟩ := exists_split isRow hstart hstop
    obtain ⟨kept, hkept, hparts⟩ := exists_dropBlankLast hstop hparts
    rw [cells, hranges, pure_bind, hkept, pure_bind]
    exact rows_agrees hatom hstop hsize hfuel isCell hparts
  unfold call
  split
  . rw [Parser.call]
    exact (hcells _ _).map_eq _
  . rw [Parser.call]
    exact (hcells _ _).map_eq _
  . rw [Parser.call]
    exact leftRight_agrees hatom hstop hsize hfuel hstart
  . obtain ⟨ranges, hranges, hparts⟩ := exists_split Token.isComma hstart hstop
    obtain ⟨kept, hkept, hparts⟩ := exists_dropBlankLast hstop hparts
    rw [Parser.call, hranges, pure_bind, hkept, pure_bind]
    . exact (arguments_agrees hatom hstop hsize hfuel hparts).map_eq _
    all_goals assumption

end Ranges

theorem step_agrees (htoken : Holds tokens pos stop token) (hscript : token.script? = none)
    (hsize : stop ≤ pos + size + 1) (hfuel : stop ≤ pos + fuel)
    : Agrees (Ends (pos + 1) stop) (step tokens atom fuel pos stop)
      (Parser.atom token (part tokens (pos + 1) stop)) := by
  have hpos := htoken.lt
  have hstop := htoken.le
  have hone (node : Formula)
      : Agrees (Ends (pos + 1) stop) (pure (node, pos + 1)) (.ok (node, 0)) :=
    agrees_pure (.intro rfl hpos)
  -- Only one of the two readers is unfolded at a time, since both distinguish the same texts.
  rw [step, htoken.index_eq, pure_bind]
  cases hkind : token.kind with
  | control =>
    rw [Parser.atom.eq_def, hkind]
    rw [Token.script?, hkind] at hscript
    dsimp only
    split
    next htext => simp [htext, Script.ofMarker?] at hscript
    next htext => simp [htext, Script.ofMarker?] at hscript
    next => exact hone _
  | element =>
    dsimp only
    split
    next htext =>
      rw [Parser.atom.eq_def, hkind, htext, closingParen_eq htoken]
      cases hclosing : closingParen? (part tokens (pos + 1) stop) with
      | none => exact agrees_throw _
      | some found =>
        obtain ⟨inner, closer⟩ := found
        have hclose := (holds_of_closing? hstop hclosing).lt
        dsimp only
        rw [pure_bind, take_part (Nat.le_of_lt hclose)]
        apply (sequence_agrees hatom (by omega) (by omega) (by omega) (by omega)).map
        rintro nodes _ rfl
        exact .intro (by omega) hclose
    next htext =>
      rw [Parser.atom.eq_def, hkind, htext]
      exact agrees_throw _
    next =>
      rw [Parser.atom.eq_def, hkind]
      dsimp only
      split
      . contradiction
      . contradiction
      . exact hone _
  | symbol =>
    rw [Parser.atom.eq_def, hkind]
    dsimp only
    rw [get?_eq hstop, pure_bind]
    by_cases hlt : pos + 1 < stop
    . obtain ⟨next, hnext⟩ := exists_holds hlt hstop
      rw [hnext.part_eq, List.head?_cons, Option.any_some]
      dsimp only
      split
      . rw [closingParen_eq hnext]
        cases hclosing : closingParen? (part tokens (pos + 1 + 1) stop) with
        | none => exact agrees_throw _
        | some found =>
          obtain ⟨inner, closer⟩ := found
          have hclose := (holds_of_closing? hstop hclosing).lt
          dsimp only
          rw [pure_bind, take_part (Nat.le_of_lt hclose)]
          have hcall := @call_agrees tokens (pos + 2) (pos + 1 + 1 + inner) size fuel atom hatom
            (by omega) (by omega) (by omega) token.text (by omega)
          apply hcall.map
          rintro node _ rfl
          exact .intro (by omega) hclose
      . exact hone _
    . rw [part_eq_nil (by omega)]
      exact hone _
  | _ =>
    rw [Parser.atom.eq_def, hkind]
    exact hone _

theorem lines_agrees {ranges : List (Nat × Nat)} {parts : List (List Token)}
    (hstop : stop ≤ tokens.length) (hsize : stop ≤ start + size) (hfuel : stop < start + fuel)
    (h : List.Forall₂ (IsRange tokens start stop) ranges parts)
    : Agrees Eq (lines tokens atom fuel ranges) (Parser.lines parts) := by
  apply Agrees.mapM h
  rintro _ _ ⟨hfirst, hle, hlast, rfl⟩
  obtain ⟨cells, hcells, hparts⟩ := exists_split Token.isAlignment hle (Nat.le_trans hlast hstop)
  dsimp only
  rw [hcells, pure_bind]
  apply Agrees.mapM hparts
  rintro _ _ ⟨_, hcell, _, rfl⟩
  exact cell_agrees hatom hcell (by omega) (by omega) (by omega)

end Nested

theorem step_marker {place : Script} (htoken : Holds tokens pos stop token)
    (hscript : token.script? = some place)
    : step tokens atom fuel pos stop = pure (.empty, pos) := by
  rw [step, htoken.index_eq, pure_bind]
  obtain ⟨kind, text, span⟩ := token
  unfold Token.script? at hscript
  split at hscript
  next hkind =>
    cases eq_of_beq hkind
    unfold Script.ofMarker? at hscript
    split at hscript
    next htext =>
      cases htext
      rfl
    next htext =>
      cases htext
      rfl
    next => contradiction
  next => contradiction

theorem atom_reads (tokens : List Token) (fuel : Nat)
    : Reads exprReader tokens fuel (RangeParser.atom tokens fuel) := by
  -- What is nested in an expression stands behind its first token, so it has a smaller range.
  induction fuel with
  | zero => exact reads_zero _ _ _
  | succ fuel ih =>
    constructor
    . intro pos stop token place htoken _ hscript
      exact step_marker htoken hscript
    . intro pos stop token htoken hsize hscript
      exact step_agrees ih htoken hscript hsize hsize

theorem parse_eq (hfuel : tokens.length < fuel)
    : parse fuel tokens = some (Typst.parse tokens) := by
  have hatom := atom_reads tokens fuel
  have hlt : tokens.length < 0 + fuel := by omega
  have hzero := Nat.zero_le tokens.length
  have hsplit (isSep : Token → Bool) := @exists_split tokens 0 _ isSep hzero (Nat.le_refl _)
  rw [part_all] at hsplit
  obtain ⟨aligned, haligned, hcuts⟩ :=
    hsplit fun token => token.isLineBreak || token.isAlignment
  apply Agrees.eq_some
  rw [parse, haligned, pure_bind, Typst.parse]
  dsimp only
  rw [hcuts.length_eq]
  split
  . have hsequence := sequence_agrees hatom hzero (Nat.le_refl _) (by omega) hlt
    rw [part_all] at hsequence
    exact hsequence.map_eq _
  . obtain ⟨ranges, hranges, hparts⟩ := hsplit Token.isLineBreak
    obtain ⟨kept, hkept, hparts⟩ := exists_dropBlankLine (Nat.le_refl _) hparts
    rw [hranges, pure_bind, hkept, pure_bind]
    exact (lines_agrees hatom (Nat.le_refl _) (by omega) hlt hparts).map_eq _

end Agreement

end RangeParser
end Typst
end MathMarkup
