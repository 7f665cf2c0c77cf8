import MathMarkup.Proofs.Tex.Nesting
import MathMarkup.Proofs.Tex.Reading
import MathMarkup.Proofs.Token.Positions

/-!
This module contains the reading of TeX formulas by positions. The readers here do not get a list of
the tokens that they may look at, but two positions in the list of all tokens. They are shown to
agree with the readers of `Parser`, so all their indices and ranges are valid, every expression uses
at least one token and the fuel is sufficient.
-/

namespace MathMarkup
namespace Tex

open Positions

namespace RangeParser

def signs : ExprSigns Kind Formula where
  script? := Token.script?
  isPrime := Token.isPrime
  brackets := "braces"
  empty := .empty
  attach := attachScripts

/--
The name of a command. Its text is cut behind the first byte, which has to be a character.
-/
def name (token : Token) : Checked String := do
  Checked.check (token.text.toList.head?.any (·.utf8Size = 1))
  return token.name

def isDelimiter (token : Token) : Checked Bool :=
  match token.kind with
  | .element => return elementDelimiters.contains token.text
  | .command => do
    let name ← name token
    return commandDelimiters.contains name
  | _ => return false

section Readers

variable (tokens : List Token)

/--
The trimmed text of the three tokens that make up raw text in braces.
-/
def bracedText (pos stop : Nat) : Checked (Option String) := do
  let front ← slice tokens 0 stop
  return bracedText? (front.drop pos)

/--
Read the columns of an environment, which only an array has.
-/
def columns (name : String) (pos stop : Nat) : Checked (Option String × Nat) := do
  if name == "array" then
    match ← bracedText tokens pos stop with
    | some spec => return (some spec, pos + 3)
    | none => return (none, pos)
  else
    return (none, pos)

def rawArgument (owner : Token) (pos stop : Nat) : Checked (String × Nat) :=
  afterSpaces Token.isSpace tokens (missingArgument owner) (fun token pos => do
    match ← bracedText tokens pos stop with
    | some text => return (text, pos + 3)
    | none =>
      if token.kind == .element then
        return (token.text, pos + 1)
      else
        throw (missingArgument owner)) pos stop

def delimiter (owner : Token) (pos stop : Nat) : Checked (Option String × Nat) :=
  afterSpaces Token.isSpace tokens (missingArgument owner) (fun token pos => do
    if ← isDelimiter token then
      return (if token.text == "." then none else some token.text, pos + 1)
    else
      throw { fault := .invalidDelimiter token.text, span := token.span }) pos stop

section Nested

variable (atom : (inEnv : Bool) → (pos stop : Nat) → Checked (Formula × Nat)) (fuel : Nat)

def argument (inEnv : Bool) (owner : Token) (pos stop : Nat) : Checked (Formula × Nat) :=
  afterSpaces Token.isSpace tokens (missingArgument owner) (fun (token : Token) pos =>
    if token.endsArgument then
      throw (missingArgument owner)
    else
      atom inEnv pos stop) pos stop

def expr (inEnv : Bool) (fuel pos stop : Nat) : Checked (Formula × Nat) :=
  Positions.expr signs (atom inEnv) (argument tokens atom inEnv) tokens fuel pos stop

def sequence (inEnv : Bool) (start stop : Nat) : Checked (List Formula) :=
  loop (fun _ => none) id (expr tokens atom inEnv) tokens fuel start stop

def grid (start stop : Nat) : Checked (List (List Formula)) := do
  let items ← loop GridItem.ofToken? .node (expr tokens atom true) tokens fuel start stop
  return GridItem.rows items

/--
Read a body between `\left` and `\right` with their delimiters.
-/
def leftRight (inEnv : Bool) (pos stop : Nat) : Checked (Formula × Nat) := do
  let left ← index tokens pos
  match ← findClosing tokens (·.is .command "\\left") (·.is .command "\\right") pos stop with
  | none =>
    throw
      { fault := .unclosedLeft, span := left.span,
        hints := ["use `\\right.` for an invisible delimiter"] }
  | some close =>
    let (opening, start) ← delimiter tokens left (pos + 1) close
    let right ← index tokens close
    let (closing, next) ← delimiter tokens right (close + 1) stop
    let body ← sequence tokens atom fuel inEnv start close
    return (.leftRight opening (.ofList body) closing, next)

/--
Read an environment from its name to the name after its `\end`.
-/
def environment (pos stop : Nat) : Checked (Formula × Nat) := do
  let start ← index tokens pos
  match ← bracedText tokens (pos + 1) stop with
  | none =>
    throw
      { fault := .invalidArgument "expected environment name after `\\begin`", span := start.span }
  | some name =>
    match ← findClosing tokens (·.is .command "\\begin") (·.is .command "\\end") pos stop with
    | none => throw { fault := .unclosedEnvironment name, span := start.span }
    | some close =>
      let (spec, body) ← columns tokens name (pos + 4) close
      let finish ← index tokens close
      match ← bracedText tokens (close + 1) stop with
      | none =>
        throw
          { fault := .invalidArgument "expected environment name after `\\end`",
            span := finish.span }
      | some finishName =>
        if finishName != name then
          throw { fault := .mismatchedEnvironment name finishName, span := finish.span }
        else
          let rows ← grid tokens atom fuel body close
          return (.env name spec rows, close + 4)

/--
Read the degree in brackets, if there is one. Only a root may have a degree.
-/
def degree (inEnv : Bool) (name : String) (pos stop : Nat) : Checked (Option Formula × Nat) := do
  if name != "sqrt" then
    return (none, pos)
  let blanks ← frontSize Token.isSpace tokens pos stop
  if pos + blanks < stop then
    let token ← index tokens (pos + blanks)
    if token.is .element "[" then
      match ← findClosing tokens (·.is .element "[") (·.is .element "]") (pos + blanks) stop with
      | none => throw { fault := .unclosedDelimiter "[", span := token.span }
      | some close =>
        let nodes ← sequence tokens atom fuel inEnv (pos + blanks + 1) close
        return (some (.ofList nodes), close + 1)
    else
      return (none, pos)
  else
    return (none, pos)

def arguments (inEnv : Bool) (owner : Token) (arity : Symbol.Arity) (pos stop : Nat) :
    Checked (List Formula × Nat) :=
  match arity with
  | .one => do
    let (arg, next) ← argument tokens atom inEnv owner pos stop
    return ([arg], next)
  | .two => do
    let (first, next) ← argument tokens atom inEnv owner pos stop
    let (second, next) ← argument tokens atom inEnv owner next stop
    return ([first, second], next)

def command (inEnv : Bool) (pos stop : Nat) : Checked (Formula × Nat) := do
  let token ← index tokens pos
  match ← name token with
  | "left" => leftRight tokens atom fuel inEnv pos stop
  | "right" => throw { fault := .unexpectedRight, span := token.span }
  | "begin" => environment tokens atom fuel pos stop
  | "end" =>
    let name ← bracedText tokens (pos + 1) stop
    throw { fault := .unexpectedEnd (name.getD ""), span := token.span }
  | name =>
    if ["text", "operatorname", "operatorname*", "hspace"].contains name then
      let (text, next) ← rawArgument tokens token (pos + 1) stop
      return (.call name [.text text], next)
    else
      match Symbol.arity? name with
      | none =>
        let node :=
          if (Symbol.toTypst? name).isSome then .symbol name else .unknown token.text
        return (node, pos + 1)
      | some arity =>
        let (degree, next) ← degree tokens atom fuel inEnv name (pos + 1) stop
        let (args, next) ← arguments tokens atom inEnv token arity next stop
        return (.func name args degree, next)

/--
Read an expression without scripts, where `atom` reads those inside of it. Nothing is used of a
script without a base.
-/
def step (inEnv : Bool) (pos stop : Nat) : Checked (Formula × Nat) := do
  let token ← index tokens pos
  match token.kind with
  | .element => return (.element token.text, pos + 1)
  | .text => return (.text token.text, pos + 1)
  | .comment => return (.comment token.text, pos + 1)
  | .space | .newline => return (.space token.text, pos + 1)
  | .unknown => return (.unknown token.text, pos + 1)
  | .command => command tokens atom fuel inEnv pos stop
  | .control =>
    match token.text with
    | "\x7b" =>
      match ← findClosing tokens (·.is .control "\x7b") (·.is .control "\x7d") pos stop with
      | none => throw { fault := .unclosedDelimiter "\x7b", span := token.span }
      | some close =>
        let nodes ← sequence tokens atom fuel inEnv (pos + 1) close
        return (.ofList nodes, close + 1)
    | "\x7d" => throw { fault := .unexpectedClose "\x7d", span := token.span }
    | "_" | "^" => return (.empty, pos)
    | "&" =>
      if inEnv then
        return (.control "&", pos + 1)
      else
        throw
          { fault := .strayCellSeparator, span := token.span,
            hints := ["cells can only be separated inside an environment like `aligned`"] }
    | "\\\\" =>
      if inEnv then
        return (.control "\\\\", pos + 1)
      else
        throw
          { fault := .strayRowSeparator, span := token.span,
            hints := ["rows can only be separated inside an environment like `aligned`"] }
    | text => return (.control text, pos + 1)

end Nested

/--
Read an expression without scripts. The fuel is spent on the expressions inside of it.
-/
def atom : (fuel : Nat) → (inEnv : Bool) → (pos stop : Nat) → Checked (Formula × Nat)
  | 0, _, _, _ => Checked.refused
  | fuel + 1, inEnv, pos, stop => step tokens (atom fuel) (fuel + 1) inEnv pos stop

end Readers

def parse (fuel : Nat) (tokens : List Token) : Checked Formula := do
  let tokens := stripScriptSpaces tokens
  let nodes ← sequence tokens (atom tokens fuel) fuel false 0 tokens.length
  return .ofList nodes

def exprReader (inEnv : Bool) : ExprReader Kind Formula where
  toExprSigns := signs
  atom := Parser.atom inEnv
  argument := Parser.argument inEnv
  script := Parser.script inEnv
  scripts := Parser.scripts inEnv
  expr := Parser.expr inEnv
  isPrime_of_script? _ _ := isPrime_of_script?
  script_eq found place owner tokens := by
    rw [Parser.script]
    rfl
  scripts_nil found := by rw [Parser.scripts]
  scripts_cons found token tokens := by
    rw [Parser.scripts]
    rfl
  expr_eq token tokens := by
    rw [Parser.expr]
    rfl

section Agreement

variable {tokens : List Token} {pos stop : Nat} {token : Token}

theorem name_eq (h : token.IsBackslashed) (hkind : token.kind = .command)
    : name token = pure token.name := by
  rw [name, h hkind, check_eq (by decide), pure_bind]

theorem isDelimiter_eq (h : token.IsBackslashed)
    : isDelimiter token = pure token.isDelimiter := by
  rw [isDelimiter, Token.isDelimiter]
  cases hkind : token.kind with
  | command => rw [name_eq h hkind, pure_bind]
  | _ => rfl

theorem bracedText_eq (hstop : stop ≤ tokens.length)
    : bracedText tokens pos stop = pure (bracedText? (part tokens pos stop)) := by
  rw [bracedText, slice_eq (Nat.zero_le stop) hstop, pure_bind, drop_part, Nat.zero_add]

theorem add_three_le {text : String} (hstop : stop ≤ tokens.length)
    (h : bracedText? (part tokens pos stop) = some text) : pos + 3 ≤ stop := by
  have hlength := @length_part _ tokens pos stop hstop
  obtain ⟨_, _, _, _, hpart, -⟩ := exists_of_bracedText? h
  rw [hpart] at hlength
  simp only [List.length_cons] at hlength
  omega

theorem rawArgument_agrees (owner : Token) (hpos : pos ≤ stop) (hstop : stop ≤ tokens.length)
    : Agrees (Ends pos stop) (rawArgument tokens owner pos stop)
      (Tex.rawArgument owner (part tokens pos stop)) := by
  apply afterSpaces_agrees hpos hstop rfl
  . intro hpart
    rw [Tex.rawArgument, drop_part, hpart]
    rfl
  . intro token htoken _
    rw [Tex.rawArgument, drop_part, bracedText_eq hstop, pure_bind]
    cases hraw : bracedText? (part tokens _ stop) with
    | some text =>
      have := add_three_le hstop hraw
      exact agrees_pure (.intro (by omega) this)
    | none =>
      rw [htoken.part_eq]
      have := htoken.lt
      dsimp only
      split
      . exact agrees_pure (.intro (by omega) htoken.lt)
      . exact agrees_throw _

theorem delimiter_agrees (h : ∀ token ∈ tokens, token.IsBackslashed) (owner : Token)
    (hpos : pos ≤ stop) (hstop : stop ≤ tokens.length)
    : Agrees (Ends pos stop) (delimiter tokens owner pos stop)
      (Tex.delimiter owner (part tokens pos stop)) := by
  apply afterSpaces_agrees hpos hstop rfl
  . intro hpart
    rw [Tex.delimiter, drop_part, hpart]
  . intro token htoken _
    rw [Tex.delimiter, drop_part, htoken.part_eq, isDelimiter_eq (h token htoken.mem), pure_bind]
    dsimp only
    split
    . exact agrees_pure (.intro (by omega) htoken.lt)
    . exact agrees_throw _

theorem columns_eq {name : String} {spec : Option String} (hpos : pos ≤ stop)
    (hstop : stop ≤ tokens.length)
    (hspec : (if name == "array" then bracedText? (part tokens pos stop) else none) = spec)
    : columns tokens name pos stop = pure (spec, pos + if spec.isSome then 3 else 0) ∧
        (pos + if spec.isSome then 3 else 0) ≤ stop := by
  subst hspec
  rw [columns]
  split
  . rw [bracedText_eq hstop, pure_bind]
    cases hraw : bracedText? (part tokens pos stop) with
    | some spec => exact ⟨rfl, add_three_le hstop hraw⟩
    | none => exact ⟨rfl, hpos⟩
  . exact ⟨rfl, hpos⟩

theorem closing?_bracedText {text : String} (h : bracedText? tokens = some text)
    : Token.closing? (·.is .command "\\begin") (·.is .command "\\end") 0 tokens =
      Token.later 3 (closingEnd? (tokens.drop 3)) := by
  obtain ⟨opener, raw, closer, rest, rfl, hopener, hraw, hcloser⟩ := exists_of_bracedText? h
  have hopener : opener.kind = .control := congrArg Prod.fst hopener
  have hcloser : closer.kind = .control := congrArg Prod.fst hcloser
  have hskips : Token.Skips (·.is .command "\\begin") (·.is .command "\\end")
      [opener, raw, closer] := by
    refine .cons ?_ ?_ (.cons ?_ ?_ (.cons ?_ ?_ Token.skips_nil))
    all_goals simp [Token.is, hopener, hraw, hcloser]
  exact hskips 0 rest

/--
Read the degree in brackets, and how many tokens it takes. Only a root may have a degree.
-/
def readDegree (inEnv : Bool) (name : String) (tokens : List Token)
    : Except ParseError (Option Formula × Nat) :=
  if name != "sqrt" then
    return (none, 0)
  else do
    match ← degree? tokens with
    | none => return (none, 0)
    | some (before, size) =>
      let nodes ← Parser.sequence inEnv ((tokens.drop before).take size)
      return (some (.ofList nodes), before + size + 1)

theorem command_eq {inEnv : Bool} (hleft : token.name ≠ "left")
    (hright : token.name ≠ "right") (hbegin : token.name ≠ "begin") (hend : token.name ≠ "end")
    : Parser.command inEnv token tokens =
      if ["text", "operatorname", "operatorname*", "hspace"].contains token.name then do
        let (text, used) ← Tex.rawArgument token tokens
        return (.call token.name [.text text], used)
      else
        match Symbol.arity? token.name with
        | none =>
          .ok (if (Symbol.toTypst? token.name).isSome then .symbol token.name
            else .unknown token.text, 0)
        | some arity => do
          let (degree, used) ← readDegree inEnv token.name tokens
          let (args, more) ← Parser.arguments inEnv token arity (tokens.drop used)
          return (.func token.name args degree, used + more) := by
  rw [Parser.command]
  split
  next hname => exact absurd hname hleft
  next hname => exact absurd hname hright
  next hname => exact absurd hname hbegin
  next hname => exact absurd hname hend
  congr
  funext arity
  have hnone (name : String) : (do
      let (args, used) ← Parser.arguments inEnv token arity tokens
      return (Formula.func name args none, used)) = (do
      let (args, more) ← Parser.arguments inEnv token arity (tokens.drop 0)
      return (Formula.func name args none, 0 + more)) := by
    simp only [Nat.zero_add, List.drop_zero]
  by_cases hroot : token.name = "sqrt"
  . simp only [readDegree, hroot]
    cases degree? tokens with
    | error error => rfl
    | ok found =>
      cases found with
      | none => exact hnone "sqrt"
      | some place =>
        obtain ⟨before, size⟩ := place
        simp only [bind, Except.bind]
        cases Parser.sequence inEnv ((tokens.drop before).take size) with
        | error error => rfl
        | ok nodes => rfl
  . have hname : (token.name == "sqrt") = false := beq_false_of_ne hroot
    simp only [readDegree, bne, hname]
    exact hnone token.name

section Nested

variable {atom : (inEnv : Bool) → (pos stop : Nat) → Checked (Formula × Nat)} {size fuel : Nat}
  (hatom : ∀ inEnv, Reads (exprReader inEnv) tokens size (atom inEnv)) (inEnv : Bool)

include hatom

theorem argument_agrees (owner : Token) (hpos : pos ≤ stop) (hstop : stop ≤ tokens.length)
    (hsize : stop ≤ pos + size)
    : Agrees (Ends pos stop) (argument tokens atom inEnv owner pos stop)
      (Parser.argument inEnv owner (part tokens pos stop)) := by
  have hskip (token : Token) (tokens : List Token) (hspace : token.isSpace)
      : Parser.argument inEnv owner (token :: tokens) = (do
          let (node, used) ← Parser.argument inEnv owner tokens
          return (node, used + 1)) := by
    rw [Parser.argument, if_pos hspace]
  rw [skip_spaces hskip, drop_part]
  apply afterSpaces_agrees hpos hstop rfl
  . intro hpart
    rw [hpart, Parser.argument]
    rfl
  . intro token htoken hspace
    rw [htoken.part_eq, Parser.argument, hspace, if_neg Bool.false_ne_true]
    split
    . exact agrees_throw _
    next hends =>
      rw [bind_assoc]
      apply ((hatom inEnv).agrees htoken (by omega) (Token.script?_eq_none hends)).map_right
      rintro _ _ ⟨rfl, hnext⟩
      exact .intro (by omega) hnext

theorem expr_agrees {token : Token} (htoken : Holds tokens pos stop token)
    (hsize : stop ≤ pos + size) (hfuel : stop < pos + fuel)
    : Agrees (Ends (pos + 1) stop) (expr tokens atom inEnv fuel pos stop)
      (Parser.expr inEnv token (part tokens (pos + 1) stop)) :=
  Positions.expr_agrees htoken.le
    (fun owner _ hpos hsize => argument_agrees hatom inEnv owner hpos htoken.le hsize)
    (hatom inEnv) htoken hsize hfuel

theorem sequence_agrees (hpos : pos ≤ stop) (hstop : stop ≤ tokens.length)
    (hsize : stop ≤ pos + size) (hfuel : stop < pos + fuel)
    : Agrees Eq (sequence tokens atom fuel inEnv pos stop)
      (Parser.sequence inEnv (part tokens pos stop)) := by
  refine loop_agrees (Parser.expr inEnv) hstop ?_ nofun ?_ ?_ (Nat.le_refl pos) hpos hfuel
  . rw [Parser.sequence]
  . intro token tokens _
    rw [Parser.sequence]
    rfl
  . intro fuel pos token htoken hstart hfuel
    exact expr_agrees hatom inEnv htoken (by omega) hfuel

theorem grid_agrees (hpos : pos ≤ stop) (hstop : stop ≤ tokens.length)
    (hsize : stop ≤ pos + size) (hfuel : stop < pos + fuel)
    : Agrees (fun rows items => rows = GridItem.rows items) (grid tokens atom fuel pos stop)
      (Parser.items (part tokens pos stop)) := by
  have hitems : Agrees Eq
      (loop GridItem.ofToken? .node (expr tokens atom true) tokens fuel pos stop)
      (Parser.items (part tokens pos stop)) := by
    refine loop_agrees (Parser.expr true) hstop ?_ ?_ ?_ ?_ (Nat.le_refl pos) hpos hfuel
    . rw [Parser.items]
    . intro token tokens item hitem
      rw [Parser.items, hitem]
    . intro token tokens hitem
      rw [Parser.items, hitem]
    . intro fuel pos token htoken hstart hfuel
      exact expr_agrees hatom true htoken (by omega) hfuel
  apply hitems.map_left
  rintro _ _ rfl
  rfl

theorem leftRight_agrees (h : ∀ token ∈ tokens, token.IsBackslashed)
    (htoken : Holds tokens pos stop token) (hsize : stop ≤ pos + size + 1)
    (hfuel : stop ≤ pos + fuel)
    : Agrees (Ends (pos + 1) stop) (leftRight tokens atom fuel inEnv pos stop)
      (Parser.leftRight inEnv token (part tokens (pos + 1) stop)) := by
  have hstop := htoken.le
  rw [leftRight, htoken.index_eq, pure_bind, htoken.findClosing_eq, pure_bind, Parser.leftRight,
    closingRight?]
  cases hclosing : Token.closing? _ _ 0 (part tokens (pos + 1) stop) with
  | none => exact agrees_throw _
  | some found =>
    obtain ⟨inner, right⟩ := found
    have hright := holds_of_closing? hstop hclosing
    have hclose := hright.lt
    dsimp only [Option.map_some]
    rw [take_part (Nat.le_of_lt hclose), drop_part, ← Nat.add_assoc]
    apply (delimiter_agrees h token (Nat.le_add_right _ inner) (by omega)).bind
    rintro _ _ ⟨rfl, hstart⟩
    dsimp only
    rw [hright.index_eq, pure_bind, drop_part]
    apply (delimiter_agrees h right hclose hstop).bind
    rintro _ _ ⟨rfl, hnext⟩
    apply (sequence_agrees hatom inEnv hstart (by omega) (by omega) (by omega)).map
    rintro body _ rfl
    exact .intro (by omega) hnext

theorem environment_agrees (htoken : Holds tokens pos stop token) (hsize : stop ≤ pos + size + 1)
    (hfuel : stop ≤ pos + fuel)
    : Agrees (Ends (pos + 1) stop) (environment tokens atom fuel pos stop)
      (Parser.environment token (part tokens (pos + 1) stop)) := by
  have hstop := htoken.le
  rw [environment, htoken.index_eq, pure_bind, bracedText_eq hstop, pure_bind, Parser.environment]
  cases hname : bracedText? (part tokens (pos + 1) stop) with
  | none => exact agrees_throw _
  | some name =>
    dsimp only
    rw [htoken.findClosing_eq, closing?_bracedText hname, drop_part, pure_bind, closingEnd?]
    cases hclosing : Token.closing? _ _ 0 (part tokens (pos + 1 + 3) stop) with
    | none => exact agrees_throw _
    | some found =>
      obtain ⟨inner, finish⟩ := found
      have hfinish := holds_of_closing? hstop hclosing
      have hclose := hfinish.lt
      have hstart : pos + 1 + 3 = pos + 4 := rfl
      have hend : pos + 1 + (3 + inner) = pos + 4 + inner := by omega
      dsimp only [Option.map_some, Token.later]
      rw [hend, hstart, take_part (by omega), drop_part, ← Nat.add_assoc]
      rw [hstart] at hfinish
      generalize hspec : (if name == "array" then
        bracedText? (part tokens (pos + 4) (pos + 4 + inner)) else none) = spec
      obtain ⟨hcolumns, hbody⟩ := columns_eq (Nat.le_add_right _ _) (by omega) hspec
      rw [hcolumns, pure_bind, hfinish.index_eq, pure_bind, bracedText_eq hstop, pure_bind]
      cases hlast : bracedText? (part tokens (pos + 4 + inner + 1) stop) with
      | none => exact agrees_throw _
      | some last =>
        have hnext := add_three_le hstop hlast
        dsimp only
        split
        . exact agrees_throw _
        . rw [drop_part]
          apply (grid_agrees hatom hbody (by omega) (by omega) (by omega)).map
          rintro _ items rfl
          exact .intro (by omega) hnext

theorem degree_agrees (name : String) (hpos : pos ≤ stop) (hstop : stop ≤ tokens.length)
    (hsize : stop ≤ pos + size) (hfuel : stop < pos + fuel)
    : Agrees (Ends pos stop) (degree tokens atom fuel inEnv name pos stop)
      (readDegree inEnv name (part tokens pos stop)) := by
  rw [degree, readDegree]
  split
  . exact agrees_pure (.intro rfl hpos)
  rw [frontSize_eq _ hpos hstop, pure_bind, degree?, drop_part]
  generalize Token.countFront Token.isSpace (part tokens pos stop) = blanks
  split
  next hlt =>
    obtain ⟨token, htoken⟩ := exists_holds hlt hstop
    rw [htoken.index_eq, pure_bind, htoken.part_eq]
    dsimp only
    split
    . rw [htoken.findClosing_eq, pure_bind, closingBracket?]
      cases hclosing : Token.closing? _ _ 0 (part tokens (pos + blanks + 1) stop) with
      | none => exact agrees_throw _
      | some found =>
        obtain ⟨inner, finish⟩ := found
        have hclose := (holds_of_closing? hstop hclosing).lt
        dsimp only [Option.map_some, bind, Except.bind]
        rw [drop_part, ← Nat.add_assoc, take_part (Nat.le_of_lt hclose)]
        apply (sequence_agrees hatom inEnv (by omega) (by omega) (by omega) (by omega)).map
        rintro _ _ rfl
        exact .intro (by omega) hclose
    . exact agrees_pure (.intro rfl hpos)
  next hlt =>
    rw [part_eq_nil (by omega)]
    exact agrees_pure (.intro rfl hpos)

theorem arguments_agrees (owner : Token) (arity : Symbol.Arity) (hpos : pos ≤ stop)
    (hstop : stop ≤ tokens.length) (hsize : stop ≤ pos + size)
    : Agrees (Ends pos stop) (arguments tokens atom inEnv owner arity pos stop)
      (Parser.arguments inEnv owner arity (part tokens pos stop)) := by
  have hfirst := argument_agrees hatom inEnv owner hpos hstop hsize
  cases arity with
  | one =>
    rw [Parser.arguments]
    apply hfirst.map
    rintro _ _ ⟨rfl, hnext⟩
    exact .intro rfl hnext
  | two =>
    rw [Parser.arguments]
    apply hfirst.bind
    rintro _ _ ⟨rfl, hnext⟩
    dsimp only
    rw [drop_part]
    apply (argument_agrees hatom inEnv owner hnext hstop (by omega)).map
    rintro _ _ ⟨rfl, hmore⟩
    exact .intro (by omega) hmore

theorem command_agrees (h : ∀ token ∈ tokens, token.IsBackslashed)
    (htoken : Holds tokens pos stop token) (hkind : token.kind = .command)
    (hsize : stop ≤ pos + size + 1) (hfuel : stop ≤ pos + fuel)
    : Agrees (Ends (pos + 1) stop) (command tokens atom fuel inEnv pos stop)
      (Parser.command inEnv token (part tokens (pos + 1) stop)) := by
  have hpos := htoken.lt
  have hstop := htoken.le
  rw [command, htoken.index_eq, pure_bind, name_eq (h token htoken.mem) hkind, pure_bind]
  split
  next hname =>
    rw [Parser.command, hname]
    exact leftRight_agrees hatom inEnv h htoken hsize hfuel
  next hname =>
    rw [Parser.command, hname]
    exact agrees_throw _
  next hname =>
    rw [Parser.command, hname]
    exact environment_agrees hatom htoken hsize hfuel
  next hname =>
    rw [Parser.command, hname, bracedText_eq hstop, pure_bind]
    exact agrees_throw _
  next hleft hright hbegin hend =>
    rw [command_eq hleft hright hbegin hend]
    split
    . apply (rawArgument_agrees token hpos hstop).map
      rintro _ _ ⟨rfl, hnext⟩
      exact .intro rfl hnext
    cases Symbol.arity? token.name with
    | none => exact agrees_pure (.intro rfl hpos)
    | some arity =>
      apply (degree_agrees hatom inEnv token.name hpos hstop (by omega) (by omega)).bind
      rintro _ _ ⟨rfl, hnext⟩
      dsimp only
      rw [drop_part]
      apply (arguments_agrees hatom inEnv token arity hnext hstop (by omega)).map
      rintro _ _ ⟨rfl, hmore⟩
      exact .intro (by omega) hmore

theorem step_agrees (h : ∀ token ∈ tokens, token.IsBackslashed)
    (htoken : Holds tokens pos stop token) (hscript : token.script? = none)
    (hsize : stop ≤ pos + size + 1) (hfuel : stop ≤ pos + fuel)
    : Agrees (Ends (pos + 1) stop) (step tokens atom fuel inEnv pos stop)
      (Parser.atom inEnv token (part tokens (pos + 1) stop)) := by
  have hpos := htoken.lt
  have hstop := htoken.le
  have hone (node : Formula)
      : Agrees (Ends (pos + 1) stop) (pure (node, pos + 1)) (.ok (node, 0)) :=
    agrees_pure (.intro rfl hpos)
  rw [step, htoken.index_eq, pure_bind, Parser.atom]
  cases hkind : token.kind with
  | command => exact command_agrees hatom inEnv h htoken hkind hsize hfuel
  | control =>
    rw [Token.script?, hkind] at hscript
    dsimp only
    split
    next htext =>
      rw [htext, htoken.findClosing_eq, pure_bind, closingBrace?]
      cases hclosing : Token.closing? _ _ 0 (part tokens (pos + 1) stop) with
      | none => exact agrees_throw _
      | some found =>
        obtain ⟨inner, closer⟩ := found
        have hclose := (holds_of_closing? hstop hclosing).lt
        dsimp only [Option.map_some]
        rw [take_part (Nat.le_of_lt hclose)]
        apply (sequence_agrees hatom inEnv (by omega) (by omega) (by omega) (by omega)).map
        rintro _ _ rfl
        exact .intro (by omega) hclose
    next htext =>
      rw [htext]
      exact agrees_throw _
    next htext => simp [htext, Script.ofMarker?] at hscript
    next htext => simp [htext, Script.ofMarker?] at hscript
    next htext =>
      rw [htext]
      cases inEnv with
      | true => exact hone _
      | false => exact agrees_throw _
    next htext =>
      rw [htext]
      cases inEnv with
      | true => exact hone _
      | false => exact agrees_throw _
    next =>
      split
      . contradiction
      . contradiction
      . contradiction
      . contradiction
      . exact hone _
  | _ => exact hone _

end Nested

theorem step_marker
    {atom : (inEnv : Bool) → (pos stop : Nat) → Checked (Formula × Nat)} {fuel : Nat}
    {inEnv : Bool} {place : Script} (htoken : Holds tokens pos stop token)
    (hscript : token.script? = some place)
    : step tokens atom fuel inEnv pos stop = pure (.empty, pos) := by
  rw [step, htoken.index_eq, pure_bind]
  obtain ⟨kind, text, span⟩ := token
  unfold Token.script? at hscript
  split at hscript
  next hkind =>
    cases eq_of_beq hkind
    unfold Script.ofMarker? at hscript
    split at hscript
    next htext =>
      cases htext
      rfl
    next htext =>
      cases htext
      rfl
    next => contradiction
  next => contradiction

theorem atom_reads (h : ∀ token ∈ tokens, token.IsBackslashed) (fuel : Nat) (inEnv : Bool)
    : Reads (exprReader inEnv) tokens fuel (atom tokens fuel inEnv) := by
  -- What is nested in an expression stands behind its first token, so it has a smaller range.
  induction fuel generalizing inEnv with
  | zero => exact reads_zero _ _ _
  | succ fuel ih =>
    constructor
    . intro pos stop token place htoken _ hscript
      exact step_marker htoken hscript
    . intro pos stop token htoken hsize hscript
      exact step_agrees ih inEnv h htoken hscript hsize hsize

theorem parse_eq {fuel : Nat} (h : ∀ token ∈ tokens, token.IsBackslashed)
    (hfuel : tokens.length < fuel) : parse fuel tokens = some (Tex.parse tokens) := by
  have hsub := stripScriptSpaces_go_sublist false tokens
  have hlength := hsub.length_le
  have hback : ∀ token ∈ stripScriptSpaces tokens, token.IsBackslashed :=
    fun token htoken => h token (hsub.mem htoken)
  have hlt : (stripScriptSpaces tokens).length < 0 + fuel := by
    rw [stripScriptSpaces]
    omega
  have hsequence := sequence_agrees (atom_reads hback fuel) false (Nat.zero_le _) (Nat.le_refl _)
    (Nat.le_of_lt hlt) hlt
  rw [part_all] at hsequence
  apply Agrees.eq_some
  exact hsequence.map_eq _

end Agreement

end RangeParser
end Tex
end MathMarkup
