import Mathlib.Data.List.TakeWhile
import MathMarkup.Proofs.Script
import MathMarkup.Proofs.Tex.Regular
import MathMarkup.Proofs.Tex.ErrorPlaces

/-!
This module contains how a digit without braces is read as a script or as the last argument of a
command: what it is read as is given by the braces that may be put around it. A script takes the
digit alone unless a fraction follows it, and so does the argument of a command that has only one.
The second of two arguments takes the whole number.
-/

namespace MathMarkup
namespace Tex

open Text Scan

/--
What a text is read as, with no regard to the place of an error.
-/
def reading (cs : List Char) : Except ParseError Formula :=
  (parseText (String.ofList cs)).mapError ParseError.unplaced

theorem reading_eq (cs : List Char) : reading cs = parse ((lex cs).map Lexeme.token) := by
  rw [reading, mapError_parseText, String.toList_ofList]

/--
Split off the number at the front of a text. A point belongs to it only between digits.
-/
def splitNumber (cs : List Char) : List Char × List Char :=
  match cs.dropWhile Char.isDigit with
  | '.' :: rest =>
    match rest.takeWhile Char.isDigit with
    | [] => (cs.takeWhile Char.isDigit, '.' :: rest)
    | fraction =>
      (cs.takeWhile Char.isDigit ++ '.' :: fraction, rest.dropWhile Char.isDigit)
  | rest => (cs.takeWhile Char.isDigit, rest)

example : splitNumber "12.50.3".toList = ("12.50".toList, ".3".toList) := by decide

section Numbers

variable {digit : Char} (hdigit : digit.isDigit) (cs : List Char)

theorem splitNumber_append : (splitNumber cs).1 ++ (splitNumber cs).2 = cs := by
  have hwhole := List.takeWhile_append_dropWhile (p := Char.isDigit) (l := cs)
  unfold splitNumber
  split
  next rest hrest =>
    split
    . rwa [← hrest]
    . rw [List.append_assoc, List.cons_append, List.takeWhile_append_dropWhile, ← hrest, hwhole]
  . exact hwhole

include hdigit in
theorem isNumber_splitNumber : IsNumber (splitNumber (digit :: cs)).1 := by
  have hne : (digit :: cs).takeWhile Char.isDigit ≠ [] := by
    rw [List.takeWhile_cons_of_pos hdigit]
    exact List.cons_ne_nil _ _
  have hdigits : ∀ c ∈ (digit :: cs).takeWhile Char.isDigit, c.isDigit :=
    fun c hc => List.mem_takeWhile_imp hc
  unfold splitNumber
  split
  next rest _ =>
    split
    . exact ⟨_, [], hdigits, hne, List.forall_mem_nil _, .inl rfl⟩
    next hfraction =>
      exact ⟨_, _, hdigits, hne, fun c hc => List.mem_takeWhile_imp hc, .inr ⟨hfraction, rfl⟩⟩
  . exact ⟨_, [], hdigits, hne, List.forall_mem_nil _, .inl rfl⟩

include hdigit in
theorem number_splitNumber
    : Rule.number Kind.element (digit :: cs) =
      some (.verbatim .element (splitNumber (digit :: cs)).1) := by
  unfold Rule.number splitNumber
  rw [List.takeWhile_cons_of_pos hdigit, List.dropWhile_cons_of_pos hdigit]
  cases cs.dropWhile Char.isDigit with
  | nil => rfl
  | cons c rest =>
    by_cases hpoint : c = '.'
    . subst hpoint
      cases hfraction : rest.takeWhile Char.isDigit with
      | nil => simp [hfraction]
      | cons first fraction => simp [hfraction]
    . simp [hpoint]

include hdigit in
theorem lex_splitNumber
    : lex (digit :: cs) = (.element, String.ofList (splitNumber (digit :: cs)).1) ::
        lex (splitNumber (digit :: cs)).2 := by
  have hrule := number_splitNumber hdigit cs
  have happend := splitNumber_append (digit :: cs)
  obtain ⟨first, digits, _, hnumber⟩ := (isNumber_splitNumber hdigit cs).exists_digit
  rw [hnumber] at hrule happend ⊢
  have hbest := best_of_number hdigit hrule (Nat.succ_pos _)
  generalize (splitNumber (digit :: cs)).2 = rest at happend
  rw [← happend] at hbest ⊢
  exact cut_of_verbatim digits hbest

end Numbers

section Braces

theorem lex_cons_brace (rest : List Char)
    : lex ('{' :: rest) = (.control, "\x7b") :: lex rest ∧
      lex ('}' :: rest) = (.control, "\x7d") :: lex rest :=
  ⟨lex_single rfl rest, lex_single rfl rest⟩

theorem lex_braced_number {number : List Char} (h : IsNumber number) (rest : List Char)
    : lex ('{' :: number ++ '}' :: rest) =
      (.control, "\x7b") :: (.element, String.ofList number) :: (.control, "\x7d") :: lex rest := by
  have hends : EndsNumber ('}' :: rest) := ⟨by simp [NotStartsWith], nofun⟩
  rw [List.cons_append, (lex_cons_brace _).1, lex_number h hends, (lex_cons_brace _).2]

theorem lex_command_digit {name : List Char} {digit : Char} (hname : ∀ c ∈ name, c.isAlpha)
    (hne : name ≠ []) (hraw : String.ofList name ∉ rawCommands)
    (harity : Symbol.arity? (String.ofList name) = some .one) (hdigit : digit.isDigit)
    (rest : List Char)
    : lex ('\\' :: name ++ digit :: rest) =
      (.command, String.ofList ('\\' :: name)) :: (.element, String.ofList [digit]) ::
        lex rest := by
  have halpha : NotStartsWith Char.isAlpha (digit :: rest) := by
    rw [notStartsWith_cons, Bool.eq_false_iff]
    intro halpha
    rw [isDigit_of_isAlpha halpha] at hdigit
    contradiction
  have hcommand := command?_append hname hne halpha
  have hargument : bareArgument? (digit :: rest) = some (digit, rest) := by
    have hblank := isBlank_of_isDigit hdigit
    simp [bareArgument?, trimStart, hblank, isDecimal, hdigit]
  have hsize : ('\\' :: name ++ digit :: rest).length - rest.length = name.length + 2 := by
    simp only [List.length_append, List.length_cons]
    omega
  have htwo : bareArguments ('\\' :: name ++ digit :: rest) = none := by
    simp only [bareArguments, hcommand, hargument, harity, Option.bind_eq_bind, Option.bind_some]
    split
    . simp
    . rfl
  have hone : bareArgument ('\\' :: name ++ digit :: rest) =
      some (.whole (name.length + 2) [(.command, String.ofList ('\\' :: name)),
        (.element, digit.toString)]) := by
    simp only [bareArgument, hcommand, hargument, harity, hsize, Option.bind_eq_bind,
      Option.bind_some]
    rfl
  have hbegin : name ≠ "begin".toList := by
    rintro rfl
    exact absurd (by decide) hraw
  have htext : textArgument ('\\' :: name ++ digit :: rest) = none := by
    simp [textArgument, textCommand?_append hname halpha hraw]
  have hbest : best rules ('\\' :: name ++ digit :: rest) =
      some (.whole (name.length + 2) [(.command, String.ofList ('\\' :: name)),
        (.element, digit.toString)]) := by
    refine (best_of_none (arrayStart_append hname halpha hbegin)).trans
      ((best_of_none htext).trans ?_)
    refine (best_command hname hne).trans ((best_of_none htwo).trans ?_)
    apply best_cons hone (Nat.succ_pos _)
    intro other hother
    obtain ⟨rule, hrule, heq⟩ := exists_rule_of_best hother
    rw [List.mem_singleton.mp hrule] at heq
    simp only [plainCommand, hcommand, Option.bind_eq_bind, Option.bind_some] at heq
    cases heq
    simp [Match.verbatim, Match.whole]
  refine cut_of_best hbest ?_ (List.cons_ne_nil _ _)
  rw [List.append_cons]
  apply List.drop_left'
  simp [Match.whole, Match.consumed]

end Braces

section Parse

variable {token : Token} {tokens rest : List Token} {base : Except ParseError Formula}
  {node : Formula}

/--
Read what follows a base: its primes, its scripts and the formulas behind it.
-/
def afterBase (base : Formula) (rest : List Token) : Except ParseError (List Formula) := do
  let primes := Token.countFront Token.isPrime rest
  let (found, more) ← Parser.scripts false { primes } (rest.drop primes)
  let nodes ← Parser.sequence false (rest.drop (primes + more))
  return attachScripts found base :: nodes

theorem sequence_base (hscript : token.script? = none)
    (h : Parser.atom false token (tokens ++ rest) = (fun node => (node, tokens.length)) <$> base)
    : Parser.sequence false (token :: (tokens ++ rest)) = base >>= (afterBase · rest) := by
  rw [Parser.sequence, Parser.expr, hscript]
  simp only [h]
  cases base with
  | error error => rfl
  | ok base =>
    have hdrop (count : Nat) : (tokens ++ rest).drop (tokens.length + count) = rest.drop count := by
      rw [← List.drop_drop, List.drop_left]
    simp only [Functor.map, Except.map, bind, Except.bind, List.drop_left, hdrop, afterBase]
    cases Parser.scripts false { primes := Token.countFront Token.isPrime rest }
        (rest.drop (Token.countFront Token.isPrime rest)) with
    | error error => rfl
    | ok found =>
      simp only [pure, Except.pure, Nat.add_assoc, hdrop]

def afterScript (base : Formula) (place : Script) (script : Formula) (rest : List Token)
    : Except ParseError (List Formula) := do
  let primes := if place = .sub then Token.countFront Token.isPrime rest else 0
  let (found, more) ←
    Parser.scripts false ((Scripts.insert {} script place).addPrimes primes) (rest.drop primes)
  let nodes ← Parser.sequence false (rest.drop (primes + more))
  return attachScripts found base :: nodes

theorem afterBase_script {marker : Token} {place : Script} (hmarker : marker.script? = some place)
    (h : Argument tokens node) (base : Formula)
    : afterBase base (marker :: (tokens ++ rest)) = afterScript base place node rest := by
  have hprimes : Token.countFront Token.isPrime (marker :: (tokens ++ rest)) = 0 := by
    simp [Token.countFront, isPrime_of_script? hmarker]
  have hfree : Scripts.get? {} place = (none : Option Formula) := by
    cases place with
    | sub => rfl
    | sup => rfl
  have hdrop (count : Nat) : (tokens ++ rest).drop (tokens.length + count) = rest.drop count := by
    rw [← List.drop_drop, List.drop_left]
  have hscripts := scriptReader.scripts_cons {} place marker (tokens ++ rest) hmarker hfree
  have hisPrime : scriptSigns.isPrime = Token.isPrime := rfl
  simp only [scriptReader, h.argument_eq, hisPrime, bind, Except.bind, List.drop_left,
    hdrop] at hscripts
  rw [afterBase, hprimes, List.drop_zero]
  simp only [hscripts, afterScript, bind, Except.bind]
  generalize (if place = .sub then Token.countFront Token.isPrime rest else 0) = primes
  cases Parser.scripts false ((Scripts.insert {} node place).addPrimes primes)
      (rest.drop primes) with
  | error error => rfl
  | ok found =>
    have hsize : 0 + (1 + (tokens.length + primes) + found.2) =
        tokens.length + (primes + found.2) + 1 := by omega
    simp only [pure, Except.pure, hsize, List.drop_succ_cons, hdrop]

theorem sequence_script {letter marker : Token} {place : Script} (hletter : letter.kind = .element)
    (hmarker : marker.script? = some place) (h : Argument tokens node)
    : Parser.sequence false (letter :: marker :: (tokens ++ rest)) =
      afterScript (.element letter.text) place node rest := by
  have hscript : letter.script? = none := by simp [Token.script?, hletter]
  have hatom : Parser.atom false letter ([] ++ marker :: (tokens ++ rest)) =
      (fun node => (node, 0)) <$> .ok (.element letter.text) := by
    rw [Parser.atom, hletter]
    rfl
  have hbase := sequence_base hscript hatom
  rw [List.nil_append] at hbase
  rw [hbase]
  exact afterBase_script hmarker h _

theorem degree?_cons (hspace : token.isSpace = false) (hbracket : token.is .element "[" = false)
    : degree? (token :: rest) = .ok none := by
  rw [degree?]
  simp [Token.countFront, hspace, hbracket]

theorem sequence_one {owner : Token} (hkind : owner.kind = .command)
    (hname : owner.name ∉ Symbol.reserved) (harity : Symbol.arity? owner.name = some .one)
    (hdegree : degree? (tokens ++ rest) = .ok none) (h : Argument tokens node)
    : Parser.sequence false (owner :: (tokens ++ rest)) =
      afterBase (.func owner.name [node] none) rest := by
  have hbegins := begins_command hkind
  have hatom : Parser.atom false owner (tokens ++ rest) =
      (fun node => (node, tokens.length)) <$> .ok (.func owner.name [node] none) := by
    rw [atom_command hkind, command_func hname harity hdegree, Parser.arguments, h.argument_eq]
    rfl
  exact sequence_base hbegins.script? hatom

theorem sequence_two {owner opener closer : Token} {inner : List Token}
    (hkind : owner.kind = .command) (hname : owner.name ∉ Symbol.reserved)
    (harity : Symbol.arity? owner.name = some .two) (hopener : scriptSigns.opens opener)
    (hcloser : scriptSigns.closes closer)
    (hinner : Token.Balanced scriptSigns.opens scriptSigns.closes inner) (h : Argument tokens node)
    : Parser.sequence false (owner :: opener :: (inner ++ closer :: (tokens ++ rest))) = (do
        let nodes ← Parser.sequence false inner
        afterBase (.func owner.name [.ofList nodes, node] none) rest) := by
  have hbrace := is_iff.mp hopener
  have hdegree : degree? (opener :: (inner ++ closer :: tokens) ++ rest) = .ok none :=
    degree?_cons (begins_brace hbrace).isSpace (is_eq_false_iff.mpr (by simp [hbrace]))
  have hlist : opener :: (inner ++ closer :: (tokens ++ rest)) =
      opener :: (inner ++ closer :: tokens) ++ rest := by simp
  have hdrop : (opener :: (inner ++ closer :: (tokens ++ rest))).drop (inner.length + 2) =
      tokens ++ rest := by
    rw [List.drop_succ_cons, drop_left_succ]
  have hatom : Parser.atom false owner (opener :: (inner ++ closer :: tokens) ++ rest) =
      (fun node => (node, (opener :: (inner ++ closer :: tokens)).length)) <$> (do
        let nodes ← Parser.sequence false inner
        return .func owner.name [.ofList nodes, node] none) := by
    rw [atom_command hkind, command_func hname harity hdegree,
      Parser.arguments, ← hlist, argument_braces hopener hcloser hinner]
    cases Parser.sequence false inner with
    | error error => rfl
    | ok nodes =>
      simp only [Functor.map, Except.map, bind, Except.bind, hdrop, h.argument_eq, pure,
        Except.pure, List.length_cons, List.length_append]
      congr 2
      omega
  rw [hlist, sequence_base (begins_command hkind).script? hatom]
  cases Parser.sequence false inner with
  | error error => rfl
  | ok nodes => rfl

end Parse

/--
Tokens that are read as an argument and keep the spaces around them.
-/
structure Standalone (tokens : List Token) (node : Formula) : Prop where
  argument : Argument tokens node
  degree? : ∀ rest, degree? (tokens ++ rest) = .ok none
  strip : ∀ afterMarker rest, stripScriptSpaces.go afterMarker (tokens ++ rest) =
    tokens ++ stripScriptSpaces.go false rest

section Standalone

variable {number : List Char} {rest : List Token} {tokens : List Token} {node : Formula}

theorem ofList_ne_of_isNumber (h : IsNumber number) {text : String}
    (htext : NotStartsWith Char.isDigit text.toList) : String.ofList number ≠ text := by
  obtain ⟨digit, digits, hdigit, rfl⟩ := h.exists_digit
  rintro rfl
  rw [String.toList_ofList, notStartsWith_cons, hdigit] at htext
  contradiction

theorem atomic_number (h : IsNumber number)
    : Atomic [Lexeme.token (.element, String.ofList number)] (.element (String.ofList number)) :=
  @atomic_element (Lexeme.token (.element, String.ofList number)) rfl
    (ofList_ne_of_isNumber h (by decide))

theorem standalone_number (h : IsNumber number)
    : Standalone [Lexeme.token (.element, String.ofList number)]
      (.element (String.ofList number)) where
  argument := .intro (List.forall_mem_nil _) (atomic_number h)
  degree? rest := by
    refine degree?_cons rfl (is_eq_false_iff.mpr ?_)
    intro heq
    exact ofList_ne_of_isNumber h (by decide) (congrArg Prod.snd heq)
  strip afterMarker rest := by
    rw [List.singleton_append, strip_cons rfl]
    rfl

theorem standalone_braces (h : IsNumber number)
    : Standalone [Lexeme.token (.control, "\x7b"), Lexeme.token (.element, String.ofList number),
        Lexeme.token (.control, "\x7d")] (.element (String.ofList number)) where
  argument := by
    have hskips : Bracket.brace.Skips [Lexeme.token (.element, String.ofList number)] :=
      Token.skips_nil.cons rfl rfl
    exact .intro (List.forall_mem_nil _) (atomic_braces rfl rfl hskips (atomic_number h).readsAs)
  degree? rest := degree?_cons rfl rfl
  strip afterMarker rest := by
    simp only [List.cons_append, List.nil_append]
    rw [strip_cons rfl, strip_cons rfl, strip_cons rfl]
    rfl

theorem parse_script {letter marker : Token} {place : Script} (hletter : letter.kind = .element)
    (hmarker : marker.script? = some place) (h : Standalone tokens node)
    : parse (letter :: marker :: (tokens ++ rest)) = Formula.ofList <$>
        afterScript (.element letter.text) place node (stripScriptSpaces rest) := by
  have hspace : letter.isSpace = false := by simp [Token.isSpace, hletter]
  have hstrip : stripScriptSpaces (letter :: marker :: (tokens ++ rest)) =
      letter :: marker :: (tokens ++ stripScriptSpaces rest) := by
    rw [stripScriptSpaces, strip_cons hspace, strip_cons (isSpace_of_script? hmarker), h.strip]
    rfl
  rw [parse, hstrip, sequence_script hletter hmarker h.argument]
  rfl

theorem parse_one {owner : Token} (hkind : owner.kind = .command)
    (hname : owner.name ∉ Symbol.reserved) (harity : Symbol.arity? owner.name = some .one)
    (h : Standalone tokens node)
    : parse (owner :: (tokens ++ rest)) = Formula.ofList <$>
        afterBase (.func owner.name [node] none) (stripScriptSpaces rest) := by
  have hspace : owner.isSpace = false := by simp [Token.isSpace, hkind]
  have hstrip : stripScriptSpaces (owner :: (tokens ++ rest)) =
      owner :: (tokens ++ stripScriptSpaces rest) := by
    rw [stripScriptSpaces, strip_cons hspace, h.strip]
    rfl
  rw [parse, hstrip, sequence_one hkind hname harity (h.degree? _) h.argument]
  rfl

theorem parse_two {owner opener closer : Token} {inner : List Token} (hkind : owner.kind = .command)
    (hname : owner.name ∉ Symbol.reserved) (harity : Symbol.arity? owner.name = some .two)
    (hopener : scriptSigns.opens opener) (hcloser : scriptSigns.closes closer)
    (hinner : Token.Balanced scriptSigns.opens scriptSigns.closes inner)
    (h : Standalone tokens node)
    : parse (owner :: opener :: (inner ++ closer :: (tokens ++ rest))) = Formula.ofList <$> (do
        let nodes ← Parser.sequence false (stripScriptSpaces inner)
        afterBase (.func owner.name [.ofList nodes, node] none) (stripScriptSpaces rest)) := by
  have hspace : owner.isSpace = false := by simp [Token.isSpace, hkind]
  have hstrip : stripScriptSpaces (owner :: opener :: (inner ++ closer :: (tokens ++ rest))) =
      owner :: opener :: (stripScriptSpaces inner ++ closer ::
        (tokens ++ stripScriptSpaces rest)) := by
    have hmarker : opener.isMarker = false := isMarker_of_lexeme (is_iff.mp hopener) fun _ => rfl
    rw [stripScriptSpaces, strip_cons hspace, strip_cons (begins_brace (is_iff.mp hopener)).isSpace,
      hmarker, strip_brace hcloser rfl, h.strip]
    rfl
  have hstripped : Token.Balanced scriptSigns.opens scriptSigns.closes (stripScriptSpaces inner) :=
    balanced_strip hinner
  rw [parse, hstrip, sequence_two hkind hname harity hopener hcloser hstripped h.argument]
  rfl

end Standalone

/--
Text in braces that is cut into these lexemes, whatever follows the braces.
-/
structure Encloses (inner : List Char) (lexemes : List Lexeme) : Prop where
  lex_eq : ∀ rest, lex (inner ++ '}' :: rest) = lexemes ++ (.control, "\x7d") :: lex rest
  balanced : Token.Balanced scriptSigns.opens scriptSigns.closes (lexemes.map Lexeme.token)

theorem encloses_elements {inner : List Char} (h : ∀ c ∈ inner, singleKind? c = some .element)
    : Encloses inner (inner.map fun c => (.element, String.ofList [c])) := by
  induction inner with
  | nil => exact ⟨fun rest => (lex_cons_brace rest).2, Token.balanced_nil⟩
  | cons c inner ih =>
    rw [List.forall_mem_cons] at h
    have hinner := ih h.2
    refine ⟨fun rest => ?_, ?_⟩
    . rw [List.cons_append, lex_single h.1, hinner.lex_eq]
      rfl
    . exact (Token.balanced_cons_iff scriptSigns.opens_of_closes rfl rfl).mpr hinner.balanced

section Reading

variable {number rest : List Char}

theorem reading_script {letter marker : Char} {cs : List Char} (hletter : letter.isAlpha)
    (hmarker : marker ∈ ['_', '^']) (hnumber : IsNumber number)
    (hlex : lex (marker :: cs) = (.control, String.ofList [marker]) ::
      (.element, String.ofList number) :: lex rest)
    : reading (letter :: marker :: cs) =
      reading (letter :: marker :: '{' :: number ++ '}' :: rest) := by
  have hsingle := Formula.isWord_char (.inl hletter)
  obtain ⟨place, hplace⟩ : ∃ place,
      (Lexeme.token (.control, String.ofList [marker])).script? = some place := by
    simp only [List.mem_cons, List.not_mem_nil, or_false] at hmarker
    rcases hmarker with rfl | rfl
    . exact ⟨.sub, rfl⟩
    . exact ⟨.sup, rfl⟩
  have hbraced : lex (marker :: ('{' :: number ++ '}' :: rest)) =
      (.control, String.ofList [marker]) :: lex ('{' :: number ++ '}' :: rest) :=
    lex_marker hmarker (notStartsWith_cons.mpr rfl) (notStartsWith_cons.mpr rfl)
  rw [reading_eq, reading_eq, lex_single hsingle, hlex, List.cons_append, List.cons_append,
    lex_single hsingle, hbraced, lex_braced_number hnumber]
  exact (parse_script rfl hplace (standalone_number hnumber)).trans
    (parse_script rfl hplace (standalone_braces hnumber)).symm

section Commands

variable {name : String} {arity : Symbol.Arity} (hname : name ∉ ["text", "operatorname", "hspace"])
  (harity : Symbol.arity? name = some arity)

def commandToken (name : String) : Token :=
  Lexeme.token (.command, String.ofList ('\\' :: name.toList))

theorem name_commandToken : (commandToken name).name = name := by
  simp [commandToken, Lexeme.token, Token.name]

include hname harity in
theorem lex_command_brace (cs : List Char)
    : lex ('\\' :: name.toList ++ '{' :: cs) =
      (.command, String.ofList ('\\' :: name.toList)) :: lex ('{' :: cs) := by
  have hcommand := Symbol.commandName_of_arity? harity hname
  exact lex_command hcommand.isAlpha hcommand.ne_nil (notStartsWith_cons.mpr rfl)
    (Formula.not_raw_of_commandName hcommand) (.inr rfl)

include hname harity in
theorem not_reserved_commandToken : (commandToken name).name ∉ Symbol.reserved := by
  rw [name_commandToken]
  exact (Symbol.commandName_of_arity? harity hname).not_reserved

end Commands

variable {name : String} (hname : name ∉ ["text", "operatorname", "hspace"])

include hname in
theorem reading_one (harity : Symbol.arity? name = some .one) {digit : Char}
    (hdigit : digit.isDigit) (rest : List Char)
    : reading ('\\' :: name.toList ++ digit :: rest) =
      reading ('\\' :: name.toList ++ '{' :: digit :: '}' :: rest) := by
  have hnumber := isNumber_digit hdigit
  have hbare : lex ('\\' :: name.toList ++ digit :: rest) =
      (.command, String.ofList ('\\' :: name.toList)) :: (.element, String.ofList [digit]) ::
        lex rest := by
    have hcommand := Symbol.commandName_of_arity? harity hname
    exact lex_command_digit hcommand.isAlpha hcommand.ne_nil
      (Formula.not_raw_of_commandName hcommand) (by rwa [String.ofList_toList]) hdigit rest
  have hparse {tokens : List Token} (h : Standalone tokens (.element (String.ofList [digit])))
      (rest : List Token)
      : parse (commandToken name :: (tokens ++ rest)) = Formula.ofList <$>
          afterBase (.func (commandToken name).name [.element (String.ofList [digit])] none)
            (stripScriptSpaces rest) :=
    parse_one rfl (not_reserved_commandToken hname harity) (by rwa [name_commandToken]) h
  have hbraced : lex ('{' :: digit :: '}' :: rest) = (.control, "\x7b") ::
      (.element, String.ofList [digit]) :: (.control, "\x7d") :: lex rest :=
    lex_braced_number hnumber rest
  rw [reading_eq, reading_eq, hbare, lex_command_brace hname harity, hbraced]
  exact (hparse (standalone_number hnumber) _).trans (hparse (standalone_braces hnumber) _).symm

include hname in
theorem reading_two (harity : Symbol.arity? name = some .two) {inner : List Char}
    {lexemes : List Lexeme} (hinner : Encloses inner lexemes) {digit : Char}
    (hdigit : digit.isDigit) (rest : List Char)
    : reading ('\\' :: name.toList ++ '{' :: inner ++ '}' :: digit :: rest) =
      reading ('\\' :: name.toList ++ '{' :: inner ++ '}' ::
        ('{' :: (splitNumber (digit :: rest)).1 ++ '}' :: (splitNumber (digit :: rest)).2)) := by
  have hnumber := isNumber_splitNumber hdigit rest
  have hgroup (cs : List Char) : lex ('\\' :: name.toList ++ '{' :: inner ++ '}' :: cs) =
      (.command, String.ofList ('\\' :: name.toList)) :: (.control, "\x7b") ::
        (lexemes ++ (.control, "\x7d") :: lex cs) := by
    rw [List.append_assoc, List.cons_append (a := '{'), lex_command_brace hname harity,
      (lex_cons_brace _).1, hinner.lex_eq]
  have hparse {tokens : List Token} {node : Formula} (h : Standalone tokens node)
      (rest : List Token)
      : parse (commandToken name :: Lexeme.token (.control, "\x7b") ::
          (lexemes.map Lexeme.token ++ Lexeme.token (.control, "\x7d") :: (tokens ++ rest))) =
        Formula.ofList <$> (do
          let nodes ← Parser.sequence false (stripScriptSpaces (lexemes.map Lexeme.token))
          afterBase (.func (commandToken name).name [.ofList nodes, node] none)
            (stripScriptSpaces rest)) :=
    parse_two rfl (not_reserved_commandToken hname harity) (by rwa [name_commandToken]) rfl rfl
      hinner.balanced h
  rw [reading_eq, reading_eq, hgroup, hgroup, lex_splitNumber hdigit, lex_braced_number hnumber]
  simp only [List.map_cons, List.map_append]
  exact (hparse (standalone_number hnumber) _).trans (hparse (standalone_braces hnumber) _).symm

end Reading

/--
A digit without braces is read like the digit in braces after a script marker, unless a fraction
follows it, and as the argument of a command that has one. The second argument of a command is read
like the whole number in braces.
-/
theorem reading_digit {digit : Char} (hdigit : digit.isDigit) (rest : List Char)
    : (∀ letter marker : Char, letter.isAlpha → marker ∈ ['_', '^'] →
        reading (letter :: marker :: digit :: rest) =
          if rest.head? = some '.' then
            reading (letter :: marker :: ('{' :: (splitNumber (digit :: rest)).1 ++
              '}' :: (splitNumber (digit :: rest)).2))
          else
            reading (letter :: marker :: '{' :: digit :: '}' :: rest)) ∧
      ∀ name : String, name ∉ ["text", "operatorname", "hspace"] →
        (Symbol.arity? name = some .one →
          reading ('\\' :: name.toList ++ digit :: rest) =
            reading ('\\' :: name.toList ++ '{' :: digit :: '}' :: rest)) ∧
        (Symbol.arity? name = some .two →
          ∀ inner lexemes, Encloses inner lexemes →
            reading ('\\' :: name.toList ++ '{' :: inner ++ '}' :: digit :: rest) =
              reading ('\\' :: name.toList ++ '{' :: inner ++ '}' ::
                ('{' :: (splitNumber (digit :: rest)).1 ++
                  '}' :: (splitNumber (digit :: rest)).2))) := by
  refine ⟨?_, fun name hname => ⟨fun harity => reading_one hname harity hdigit rest,
    fun harity inner lexemes hinner => reading_two hname harity hinner hdigit rest⟩⟩
  intro letter marker hletter hmarker
  split
  next hpoint =>
    apply reading_script hletter hmarker (isNumber_splitNumber hdigit rest)
    rw [← lex_splitNumber hdigit]
    apply lex_marker_of_none hmarker
    obtain ⟨cs, rfl⟩ : ∃ cs, rest = '.' :: cs := List.head?_eq_some_iff.mp hpoint
    have hblank : NotStartsWith isBlank (digit :: '.' :: cs) :=
      notStartsWith_cons.mpr (isBlank_of_isDigit hdigit)
    rw [scriptDigit_eq hmarker hblank, List.takeWhile_cons_of_pos hdigit]
    rfl
  next hpoint =>
    apply reading_script hletter hmarker (isNumber_digit hdigit)
    apply lex_marker_digit hmarker hdigit
    rintro cs rfl
    exact absurd rfl hpoint

/--
Before further digits a script takes one digit, and so does a root, but not the second argument of a
fraction.
-/
theorem reading_digit_before_digit
    : reading "x_12".toList = reading "x_\x7b1\x7d2".toList ∧
      reading "\\sqrt12.5".toList = reading "\\sqrt\x7b1\x7d2.5".toList ∧
      reading "\\frac\x7ba\x7d12".toList = reading "\\frac\x7ba\x7d\x7b12\x7d".toList := by
  have hdigit : '1'.isDigit := rfl
  have htwo := reading_digit hdigit ['2']
  exact ⟨htwo.1 'x' '_' rfl (by decide),
    ((reading_digit hdigit "2.5".toList).2 "sqrt" (by decide)).1 rfl,
    (htwo.2 "frac" (by decide)).2 rfl ['a'] _ (encloses_elements (by decide))⟩

/--
A script takes a fraction along with its digit, and the second argument of a command takes all
digits of a number.
-/
theorem several_digits_taken
    : reading "x_1.5".toList ≠ reading "x_\x7b1\x7d.5".toList ∧
      reading "\\frac\x7ba\x7d12".toList ≠ reading "\\frac\x7ba\x7d\x7b1\x7d2".toList := by
  constructor
  . intro heq
    have := congrArg (fun answer => answer.toOption.map write) heq
    revert this
    decide +kernel
  . intro heq
    have := congrArg (fun answer => answer.toOption.map write) heq
    revert this
    decide +kernel

end Tex
end MathMarkup
