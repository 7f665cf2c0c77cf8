import MathMarkup.Proofs.Scan
import MathMarkup.Proofs.Symbol
import MathMarkup.Proofs.Token.Nesting
import MathMarkup.Tex.Formula.Parser

/-!
This module contains how the parser reads one construct after the other: for each of them, which
tokens make it up and that these are read in the same way whatever follows.
-/

namespace MathMarkup
namespace Tex

open Text

/--
A pair of brackets among the tokens.
-/
structure Bracket where
  kind : Kind
  opening : String
  closing : String
deriving DecidableEq

namespace Bracket

def brace : Bracket :=
  ⟨.control, "\x7b", "\x7d"⟩

def fence : Bracket :=
  ⟨.command, "\\left", "\\right"⟩

def environment : Bracket :=
  ⟨.command, "\\begin", "\\end"⟩

def square : Bracket :=
  ⟨.element, "[", "]"⟩

/--
The brackets that have to be paired. Only in the degree of a root are the square ones among them.
-/
def all : (inDegree : Bool) → List Bracket
  | false => [brace, fence, environment]
  | true => [brace, fence, environment, square]

/--
Tokens that the search for the closing bracket passes over.
-/
def Skips (bracket : Bracket) (tokens : List Token) : Prop :=
  Token.Skips (·.is bracket.kind bracket.opening) (·.is bracket.kind bracket.closing) tokens

end Bracket

/--
Tokens in which the brackets are paired.
-/
def Paired (inDegree : Bool) (tokens : List Token) : Prop :=
  ∀ bracket ∈ Bracket.all inDegree, bracket.Skips tokens

/--
A token that is no bracket.
-/
def Neutral (inDegree : Bool) (lexeme : Kind × String) : Prop :=
  ∀ bracket ∈ Bracket.all inDegree,
    lexeme ≠ (bracket.kind, bracket.opening) ∧ lexeme ≠ (bracket.kind, bracket.closing)

section Paired

variable {inDegree : Bool} {token : Token} {tokens more : List Token}

theorem paired_nil : Paired inDegree [] := fun _ _ => Token.skips_nil

theorem Paired.append (h : Paired inDegree tokens) (hmore : Paired inDegree more)
    : Paired inDegree (tokens ++ more) :=
  fun bracket hbracket => (h bracket hbracket).append (hmore bracket hbracket)

theorem Paired.cons (htoken : Neutral inDegree token.lexeme) (h : Paired inDegree tokens)
    : Paired inDegree (token :: tokens) := by
  intro bracket hbracket
  obtain ⟨hopening, hclosing⟩ := htoken bracket hbracket
  exact (h bracket hbracket).cons (is_eq_false_iff.mpr hopening) (is_eq_false_iff.mpr hclosing)

theorem bracket_distinct : ∀ first ∈ Bracket.all true, ∀ second ∈ Bracket.all true,
    (first.kind, first.opening) ≠ (second.kind, second.closing) ∧
      (first ≠ second → (first.kind, first.opening) ≠ (second.kind, second.opening) ∧
        (first.kind, first.closing) ≠ (second.kind, second.closing)) := by
  decide

theorem mem_all_true {bracket : Bracket} (h : bracket ∈ Bracket.all inDegree)
    : bracket ∈ Bracket.all true := by
  cases inDegree with
  | true => exact h
  | false =>
    simp only [Bracket.all, List.mem_cons, List.not_mem_nil, or_false] at h ⊢
    tauto

theorem Paired.of_degree (h : Paired true tokens) : Paired inDegree tokens :=
  fun bracket hbracket => h bracket (mem_all_true hbracket)

theorem Paired.wrap {bracket : Bracket} {opener closer : Token}
    (hbracket : bracket ∈ Bracket.all true)
    (hopener : opener.lexeme = (bracket.kind, bracket.opening))
    (hcloser : closer.lexeme = (bracket.kind, bracket.closing)) (h : Paired inDegree tokens)
    : Paired inDegree (opener :: (tokens ++ [closer])) := by
  intro other hother
  have hall := mem_all_true hother
  obtain ⟨hsame, hdistinct⟩ := bracket_distinct other hall bracket hbracket
  have hopens : closer.is other.kind other.opening = false := by
    rw [is_eq_false_iff, hcloser]
    exact hsame.symm
  by_cases heq : other = bracket
  . subst heq
    exact (h other hother).wrap (is_iff.mpr hopener) hopens (is_iff.mpr hcloser)
  . obtain ⟨hopening, hclosing⟩ := hdistinct heq
    have hopposite := (bracket_distinct bracket hbracket other hall).1
    have hlast : other.Skips [closer] := by
      apply Token.skips_nil.cons hopens
      rw [is_eq_false_iff, hcloser]
      exact hclosing.symm
    apply Token.Skips.cons _ _ ((h other hother).append hlast)
    . rw [is_eq_false_iff, hopener]
      exact hopening.symm
    . rw [is_eq_false_iff, hopener]
      exact hopposite

theorem neutral_of_kind {kind : Kind} {text : String}
    (h : kind ∉ [.control, .command, .element]) : Neutral inDegree (kind, text) := by
  intro bracket hbracket
  have hkinds : ∀ bracket ∈ Bracket.all true, bracket.kind ∈ [.control, .command, .element] := by
    decide
  have hkind : kind ≠ bracket.kind := by
    rintro rfl
    exact h (hkinds bracket (mem_all_true hbracket))
  simp [hkind]

theorem neutral_control {text : String} (h : text ∉ ["\x7b", "\x7d"])
    : Neutral inDegree (.control, text) := by
  cases inDegree
  all_goals simp_all [Neutral, Bracket.all, Bracket.brace, Bracket.fence, Bracket.environment,
    Bracket.square]

theorem neutral_command {text : String} (h : text ∉ ["\\left", "\\right", "\\begin", "\\end"])
    : Neutral inDegree (.command, text) := by
  cases inDegree
  all_goals simp_all [Neutral, Bracket.all, Bracket.brace, Bracket.fence, Bracket.environment,
    Bracket.square]

theorem neutral_element {text : String} (h : inDegree → text ≠ "[" ∧ text ≠ "]")
    : Neutral inDegree (.element, text) := by
  cases inDegree
  all_goals simp_all [Neutral, Bracket.all, Bracket.brace, Bracket.fence, Bracket.environment,
    Bracket.square]

end Paired

/--
Tokens before which an expression ends: neither a prime nor a script marker comes next.
-/
def Stops (rest : List Token) : Prop :=
  ∀ token, rest.head? = some token → token.isPrime = false ∧ token.script? = none

/--
A token that an argument, an expression or an item of a grid can begin with.
-/
structure Begins (token : Token) : Prop where
  isSpace : Token.isSpace token = false
  isPrime : token.isPrime = false
  script? : token.script? = none
  endsArgument : token.endsArgument = false
  ofToken? : GridItem.ofToken? token = none

/--
Tokens that are spaces.
-/
def IsGap (tokens : List Token) : Prop :=
  ∀ token ∈ tokens, Token.isSpace token

/--
Tokens that are read as one expression without scripts, whatever follows.
-/
inductive Atomic : List Token → Formula → Prop where
  | intro {token : Token} {tokens : List Token} {node : Formula} (hbegins : Begins token)
    (hatom : ∀ inEnv rest, Parser.atom inEnv token (tokens ++ rest) = .ok (node, tokens.length)) :
    Atomic (token :: tokens) node

/--
Tokens that are read as one expression without scripts, with spaces before it.
-/
inductive Argument : List Token → Formula → Prop where
  | intro {gap tokens : List Token} {node : Formula} (hgap : IsGap gap) (h : Atomic tokens node) :
    Argument (gap ++ tokens) node

/--
Tokens that are read as expressions side by side, whatever follows.
-/
structure ReadsAs (tokens : List Token) (nodes : List Formula) : Prop where
  stops : ∀ rest, Stops rest → Stops (tokens ++ rest)
  sequence : ∀ inEnv rest, Stops rest →
    Parser.sequence inEnv (tokens ++ rest) = (nodes ++ ·) <$> Parser.sequence inEnv rest
  items : ∀ rest, Stops rest →
    Parser.items (tokens ++ rest) = (nodes.map .node ++ ·) <$> Parser.items rest

section Reads

variable {inEnv : Bool} {token owner : Token} {tokens more rest gap : List Token} {node : Formula}
  {nodes others : List Formula}

theorem stops_nil : Stops [] := nofun

theorem Begins.stops (h : Begins token) : Stops (token :: tokens) := by
  rintro _ ⟨⟩
  exact ⟨h.isPrime, h.script?⟩

theorem countFront_of_stops (h : Stops rest) : Token.countFront Token.isPrime rest = 0 := by
  cases rest with
  | nil => rfl
  | cons token rest => simp [Token.countFront, (h token rfl).1]

theorem scripts_of_stops (h : Stops rest) (found : Scripts Formula)
    : Parser.scripts inEnv found rest = .ok (found, 0) := by
  cases rest with
  | nil => rw [Parser.scripts]
  | cons token rest =>
    rw [Parser.scripts, (h token rfl).2]

theorem attachScripts_none (node : Formula) : attachScripts {} node = node :=
  rfl

theorem expr_of_atom (hscript : token.script? = none) (hrest : Stops rest)
    (h : Parser.atom inEnv token (tokens ++ rest) = .ok (node, tokens.length))
    : Parser.expr inEnv token (tokens ++ rest) = .ok (node, tokens.length) := by
  rw [Parser.expr, hscript]
  simp only [h, bind, Except.bind, List.drop_left, countFront_of_stops hrest, Nat.add_zero,
    scripts_of_stops hrest, attachScripts_none]
  rfl

theorem readsAs_nil : ReadsAs [] [] where
  stops _ h := h
  sequence _ _ _ := by simp
  items _ _ := by simp

theorem ReadsAs.append (h : ReadsAs tokens nodes) (hmore : ReadsAs more others)
    : ReadsAs (tokens ++ more) (nodes ++ others) where
  stops rest hrest := by
    rw [List.append_assoc]
    exact h.stops _ (hmore.stops _ hrest)
  sequence inEnv rest hrest := by
    rw [List.append_assoc, h.sequence _ _ (hmore.stops _ hrest), hmore.sequence _ _ hrest]
    simp
  items rest hrest := by
    rw [List.append_assoc, h.items _ (hmore.stops _ hrest), hmore.items _ hrest]
    simp

theorem ReadsAs.of_expr (hstops : ∀ rest, Stops (token :: rest))
    (hitem : GridItem.ofToken? token = none)
    (h : ∀ inEnv rest, Stops rest →
      Parser.expr inEnv token (tokens ++ rest) = .ok (node, tokens.length))
    : ReadsAs (token :: tokens) [node] where
  stops rest _ := hstops _
  sequence inEnv rest hrest := by
    rw [List.cons_append, Parser.sequence, h inEnv rest hrest]
    simp only [bind, Except.bind, List.drop_left]
    rfl
  items rest hrest := by
    rw [List.cons_append, Parser.items, hitem]
    simp only [h true rest hrest, bind, Except.bind, List.drop_left]
    rfl

theorem Atomic.readsAs (h : Atomic tokens node) : ReadsAs tokens [node] := by
  cases h with
  | intro hbegins hatom =>
    exact .of_expr (fun _ => hbegins.stops) hbegins.ofToken?
      fun _ _ hrest => expr_of_atom hbegins.script? hrest (hatom _ _)

theorem kind_of_isSpace (h : Token.isSpace token) : token.kind = .space ∨ token.kind = .newline := by
  simpa [Token.isSpace] using h

theorem readsAs_space (h : Token.isSpace token) : ReadsAs [token] [.space token.text] := by
  have hprime : token.isPrime = false := by
    rcases kind_of_isSpace h with hkind | hkind
    all_goals simp [Token.isPrime, Token.is, hkind]
  have hscript : token.script? = none := by
    rcases kind_of_isSpace h with hkind | hkind
    all_goals simp [Token.script?, hkind]
  have hitem : GridItem.ofToken? token = none := by
    rcases kind_of_isSpace h with hkind | hkind
    all_goals simp [GridItem.ofToken?, Token.is, hkind]
  have hatom : ∀ inEnv rest, Parser.atom inEnv token rest = .ok (.space token.text, 0) := by
    intro inEnv rest
    rcases kind_of_isSpace h with hkind | hkind
    all_goals rw [Parser.atom, hkind]
  refine .of_expr ?_ hitem fun inEnv rest hrest => expr_of_atom hscript hrest (hatom inEnv rest)
  rintro rest _ ⟨⟩
  exact ⟨hprime, hscript⟩

theorem readsAs_gap (h : IsGap gap) : ReadsAs gap (gap.map fun token => .space token.text) := by
  induction gap with
  | nil => exact readsAs_nil
  | cons token gap ih =>
    rw [IsGap, List.forall_mem_cons] at h
    exact (readsAs_space h.1).append (ih h.2)

theorem Argument.argument_eq (h : Argument tokens node)
    : Parser.argument inEnv owner (tokens ++ rest) = .ok (node, tokens.length) := by
  obtain ⟨hgap, ⟨hbegins, hatom⟩⟩ := h
  rename_i gap token tokens
  induction gap with
  | nil =>
    rw [List.nil_append, List.cons_append, Parser.argument, hbegins.isSpace, hbegins.endsArgument,
      hatom]
    rfl
  | cons space gap ih =>
    rw [IsGap, List.forall_mem_cons] at hgap
    rw [List.cons_append, List.cons_append, Parser.argument, hgap.1, ih hgap.2]
    rfl

theorem ReadsAs.sequence_eq (h : ReadsAs tokens nodes)
    : Parser.sequence inEnv tokens = .ok nodes := by
  have := h.sequence inEnv [] stops_nil
  rw [List.append_nil, Parser.sequence] at this
  simpa using this

theorem ReadsAs.items_eq (h : ReadsAs tokens nodes)
    : Parser.items tokens = .ok (nodes.map .node) := by
  have := h.items [] stops_nil
  rw [List.append_nil, Parser.items] at this
  simpa using this

end Reads

section Atoms

variable {token : Token} {tokens : List Token} {nodes : List Formula}

theorem begins_element (hkind : token.kind = .element) (hprime : token.text ≠ "'")
    : Begins token where
  isSpace := by simp [Token.isSpace, hkind]
  isPrime := by simp [Token.isPrime, Token.is, hprime]
  script? := by simp [Token.script?, hkind]
  endsArgument := by simp [Token.endsArgument, hkind]
  ofToken? := by simp [GridItem.ofToken?, Token.is, hkind]

theorem begins_command (hkind : token.kind = .command) : Begins token where
  isSpace := by simp [Token.isSpace, hkind]
  isPrime := by simp [Token.isPrime, Token.is, hkind]
  script? := by simp [Token.script?, hkind]
  endsArgument := by simp [Token.endsArgument, hkind]
  ofToken? := by simp [GridItem.ofToken?, Token.is, hkind]

theorem begins_brace (h : token.lexeme = (.control, "\x7b")) : Begins token := by
  obtain ⟨kind, text, span⟩ := token
  cases h
  exact ⟨rfl, rfl, rfl, rfl, rfl⟩

theorem atomic_element (hkind : token.kind = .element) (hprime : token.text ≠ "'")
    : Atomic [token] (.element token.text) := by
  refine .intro (begins_element hkind hprime) fun inEnv rest => ?_
  rw [Parser.atom, hkind]
  rfl

theorem atom_command (hkind : token.kind = .command) {inEnv : Bool}
    : Parser.atom inEnv token tokens = Parser.command inEnv token tokens := by
  rw [Parser.atom, hkind]

theorem command_symbol (hname : token.name ∉ Symbol.reserved)
    (harity : Symbol.arity? token.name = none) (hsymbol : (Symbol.toTypst? token.name).isSome)
    {inEnv : Bool} : Parser.command inEnv token tokens = .ok (.symbol token.name, 0) := by
  rw [Parser.command]
  split
  case h_5 =>
    rw [if_neg (by simp_all [Symbol.reserved]), harity, hsymbol]
    rfl
  all_goals simp_all [Symbol.reserved]

theorem command_func {arity : Symbol.Arity} (hname : token.name ∉ Symbol.reserved)
    (harity : Symbol.arity? token.name = some arity)
    (hdegree : degree? tokens = .ok none) {inEnv : Bool}
    : Parser.command inEnv token tokens = (do
      let (args, used) ← Parser.arguments inEnv token arity tokens
      return (.func token.name args none, used)) := by
  rw [Parser.command]
  split
  case h_5 =>
    rw [if_neg (by simp_all [Symbol.reserved]), harity]
    simp only [hdegree, ite_self]
    rfl
  all_goals simp_all [Symbol.reserved]

theorem command_root {before size : Nat} (hname : token.name = "sqrt")
    (hdegree : degree? tokens = .ok (some (before, size))) {inEnv : Bool}
    : Parser.command inEnv token tokens = (do
      let degree ← Parser.sequence inEnv ((tokens.drop before).take size)
      let (args, used) ← Parser.arguments inEnv token .one (tokens.drop (before + size + 1))
      return (.func "sqrt" args (some (.ofList degree)), before + size + 1 + used)) := by
  rw [Parser.command, hname]
  simp only [hdegree]
  rfl

theorem atomic_symbol (hkind : token.kind = .command) (hname : token.name ∉ Symbol.reserved)
    (harity : Symbol.arity? token.name = none) (hsymbol : (Symbol.toTypst? token.name).isSome)
    : Atomic [token] (.symbol token.name) := by
  refine .intro (begins_command hkind) fun inEnv rest => ?_
  rw [atom_command hkind, command_symbol hname harity hsymbol]
  rfl

end Atoms

/--
Tokens that are read as one expression in braces, with spaces before it.
-/
inductive Braced : List Token → Formula → Prop where
  | intro {gap tokens : List Token} {opener closer : Token} {nodes : List Formula} (hgap : IsGap gap)
    (hopener : opener.lexeme = (.control, "\x7b")) (hcloser : closer.lexeme = (.control, "\x7d"))
    (hskips : Bracket.brace.Skips tokens) (h : ReadsAs tokens nodes) :
    Braced (gap ++ opener :: (tokens ++ [closer])) (.ofList nodes)

/--
Tokens that are read as the arguments of a command.
-/
inductive Arguments : List Token → List Formula → Prop where
  | nil : Arguments [] []
  | cons {tokens more : List Token} {node : Formula} {nodes : List Formula} (h : Braced tokens node)
    (hmore : Arguments more nodes) : Arguments (tokens ++ more) (node :: nodes)

section Arguments

variable {inEnv : Bool} {token : Token} {tokens rest : List Token} {node : Formula}
  {nodes : List Formula}

theorem atomic_braces {opener closer : Token} (hopener : opener.lexeme = (.control, "\x7b"))
    (hcloser : closer.lexeme = (.control, "\x7d")) (hskips : Bracket.brace.Skips tokens)
    (h : ReadsAs tokens nodes) : Atomic (opener :: (tokens ++ [closer])) (.ofList nodes) := by
  refine .intro (begins_brace hopener) fun inEnv rest => ?_
  have hclosing : closingBrace? (tokens ++ closer :: rest) = some (tokens.length, closer) :=
    hskips.closing?_eq (is_eq_false_iff.mpr (by simp [hcloser, Bracket.brace])) (is_iff.mpr hcloser)
  obtain ⟨kind, text, span⟩ := opener
  cases hopener
  rw [List.append_assoc, List.singleton_append, Parser.atom]
  simp only [hclosing, List.take_left, h.sequence_eq, bind, Except.bind]
  simp
  rfl

theorem Braced.argument (h : Braced tokens node) : Argument tokens node := by
  obtain ⟨hgap, hopener, hcloser, hskips, h⟩ := h
  exact .intro hgap (atomic_braces hopener hcloser hskips h)

theorem countFront_gap {gap : List Token} (hgap : IsGap gap) (htoken : Token.isSpace token = false)
    : Token.countFront Token.isSpace (gap ++ token :: rest) = gap.length := by
  rw [Token.countFront, List.takeWhile_append_of_pos hgap, List.takeWhile_cons_of_neg (by simp [htoken]),
    List.append_nil]

theorem Braced.degree? (h : Braced tokens node) : degree? (tokens ++ rest) = .ok none := by
  obtain ⟨hgap, hopener, hcloser, hskips, h⟩ := h
  have hbegins := begins_brace hopener
  have hsquare : ∀ opener : Token, opener.lexeme = (.control, "\x7b") →
      opener.is .element "[" = false := fun _ h => is_eq_false_iff.mpr (by simp [h])
  rw [List.append_assoc, List.cons_append, Tex.degree?]
  simp only [countFront_gap hgap hbegins.isSpace, List.drop_left, hsquare _ hopener]
  rfl

theorem Arguments.arguments_eq (h : Arguments tokens nodes) {arity : Symbol.Arity}
    (harity : nodes.length = arity.toNat)
    : Parser.arguments inEnv token arity (tokens ++ rest) = .ok (nodes, tokens.length) := by
  cases arity with
  | one =>
    obtain _ | ⟨h, _ | ⟨_, _⟩⟩ := h
    . contradiction
    . rw [Parser.arguments, List.append_nil, h.argument.argument_eq]
      rfl
    . simp [Symbol.Arity.toNat] at harity
  | two =>
    obtain _ | ⟨h, _ | ⟨hsecond, _ | ⟨_, _⟩⟩⟩ := h
    . contradiction
    . simp [Symbol.Arity.toNat] at harity
    . rw [Parser.arguments, List.append_nil, List.append_assoc, h.argument.argument_eq]
      simp only [bind, Except.bind, List.drop_left, hsecond.argument.argument_eq]
      simp
      rfl
    . simp [Symbol.Arity.toNat] at harity

theorem Arguments.degree? (h : Arguments tokens nodes) (hne : nodes ≠ [])
    : degree? (tokens ++ rest) = .ok none := by
  cases h with
  | nil => contradiction
  | cons h hmore =>
    rw [List.append_assoc]
    exact h.degree?

theorem atomic_func {arity : Symbol.Arity} (hkind : token.kind = .command)
    (hname : token.name ∉ Symbol.reserved) (harity : Symbol.arity? token.name = some arity)
    (hlength : nodes.length = arity.toNat) (h : Arguments tokens nodes)
    : Atomic (token :: tokens) (.func token.name nodes none) := by
  have hne : nodes ≠ [] := by
    rintro rfl
    cases arity
    all_goals contradiction
  refine .intro (begins_command hkind) fun inEnv rest => ?_
  rw [atom_command hkind, command_func hname harity (h.degree? hne), h.arguments_eq hlength]
  rfl

theorem drop_left_succ {front : List Token} {middle : Token}
    : (front ++ middle :: rest).drop (front.length + 1) = rest := by
  rw [List.append_cons]
  exact List.drop_left' (by simp)

theorem degree?_bracket {gap degree : List Token} {opener closer : Token} (hgap : IsGap gap)
    (hopener : opener.lexeme = (.element, "[")) (hcloser : closer.lexeme = (.element, "]"))
    (hskips : Bracket.square.Skips degree)
    : degree? (gap ++ opener :: (degree ++ closer :: rest)) =
      .ok (some (gap.length + 1, degree.length)) := by
  have hspace : Token.isSpace opener = false := by
    obtain ⟨kind, text, span⟩ := opener
    cases hopener
    rfl
  have hclosing : closingBracket? (degree ++ closer :: rest) = some (degree.length, closer) :=
    hskips.closing?_eq (is_eq_false_iff.mpr (by simp [hcloser, Bracket.square]))
      (is_iff.mpr hcloser)
  rw [degree?]
  simp only [countFront_gap hgap hspace, List.drop_left, is_iff.mpr hopener, if_true, hclosing]

theorem atomic_root {gap degree args : List Token} {opener closer : Token} {root : List Formula}
    (htoken : token.lexeme = (.command, "\\sqrt")) (hgap : IsGap gap)
    (hopener : opener.lexeme = (.element, "[")) (hcloser : closer.lexeme = (.element, "]"))
    (hskips : Bracket.square.Skips degree) (hdegree : ReadsAs degree root)
    (hargs : Arguments args [node])
    : Atomic (token :: (gap ++ opener :: (degree ++ closer :: args)))
      (.func "sqrt" [node] (some (.ofList root))) := by
  have hkind : token.kind = .command := congrArg Prod.fst htoken
  have htext : token.text = "\\sqrt" := congrArg Prod.snd htoken
  have hname : token.name = "sqrt" := by
    rw [Token.name, htext]
    rfl
  refine .intro (begins_command hkind) fun inEnv rest => ?_
  have hlist : gap ++ opener :: (degree ++ closer :: args) ++ rest =
      gap ++ opener :: (degree ++ closer :: (args ++ rest)) := by
    simp
  have hdrop : (gap ++ opener :: (degree ++ closer :: (args ++ rest))).drop
      (gap.length + 1 + degree.length + 1) = args ++ rest := by
    rw [Nat.add_assoc, ← List.drop_drop, drop_left_succ, drop_left_succ]
  rw [atom_command hkind, hlist, command_root hname (degree?_bracket hgap hopener hcloser hskips),
    drop_left_succ, List.take_left, hdegree.sequence_eq, hdrop]
  have harity : [node].length = Symbol.Arity.one.toNat := rfl
  simp only [bind, Except.bind, hargs.arguments_eq harity]
  simp
  congr 2
  omega

end Arguments

section Fences

variable {tokens : List Token} {nodes : List Formula}

/--
The delimiter that a token stands for. The point is the invisible one.
-/
def Token.delimiter (token : Token) : Option String :=
  if token.text == "." then none else some token.text

theorem delimiter_eq {owner token : Token} (h : token.isDelimiter) {rest : List Token}
    : delimiter owner (token :: rest) = .ok (token.delimiter, 1) := by
  have hspace : Token.isSpace token = false := by
    unfold Token.isDelimiter at h
    unfold Token.isSpace
    split at h
    all_goals simp_all
  rw [delimiter]
  simp [Token.countFront, hspace, h, Token.delimiter]

theorem atomic_leftRight {left opening right closing : Token}
    (hleft : left.lexeme = (.command, "\\left")) (hopening : opening.isDelimiter)
    (hskips : Bracket.fence.Skips (opening :: tokens)) (h : ReadsAs tokens nodes)
    (hright : right.lexeme = (.command, "\\right")) (hclosing : closing.isDelimiter)
    : Atomic (left :: opening :: (tokens ++ [right, closing]))
      (.leftRight opening.delimiter (.ofList nodes) closing.delimiter) := by
  have hkind : left.kind = .command := congrArg Prod.fst hleft
  have htext : left.text = "\\left" := congrArg Prod.snd hleft
  have hname : left.name = "left" := by
    rw [Token.name, htext]
    rfl
  refine .intro (begins_command hkind) fun inEnv rest => ?_
  have hlist : opening :: (tokens ++ [right, closing]) ++ rest =
      (opening :: tokens) ++ right :: closing :: rest := by
    simp
  have hsearch : closingRight? ((opening :: tokens) ++ right :: closing :: rest) =
      some ((opening :: tokens).length, right) :=
    hskips.closing?_eq (is_eq_false_iff.mpr (by simp [hright, Bracket.fence])) (is_iff.mpr hright)
  rw [atom_command hkind, Parser.command, hname, hlist]
  simp only [Parser.leftRight, hsearch, List.take_left, delimiter_eq hopening, drop_left_succ,
    delimiter_eq hclosing, bind, Except.bind, List.drop_one, List.tail_cons, h.sequence_eq]
  simp
  rfl

end Fences

/--
Tokens that are read as raw text in braces.
-/
structure RawText (tokens : List Token) (text : String) : Prop where
  lexemes : tokens.map Token.lexeme = bracedTokens text.toList
  trim : trim text = text

/--
Tokens that are read as the column specification of an environment. Only an array has one.
-/
inductive RawSpec : (name : String) → List Token → Option String → Prop where
  | absent {name : String} (h : name ≠ "array") : RawSpec name [] none
  | array {tokens : List Token} {spec : String} (h : RawText tokens spec) :
    RawSpec "array" tokens (some spec)

section Environments

variable {name spec tokens rest : List Token} {text : String}

theorem bracedText?_of_lexemes {raw : List Char} (h : tokens.map Token.lexeme = bracedTokens raw)
    : bracedText? (tokens ++ rest) = some (trim (String.ofList raw)) := by
  rw [bracedTokens] at h
  obtain ⟨opener, _, rfl, hopener, h⟩ := List.map_eq_cons_iff.mp h
  obtain ⟨content, _, rfl, hcontent, h⟩ := List.map_eq_cons_iff.mp h
  obtain ⟨closer, _, rfl, hcloser, h⟩ := List.map_eq_cons_iff.mp h
  rw [List.map_eq_nil_iff.mp h]
  have hkind : content.kind = .text := congrArg Prod.fst hcontent
  have htext : content.text = String.ofList raw := congrArg Prod.snd hcontent
  simp only [List.cons_append, bracedText?, is_iff.mpr hopener, is_iff.mpr hcloser, hkind, htext]
  rfl

theorem RawText.bracedText?_eq (h : RawText tokens text)
    : bracedText? (tokens ++ rest) = some text := by
  rw [bracedText?_of_lexemes h.lexemes, String.ofList_toList, h.trim]

theorem length_of_lexemes {raw : List Char} (h : tokens.map Token.lexeme = bracedTokens raw)
    : tokens.length = 3 := by
  have := congrArg List.length h
  rwa [List.length_map] at this

theorem RawText.length_eq (h : RawText tokens text) : tokens.length = 3 :=
  length_of_lexemes h.lexemes

def rawCalls : List String :=
  ["text", "operatorname", "operatorname*", "hspace"]

theorem command_rawCall {token : Token} {raw : List Char} (hname : token.name ∈ rawCalls)
    (h : tokens.map Token.lexeme = bracedTokens raw) {inEnv : Bool}
    : Parser.command inEnv token (tokens ++ rest) =
      .ok (.call token.name [.text (trim (String.ofList raw))], 3) := by
  have hargument : rawArgument token (tokens ++ rest) = .ok (trim (String.ofList raw), 3) := by
    have hblanks : Token.countFront Token.isSpace (tokens ++ rest) = 0 := by
      obtain ⟨opener, more, rfl, hopener, _⟩ := List.map_eq_cons_iff.mp h
      simp [Token.countFront, (begins_brace hopener).isSpace]
    simp only [rawArgument, hblanks, List.drop_zero, bracedText?_of_lexemes h]
  generalize htoken : token.name = name at hname
  simp only [rawCalls, List.mem_cons, List.not_mem_nil, or_false] at hname
  unfold Parser.command
  rcases hname with rfl | rfl | rfl | rfl
  all_goals
    simp only [htoken, hargument]
    rfl

theorem atomic_rawCall {token : Token} {raw : List Char} (hkind : token.kind = .command)
    (hname : token.name ∈ rawCalls) (h : tokens.map Token.lexeme = bracedTokens raw)
    : Atomic (token :: tokens) (.call token.name [.text (trim (String.ofList raw))]) := by
  refine .intro (begins_command hkind) fun inEnv rest => ?_
  rw [atom_command hkind, command_rawCall hname h, length_of_lexemes h]

theorem RawSpec.drop_eq {rawSpec : Option String} (h : RawSpec text spec rawSpec)
    : (spec ++ tokens).drop (if rawSpec.isSome then 3 else 0) = tokens := by
  cases h with
  | absent h => rfl
  | array h =>
    rw [Option.isSome_some, if_pos rfl, ← h.length_eq, List.drop_left]

theorem atomic_env {start stop : Token} {stopName : List Token} {rawSpec : Option String}
    {body : List GridItem} (hstart : start.lexeme = (.command, "\\begin"))
    (hname : RawText name text) (hspec : RawSpec text spec rawSpec)
    (hskips : Bracket.environment.Skips (spec ++ tokens)) (h : Parser.items tokens = .ok body)
    (hstop : stop.lexeme = (.command, "\\end")) (hstopName : RawText stopName text)
    : Atomic (start :: (name ++ (spec ++ tokens ++ stop :: stopName)))
      (.env text rawSpec (GridItem.rows body)) := by
  have hkind : start.kind = .command := congrArg Prod.fst hstart
  have htext : start.text = "\\begin" := congrArg Prod.snd hstart
  have hbegin : start.name = "begin" := by
    rw [Token.name, htext]
    rfl
  refine .intro (begins_command hkind) fun inEnv rest => ?_
  have hlist : name ++ (spec ++ tokens ++ stop :: stopName) ++ rest =
      name ++ ((spec ++ tokens) ++ stop :: (stopName ++ rest)) := by
    simp
  have hsearch : closingEnd? ((spec ++ tokens) ++ stop :: (stopName ++ rest)) =
      some ((spec ++ tokens).length, stop) :=
    hskips.closing?_eq (is_eq_false_iff.mpr (by simp [hstop, Bracket.environment]))
      (is_iff.mpr hstop)
  have hdrop : (name ++ ((spec ++ tokens) ++ stop :: (stopName ++ rest))).drop 3 =
      (spec ++ tokens) ++ stop :: (stopName ++ rest) :=
    List.drop_left' hname.length_eq
  have hfound : (if text == "array" then bracedText? (spec ++ tokens) else none) = rawSpec := by
    cases hspec with
    | absent h => simp [h]
    | array h => simp [h.bracedText?_eq]
  rw [atom_command hkind, Parser.command, hbegin, hlist]
  simp only [Parser.environment, hname.bracedText?_eq, hdrop, hsearch, List.take_left, hfound,
    drop_left_succ, hstopName.bracedText?_eq, bne_self_eq_false, Bool.false_eq_true, if_false,
    hspec.drop_eq, h, bind, Except.bind]
  simp [hname.length_eq, hstopName.length_eq]
  congr 2
  omega

end Environments

section Scripts

variable {inEnv : Bool} {tokens rest : List Token} {node : Formula}

/--
Tokens that are read as a script with its marker, or none if there is no script.
-/
inductive ReadsScript (place : Script) : List Token → Option Formula → Prop where
  | absent : ReadsScript place [] none
  | present {marker : Token} {tokens : List Token} {node : Formula}
    (hmarker : marker.script? = some place) (h : Argument tokens node) :
    ReadsScript place (marker :: tokens) (some node)

theorem isPrime_of_script? {marker : Token} {place : Script} (h : marker.script? = some place)
    : marker.isPrime = false := by
  unfold Token.script? at h
  split at h
  next hkind =>
    rw [Token.isPrime, Token.is, eq_of_beq hkind]
    rfl
  . contradiction

theorem scripts_cons {marker : Token} {place : Script} {found : Scripts Formula}
    (hmarker : marker.script? = some place) (hfree : found.get? place = none)
    (h : Argument tokens node) (hrest : Token.countFront Token.isPrime rest = 0)
    : Parser.scripts inEnv found (marker :: (tokens ++ rest)) =
      (fun (found, more) => (found, 1 + tokens.length + more)) <$>
        Parser.scripts inEnv (found.insert node place) rest := by
  have hscript : Parser.script inEnv found place marker (tokens ++ rest) =
      .ok (found.insert node place, tokens.length) := by
    rw [Parser.script, hfree, h.argument_eq]
    cases place with
    | sup => rfl
    | sub =>
      simp only [bind, Except.bind, List.drop_left, hrest]
      rfl
  rw [Parser.scripts, hmarker]
  simp only [hscript, bind, Except.bind, List.drop_left]
  cases Parser.scripts inEnv (found.insert node place) rest with
  | error e => rfl
  | ok found => rfl

theorem ReadsScript.noPrime {place : Script} {script : Option Formula}
    (h : ReadsScript place tokens script) (hrest : Token.countFront Token.isPrime rest = 0)
    : Token.countFront Token.isPrime (tokens ++ rest) = 0 := by
  cases h with
  | absent => exact hrest
  | present hmarker h => simp [Token.countFront, isPrime_of_script? hmarker]

theorem ReadsScript.scripts_eq {place : Script} {script : Option Formula} {found : Scripts Formula}
    (h : ReadsScript place tokens script) (hfree : found.get? place = none)
    (hrest : Token.countFront Token.isPrime rest = 0)
    : Parser.scripts inEnv found (tokens ++ rest) =
      (fun (found, more) => (found, tokens.length + more)) <$>
        Parser.scripts inEnv (script.elim found (found.insert · place)) rest := by
  cases h with
  | absent => simp
  | present hmarker h =>
    rw [List.cons_append, scripts_cons hmarker hfree h hrest]
    simp [Nat.add_comm 1]

theorem readsAs_attach {base primes sub sup : List Token} {subNode supNode : Option Formula}
    (hbase : Atomic base node) (hprimes : ∀ prime ∈ primes, prime.isPrime)
    (hsub : ReadsScript .sub sub subNode) (hsup : ReadsScript .sup sup supNode)
    : ReadsAs (base ++ (primes ++ (sub ++ sup)))
      [attachScripts { sub := subNode, sup := supNode, primes := primes.length } node] := by
  obtain ⟨hbegins, hatom⟩ := hbase
  rename_i token base
  rw [List.cons_append]
  refine .of_expr (fun _ => hbegins.stops) hbegins.ofToken? fun inEnv rest hrest => ?_
  have hnone := countFront_of_stops hrest
  have hcount : Token.countFront Token.isPrime (primes ++ (sub ++ (sup ++ rest))) =
      primes.length := by
    have hscripts := List.length_eq_zero_iff.mp (hsub.noPrime (hsup.noPrime hnone))
    rw [Token.countFront, List.takeWhile_append_of_pos hprimes, hscripts, List.append_nil]
  have hlist : base ++ (primes ++ (sub ++ sup)) ++ rest =
      base ++ (primes ++ (sub ++ (sup ++ rest))) := by
    simp
  have hscripts : Parser.scripts inEnv { primes := primes.length } (sub ++ (sup ++ rest)) =
      .ok ({ sub := subNode, sup := supNode, primes := primes.length },
        sub.length + sup.length) := by
    rw [hsub.scripts_eq rfl (hsup.noPrime hnone), hsup.scripts_eq _ hnone, scripts_of_stops hrest]
    . cases subNode
      all_goals cases supNode
      all_goals rfl
    . cases subNode
      all_goals rfl
  rw [Parser.expr, hbegins.script?, hlist]
  simp only [hatom, bind, Except.bind, List.drop_left, hcount, hscripts, ← List.drop_drop]
  simp [Nat.add_assoc]
  rfl

end Scripts

namespace GridItem

/--
All rows of a body, also one that consists of an empty cell at the very end.
-/
def table (items : List GridItem) : List (List Formula) :=
  let (nodes, row, rows) := split items
  (cell nodes :: row) :: rows

theorem split_nodes (nodes : List Formula) (items : List GridItem)
    : split (nodes.map .node ++ items) =
      (nodes ++ (split items).1, (split items).2.1, (split items).2.2) := by
  induction nodes with
  | nil => rfl
  | cons node nodes ih => rw [List.map_cons, List.cons_append, split, ih, List.cons_append]

theorem table_nodes (nodes : List Formula) : table (nodes.map .node) = [[cell nodes]] := by
  have := split_nodes nodes []
  rw [List.append_nil] at this
  simp [table, this, split]

theorem table_cellEnd (nodes : List Formula) {items : List GridItem} {row : List Formula}
    {rows : List (List Formula)} (h : table items = row :: rows)
    : table (nodes.map .node ++ .cellEnd :: items) = (cell nodes :: row) :: rows := by
  obtain ⟨hrow, hrows⟩ := List.cons.inj h
  rw [table, split_nodes, split, List.append_nil, ← hrow, ← hrows]

theorem table_rowEnd (nodes : List Formula) (items : List GridItem)
    : table (nodes.map .node ++ .rowEnd :: items) = [cell nodes] :: table items := by
  rw [table, split_nodes, split, List.append_nil]
  rfl

/--
A grid without the row of one empty cell at its end, unless that is its only row.
-/
def withoutEmptyRow (rows : List (List Formula)) : List (List Formula) :=
  if 1 < rows.length && rows.getLast?.any isEmptyRow then rows.dropLast else rows

theorem rows_eq (items : List GridItem) : rows items = withoutEmptyRow (table items) := by
  rw [rows, table, withoutEmptyRow]
  generalize split items = parts
  obtain ⟨nodes, row, others⟩ := parts
  cases others
  all_goals simp

theorem withoutEmptyRow_eq {rows : List (List Formula)}
    (h : rows.length ≠ 1 → rows.getLast?.any isEmptyRow = false) : withoutEmptyRow rows = rows := by
  apply if_neg
  rw [Bool.and_eq_true, decide_eq_true_eq]
  rintro ⟨hlength, hempty⟩
  rw [h (by omega)] at hempty
  contradiction

end GridItem

/--
Tokens that are read as the cells of a grid.
-/
inductive ReadsTable : List Token → List (List Formula) → Prop where
  | last {tokens : List Token} {nodes : List Formula} (h : ReadsAs tokens nodes) :
    ReadsTable tokens [[GridItem.cell nodes]]
  | cellEnd {tokens more : List Token} {separator : Token} {nodes row : List Formula}
    {rows : List (List Formula)} (h : ReadsAs tokens nodes)
    (hseparator : separator.lexeme = (.control, "&")) (hmore : ReadsTable more (row :: rows)) :
    ReadsTable (tokens ++ separator :: more) ((GridItem.cell nodes :: row) :: rows)
  | rowEnd {tokens more : List Token} {separator : Token} {nodes : List Formula}
    {rows : List (List Formula)} (h : ReadsAs tokens nodes)
    (hseparator : separator.lexeme = (.control, "\\\\")) (hmore : ReadsTable more rows) :
    ReadsTable (tokens ++ separator :: more) ([GridItem.cell nodes] :: rows)

theorem stops_separator {separator : Token} {text : String} (htext : text ∈ ["&", "\\\\"])
    (h : separator.lexeme = (.control, text)) (rest : List Token) : Stops (separator :: rest) := by
  obtain ⟨kind, _, span⟩ := separator
  simp only [List.mem_cons, List.not_mem_nil, or_false] at htext
  cases h
  rcases htext with rfl | rfl
  all_goals
    rintro _ ⟨⟩
    exact ⟨rfl, rfl⟩

theorem ofToken?_of_lexeme {token : Token} {kind : Kind} {text : String}
    (h : token.lexeme = (kind, text))
    : GridItem.ofToken? token = GridItem.ofToken? ⟨kind, text, .detached⟩ := by
  obtain ⟨_, _, span⟩ := token
  cases h
  rfl

theorem items_separator {separator : Token} {item : GridItem} {tokens rest : List Token}
    {nodes : List Formula} {body : List GridItem} (h : ReadsAs tokens nodes)
    (hstops : Stops (separator :: rest)) (hitem : GridItem.ofToken? separator = some item)
    (hrest : Parser.items rest = .ok body)
    : Parser.items (tokens ++ separator :: rest) = .ok (nodes.map .node ++ item :: body) := by
  rw [h.items _ hstops, Parser.items, hitem]
  simp only [hrest]
  rfl

theorem ReadsTable.items_eq {tokens : List Token} {rows : List (List Formula)}
    (h : ReadsTable tokens rows)
    : ∃ body, Parser.items tokens = .ok body ∧ GridItem.table body = rows := by
  induction h with
  | last h => exact ⟨_, h.items_eq, GridItem.table_nodes _⟩
  | cellEnd h hseparator hmore ih =>
    obtain ⟨body, hbody, htable⟩ := ih
    have hitem := ofToken?_of_lexeme hseparator
    exact ⟨_, items_separator h (stops_separator (by simp) hseparator _) hitem hbody,
      GridItem.table_cellEnd _ htable⟩
  | rowEnd h hseparator hmore ih =>
    obtain ⟨body, hbody, htable⟩ := ih
    have hitem := ofToken?_of_lexeme hseparator
    refine ⟨_, items_separator h (stops_separator (by simp) hseparator _) hitem hbody, ?_⟩
    rw [GridItem.table_rowEnd, htable]

end Tex
end MathMarkup
