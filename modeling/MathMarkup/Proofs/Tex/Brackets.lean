import MathMarkup.Proofs.Result
import MathMarkup.Proofs.Tex.Reading

/-!
This module contains the theory of nested brackets. The tokens of a formula spell a word of
brackets, and what it takes to close those that are open is said with a stack: braces, fences and
environments are paired and do not cross, an environment ends under the name under which it began,
and separators stand in environments only. Tokens nest if they can be put in front of whatever
closes the stack.
-/

namespace MathMarkup
namespace Tex

/--
One end of a pair of brackets.
-/
inductive Edge where
  | opening (bracket : Bracket)
  | closing (bracket : Bracket)
deriving DecidableEq

/--
The end of a pair of braces, of fences or of an environment that a token is, if it is one.
-/
def Token.edge? (token : Token) : Option Edge :=
  (Bracket.all false).findSome? fun bracket =>
    if token.is bracket.kind bracket.opening then some (.opening bracket)
    else if token.is bracket.kind bracket.closing then some (.closing bracket)
    else none

def edges (tokens : List Token) : List Edge :=
  tokens.filterMap Token.edge?

/--
Read a word of brackets while those of `opened` are open, the innermost one first. The result is
what is open at its end; there is none if a bracket closes nothing, or not the innermost one.
-/
def leftOpen? (opened : List Bracket) : List Edge → Option (List Bracket)
  | [] => some opened
  | .opening bracket :: word => leftOpen? (bracket :: opened) word
  | .closing bracket :: word =>
    match opened with
    | [] => none
    | last :: outer => if last = bracket then leftOpen? outer word else none

/--
A word in which every bracket has a partner and the pairs do not cross.
-/
def WellBracketed (word : List Edge) : Prop :=
  leftOpen? [] word = some []

instance (word : List Edge) : Decidable (WellBracketed word) :=
  inferInstanceAs (Decidable (leftOpen? [] word = some []))

/--
A pair of brackets among tokens that match each other, with the tokens around them and in between.
-/
structure Matching (bracket : Bracket) (tokens before : List Token) (opener : Token)
    (inner : List Token) (closer : Token) (after : List Token) : Prop where
  tokens_eq : tokens = before ++ opener :: (inner ++ closer :: after)
  opens : opener.edge? = some (.opening bracket)
  closes : closer.edge? = some (.closing bracket)
  wellBracketed : WellBracketed (edges inner)

def Token.isSeparator (token : Token) : Bool :=
  token.is .control "&" || token.is .control "\\\\"

section Edges

variable {token : Token} {bracket : Bracket}

theorem edge?_opening (hbracket : bracket ∈ Bracket.all false)
    (h : token.lexeme = (bracket.kind, bracket.opening))
    : token.edge? = some (.opening bracket) := by
  have hkind : token.kind = bracket.kind := congrArg Prod.fst h
  have htext : token.text = bracket.opening := congrArg Prod.snd h
  simp only [Bracket.all, List.mem_cons, List.not_mem_nil, or_false] at hbracket
  unfold Token.edge?
  simp only [Token.is, hkind, htext]
  rcases hbracket with rfl | rfl | rfl
  all_goals rfl

theorem edge?_closing (hbracket : bracket ∈ Bracket.all false)
    (h : token.lexeme = (bracket.kind, bracket.closing))
    : token.edge? = some (.closing bracket) := by
  have hkind : token.kind = bracket.kind := congrArg Prod.fst h
  have htext : token.text = bracket.closing := congrArg Prod.snd h
  simp only [Bracket.all, List.mem_cons, List.not_mem_nil, or_false] at hbracket
  unfold Token.edge?
  simp only [Token.is, hkind, htext]
  rcases hbracket with rfl | rfl | rfl
  all_goals rfl

theorem edge?_neutral (h : Neutral false token.lexeme) : token.edge? = none := by
  unfold Token.edge?
  rw [List.findSome?_eq_none_iff]
  intro bracket hbracket
  obtain ⟨hopening, hclosing⟩ := h bracket hbracket
  rw [is_eq_false_iff.mpr hopening, is_eq_false_iff.mpr hclosing]
  rfl

theorem lexeme_of_edge? {edge : Edge} (h : token.edge? = some edge)
    : ∃ bracket ∈ Bracket.all false,
        (edge = .opening bracket ∧ token.lexeme = (bracket.kind, bracket.opening)) ∨
        (edge = .closing bracket ∧ token.lexeme = (bracket.kind, bracket.closing)) := by
  obtain ⟨bracket, hbracket, hsome⟩ := List.exists_of_findSome?_eq_some h
  refine ⟨bracket, hbracket, ?_⟩
  split at hsome
  next hopening => exact .inl ⟨(Option.some.inj hsome).symm, is_iff.mp hopening⟩
  next =>
    rw [Option.ite_none_right_eq_some] at hsome
    exact .inr ⟨(Option.some.inj hsome.2).symm, is_iff.mp hsome.1⟩

theorem kind_of_edge? {edge : Edge} (h : token.edge? = some edge)
    : token.kind = .control ∨ token.kind = .command := by
  have hkinds : ∀ bracket ∈ Bracket.all false,
      bracket.kind = .control ∨ bracket.kind = .command := by
    decide
  obtain ⟨bracket, hbracket, ⟨-, hlexeme⟩ | ⟨-, hlexeme⟩⟩ := lexeme_of_edge? h
  all_goals
    have hkind : token.kind = bracket.kind := congrArg Prod.fst hlexeme
    rw [hkind]
    exact hkinds bracket hbracket

theorem kind_of_closing_environment (h : token.edge? = some (.closing .environment))
    : token.kind = .command := by
  obtain ⟨bracket, -, ⟨hedge, -⟩ | ⟨hedge, hlexeme⟩⟩ := lexeme_of_edge? h
  . contradiction
  . cases hedge
    exact congrArg Prod.fst hlexeme

end Edges

section Stack

/--
A bracket that is open, with the name that follows it if there is one.
-/
structure OpenBracket where
  bracket : Bracket
  name : Option String

/--
The tokens close all open brackets, of which the innermost one comes first: brackets are paired, the
ends of an environment have the same name, and separators stand where an environment is open.
-/
def Closes (opened : List OpenBracket) : List Token → Prop
  | [] => opened = []
  | token :: tokens =>
    match token.edge? with
    | some (.opening bracket) => Closes (⟨bracket, bracedText? tokens⟩ :: opened) tokens
    | some (.closing bracket) =>
      ∃ last outer, opened = last :: outer ∧ last.bracket = bracket ∧
        (bracket = .environment → last.name.isSome ∧ bracedText? tokens = last.name) ∧
        Closes outer tokens
    | none =>
      (token.isSeparator → ∃ outer ∈ opened, outer.bracket = .environment) ∧ Closes opened tokens

variable {opened : List OpenBracket} {token : Token} {tokens rest : List Token} {bracket : Bracket}

theorem closes_opening (h : token.edge? = some (.opening bracket))
    : Closes opened (token :: tokens) ↔
      Closes (⟨bracket, bracedText? tokens⟩ :: opened) tokens := by
  rw [Closes, h]

theorem closes_closing (h : token.edge? = some (.closing bracket))
    : Closes opened (token :: tokens) ↔
      ∃ last outer, opened = last :: outer ∧ last.bracket = bracket ∧
        (bracket = .environment → last.name.isSome ∧ bracedText? tokens = last.name) ∧
        Closes outer tokens := by
  rw [Closes, h]

theorem closes_plain (h : token.edge? = none)
    : Closes opened (token :: tokens) ↔
      (token.isSeparator → ∃ outer ∈ opened, outer.bracket = .environment) ∧
        Closes opened tokens := by
  rw [Closes, h]

theorem edges_cons_some {edge : Edge} (h : token.edge? = some edge)
    : edges (token :: tokens) = edge :: edges tokens := by
  simp [edges, h]

theorem edges_cons_none (h : token.edge? = none) : edges (token :: tokens) = edges tokens := by
  simp [edges, h]

theorem edges_append (tokens rest : List Token)
    : edges (tokens ++ rest) = edges tokens ++ edges rest :=
  List.filterMap_append

theorem leftOpen?_append (opened : List Bracket) (word more : List Edge)
    : leftOpen? opened (word ++ more) = (leftOpen? opened word).bind (leftOpen? · more) := by
  fun_induction leftOpen? opened word with
  | case1 opened => rfl
  | case2 opened bracket word ih => exact ih
  | case3 bracket word => rfl
  | case4 word last outer ih => simpa [leftOpen?] using ih
  | case5 bracket word last outer hne => simp [leftOpen?, hne]

theorem Closes.leftOpen?_eq (h : Closes opened tokens)
    : leftOpen? (opened.map OpenBracket.bracket) (edges tokens) = some [] := by
  induction tokens generalizing opened with
  | nil =>
    cases h
    rfl
  | cons token tokens ih =>
    match hedge : token.edge? with
    | some (.opening bracket) =>
      rw [closes_opening hedge] at h
      rw [edges_cons_some hedge, leftOpen?]
      exact ih h
    | some (.closing bracket) =>
      obtain ⟨last, outer, rfl, rfl, -, h⟩ := (closes_closing hedge).mp h
      rw [edges_cons_some hedge, List.map_cons, leftOpen?, if_pos rfl]
      exact ih h
    | none =>
      rw [closes_plain hedge] at h
      rw [edges_cons_none hedge]
      exact ih h.2

/--
What stands in front leaves some brackets open. Those that it has opened itself stand in it, with
everything behind them paired up to those still open; the others were open before.
-/
theorem Closes.of_append (h : Closes opened (tokens ++ rest))
    : ∃ left, Closes left rest ∧ ∀ inner last outer, left = inner ++ last :: outer →
        (∃ before opener after, tokens = before ++ opener :: after ∧
          opener.edge? = some (.opening last.bracket) ∧
          leftOpen? [] (edges after) = some (inner.map OpenBracket.bracket)) ∨
        ∃ further, opened = further ++ last :: outer ∧
          leftOpen? (further.map OpenBracket.bracket) (edges tokens) =
            some (inner.map OpenBracket.bracket) := by
  induction tokens generalizing opened with
  | nil => exact ⟨opened, h, fun inner last outer heq => .inr ⟨inner, heq, rfl⟩⟩
  | cons token tokens ih =>
    rw [List.cons_append] at h
    match hedge : token.edge? with
    | some (.opening bracket) =>
      obtain ⟨left, hleft, hopen⟩ := ih ((closes_opening hedge).mp h)
      refine ⟨left, hleft, fun inner last outer heq => ?_⟩
      obtain ⟨before, opener, after, rfl, hbehind⟩ | ⟨further, hfurther, hrun⟩ :=
        hopen inner last outer heq
      . exact .inl ⟨token :: before, opener, after, rfl, hbehind⟩
      . cases further with
        | nil =>
          cases hfurther
          exact .inl ⟨[], token, tokens, rfl, hedge, hrun⟩
        | cons first further =>
          cases hfurther
          refine .inr ⟨further, rfl, ?_⟩
          rw [edges_cons_some hedge, leftOpen?]
          exact hrun
    | some (.closing bracket) =>
      obtain ⟨innermost, remaining, rfl, rfl, -, h⟩ := (closes_closing hedge).mp h
      obtain ⟨left, hleft, hopen⟩ := ih h
      refine ⟨left, hleft, fun inner last outer heq => ?_⟩
      obtain ⟨before, opener, after, rfl, hbehind⟩ | ⟨further, rfl, hrun⟩ :=
        hopen inner last outer heq
      . exact .inl ⟨token :: before, opener, after, rfl, hbehind⟩
      . refine .inr ⟨innermost :: further, rfl, ?_⟩
        rw [edges_cons_some hedge, List.map_cons, leftOpen?, if_pos rfl]
        exact hrun
    | none =>
      obtain ⟨left, hleft, hopen⟩ := ih ((closes_plain hedge).mp h).2
      refine ⟨left, hleft, fun inner last outer heq => ?_⟩
      obtain ⟨before, opener, after, rfl, hbehind⟩ | ⟨further, hfurther, hrun⟩ :=
        hopen inner last outer heq
      . exact .inl ⟨token :: before, opener, after, rfl, hbehind⟩
      . refine .inr ⟨further, hfurther, ?_⟩
        rw [edges_cons_none hedge]
        exact hrun

theorem Closes.of_wellBracketed (hwell : WellBracketed (edges tokens))
    (h : Closes opened (tokens ++ rest)) : Closes opened rest := by
  suffices hrun : ∀ (opened inner : List OpenBracket) (left : List Bracket),
      leftOpen? (inner.map OpenBracket.bracket) (edges tokens) = some left →
      Closes (inner ++ opened) (tokens ++ rest) →
      ∃ further, further.map OpenBracket.bracket = left ∧ Closes (further ++ opened) rest by
    obtain ⟨further, hfurther, hrest⟩ := hrun opened [] [] hwell h
    cases List.map_eq_nil_iff.mp hfurther
    exact hrest
  clear hwell h
  intro opened inner left
  induction tokens generalizing inner with
  | nil =>
    intro hleft h
    cases hleft
    exact ⟨inner, rfl, h⟩
  | cons token tokens ih =>
    intro hleft h
    rw [List.cons_append] at h
    match hedge : token.edge? with
    | some (.opening bracket) =>
      rw [edges_cons_some hedge, leftOpen?] at hleft
      exact ih (⟨bracket, bracedText? (tokens ++ rest)⟩ :: inner) hleft
        ((closes_opening hedge).mp h)
    | some (.closing bracket) =>
      rw [edges_cons_some hedge] at hleft
      cases inner with
      | nil => contradiction
      | cons last inner =>
        rw [List.map_cons, leftOpen?, Option.ite_none_right_eq_some] at hleft
        obtain ⟨last, outer, heq, -, -, h⟩ := (closes_closing hedge).mp h
        cases heq
        exact ih inner hleft.2 h
    | none =>
      rw [edges_cons_none hedge] at hleft
      exact ih inner hleft ((closes_plain hedge).mp h).2

/--
Every open bracket finds its partner, and what stands before it closes the brackets further inside.
-/
theorem Closes.exists_closer {inner outer : List OpenBracket} {last : OpenBracket}
    (h : Closes (inner ++ last :: outer) tokens)
    : ∃ before closer after, tokens = before ++ closer :: after ∧
        closer.edge? = some (.closing last.bracket) ∧
        leftOpen? (inner.map OpenBracket.bracket) (edges before) = some [] := by
  induction tokens generalizing inner with
  | nil => exact absurd h (by simp [Closes])
  | cons token tokens ih =>
    match hedge : token.edge? with
    | some (.opening bracket) =>
      have hpushed : Closes ((⟨bracket, bracedText? tokens⟩ :: inner) ++ last :: outer) tokens :=
        (closes_opening hedge).mp h
      obtain ⟨before, closer, after, rfl, hcloser, hrun⟩ := ih hpushed
      refine ⟨token :: before, closer, after, rfl, hcloser, ?_⟩
      rw [edges_cons_some hedge, leftOpen?]
      exact hrun
    | some (.closing bracket) =>
      obtain ⟨innermost, remaining, heq, rfl, -, h⟩ := (closes_closing hedge).mp h
      cases inner with
      | nil =>
        cases heq
        exact ⟨[], token, tokens, rfl, hedge, rfl⟩
      | cons first inner =>
        cases heq
        obtain ⟨before, closer, after, rfl, hcloser, hrun⟩ := ih h
        refine ⟨token :: before, closer, after, rfl, hcloser, ?_⟩
        rw [edges_cons_some hedge, List.map_cons, leftOpen?, if_pos rfl]
        exact hrun
    | none =>
      obtain ⟨before, closer, after, rfl, hcloser, hrun⟩ := ih ((closes_plain hedge).mp h).2
      refine ⟨token :: before, closer, after, rfl, hcloser, ?_⟩
      rw [edges_cons_none hedge]
      exact hrun

end Stack

section BracedText

variable {tokens : List Token} {text : String}

theorem exists_of_bracedText? (h : bracedText? tokens = some text)
    : ∃ opener raw closer rest, tokens = opener :: raw :: closer :: rest ∧
        opener.lexeme = (.control, "\x7b") ∧ raw.kind = .text ∧
        closer.lexeme = (.control, "\x7d") := by
  unfold bracedText? at h
  split at h
  next opener raw closer rest =>
    simp only [Option.ite_none_right_eq_some, Bool.and_eq_true, beq_iff_eq] at h
    obtain ⟨⟨⟨hopener, hraw⟩, hcloser⟩, -⟩ := h
    exact ⟨opener, raw, closer, rest, rfl, is_iff.mp hopener, hraw, is_iff.mp hcloser⟩
  next => contradiction

theorem bracedText?_append (h : bracedText? tokens = some text) (rest : List Token)
    : bracedText? (tokens ++ rest) = some text := by
  obtain ⟨opener, raw, closer, further, rfl, -⟩ := exists_of_bracedText? h
  exact h

theorem bracedText?_take (h : bracedText? tokens = some text)
    : bracedText? (tokens.take 3) = some text := by
  obtain ⟨opener, raw, closer, further, rfl, -⟩ := exists_of_bracedText? h
  exact h

theorem bracedText?_of_append {closer : Token} {rest : List Token}
    (hcloser : closer.kind = .command) (h : bracedText? (tokens ++ closer :: rest) = some text)
    : bracedText? tokens = some text := by
  obtain ⟨opener, raw, brace, further, heq, hopener, hraw, hbrace⟩ := exists_of_bracedText? h
  have hopenerKind : opener.kind = .control := congrArg Prod.fst hopener
  have hbraceKind : brace.kind = .control := congrArg Prod.fst hbrace
  match tokens with
  | [] => simp_all
  | [first] => simp_all
  | [first, second] => simp_all
  | first :: second :: third :: tokens => exact h

end BracedText

/--
Tokens that can be put in front of whatever closes the open brackets. In an environment there may be
separators among them.
-/
def Nests (inEnv : Bool) (tokens : List Token) : Prop :=
  ∀ opened rest, (inEnv = true → ∃ outer ∈ opened, outer.bracket = .environment) →
    Closes opened rest → Closes opened (tokens ++ rest)

/--
A token that is neither a bracket nor a separator.
-/
def Token.IsPlain (token : Token) : Prop :=
  token.edge? = none ∧ token.isSeparator = false

section Nests

variable {inEnv : Bool} {token : Token} {tokens more : List Token}

theorem nests_nil : Nests inEnv [] :=
  fun _ _ _ h => h

theorem Nests.append (h : Nests inEnv tokens) (hmore : Nests inEnv more)
    : Nests inEnv (tokens ++ more) := by
  intro opened rest henv hrest
  rw [List.append_assoc]
  exact h opened _ henv (hmore opened rest henv hrest)

theorem nests_token (hedge : token.edge? = none) (hseparator : token.isSeparator → inEnv = true)
    : Nests inEnv [token] := by
  intro opened rest henv hrest
  exact (closes_plain hedge).mpr ⟨fun h => henv (hseparator h), hrest⟩

theorem Nests.cons (htoken : token.IsPlain) (h : Nests inEnv tokens)
    : Nests inEnv (token :: tokens) :=
  (nests_token htoken.1 (by simp [htoken.2])).append h

theorem nests_plain (h : ∀ token ∈ tokens, token.IsPlain) : Nests inEnv tokens := by
  induction tokens with
  | nil => exact nests_nil
  | cons token tokens ih =>
    obtain ⟨htoken, htokens⟩ := List.forall_mem_cons.mp h
    exact (ih htokens).cons htoken

theorem Nests.wrap {bracket : Bracket} {opener closer : Token} {after : List Token}
    (hopener : opener.edge? = some (.opening bracket))
    (hcloser : closer.edge? = some (.closing bracket))
    (hname : bracket = .environment →
      ∃ name, bracedText? tokens = some name ∧ bracedText? after = some name)
    (h : Nests (inEnv || bracket == .environment) tokens) (hafter : Nests inEnv after)
    : Nests inEnv (opener :: (tokens ++ closer :: after)) := by
  intro opened rest henv hrest
  rw [List.cons_append, List.append_assoc, List.cons_append]
  refine (closes_opening hopener).mpr (h _ _ ?_ ?_)
  . intro hinside
    rw [Bool.or_eq_true, beq_iff_eq] at hinside
    cases hinside with
    | inl hinEnv =>
      obtain ⟨outer, hmem, houter⟩ := henv hinEnv
      exact ⟨outer, List.mem_cons_of_mem _ hmem, houter⟩
    | inr henvironment => exact ⟨_, List.mem_cons_self, henvironment⟩
  . refine (closes_closing hcloser).mpr ⟨_, opened, rfl, rfl, ?_, hafter opened rest henv hrest⟩
    intro henvironment
    obtain ⟨name, hbegin, hend⟩ := hname henvironment
    simp only [bracedText?_append hbegin, bracedText?_append hend, Option.isSome_some, and_self]

theorem nests_bracedText {text : String} (h : bracedText? tokens = some text)
    : Nests inEnv (tokens.take 3) := by
  obtain ⟨opener, raw, closer, rest, rfl, hopener, hraw, hcloser⟩ := exists_of_bracedText? h
  have hplain : raw.IsPlain := by
    refine ⟨edge?_neutral (neutral_of_kind ?_), ?_⟩
    . simp [hraw]
    . simp [Token.isSeparator, Token.is, hraw]
  have hbrace : Bracket.brace ∈ Bracket.all false := by decide
  have hname : Bracket.brace ≠ .environment := by decide
  exact .wrap (edge?_opening hbrace hopener) (edge?_closing hbrace hcloser)
    (fun henvironment => absurd henvironment hname) (nests_nil.cons hplain) nests_nil

end Nests

section Plain

variable {token : Token} {tokens : List Token}

theorem isPlain_of_kind (h : token.kind ≠ .control ∧ token.kind ≠ .command) : token.IsPlain := by
  constructor
  . cases hedge : token.edge? with
    | none => rfl
    | some edge => exact absurd (kind_of_edge? hedge) (by simp [h])
  . simp [Token.isSeparator, Token.is, h.1]

theorem isPlain_of_isSpace (h : Token.isSpace token) : token.IsPlain := by
  apply isPlain_of_kind
  rcases kind_of_isSpace h with hkind | hkind
  all_goals simp [hkind]

theorem isPlain_of_isPrime (h : token.isPrime) : token.IsPlain := by
  apply isPlain_of_kind
  have hkind : token.kind = .element := congrArg Prod.fst (is_iff.mp h)
  simp [hkind]

theorem isPlain_of_script? {place : Script} (h : token.script? = some place) : token.IsPlain := by
  unfold Token.script? at h
  rw [Option.ite_none_right_eq_some, beq_iff_eq] at h
  obtain ⟨hkind, hmarker⟩ := h
  have htext : token.text = "_" ∨ token.text = "^" := by
    unfold Script.ofMarker? at hmarker
    split at hmarker
    next htext => exact .inl htext
    next htext => exact .inr htext
    next => contradiction
  have hneutral : Neutral false (.control, token.text) := by
    apply neutral_control
    rcases htext with htext | htext
    all_goals simp [htext]
  refine ⟨edge?_neutral (by rwa [Token.lexeme, hkind]), ?_⟩
  rcases htext with htext | htext
  all_goals simp [Token.isSeparator, Token.is, htext]

theorem edge?_control (hkind : token.kind = .control) (htext : token.text ∉ ["\x7b", "\x7d"])
    : token.edge? = none := by
  apply edge?_neutral
  rw [Token.lexeme, hkind]
  exact neutral_control htext

theorem edge?_of_isSeparator (h : token.isSeparator) : token.edge? = none := by
  rw [Token.isSeparator, Bool.or_eq_true, is_iff, is_iff] at h
  apply edge?_neutral
  rcases h with h | h
  all_goals
    rw [h]
    exact neutral_control (by decide)

theorem isSeparator_of_ofToken? {item : GridItem} (h : GridItem.ofToken? token = some item)
    : token.isSeparator := by
  unfold GridItem.ofToken? at h
  unfold Token.isSeparator
  split at h
  next hcell => simp [hcell]
  next =>
    split at h
    next hrow => simp [hrow]
    next => contradiction

theorem isPlain_command (hkind : token.kind = .command)
    (hname : token.name ∉ ["left", "right", "begin", "end"]) : token.IsPlain := by
  have hneutral : Neutral false (.command, token.text) := by
    apply neutral_command
    intro htext
    simp only [List.mem_cons, List.not_mem_nil, or_false] at htext
    apply hname
    rw [Token.name]
    rcases htext with htext | htext | htext | htext
    all_goals
      rw [htext]
      decide
  refine ⟨edge?_neutral (by rwa [Token.lexeme, hkind]), ?_⟩
  simp [Token.isSeparator, Token.is, hkind]

theorem isPlain_of_isDelimiter (h : token.isDelimiter) : token.IsPlain := by
  unfold Token.isDelimiter at h
  split at h
  next hkind =>
    apply isPlain_of_kind
    simp [hkind]
  next hkind =>
    apply isPlain_command hkind
    intro hname
    have hnames : ∀ name ∈ ["left", "right", "begin", "end"], name ∉ commandDelimiters := by
      decide
    exact hnames _ hname (List.contains_iff_mem.mp h)
  next => contradiction

theorem forall_mem_take_countFront (p : Token → Bool) (tokens : List Token)
    : ∀ token ∈ tokens.take (Token.countFront p tokens), p token := by
  intro token htoken
  rw [Token.countFront, (List.prefix_iff_eq_take.mp (List.takeWhile_prefix p)).symm] at htoken
  exact List.all_eq_true.mp List.all_takeWhile token htoken

end Plain

/--
A command whose text begins with a backslash, or a token of another kind.
-/
def Token.IsBackslashed (token : Token) : Prop :=
  token.kind = .command → token.text.toList.head? = some '\\'

section Search

variable {inEnv : Bool} {token : Token} {tokens : List Token}

theorem lexeme_of_name {name : String} (h : token.IsBackslashed) (hkind : token.kind = .command)
    (hname : token.name = name) : token.lexeme = (.command, "\\" ++ name) := by
  have htext : token.text = "\\" ++ name := by
    rw [← String.toList_inj, ← hname, Token.name, String.toList_append, String.toList_ofList]
    exact (List.cons_head?_tail (h hkind)).symm.trans (by simp)
  rw [Token.lexeme, hkind, htext]

/--
Brackets around what is read up to the closing one. The search may begin behind some tokens.
-/
theorem nests_closing (bracket : Bracket) (hbracket : bracket ∈ Bracket.all false)
    (front : List Token) (after : Nat) {opener closer : Token} {size : Nat}
    (hopener : opener.lexeme = (bracket.kind, bracket.opening))
    (hclosing : Token.closing? (·.is bracket.kind bracket.opening)
      (·.is bracket.kind bracket.closing) 0 tokens = some (size, closer))
    (hname : bracket = .environment → ∃ name, bracedText? front = some name ∧
      bracedText? ((tokens.drop (size + 1)).take after) = some name)
    (h : Nests (inEnv || bracket == .environment) (front ++ tokens.take size))
    (hafter : Nests inEnv ((tokens.drop (size + 1)).take after))
    : Nests inEnv (opener :: (front ++ tokens.take (size + 1 + after))) := by
  have hcloser := is_iff.mp (Token.mem_of_closing? hclosing).2
  have htake : tokens.take (size + 1 + after) =
      tokens.take size ++ closer :: (tokens.drop (size + 1)).take after := by
    rw [Nat.add_assoc, List.take_add, Token.drop_of_closing? hclosing, Nat.add_comm 1,
      List.take_succ_cons]
  rw [htake, ← List.append_assoc]
  refine Nests.wrap (edge?_opening hbracket hopener) (edge?_closing hbracket hcloser) ?_ h hafter
  intro henvironment
  obtain ⟨name, hbegin, hend⟩ := hname henvironment
  exact ⟨name, bracedText?_append hbegin _, hend⟩

theorem nests_blanks (tokens : List Token)
    : Nests inEnv (tokens.take (Token.countFront Token.isSpace tokens)) :=
  nests_plain fun token htoken =>
    isPlain_of_isSpace (forall_mem_take_countFront Token.isSpace tokens token htoken)

theorem nests_primes (tokens : List Token)
    : Nests inEnv (tokens.take (Token.countFront Token.isPrime tokens)) :=
  nests_plain fun token htoken =>
    isPlain_of_isPrime (forall_mem_take_countFront Token.isPrime tokens token htoken)

theorem Nests.take_add {first second : Nat} (h : Nests inEnv (tokens.take first))
    (hmore : Nests inEnv ((tokens.drop first).take second))
    : Nests inEnv (tokens.take (first + second)) := by
  rw [List.take_add]
  exact h.append hmore

theorem nests_take_one {rest : List Token} (h : tokens = token :: rest) (htoken : token.IsPlain)
    : Nests inEnv (tokens.take 1) := by
  subst h
  exact nests_nil.cons htoken

theorem nests_rawArgument (inEnv : Bool) (owner : Token) (tokens : List Token)
    : Yields (rawArgument owner tokens) fun answer => Nests inEnv (tokens.take answer.2) := by
  simp only [rawArgument]
  split
  next text htext =>
    apply yields_ok
    exact (nests_blanks tokens).take_add (nests_bracedText htext)
  next =>
    split
    next token rest heq =>
      split
      next hkind =>
        apply yields_ok
        refine (nests_blanks tokens).take_add (nests_take_one heq (isPlain_of_kind ?_))
        simp [eq_of_beq hkind]
      next => exact yields_error _
    next => exact yields_error _

theorem nests_spec {name : String}
    (h : Nests inEnv (tokens.drop
      (if (if name == "array" then bracedText? tokens else none).isSome then 3 else 0)))
    : Nests inEnv tokens := by
  cases hspec : (if name == "array" then bracedText? tokens else none) with
  | none =>
    rw [hspec] at h
    exact h
  | some spec =>
    rw [Option.ite_none_right_eq_some] at hspec
    simp only [hspec, if_true, Option.isSome_some] at h
    rw [← List.take_append_drop 3 tokens]
    exact (nests_bracedText hspec.2).append h

/--
The brackets around a degree do not disturb the nesting, since they count as plain tokens.
-/
theorem nests_degree? (inEnv : Bool) (tokens : List Token)
    : Yields (degree? tokens) fun optional => ∀ before size, optional = some (before, size) →
        Nests inEnv (tokens.take before) ∧
        ∃ closer, closer.IsPlain ∧
          (tokens.drop before).drop size = closer :: tokens.drop (before + size + 1) := by
  simp only [degree?]
  split
  . exact yields_ok nofun
  next token rest heq =>
    split
    next hbracket =>
      split
      next size closer hclosing =>
        apply yields_ok
        rintro before _ ⟨⟩
        have hdrop : tokens.drop (Token.countFront Token.isSpace tokens + 1) = rest := by
          rw [← List.drop_drop, heq, List.drop_one, List.tail_cons]
        have hopener : token.kind = .element := congrArg Prod.fst (is_iff.mp hbracket)
        have hcloser : closer.kind = .element :=
          congrArg Prod.fst (is_iff.mp (Token.mem_of_closing? hclosing).2)
        refine ⟨?_, closer, isPlain_of_kind (by simp [hcloser]), ?_⟩
        . exact (nests_blanks tokens).take_add
            (nests_take_one heq (isPlain_of_kind (by simp [hopener])))
        . rw [hdrop, Token.drop_of_closing? hclosing, ← hdrop, List.drop_drop]
          rfl
      next => exact yields_error _
    next => exact yields_ok nofun

end Search

end Tex
end MathMarkup
