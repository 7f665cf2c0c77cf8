import MathMarkup.Proofs.Token.Nesting
import MathMarkup.Script
import Mathlib.Data.List.Forall2

/-!
This module contains readers that go by positions: they look at one list of tokens through the
position to start at and the position to stop before, and answer the position behind what they have
used. Every index and every range is checked, every expression has to use a token, and loops and
nested calls are limited by fuel. What is shared by both languages is shown here to agree with the
readers that take the tokens of a range as a list of their own, so no check ever fails.
-/

namespace MathMarkup

/--
A computation with checks. It has no answer at all if a check fails or if the fuel runs out.
-/
abbrev Checked (α : Type) :=
  ExceptT ParseError Option α

namespace Checked

variable {α : Type}

def refused : Checked α :=
  ExceptT.mk none

def check (p : Prop) [Decidable p] : Checked Unit :=
  if p then pure () else refused

def ofExcept (x : Except ParseError α) : Checked α :=
  ExceptT.mk (some x)

end Checked

/--
The first computation passes its checks. It fails with the error of the second, or both succeed with
related results.
-/
def Agrees {α β : Type} (r : α → β → Prop) (x : Checked α) (y : Except ParseError β) : Prop :=
  match x.run, y with
  | some (.ok a), .ok b => r a b
  | some (.error e), .error e' => e = e'
  | _, _ => False

section Agrees

variable {α β γ δ : Type} {r : α → β → Prop} {s : γ → δ → Prop} {x : Checked α}
  {y : Except ParseError β}

theorem agrees_pure {a : α} {b : β} (h : r a b) : Agrees r (pure a) (.ok b) :=
  h

theorem agrees_throw (e : ParseError) : Agrees r (throw e) (.error e) :=
  rfl

theorem agrees_ofExcept (x : Except ParseError α) : Agrees Eq (Checked.ofExcept x) x := by
  cases x with
  | error e => rfl
  | ok a => rfl

theorem Agrees.elim (h : Agrees r x y)
    : (∃ a b, x = some (.ok a) ∧ y = .ok b ∧ r a b) ∨
      ∃ e, x = some (.error e) ∧ y = .error e := by
  match x, y with
  | some (.ok a), .ok b => exact .inl ⟨a, b, rfl, rfl, h⟩
  | some (.error e), .error e' =>
    cases h
    exact .inr ⟨e, rfl, rfl⟩
  | some (.ok _), .error _ | some (.error _), .ok _ | none, .ok _ | none, .error _ => contradiction

theorem Agrees.bind (h : Agrees r x y) {f : α → Checked γ} {g : β → Except ParseError δ}
    (hnext : ∀ a b, r a b → Agrees s (f a) (g b)) : Agrees s (x >>= f) (y >>= g) := by
  obtain ⟨a, b, rfl, rfl, hab⟩ | ⟨e, rfl, rfl⟩ := h.elim
  . exact hnext a b hab
  . rfl

theorem Agrees.map (h : Agrees r x y) {f : α → γ} {g : β → δ} (hnext : ∀ a b, r a b → s (f a) (g b))
    : Agrees s (x >>= fun a => pure (f a)) (y >>= fun b => pure (g b)) :=
  h.bind fun a b hab => agrees_pure (hnext a b hab)

theorem Agrees.map_eq {y : Except ParseError α} (h : Agrees Eq x y) (f : α → γ)
    : Agrees Eq (x >>= fun a => pure (f a)) (y >>= fun a => pure (f a)) :=
  h.map fun _ _ hab => congrArg f hab

theorem Agrees.map_left {t : γ → β → Prop} (h : Agrees r x y) {f : α → γ}
    (hnext : ∀ a b, r a b → t (f a) b) : Agrees t (x >>= fun a => pure (f a)) y := by
  obtain ⟨a, b, rfl, rfl, hab⟩ | ⟨e, rfl, rfl⟩ := h.elim
  . exact hnext a b hab
  . rfl

theorem Agrees.map_right {t : α → δ → Prop} (h : Agrees r x y) {g : β → δ}
    (hnext : ∀ a b, r a b → t a (g b)) : Agrees t x (y >>= fun b => pure (g b)) := by
  obtain ⟨a, b, rfl, rfl, hab⟩ | ⟨e, rfl, rfl⟩ := h.elim
  . exact hnext a b hab
  . rfl

theorem Agrees.eq_some {x : Checked α} {y : Except ParseError α} (h : Agrees Eq x y)
    : x = some y := by
  obtain ⟨a, b, rfl, rfl, rfl⟩ | ⟨e, rfl, rfl⟩ := h.elim
  . rfl
  . rfl

theorem Agrees.mapM {R : γ → δ → Prop} {xs : List γ} {ys : List δ} (h : List.Forall₂ R xs ys)
    {f : γ → Checked α} {g : δ → Except ParseError α}
    (hstep : ∀ x y, R x y → Agrees Eq (f x) (g y)) : Agrees Eq (xs.mapM f) (ys.mapM g) := by
  induction h with
  | nil => exact agrees_pure rfl
  | cons hhead _ ih =>
    rw [List.mapM_cons, List.mapM_cons]
    apply (hstep _ _ hhead).bind
    rintro a _ rfl
    exact ih.map_eq _

end Agrees

namespace Positions

variable {κ : Type}

section Ranges

variable (tokens : List (Token κ)) {start pos stop : Nat}

/--
The tokens from one position up to but not including another.
-/
def part (start stop : Nat) : List (Token κ) :=
  (tokens.take stop).drop start

def slice (start stop : Nat) : Checked (List (Token κ)) := do
  Checked.check (start ≤ stop ∧ stop ≤ tokens.length)
  return part tokens start stop

def index (pos : Nat) : Checked (Token κ) :=
  match tokens[pos]? with
  | some token => pure token
  | none => Checked.refused

variable {tokens}

theorem check_eq {p : Prop} [Decidable p] (h : p) : Checked.check p = pure () :=
  if_pos h

theorem slice_eq (hstart : start ≤ stop) (hstop : stop ≤ tokens.length)
    : slice tokens start stop = pure (part tokens start stop) := by
  rw [slice, check_eq ⟨hstart, hstop⟩, pure_bind]

theorem length_part (hstop : stop ≤ tokens.length)
    : (part tokens start stop).length = stop - start := by
  rw [part, List.length_drop, List.length_take, Nat.min_eq_left hstop]

theorem part_eq_nil (h : stop ≤ start) : part tokens start stop = [] := by
  apply List.drop_eq_nil_of_le
  rw [List.length_take]
  omega

theorem part_all : part tokens 0 tokens.length = tokens := by
  rw [part, List.take_length, List.drop_zero]

theorem drop_part (count : Nat)
    : (part tokens start stop).drop count = part tokens (start + count) stop := by
  rw [part, List.drop_drop, part]

theorem take_part {count : Nat} (h : start + count ≤ stop)
    : (part tokens start stop).take count = part tokens start (start + count) := by
  rw [part, part, List.take_drop, List.take_take, Nat.min_eq_left h]

/--
A range that lies within the tokens, a position in it, and the token at this position.
-/
structure Holds (tokens : List (Token κ)) (pos stop : Nat) (token : Token κ) : Prop where
  lt : pos < stop
  le : stop ≤ tokens.length
  index_eq : index tokens pos = pure token
  part_eq : part tokens pos stop = token :: part tokens (pos + 1) stop

theorem exists_holds (hpos : pos < stop) (hstop : stop ≤ tokens.length)
    : ∃ token, Holds tokens pos stop token := by
  have hlength : pos < tokens.length := by omega
  refine ⟨tokens[pos], hpos, hstop, ?_, ?_⟩
  . rw [index, List.getElem?_eq_getElem hlength]
  . have htake : pos < (tokens.take stop).length := by
      rw [List.length_take]
      omega
    rw [part, List.drop_eq_getElem_cons htake, List.getElem_take, part]

theorem holds_of_part {token : Token κ} {rest : List (Token κ)} (hstop : stop ≤ tokens.length)
    (h : part tokens pos stop = token :: rest)
    : Holds tokens pos stop token ∧ rest = part tokens (pos + 1) stop := by
  have hlt : pos < stop := by
    by_contra hle
    rw [part_eq_nil (by omega)] at h
    contradiction
  obtain ⟨first, hfirst⟩ := exists_holds hlt hstop
  have hpart := hfirst.part_eq
  rw [h] at hpart
  cases hpart
  exact ⟨hfirst, rfl⟩

theorem Holds.part_succ {token : Token κ} (h : Holds tokens pos stop token) (hstart : start ≤ pos)
    : part tokens start (pos + 1) = part tokens start pos ++ [token] := by
  obtain ⟨before, rfl⟩ := Nat.exists_eq_add_of_le hstart
  have hlt := h.lt
  rw [Nat.add_assoc, ← take_part hlt, List.take_add_one, take_part (Nat.le_of_lt hlt),
    ← List.head?_drop, drop_part, h.part_eq]
  rfl

theorem dropLast_part (hstop : stop ≤ tokens.length)
    : (part tokens start stop).dropLast = part tokens start (stop - 1) := by
  rw [List.dropLast_eq_take, length_part hstop]
  by_cases hlt : start < stop
  . rw [take_part (by omega)]
    congr 1
    omega
  . rw [part_eq_nil (by omega), part_eq_nil (by omega), List.take_nil]

theorem Holds.mem {token : Token κ} (h : Holds tokens pos stop token) : token ∈ tokens := by
  have hpart : token ∈ part tokens pos stop := by
    rw [h.part_eq]
    exact List.mem_cons_self
  exact List.mem_of_mem_take (List.mem_of_mem_drop hpart)

def frontSize (p : Token κ → Bool) (tokens : List (Token κ)) (start stop : Nat) : Checked Nat := do
  let tokens ← slice tokens start stop
  return Token.countFront p tokens

theorem frontSize_eq (p : Token κ → Bool) (hstart : start ≤ stop) (hstop : stop ≤ tokens.length)
    : frontSize p tokens start stop = pure (Token.countFront p (part tokens start stop)) := by
  rw [frontSize, slice_eq hstart hstop, pure_bind]

theorem countFront_le (p : Token κ → Bool) (tokens : List (Token κ))
    : Token.countFront p tokens ≤ tokens.length :=
  (List.takeWhile_sublist p).length_le

theorem add_countFront_le (p : Token κ → Bool) (hstart : start ≤ stop)
    (hstop : stop ≤ tokens.length)
    : start + Token.countFront p (part tokens start stop) ≤ stop := by
  have hcount := countFront_le p (part tokens start stop)
  rw [length_part hstop] at hcount
  omega

end Ranges

section Search

variable (isSpace : Token κ → Bool) (tokens : List (Token κ)) {pos stop : Nat}

/--
The token at a position, if the position lies before the end of the range.
-/
def get? (pos stop : Nat) : Checked (Option (Token κ)) := do
  let front ← slice tokens 0 stop
  return front[pos]?

/--
Skip spaces, and go on with the token behind them. It is an error if there is none.
-/
def afterSpaces {α : Type} (missing : ParseError) (first : Token κ → Nat → Checked α)
    (pos stop : Nat) : Checked α := do
  let blanks ← frontSize isSpace tokens pos stop
  match ← get? tokens (pos + blanks) stop with
  | none => throw missing
  | some token => first token (pos + blanks)

/--
The position of the token that closes what is opened at the start of a range.
-/
def findClosing (opens closes : Token κ → Bool) (start stop : Nat) : Checked (Option Nat) := do
  let range ← slice tokens start stop
  return (Token.closing? opens closes 0 range.tail).map fun (size, _) => start + 1 + size

variable {isSpace tokens}

theorem get?_eq (hstop : stop ≤ tokens.length)
    : get? tokens pos stop = pure (part tokens pos stop).head? := by
  rw [get?, slice_eq (Nat.zero_le stop) hstop, pure_bind, part, part, List.head?_drop,
    List.drop_zero]

theorem afterSpaces_agrees {α β : Type} {r : α → β → Prop} {missing : ParseError}
    {first : Token κ → Nat → Checked α} {y : Except ParseError β} {blanks : Nat}
    (hpos : pos ≤ stop) (hstop : stop ≤ tokens.length)
    (hblanks : Token.countFront isSpace (part tokens pos stop) = blanks)
    (hnil : part tokens (pos + blanks) stop = [] → y = .error missing)
    (hcons : ∀ token, Holds tokens (pos + blanks) stop token → isSpace token = false →
      Agrees r (first token (pos + blanks)) y)
    : Agrees r (afterSpaces isSpace tokens missing first pos stop) y := by
  rw [afterSpaces, frontSize_eq _ hpos hstop, pure_bind, hblanks, get?_eq hstop, pure_bind]
  by_cases hlt : pos + blanks < stop
  . obtain ⟨token, htoken⟩ := exists_holds hlt hstop
    have hspace : isSpace token = false := by
      have hhead := List.head?_dropWhile_not isSpace (part tokens pos stop)
      rw [← Token.drop_countFront, hblanks, drop_part, htoken.part_eq] at hhead
      simpa using hhead
    rw [htoken.part_eq]
    exact hcons token htoken hspace
  . have hpart : part tokens (pos + blanks) stop = [] := part_eq_nil (by omega)
    rw [hpart, hnil hpart]
    exact agrees_throw missing

theorem skip_spaces {α : Type} {read : List (Token κ) → Except ParseError (α × Nat)}
    (h : ∀ token tokens, isSpace token → read (token :: tokens) = (do
      let (node, used) ← read tokens
      return (node, used + 1))) (tokens : List (Token κ))
    : read tokens = (do
        let (node, used) ← read (tokens.drop (Token.countFront isSpace tokens))
        return (node, used + Token.countFront isSpace tokens)) := by
  induction tokens with
  | nil => exact (bind_pure _).symm
  | cons token tokens ih =>
    by_cases hspace : isSpace token
    . have hcount : Token.countFront isSpace (token :: tokens) =
          Token.countFront isSpace tokens + 1 := by
        simp [Token.countFront, hspace]
      rw [h token tokens hspace, ih, hcount, List.drop_succ_cons, bind_assoc]
      simp only [pure_bind, Nat.add_assoc]
    . have hcount : Token.countFront isSpace (token :: tokens) = 0 := by
        simp [Token.countFront, hspace]
      rw [hcount, List.drop_zero]
      exact (bind_pure _).symm

theorem Holds.findClosing_eq {token : Token κ} (h : Holds tokens pos stop token)
    (opens closes : Token κ → Bool)
    : findClosing tokens opens closes pos stop =
        pure ((Token.closing? opens closes 0 (part tokens (pos + 1) stop)).map
          fun (size, _) => pos + 1 + size) := by
  rw [findClosing, slice_eq (Nat.le_of_lt h.lt) h.le, pure_bind, h.part_eq, List.tail_cons]

theorem holds_of_closing? {opens closes : Token κ → Bool} {depth size : Nat} {closer : Token κ}
    (hstop : stop ≤ tokens.length)
    (h : Token.closing? opens closes depth (part tokens pos stop) = some (size, closer))
    : Holds tokens (pos + size) stop closer := by
  obtain ⟨hsize, _⟩ := List.getElem?_eq_some_iff.mp (Token.mem_of_closing? h).1
  rw [length_part hstop] at hsize
  obtain ⟨token, htoken⟩ := exists_holds (by omega : pos + size < stop) hstop
  have hpart := htoken.part_eq
  rw [← drop_part, Token.drop_of_closing? h, drop_part] at hpart
  cases hpart
  exact htoken

end Search

/--
An answer with the position behind what was used, and the same answer with the number of tokens used
from `pos` on. The position does not exceed `stop`.
-/
inductive Ends {α : Type} (pos stop : Nat) : α × Nat → α × Nat → Prop where
  | intro {node : α} {next used : Nat} (h : next = pos + used) (hle : next ≤ stop) :
    Ends pos stop (node, next) (node, used)

/--
A reader that answers in every range of the tokens that is not empty: with an error, or with a
position behind the start of the range and not behind its end.
-/
def Advances {α : Type} (tokens : List (Token κ)) (read : (pos stop : Nat) → Checked (α × Nat))
    : Prop :=
  ∀ pos stop, pos < stop → stop ≤ tokens.length →
    (∃ error, read pos stop = some (.error error)) ∨
      ∃ node next, read pos stop = some (.ok (node, next)) ∧ pos < next ∧ next ≤ stop

theorem advances_of_agrees {α : Type} {tokens : List (Token κ)}
    {read : (pos stop : Nat) → Checked (α × Nat)}
    (h : ∀ pos stop token, Holds tokens pos stop token →
      ∃ answer, Agrees (Ends (pos + 1) stop) (read pos stop) answer) : Advances tokens read := by
  intro pos stop hpos hstop
  obtain ⟨token, htoken⟩ := exists_holds hpos hstop
  obtain ⟨answer, hanswer⟩ := h pos stop token htoken
  obtain ⟨_, _, hread, _, ⟨rfl, hle⟩⟩ | ⟨error, herror, _⟩ := hanswer.elim
  . exact .inr ⟨_, _, hread, by omega, hle⟩
  . exact .inl ⟨error, herror⟩

/--
How expressions are written in a language.
-/
structure ExprSigns (κ α : Type) where
  script? : Token κ → Option Script
  isPrime : Token κ → Bool
  /-- What groups the scripts at one place. -/
  brackets : String
  empty : α
  attach : Scripts α → α → α

section Scripts

variable {α : Type} (signs : ExprSigns κ α) (atom : Nat → Nat → Checked (α × Nat))
  (argument : Token κ → Nat → Nat → Checked (α × Nat)) (tokens : List (Token κ))

/--
Read the script after the marker `owner`. Primes may follow a subscript.
-/
def script (found : Scripts α) (place : Script) (owner : Token κ) (pos stop : Nat)
    : Checked (Scripts α × Nat) :=
  if (found.get? place).isSome then
    throw (place.double signs.brackets owner.span)
  else do
    let (node, next) ← argument owner pos stop
    let found := found.insert node place
    match place with
    | .sup => return (found, next)
    | .sub =>
      let primes ← frontSize signs.isPrime tokens next stop
      return (found.addPrimes primes, next + primes)

/--
Read the scripts that follow a base, given those already found.
-/
def scripts : (fuel : Nat) → Scripts α → (pos stop : Nat) → Checked (Scripts α × Nat)
  | 0, _, _, _ => Checked.refused
  | fuel + 1, found, pos, stop =>
    if pos < stop then do
      let token ← index tokens pos
      match signs.script? token with
      | none => return (found, pos)
      | some place =>
        let (found, next) ← script signs argument tokens found place token (pos + 1) stop
        scripts fuel found next stop
    else
      return (found, pos)

/--
Read an expression with its primes and scripts. A script without a base has the empty one, for which
no token is used.
-/
def expr (fuel pos stop : Nat) : Checked (α × Nat) := do
  let (base, next) ← atom pos stop
  let primes ← frontSize signs.isPrime tokens next stop
  let (found, next) ← scripts signs argument tokens fuel { primes } (next + primes) stop
  return (signs.attach found base, next)

end Scripts

/--
Readers of expressions that take the tokens of a range as a list of their own, and answer how many
of them they have used.
-/
structure ExprReader (κ α : Type) extends ExprSigns κ α where
  atom : Token κ → List (Token κ) → Except ParseError (α × Nat)
  argument : Token κ → List (Token κ) → Except ParseError (α × Nat)
  script : Scripts α → Script → Token κ → List (Token κ) → Except ParseError (Scripts α × Nat)
  scripts : Scripts α → List (Token κ) → Except ParseError (Scripts α × Nat)
  expr : Token κ → List (Token κ) → Except ParseError (α × Nat)
  isPrime_of_script? : ∀ token place, script? token = some place → isPrime token = false
  script_eq : ∀ found place owner tokens, script found place owner tokens =
    if (found.get? place).isSome then
      .error (place.double brackets owner.span)
    else do
      let (node, used) ← argument owner tokens
      let found := found.insert node place
      match place with
      | .sup => return (found, used)
      | .sub =>
        let primes := Token.countFront isPrime (tokens.drop used)
        return (found.addPrimes primes, used + primes)
  scripts_nil : ∀ found, scripts found [] = .ok (found, 0)
  scripts_cons : ∀ found token tokens, scripts found (token :: tokens) =
    match script? token with
    | none => .ok (found, 0)
    | some place => do
      let (found, used) ← script found place token tokens
      let (found, more) ← scripts found (tokens.drop used)
      return (found, 1 + used + more)
  expr_eq : ∀ token tokens, expr token tokens =
    match script? token with
    | some place => do
      let (found, used) ← script {} place token tokens
      let (found, more) ← scripts found (tokens.drop used)
      return (attach found empty, used + more)
    | none => do
      let (base, used) ← atom token tokens
      let primes := Token.countFront isPrime (tokens.drop used)
      let (found, more) ← scripts { primes } (tokens.drop (used + primes))
      return (attach found base, used + primes + more)

/--
Expressions without scripts are read like by `reader` in all ranges up to a size.
-/
structure Reads {α : Type} (reader : ExprReader κ α) (tokens : List (Token κ)) (size : Nat)
    (atom : (pos stop : Nat) → Checked (α × Nat)) : Prop where
  marker : ∀ {pos stop token place}, Holds tokens pos stop token → stop ≤ pos + size →
    reader.script? token = some place → atom pos stop = pure (reader.empty, pos)
  agrees : ∀ {pos stop token}, Holds tokens pos stop token → stop ≤ pos + size →
    reader.script? token = none → Agrees (Ends (pos + 1) stop) (atom pos stop)
      (reader.atom token (part tokens (pos + 1) stop))

theorem reads_zero {α : Type} (reader : ExprReader κ α) (tokens : List (Token κ))
    (atom : (pos stop : Nat) → Checked (α × Nat)) : Reads reader tokens 0 atom where
  marker htoken hsize := absurd htoken.lt (Nat.not_lt.mpr hsize)
  agrees htoken hsize := absurd htoken.lt (Nat.not_lt.mpr hsize)

section Agreement

variable {α : Type} {reader : ExprReader κ α} {atom : Nat → Nat → Checked (α × Nat)}
  {argument : Token κ → Nat → Nat → Checked (α × Nat)} {tokens : List (Token κ)} {stop size : Nat}
  (hstop : stop ≤ tokens.length)
  (hargument : ∀ owner pos, pos ≤ stop → stop ≤ pos + size →
    Agrees (Ends pos stop) (argument owner pos stop) (reader.argument owner (part tokens pos stop)))

include hstop hargument

theorem script_agrees {pos : Nat} (found : Scripts α) (place : Script) (owner : Token κ)
    (hpos : pos ≤ stop) (hsize : stop ≤ pos + size)
    : Agrees (Ends pos stop)
      (script reader.toExprSigns argument tokens found place owner pos stop)
      (reader.script found place owner (part tokens pos stop)) := by
  rw [script, reader.script_eq]
  split
  . exact agrees_throw _
  . apply (hargument owner pos hpos hsize).bind
    rintro _ _ ⟨rfl, hnext⟩
    cases place with
    | sup => exact agrees_pure (.intro rfl hnext)
    | sub =>
      have hprimes := add_countFront_le reader.isPrime hnext hstop
      dsimp only
      rw [frontSize_eq _ hnext hstop, pure_bind, drop_part]
      exact agrees_pure (.intro (by omega) hprimes)

theorem scripts_agrees {fuel pos : Nat} (found : Scripts α) (hpos : pos ≤ stop)
    (hsize : stop ≤ pos + size + 1) (hfuel : stop < pos + fuel)
    : Agrees (Ends pos stop) (scripts reader.toExprSigns argument tokens fuel found pos stop)
      (reader.scripts found (part tokens pos stop)) := by
  -- Each script uses at least its marker, which is what pays for the fuel.
  induction fuel generalizing found pos with
  | zero => omega
  | succ fuel ih =>
    rw [scripts]
    split
    next hlt =>
      obtain ⟨token, htoken⟩ := exists_holds hlt hstop
      rw [htoken.index_eq, pure_bind, htoken.part_eq, reader.scripts_cons]
      cases reader.script? token with
      | none => exact agrees_pure (.intro rfl hpos)
      | some place =>
        apply (script_agrees hstop hargument found place token hlt (by omega)).bind
        rintro _ _ ⟨rfl, hnext⟩
        rename_i found used
        dsimp only
        rw [drop_part]
        apply (ih found hnext (by omega) (by omega)).map_right
        rintro _ _ ⟨rfl, hmore⟩
        exact .intro (by omega) hmore
    next hlt =>
      rw [part_eq_nil (by omega), reader.scripts_nil]
      exact agrees_pure (.intro rfl hpos)

theorem expr_agrees (hatom : Reads reader tokens size atom) {fuel pos : Nat} {token : Token κ}
    (htoken : Holds tokens pos stop token) (hsize : stop ≤ pos + size) (hfuel : stop < pos + fuel)
    : Agrees (Ends (pos + 1) stop) (expr reader.toExprSigns atom argument tokens fuel pos stop)
      (reader.expr token (part tokens (pos + 1) stop)) := by
  have hpos := htoken.lt
  rw [expr, reader.expr_eq]
  cases hscript : reader.script? token with
  | none =>
    apply (hatom.agrees htoken hsize hscript).bind
    rintro _ _ ⟨rfl, hnext⟩
    have hprimes := add_countFront_le reader.isPrime hnext hstop
    dsimp only
    rw [frontSize_eq _ hnext hstop, pure_bind, drop_part, drop_part, ← Nat.add_assoc]
    apply (scripts_agrees hstop hargument _ hprimes (by omega) (by omega)).map
    rintro _ _ ⟨rfl, hmore⟩
    exact .intro (by omega) hmore
  | some place =>
    -- Nothing is used for the base, but the marker is used with its script.
    obtain ⟨fuel, rfl⟩ : ∃ less, fuel = less + 1 := ⟨fuel - 1, by omega⟩
    have hnone : Token.countFront reader.isPrime (part tokens pos stop) = 0 := by
      simp [htoken.part_eq, Token.countFront, reader.isPrime_of_script? _ _ hscript]
    rw [hatom.marker htoken hsize hscript, pure_bind]
    dsimp only
    rw [frontSize_eq _ (Nat.le_of_lt hpos) hstop, pure_bind, hnone, Nat.add_zero pos, scripts,
      if_pos hpos, htoken.index_eq, pure_bind, hscript]
    dsimp only
    rw [bind_assoc]
    apply (script_agrees hstop hargument {} place token hpos (by omega)).bind
    rintro _ _ ⟨rfl, hnext⟩
    rename_i found used
    dsimp only
    rw [drop_part]
    apply (scripts_agrees hstop hargument found hnext (by omega) (by omega)).map
    rintro _ _ ⟨rfl, hmore⟩
    exact .intro (by omega) hmore

end Agreement

section Loop

variable {α β : Type} (special : Token κ → Option β) (wrap : α → β)
  (expr : (fuel pos stop : Nat) → Checked (α × Nat)) (tokens : List (Token κ))

/--
Read expressions up to the end of a range. Each of them has to use at least one token and must not
go beyond the end. Some tokens stand for themselves.
-/
def loop : (fuel pos stop : Nat) → Checked (List β)
  | 0, _, _ => Checked.refused
  | fuel + 1, pos, stop =>
    if pos < stop then do
      let token ← index tokens pos
      match special token with
      | some item =>
        let rest ← loop fuel (pos + 1) stop
        return item :: rest
      | none =>
        let (node, next) ← expr (fuel + 1) pos stop
        Checked.check (pos < next ∧ next ≤ stop)
        let rest ← loop fuel next stop
        return wrap node :: rest
    else
      return []

variable {special wrap expr tokens} {items : List (Token κ) → Except ParseError (List β)}
  {stop : Nat}

theorem loop_agrees (read : Token κ → List (Token κ) → Except ParseError (α × Nat))
    (hstop : stop ≤ tokens.length) (hnil : items [] = .ok [])
    (hspecial : ∀ token tokens item, special token = some item →
      items (token :: tokens) = (do
        let rest ← items tokens
        return item :: rest))
    (hcons : ∀ token tokens, special token = none →
      items (token :: tokens) = (do
        let (node, used) ← read token tokens
        let rest ← items (tokens.drop used)
        return wrap node :: rest)) {start : Nat}
    (hexpr : ∀ fuel pos token, Holds tokens pos stop token → start ≤ pos → stop < pos + fuel →
      Agrees (Ends (pos + 1) stop) (expr fuel pos stop)
        (read token (part tokens (pos + 1) stop))) {fuel pos : Nat}
    (hstart : start ≤ pos) (hpos : pos ≤ stop) (hfuel : stop < pos + fuel)
    : Agrees Eq (loop special wrap expr tokens fuel pos stop) (items (part tokens pos stop)) := by
  induction fuel generalizing pos with
  | zero => omega
  | succ fuel ih =>
    rw [loop]
    split
    next hlt =>
      obtain ⟨token, htoken⟩ := exists_holds hlt hstop
      have hread := hexpr (fuel + 1) pos token htoken hstart hfuel
      rw [htoken.index_eq, pure_bind, htoken.part_eq]
      cases hitem : special token with
      | some item =>
        rw [hspecial _ _ _ hitem]
        exact (ih (by omega) hlt (by omega)).map_eq _
      | none =>
        rw [hcons _ _ hitem]
        apply hread.bind
        rintro _ _ ⟨rfl, hle⟩
        rename_i node used
        dsimp only
        rw [check_eq ⟨by omega, hle⟩, pure_bind, drop_part]
        exact (ih (by omega) hle (by omega)).map_eq _
    next hlt =>
      rw [part_eq_nil (by omega), hnil]
      exact agrees_pure rfl

end Loop

end Positions
end MathMarkup
