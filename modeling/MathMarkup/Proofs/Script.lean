import MathMarkup.Proofs.Tex.Nesting
import MathMarkup.Proofs.Typst.Reading
import MathMarkup.Text.Identifier

/-!
This module contains the proof that primes and scripts may be written after a letter in any order.
Both parsers collect scripts in the same way, so the argument is made once, for any reader of
scripts, and then applied to the two of them.
-/

namespace MathMarkup

/--
The tokens that a language writes scripts with. Brackets group what belongs to a script.
-/
structure ScriptSigns (κ : Type) where
  isLetter : Token κ → Bool
  isPrime : Token κ → Bool
  script? : Token κ → Option Script
  opens : Token κ → Bool
  closes : Token κ → Bool
  isPrime_of_script? : ∀ token place, script? token = some place → isPrime token = false
  opens_of_closes : ∀ token, closes token → opens token = false

namespace ScriptSigns

variable {κ : Type}

/--
The marker of a script and a group after it, whatever the group holds.
-/
inductive IsScript (signs : ScriptSigns κ) (place : Script) : List (Token κ) → Prop where
  | intro {marker opener closer : Token κ} {inner : List (Token κ)}
    (hmarker : signs.script? marker = some place) (hopener : signs.opens opener)
    (hcloser : signs.closes closer) (hinner : Token.Balanced signs.opens signs.closes inner) :
    IsScript signs place (marker :: opener :: (inner ++ [closer]))

/--
A letter, any number of primes, a subscript and a superscript.
-/
structure Scripted (signs : ScriptSigns κ) (base : Token κ) (primes sub sup : List (Token κ)) :
    Prop where
  isLetter : signs.isLetter base
  isPrime : ∀ token ∈ primes, signs.isPrime token
  sub : signs.IsScript .sub sub
  sup : signs.IsScript .sup sup

end ScriptSigns

/--
The orders in which primes and scripts may follow their base. After a superscript, the primes have
to wait for the subscript.
-/
def Script.orders {α : Type} (primes sub sup : List α) : List (List α) :=
  [primes ++ (sub ++ sup), sub ++ (primes ++ sup), primes ++ (sup ++ sub), sup ++ (sub ++ primes)]

/--
What stands in the group after the marker of a script.
-/
def Script.content {α : Type} (tokens : List α) : List α :=
  (tokens.drop 2).dropLast

theorem Script.content_group {α : Type} (marker opener closer : α) (inner : List α)
    : content (marker :: opener :: (inner ++ [closer])) = inner := by
  rw [content, List.drop_succ_cons, List.drop_succ_cons, List.drop_zero, List.dropLast_concat]

/--
A reader of the scripts that follow a base. What stands in a group is read on its own, and primes
are counted after a subscript.
-/
structure ScriptReader {κ : Type} (signs : ScriptSigns κ) (α : Type) where
  content : List (Token κ) → Except ParseError α
  argument : Token κ → List (Token κ) → Except ParseError (α × Nat)
  scripts : Scripts α → List (Token κ) → Except ParseError (Scripts α × Nat)
  argument_group : ∀ owner opener inner closer rest, signs.opens opener → signs.closes closer →
    Token.Balanced signs.opens signs.closes inner →
    argument owner (opener :: (inner ++ closer :: rest)) =
      (fun node => (node, inner.length + 2)) <$> content inner
  scripts_nil : ∀ found, scripts found [] = .ok (found, 0)
  scripts_cons : ∀ found place marker tokens, signs.script? marker = some place →
    found.get? place = none →
    scripts found (marker :: tokens) = (do
      let (node, used) ← argument marker tokens
      let primes :=
        if place = .sub then Token.countFront signs.isPrime (tokens.drop used) else 0
      let (found, more) ←
        scripts ((found.insert node place).addPrimes primes) (tokens.drop (used + primes))
      return (found, 1 + (used + primes) + more))

namespace ScriptReader

variable {κ α : Type} {signs : ScriptSigns κ} {reader : ScriptReader signs α} {base : Token κ}
  {primes sub sup order : List (Token κ)} {place : Script} {below above : Except ParseError α}

/--
The tokens of a script are read as `value`, whatever was found at the other place before. Primes
after it belong to it if it is a subscript.
-/
def Reads (reader : ScriptReader signs α) (place : Script) (tokens : List (Token κ))
    (value : Except ParseError α) : Prop :=
  ∀ found primes rest, found.get? place = none →
    primes.length = (if place = .sub then Token.countFront signs.isPrime (primes ++ rest) else 0) →
    reader.scripts found (tokens ++ (primes ++ rest)) = (do
      let node ← value
      let (found, more) ← reader.scripts ((found.insert node place).addPrimes primes.length) rest
      return (found, (tokens ++ primes).length + more))

theorem reads_content (reader : ScriptReader signs α) {tokens : List (Token κ)}
    (h : signs.IsScript place tokens)
    : reader.Reads place tokens (reader.content (Script.content tokens)) := by
  cases h with
  | @intro marker opener closer inner hmarker hopener hcloser hinner =>
    intro found primes rest hfree hprimes
    rw [Script.content_group]
    have hdrop : (opener :: (inner ++ closer :: (primes ++ rest))).drop (inner.length + 2) =
        primes ++ rest := by
      rw [List.drop_succ_cons, List.append_cons]
      exact List.drop_left' (by simp)
    rw [List.cons_append, List.cons_append, List.append_assoc, List.singleton_append,
      reader.scripts_cons _ _ _ _ hmarker hfree,
      reader.argument_group _ _ _ _ _ hopener hcloser hinner]
    cases reader.content inner with
    | error error => rfl
    | ok node =>
      have hsize : (marker :: opener :: (inner ++ [closer]) ++ primes).length =
          1 + (inner.length + 2 + primes.length) := by
        simp only [List.length_cons, List.length_append, List.length_nil]
        omega
      change (do
        let (found, more) ← reader.scripts _ _
        return (found, 1 + (inner.length + 2 + _) + more)) = _
      rw [hsize, hdrop, ← hprimes, ← List.drop_drop, hdrop, List.drop_left]
      rfl

section CountFront

variable (hprimes : ∀ token ∈ primes, signs.isPrime token)

include hprimes

theorem countFront_append {rest : List (Token κ)} (hrest : Token.countFront signs.isPrime rest = 0)
    : Token.countFront signs.isPrime (primes ++ rest) = primes.length := by
  rw [Token.countFront, List.length_eq_zero_iff] at hrest
  rw [Token.countFront, List.takeWhile_append_of_pos hprimes, hrest, List.append_nil]

theorem countFront_primes : Token.countFront signs.isPrime primes = primes.length := by
  have h := @countFront_append _ signs primes hprimes [] rfl
  rwa [List.append_nil] at h

end CountFront

theorem countFront_script (h : signs.IsScript place sub) (rest : List (Token κ))
    : Token.countFront signs.isPrime (sub ++ rest) = 0 := by
  cases h with
  | intro hmarker => simp [Token.countFront, signs.isPrime_of_script? _ _ hmarker]

section Reads

variable {tokens : List (Token κ)} {value : Except ParseError α}

theorem Reads.last (h : reader.Reads place tokens value) (found : Scripts α)
    (primes : List (Token κ)) (hfree : found.get? place = none)
    (hprimes : primes.length = if place = .sub then Token.countFront signs.isPrime primes else 0)
    : reader.scripts found (tokens ++ primes) = (do
        let node ← value
        return ((found.insert node place).addPrimes primes.length, (tokens ++ primes).length)) := by
  have hread := h found primes [] hfree
  rw [List.append_nil] at hread
  rw [hread hprimes]
  cases value with
  | error error => rfl
  | ok node =>
    change (do
      let (found, more) ← reader.scripts _ _
      return (found, _ + more)) = _
    rw [reader.scripts_nil]
    rfl

theorem scripts_sub_sup (hsub : reader.Reads .sub sub below) (hsup : reader.Reads .sup sup above)
    (primes : List (Token κ)) (hprimes : ∀ token ∈ primes, signs.isPrime token)
    (hstop : Token.countFront signs.isPrime sup = 0) (count : Nat)
    : reader.scripts { primes := count } (sub ++ (primes ++ sup)) = (do
        let bottom ← below
        let top ← above
        return ({ sub := some bottom, sup := some top, primes := count + primes.length },
          (sub ++ (primes ++ sup)).length)) := by
  have hsize : (sub ++ (primes ++ sup)).length = (sub ++ primes).length + sup.length := by
    rw [← List.append_assoc, List.length_append]
  have hlast (found : Scripts α) (hfree : found.sup = none) := hsup.last found [] hfree rfl
  rw [List.append_nil] at hlast
  rw [hsub _ _ _ rfl (countFront_append hprimes hstop).symm, hsize]
  cases below with
  | error error => rfl
  | ok bottom =>
    change (do
      let (found, more) ← reader.scripts _ _
      return (found, _ + more)) = _
    rw [hlast _ rfl]
    cases above with
    | error error => rfl
    | ok top => rfl

theorem scripts_sup_sub (hsub : reader.Reads .sub sub below) (hsup : reader.Reads .sup sup above)
    (primes : List (Token κ)) (hprimes : ∀ token ∈ primes, signs.isPrime token) (count : Nat)
    : reader.scripts { primes := count } (sup ++ (sub ++ primes)) = (do
        let top ← above
        let bottom ← below
        return ({ sub := some bottom, sup := some top, primes := count + primes.length },
          (sup ++ (sub ++ primes)).length)) := by
  have hsize : (sup ++ (sub ++ primes)).length = sup.length + (sub ++ primes).length :=
    List.length_append
  have hread := hsup { primes := count } [] (sub ++ primes) rfl rfl
  rw [List.nil_append, List.append_nil] at hread
  rw [hread, hsize]
  cases above with
  | error error => rfl
  | ok top =>
    change (do
      let (found, more) ← reader.scripts _ _
      return (found, _ + more)) = _
    rw [hsub.last _ primes rfl (countFront_primes hprimes).symm]
    cases below with
    | error error => rfl
    | ok bottom => rfl

end Reads

def complete (count : Nat) (below above : Except ParseError α) : Option (Scripts α) := do
  let bottom ← below.toOption
  let top ← above.toOption
  return { sub := some bottom, sup := some top, primes := count }

/--
All tokens are used up for what is found, or there is an error.
-/
def Answers {β : Type} (size : Nat) (answer : Except ParseError (β × Nat)) : Option β → Prop
  | some found => answer = .ok (found, size)
  | none => ∃ error, answer = .error error

theorem Answers.attach {β : Type} {found? : Option (Scripts α)}
    {answer : Except ParseError (Scripts α × Nat)} (f : Scripts α → β) {count size : Nat}
    (h : Answers size answer found?)
    : Answers (count + size) (do
        let (found, more) ← answer
        return (f found, count + more)) (found?.map f) := by
  cases found? with
  | none =>
    obtain ⟨error, rfl⟩ := h
    exact ⟨error, rfl⟩
  | some found =>
    cases h
    rfl

section Complete

variable {count size : Nat}

theorem exists_of_complete {found : Scripts α} (h : complete count below above = some found)
    : ∃ bottom top, below = .ok bottom ∧ above = .ok top ∧
        found = { sub := some bottom, sup := some top, primes := count } := by
  cases below with
  | error error => contradiction
  | ok bottom =>
    cases above with
    | error error => contradiction
    | ok top =>
      cases h
      exact ⟨bottom, top, rfl, rfl, rfl⟩

theorem answers_sub_sup
    : Answers size (do
        let bottom ← below
        let top ← above
        return ({ sub := some bottom, sup := some top, primes := count }, size))
      (complete count below above) := by
  cases below with
  | error error => exact ⟨error, rfl⟩
  | ok bottom =>
    cases above with
    | error error => exact ⟨error, rfl⟩
    | ok top => rfl

theorem answers_sup_sub
    : Answers size (do
        let top ← above
        let bottom ← below
        return ({ sub := some bottom, sup := some top, primes := count }, size))
      (complete count below above) := by
  cases below with
  | error error =>
    cases above with
    | error first => exact ⟨first, rfl⟩
    | ok top => exact ⟨error, rfl⟩
  | ok bottom =>
    cases above with
    | error error => exact ⟨error, rfl⟩
    | ok top => rfl

end Complete

/--
Primes and scripts are read exactly if the contents of both scripts are, and in each order they are
found alike.
-/
theorem exists_answers (reader : ScriptReader signs α) (h : signs.Scripted base primes sub sup)
    : ∃ found? : Option (Scripts α),
        (∀ found ∈ found?, ∃ bottom top, reader.content (Script.content sub) = .ok bottom ∧
          reader.content (Script.content sup) = .ok top ∧
          found = { sub := some bottom, sup := some top, primes := primes.length }) ∧
        ∀ order ∈ Script.orders primes sub sup,
          let count := Token.countFront signs.isPrime order
          Answers (order.length - count)
            (reader.scripts { primes := count } (order.drop count)) found? := by
  have hbelow := reader.reads_content h.sub
  have habove := reader.reads_content h.sup
  refine ⟨complete primes.length _ _, fun _ => exists_of_complete, ?_⟩
  intro order horder count
  rw [← List.length_drop]
  have hstop := countFront_script h.sup []
  rw [List.append_nil] at hstop
  simp only [Script.orders, List.mem_cons, List.not_mem_nil, or_false] at horder
  rcases horder with rfl | rfl | rfl | rfl
  . have hcount : count = primes.length := countFront_append h.isPrime (countFront_script h.sub _)
    have hread := scripts_sub_sup hbelow habove [] (by simp) hstop primes.length
    rw [List.nil_append] at hread
    rw [hcount, List.drop_left, hread]
    exact answers_sub_sup
  . have hcount : count = 0 := countFront_script h.sub _
    rw [hcount, List.drop_zero, scripts_sub_sup hbelow habove primes h.isPrime hstop, Nat.zero_add]
    exact answers_sub_sup
  . have hcount : count = primes.length := countFront_append h.isPrime (countFront_script h.sup _)
    have hread := scripts_sup_sub hbelow habove [] (by simp) primes.length
    rw [List.append_nil] at hread
    rw [hcount, List.drop_left, hread]
    exact answers_sup_sub
  . have hcount : count = 0 := countFront_script h.sup _
    rw [hcount, List.drop_zero, scripts_sup_sub hbelow habove primes h.isPrime, Nat.zero_add]
    exact answers_sup_sub

def read {β : Type} (reader : ScriptReader signs α) (attach : Scripts α → β)
    (tokens : List (Token κ)) : Except ParseError (β × Nat) := do
  let count := Token.countFront signs.isPrime tokens
  let (found, more) ← reader.scripts { primes := count } (tokens.drop count)
  return (attach found, count + more)

theorem exists_answers_read {β : Type} (reader : ScriptReader signs α)
    (h : signs.Scripted base primes sub sup) (attach : Scripts α → β)
    : ∃ tree? : Option β,
        (∀ tree ∈ tree?, ∃ bottom top, reader.content (Script.content sub) = .ok bottom ∧
          reader.content (Script.content sup) = .ok top ∧
          tree = attach { sub := some bottom, sup := some top, primes := primes.length }) ∧
        ∀ order ∈ Script.orders primes sub sup,
          Answers order.length (reader.read attach order) tree? := by
  obtain ⟨found?, hfound, hanswers⟩ := reader.exists_answers h
  refine ⟨found?.map attach, ?_, fun order horder => ?_⟩
  . intro tree htree
    obtain ⟨found, hmem, rfl⟩ := Option.map_eq_some_iff.mp htree
    obtain ⟨bottom, top, hbottom, htop, rfl⟩ := hfound found hmem
    exact ⟨bottom, top, hbottom, htop, rfl⟩
  . have hcount : Token.countFront signs.isPrime order ≤ order.length :=
      (List.takeWhile_sublist _).length_le
    rw [← Nat.add_sub_cancel' hcount]
    exact (hanswers order horder).attach attach

end ScriptReader

def Text.isLetter (text : String) : Bool :=
  match text.toList with
  | [c] => isAlphabetic c
  | _ => false

namespace Tex

def scriptSigns : ScriptSigns Kind where
  isLetter token := token.kind == .element && Text.isLetter token.text
  isPrime := Token.isPrime
  script? := Token.script?
  opens token := token.is .control "\x7b"
  closes token := token.is .control "\x7d"
  isPrime_of_script? _ _ := isPrime_of_script?
  opens_of_closes _ h := is_eq_false_iff.mpr (by simp [is_iff.mp h])

section Strip

variable {afterMarker : Bool} {token : Token} {tokens rest : List Token}

/--
A token that is neither a space nor a marker parts the tokens before it from those after it.
-/
theorem strip_append_cons (hspace : token.isSpace = false) (hmarker : token.isMarker = false)
    : stripScriptSpaces.go afterMarker (tokens ++ token :: rest) =
      stripScriptSpaces.go afterMarker tokens ++ token :: stripScriptSpaces.go false rest := by
  induction tokens generalizing afterMarker with
  | nil => rw [List.nil_append, strip_cons hspace, hmarker]; rfl
  | cons first tokens ih =>
    have hnext : ((tokens ++ token :: rest).find? fun next => !next.isSpace).any Token.isMarker =
        (tokens.find? fun next => !next.isSpace).any Token.isMarker := by
      cases hfind : tokens.find? fun next => !next.isSpace with
      | none => simp [List.find?_append, hfind, hspace, hmarker]
      | some next => simp [List.find?_append, hfind]
    rw [List.cons_append]
    simp only [stripScriptSpaces.go, hnext, ih]
    split
    . split <;> rfl
    . rfl

theorem strip_brace {text : String} (h : token.is .control text)
    (hmarker : Script.ofMarker? text = none)
    : stripScriptSpaces.go afterMarker (tokens ++ token :: rest) =
      stripScriptSpaces.go afterMarker tokens ++ token :: stripScriptSpaces.go false rest :=
  strip_append_cons (isSpace_of_lexeme (is_iff.mp h) (by decide))
    (isMarker_of_lexeme (is_iff.mp h) fun _ => hmarker)

theorem nested_strip {p : Token → Prop} (afterMarker : Bool)
    (h : Token.Nested scriptSigns.opens scriptSigns.closes p tokens)
    : Token.Nested scriptSigns.opens scriptSigns.closes p
      (stripScriptSpaces.go afterMarker tokens) := by
  induction h generalizing afterMarker with
  | nil => exact .nil
  | cons hopens hcloses htoken _ ih =>
    unfold stripScriptSpaces.go
    split
    . split
      . exact ih _
      . exact .cons hopens hcloses htoken (ih _)
    . exact .cons hopens hcloses htoken (ih _)
  | @wrap p opener closer inner tokens hopener hcloser _ _ ihinner ih =>
    rw [← List.nil_append (opener :: _), strip_brace hopener rfl, strip_brace hcloser rfl]
    exact .wrap hopener hcloser (ihinner _) (ih _)

theorem balanced_strip (h : Token.Balanced scriptSigns.opens scriptSigns.closes tokens)
    : Token.Balanced scriptSigns.opens scriptSigns.closes (stripScriptSpaces tokens) := by
  rw [Token.balanced_iff_nested scriptSigns.opens_of_closes] at h ⊢
  exact nested_strip false h

theorem isSpace_of_script? {place : Script} (h : token.script? = some place)
    : token.isSpace = false := by
  unfold Token.script? at h
  split at h
  next hkind => simp [Token.isSpace, eq_of_beq hkind]
  next => contradiction

/--
Tokens that become `stripped` when the spaces next to markers are dropped, whatever follows them.
-/
def Strips (tokens stripped : List Token) : Prop :=
  ∀ rest, stripScriptSpaces.go false (tokens ++ rest) = stripped ++ stripScriptSpaces.go false rest

theorem Strips.append {stripped more further : List Token} (h : Strips tokens stripped)
    (hmore : Strips more further) : Strips (tokens ++ more) (stripped ++ further) := by
  intro rest
  rw [List.append_assoc, h, hmore, List.append_assoc]

theorem Strips.go_eq {stripped : List Token} (h : Strips tokens stripped)
    : stripScriptSpaces.go false tokens = stripped := by
  have hnil := h []
  rwa [List.append_nil, stripScriptSpaces.go, List.append_nil] at hnil

theorem exists_strips {place : Script} (h : scriptSigns.IsScript place tokens)
    : ∃ stripped, scriptSigns.IsScript place stripped ∧
        Script.content stripped = stripScriptSpaces (Script.content tokens) ∧
        Strips tokens stripped := by
  cases h with
  | @intro marker opener closer inner hmarker hopener hcloser hinner =>
    refine ⟨_, .intro hmarker hopener hcloser (balanced_strip hinner), ?_, fun rest => ?_⟩
    . rw [Script.content_group, Script.content_group]
    rw [List.cons_append, List.cons_append, List.append_assoc, List.singleton_append,
      strip_cons (isSpace_of_script? hmarker), ← List.nil_append (opener :: _),
      strip_brace hopener rfl, strip_brace hcloser rfl, List.cons_append, List.cons_append,
      List.append_assoc]
    rfl

theorem strips_primes {primes : List Token} (h : ∀ token ∈ primes, token.isPrime)
    : Strips primes primes := by
  intro rest
  induction primes with
  | nil => rfl
  | cons token primes ih =>
    obtain ⟨htoken, h⟩ := List.forall_mem_cons.mp h
    rw [List.cons_append, strip_cons (isSpace_of_lexeme (is_iff.mp htoken) (by decide)),
      isMarker_of_lexeme (is_iff.mp htoken) nofun, ih h, List.cons_append]

end Strip

section Parse

variable {base : Token} {primes sub sup : List Token}

theorem kind_base (h : scriptSigns.Scripted base primes sub sup) : base.kind = .element :=
  eq_of_beq (Bool.and_eq_true_iff.mp h.isLetter).1

/--
Without the spaces next to markers a letter still has its primes and scripts, in the same order.
-/
theorem exists_strip_orders (h : scriptSigns.Scripted base primes sub sup)
    : ∃ below above, scriptSigns.Scripted base primes below above ∧
        Script.content below = stripScriptSpaces (Script.content sub) ∧
        Script.content above = stripScriptSpaces (Script.content sup) ∧
        ∀ order ∈ Script.orders primes sub sup, ∃ stripped ∈ Script.orders primes below above,
          stripScriptSpaces (base :: order) = base :: stripped := by
  obtain ⟨below, hbelow, hcontent, hsub⟩ := exists_strips h.sub
  obtain ⟨above, habove, hcontents, hsup⟩ := exists_strips h.sup
  have hprimes := strips_primes h.isPrime
  have hbase {order stripped : List Token} (horder : Strips order stripped)
      : stripScriptSpaces (base :: order) = base :: stripped := by
    have hlexeme : base.lexeme = (.element, base.text) := by rw [Token.lexeme, kind_base h]
    rw [stripScriptSpaces, strip_cons (isSpace_of_lexeme hlexeme (by decide)),
      isMarker_of_lexeme hlexeme nofun, horder.go_eq]
  refine ⟨below, above, ⟨h.isLetter, h.isPrime, hbelow, habove⟩, hcontent, hcontents, ?_⟩
  simp only [Script.orders, List.mem_cons, List.not_mem_nil, or_false]
  rintro order (rfl | rfl | rfl | rfl)
  . exact ⟨_, .inl rfl, hbase (hprimes.append (hsub.append hsup))⟩
  . exact ⟨_, .inr (.inl rfl), hbase (hsub.append (hprimes.append hsup))⟩
  . exact ⟨_, .inr (.inr (.inl rfl)), hbase (hprimes.append (hsup.append hsub))⟩
  . exact ⟨_, .inr (.inr (.inr rfl)), hbase (hsup.append (hsub.append hprimes))⟩

theorem argument_braces {owner opener closer : Token} {inner rest : List Token}
    (hopener : scriptSigns.opens opener) (hcloser : scriptSigns.closes closer)
    (hinner : Token.Balanced scriptSigns.opens scriptSigns.closes inner)
    : Parser.argument false owner (opener :: (inner ++ closer :: rest)) =
      (fun node => (node, inner.length + 2)) <$>
        Formula.ofList <$> Parser.sequence false inner := by
  have hclosing : closingBrace? (inner ++ closer :: rest) = some (inner.length, closer) :=
    (hinner.skips scriptSigns.opens_of_closes).closing?_eq (scriptSigns.opens_of_closes _ hcloser)
      hcloser
  obtain ⟨kind, text, span⟩ := opener
  cases is_iff.mp hopener
  rw [Parser.argument, Parser.atom]
  simp only [hclosing, List.take_left]
  cases Parser.sequence false inner with
  | error error => rfl
  | ok nodes => rfl

def scriptReader : ScriptReader scriptSigns Formula where
  content tokens := Formula.ofList <$> Parser.sequence false tokens
  argument := Parser.argument false
  scripts := Parser.scripts false
  argument_group _ _ _ _ _ := argument_braces
  scripts_nil found := by rw [Parser.scripts]
  scripts_cons found place marker tokens hmarker hfree := by
    have hmarker : Token.script? marker = some place := hmarker
    rw [Parser.scripts, hmarker]
    simp only [Parser.script, hfree, Option.isSome_none, Bool.false_eq_true, if_false]
    cases Parser.argument false marker tokens with
    | error error => rfl
    | ok answer =>
      cases place with
      | sub => rfl
      | sup => rfl

theorem expr_letter (h : scriptSigns.Scripted base primes sub sup) (order : List Token)
    : Parser.expr false base order =
      scriptReader.read (attachScripts · (.element base.text)) order := by
  obtain ⟨kind, text, span⟩ := base
  cases kind_base h
  simp only [Parser.expr, Parser.atom, Token.script?]
  change (do
    let answer ← Parser.scripts false _ (order.drop (0 + _))
    return (_, 0 + _ + answer.2)) = _
  simp only [Nat.zero_add]
  rfl

theorem content_strip (tokens : List Token)
    : scriptReader.content (stripScriptSpaces tokens) = parse tokens := by
  rw [parse, ← map_eq_pure_bind]
  rfl

theorem exists_toOption_parse (h : scriptSigns.Scripted base primes sub sup)
    : ∃ tree? : Option Formula,
        (∀ tree ∈ tree?, ∃ bottom top, parse (Script.content sub) = .ok bottom ∧
          parse (Script.content sup) = .ok top ∧ tree = attachScripts
            { sub := some bottom, sup := some top, primes := primes.length } (.element base.text)) ∧
        ∀ order ∈ Script.orders primes sub sup, (parse (base :: order)).toOption = tree? := by
  obtain ⟨below, above, h, hbelow, habove, hstrip⟩ := exists_strip_orders h
  obtain ⟨tree?, htree, hanswers⟩ :=
    scriptReader.exists_answers_read h (attachScripts · (.element base.text))
  rw [hbelow, habove, content_strip, content_strip] at htree
  refine ⟨tree?, htree, fun order horder => ?_⟩
  obtain ⟨stripped, hstripped, heq⟩ := hstrip order horder
  have hanswer := hanswers stripped hstripped
  rw [parse, heq, Parser.sequence, expr_letter h]
  cases tree? with
  | none =>
    obtain ⟨error, herror⟩ := hanswer
    rw [herror]
    rfl
  | some tree =>
    have hread : scriptReader.read _ stripped = .ok (tree, stripped.length) := hanswer
    rw [hread]
    change (do
      let nodes ← (do
        let nodes ← Parser.sequence false (stripped.drop stripped.length)
        return tree :: nodes)
      return Formula.ofList nodes).toOption = _
    rw [List.drop_length, Parser.sequence]
    rfl

end Parse

end Tex

namespace Typst

def scriptSigns : ScriptSigns Kind where
  isLetter token := token.kind == .element && Text.isLetter token.text
  isPrime := Token.isPrime
  script? := Token.script?
  opens := Token.isOpen
  closes := Token.isClose
  isPrime_of_script? _ _ h := (isPrime_of_script? h).1
  opens_of_closes _ := isOpen_of_isClose

section Parse

variable {base : Token} {primes sub sup : List Token}

theorem balanced_iff_nested {tokens : List Token}
    : Balanced tokens ↔ Nested (fun _ => True) tokens :=
  Token.balanced_iff_nested fun _ => isOpen_of_isClose

theorem operand_parens {owner opener closer : Token} {inner rest : List Token}
    (hopener : opener.isOpen) (hcloser : closer.isClose) (hinner : Balanced inner)
    : Parser.operand owner (opener :: (inner ++ closer :: rest)) =
      (fun node => (node, inner.length + 2)) <$> Formula.ofList <$> Parser.sequence inner := by
  have hnested := balanced_iff_nested.mp hinner
  have hclosing := @hnested.closingParen?_eq _ closer inner rest hcloser
  obtain ⟨kind, text, span⟩ := opener
  cases is_iff.mp hopener
  rw [Parser.operand]
  unfold Parser.atom
  simp only [hclosing, List.take_left]
  cases Parser.sequence inner with
  | error error => rfl
  | ok nodes => rfl

def scriptReader : ScriptReader scriptSigns Formula where
  content tokens := Formula.ofList <$> Parser.sequence tokens
  argument := Parser.operand
  scripts := Parser.scripts
  argument_group _ _ _ _ _ := operand_parens
  scripts_nil := scripts_nil
  scripts_cons found place marker tokens hmarker hfree := by
    have hmarker : Token.script? marker = some place := hmarker
    rw [Parser.scripts, hmarker]
    simp only [Parser.script, hfree, Option.isSome_none, Bool.false_eq_true, if_false]
    cases Parser.operand marker tokens with
    | error error => rfl
    | ok answer =>
      cases place with
      | sub => rfl
      | sup => rfl

theorem kind_base (h : scriptSigns.Scripted base primes sub sup) : base.kind = .element :=
  eq_of_beq (Bool.and_eq_true_iff.mp h.isLetter).1

theorem is_base (h : scriptSigns.Scripted base primes sub sup) (text : String)
    (htext : Text.isLetter text = false) : base.is .element text = false := by
  rw [is_eq_false_iff]
  intro hlexeme
  have hletter : Text.isLetter base.text := (Bool.and_eq_true_iff.mp h.isLetter).2
  have hbase : base.text = text := congrArg Prod.snd hlexeme
  simp [hbase, htext] at hletter

theorem expr_letter (h : scriptSigns.Scripted base primes sub sup) (order : List Token)
    : Parser.expr base order = scriptReader.read (attachScripts · (.atom base.text)) order := by
  have hopen := is_eq_false_iff.mp (is_base h "(" (by decide))
  have hclose := is_eq_false_iff.mp (is_base h ")" (by decide))
  obtain ⟨kind, text, span⟩ := base
  cases kind_base h
  have hatom : Parser.atom ⟨.element, text, span⟩ order = .ok (.atom text, 0) := by
    unfold Parser.atom
    split
    all_goals simp_all [Token.lexeme]
  simp only [Parser.expr, Token.script?, hatom]
  change (do
    let answer ← Parser.scripts _ (order.drop (0 + _))
    return (_, 0 + _ + answer.2)) = _
  simp only [Nat.zero_add]
  rfl

theorem is_marker {marker : Token} {place : Script} (h : marker.script? = some place)
    (text : String) (htext : Script.ofMarker? text = none) : marker.is .control text = false := by
  rw [is_eq_false_iff]
  intro hlexeme
  have hmarker : marker.text = text := congrArg Prod.snd hlexeme
  rw [Token.script?, kind_of_script? h, hmarker, htext] at h
  contradiction

/--
Whether a token parts the lines or the cells of aligned formulas.
-/
def Token.isBreak (token : Token) : Bool :=
  token.isLineBreak || token.isAlignment

theorem isBreak_of_element {token : Token} (h : token.kind = .element) : token.isBreak = false := by
  simp [Token.isBreak, Token.isLineBreak, Token.isAlignment, Token.is, h]

theorem nested_script {place : Script} {tokens : List Token} (h : scriptSigns.IsScript place tokens)
    : Nested (·.isBreak = false) tokens := by
  cases h with
  | @intro marker opener closer inner hmarker hopener hcloser hinner =>
    have hkind := kind_of_script? hmarker
    have hclose : Token.isClose marker = false := by simp [Token.isClose, Token.is, hkind]
    have hbreak : Token.isBreak marker = false :=
      Bool.or_eq_false_iff.mpr ⟨is_marker hmarker "\\" rfl, is_marker hmarker "&" rfl⟩
    exact .cons (isPrime_of_script? hmarker).2 hclose hbreak
      (.wrap hopener hcloser (balanced_iff_nested.mp hinner) .nil)

theorem nested_primes (h : ∀ token ∈ primes, token.isPrime)
    : Nested (·.isBreak = false) primes := by
  induction primes with
  | nil => exact .nil
  | cons token primes ih =>
    obtain ⟨htoken, h⟩ := List.forall_mem_cons.mp h
    have hlexeme := is_iff.mp htoken
    refine .cons ?_ ?_ (isBreak_of_element (congrArg Prod.fst hlexeme)) (ih h)
    . exact is_eq_false_iff.mpr (by simp [hlexeme])
    . exact is_eq_false_iff.mpr (by simp [hlexeme])

theorem nested_orders (h : scriptSigns.Scripted base primes sub sup)
    : ∀ order ∈ Script.orders primes sub sup, Nested (·.isBreak = false) (base :: order) := by
  have hprimes := nested_primes h.isPrime
  have hsub := nested_script h.sub
  have hsup := nested_script h.sup
  have hbase {order : List Token} (horder : Nested (·.isBreak = false) order)
      : Nested (·.isBreak = false) (base :: order) :=
    .cons (is_base h "(" (by decide)) (is_base h ")" (by decide)) (isBreak_of_element (kind_base h))
      horder
  simp only [Script.orders, List.mem_cons, List.not_mem_nil, or_false]
  rintro order (rfl | rfl | rfl | rfl)
  . exact hbase (hprimes.append (hsub.append hsup))
  . exact hbase (hsub.append (hprimes.append hsup))
  . exact hbase (hprimes.append (hsup.append hsub))
  . exact hbase (hsup.append (hsub.append hprimes))

theorem exists_toOption_parse (h : scriptSigns.Scripted base primes sub sup)
    : ∃ tree? : Option Formula,
        (∀ tree ∈ tree?, ∃ bottom top,
          Formula.ofList <$> Parser.sequence (Script.content sub) = .ok bottom ∧
          Formula.ofList <$> Parser.sequence (Script.content sup) = .ok top ∧
          tree = attachScripts { sub := some bottom, sup := some top, primes := primes.length }
            (.atom base.text)) ∧
        ∀ order ∈ Script.orders primes sub sup, (parse (base :: order)).toOption = tree? := by
  obtain ⟨tree?, htree, hanswers⟩ :=
    scriptReader.exists_answers_read h (attachScripts · (.atom base.text))
  refine ⟨tree?, htree, fun order horder => ?_⟩
  have hsplit : split Token.isBreak (base :: order) = [base :: order] :=
    (nested_orders h order horder).split_eq
  have hanswer := hanswers order horder
  have hparse : parse (base :: order) = Formula.ofList <$> Parser.sequence (base :: order) := by
    change (if (split Token.isBreak (base :: order)).length = 1 then _ else _) = _
    rw [hsplit]
    rfl
  rw [hparse, Parser.sequence, Parser.items, is_base h "/" (by decide), expr_letter h]
  cases tree? with
  | none =>
    obtain ⟨error, herror⟩ := hanswer
    rw [herror]
    rfl
  | some tree =>
    have hread : scriptReader.read _ order = .ok (tree, order.length) := hanswer
    rw [hread]
    change (Formula.ofList <$> (do
      let found ← (do
        let rest ← Parser.items (order.drop order.length)
        return Item.node tree :: rest)
      Item.resolve found)).toOption = _
    rw [List.drop_length, Parser.items]
    rfl

end Parse

end Typst

/--
In both languages, the order in which primes and scripts are written after a letter does not
matter: if one of the orders can be read, then all can, and as the same formula. It has all of the
primes, and as scripts what is read from the contents of the two groups.
-/
theorem parse_orders
    : (∀ base primes sub sup, Tex.scriptSigns.Scripted base primes sub sup →
        ∀ one ∈ Script.orders primes sub sup, ∀ other ∈ Script.orders primes sub sup, ∀ tree,
          Tex.parse (base :: one) = .ok tree →
          Tex.parse (base :: other) = .ok tree ∧
            ∃ bottom top, Tex.parse (Script.content sub) = .ok bottom ∧
              Tex.parse (Script.content sup) = .ok top ∧
              tree = Tex.attachScripts
                { sub := some bottom, sup := some top, primes := primes.length }
                (.element base.text)) ∧
      (∀ base primes sub sup, Typst.scriptSigns.Scripted base primes sub sup →
        ∀ one ∈ Script.orders primes sub sup, ∀ other ∈ Script.orders primes sub sup, ∀ tree,
          Typst.parse (base :: one) = .ok tree →
          Typst.parse (base :: other) = .ok tree ∧
            ∃ bottom top,
              Typst.Formula.ofList <$> Typst.Parser.sequence (Script.content sub) = .ok bottom ∧
              Typst.Formula.ofList <$> Typst.Parser.sequence (Script.content sup) = .ok top ∧
              tree = Typst.attachScripts
                { sub := some bottom, sup := some top, primes := primes.length }
                (.atom base.text)) := by
  refine ⟨?_, ?_⟩
  . intro base primes sub sup h one hone other hother tree htree
    obtain ⟨tree?, hshape, hparse⟩ := Tex.exists_toOption_parse h
    have hsome : some tree = tree? := by rw [← hparse one hone, htree]; rfl
    exact ⟨eq_ok_of_toOption ((hparse other hother).trans hsome.symm), hshape tree hsome.symm⟩
  . intro base primes sub sup h one hone other hother tree htree
    obtain ⟨tree?, hshape, hparse⟩ := Typst.exists_toOption_parse h
    have hsome : some tree = tree? := by rw [← hparse one hone, htree]; rfl
    exact ⟨eq_ok_of_toOption ((hparse other hother).trans hsome.symm), hshape tree hsome.symm⟩

theorem parse_orders_double_prime
    : let x : Tex.Token := ⟨.element, "x", .detached⟩
      let prime : Tex.Token := ⟨.element, "'", .detached⟩
      let sub : List Tex.Token :=
        [⟨.control, "_", .detached⟩, ⟨.control, "\x7b", .detached⟩, ⟨.element, "a", .detached⟩,
          ⟨.space, " ", .detached⟩, ⟨.control, "\x7d", .detached⟩]
      let sup : List Tex.Token :=
        [⟨.control, "^", .detached⟩, ⟨.control, "\x7b", .detached⟩, ⟨.element, "b", .detached⟩,
          ⟨.control, "\x7d", .detached⟩]
      let y : Typst.Token := ⟨.element, "y", .detached⟩
      let mark : Typst.Token := ⟨.element, "'", .detached⟩
      let below : List Typst.Token :=
        [⟨.control, "_", .detached⟩, ⟨.element, "(", .detached⟩, ⟨.element, "a", .detached⟩,
          ⟨.element, "/", .detached⟩, ⟨.element, "b", .detached⟩, ⟨.element, ")", .detached⟩]
      let above : List Typst.Token :=
        [⟨.control, "^", .detached⟩, ⟨.element, "(", .detached⟩, ⟨.element, ")", .detached⟩]
      (∃ tree, Tex.parse (x :: ([prime, prime] ++ (sub ++ sup))) = .ok tree ∧
        Tex.parse (x :: (sup ++ (sub ++ [prime, prime]))) = .ok tree) ∧
      (∃ tree, Typst.parse (y :: ([mark] ++ (above ++ below))) = .ok tree ∧
        Typst.parse (y :: (below ++ ([mark] ++ above))) = .ok tree) := by
  intro x prime sub sup y mark below above
  have hbraces {tokens : List Tex.Token} :=
    (@Token.balanced_iff_leftOpen? _ _ _ tokens Tex.scriptSigns.opens_of_closes).mpr
  have hparens {tokens : List Typst.Token} :=
    (@Token.balanced_iff_leftOpen? _ _ _ tokens Typst.scriptSigns.opens_of_closes).mpr
  have hscripted : Tex.scriptSigns.Scripted x [prime, prime] sub sup :=
    ⟨by decide, by decide,
      @ScriptSigns.IsScript.intro _ _ _ _ _ _ (Script.content sub) rfl rfl rfl (hbraces rfl),
      @ScriptSigns.IsScript.intro _ _ _ _ _ _ (Script.content sup) rfl rfl rfl (hbraces rfl)⟩
  have hmarked : Typst.scriptSigns.Scripted y [mark] below above :=
    ⟨by decide, by decide,
      @ScriptSigns.IsScript.intro _ _ _ _ _ _ (Script.content below) rfl rfl rfl (hparens rfl),
      @ScriptSigns.IsScript.intro _ _ _ _ _ _ (Script.content above) rfl rfl rfl (hparens rfl)⟩
  refine ⟨?_, ?_⟩
  . obtain ⟨tree, htree⟩ := exists_of_isSome
      (show (Tex.parse (x :: ([prime, prime] ++ (sub ++ sup)))).toOption.isSome by decide +kernel)
    exact ⟨tree, htree, (parse_orders.1 _ _ _ _ hscripted _ (by simp [Script.orders]) _
      (by simp [Script.orders]) _ htree).1⟩
  . obtain ⟨tree, htree⟩ := exists_of_isSome
      (show (Typst.parse (y :: ([mark] ++ (above ++ below)))).toOption.isSome by decide +kernel)
    exact ⟨tree, htree, (parse_orders.2 _ _ _ _ hmarked _ (by simp [Script.orders]) _
      (by simp [Script.orders]) _ htree).1⟩

end MathMarkup
