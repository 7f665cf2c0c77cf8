import Mathlib.Data.List.TakeWhile
import MathMarkup.Proofs.Result
import MathMarkup.Proofs.Token.Nesting
import MathMarkup.Proofs.Typst.Nesting

/-!
This module contains the proof that the parentheses of a Typst formula are balanced if it can be
read, and that no parenthesis is to blame if they are balanced and it cannot. Both directions go
through a count of the open parentheses. It is shown for each way to cut tokens that the pieces have
balanced parentheses if and only if the whole has. As in TeX every error points at a token.
-/

namespace MathMarkup
namespace Typst

/--
A token that neither opens nor closes.
-/
structure Token.IsNeutral (token : Token) : Prop where
  isOpen : token.isOpen = false
  isClose : token.isClose = false

section Depth

variable {token : Token} {tokens more : List Token} {depth : Nat}

theorem Token.isNeutral_of_kind (h : token.kind ≠ .element) : token.IsNeutral := by
  constructor <;> simp [Token.isOpen, Token.isClose, Token.is, h]

theorem Token.isNeutral_of_text (hopen : token.text ≠ "(") (hclose : token.text ≠ ")")
    : token.IsNeutral := by
  constructor
  . simp [Token.isOpen, Token.is, hopen]
  . simp [Token.isClose, Token.is, hclose]

theorem Token.isNeutral_of_is {kind : Kind} {text : String} (h : token.is kind text)
    (hopen : text ≠ "(") (hclose : text ≠ ")") : token.IsNeutral := by
  simp only [Token.is, Bool.and_eq_true, beq_iff_eq] at h
  rw [← h.2] at hopen hclose
  exact isNeutral_of_text hopen hclose

theorem Token.paren_cases (token : Token) : token.isOpen ∨ token.isClose ∨ token.IsNeutral := by
  rcases Token.bracket_cases Token.isOpen Token.isClose token with h | h | h
  . exact .inl h
  . exact .inr (.inl h.2)
  . exact .inr (.inr ⟨h.1, h.2⟩)

theorem balanced_iff
    : Balanced tokens ↔ Token.leftOpen? Token.isOpen Token.isClose 0 tokens = some 0 :=
  Token.balanced_iff_leftOpen? fun _ => isOpen_of_isClose

theorem Token.IsNeutral.leftOpen?_cons (h : token.IsNeutral)
    : Token.leftOpen? Token.isOpen Token.isClose depth (token :: tokens) =
      Token.leftOpen? Token.isOpen Token.isClose depth tokens :=
  Token.leftOpen?_neutral h.isOpen h.isClose

theorem leftOpen?_close (h : token.isClose)
    : Token.leftOpen? Token.isOpen Token.isClose (depth + 1) (token :: tokens) =
      Token.leftOpen? Token.isOpen Token.isClose depth tokens :=
  Token.leftOpen?_closing (isOpen_of_isClose h) h

theorem leftOpen?_close_zero (h : token.isClose)
    : Token.leftOpen? Token.isOpen Token.isClose 0 (token :: tokens) = none :=
  Token.leftOpen?_closing_zero (isOpen_of_isClose h) h

theorem Token.IsNeutral.balanced_cons (h : token.IsNeutral)
    : Balanced (token :: tokens) ↔ Balanced tokens :=
  Token.balanced_cons_iff (fun _ => isOpen_of_isClose) h.isOpen h.isClose

theorem leftOpen?_of_neutral (h : ∀ token ∈ tokens, token.IsNeutral)
    : Token.leftOpen? Token.isOpen Token.isClose depth tokens = some depth := by
  induction tokens with
  | nil => rfl
  | cons token tokens ih =>
    obtain ⟨htoken, htokens⟩ := List.forall_mem_cons.mp h
    rw [htoken.leftOpen?_cons, ih htokens]

theorem balanced_neutral_append (h : ∀ token ∈ tokens, token.IsNeutral)
    : Balanced (tokens ++ more) ↔ Balanced more := by
  rw [balanced_iff, Token.leftOpen?_append, leftOpen?_of_neutral h, Option.bind_some, balanced_iff]

theorem balanced_append_neutral (h : ∀ token ∈ more, token.IsNeutral)
    : Balanced (tokens ++ more) ↔ Balanced tokens := by
  rw [balanced_iff, Token.leftOpen?_append, balanced_iff]
  cases Token.leftOpen? Token.isOpen Token.isClose 0 tokens with
  | none => rfl
  | some depth => rw [Option.bind_some, leftOpen?_of_neutral h]

theorem balanced_dropWhile {p : Token → Bool} (h : ∀ token, p token → token.IsNeutral)
    : Balanced (tokens.dropWhile p) ↔ Balanced tokens := by
  nth_rewrite 2 [← List.takeWhile_append_dropWhile (p := p) (l := tokens)]
  rw [balanced_neutral_append fun token htoken => h token (List.mem_takeWhile_imp htoken)]

theorem balanced_drop_countFront {p : Token → Bool} (h : ∀ token, p token → token.IsNeutral)
    : Balanced (tokens.drop (Token.countFront p tokens)) ↔ Balanced tokens := by
  rw [Token.drop_countFront, balanced_dropWhile h]

end Depth

section Cuts

variable {token : Token} {tokens : List Token} {depth size : Nat} {closer : Token}

theorem balanced_of_closingParen? (h : closingParen? tokens = some (size, closer))
    : Balanced (tokens.take size) :=
  balanced_iff.mpr (Token.leftOpen?_of_closing? h).1

theorem balanced_open_iff (htoken : token.isOpen) (h : closingParen? tokens = some (size, closer))
    : Balanced (token :: tokens) ↔ Balanced (tokens.drop (size + 1)) := by
  rw [balanced_iff, Token.leftOpen?_opening htoken, (Token.leftOpen?_of_closing? h).2,
    balanced_iff]

theorem not_balanced_of_closingParen? (htoken : token.isOpen) (h : closingParen? tokens = none)
    : ¬Balanced (token :: tokens) := by
  rw [balanced_iff, Token.leftOpen?_opening htoken]
  exact Token.leftOpen?_of_closing?_eq_none h

theorem not_balanced_close (h : token.isClose) : ¬Balanced (token :: tokens) := by
  rw [balanced_iff, leftOpen?_close_zero h]
  nofun

theorem balanced_split_go (isSep : Token → Bool) (depth : Nat) (tokens : List Token)
    : Token.leftOpen? Token.isOpen Token.isClose depth tokens = some 0 ↔
      Token.leftOpen? Token.isOpen Token.isClose depth (split.go isSep depth tokens).1 = some 0 ∧
      ∀ part ∈ (split.go isSep depth tokens).2, Balanced part := by
  induction tokens generalizing depth with
  | nil => simp [split.go]
  | cons token tokens ih =>
    rcases token.paren_cases with htoken | htoken | htoken
    . rw [split.go, if_pos htoken, Token.leftOpen?_opening htoken, ih]
      simp only [split.cons, Token.leftOpen?_opening htoken]
    . rw [split.go, isOpen_of_isClose htoken, if_pos htoken]
      cases depth with
      | zero =>
        -- The separators are found at depth zero again, but the first part cannot be closed.
        simp [split.cons, leftOpen?_close_zero htoken]
      | succ depth =>
        rw [leftOpen?_close htoken, ih]
        simp [split.cons, leftOpen?_close htoken]
    . rw [split.go, htoken.isOpen, htoken.isClose, htoken.leftOpen?_cons, ih]
      simp only [Bool.false_eq_true, if_false]
      split
      next hsep =>
        have hdepth : depth = 0 := of_decide_eq_true (Bool.and_eq_true_iff.mp hsep).1
        subst hdepth
        simp [Token.leftOpen?, balanced_iff]
      . simp [split.cons, htoken.leftOpen?_cons]

theorem balanced_split (isSep : Token → Bool)
    : Balanced tokens ↔ ∀ part ∈ split isSep tokens, Balanced part := by
  rw [split, List.forall_mem_cons, balanced_iff, balanced_iff]
  exact balanced_split_go isSep 0 tokens

theorem isNeutral_of_isSpace (h : token.isSpace) : token.IsNeutral := by
  apply Token.isNeutral_of_kind
  intro hkind
  simp [Token.isSpace, hkind] at h

theorem isNeutral_of_isPrime (h : token.isPrime) : token.IsNeutral :=
  Token.isNeutral_of_is h (by decide) (by decide)

theorem isNeutral_of_script? {place : Script} (h : token.script? = some place)
    : token.IsNeutral := by
  apply Token.isNeutral_of_kind
  intro hkind
  simp [Token.script?, hkind] at h

theorem balanced_of_isBlankPart (h : isBlankPart tokens) : Balanced tokens := by
  rw [balanced_iff, leftOpen?_of_neutral]
  intro token htoken
  exact isNeutral_of_isSpace (List.all_eq_true.mp h token htoken)

theorem balanced_dropBlankLast (parts : List (List Token))
    : (∀ part ∈ dropBlankLast parts, Balanced part) ↔ ∀ part ∈ parts, Balanced part := by
  unfold dropBlankLast
  split
  next hblank =>
    cases hlast : parts.getLast? with
    | none => simp [hlast] at hblank
    | some last =>
      rw [hlast, Option.any_some] at hblank
      obtain ⟨front, rfl⟩ := List.getLast?_eq_some_iff.mp hlast
      rw [List.dropLast_concat, List.forall_mem_append, List.forall_mem_singleton]
      exact (and_iff_left (balanced_of_isBlankPart hblank)).symm
  . rfl

theorem balanced_namedArgument? {key : String} {before : Nat}
    (h : namedArgument? tokens = some (key, before))
    : Balanced (tokens.drop before) ↔ Balanced tokens := by
  unfold namedArgument? at h
  dsimp only at h
  split at h
  next name colon rest hdrop =>
    obtain ⟨hnamed, hpair⟩ := Option.ite_none_right_eq_some.mp h
    cases hpair
    have hname : name.IsNeutral := by
      rcases name.paren_cases with hparen | hparen | hneutral
      . simp only [Token.isOpen, Token.is, Bool.and_eq_true, beq_iff_eq] at hparen
        simp [hparen.1, hparen.2] at hnamed
      . simp only [Token.isClose, Token.is, Bool.and_eq_true, beq_iff_eq] at hparen
        simp [hparen.1, hparen.2] at hnamed
      . exact hneutral
    have hcolon : colon.IsNeutral :=
      Token.isNeutral_of_is (Bool.and_eq_true_iff.mp hnamed).2 (by decide) (by decide)
    have hvalue := @balanced_drop_countFront tokens Token.isSpace fun _ => isNeutral_of_isSpace
    rw [hdrop, hname.balanced_cons, hcolon.balanced_cons] at hvalue
    rw [← List.drop_drop, hdrop, ← hvalue]
    rfl
  . contradiction

namespace Delimited

theorem balanced_trimTokens : Balanced (trimTokens tokens) ↔ Balanced tokens := by
  rw [← @balanced_dropWhile tokens _ fun _ => isNeutral_of_isSpace, trimTokens]
  generalize tokens.dropWhile Token.isSpace = tokens
  have happend : tokens = (tokens.reverse.dropWhile Token.isSpace).reverse ++
      (tokens.reverse.takeWhile Token.isSpace).reverse := by
    rw [← List.reverse_append, List.takeWhile_append_dropWhile, List.reverse_reverse]
  nth_rewrite 2 [happend]
  rw [balanced_append_neutral]
  intro token htoken
  exact isNeutral_of_isSpace (List.mem_takeWhile_imp (List.mem_reverse.mp htoken))

theorem balanced_takeLeft (h : Balanced tokens) : Balanced (takeLeft tokens).2 := by
  fun_cases takeLeft tokens with
  | case1 => exact h
  | case2 token tokens hdelimiter =>
    rw [Bool.and_eq_true] at hdelimiter
    rcases token.paren_cases with htoken | htoken | htoken
    . -- A parenthesis at the front is closed by one of the others.
      have hclosing : closingParen? tokens = none := by simpa [htoken] using hdelimiter.2
      exact absurd h (not_balanced_of_closingParen? htoken hclosing)
    . exact absurd h (not_balanced_close htoken)
    . exact htoken.balanced_cons.mp h
  | case3 token tokens => exact h

theorem openParens_of_leftOpen? {rest : Nat}
    (h : Token.leftOpen? Token.isOpen Token.isClose depth tokens = some rest)
    : tokens.foldl nextDepth depth = rest := by
  induction tokens generalizing depth with
  | nil => exact Option.some.inj h
  | cons token tokens ih =>
    rw [List.foldl_cons, nextDepth]
    rcases token.paren_cases with htoken | htoken | htoken
    . rw [Token.leftOpen?_opening htoken] at h
      rw [if_pos htoken, ih h]
    . rw [isOpen_of_isClose htoken, if_pos htoken]
      cases depth with
      | zero =>
        rw [leftOpen?_close_zero htoken] at h
        contradiction
      | succ depth =>
        rw [leftOpen?_close htoken] at h
        exact ih h
    . rw [htoken.leftOpen?_cons] at h
      rw [htoken.isOpen, htoken.isClose]
      exact ih h

theorem balanced_takeRight (h : Balanced tokens) : Balanced (takeRight tokens).1 := by
  fun_cases takeRight tokens with
  | case1 => exact h
  | case2 token hlast hdelimiter =>
    obtain ⟨front, rfl⟩ := List.getLast?_eq_some_iff.mp hlast
    rw [Bool.and_eq_true] at hdelimiter
    rw [List.dropLast_concat] at hdelimiter ⊢
    rw [balanced_iff, Token.leftOpen?_append] at h
    obtain ⟨depth, hdepth, hrest⟩ := Option.bind_eq_some_iff.mp h
    rcases token.paren_cases with htoken | htoken | htoken
    . rw [Token.leftOpen?_opening htoken, Token.leftOpen?, Option.some_inj] at hrest
      contradiction
    . -- A parenthesis at the back closes one of the others.
      cases depth with
      | zero =>
        rw [leftOpen?_close_zero htoken] at hrest
        contradiction
      | succ depth =>
        have : openParens front = depth + 1 := openParens_of_leftOpen? hdepth
        simp [htoken, this] at hdelimiter
    . rw [htoken.leftOpen?_cons] at hrest
      cases hrest
      exact balanced_iff.mpr hdepth
  | case3 => exact h

theorem balanced_tail_dropLast (h : isParenthesized tokens) : Balanced tokens.tail.dropLast := by
  cases tokens with
  | nil => contradiction
  | cons token tokens =>
    rw [isParenthesized, Bool.and_eq_true] at h
    cases hclosing : closingParen? tokens with
    | none => simp [hclosing] at h
    | some found =>
      obtain ⟨size, closer⟩ := found
      have hsize : size + 1 = tokens.length := by simpa [hclosing] using h.2
      rw [List.tail_cons, List.dropLast_eq_take, ← hsize]
      exact balanced_of_closingParen? hclosing

/--
The body of `lr` has balanced parentheses if all of its tokens have, since no delimiter that is
taken off is a parenthesis with a partner.
-/
theorem balanced_body (h : Balanced tokens) : Balanced (ofTokens tokens).body := by
  have htrim := balanced_trimTokens.mpr h
  unfold ofTokens
  dsimp only
  split
  next hparens => exact balanced_tail_dropLast hparens
  . exact balanced_takeRight (balanced_takeLeft htrim)

end Delimited

end Cuts

/--
A fault that does not blame a parenthesis.
-/
def SparesParens (error : ParseError) : Prop :=
  ∀ text, error.fault ≠ .unclosedDelimiter text ∧ error.fault ≠ .unexpectedClose text

theorem sparesParens_double (brackets : String) (span : Span) (place : Script)
    : SparesParens (place.double brackets span) := by
  cases place with
  | sub => exact fun _ => ⟨nofun, nofun⟩
  | sup => exact fun _ => ⟨nofun, nofun⟩

/--
An error that points at one of the tokens, and blames no parenthesis if they are balanced.
-/
structure Blames (tokens : List Token) (error : ParseError) : Prop where
  place : ∃ token ∈ tokens, error.span = token.span
  parens : Balanced tokens → SparesParens error

/--
A part of the tokens that is balanced if all of them are.
-/
structure PartOf (part tokens : List Token) : Prop where
  subset : part ⊆ tokens
  balanced : Balanced tokens → Balanced part

section Parts

variable {token closer : Token} {tokens part : List Token} {parts : List (List Token)} {size : Nat}
  {isSep : Token → Bool}

theorem PartOf.blames (h : PartOf part tokens) (error : ParseError) (hblames : Blames part error)
    : Blames tokens error := by
  obtain ⟨⟨token, htoken, hspan⟩, hparens⟩ := hblames
  exact ⟨⟨token, h.subset htoken, hspan⟩, fun hbalanced => hparens (h.balanced hbalanced)⟩

theorem Token.IsNeutral.partOf (h : token.IsNeutral) : PartOf tokens (token :: tokens) :=
  ⟨List.subset_cons_self token tokens, h.balanced_cons.mp⟩

theorem partOf_of_closing? (h : closingParen? tokens = some (size, closer))
    : PartOf (tokens.take size) (token :: tokens) :=
  ⟨List.subset_cons_of_subset _ (List.take_subset _ _), fun _ => balanced_of_closingParen? h⟩

theorem partOf_drop {used : Nat} (h : Balanced (token :: tokens) ↔ Balanced (tokens.drop used))
    : PartOf (tokens.drop used) (token :: tokens) :=
  ⟨List.subset_cons_of_subset _ (List.drop_subset _ _), h.mp⟩

theorem split.subset_go (depth : Nat) (tokens : List Token)
    : ∀ part ∈ (split.go isSep depth tokens).1 :: (split.go isSep depth tokens).2,
        part ⊆ tokens := by
  have hcons {token : Token} {tokens : List Token} {parts : List Token × List (List Token)}
      (h : ∀ part ∈ parts.1 :: parts.2, part ⊆ tokens)
      : ∀ part ∈ (cons token parts).1 :: (cons token parts).2, part ⊆ token :: tokens := by
    rw [List.forall_mem_cons] at h ⊢
    exact ⟨List.cons_subset_cons token h.1,
      fun part hpart => List.subset_cons_of_subset token (h.2 part hpart)⟩
  fun_induction split.go isSep depth tokens with
  | case1 => simp
  | case2 _ _ _ _ ih => exact hcons ih
  | case3 _ _ _ _ _ ih => exact hcons ih
  | case4 _ token _ _ _ _ _ _ heq ih =>
    rw [heq] at ih
    refine List.forall_mem_cons.mpr ⟨List.nil_subset _, fun part hpart => ?_⟩
    exact List.subset_cons_of_subset token (ih part hpart)
  | case5 _ _ _ _ _ _ ih => exact hcons ih

theorem partOf_split (h : part ∈ split isSep tokens) : PartOf part tokens :=
  ⟨split.subset_go 0 tokens part h, fun hbalanced => (balanced_split isSep).mp hbalanced part h⟩

theorem mem_of_mem_dropBlankLast (h : part ∈ dropBlankLast parts) : part ∈ parts := by
  unfold dropBlankLast at h
  split at h
  . exact List.dropLast_subset _ h
  . exact h

theorem Delimited.partOf_body (tokens : List Token) : PartOf (ofTokens tokens).body tokens := by
  have htrim : trimTokens tokens ⊆ tokens := by
    intro token htoken
    have hfront := (List.dropWhile_sublist _).mem (List.mem_reverse.mp htoken)
    exact (List.dropWhile_sublist _).mem (List.mem_reverse.mp hfront)
  have hleft : (takeLeft (trimTokens tokens)).2 ⊆ trimTokens tokens := by
    fun_cases takeLeft (trimTokens tokens) with grind
  have hright (body : List Token) : (takeRight body).1 ⊆ body := by
    fun_cases takeRight body with grind [List.dropLast_subset]
  refine ⟨?_, balanced_body⟩
  unfold ofTokens
  dsimp only
  split
  . intro token htoken
    exact htrim (List.mem_of_mem_tail (List.dropLast_subset _ htoken))
  . exact fun token htoken => htrim (hleft (hright _ htoken))

/--
The error of one of the parts.
-/
def BlamesAny (parts : List (List Token)) (error : ParseError) : Prop :=
  ∃ part ∈ parts, Blames part error

theorem BlamesAny.head (error : ParseError) (h : Blames part error)
    : BlamesAny (part :: parts) error :=
  ⟨part, List.mem_cons_self, h⟩

theorem BlamesAny.tail (error : ParseError) (h : BlamesAny parts error)
    : BlamesAny (part :: parts) error := by
  obtain ⟨other, hother, hblames⟩ := h
  exact ⟨other, List.mem_cons_of_mem part hother, hblames⟩

theorem BlamesAny.blames (hparts : ∀ part ∈ parts, part ∈ split isSep tokens) (error : ParseError)
    (h : BlamesAny parts error) : Blames tokens error := by
  obtain ⟨part, hpart, hblames⟩ := h
  exact (partOf_split (hparts part hpart)).blames error hblames

theorem Item.fails_resolve {p : ParseError → Prop} {items : List Item}
    (h : ∀ span, .slash span ∈ items → ∀ hints, p (missingOperand span hints))
    : Fails (resolve items) p := by
  rw [resolve]
  have hpending : ∀ num ∈ (none : Option (Formula × Span)), ∀ hints,
      p (missingOperand num.2 hints) := by simp
  generalize ([] : List Formula) = done, (none : Option (Formula × Span)) = pending at hpending ⊢
  fun_induction resolve.go done pending items with
  | case1 => exact fails_ok _
  | case2 => exact fails_error (hpending _ rfl _)
  | case3 => exact fails_error (h _ List.mem_cons_self _)
  | case4 => exact fails_error (h _ List.mem_cons_self _)
  | case5 _ _ _ _ _ _ ih => exact ih (by grind) (by grind)
  | case6 _ _ _ ih => exact ih (by grind) hpending
  | case7 _ _ _ _ _ _ ih => exact ih (by grind) hpending
  | case8 _ _ _ _ _ _ ih => exact ih (by grind) (by simp)

end Parts

namespace Parser

theorem balanced_drop_primes (used : Nat) (tokens : List Token)
    : Balanced (tokens.drop used) ↔
      Balanced (tokens.drop (used + Token.countFront Token.isPrime (tokens.drop used))) := by
  rw [← List.drop_drop, balanced_drop_countFront fun _ => isNeutral_of_isPrime]

/--
What is used behind a token is balanced together with it, so all tokens are balanced if and only if
those behind are.
-/
def Consumes {α : Type} (token : Token) (tokens : List Token)
    (answer : Except ParseError (α × Nat)) : Prop :=
  Concludes answer (fun answer => Balanced (token :: tokens) ↔ Balanced (tokens.drop answer.2))
    (Blames (token :: tokens))

mutual

theorem concludes_sequence (tokens : List Token)
    : Concludes (sequence tokens) (fun _ => Balanced tokens) (Blames tokens) := by
  rw [sequence]
  refine (concludes_items tokens).bind ?_
  rintro found ⟨hbalanced, hslashes⟩
  refine ⟨fun _ _ => hbalanced, Item.fails_resolve fun span hspan _ => ?_⟩
  exact ⟨hslashes span hspan, fun _ _ => ⟨nofun, nofun⟩⟩
termination_by 8 * tokens.length + 6
decreasing_by all_goals omega

theorem concludes_items (tokens : List Token)
    : Concludes (items tokens)
        (fun found =>
          Balanced tokens ∧ ∀ span, .slash span ∈ found → ∃ token ∈ tokens, span = token.span)
        (Blames tokens) := by
  cases tokens with
  | nil =>
    rw [items]
    exact concludes_ok ⟨Token.balanced_nil, by simp⟩
  | cons token tokens =>
    rw [items]
    split
    next hslash =>
      have hneutral := Token.isNeutral_of_is hslash (by decide) (by decide)
      refine ((concludes_items tokens).mono hneutral.partOf.blames).bind ?_
      rintro found ⟨hbalanced, hslashes⟩
      exact concludes_ok ⟨hneutral.balanced_cons.mpr hbalanced, by grind⟩
    . refine (concludes_expr token tokens).bind ?_
      rintro ⟨node, used⟩ hused
      refine ((concludes_items (tokens.drop used)).mono (partOf_drop hused).blames).bind ?_
      rintro found ⟨hbalanced, hslashes⟩
      exact concludes_ok ⟨hused.mpr hbalanced, by grind [List.mem_of_mem_drop]⟩
termination_by 8 * tokens.length + 5
decreasing_by all_goals (subst_vars; simp only [List.length_cons, List.length_drop]; omega)

theorem concludes_expr (token : Token) (tokens : List Token)
    : Consumes token tokens (expr token tokens) := by
  rw [expr]
  split
  next place hplace =>
    refine (concludes_script {} place token tokens (isNeutral_of_script? hplace)).bind ?_
    rintro ⟨found, used⟩ hused
    refine ((concludes_scripts found (tokens.drop used)).mono (partOf_drop hused).blames).bind ?_
    rintro ⟨found, more⟩ hmore
    rw [List.drop_drop] at hmore
    exact concludes_ok (hused.trans hmore)
  . refine (concludes_atom token tokens).bind ?_
    rintro ⟨base, used⟩ hused
    have hprimes := hused.trans (balanced_drop_primes used tokens)
    refine ((concludes_scripts _ (tokens.drop (used + _))).mono
      (partOf_drop hprimes).blames).bind ?_
    rintro ⟨found, more⟩ hmore
    rw [List.drop_drop] at hmore
    exact concludes_ok (hprimes.trans hmore)
termination_by 8 * tokens.length + 12
decreasing_by all_goals (simp -failIfUnchanged only [List.length_drop]; omega)

theorem concludes_scripts (found : Scripts Formula) (tokens : List Token)
    : Concludes (scripts found tokens)
        (fun answer => Balanced tokens ↔ Balanced (tokens.drop answer.2)) (Blames tokens) := by
  cases tokens with
  | nil =>
    rw [scripts]
    exact concludes_ok .rfl
  | cons token tokens =>
    rw [scripts]
    split
    . exact concludes_ok .rfl
    next place hplace =>
      refine (concludes_script found place token tokens (isNeutral_of_script? hplace)).bind ?_
      rintro ⟨found, used⟩ hused
      refine ((concludes_scripts found (tokens.drop used)).mono (partOf_drop hused).blames).bind ?_
      rintro ⟨found, more⟩ hmore
      rw [List.drop_drop] at hmore
      apply concludes_ok
      rw [Nat.add_assoc, Nat.add_comm 1, List.drop_succ_cons]
      exact hused.trans hmore
termination_by 8 * tokens.length + 5
decreasing_by all_goals (subst_vars; simp only [List.length_cons, List.length_drop]; omega)

theorem concludes_script (found : Scripts Formula) (place : Script) (owner : Token)
    (tokens : List Token) (howner : owner.IsNeutral)
    : Consumes owner tokens (script found place owner tokens) := by
  rw [script]
  split
  . refine concludes_error ⟨⟨owner, List.mem_cons_self, ?_⟩, fun _ => sparesParens_double _ _ _⟩
    rw [Script.span_double]
  . refine (concludes_operand owner tokens howner).bind ?_
    rintro ⟨node, used⟩ hused
    cases place with
    | sup => exact concludes_ok hused
    | sub => exact concludes_ok (hused.trans (balanced_drop_primes used tokens))
termination_by 8 * tokens.length + 4
decreasing_by all_goals omega

theorem concludes_operand (owner : Token) (tokens : List Token) (howner : owner.IsNeutral)
    : Consumes owner tokens (operand owner tokens) := by
  have hmissing : Blames (owner :: tokens) (missingArgument owner) :=
    ⟨⟨owner, List.mem_cons_self, rfl⟩, fun _ _ => ⟨nofun, nofun⟩⟩
  cases tokens with
  | nil =>
    rw [operand]
    exact concludes_error hmissing
  | cons token tokens =>
    rw [operand]
    split
    next hspace =>
      have hcons : Balanced (owner :: token :: tokens) ↔ Balanced (owner :: tokens) := by
        rw [howner.balanced_cons, howner.balanced_cons, (isNeutral_of_isSpace hspace).balanced_cons]
      have hpart : PartOf (owner :: tokens) (owner :: token :: tokens) := ⟨by grind, hcons.mp⟩
      refine ((concludes_operand owner tokens howner).mono hpart.blames).bind ?_
      rintro ⟨node, used⟩ hused
      exact concludes_ok (hcons.trans hused)
    . split
      . exact concludes_error hmissing
      . refine ((concludes_atom token tokens).mono howner.partOf.blames).bind ?_
        rintro ⟨node, used⟩ hused
        exact concludes_ok (howner.balanced_cons.trans hused)
termination_by 8 * tokens.length + 3
decreasing_by all_goals (subst_vars; simp only [List.length_cons]; omega)

theorem concludes_atom (token : Token) (tokens : List Token)
    : Consumes token tokens (atom token tokens) := by
  have hneutral {node : Formula} (h : token.IsNeutral) : Consumes token tokens (.ok (node, 0)) :=
    concludes_ok h.balanced_cons
  unfold atom
  split
  case h_8 hkind =>
    split
    next htext =>
      have htoken : token.isOpen := by simp [Token.isOpen, Token.is, hkind, htext]
      split
      next hclosing =>
        exact concludes_error ⟨⟨token, List.mem_cons_self, rfl⟩,
          fun h => absurd h (not_balanced_of_closingParen? htoken hclosing)⟩
      next size _ hclosing =>
        refine ((concludes_sequence (tokens.take size)).mono
          (partOf_of_closing? hclosing).blames).bind ?_
        intro nodes _
        exact concludes_ok (balanced_open_iff htoken hclosing)
    next htext =>
      have htoken : token.isClose := by simp [Token.isClose, Token.is, hkind, htext]
      exact concludes_error ⟨⟨token, List.mem_cons_self, rfl⟩,
        fun h => absurd h (not_balanced_close htoken)⟩
    next hopen hclose => exact hneutral (Token.isNeutral_of_text hopen hclose)
  case h_9 hkind =>
    have htoken : token.IsNeutral := Token.isNeutral_of_kind (by simp [hkind])
    cases tokens with
    | nil => exact hneutral htoken
    | cons following tokens =>
      dsimp only
      split
      next hopen =>
        split
        next hclosing =>
          refine concludes_error ⟨⟨following, by simp, rfl⟩, fun h => ?_⟩
          exact absurd (htoken.balanced_cons.mp h) (not_balanced_of_closingParen? hopen hclosing)
        next size _ hclosing =>
          have hcall := (fails_call token.text (tokens.take size)).mono
            (@partOf_of_closing? following _ _ _ hclosing).blames
          refine Concludes.bind ⟨yields_trivial _, hcall.mono htoken.partOf.blames⟩ ?_
          intro node _
          exact concludes_ok (htoken.balanced_cons.trans (balanced_open_iff hopen hclosing))
      . exact hneutral htoken
  all_goals
    rename_i hkind
    exact hneutral (Token.isNeutral_of_kind (by simp [hkind]))
termination_by 8 * tokens.length + 10
decreasing_by
  . simp only [List.length_take]
    omega
  . subst_vars
    simp only [List.length_take, List.length_cons]
    omega

theorem fails_call (name : String) (body : List Token) : Fails (call name body) (Blames body) := by
  have hmem (isSep : Token → Bool)
      : ∀ part ∈ dropBlankLast (split isSep body), part ∈ split isSep body :=
    fun _ => mem_of_mem_dropBlankLast
  unfold call
  split
  . exact ((fails_rows Token.isComma _).mono (BlamesAny.blames (hmem Token.isSemicolon))).map _
  . exact ((fails_rows Token.isAlignment _).mono (BlamesAny.blames (hmem Token.isComma))).map _
  . have hcell := (concludes_cell (Delimited.ofTokens body).body).fails
    apply (hcell.mono (Delimited.partOf_body body).blames).bind
    intro node
    split
    . exact fails_ok _
    . exact fails_ok _
  . exact ((fails_arguments _).mono (BlamesAny.blames (hmem Token.isComma))).map _
termination_by 8 * body.length + 16
decreasing_by
  . have := partsSize_dropBlankLast_le (split Token.isSemicolon body)
    simp only [partsSize_split] at this
    omega
  . have := partsSize_dropBlankLast_le (split Token.isComma body)
    simp only [partsSize_split] at this
    omega
  . have := Delimited.length_ofTokens_le body
    omega
  . have := partsSize_dropBlankLast_le (split Token.isComma body)
    simp only [partsSize_split] at this
    omega

theorem fails_rows (isSep : Token → Bool) (parts : List (List Token))
    : Fails (rows isSep parts) (BlamesAny parts) := by
  cases parts with
  | nil =>
    rw [rows]
    exact fails_ok _
  | cons part parts =>
    have hpart := (fails_arguments (split isSep part)).mono (BlamesAny.blames fun _ h => h)
    rw [rows]
    apply (hpart.mono BlamesAny.head).bind
    rintro ⟨row, named⟩
    exact ((fails_rows isSep parts).mono BlamesAny.tail).map _
termination_by 8 * partsSize parts + 7
decreasing_by
  all_goals
    subst_vars
    simp only [partsSize_split, partsSize_cons]
    omega

theorem fails_arguments (parts : List (List Token))
    : Fails (arguments parts) (BlamesAny parts) := by
  cases parts with
  | nil =>
    rw [arguments]
    exact fails_ok _
  | cons part parts =>
    rw [arguments]
    split
    next key before hnamed =>
      have hvalue : PartOf (part.drop before) part :=
        ⟨List.drop_subset _ _, (balanced_namedArgument? hnamed).mpr⟩
      have hcell := (concludes_cell (part.drop before)).fails.mono hvalue.blames
      apply (hcell.mono BlamesAny.head).bind
      intro value
      exact ((fails_arguments parts).mono BlamesAny.tail).map _
    . apply ((concludes_cell part).fails.mono BlamesAny.head).bind
      intro arg
      exact ((fails_arguments parts).mono BlamesAny.tail).map _
termination_by 8 * partsSize parts + 6
decreasing_by
  all_goals
    subst_vars
    simp only [partsSize_cons, List.length_drop]
    omega

theorem concludes_cell (tokens : List Token)
    : Concludes (cell tokens) (fun _ => Balanced tokens) (Blames tokens) := by
  rw [cell]
  exact (concludes_sequence tokens).bind fun _ hbalanced => concludes_ok hbalanced
termination_by 8 * tokens.length + 7
decreasing_by all_goals omega

end

theorem concludes_lines (parts : List (List Token))
    : Concludes (lines parts) (fun _ => ∀ part ∈ parts, Balanced part) (BlamesAny parts) := by
  apply concludes_mapM
  intro part hpart
  have hcells := @concludes_mapM _ _ _ (BlamesAny parts) Balanced (split Token.isAlignment part)
    cell fun tokens htokens => (concludes_cell tokens).mono fun error hblames =>
      ⟨part, hpart, (partOf_split htokens).blames error hblames⟩
  exact ⟨hcells.yields.mono fun _ => (balanced_split Token.isAlignment).mpr, hcells.fails⟩

end Parser

theorem concludes_parse (tokens : List Token)
    : Concludes (parse tokens) (fun _ => Balanced tokens) (Blames tokens) := by
  unfold parse
  dsimp only
  split
  . exact (Parser.concludes_sequence tokens).bind fun _ hbalanced => concludes_ok hbalanced
  . have hparts : ∀ part, part ∈ (if 1 < (split Token.isLineBreak tokens).length then
        dropBlankLast (split Token.isLineBreak tokens) else split Token.isLineBreak tokens) →
          part ∈ split Token.isLineBreak tokens := by
      intro part hpart
      split at hpart
      . exact mem_of_mem_dropBlankLast hpart
      . exact hpart
    have hlines := (Parser.concludes_lines _).mono (BlamesAny.blames hparts)
    refine hlines.bind fun rows hbalanced => concludes_ok ?_
    rw [balanced_split Token.isLineBreak]
    split at hbalanced
    . exact (balanced_dropBlankLast _).mp hbalanced
    . exact hbalanced

/--
What holds of the places of all tokens holds of the place of the error with which they are refused.
-/
theorem fails_parse {q : Span → Prop} {tokens : List Token} (h : ∀ token ∈ tokens, q token.span)
    : Fails (parse tokens) (q ·.span) := by
  intro error herror
  obtain ⟨token, htoken, hspan⟩ := ((concludes_parse tokens).fails error herror).place
  exact hspan ▸ h token htoken

/--
Only tokens with balanced parentheses can be read, and no parenthesis of balanced ones is reported
as unclosed or unexpected.
-/
theorem balanced_of_parse (tokens : List Token)
    : (∀ formula, parse tokens = .ok formula → Balanced tokens) ∧
      (Balanced tokens → ∀ error, parse tokens = .error error →
        ∀ text, error.fault ≠ .unclosedDelimiter text ∧ error.fault ≠ .unexpectedClose text) := by
  constructor
  . intro formula hformula
    exact (concludes_parse tokens).yields formula hformula
  . intro hbalanced error herror
    exact ((concludes_parse tokens).fails error herror).parens hbalanced

theorem balanced_of_parse_lr
    : Balanced (tokenize "lr([(a), b[) / mat(c; f(d))") ∧
      ∃ error, parse (tokenize "f(a, (b) / )") = .error error ∧
        ∀ text, error.fault ≠ .unclosedDelimiter text ∧ error.fault ≠ .unexpectedClose text := by
  obtain ⟨formula, hformula⟩ :=
    exists_of_isSome (x := parse (tokenize "lr([(a), b[) / mat(c; f(d))")) (by decide +kernel)
  obtain ⟨error, herror⟩ :=
    exists_of_isNone (x := parse (tokenize "f(a, (b) / )")) (by decide +kernel)
  have hbalanced : Balanced (tokenize "f(a, (b) / )") :=
    balanced_iff.mpr (by decide +kernel)
  exact ⟨(balanced_of_parse _).1 formula hformula, error, herror,
    (balanced_of_parse _).2 hbalanced error herror⟩

end Typst
end MathMarkup
