import MathMarkup.Proofs.Text
import MathMarkup.Scan

/-!
This module contains the theory of the scanner: the tokens of a text without their places can be
told from the front of the text, rule by rule.
-/

namespace MathMarkup

def Token.lexeme {κ : Type} (token : Token κ) : κ × String :=
  (token.kind, token.text)

section Lexeme

variable {κ : Type} [BEq κ] [LawfulBEq κ] {token : Token κ} {kind : κ} {text : String}

theorem is_iff : token.is kind text ↔ token.lexeme = (kind, text) := by
  simp [Token.is, Token.lexeme]

theorem is_eq_false_iff : token.is kind text = false ↔ token.lexeme ≠ (kind, text) := by
  rw [Bool.eq_false_iff, ne_eq, is_iff]

end Lexeme

namespace Scan

open Text

variable {κ : Type} {rules : List (Rule κ)} {unknown : κ}

def cut (rules : List (Rule κ)) (unknown : κ) (cs : List Char) : List (κ × String) :=
  match cs with
  | [] => []
  | c :: cs =>
    (step rules unknown c cs).2 ++ cut rules unknown ((c :: cs).drop (step rules unknown c cs).1)
termination_by cs.length
decreasing_by
  have := step_pos rules unknown c cs
  simp only [List.length_drop, List.length_cons]
  omega

@[simp]
theorem cut_nil : cut rules unknown [] = [] := by
  simp [cut]

theorem go_lexemes (offset : Nat) (cs : List Char)
    : (scan.go rules unknown offset cs).map Token.lexeme = cut rules unknown cs := by
  fun_induction cut rules unknown cs generalizing offset with
  | case1 => simp [scan.go]
  | case2 c cs ih =>
    unfold scan.go
    simp only [List.map_append, List.map_map, ih]
    congr 1
    exact List.map_id _

theorem scan_lexemes (text : String)
    : (scan rules unknown text).map Token.lexeme = cut rules unknown text.toList :=
  go_lexemes 0 text.toList

theorem cut_of_best {cs rest : List Char} {m : Match κ} (h : best rules cs = some m)
    (hrest : cs.drop m.consumed = rest) (hcs : cs ≠ [])
    : cut rules unknown cs = m.tokens ++ cut rules unknown rest := by
  cases cs with
  | nil => contradiction
  | cons c cs =>
    rw [cut]
    simp only [step, h, hrest]

theorem best_of_none {rule : Rule κ} {cs : List Char} (h : rule cs = none)
    : best (rule :: rules) cs = best rules cs := by
  simp only [best, h, Option.filter_none]

theorem best_eq_none {cs : List Char} (h : ∀ rule ∈ rules, rule cs = none)
    : best rules cs = none := by
  induction rules with
  | nil => rfl
  | cons rule rules ih =>
    rw [best_of_none (h rule List.mem_cons_self)]
    exact ih fun rule hrule => h rule (List.mem_cons_of_mem _ hrule)

theorem best_none_append {others : List (Rule κ)} {cs : List Char}
    (h : ∀ rule ∈ others, rule cs = none) : best (others ++ rules) cs = best rules cs := by
  induction others with
  | nil => rfl
  | cons rule others ih =>
    rw [List.forall_mem_cons] at h
    rw [List.cons_append, best_of_none h.1, ih h.2]

theorem best_append_none {others : List (Rule κ)} {cs : List Char}
    (h : ∀ rule ∈ others, rule cs = none) : best (rules ++ others) cs = best rules cs := by
  induction rules with
  | nil => exact best_eq_none h
  | cons rule rules ih =>
    rw [List.cons_append]
    unfold best
    rw [ih]

theorem exists_rule_of_best {cs : List Char} {m : Match κ} (h : best rules cs = some m)
    : ∃ rule ∈ rules, rule cs = some m := by
  induction rules with
  | nil => contradiction
  | cons rule rules ih =>
    have hfirst : ∀ {n}, (rule cs).filter (0 < ·.size) = some n → rule cs = some n := by
      intro n hn
      exact (Option.filter_eq_some_iff.mp hn).1
    unfold best at h
    split at h
    next n other hn hother =>
      split at h
      . cases h
        obtain ⟨found, hmem, heq⟩ := ih hother
        exact ⟨found, List.mem_cons_of_mem _ hmem, heq⟩
      . cases h
        exact ⟨rule, List.mem_cons_self, hfirst hn⟩
    next n hn _ =>
      cases h
      exact ⟨rule, List.mem_cons_self, hfirst hn⟩
    next hother =>
      obtain ⟨found, hmem, heq⟩ := ih h
      exact ⟨found, List.mem_cons_of_mem _ hmem, heq⟩

/--
A token is what some rule makes of some rest of the text, or stands for a character without meaning.
-/
theorem mem_cut {cs : List Char} {lexeme : κ × String} (h : lexeme ∈ cut rules unknown cs)
    : lexeme.1 = unknown ∨ ∃ rule ∈ rules, ∃ rest m, rule rest = some m ∧ lexeme ∈ m.tokens := by
  fun_induction cut rules unknown cs with
  | case1 => contradiction
  | case2 c cs ih =>
    cases List.mem_append.mp h with
    | inr hlater => exact ih hlater
    | inl hnow =>
      unfold step at hnow
      split at hnow
      next m hbest =>
        obtain ⟨rule, hrule, hm⟩ := exists_rule_of_best hbest
        exact .inr ⟨rule, hrule, c :: cs, m, hm, hnow⟩
      . simp only [List.mem_singleton] at hnow
        exact .inl (congrArg Prod.fst hnow)

theorem best_cons {rule : Rule κ} {cs : List Char} {m : Match κ} (h : rule cs = some m)
    (hpos : 0 < m.size) (hrules : ∀ other, best rules cs = some other → other.size ≤ m.size)
    : best (rule :: rules) cs = some m := by
  have hfilter : (rule cs).filter (0 < ·.size) = some m := by
    simp [h, hpos]
  unfold best
  rw [hfilter]
  cases hbest : best rules cs with
  | none => rfl
  | some other =>
    have := hrules other hbest
    simp only [if_neg (Nat.not_lt.mpr this)]

theorem best_of_lt {rule : Rule κ} {cs : List Char} {m : Match κ} (h : best rules cs = some m)
    (hrule : ∀ other, rule cs = some other → other.size < m.size)
    : best (rule :: rules) cs = some m := by
  unfold best
  rw [h]
  cases hfirst : (rule cs).filter (0 < ·.size) with
  | none => rfl
  | some other =>
    have := hrule other (Option.filter_eq_some_iff.mp hfirst).1
    simp only [if_pos this]

theorem best_eq_of_unique (rule : Rule κ) {cs : List Char} {m : Match κ} (hrule : rule ∈ rules)
    (h : rule cs = some m) (hpos : 0 < m.size)
    (hothers : ∀ other ∈ rules, other cs = none ∨ other cs = some m)
    : best rules cs = some m := by
  induction rules with
  | nil => contradiction
  | cons first rules ih =>
    simp only [List.forall_mem_cons] at hothers
    cases hothers.1 with
    | inl hnone =>
      rw [best_of_none hnone]
      cases hrule with
      | head => rw [hnone] at h; contradiction
      | tail _ hrule => exact ih hrule hothers.2
    | inr hsome =>
      apply best_cons hsome hpos
      intro other hother
      obtain ⟨found, hfound, heq⟩ := exists_rule_of_best hother
      have hsame := hothers.2 found hfound
      simp only [heq, reduceCtorEq, Option.some.injEq, false_or] at hsame
      exact Nat.le_of_eq (congrArg Match.size hsame)

theorem cut_of_verbatim {kind : κ} {c : Char} (cs : List Char) {rest : List Char}
    (h : best rules (c :: cs ++ rest) = some (.verbatim kind (c :: cs)))
    : cut rules unknown (c :: cs ++ rest) =
      (kind, String.ofList (c :: cs)) :: cut rules unknown rest := by
  rw [cut_of_best h _ (by simp)]
  . rfl
  . simp [Match.verbatim, Match.whole, Match.consumed]

section Rules

variable {c : Char} (cs : List Char)

theorem char_of_not {kind : κ} {p : Char → Bool} (h : p c = false)
    : Rule.char kind p (c :: cs) = none := by
  simp [Rule.char, h]

theorem lineEnd_of_ne {kind : κ} (hfeed : c ≠ '\n') (hreturn : c ≠ '\r')
    : Rule.lineEnd kind (c :: cs) = none := by
  unfold Rule.lineEnd
  split
  all_goals simp_all

theorem run_of_not {kind : κ} {p : Char → Bool} (h : p c = false)
    : Rule.run kind p (c :: cs) = none := by
  simp [Rule.run, h]

theorem number_of_not_digit {kind : κ} (h : c.isDigit = false)
    : Rule.number kind (c :: cs) = none := by
  simp [Rule.number, h]

end Rules

theorem char_single {kind : κ} {p : Char → Bool} (c : Char) (cs : List Char)
    : Rule.char kind p (c :: cs) = none ∨
      Rule.char kind p (c :: cs) = some (.verbatim kind [c]) := by
  cases hp : p c with
  | false => exact .inl (char_of_not cs hp)
  | true => exact .inr (by simp [Rule.char, hp])

/--
Whether a text does not go on with digits or with a fraction.
-/
def EndsNumber (rest : List Char) : Prop :=
  NotStartsWith Char.isDigit rest ∧ ∀ cs, rest = '.' :: cs → NotStartsWith Char.isDigit cs

theorem number_whole {kind : κ} {digits rest : List Char} (h : ∀ c ∈ digits, c.isDigit) (hne : digits ≠ [])
    (hrest : EndsNumber rest)
    : Rule.number kind (digits ++ rest) = some (.verbatim kind digits) := by
  simp only [Rule.number, takeWhile_append_of_all h hrest.1, dropWhile_append_of_all h hrest.1]
  split
  . contradiction
  next cs _ => rw [takeWhile_eq_nil (hrest.2 cs rfl)]
  . rfl

theorem number_decimal {kind : κ} {digits fraction rest : List Char} (h : ∀ c ∈ digits, c.isDigit)
    (hne : digits ≠ []) (hfraction : ∀ c ∈ fraction, c.isDigit) (hfne : fraction ≠ [])
    (hrest : NotStartsWith Char.isDigit rest)
    : Rule.number kind (digits ++ '.' :: fraction ++ rest) =
      some (.verbatim kind (digits ++ '.' :: fraction)) := by
  have hpoint : NotStartsWith Char.isDigit ('.' :: (fraction ++ rest)) := by
    rw [notStartsWith_cons]
    rfl
  rw [List.append_assoc, List.cons_append]
  simp only [Rule.number, takeWhile_append_of_all h hpoint, dropWhile_append_of_all h hpoint,
    takeWhile_append_of_all hfraction hrest]

theorem isDigit_of_takeWhile {cs digits : List Char} {digit : Char}
    (h : cs.takeWhile Char.isDigit = digit :: digits) : digit.isDigit := by
  have hall : (cs.takeWhile Char.isDigit).all Char.isDigit := List.all_takeWhile
  rw [h, List.all_cons, Bool.and_eq_true] at hall
  exact hall.1

theorem verbatim_of_number {kind : κ} {cs : List Char} {m : Match κ}
    (h : Rule.number kind cs = some m)
    : ∃ digit digits, digit.isDigit ∧ digit :: digits <+: cs ∧
        m = .verbatim kind (digit :: digits) := by
  have hcs : cs.takeWhile Char.isDigit ++ cs.dropWhile Char.isDigit = cs :=
    List.takeWhile_append_dropWhile
  unfold Rule.number at h
  cases hdigits : cs.takeWhile Char.isDigit with
  | nil => simp [hdigits] at h
  | cons digit digits =>
    have hdigit := isDigit_of_takeWhile hdigits
    have hfront : digit :: digits <+: cs := hdigits ▸ List.takeWhile_prefix _
    simp only [hdigits] at h
    split at h
    . contradiction
    next rest hrest _ =>
      split at h
      . exact ⟨digit, digits, hdigit, hfront, (Option.some.inj h).symm⟩
      . refine ⟨digit, digits ++ '.' :: rest.takeWhile Char.isDigit, hdigit, ?_,
          (Option.some.inj h).symm⟩
        rw [← List.cons_append, ← hcs, hdigits, hrest, List.prefix_append_right_inj,
          List.cons_prefix_cons]
        exact ⟨rfl, List.takeWhile_prefix _⟩
    . exact ⟨digit, digits, hdigit, hfront, (Option.some.inj h).symm⟩

end Scan
end MathMarkup
