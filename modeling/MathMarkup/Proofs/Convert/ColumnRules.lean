import MathMarkup.Proofs.Convert.Arrays

/-!
This module contains the positions of vertical rules in a matrix. They are found as numbers in a
text of any form, are brought between the first and the last column without leaving 64 bits, and
become the bars of a column specification.
-/

namespace MathMarkup
namespace Tex.OfTypst

open Text

/--
A number in a text that stands behind `last`: a run of digits that is not part of a longer one,
negative if a minus sign stands directly before it.
-/
def StandsIn (last : Option Char) (text : List Char) (n : Int) : Prop :=
  ∃ before digits after, text = before ++ digits ++ after ∧ digits ≠ [] ∧
    (∀ c ∈ digits, c.isDigit) ∧ (∀ c ∈ before.getLast?.or last, c.isDigit = false) ∧
    NotStartsWith Char.isDigit after ∧
    n = (if before.getLast?.or last = some '-' then -1 else 1) * (Nat.ofDigitChars 10 digits 0 : Nat)

section Numbers

variable {last : Option Char} {c : Char} {cs : List Char} {n : Int}

theorem standsIn_cons
    : StandsIn last (c :: cs) n ↔
      (c.isDigit ∧ (∀ d ∈ last, d.isDigit = false) ∧
        n = (if last = some '-' then -1 else 1) *
          (Nat.ofDigitChars 10 (c :: cs.takeWhile Char.isDigit) 0 : Nat)) ∨
      StandsIn (some c) cs n := by
  constructor
  . rintro ⟨before, digits, after, htext, hne, hdigits, hbefore, hafter, hn⟩
    cases before with
    | nil =>
      obtain ⟨digit, digits, rfl⟩ := List.exists_cons_of_ne_nil hne
      rw [List.nil_append, List.cons_append, List.cons.injEq] at htext
      obtain ⟨rfl, rfl⟩ := htext
      rw [List.forall_mem_cons] at hdigits
      rw [takeWhile_append_of_all hdigits.2 hafter]
      exact .inl ⟨hdigits.1, hbefore, hn⟩
    | cons first before =>
      obtain ⟨rfl, rfl⟩ := List.cons_eq_cons.mp htext
      rw [List.getLast?_cons, Option.some_or, ← Option.or_some] at hbefore hn
      exact .inr ⟨before, digits, after, rfl, hne, hdigits, hbefore, hafter, hn⟩
  . rintro (⟨hc, hlast, hn⟩ | ⟨before, digits, after, rfl, hne, hdigits, hbefore, hafter, hn⟩)
    . refine ⟨[], c :: cs.takeWhile Char.isDigit, cs.dropWhile Char.isDigit, by simp, by simp, ?_,
        hlast, ?_, hn⟩
      . rw [List.forall_mem_cons, ← List.all_eq_true]
        exact ⟨hc, List.all_takeWhile⟩
      . intro d hd
        have := List.head?_dropWhile_not Char.isDigit cs
        rwa [hd] at this
    . rw [Option.or_some, ← Option.some_or, ← List.getLast?_cons] at hbefore hn
      exact ⟨c :: before, digits, after, rfl, hne, hdigits, hbefore, hafter, hn⟩

theorem standsIn_drop_digits (hc : c.isDigit)
    : StandsIn (some c) cs n ↔ StandsIn none (cs.dropWhile Char.isDigit) n := by
  induction cs generalizing c with
  | nil => simp [StandsIn]
  | cons d cs ih =>
    rw [standsIn_cons]
    cases hd : d.isDigit with
    | true => simp [hd, hc, ih hd]
    | false => simp [hd, standsIn_cons]

theorem mem_integers (hlast : ∀ c ∈ last, c.isDigit = false)
    : n ∈ integers (last == some '-') cs ↔ StandsIn last cs n := by
  generalize hminus : (last == some '-') = afterMinus
  fun_induction integers afterMinus cs generalizing last with
  | case1 => simp [StandsIn]
  | case2 afterMinus c cs hc run value =>
    rename_i ih
    have hrun : cs.drop run.length = cs.dropWhile Char.isDigit := by
      have := @List.takeWhile_append_dropWhile _ Char.isDigit cs
      nth_rewrite 1 [← this]
      exact List.drop_left
    rw [hrun] at ih
    rw [hrun, List.mem_cons, @ih none (by simp) rfl, standsIn_cons, standsIn_drop_digits hc,
      Nat.ofDigitChars_eq_foldl, ← hminus]
    apply or_congr_left
    rw [and_iff_right hc, and_iff_right hlast]
    by_cases hsign : last = some '-'
    . simp [hsign, value, run]
    . simp [hsign, value, run]
  | case3 afterMinus c cs hc ih =>
    rw [@ih (some c) (by simpa using hc) (by simp), standsIn_cons]
    simp [hc]

end Numbers

theorem columnLetter_ne_bar {align : Option Typst.Formula} {letter : Char}
    (h : columnLetter align = .ok letter) : letter ≠ '|' := by
  unfold columnLetter at h
  split at h
  . cases h
    decide
  . split at h
    all_goals
      cases h
      try decide
  . contradiction

theorem isWord_lineFromStart (columns : Nat) {n : Int} (h : isWord n)
    : isWord (lineFromStart columns n) := by
  rw [isWord, Bool.and_eq_true, decide_eq_true_iff, decide_eq_true_iff] at h ⊢
  unfold lineFromStart lastLine
  split
  . omega
  . omega

theorem linePosition_le (columns : Nat) (n : Int) : linePosition columns n ≤ columns := by
  unfold linePosition lastLine
  omega

theorem mem_augmentLines {value : List Char} {columns line : Nat}
    : line ∈ augmentLines value columns ↔
      ∃ n, StandsIn none value n ∧ isWord n ∧ linePosition columns n = line := by
  have hnumbers (n : Int) : n ∈ integers false value ↔ StandsIn none value n :=
    @mem_integers none value n (by simp)
  simp only [mem_augmentLines_iff, hnumbers]

/--
Positions in order are found again when all gaps are gone through.
-/
theorem filter_range_eq {lines : List Nat} {columns : Nat} (h : lines.Pairwise (· < ·))
    (hle : ∀ line ∈ lines, line ≤ columns)
    : (List.range (columns + 1)).filter (· ∈ lines) = lines := by
  apply (List.pairwise_lt_range.filter _).eq_of_mem_iff h
  intro line
  simp only [List.mem_filter, List.mem_range, decide_eq_true_eq, and_iff_right_iff_imp]
  exact fun hline => Nat.lt_succ_of_le (hle line hline)

/--
The rules of a matrix, from the numbers in a text to the bars of a specification. The positions are
in order and between the columns, and nothing on the way to them has more than 64 bits.
-/
theorem augmentLines_spec (value : List Char) (columns : Nat)
    : let lines := augmentLines value columns
      lines.Pairwise (· < ·) ∧ (∀ line ∈ lines, line ≤ columns) ∧
      (∀ line, line ∈ lines ↔
        ∃ n, StandsIn none value n ∧ isWord n ∧ linePosition columns n = line) ∧
      (isWord (lastLine columns) ∧ ∀ n, isWord n → isWord (lineFromStart columns n)) ∧
      ∀ options named letter, columnLetter (named.lookup "align") = .ok letter →
        columnLines options columns (named.lookup "augment") = .ok lines →
        ∃ spec, arraySpec options named columns = .ok spec ∧
          Typst.OfTex.specColumns spec.toList = List.replicate columns letter ∧
          Typst.OfTex.specLines 0 spec.toList = lines := by
  intro lines
  have hle : ∀ line ∈ lines, line ≤ columns := by
    intro line hline
    obtain ⟨n, _, _, rfl⟩ := mem_augmentLines.mp hline
    exact linePosition_le columns n
  have hordered : lines.Pairwise (· < ·) := pairwise_augmentLines value columns
  refine ⟨hordered, hle, fun _ => mem_augmentLines, ⟨?_, ?_⟩, ?_⟩
  . rw [isWord, lastLine, Bool.and_eq_true, decide_eq_true_iff, decide_eq_true_iff]
    omega
  . exact fun _ => isWord_lineFromStart columns
  . intro options named letter hletter hlines
    have hbar := columnLetter_ne_bar hletter
    have hspec := @columnSpec_eq letter lines.toFinset columns lines
      (nodup_augmentLines value columns) fun gap _ => List.mem_toFinset.symm
    refine ⟨columnSpec letter lines columns, ?_, ?_, ?_⟩
    . rw [arraySpec, hletter, hlines]
      rfl
    . rw [hspec, String.toList_ofList, specColumns_ruledColumns hbar]
    . rw [hspec, String.toList_ofList, specLines_ruledColumns hbar]
      simp only [List.mem_toFinset]
      exact filter_range_eq hordered hle

theorem augmentLines_spec_vline
    : ∃ spec, arraySpec {} [("augment", .symbol "#(vline: (1, -1))")] 3 = .ok spec ∧
        Typst.OfTex.specColumns spec.toList = List.replicate 3 'c' ∧
        Typst.OfTex.specLines 0 spec.toList = augmentLines "#(vline: (1, -1))".toList 3 := by
  obtain ⟨-, -, -, -, hspec⟩ := augmentLines_spec "#(vline: (1, -1))".toList 3
  have hfind : findFirst? "hline".toList "#(vline: (1, -1))".toList = none := by decide +kernel
  refine hspec {} [("augment", .symbol "#(vline: (1, -1))")] 'c' ?_ ?_
  . simp [List.lookup_cons, columnLetter]
  . simp only [List.lookup_cons_self, columnLines, hfind]

end Tex.OfTypst
end MathMarkup
