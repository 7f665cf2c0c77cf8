import Mathlib.Data.List.TakeWhile
import MathMarkup.Proofs.Typst.CleanUp

/-!
This module contains what the writer's last step does to any text: which blanks it drops, which
brackets it folds into calls and which calls it fills, and so exactly which texts it leaves alone.
-/

namespace MathMarkup
namespace Typst

open Text

section Lines

variable {c : Char} {cs front back : List Char}

/--
Whether at most blanks stand before the end of the line, and the text goes on after it.
-/
def atLineEnd (cs : List Char) : Bool :=
  (cs.dropWhile isInlineBlank).head? == some '\n'

def trimLines : List Char → List Char
  | [] => []
  | c :: cs => if isInlineBlank c && atLineEnd cs then trimLines cs else c :: trimLines cs

theorem isInlineBlank_of_ne (h : c ≠ '\n') : isInlineBlank c = isBlank c := by
  simp [isInlineBlank, h]

theorem atLineEnd_line {line : List Char} (h : '\n' ∉ line)
    : atLineEnd (line ++ '\n' :: back) = line.all isBlank := by
  induction line with
  | nil => rfl
  | cons c line ih =>
    simp only [List.mem_cons, not_or] at h
    have hne : c ≠ '\n' := fun heq => h.1 heq.symm
    cases hblank : isBlank c with
    | true =>
      have hinline : isInlineBlank c := by rw [isInlineBlank_of_ne hne, hblank]
      rw [List.all_cons, hblank, Bool.true_and, ← ih h.2, atLineEnd, List.cons_append,
        List.dropWhile_cons_of_pos hinline]
      rfl
    | false =>
      have hinline : isInlineBlank c = false := by rw [isInlineBlank_of_ne hne, hblank]
      rw [List.all_cons, hblank, Bool.false_and, atLineEnd, List.cons_append,
        List.dropWhile_cons_of_neg (by simp [hinline])]
      simpa using hne

theorem trimEnd_cons (c : Char) (cs : List Char)
    : trimEnd (c :: cs) = if isBlank c && cs.all isBlank then [] else c :: trimEnd cs := by
  have hblank : (cs.reverse.dropWhile isBlank).isEmpty = cs.all isBlank := by
    rw [Bool.eq_iff_iff, List.isEmpty_iff, List.dropWhile_eq_nil_iff, List.all_eq_true]
    simp
  rw [trimEnd, List.reverse_cons, List.dropWhile_append, hblank]
  cases hall : cs.all isBlank with
  | true =>
    have hnil : trimEnd cs = [] := by
      rw [hall, List.isEmpty_iff] at hblank
      rw [trimEnd, hblank, List.reverse_nil]
    cases hc : isBlank c with
    | true => simp [hc]
    | false => simp [hc, hnil]
  | false => simp [trimEnd]

theorem trimLines_line {line : List Char} (h : '\n' ∉ line)
    : trimLines (line ++ '\n' :: back) = trimEnd line ++ '\n' :: trimLines back := by
  induction line with
  | nil => rfl
  | cons c line ih =>
    simp only [List.mem_cons, not_or] at h
    have hne : c ≠ '\n' := fun heq => h.1 heq.symm
    rw [List.cons_append, trimLines, atLineEnd_line h.2, isInlineBlank_of_ne hne, ih h.2,
      trimEnd_cons]
    split
    next hblank =>
      -- Nothing is left of a line of blanks, and so of its rest.
      have hall := (Bool.and_eq_true_iff.mp hblank).2
      cases line with
      | nil => rfl
      | cons d line =>
        rw [List.all_cons] at hall
        rw [trimEnd_cons, if_pos hall]
    . rfl

theorem trimLines_of_no_newline (h : '\n' ∉ cs) : trimLines cs = cs := by
  induction cs with
  | nil => rfl
  | cons c cs ih =>
    simp only [List.mem_cons, not_or] at h
    have hend : atLineEnd cs = false := by
      rw [atLineEnd, beq_eq_false_iff_ne]
      intro hhead
      exact h.2 ((List.dropWhile_sublist _).mem (List.mem_of_head? hhead))
    rw [trimLines, hend, Bool.and_false, ih h.2]
    rfl

theorem lines_cons {line : List Char} (h : '\n' ∉ line) (current : List Char)
    : lines.go (line ++ '\n' :: back) current =
      (lines.dropReturn (line.reverse ++ current)).reverse :: lines back := by
  induction line generalizing current with
  | nil => rfl
  | cons c line ih =>
    simp only [List.mem_cons, not_or] at h
    have hgo : lines.go (c :: (line ++ '\n' :: back)) current =
        lines.go (line ++ '\n' :: back) (c :: current) := by
      rw [lines.go]
      exact fun heq => h.1 heq.symm
    rw [List.cons_append, hgo, ih h.2]
    simp

theorem trimEnd_dropReturn (cs : List Char)
    : trimEnd (lines.dropReturn cs).reverse = trimEnd cs.reverse := by
  unfold lines.dropReturn
  split
  next rest =>
    have hreturn : isBlank '\r' := by decide
    simp [trimEnd, List.dropWhile_cons_of_pos hreturn]
  . rfl

theorem lines_ne_nil (h : cs ≠ []) (current : List Char) : lines.go cs current ≠ [] := by
  induction cs generalizing current with
  | nil => contradiction
  | cons c cs ih =>
    unfold lines.go
    split
    . contradiction
    . contradiction
    . exact List.cons_ne_nil _ _
    next rest current _ heq =>
      cases heq
      cases cs with
      | nil => simp [lines.go]
      | cons d cs => exact ih (List.cons_ne_nil d cs) _

theorem flatten_trimEnd_lines (hlast : ∃ c, cs.getLast? = some c ∧ isBlank c = false)
    : (((lines cs).map trimEnd).intersperse ['\n']).flatten = trimLines cs := by
  induction hlength : cs.length using Nat.strong_induction_on generalizing cs with
  | _ length ih =>
    obtain ⟨last, hlast, hblank⟩ := hlast
    by_cases hnewline : '\n' ∈ cs
    . obtain ⟨line, rest, rfl, hline⟩ := List.eq_append_cons_of_mem hnewline
      have hlines : lines (line ++ '\n' :: rest) = _ := lines_cons hline []
      have hrest : rest ≠ [] := by
        rintro rfl
        rw [List.getLast?_concat] at hlast
        cases hlast
        contradiction
      have hend : rest.getLast? = some last := by
        rwa [List.append_cons, List.getLast?_append_of_ne_nil _ hrest] at hlast
      have hlt : rest.length < length := by
        rw [← hlength, List.length_append, List.length_cons]
        omega
      have hmore := ih _ hlt ⟨last, hend, hblank⟩ rfl
      obtain ⟨first, more, hcons⟩ := List.exists_cons_of_ne_nil (lines_ne_nil hrest [])
      have hfirst : lines rest = first :: more := hcons
      rw [hlines, trimLines_line hline, ← hmore, hfirst, List.map_cons, trimEnd_dropReturn,
        List.append_nil, List.reverse_reverse, List.map_cons, List.intersperse_cons_cons,
        List.flatten_cons, List.flatten_cons]
      rfl
    . rw [trimLines_of_no_newline hnewline]
      refine flatten_lines hnewline fun c hc => ?_
      cases hlast.symm.trans hc
      exact hblank

theorem atLineEnd_append_cons (hc : isBlank c = false)
    : atLineEnd (front ++ c :: back) = atLineEnd front := by
  have hinline : isInlineBlank c = false := by simp [isInlineBlank, hc]
  have hne : c ≠ '\n' := by
    rintro rfl
    contradiction
  rw [atLineEnd, atLineEnd, List.dropWhile_append]
  split
  next hempty =>
    rw [List.isEmpty_iff.mp hempty, List.dropWhile_cons_of_neg (by simp [hinline])]
    simpa using hne
  next hempty =>
    rw [List.head?_append_of_ne_nil _ (by simpa using hempty)]

/--
A character that is not blank parts what is dropped before it from what is dropped after it.
-/
theorem trimLines_append_cons (hc : isBlank c = false)
    : trimLines (front ++ c :: back) = trimLines front ++ c :: trimLines back := by
  induction front with
  | nil => simp [trimLines, isInlineBlank, hc]
  | cons d front ih =>
    rw [List.cons_append, trimLines, trimLines, atLineEnd_append_cons hc, ih]
    split
    . rfl
    . rfl

theorem atLineEnd_cons (hc : isBlank c = false) : atLineEnd (c :: back) = false :=
  @atLineEnd_append_cons c [] back hc

theorem trimLines_cons (hc : isBlank c = false) : trimLines (c :: back) = c :: trimLines back :=
  @trimLines_append_cons c [] back hc

theorem length_trimLines_le (cs : List Char) : (trimLines cs).length ≤ cs.length := by
  induction cs with
  | nil => exact Nat.le_refl _
  | cons c cs ih =>
    rw [trimLines, List.length_cons]
    split
    . exact Nat.le_succ_of_le ih
    . exact Nat.succ_le_succ ih

/--
A text with a blank at the end of a line.
-/
def HasLooseEnd (cs : List Char) : Prop :=
  ∃ before c after, isInlineBlank c ∧ cs = before ++ c :: '\n' :: after

theorem length_trimLines_lt (h : HasLooseEnd cs) : (trimLines cs).length < cs.length := by
  obtain ⟨before, c, after, hblank, rfl⟩ := h
  induction before with
  | nil =>
    have hend : atLineEnd ('\n' :: after) := rfl
    rw [List.nil_append, trimLines, hblank, hend]
    exact Nat.lt_succ_of_le (length_trimLines_le _)
  | cons d before ih =>
    rw [List.cons_append, trimLines, List.length_cons]
    split
    . exact Nat.lt_succ_of_lt ih
    . exact Nat.succ_lt_succ ih

theorem HasLooseEnd.cons (h : HasLooseEnd cs) : HasLooseEnd (c :: cs) := by
  obtain ⟨before, d, after, hblank, rfl⟩ := h
  exact ⟨c :: before, d, after, hblank, rfl⟩

theorem hasLooseEnd_of_atLineEnd (hblank : isInlineBlank c) (h : atLineEnd cs)
    : HasLooseEnd (c :: cs) := by
  induction cs generalizing c with
  | nil => contradiction
  | cons d cs ih =>
    cases hd : isInlineBlank d with
    | true =>
      rw [atLineEnd, List.dropWhile_cons_of_pos hd] at h
      exact (ih hd h).cons
    | false =>
      rw [atLineEnd, List.dropWhile_cons_of_neg (by simp [hd])] at h
      cases beq_iff_eq.mp h
      exact ⟨[], c, cs, hblank, rfl⟩

theorem trimLines_eq_self (h : ¬ HasLooseEnd cs) : trimLines cs = cs := by
  induction cs with
  | nil => rfl
  | cons c cs ih =>
    have hkept : ¬ (isInlineBlank c && atLineEnd cs) := by
      intro hdropped
      obtain ⟨hblank, hend⟩ := Bool.and_eq_true_iff.mp hdropped
      exact h (hasLooseEnd_of_atLineEnd hblank hend)
    rw [trimLines, if_neg hkept, ih fun hloose => h hloose.cons]

end Lines

section Pairs

variable {name bracket cs content rest : List Char}

theorem append_of_upTo? (h : upTo? bracket cs = some (content, rest))
    : ∃ blanks, (∀ c ∈ blanks, isBlank c) ∧ '\n' ∉ content ∧
        cs = content ++ (blanks ++ (bracket ++ rest)) := by
  fun_induction upTo? bracket cs generalizing content rest with
  | case1 cs after hfront =>
    cases h
    refine ⟨cs.takeWhile isBlank, fun c hc => List.mem_takeWhile_imp hc, List.not_mem_nil, ?_⟩
    rw [List.nil_append, ← append_of_dropFront? hfront, trimStart, List.takeWhile_append_dropWhile]
  | case2 => contradiction
  | case3 => contradiction
  | case4 c cs hne _ ih =>
    obtain ⟨⟨content, rest⟩, hrest, heq⟩ := Option.map_eq_some_iff.mp h
    cases heq
    obtain ⟨blanks, hblanks, hcontent, rfl⟩ := ih hrest
    refine ⟨blanks, hblanks, ?_, rfl⟩
    simpa [hcontent] using fun heq => hne heq.symm

theorem isSome_upTo? {blanks : List Char} (hbracket : NotStartsWith isBlank (bracket ++ rest))
    (hblanks : ∀ c ∈ blanks, isBlank c) (hcontent : '\n' ∉ content)
    : (upTo? bracket (content ++ (blanks ++ (bracket ++ rest)))).isSome := by
  induction content with
  | nil =>
    unfold upTo?
    rw [List.nil_append, trimStart, dropWhile_append_of_all hblanks hbracket, dropFront?_append]
    rfl
  | cons c content ih =>
    simp only [List.mem_cons, not_or] at hcontent
    unfold upTo?
    split
    . rfl
    . rw [List.cons_append]
      simp only [if_neg (Ne.symm hcontent.1), Option.isSome_map]
      exact ih hcontent.2

/--
A pair of brackets like `floor.l` and `floor.r`. Between the blanks next to the brackets the line
does not end.
-/
def HasPair (name cs : List Char) : Prop :=
  ∃ before blanks content more after, (∀ c ∈ blanks, isBlank c) ∧ '\n' ∉ content ∧
    (∀ c ∈ more, isBlank c) ∧
    cs = before ++
      (name ++ ['.', 'l'] ++ (blanks ++ (content ++ (more ++ (name ++ ['.', 'r'] ++ after)))))

theorem append_of_bracketPair? (h : bracketPair? name cs = some (content, rest))
    : ∃ blanks more, (∀ c ∈ blanks, isBlank c) ∧ '\n' ∉ content ∧ (∀ c ∈ more, isBlank c) ∧
        cs = name ++ ['.', 'l'] ++
          (blanks ++ (content ++ (more ++ (name ++ ['.', 'r'] ++ rest)))) := by
  simp only [bracketPair?, Option.bind_eq_bind, Option.bind_eq_some_iff] at h
  obtain ⟨after, hfront, hclose⟩ := h
  obtain ⟨more, hmore, hcontent, heq⟩ := append_of_upTo? hclose
  refine ⟨after.takeWhile isBlank, more, fun c hc => List.mem_takeWhile_imp hc, hcontent, hmore, ?_⟩
  rw [append_of_dropFront? hfront, ← heq, trimStart, List.takeWhile_append_dropWhile]

theorem isSome_bracketPair? {blanks more : List Char} (hname : NotStartsWith isBlank name)
    (hne : name ≠ []) (hblanks : ∀ c ∈ blanks, isBlank c) (hcontent : '\n' ∉ content)
    (hmore : ∀ c ∈ more, isBlank c)
    : (bracketPair? name
        (name ++ ['.', 'l'] ++
          (blanks ++ (content ++ (more ++ (name ++ ['.', 'r'] ++ rest)))))).isSome := by
  have hbracket : NotStartsWith isBlank (name ++ ['.', 'r'] ++ rest) := by
    rwa [List.append_assoc, notStartsWith_append hne]
  simp only [bracketPair?, dropFront?_append, Option.bind_eq_bind, Option.bind_some]
  rw [trimStart, List.dropWhile_append_of_pos hblanks]
  -- Of the content only the blanks at its front are dropped with those before it.
  induction content with
  | nil =>
    rw [List.nil_append, dropWhile_append_of_all hmore hbracket]
    exact @isSome_upTo? _ [] _ [] hbracket (List.forall_mem_nil _) List.not_mem_nil
  | cons c content ih =>
    cases hc : isBlank c with
    | true =>
      simp only [List.mem_cons, not_or] at hcontent
      rw [List.cons_append, List.dropWhile_cons_of_pos hc]
      exact ih hcontent.2
    | false =>
      rw [List.cons_append, List.dropWhile_cons_of_neg (by simp [hc]), ← List.cons_append]
      exact isSome_upTo? hbracket hmore hcontent

section FoldPairs

theorem foldPairs_of_pair (h : bracketPair? name cs = some (content, rest))
    : foldPairs name cs = name ++ '(' :: content ++ ')' :: foldPairs name rest := by
  rw [foldPairs]
  split
  next found after hfound =>
    cases h.symm.trans hfound
    rfl
  next hnone =>
    rw [h] at hnone
    contradiction

theorem foldPairs_of_none {c : Char} (h : bracketPair? name (c :: cs) = none)
    : foldPairs name (c :: cs) = c :: foldPairs name cs := by
  rw [foldPairs]
  split
  next found after hfound =>
    rw [h] at hfound
    contradiction
  next => rfl

theorem foldPairs_nil (name : List Char) : foldPairs name [] = [] := by
  rw [foldPairs]
  split
  next found after hfound =>
    obtain ⟨_, _, _, _, _, heq⟩ := append_of_bracketPair? hfound
    simp at heq
  next => rfl

end FoldPairs

theorem length_foldPairs_le (name cs : List Char) : (foldPairs name cs).length ≤ cs.length := by
  fun_induction foldPairs name cs with
  | case1 cs content rest hpair ih =>
    obtain ⟨blanks, more, _, _, _, rfl⟩ := append_of_bracketPair? hpair
    simp only [List.length_append, List.length_cons, List.length_nil] at ih ⊢
    omega
  | case2 => exact Nat.le_refl _
  | case3 c cs _ ih => exact Nat.succ_le_succ ih

section Name

variable (hname : NotStartsWith isBlank name) (hne : name ≠ [])

include hname hne

theorem length_foldPairs_lt (h : HasPair name cs) : (foldPairs name cs).length < cs.length := by
  fun_induction foldPairs name cs with
  | case1 cs content rest hpair ih =>
    have hrest := length_foldPairs_le name rest
    obtain ⟨blanks, more, _, _, _, rfl⟩ := append_of_bracketPair? hpair
    simp only [List.length_append, List.length_cons, List.length_nil] at hrest ⊢
    omega
  | case2 =>
    obtain ⟨before, blanks, content, more, after, _, _, _, heq⟩ := h
    simp at heq
  | case3 c cs hpair ih =>
    obtain ⟨before, blanks, content, more, after, hblanks, hcontent, hmore, heq⟩ := h
    cases before with
    | nil =>
      have hsome :=
        @isSome_bracketPair? name content after blanks more hname hne hblanks hcontent hmore
      rw [List.nil_append] at heq
      rw [← heq, hpair] at hsome
      contradiction
    | cons d before =>
      obtain ⟨rfl, rfl⟩ := List.cons.inj heq
      exact Nat.succ_lt_succ
        (ih ⟨before, blanks, content, more, after, hblanks, hcontent, hmore, rfl⟩)

end Name

theorem HasPair.cons {c : Char} (h : HasPair name cs) : HasPair name (c :: cs) := by
  obtain ⟨before, blanks, content, more, after, hblanks, hcontent, hmore, rfl⟩ := h
  exact ⟨c :: before, blanks, content, more, after, hblanks, hcontent, hmore, rfl⟩

theorem foldPairs_eq_self (h : ¬ HasPair name cs) : foldPairs name cs = cs := by
  fun_induction foldPairs name cs with
  | case1 cs content rest hpair =>
    obtain ⟨blanks, more, hblanks, hcontent, hmore, heq⟩ := append_of_bracketPair? hpair
    exact absurd ⟨[], blanks, content, more, rest, hblanks, hcontent, hmore, heq⟩ h
  | case2 => rfl
  | case3 c cs _ ih => rw [ih fun hpair => h hpair.cons]

end Pairs

section Calls

variable {inWord : Bool} {name cs : List Char} {c : Char}

/--
Whether a text ends within a word, where `inWord` says so of the text before it.
-/
def endsInWord (inWord : Bool) (cs : List Char) : Bool :=
  (cs.getLast?.map isWordChar).getD inWord

theorem endsInWord_cons (inWord : Bool) (c : Char) (cs : List Char)
    : endsInWord inWord (c :: cs) = endsInWord (isWordChar c) cs := by
  cases cs with
  | nil => rfl
  | cons d cs =>
    rw [endsInWord, endsInWord, List.getLast?_cons_cons,
      List.getLast?_eq_some_getLast (List.cons_ne_nil d cs)]
    rfl

/--
A function for rounding that is called without an argument, and of which the name is not the end of
a longer word.
-/
def HasEmptyCall (inWord : Bool) (cs : List Char) : Prop :=
  ∃ before name after, name ∈ roundings ∧ endsInWord inWord before = false ∧
    cs = before ++ (name ++ ['(', ')'] ++ after)

theorem append_of_emptyCall? (h : emptyCall? cs = some name)
    : name ∈ roundings ∧ ∃ after, cs = name ++ ['(', ')'] ++ after := by
  rw [emptyCall?] at h
  have hcall : (dropFront? (name ++ ['(', ')']) cs).isSome := by simpa using List.find?_some h
  obtain ⟨after, hafter⟩ := Option.isSome_iff_exists.mp hcall
  exact ⟨List.mem_of_find?_eq_some h, after, append_of_dropFront? hafter⟩

theorem isSome_emptyCall? (hname : name ∈ roundings) (after : List Char)
    : (emptyCall? (name ++ ['(', ')'] ++ after)).isSome := by
  rw [emptyCall?, List.find?_isSome]
  exact ⟨name, hname, by rw [dropFront?_append]; rfl⟩

theorem hasEmptyCall_cons
    : HasEmptyCall inWord (c :: cs) ↔
      (inWord = false ∧ (emptyCall? (c :: cs)).isSome) ∨ HasEmptyCall (isWordChar c) cs := by
  constructor
  . rintro ⟨before, name, after, hname, hword, heq⟩
    cases before with
    | nil =>
      rw [List.nil_append] at heq
      rw [heq]
      exact .inl ⟨hword, isSome_emptyCall? hname after⟩
    | cons d before =>
      obtain ⟨rfl, rfl⟩ := List.cons.inj heq
      rw [endsInWord_cons] at hword
      exact .inr ⟨before, name, after, hname, hword, rfl⟩
  . rintro (⟨hword, hcall⟩ | ⟨before, name, after, hname, hword, rfl⟩)
    . obtain ⟨name, hfound⟩ := Option.isSome_iff_exists.mp hcall
      obtain ⟨hname, after, heq⟩ := append_of_emptyCall? hfound
      exact ⟨[], name, after, hname, hword, heq⟩
    . refine ⟨c :: before, name, after, hname, ?_, rfl⟩
      rw [endsInWord_cons, hword]

theorem fillEmptyCalls_of_none (h : inWord = false → emptyCall? (c :: cs) = none)
    : fillEmptyCalls inWord (c :: cs) = c :: fillEmptyCalls (isWordChar c) cs := by
  rw [fillEmptyCalls]
  split
  . rfl
  next hword => rw [h (Bool.eq_false_iff.mpr hword)]

theorem fillEmptyCalls_of_some (h : emptyCall? (c :: cs) = some name)
    : fillEmptyCalls false (c :: cs) =
      name ++ ['(', '"', '"', ')'] ++ fillEmptyCalls false (cs.drop (name.length + 1)) := by
  rw [fillEmptyCalls, h]
  rfl

theorem getLast?_fillEmptyCalls (inWord : Bool) (cs : List Char)
    : (fillEmptyCalls inWord cs).getLast? = cs.getLast? := by
  fun_induction fillEmptyCalls inWord cs with
  | case1 => rfl
  | case2 c cs ih => rw [List.getLast?_cons, ih, List.getLast?_cons]
  | case3 inWord c cs _ name hname ih =>
    obtain ⟨_, after, heq⟩ := append_of_emptyCall? hname
    have hdrop : cs.drop (name.length + 1) = after := by
      rw [← @List.drop_succ_cons _ c, heq]
      exact List.drop_left' (by simp)
    have hfilled : (name ++ ['(', '"', '"', ')']).getLast? = some ')' := by simp
    have hempty : (name ++ ['(', ')']).getLast? = some ')' := by simp
    rw [hdrop] at ih ⊢
    rw [heq, List.getLast?_append, hfilled, ih, ← hempty]
    exact List.getLast?_append.symm
  | case4 inWord c cs _ _ ih => rw [List.getLast?_cons, ih, List.getLast?_cons]

theorem not_hasEmptyCall_nil : ¬ HasEmptyCall inWord [] := by
  rintro ⟨before, name, after, _, _, heq⟩
  simp at heq

theorem fillEmptyCalls_eq_self (h : ¬ HasEmptyCall inWord cs) : fillEmptyCalls inWord cs = cs := by
  induction cs generalizing inWord with
  | nil => rw [fillEmptyCalls]
  | cons c cs ih =>
    rw [hasEmptyCall_cons, not_or, not_and, Bool.not_eq_true, Option.isSome_eq_false_iff,
      Option.isNone_iff_eq_none] at h
    rw [fillEmptyCalls_of_none h.1, ih h.2]

end Calls

end Typst
end MathMarkup
