import MathMarkup.Proofs.Typst.Literal

/-!
This module contains what the folding of pairs of brackets and the filling of empty calls leave as
it is in any text: its first character, the characters it consists of, and what stands before its
first parenthesis.
-/

namespace MathMarkup
namespace Typst

open Text

/--
A text whose pairs are folded and whose empty calls are filled.
-/
def filled (style : Style) (cs : List Char) : List Char :=
  if style.optimize then fillEmptyCalls false (folded style cs) else cs

section Filled

variable {style : Style} {cs name word rest : List Char} {c : Char} {inWord : Bool}

theorem cleanUp_eq_lines (style : Style) (cs : List Char)
    : cleanUp style cs = (((lines (filled style cs)).map trimEnd).intersperse ['\n']).flatten := by
  unfold cleanUp filled folded
  split
  all_goals rfl

theorem trimEnd_prefix (cs : List Char) : trimEnd cs <+: cs := by
  rw [trimEnd, ← List.reverse_suffix, List.reverse_reverse]
  exact List.dropWhile_suffix _

theorem HasPair.of_append (h : HasPair name (word ++ '(' :: rest)) (hrest : '.' ∉ rest)
    : HasPair name word := by
  obtain ⟨before, blanks, content, more, after, hblanks, hcontent, hmore, heq⟩ := h
  generalize hfront :
    before ++ (name ++ ['.', 'l'] ++ (blanks ++ (content ++ (more ++ name)))) = front
  have hsplit : word ++ '(' :: rest = front ++ '.' :: 'r' :: after := by
    rw [heq, ← hfront]
    simp
  rcases List.append_eq_append_iff.mp hsplit with ⟨middle, _, hmiddle⟩ | ⟨middle, hword, hmiddle⟩
  . have hpoint : '.' ∈ '(' :: rest := by
      rw [hmiddle]
      simp
    simp [hrest] at hpoint
  . match middle with
    | [] => simp at hmiddle
    | [_] => simp at hmiddle
    | _ :: _ :: others =>
      simp only [List.cons_append, List.cons.injEq] at hmiddle
      obtain ⟨rfl, rfl, _⟩ := hmiddle
      refine ⟨before, blanks, content, more, others, hblanks, hcontent, hmore, ?_⟩
      rw [hword, ← hfront]
      simp

theorem HasEmptyCall.of_append (hword : '(' ∉ word) (hrest : '(' ∉ rest)
    (h : HasEmptyCall inWord (word ++ '(' :: rest))
    : ∃ before name after, name ∈ roundings ∧ endsInWord inWord before = false ∧
      word = before ++ name ∧ rest = ')' :: after := by
  obtain ⟨before, name, after, hname, hends, heq⟩ := h
  have hsplit : word ++ '(' :: rest = (before ++ name) ++ '(' :: (')' :: after) := by
    rw [heq]
    simp
  rw [List.append_cons_inj_of_notMem hword hrest] at hsplit
  exact ⟨before, name, after, hname, hends, hsplit.1, hsplit.2.2⟩

theorem head?_foldPairs (hne : name ≠ []) (cs : List Char)
    : (foldPairs name cs).head? = cs.head? := by
  fun_induction foldPairs name cs with
  | case1 cs content rest hpair =>
    obtain ⟨blanks, more, _, _, _, rfl⟩ := append_of_bracketPair? hpair
    simp only [List.append_assoc, List.head?_append_of_ne_nil _ hne]
  | case2 => rfl
  | case3 => rfl

theorem head?_fillEmptyCalls (inWord : Bool) (cs : List Char)
    : (fillEmptyCalls inWord cs).head? = cs.head? := by
  fun_induction fillEmptyCalls inWord cs with
  | case1 => rfl
  | case2 => rfl
  | case3 inWord c cs _ name hname =>
    obtain ⟨hmem, after, heq⟩ := append_of_emptyCall? hname
    have hne := (roundings_alpha name hmem).2
    simp only [heq, List.append_assoc, List.head?_append_of_ne_nil _ hne]
  | case4 => rfl

theorem mem_foldPairs (h : c ∈ foldPairs name cs) : c ∈ cs ∨ c ∈ ['(', ')'] := by
  fun_induction foldPairs name cs with
  | case1 cs content rest hpair ih =>
    obtain ⟨blanks, more, _, _, _, rfl⟩ := append_of_bracketPair? hpair
    simp only [List.append_assoc, List.mem_append, List.mem_cons, List.not_mem_nil] at h ih ⊢
    tauto
  | case2 => contradiction
  | case3 d cs _ ih =>
    simp only [List.mem_cons] at h ih ⊢
    tauto

theorem mem_fillEmptyCalls (h : c ∈ fillEmptyCalls inWord cs) : c ∈ cs ∨ c = '"' := by
  fun_induction fillEmptyCalls inWord cs with
  | case1 => contradiction
  | case2 d cs ih | case4 _ d cs _ _ ih =>
    simp only [List.mem_cons] at h ⊢
    tauto
  | case3 inWord d cs _ name hname ih =>
    obtain ⟨_, after, heq⟩ := append_of_emptyCall? hname
    have hdrop : ∀ c ∈ cs.drop (name.length + 1), c ∈ d :: cs :=
      fun c hc => List.mem_cons_of_mem _ (List.mem_of_mem_drop hc)
    rw [List.mem_append] at h
    rcases h with h | h
    . rw [heq]
      simp only [List.mem_append, List.mem_cons, List.not_mem_nil] at h ⊢
      tauto
    . exact (ih h).imp_left (hdrop c)

theorem mem_filled (h : c ∈ filled style cs) : c ∈ cs ∨ c ∈ ['(', ')', '"'] := by
  unfold filled folded at h
  split at h
  . rcases mem_fillEmptyCalls h with h | rfl
    . rcases mem_foldPairs h with h | h
      . rcases mem_foldPairs h with h | h
        . exact .inl h
        . exact .inr (List.mem_append_left ['"'] h)
      . exact .inr (List.mem_append_left ['"'] h)
    . exact .inr (by decide)
  . exact .inl h

theorem head?_filled (style : Style) (cs : List Char) : (filled style cs).head? = cs.head? := by
  unfold filled folded
  split
  . rw [head?_fillEmptyCalls, head?_foldPairs (by decide), head?_foldPairs (by decide)]
  . rfl

end Filled

def beforeParen (cs : List Char) : List Char :=
  cs.takeWhile (· != '(')

section BeforeParen

variable {cs name word : List Char}

theorem beforeParen_append (hword : '(' ∉ word) (rest : List Char)
    : beforeParen (word ++ rest) = word ++ beforeParen rest := by
  apply List.takeWhile_append_of_pos
  intro c hc
  rw [bne_iff_ne]
  rintro rfl
  exact hword hc

theorem beforeParen_paren (hword : '(' ∉ word) (rest : List Char)
    : beforeParen (word ++ '(' :: rest) = word := by
  rw [beforeParen_append hword, beforeParen, List.takeWhile_cons_of_neg (by decide),
    List.append_nil]

theorem length_le_of_prefix (hword : '(' ∉ word) (h : word <+: cs)
    : word.length ≤ (beforeParen cs).length := by
  obtain ⟨rest, rfl⟩ := h
  rw [beforeParen_append hword, List.length_append]
  exact Nat.le_add_right _ _

theorem length_beforeParen_foldPairs_le (hname : '(' ∉ name) (cs : List Char)
    : (beforeParen (foldPairs name cs)).length ≤ (beforeParen cs).length := by
  fun_induction foldPairs name cs with
  | case1 cs content rest hpair ih =>
    obtain ⟨blanks, more, _, _, _, rfl⟩ := append_of_bracketPair? hpair
    rw [List.append_assoc, List.cons_append, beforeParen_paren hname, List.append_assoc,
      beforeParen_append hname, List.length_append]
    exact Nat.le_add_right _ _
  | case2 => exact Nat.le_refl _
  | case3 c cs _ ih =>
    rw [beforeParen, List.takeWhile_cons, beforeParen, List.takeWhile_cons]
    split
    . exact Nat.succ_le_succ ih
    . exact Nat.le_refl _

theorem length_beforeParen_foldPairs_lt (hname : '(' ∉ name) (hblank : NotStartsWith isBlank name)
    (hne : name ≠ []) (hword : '(' ∉ word) (h : HasPair name word) (rest : List Char)
    : (beforeParen (foldPairs name (word ++ '(' :: rest))).length < word.length := by
  induction word with
  | nil =>
    obtain ⟨_, _, _, _, _, _, _, _, heq⟩ := h
    simp at heq
  | cons c word ih =>
    cases hpair : bracketPair? name (c :: word ++ '(' :: rest) with
    | some found =>
      obtain ⟨inner, later⟩ := found
      obtain ⟨before, blanks, content, more, after, _, _, _, heq⟩ := h
      rw [foldPairs_of_pair hpair, List.append_assoc, List.cons_append, beforeParen_paren hname,
        heq]
      simp only [List.length_append, List.length_cons]
      omega
    | none =>
      have hlater : HasPair name word := by
        obtain ⟨before, blanks, content, more, after, hblanks, hcontent, hmore, heq⟩ := h
        cases before with
        | nil =>
          have hsome := @isSome_bracketPair? name content (after ++ '(' :: rest) blanks more hblank
            hne hblanks hcontent hmore
          rw [List.nil_append] at heq
          rw [heq] at hpair
          simp only [List.append_assoc] at hpair hsome
          rw [hpair] at hsome
          contradiction
        | cons d before =>
          exact ⟨before, blanks, content, more, after, hblanks, hcontent, hmore,
            List.tail_eq_of_cons_eq heq⟩
      have hc : c ≠ '(' := fun hc => hword (hc ▸ List.mem_cons_self)
      have ih := ih (fun hmem => hword (List.mem_cons_of_mem _ hmem)) hlater
      rw [List.cons_append] at hpair ⊢
      rw [foldPairs_of_none hpair, beforeParen, List.takeWhile_cons_of_pos (by simp [hc])]
      exact Nat.succ_lt_succ ih

theorem beforeParen_fillEmptyCalls (inWord : Bool) (cs : List Char)
    : beforeParen (fillEmptyCalls inWord cs) = beforeParen cs := by
  fun_induction fillEmptyCalls inWord cs with
  | case1 => rfl
  | case2 c cs ih | case4 _ c cs _ _ ih =>
    rw [beforeParen, List.takeWhile_cons, beforeParen, List.takeWhile_cons, ← beforeParen, ih]
    rfl
  | case3 inWord c cs _ name hname ih =>
    obtain ⟨hmem, after, heq⟩ := append_of_emptyCall? hname
    have hparen : '(' ∉ name := (by decide : ∀ name ∈ roundings, '(' ∉ name) name hmem
    rw [heq]
    simp only [List.append_assoc, List.cons_append]
    rw [beforeParen_paren hparen, beforeParen_paren hparen]

end BeforeParen

end Typst
end MathMarkup
