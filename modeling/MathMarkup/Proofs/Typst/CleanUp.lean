import MathMarkup.Proofs.Typst.Spacing

/-!
This module contains the texts that the writer's last step leaves as they are. What is written for
pieces that can be told apart is one of them, since only names of roundings are changed and blanks
only at the end of a line.
-/

namespace MathMarkup
namespace Typst

open Text

theorem flatten_lines {cs : List Char} (hnewline : '\n' ∉ cs)
    (hlast : ∀ c, cs.getLast? = some c → isBlank c = false)
    : (((lines cs).map trimEnd).intersperse ['\n']).flatten = cs := by
  by_cases hne : cs = []
  . subst hne
    rfl
  . rw [lines_of_no_newline hnewline hne, List.map_singleton, trimEnd_of_last hlast,
      List.intersperse_singleton, List.flatten_singleton]

theorem cleanUp_of_not_optimize {style : Style} (hstyle : style.optimize = false) {cs : List Char}
    (hnewline : '\n' ∉ cs) (hlast : ∀ c, cs.getLast? = some c → isBlank c = false)
    : cleanUp style cs = cs := by
  unfold cleanUp
  rw [hstyle]
  exact flatten_lines hnewline hlast

/--
A text in which no function for rounding is named.
-/
def WithoutRounding (cs : List Char) : Prop :=
  ∀ word ∈ roundings, ¬ word <:+: cs

section WithoutRounding

variable {cs front back : List Char}

theorem foldPairs_eq {name : List Char} (h : ¬ name <:+: cs) : foldPairs name cs = cs := by
  fun_induction foldPairs name cs with
  | case1 cs content rest hpair =>
    simp only [bracketPair?, Option.bind_eq_bind, Option.bind_eq_some_iff] at hpair
    obtain ⟨after, hfront, _⟩ := hpair
    rw [append_of_dropFront? hfront, List.append_assoc] at h
    exact absurd (List.prefix_append _ _).isInfix h
  | case2 => rfl
  | case3 c cs _ ih =>
    rw [ih fun hfound => h (List.infix_cons hfound)]

theorem emptyCall?_eq_none (h : WithoutRounding cs) : emptyCall? cs = none := by
  rw [emptyCall?, List.find?_eq_none]
  intro word hword hsome
  obtain ⟨rest, hrest⟩ := Option.isSome_iff_exists.mp hsome
  have hcs := append_of_dropFront? hrest
  rw [List.append_assoc] at hcs
  apply h word hword
  rw [hcs]
  exact (List.prefix_append _ _).isInfix

theorem WithoutRounding.tail {c : Char} (h : WithoutRounding (c :: cs)) : WithoutRounding cs :=
  fun word hword hfound => h word hword (List.infix_cons hfound)

theorem fillEmptyCalls_eq (h : WithoutRounding cs) (inWord : Bool)
    : fillEmptyCalls inWord cs = cs := by
  fun_induction fillEmptyCalls inWord cs with
  | case1 => rfl
  | case2 c cs ih => rw [ih h.tail]
  | case3 inWord c cs _ name hname =>
    rw [emptyCall?_eq_none h] at hname
    contradiction
  | case4 inWord c cs _ _ ih => rw [ih h.tail]

theorem cleanUp_eq (style : Style) (h : WithoutRounding cs) (hnewline : '\n' ∉ cs)
    (hlast : ∀ c, cs.getLast? = some c → isBlank c = false) : cleanUp style cs = cs := by
  have hround : (if style.optimize then
      fillEmptyCalls false (foldPairs "ceil".toList (foldPairs "floor".toList cs)) else cs) = cs := by
    rw [foldPairs_eq (h _ (by decide)), foldPairs_eq (h _ (by decide)), fillEmptyCalls_eq h, ite_self]
  unfold cleanUp
  rw [hround]
  exact flatten_lines hnewline hlast

theorem infix_of_cut {word : List Char} (hword : ∀ c ∈ word, c.isAlpha)
    (hcut : ∀ c, front.getLast? = some c → c.isAlpha → NotStartsWith Char.isAlpha back)
    (h : word <:+: front ++ back) : word <:+: front ∨ word <:+: back := by
  obtain ⟨before, after, heq⟩ := h
  rcases List.append_eq_append_iff.mp heq with ⟨more, hfront, hafter⟩ | ⟨more, hmiddle, hback⟩
  . exact .inl ⟨before, more, hfront.symm⟩
  . rcases List.append_eq_append_iff.mp hmiddle with ⟨last, hlast, hwhole⟩ | ⟨rest, _, hrest⟩
    . cases last with
      | nil => exact .inr ⟨[], after, by rw [hback, hwhole]; rfl⟩
      | cons d ds =>
        cases more with
        | nil => exact .inl ⟨before, [], by rw [hlast, hwhole]; simp⟩
        | cons c cs =>
          -- The word would reach from a letter at the end of one side to one at the other.
          have hend : front.getLast? = some ((d :: ds).getLast (List.cons_ne_nil d ds)) := by
            rw [hlast, List.getLast?_append, List.getLast?_eq_some_getLast (List.cons_ne_nil d ds),
              Option.some_or]
          have hmem : (d :: ds).getLast (List.cons_ne_nil d ds) ∈ word := by
            rw [hwhole]
            exact List.mem_append_left _ (List.getLast_mem _)
          have hstart := hcut _ hend (hword _ hmem) c (by rw [hback]; rfl)
          rw [hword c (hwhole ▸ List.mem_append_right _ List.mem_cons_self)] at hstart
          contradiction
    . exact .inr ⟨rest, after, by rw [hback, hrest]⟩

theorem roundings_alpha : ∀ word ∈ roundings, (∀ c ∈ word, c.isAlpha) ∧ word ≠ [] := by
  decide

theorem WithoutRounding.append (hfront : WithoutRounding front) (hback : WithoutRounding back)
    (hcut : ∀ c, front.getLast? = some c → c.isAlpha → NotStartsWith Char.isAlpha back)
    : WithoutRounding (front ++ back) := by
  intro word hword hfound
  rcases infix_of_cut (roundings_alpha word hword).1 hcut hfound with h | h
  . exact hfront word hword h
  . exact hback word hword h

theorem withoutRounding_of_not_alpha (h : ∀ c ∈ cs, c.isAlpha = false) : WithoutRounding cs := by
  intro word hword hfound
  obtain ⟨halpha, hne⟩ := roundings_alpha word hword
  cases word with
  | nil => contradiction
  | cons c word =>
    have hc := halpha c List.mem_cons_self
    rw [h c (hfound.subset List.mem_cons_self)] at hc
    contradiction

end WithoutRounding

/--
A token that the writer's last step leaves as it is.
-/
structure Plain (cs : List Char) : Prop where
  not_blank : ∀ c ∈ cs, isBlank c = false
  withoutRounding : WithoutRounding cs

section Plain

variable {cs : List Char} {text : String} {pieces : List Piece}

theorem plain_of_not_alpha (h : ∀ c ∈ cs, isBlank c = false ∧ c.isAlpha = false) : Plain cs :=
  ⟨fun c hc => (h c hc).1, withoutRounding_of_not_alpha fun c hc => (h c hc).2⟩

theorem plain_name {name : String} (h : Symbol.TypstName name) : Plain name.toList := by
  refine ⟨fun c hc => ?_, h.not_infix⟩
  rcases mem_dotted h.isDotted c hc with halpha | rfl
  . exact isBlank_of_isAlpha halpha
  . decide

theorem Plain.concat (h : Plain cs) {c : Char} (hblank : isBlank c = false)
    (halpha : c.isAlpha = false) : Plain (cs ++ [c]) := by
  have hlast : Plain [c] := plain_of_not_alpha (by simp [hblank, halpha])
  refine ⟨?_, h.withoutRounding.append hlast.withoutRounding fun _ _ _ => ?_⟩
  . rw [List.forall_mem_append]
    exact ⟨h.not_blank, hlast.not_blank⟩
  . exact notStartsWith_cons.mpr halpha

theorem shorthands_plain : ∀ pair ∈ Symbol.shorthands, ∀ c ∈ pair.2.toList,
    isBlank c = false ∧ c.isAlpha = false := by
  decide +kernel

theorem IsWord.plain (h : IsWord cs) : Plain cs := by
  cases h with
  | @letter c h =>
    refine ⟨by simpa using isBlank_of_isAlpha h, fun word hword hfound => ?_⟩
    have hlong : ∀ word ∈ roundings, 1 < word.length := by decide
    exact absurd hfound.length_le (Nat.not_le_of_lt (hlong word hword))
  | name h => exact plain_name h
  | shorthand h => exact plain_of_not_alpha (shorthands_plain _ h)
  | mark h =>
    apply plain_of_not_alpha
    simpa using (by decide : ∀ c ∈ pieceMarks, isBlank c = false ∧ c.isAlpha = false) _ h
  | control h =>
    apply plain_of_not_alpha
    simpa using (by decide : ∀ c ∈ ['_', '^', '&'], isBlank c = false ∧ c.isAlpha = false) _ h
  | escaped h =>
    apply plain_of_not_alpha
    have hclass : ∀ c ∈ "()[]\x7b\x7d|".toList, isBlank c = false ∧ c.isAlpha = false := by decide
    simpa using ⟨by decide, hclass _ h⟩
  | call h => exact (plain_name h).concat rfl rfl
  | key h => exact (plain_name h).concat rfl rfl
  | quote h =>
    exact plain_of_not_alpha ((by decide : ∀ content ∈ matrixDelimiters,
      ∀ c ∈ (Typst.quote content).toList, isBlank c = false ∧ c.isAlpha = false) _ h)

theorem Fits.plain (h : Fits (.token text :: pieces)) : Plain text.toList := by
  cases h with
  | word h => exact h.plain
  | number h =>
    apply plain_of_not_alpha
    intro c hc
    have hdigit := h c hc
    refine ⟨isBlank_of_isDigit hdigit, Bool.eq_false_iff.mpr fun halpha => ?_⟩
    rw [isDigit_of_isAlpha halpha] at hdigit
    contradiction
  | slash => exact plain_of_not_alpha (by decide)
  | nothing => exact ⟨by decide, by unfold WithoutRounding; decide⟩

theorem softGap_cases (line : Line) : line.softGap = [] ∨ line.softGap = [' '] := by
  unfold Line.softGap
  split
  . exact .inl rfl
  . split
    . exact .inl rfl
    . exact .inr rfl

theorem gap_cases (line : Line) (text : String) : line.gap text = [] ∨ line.gap text = [' '] := by
  unfold Line.gap
  split
  . exact .inr rfl
  . exact .inl rfl

theorem WithoutRounding.after_gap {gap : List Char} (hgap : gap = [] ∨ gap = [' '])
    (h : WithoutRounding cs) : WithoutRounding (gap ++ cs) := by
  rcases hgap with rfl | rfl
  . exact h
  . refine (withoutRounding_of_not_alpha (by decide)).append h ?_
    rintro _ ⟨⟩
    exact nofun

theorem Fits.withoutRounding (h : Fits pieces) (line : Line)
    : WithoutRounding (line.emit pieces) := by
  induction pieces generalizing line with
  | nil => exact withoutRounding_of_not_alpha nofun
  | cons piece pieces ih =>
    cases piece with
    | softSpace =>
      have hrest := ih h.soft_inv.2
      rw [Line.emit]
      split
      . exact hrest line
      . exact (hrest _).after_gap (softGap_cases line)
    | token text =>
      obtain ⟨hcuts, hpieces⟩ := h.token_inv
      rw [Line.emit, List.append_assoc]
      apply WithoutRounding.after_gap (gap_cases line text)
      exact h.plain.withoutRounding.append (ih hpieces _) fun c hc halpha => hcuts.ends c hc halpha line

theorem Fits.mem_emit (h : Fits pieces) (line : Line)
    : ∀ c ∈ line.emit pieces, c = ' ' ∨ isBlank c = false := by
  have hgap {gap : List Char} (h : gap = [] ∨ gap = [' ']) : ∀ c ∈ gap, c = ' ' := by
    rcases h with rfl | rfl
    . exact nofun
    . simp
  induction pieces generalizing line with
  | nil => exact nofun
  | cons piece pieces ih =>
    cases piece with
    | softSpace =>
      have hrest := ih h.soft_inv.2
      rw [Line.emit]
      split
      . exact hrest line
      . rw [List.forall_mem_append]
        exact ⟨fun c hc => .inl (hgap (softGap_cases line) c hc), hrest _⟩
    | token text =>
      rw [Line.emit, List.forall_mem_append, List.forall_mem_append]
      exact ⟨⟨fun c hc => .inl (hgap (gap_cases line text) c hc), fun c hc =>
        .inr (h.plain.not_blank c hc)⟩, ih h.token_inv.2 _⟩

theorem emit_ne_nil (hsolid : ∀ text, .token text ∈ pieces → Solid text)
    (h : Line.dropsSoftSpace pieces = false) (line : Line) : line.emit pieces ≠ [] := by
  induction pieces generalizing line with
  | nil => contradiction
  | cons piece pieces ih =>
    cases piece with
    | softSpace =>
      have hpieces : ∀ text, .token text ∈ pieces → Solid text :=
        fun text hmem => hsolid text (List.mem_cons_of_mem _ hmem)
      have hdrops : Line.dropsSoftSpace pieces = false := h
      rw [Line.emit, hdrops]
      exact List.append_ne_nil_of_right_ne_nil _ (ih hpieces hdrops _)
    | token text =>
      obtain ⟨first, rest, htext, _⟩ := hsolid text List.mem_cons_self
      simp [Line.emit, htext]

theorem Fits.getLast?_emit (h : Fits pieces) (line : Line)
    : ∀ c, (line.emit pieces).getLast? = some c → isBlank c = false := by
  induction pieces generalizing line with
  | nil => exact nofun
  | cons piece pieces ih =>
    intro c hc
    cases piece with
    | softSpace =>
      have hpieces := h.soft_inv.2
      rw [Line.emit] at hc
      split at hc
      . exact ih hpieces line c hc
      next hdrops =>
        have hne := emit_ne_nil hpieces.solid (Bool.eq_false_iff.mpr hdrops) line.space
        rw [List.getLast?_append_of_ne_nil _ hne] at hc
        exact ih hpieces _ c hc
    | token text =>
      rw [Line.emit] at hc
      by_cases hne : (line.push text).emit pieces = []
      . obtain ⟨first, rest, htext, _⟩ := h.solid text List.mem_cons_self
        rw [hne, List.append_nil, List.getLast?_append_of_ne_nil _ (by simp [htext])] at hc
        exact h.plain.not_blank c (List.mem_of_getLast? hc)
      . rw [List.getLast?_append_of_ne_nil _ hne] at hc
        exact ih h.token_inv.2 _ c hc

theorem Fits.cleanUp_emit (h : Fits pieces) (style : Style) (line : Line)
    : cleanUp style (line.emit pieces) = line.emit pieces := by
  refine cleanUp_eq style (h.withoutRounding line) ?_ (h.getLast?_emit line)
  intro hnewline
  have := h.mem_emit line _ hnewline
  simp at this
  contradiction

end Plain

end Typst
end MathMarkup
