import MathMarkup.Proofs.Convert.Text
import MathMarkup.Proofs.Scan.Lossless
import MathMarkup.Proofs.Typst.Rewriting

/-!
This module contains what becomes of a string literal that is written and read again. The writer's
last step does not know about literals: it changes what stands between the quotes like any other
text. So the content comes back exactly if there is nothing in it for that step to do.
-/

namespace MathMarkup
namespace Typst

open Text Scan

section Inside

variable {c : Char} {cs word : List Char}

def isEscaped (c : Char) : Bool :=
  c = '"' || c = '\\'

def inside (cs : List Char) : List Char :=
  quoteChars cs ++ ['"']

theorem inside_nil : inside [] = ['"'] :=
  rfl

theorem quoteChars_escaped (h : isEscaped c) : quoteChars (c :: cs) = '\\' :: c :: quoteChars cs :=
  if_pos h

theorem quoteChars_plain (h : isEscaped c = false) : quoteChars (c :: cs) = c :: quoteChars cs :=
  if_neg (Bool.eq_false_iff.mp h)

theorem inside_escaped (h : isEscaped c) : inside (c :: cs) = '\\' :: c :: inside cs := by
  rw [inside, quoteChars_escaped h]
  rfl

theorem inside_plain (h : isEscaped c = false) : inside (c :: cs) = c :: inside cs := by
  rw [inside, quoteChars_plain h]
  rfl

theorem quoteChars_append (front back : List Char)
    : quoteChars (front ++ back) = quoteChars front ++ quoteChars back := by
  induction front with
  | nil => rfl
  | cons c front ih =>
    rw [List.cons_append, quoteChars, quoteChars, ih]
    split
    . rfl
    . rfl

theorem quoteChars_of_plain (h : ∀ c ∈ cs, isEscaped c = false) : quoteChars cs = cs := by
  induction cs with
  | nil => rfl
  | cons c cs ih =>
    obtain ⟨hc, h⟩ := List.forall_mem_cons.mp h
    rw [quoteChars_plain hc, ih h]

theorem isEscaped_spec (h : isEscaped c) : isBlank c = false ∧ c ≠ '\n' ∧ isWordChar c = false := by
  rcases Bool.or_eq_true_iff.mp h with heq | heq
  . cases of_decide_eq_true heq
    decide
  . cases of_decide_eq_true heq
    decide

theorem dropFront?_of_escaped (hword : ∀ c ∈ word, isEscaped c = false) (hne : word ≠ [])
    (hc : isEscaped c) : dropFront? word (c :: cs) = none := by
  cases word with
  | nil => contradiction
  | cons w word =>
    have hw := hword w List.mem_cons_self
    rw [dropFront?, if_neg]
    rintro rfl
    rw [hc] at hw
    contradiction

/--
A word without quotes and backslashes is found in a literal where it is found in the content.
-/
theorem dropFront?_inside (hword : ∀ c ∈ word, isEscaped c = false) (cs : List Char)
    : dropFront? word (inside cs) = (dropFront? word cs).map inside := by
  induction word generalizing cs with
  | nil => rfl
  | cons w word ih =>
    have hne : w :: word ≠ [] := List.cons_ne_nil w word
    cases cs with
    | nil =>
      rw [inside_nil, dropFront?_of_escaped hword hne rfl]
      rfl
    | cons c cs =>
      cases hc : isEscaped c with
      | true =>
        rw [inside_escaped hc, dropFront?_of_escaped hword hne rfl,
          dropFront?_of_escaped hword hne hc]
        rfl
      | false =>
        rw [inside_plain hc, dropFront?, dropFront?, ih (List.forall_mem_cons.mp hword).2]
        split
        . rfl
        . rfl

theorem trimStart_inside (cs : List Char) : trimStart (inside cs) = inside (trimStart cs) := by
  induction cs with
  | nil => rfl
  | cons c cs ih =>
    cases hc : isEscaped c with
    | true =>
      have hblank := (isEscaped_spec hc).1
      have hkept : trimStart (c :: cs) = c :: cs :=
        List.dropWhile_cons_of_neg (by simp [hblank])
      rw [hkept, inside_escaped hc]
      rfl
    | false =>
      rw [inside_plain hc]
      cases hblank : isBlank c with
      | true =>
        rw [trimStart, trimStart, List.dropWhile_cons_of_pos hblank,
          List.dropWhile_cons_of_pos hblank]
        exact ih
      | false =>
        have hkept (rest : List Char) : trimStart (c :: rest) = c :: rest :=
          List.dropWhile_cons_of_neg (by simp [hblank])
        rw [hkept, hkept, inside_plain hc]

section Bracket

variable {bracket : List Char} (hbracket : ∀ c ∈ bracket, isEscaped c = false) (hne : bracket ≠ [])

include hbracket hne

theorem upTo?_of_escaped (hc : isEscaped c)
    : upTo? bracket (c :: cs) =
      (upTo? bracket cs).map fun (content, rest) => (c :: content, rest) := by
  obtain ⟨hblank, hnewline, _⟩ := isEscaped_spec hc
  have hkept : trimStart (c :: cs) = c :: cs := List.dropWhile_cons_of_neg (by simp [hblank])
  rw [upTo?, hkept, dropFront?_of_escaped hbracket hne hc]
  exact if_neg hnewline

theorem upTo?_inside (cs : List Char)
    : upTo? bracket (inside cs) =
      (upTo? bracket cs).map fun (content, rest) => (quoteChars content, inside rest) := by
  induction cs with
  | nil =>
    have hnil : upTo? bracket [] = none := by
      cases bracket with
      | nil => contradiction
      | cons b bracket => rfl
    rw [inside_nil, upTo?_of_escaped hbracket hne rfl, hnil]
    rfl
  | cons c cs ih =>
    have hfront := dropFront?_inside hbracket (trimStart (c :: cs))
    rw [← trimStart_inside] at hfront
    rw [upTo?.eq_def bracket (c :: cs), upTo?.eq_def bracket (inside (c :: cs)), hfront]
    cases dropFront? bracket (trimStart (c :: cs)) with
    | some rest => rfl
    | none =>
      cases hc : isEscaped c with
      | true =>
        have hnewline := (isEscaped_spec hc).2.1
        rw [inside_escaped hc]
        simp only [Option.map_none, upTo?_of_escaped hbracket hne hc, ih, if_neg hnewline]
        cases upTo? bracket cs with
        | none => rfl
        | some found => simp [quoteChars_escaped hc]
      | false =>
        rw [inside_plain hc]
        simp only [Option.map_none, ih]
        split
        . rfl
        . cases upTo? bracket cs with
          | none => rfl
          | some found => simp [quoteChars_plain hc]

end Bracket

section Name

variable {name : List Char} (hname : ∀ c ∈ name, isEscaped c = false)

include hname

theorem bracket_plain (side : Char) (hside : isEscaped side = false)
    : (∀ c ∈ name ++ ['.', side], isEscaped c = false) ∧ name ++ ['.', side] ≠ [] := by
  refine ⟨?_, by simp⟩
  rw [List.forall_mem_append]
  exact ⟨hname, by simpa using ⟨rfl, hside⟩⟩

theorem bracketPair?_inside (cs : List Char)
    : bracketPair? name (inside cs) =
      (bracketPair? name cs).map fun (content, rest) => (quoteChars content, inside rest) := by
  obtain ⟨hleft, _⟩ := bracket_plain hname 'l' rfl
  obtain ⟨hright, hne⟩ := bracket_plain hname 'r' rfl
  simp only [bracketPair?, dropFront?_inside hleft]
  cases dropFront? (name ++ ['.', 'l']) cs with
  | none => rfl
  | some rest =>
    simp only [Option.map_some, Option.bind_eq_bind, Option.bind_some]
    rw [trimStart_inside, upTo?_inside hright hne]

theorem foldPairs_of_escaped (hc : isEscaped c)
    : foldPairs name (c :: cs) = c :: foldPairs name cs := by
  obtain ⟨hleft, hne⟩ := bracket_plain hname 'l' rfl
  apply foldPairs_of_none
  rw [bracketPair?, dropFront?_of_escaped hleft hne hc]
  rfl

theorem foldPairs_inside (cs : List Char)
    : foldPairs name (inside cs) = inside (foldPairs name cs) := by
  fun_induction foldPairs name cs with
  | case1 cs content rest hpair ih =>
    have hread := bracketPair?_inside hname cs
    rw [hpair] at hread
    have hopen : isEscaped '(' = false := rfl
    have hclose : isEscaped ')' = false := rfl
    rw [foldPairs_of_pair hread, ih, inside, inside]
    simp only [quoteChars_append, quoteChars_of_plain hname, quoteChars_plain hopen,
      quoteChars_plain hclose, List.append_assoc, List.cons_append]
  | case2 =>
    rw [inside_nil, foldPairs_of_escaped hname rfl, foldPairs_nil]
  | case3 c cs hpair ih =>
    cases hc : isEscaped c with
    | true =>
      rw [inside_escaped hc, inside_escaped hc, foldPairs_of_escaped hname rfl,
        foldPairs_of_escaped hname hc, ih]
    | false =>
      have hnone : bracketPair? name (c :: inside cs) = none := by
        rw [← inside_plain hc, bracketPair?_inside hname, hpair]
        rfl
      rw [inside_plain hc, inside_plain hc, foldPairs_of_none hnone, ih]

end Name

theorem roundings_plain : ∀ name ∈ roundings, ∀ c ∈ name ++ ['(', ')'], isEscaped c = false := by
  decide

theorem emptyCall?_inside (cs : List Char) : emptyCall? (inside cs) = emptyCall? cs := by
  have hcall : ∀ name ∈ roundings, (dropFront? (name ++ ['(', ')']) (inside cs)).isSome =
      (dropFront? (name ++ ['(', ')']) cs).isSome := by
    intro name hname
    rw [dropFront?_inside (roundings_plain name hname), Option.isSome_map]
  rw [emptyCall?, emptyCall?, ← List.head?_filter, ← List.head?_filter, List.filter_congr hcall]

theorem emptyCall?_of_escaped (hc : isEscaped c) : emptyCall? (c :: cs) = none := by
  rw [emptyCall?, List.find?_eq_none]
  intro name hname
  rw [dropFront?_of_escaped (roundings_plain name hname) (by simp) hc]
  exact Bool.false_ne_true

theorem fillEmptyCalls_of_escaped {inWord : Bool} (hc : isEscaped c)
    : fillEmptyCalls inWord (c :: cs) = c :: fillEmptyCalls false cs := by
  rw [← (isEscaped_spec hc).2.2]
  exact fillEmptyCalls_of_none fun _ => emptyCall?_of_escaped hc

theorem fillEmptyCalls_inside {inWord : Bool} (h : ¬ HasEmptyCall inWord cs)
    : fillEmptyCalls inWord (inside cs) = inside cs := by
  induction cs generalizing inWord with
  | nil => rw [inside_nil, fillEmptyCalls_of_escaped rfl, fillEmptyCalls]
  | cons c cs ih =>
    rw [hasEmptyCall_cons, not_or] at h
    cases hc : isEscaped c with
    | true =>
      rw [(isEscaped_spec hc).2.2] at h
      rw [inside_escaped hc, fillEmptyCalls_of_escaped rfl, fillEmptyCalls_of_escaped hc, ih h.2]
    | false =>
      have hcall : inWord = false → emptyCall? (c :: inside cs) = none := by
        intro hword
        rw [← inside_plain hc, emptyCall?_inside]
        simpa [hword] using h.1
      rw [inside_plain hc, fillEmptyCalls_of_none hcall, ih h.2]

/--
An empty call in the content is filled with a pair of quotes, of which the first ends the literal.
-/
theorem exists_fillEmptyCalls_inside {inWord : Bool} (h : HasEmptyCall inWord cs)
    : ∃ front back, fillEmptyCalls inWord (inside cs) = quoteChars front ++ '"' :: '"' :: back := by
  induction cs generalizing inWord with
  | nil => exact absurd h not_hasEmptyCall_nil
  | cons c cs ih =>
    rw [hasEmptyCall_cons] at h
    cases hc : isEscaped c with
    | true =>
      rw [emptyCall?_of_escaped hc, (isEscaped_spec hc).2.2] at h
      obtain ⟨front, back, heq⟩ := ih (h.resolve_left (by simp))
      refine ⟨c :: front, back, ?_⟩
      rw [inside_escaped hc, fillEmptyCalls_of_escaped rfl, fillEmptyCalls_of_escaped hc, heq,
        quoteChars_escaped hc]
      rfl
    | false =>
      rw [← emptyCall?_inside, inside_plain hc] at h
      rw [inside_plain hc]
      by_cases hcall : inWord = false ∧ (emptyCall? (c :: inside cs)).isSome
      . obtain ⟨rfl, hsome⟩ := hcall
        obtain ⟨name, hname⟩ := Option.isSome_iff_exists.mp hsome
        have hplain : ∀ d ∈ name ++ ['('], isEscaped d = false := by
          intro d hd
          refine roundings_plain name (append_of_emptyCall? hname).1 d ?_
          simp only [List.mem_append, List.mem_cons, List.not_mem_nil, or_false] at hd ⊢
          tauto
        refine ⟨name ++ ['('], ')' :: fillEmptyCalls false ((inside cs).drop (name.length + 1)), ?_⟩
        rw [fillEmptyCalls_of_some hname, quoteChars_of_plain hplain]
        simp only [List.append_assoc, List.cons_append, List.nil_append]
      . obtain ⟨front, back, heq⟩ := ih (h.resolve_left hcall)
        have hnone : inWord = false → emptyCall? (c :: inside cs) = none := by
          intro hword
          simpa [hword] using hcall
        refine ⟨c :: front, back, ?_⟩
        rw [fillEmptyCalls_of_none hnone, heq, quoteChars_plain hc]
        rfl

theorem atLineEnd_quoteChars (cs : List Char) : atLineEnd (quoteChars cs) = atLineEnd cs := by
  induction cs with
  | nil => rfl
  | cons c cs ih =>
    cases hc : isEscaped c with
    | true =>
      have hback : isBlank '\\' = false := rfl
      rw [quoteChars_escaped hc, atLineEnd_cons (isEscaped_spec hc).1, atLineEnd_cons hback]
    | false =>
      rw [quoteChars_plain hc, atLineEnd, atLineEnd, List.dropWhile_cons, List.dropWhile_cons]
      split
      . exact ih
      . rfl

theorem trimLines_quoteChars (cs : List Char)
    : trimLines (quoteChars cs) = quoteChars (trimLines cs) := by
  induction cs with
  | nil => rfl
  | cons c cs ih =>
    cases hc : isEscaped c with
    | true =>
      have hback : isBlank '\\' = false := rfl
      rw [quoteChars_escaped hc, trimLines_cons hback, trimLines_cons (isEscaped_spec hc).1,
        trimLines_cons (isEscaped_spec hc).1, ih, quoteChars_escaped hc]
    | false =>
      rw [quoteChars_plain hc, trimLines, trimLines, atLineEnd_quoteChars, ih]
      split
      . rfl
      . rw [quoteChars_plain hc]

end Inside

section CleanUp

variable {style : Style} {cs : List Char}

/--
The content of a literal after the brackets in it are folded.
-/
def folded (style : Style) (cs : List Char) : List Char :=
  if style.optimize then foldPairs "ceil".toList (foldPairs "floor".toList cs) else cs

theorem brackets_plain : ∀ name ∈ ["floor".toList, "ceil".toList],
    (∀ c ∈ name, isEscaped c = false) ∧ NotStartsWith isBlank name ∧ name ≠ [] := by
  decide

theorem getLast?_inside (cs : List Char) : (inside cs).getLast? = some '"' :=
  List.getLast?_concat

theorem cleanUp_literal (style : Style) (cs : List Char)
    : cleanUp style ('"' :: inside cs) =
      '"' :: trimLines (if style.optimize then fillEmptyCalls false (inside (folded style cs))
        else inside cs) := by
  obtain ⟨hfloor, _⟩ := brackets_plain _ List.mem_cons_self
  obtain ⟨hceil, _⟩ := brackets_plain _ (List.mem_cons_of_mem _ List.mem_cons_self)
  have hquote : isBlank '"' = false := rfl
  unfold cleanUp folded
  split
  next hstyle =>
    rw [foldPairs_of_escaped hfloor rfl, foldPairs_of_escaped hceil rfl,
      fillEmptyCalls_of_escaped rfl, foldPairs_inside hfloor, foldPairs_inside hceil]
    refine (flatten_trimEnd_lines ⟨'"', ?_, hquote⟩).trans (trimLines_cons hquote)
    rw [List.getLast?_cons, getLast?_fillEmptyCalls, getLast?_inside]
    rfl
  next hstyle =>
    refine (flatten_trimEnd_lines ⟨'"', ?_, hquote⟩).trans (trimLines_cons hquote)
    rw [List.getLast?_cons, getLast?_inside]
    rfl

theorem trimLines_inside (front back : List Char)
    : trimLines (quoteChars front ++ '"' :: back) =
      quoteChars (trimLines front) ++ '"' :: trimLines back := by
  have hquote : isBlank '"' = false := rfl
  rw [trimLines_append_cons hquote, trimLines_quoteChars]

theorem cleanUp_of_not_hasEmptyCall
    (h : style.optimize → ¬ HasEmptyCall false (folded style cs))
    : cleanUp style ('"' :: inside cs) = '"' :: inside (trimLines (folded style cs)) := by
  rw [cleanUp_literal]
  split
  next hstyle =>
    rw [fillEmptyCalls_inside (h hstyle)]
    exact congrArg ('"' :: ·) (trimLines_inside _ [])
  next hstyle =>
    rw [folded, if_neg hstyle]
    exact congrArg ('"' :: ·) (trimLines_inside _ [])

theorem exists_cleanUp_of_hasEmptyCall (hstyle : style.optimize)
    (h : HasEmptyCall false (folded style cs))
    : ∃ front back, cleanUp style ('"' :: inside cs) =
        '"' :: (quoteChars front ++ '"' :: '"' :: back) := by
  obtain ⟨front, back, heq⟩ := exists_fillEmptyCalls_inside h
  have hquote : isBlank '"' = false := rfl
  refine ⟨trimLines front, trimLines back, ?_⟩
  rw [cleanUp_literal, if_pos hstyle, heq, trimLines_inside, trimLines_cons hquote]

end CleanUp

section Scripts

variable {token : Token} {tokens : List Token} {found answer : Scripts Formula} {used : Nat}
  {text : String}

theorem isSome_insert {α : Type} (scripts : Scripts α) (node : α) (place other : Script)
    (h : (scripts.get? other).isSome ∨ other = place)
    : ((scripts.insert node place).get? other).isSome := by
  cases place <;> cases other <;> simp_all [Scripts.insert, Scripts.get?]

theorem script_keeps {place : Script} {owner : Token}
    (h : Parser.script found place owner tokens = .ok (answer, used)) (other : Script)
    (hother : (found.get? other).isSome ∨ other = place) : (answer.get? other).isSome := by
  unfold Parser.script at h
  split at h
  . contradiction
  . obtain ⟨operand, _, h⟩ := exists_of_bind_eq_ok h
    have hinsert := isSome_insert found operand.1 place other hother
    cases place with
    | sup =>
      cases h
      exact hinsert
    | sub =>
      cases h
      cases other with
      | sub => exact hinsert
      | sup => exact hinsert

theorem scripts_cases (h : Parser.scripts found tokens = .ok (answer, used))
    : (used = 0 ∧ answer = found) ∨ ∃ token rest place next count more, tokens = token :: rest ∧
        Parser.script found place token rest = .ok (next, count) ∧
        Parser.scripts next (rest.drop count) = .ok (answer, more) := by
  unfold Parser.scripts at h
  split at h
  . cases h
    exact .inl ⟨rfl, rfl⟩
  next token rest =>
    split at h
    . cases h
      exact .inl ⟨rfl, rfl⟩
    next place _ =>
      obtain ⟨first, hfirst, h⟩ := exists_of_bind_eq_ok h
      obtain ⟨second, hsecond, h⟩ := exists_of_bind_eq_ok h
      cases h
      exact .inr ⟨token, rest, place, first.1, first.2, second.2, rfl, hfirst, hsecond⟩

theorem scripts_keeps (h : Parser.scripts found tokens = .ok (answer, used)) (place : Script)
    (hplace : (found.get? place).isSome) : (answer.get? place).isSome := by
  induction hlength : tokens.length using Nat.strong_induction_on
    generalizing tokens found used with
  | _ length ih =>
    rcases scripts_cases h with ⟨_, rfl⟩ | ⟨token, rest, _, next, count, _, rfl, hscript, hmore⟩
    . exact hplace
    . have hlt : (rest.drop count).length < length := by
        rw [← hlength, List.length_cons, List.length_drop]
        omega
      exact ih _ hlt hmore (script_keeps hscript place (.inl hplace)) rfl

theorem eq_of_scripts (h : Parser.scripts found tokens = .ok (answer, used))
    (hnone : ∀ place, answer.get? place = none) : used = 0 ∧ answer = found := by
  rcases scripts_cases h with heq | ⟨token, rest, place, next, count, _, _, hscript, hmore⟩
  . exact heq
  . have hsome := scripts_keeps hmore place (script_keeps hscript place (.inr rfl))
    rw [hnone place] at hsome
    contradiction

theorem none_of_attachScripts {base : Formula} (h : attachScripts found base = .text text)
    : found.primes = 0 ∧ ∀ place, found.get? place = none := by
  unfold attachScripts at h
  split at h
  next hsub hsup =>
    rw [Scripts.superscript] at hsup
    split at hsup
    next hprimes =>
      refine ⟨hprimes, fun place => ?_⟩
      cases place with
      | sub => exact hsub
      | sup => exact hsup
    . contradiction
  . contradiction

/--
Text that is read from a literal has neither primes nor scripts, so nothing else is used for it.
-/
theorem used_of_expr (hkind : token.kind = .text)
    (h : Parser.expr token tokens = .ok (.text text, used)) : used = 0 := by
  obtain ⟨kind, own, span⟩ := token
  cases hkind
  rw [Parser.expr] at h
  obtain ⟨⟨base, count⟩, hatom, h⟩ := exists_of_bind_eq_ok h
  have hcount : count = 0 := by
    unfold Parser.atom at hatom
    cases hatom
    rfl
  obtain ⟨⟨found, more⟩, hscripts, h⟩ := exists_of_bind_eq_ok h
  have hanswer := Except.ok.inj h
  obtain ⟨hprimes, hnone⟩ := none_of_attachScripts (congrArg Prod.fst hanswer)
  obtain ⟨rfl, rfl⟩ := eq_of_scripts hscripts hnone
  have hused := congrArg Prod.snd hanswer
  simp only [hcount] at hused hprimes
  omega

end Scripts

section Items

variable {items : List Item} {done nodes : List Formula} {pending : Option (Formula × Span)}

theorem go_eq_or_frac (h : Item.resolve.go done pending items = .ok nodes)
    : (∃ num den, .frac num den ∈ nodes) ∨
      (pending = none ∧ nodes.map Item.node = done.reverse.map .node ++ items) := by
  induction items generalizing done pending with
  | nil =>
    cases pending with
    | none =>
      cases h
      exact .inr ⟨rfl, (List.append_nil _).symm⟩
    | some pair => contradiction
  | cons item items ih =>
    cases item with
    | slash span =>
      cases pending with
      | some pair => contradiction
      | none =>
        rw [Item.resolve.go] at h
        split at h
        . contradiction
        . rcases ih h with hfrac | ⟨hnone, _⟩
          . exact .inl hfrac
          . contradiction
    | node next =>
      cases pending with
      | none =>
        rcases ih h with hfrac | ⟨_, heq⟩
        . exact .inl hfrac
        . refine .inr ⟨rfl, ?_⟩
          rw [heq]
          simp
      | some pair =>
        obtain ⟨num, span⟩ := pair
        rw [Item.resolve.go] at h
        split at h
        . rcases ih h with hfrac | ⟨hnone, _⟩
          . exact .inl hfrac
          . contradiction
        . rcases ih h with hfrac | ⟨_, heq⟩
          . exact .inl hfrac
          . left
            have hmem :
                Item.node (.frac (Item.operand num) (Item.operand next)) ∈ nodes.map .node := by
              rw [heq]
              simp
            obtain ⟨node, hnode, hsame⟩ := List.mem_map.mp hmem
            cases hsame
            exact ⟨_, _, hnode⟩

theorem eq_of_resolve {text : String} (h : Item.resolve items = .ok [.text text])
    : items = [.node (.text text)] := by
  rcases go_eq_or_frac h with ⟨num, den, hmem⟩ | ⟨_, heq⟩
  . simp at hmem
  . exact heq.symm

end Items

section Parse

variable {token : Token} {tokens : List Token} {text : String}

theorem eq_of_ofList {nodes : List Formula} (h : Formula.ofList nodes = .text text)
    : nodes = [.text text] := by
  unfold Formula.ofList at h
  split at h
  . contradiction
  . rw [h]
  . contradiction

theorem eq_nil_of_items (h : Parser.items tokens = .ok []) : tokens = [] := by
  cases tokens with
  | nil => rfl
  | cons token tokens =>
    -- Each token is the beginning of some item.
    rw [Parser.items] at h
    split at h
    . obtain ⟨rest, _, h⟩ := exists_of_bind_eq_ok h
      cases h
    . obtain ⟨node, _, h⟩ := exists_of_bind_eq_ok h
      obtain ⟨rest, _, h⟩ := exists_of_bind_eq_ok h
      cases h

theorem eq_nil_of_parse (hkind : token.kind = .text)
    (h : parse (token :: tokens) = .ok (.text text)) : tokens = [] := by
  simp only [parse] at h
  split at h
  . obtain ⟨nodes, hsequence, h⟩ := exists_of_bind_eq_ok h
    rw [eq_of_ofList (Except.ok.inj h), Parser.sequence] at hsequence
    obtain ⟨items, hitems, hresolve⟩ := exists_of_bind_eq_ok hsequence
    have hslash : token.is .element "/" = false := by simp [Token.is, hkind]
    rw [eq_of_resolve hresolve, Parser.items, hslash] at hitems
    obtain ⟨⟨node, used⟩, hexpr, hitems⟩ := exists_of_bind_eq_ok hitems
    obtain ⟨rest, hrest, hitems⟩ := exists_of_bind_eq_ok hitems
    cases hitems
    cases used_of_expr hkind hexpr
    exact eq_nil_of_items hrest
  . obtain ⟨rows, _, h⟩ := exists_of_bind_eq_ok h
    cases h

theorem lex_ne_nil {cs : List Char} (h : cs ≠ []) : lex cs ≠ [] := by
  cases cs with
  | nil => contradiction
  | cons c cs =>
    rw [lex, cut]
    refine List.append_ne_nil_of_left_ne_nil ?_ _
    unfold step
    split
    next m hbest =>
      obtain ⟨rule, hrule, hm⟩ := exists_rule_of_best hbest
      exact (faithful_of_rule hrule hm).1
    . exact List.cons_ne_nil _ _

theorem parseText_split_literal (front : String) {back : List Char} (hback : back ≠ [])
    : parseText (String.ofList ((quote front).toList ++ back)) ≠ .ok (.text text) := by
  intro h
  have hlexemes := tokenize_lexemes (String.ofList ((quote front).toList ++ back))
  rw [String.toList_ofList, lex_quote] at hlexemes
  obtain ⟨token, tokens, htokens, htoken, hrest⟩ := List.map_eq_cons_iff.mp hlexemes
  rw [parseText, htokens] at h
  have hkind : token.kind = .text := congrArg Prod.fst htoken
  rw [eq_nil_of_parse hkind h] at hrest
  exact lex_ne_nil hback hrest.symm

end Parse

/--
A text that the writer's last step leaves alone.
-/
structure Intact (style : Style) (cs : List Char) : Prop where
  /-- No blank stands at the end of a line. -/
  lines : ¬ HasLooseEnd cs
  /-- There are no brackets that could be written as a call. -/
  pairs : style.optimize → ∀ name ∈ ["floor".toList, "ceil".toList], ¬ HasPair name cs
  /-- No function for rounding is called without an argument. -/
  calls : style.optimize → ¬ HasEmptyCall false cs

section Intact

variable {style : Style} {cs : List Char}

theorem folded_eq_self
    (h : style.optimize → ∀ name ∈ ["floor".toList, "ceil".toList], ¬ HasPair name cs)
    : folded style cs = cs := by
  unfold folded
  split
  next hstyle =>
    have hpairs := h hstyle
    simp only [List.forall_mem_cons] at hpairs
    rw [foldPairs_eq_self hpairs.1, foldPairs_eq_self hpairs.2.1]
  . rfl

theorem not_hasPair_of_length (hstyle : style.optimize) (h : cs.length ≤ (folded style cs).length)
    : ∀ name ∈ ["floor".toList, "ceil".toList], ¬ HasPair name cs := by
  have hspec := brackets_plain
  simp only [List.forall_mem_cons] at hspec ⊢
  obtain ⟨⟨_, hfloor, hfloorNe⟩, ⟨_, hceil, hceilNe⟩, _⟩ := hspec
  rw [folded, if_pos hstyle] at h
  have hno : ¬ HasPair "floor".toList cs := by
    intro hpair
    have hlt := length_foldPairs_lt hfloor hfloorNe hpair
    have hle := length_foldPairs_le "ceil".toList (foldPairs "floor".toList cs)
    omega
  rw [foldPairs_eq_self hno] at h
  refine ⟨hno, fun hpair => ?_, nofun⟩
  have hlt := length_foldPairs_lt hceil hceilNe hpair
  omega

theorem intact_of_trimLines (hcalls : style.optimize → ¬ HasEmptyCall false (folded style cs))
    (h : trimLines (folded style cs) = cs) : Intact style cs := by
  have hlength : cs.length ≤ (folded style cs).length := by
    conv => lhs; rw [← h]
    exact length_trimLines_le _
  have hpairs (hstyle : style.optimize) := not_hasPair_of_length hstyle hlength
  rw [folded_eq_self hpairs] at h hcalls
  refine ⟨fun hloose => ?_, hpairs, hcalls⟩
  have hlt := length_trimLines_lt hloose
  rw [h] at hlt
  exact Nat.lt_irrefl _ hlt

end Intact

/--
A text that is written as a literal and read again comes back exactly if the writer's last step has
nothing to do in it.
-/
theorem parseText_write_text_iff (style : Style) (text : String)
    : parseText (write style (.text text)) = .ok (.text text) ↔ Intact style text.toList := by
  have hwrite : write style (.text text) =
      String.ofList (cleanUp style ('"' :: inside text.toList)) := by
    rw [write_text_eq, toList_quote]
    rfl
  have hquote (cs : List Char) : '"' :: inside cs = (quote (String.ofList cs)).toList := by
    rw [toList_quote, String.toList_ofList]
    rfl
  by_cases hcalls : style.optimize → ¬ HasEmptyCall false (folded style text.toList)
  . rw [hwrite, cleanUp_of_not_hasEmptyCall hcalls, hquote, String.ofList_toList, parseText_quote,
      Except.ok.injEq, Formula.text.injEq, ← String.toList_inj, String.toList_ofList]
    constructor
    . exact intact_of_trimLines hcalls
    . intro h
      rw [folded_eq_self h.pairs, trimLines_eq_self h.lines]
  . obtain ⟨hstyle, hcall⟩ := Classical.not_imp.mp hcalls
    rw [not_not] at hcall
    obtain ⟨front, back, heq⟩ := exists_cleanUp_of_hasEmptyCall hstyle hcall
    have hliteral : '"' :: (quoteChars front ++ '"' :: '"' :: back) =
        (quote (String.ofList front)).toList ++ '"' :: back := by
      rw [← hquote, inside]
      simp
    rw [hwrite, heq, hliteral]
    refine iff_of_false (parseText_split_literal _ (List.cons_ne_nil _ _)) fun h => ?_
    rw [folded_eq_self h.pairs] at hcall
    exact h.calls hstyle hcall

/--
An empty call in a text is filled like any other, and the quotes end the literal.
-/
theorem empty_call_splits_literal
    : write {} (.text "floor()") = "\"floor(\"\")\"" ∧
      parseText "\"floor(\"\")\"" ≠ .ok (.text "floor()") := by
  refine ⟨by decide +kernel, ?_⟩
  have hliteral : "\"floor(\"\")\"" =
      String.ofList ((quote "floor(").toList ++ ['"', ')', '"']) := by
    decide +kernel
  rw [hliteral]
  exact parseText_split_literal "floor(" (List.cons_ne_nil _ _)

end Typst
end MathMarkup
