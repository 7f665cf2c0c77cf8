import MathMarkup.Proofs.Typst.Regular

/-!
This module contains the proof that the pieces of a regular formula can be told apart once they are
written, from each other and from what follows them.
-/

namespace MathMarkup
namespace Typst

open Text Scan

namespace Formula

/--
Pieces that may follow any formula: they begin neither with a digit nor with a script.
-/
structure Apart (more : List Piece) : Prop where
  not_digit : NotStartsWith Char.isDigit (joined more)
  not_marked : NotMarked more

/--
Pieces that may follow a formula.
-/
structure Meets (node : Formula) (more : List Piece) : Prop where
  not_digit : node.closesWithNumber → NotStartsWith Char.isDigit (joined more)
  not_marked : node.closesSoftly → NotMarked more

/--
A formula that can be told apart from what may follow it.
-/
def Fitting (style : Style) (node : Formula) : Prop :=
  ∀ more, Fits more → Meets node more → Fits (node.spelling style ++ more)

/--
Pieces that can be told apart from what may follow any formula.
-/
def Closable (spelled : List Piece) : Prop :=
  ∀ more, Fits more → Apart more → Fits (spelled ++ more)

section Fits

variable {style : Style} {words : Vocabulary} {node : Formula} {more : List Piece}

theorem Apart.meets (h : Apart more) : Meets node more :=
  ⟨fun _ => h.not_digit, fun _ => h.not_marked⟩

theorem Fitting.closable (h : Fitting style node) : Closable (node.spelling style) :=
  fun more hmore hapart => h more hmore hapart.meets

theorem meets_of_isScriptBase (h : node.isScriptBase) : Meets node more := by
  obtain ⟨_, hnumber, hsoft⟩ := opensWithNumber_of_isScriptBase h
  rw [← Bool.not_eq_true] at hnumber hsoft
  exact ⟨fun h => absurd h hnumber, fun h => absurd h hsoft⟩

theorem notStartsWith_of_head? {p : Char → Bool} (hspace : p ' ' = false) {text : String}
    (hfirst : (tokenTexts more).head? = some text) (hne : text.toList ≠ [])
    (h : NotStartsWith p text.toList) : NotStartsWith p (joined more) := by
  cases more with
  | nil => exact notStartsWith_nil
  | cons piece more =>
    cases piece with
    | softSpace => exact notStartsWith_cons.mpr hspace
    | token other =>
      cases hfirst
      rw [joined, List.flatMap_cons, Piece.chars, notStartsWith_append hne]
      exact h

theorem apart_token {text : String} (hmarker : text ∉ markers) (hne : text.toList ≠ [])
    (hdigit : NotStartsWith Char.isDigit text.toList) : Apart (.token text :: more) := by
  refine ⟨notStartsWith_of_head? rfl rfl hne hdigit, ?_⟩
  rintro _ ⟨⟩
  exact hmarker

theorem Regular.meets {next : Formula} (h : Regular style words next)
    (hnumbers : ¬ (node.closesWithNumber ∧ next.opensWithNumber))
    : Meets node (next.spelling style ++ more) := by
  obtain ⟨text, htext, hopener⟩ := h.exists_opener
  have hfirst := @head?_texts_append _ more _ htext
  constructor
  . intro hnumber
    obtain ⟨c, cs, hc, _⟩ := hopener.first
    apply notStartsWith_of_head? rfl hfirst (by simp [hc])
    apply hopener.notStartsWith (fun _ => isDigit_of_isAlpha) _ (by decide)
    exact fun _ _ hopens => absurd ⟨hnumber, hopens⟩ hnumbers
  . intro _ other hother
    rw [hfirst] at hother
    cases hother
    exact hopener.not_marker

theorem isWord_paren : IsWord "(".toList ∧ IsWord ")".toList :=
  ⟨@IsWord.mark '(' (by decide), @IsWord.mark ')' (by decide)⟩

theorem isWord_call {name : String} (h : Symbol.TypstName name) : IsWord (name ++ "(").toList := by
  rw [String.toList_append]
  exact .call h

def separators : List String :=
  [")", ",", ";", "&"]

theorem separators_spec : ∀ text ∈ separators, IsWord text.toList ∧ text ∉ markers ∧
    text.toList ≠ [] ∧ NotStartsWith Char.isDigit text.toList := by
  simp only [separators, List.forall_mem_cons]
  refine ⟨⟨@IsWord.mark ')' (by decide), by decide⟩, ⟨@IsWord.mark ',' (by decide), by decide⟩,
    ⟨@IsWord.mark ';' (by decide), by decide⟩, ⟨@IsWord.control '&' (by decide), by decide⟩, nofun⟩

theorem apart_separator {text : String} (h : text ∈ separators) : Apart (.token text :: more) := by
  obtain ⟨_, hmarker, hne, hdigit⟩ := separators_spec text h
  exact apart_token hmarker hne hdigit

theorem Closable.before {spelled : List Piece} (h : Closable spelled) {text : String}
    (htext : text ∈ separators) (hmore : Fits more) : Fits (spelled ++ .token text :: more) :=
  h _ (.word (separators_spec text htext).1 hmore) (apart_separator htext)

theorem fits_wrapped {wrap : Bool} {spelled : List Piece} (h : Closable spelled)
    (hplain : wrap = false → Fits (spelled ++ more)) (hmore : Fits more)
    : Fits (wrapped wrap spelled ++ more) := by
  cases wrap with
  | false => exact hplain rfl
  | true =>
    have hinner := h.before (by decide : ")" ∈ separators) hmore
    rw [wrapped, if_pos rfl, parenthesized, List.append_assoc]
    exact .word isWord_paren.1 hinner

theorem fits_nodes {nodes : List Formula}
    (hnumbers : nodes.IsChain fun node next => ¬ (node.closesWithNumber ∧ next.opensWithNumber))
    (h : ∀ node ∈ nodes, Regular style words node ∧ Fitting style node) (hmore : Fits more)
    (hlast : ∀ last ∈ nodes.getLast?, Meets last more)
    : Fits ((nodes.map (spelling style)).flatten ++ more) := by
  induction nodes with
  | nil => exact hmore
  | cons node nodes ih =>
    rw [List.forall_mem_cons] at h
    rw [List.map_cons, List.flatten_cons, List.append_assoc]
    cases nodes with
    | nil => exact h.1.2 _ hmore (hlast node rfl)
    | cons next nodes =>
      rw [List.isChain_cons_cons] at hnumbers
      rw [List.getLast?_cons_cons] at hlast
      apply h.1.2 _ (ih hnumbers.2 h.2 hlast)
      rw [List.map_cons, List.flatten_cons, List.append_assoc]
      exact (h.2 next List.mem_cons_self).1.meets hnumbers.1

theorem closable_nodes {nodes : List Formula}
    (hnumbers : nodes.IsChain fun node next => ¬ (node.closesWithNumber ∧ next.opensWithNumber))
    (h : ∀ node ∈ nodes, Regular style words node ∧ Fitting style node)
    : Closable (nodes.map (spelling style)).flatten :=
  fun _ hmore hapart => fits_nodes hnumbers h hmore fun _ _ => hapart.meets

theorem separated_cons (separator part next : List Piece) (parts : List (List Piece))
    : separated separator (part :: next :: parts) =
      part ++ (separator ++ separated separator (next :: parts)) := by
  simp [separated]

theorem closable_separated {parts : List (List Piece)} {separator : String}
    (hseparator : separator ∈ separators) (h : ∀ part ∈ parts, Closable part)
    : Closable (separated [.token separator] parts) := by
  intro more hmore hapart
  match parts with
  | [] => exact hmore
  | [part] =>
    have hpart := h part (by simp) more hmore hapart
    simpa [separated] using hpart
  | part :: next :: parts =>
    have hrest := closable_separated hseparator
      (fun part hpart => h part (List.mem_cons_of_mem _ hpart)) more hmore hapart
    rw [separated_cons, List.append_assoc]
    exact (h part List.mem_cons_self).before hseparator hrest

theorem closable_grid {rows : List (List Formula)} {rowSep cellSep : String}
    (hrowSep : rowSep ∈ separators) (hcellSep : cellSep ∈ separators)
    (h : ∀ row ∈ rows, ∀ cell ∈ row, Fitting style cell)
    : Closable (grid [.token rowSep] [.token cellSep] (rows.map (List.map (spelling style)))) := by
  refine closable_separated hrowSep ?_
  simp only [List.mem_map, forall_exists_index, and_imp]
  rintro _ _ row hrow rfl rfl
  refine closable_separated hcellSep ?_
  simp only [List.mem_map, forall_exists_index, and_imp]
  rintro _ cell hcell rfl
  exact (h row hrow cell hcell).closable

theorem meets_of_not_wrapped (hwrapped : node.isWrappedScript = false)
    (hdigit : NotStartsWith Char.isDigit (joined more)) : Meets node more := by
  cases node with
  | attach | group | frac => contradiction
  | _ => exact ⟨fun _ => hdigit, nofun⟩

theorem fits_script {marker : Char} (hmarker : marker ∈ ['_', '^', '&']) {script : Option Formula}
    (h : ∀ node ∈ script, Fitting style node) (hmore : Fits more)
    (hdigit : ∀ node ∈ script, node.isWrappedScript = false →
      NotStartsWith Char.isDigit (joined more))
    : Fits (scriptSpelling style (String.ofList [marker]) script ++ more) := by
  cases script with
  | none => exact hmore
  | some node =>
    have hnode := h node rfl
    rw [scriptSpelling, List.cons_append]
    refine .word (String.toList_ofList ▸ .control hmarker) ?_
    refine fits_wrapped hnode.closable (fun hwrapped => ?_) hmore
    exact hnode _ hmore (meets_of_not_wrapped hwrapped (hdigit node rfl hwrapped))

theorem fits_gap {sub sup : Option Formula} (hmore : Fits more) (hmarked : NotMarked more)
    : Fits (scriptGap sub sup ++ more) := by
  unfold scriptGap
  split
  . split
    . exact hmore
    . exact .soft hmarked hmore
  . split
    . exact hmore
    . exact .soft hmarked hmore
  . exact hmore

theorem notStartsWith_gap {sub sup : Option Formula} {last : Formula}
    (hlast : sup = some last ∨ (sup = none ∧ sub = some last)) (h : last.isWrappedScript = false)
    : NotStartsWith Char.isDigit (joined (scriptGap sub sup ++ more)) := by
  have hgap : scriptGap sub sup = [.softSpace] := by
    rcases hlast with rfl | ⟨rfl, rfl⟩
    all_goals simp [scriptGap, h]
  rw [hgap]
  exact notStartsWith_cons.mpr rfl

theorem fits_scripts {sub sup : Option Formula} (hsub : ∀ node ∈ sub, Fitting style node)
    (hsup : ∀ node ∈ sup, Fitting style node) (hmore : Fits more) (hmarked : NotMarked more)
    : Fits (scriptSpelling style "_" sub ++ (scriptSpelling style "^" sup ++
        (scriptGap sub sup ++ more))) := by
  have hgap : Fits (scriptGap sub sup ++ more) := fits_gap hmore hmarked
  have habove : Fits (scriptSpelling style "^" sup ++ (scriptGap sub sup ++ more)) := by
    refine @fits_script _ _ '^' (by decide) _ hsup hgap ?_
    exact fun node hnode => notStartsWith_gap (.inl hnode)
  refine @fits_script _ _ '_' (by decide) _ hsub habove fun node hnode hwrapped => ?_
  cases sup with
  | some above => exact notStartsWith_cons.mpr rfl
  | none => exact notStartsWith_gap (.inr ⟨rfl, hnode⟩) hwrapped

theorem fits_primes (count : Nat) (hmore : Fits more)
    : Fits (List.replicate count (.token "'") ++ more) := by
  induction count with
  | zero => exact hmore
  | succ count ih => exact .word (@IsWord.mark '\'' (by decide)) ih

theorem symbolDelimiters_spec : ∀ name ∈ symbolDelimiters,
    name ∈ ["floor.l", "floor.r", "ceil.l", "ceil.r"] ∨ Symbol.TypstName name := by
  simp only [symbolDelimiters, List.forall_mem_cons]
  repeat'
    first
      | apply And.intro
      | exact List.forall_mem_nil _
      | exact .inr ⟨_, rfl, rfl⟩
      | exact .inl (by decide)

theorem elementDelimiters_spec : ∀ delim ∈ elementDelimiters,
    IsWord delim.toList ∧ delim ∉ markers ∧ NotStartsWith Char.isDigit delim.toList := by
  simp only [elementDelimiters, List.forall_mem_cons]
  repeat'
    first
      | apply And.intro
      | exact List.forall_mem_nil _
      | exact .mark (by decide)
      | exact .escaped (by decide)
      | decide

theorem IsDelimiter.spec {delim : String} (h : IsDelimiter delim)
    : IsWord delim.toList ∧ delim ∉ markers ∧ NotStartsWith Char.isDigit delim.toList := by
  rcases List.mem_append.mp h.1 with hmem | hmem
  . exact elementDelimiters_spec delim hmem
  . have hname := (symbolDelimiters_spec delim hmem).resolve_left h.2
    obtain ⟨c, cs, hc, halpha⟩ := first_name hname
    refine ⟨.name hname, ?_, ?_⟩
    . exact (by decide : ∀ delim ∈ symbolDelimiters, delim ∉ markers) delim hmem
    . rw [hc]
      exact notStartsWith_cons.mpr (isDigit_of_isAlpha halpha)

theorem Fences.isDelimiter {left right : Option String} (h : Fences left right)
    : (∀ delim ∈ left, IsDelimiter delim) ∧ ∀ delim ∈ right, IsDelimiter delim := by
  cases h with
  | parens =>
    constructor
    all_goals
      rintro _ ⟨⟩
      exact ⟨by decide, by decide⟩
  | other _ hleft hright =>
    exact ⟨fun delim h => (hleft delim h).1, fun delim h => (hright delim h).1⟩

theorem fits_leftRight {left right : Option String} {body : Formula} (hfences : Fences left right)
    (hbody : Regular style words body) (hfits : Fitting style body) (hmore : Fits more)
    : Fits ((Formula.leftRight left body right).spelling style ++ more) := by
  obtain ⟨hleft, hright⟩ := hfences.isDelimiter
  have hclose : Fits (.token ")" :: more) := .word isWord_paren.2 hmore
  have hend : Fits (body.spelling style ++ (right.toList.map .token ++ .token ")" :: more)) := by
    cases right with
    | none => exact hfits.closable.before (by decide) hmore
    | some delim =>
      obtain ⟨hword, hmarker, hdigit⟩ := (hright delim rfl).spec
      exact hfits.closable _ (.word hword hclose) (apart_token hmarker hword.ne_nil hdigit)
  rw [spelling_leftRight hbody]
  simp only [List.cons_append, List.append_assoc, List.nil_append]
  refine .word (@isWord_call "lr" ⟨_, rfl, rfl⟩) ?_
  cases left with
  | none => exact hend
  | some delim => exact .word (hleft delim rfl).spec.1 hend

theorem fits_delim {named : List (String × Formula)} (h : MatrixNamed named) (hmore : Fits more)
    : Fits (delimSpelling named ++ more) := by
  have hcomma : Fits (.token "," :: more) := .word (separators_spec "," (by decide)).1 hmore
  have hkey : IsWord "delim:".toList := @IsWord.key "delim" ⟨_, rfl, rfl⟩
  cases h with
  | none => exact hmore
  | bare => exact .word hkey (.nothing hcomma)
  | delim hdelim => exact .word hkey (.word (.quote hdelim) hcomma)

theorem fits_matrix {rows : List (List Formula)} {named : List (String × Formula)}
    (hnamed : MatrixNamed named) (hrows : rows ≠ [])
    (huniform : ∀ row ∈ rows, ∀ cell ∈ row, Uniform style cell)
    (h : ∀ row ∈ rows, ∀ cell ∈ row, Fitting style cell) (hmore : Fits more)
    : Fits ((Formula.matrix rows named).spelling style ++ more) := by
  have hgrid := closable_grid (by decide : ";" ∈ separators) (by decide : "," ∈ separators) h
  rw [spelling_matrix huniform hnamed hrows]
  simp only [List.cons_append, List.append_assoc, List.nil_append]
  exact .word (@isWord_call "mat" ⟨_, rfl, rfl⟩)
    (fits_delim hnamed (hgrid.before (by decide) hmore))

theorem fits_cases {rows : List (List Formula)}
    (huniform : ∀ row ∈ rows, ∀ cell ∈ row, Uniform style cell)
    (h : ∀ row ∈ rows, ∀ cell ∈ row, Fitting style cell) (hmore : Fits more)
    : Fits ((Formula.cases rows []).spelling style ++ more) := by
  have hgrid := closable_grid (by decide : "," ∈ separators) (by decide : "&" ∈ separators) h
  rw [spelling_cases huniform]
  simp only [List.cons_append, List.append_assoc, List.nil_append]
  exact .word (@isWord_call "cases" ⟨_, rfl, rfl⟩) (hgrid.before (by decide) hmore)

theorem meets_of_not_needsParens (h : Regular style words node) (hparens : node.needsParens = false)
    (hdigit : node.isNumber → NotStartsWith Char.isDigit (joined more)) : Meets node more := by
  cases node with
  | attach | frac => contradiction
  | group nodes =>
    rw [h.needsParens_group] at hparens
    contradiction
  | _ => exact ⟨hdigit, nofun⟩

theorem notStartsWith_operand (h : Regular style words node) {wrap : Bool}
    : NotStartsWith (· == '/') (joined (wrapped wrap (node.spelling style) ++ more)) := by
  cases wrap with
  | true => exact notStartsWith_cons.mpr rfl
  | false =>
    obtain ⟨text, htext, hopener⟩ := h.exists_opener
    obtain ⟨c, cs, hc, _⟩ := hopener.first
    apply notStartsWith_of_head? rfl (head?_texts_append htext) (by simp [hc])
    refine hopener.notStartsWith (fun c halpha => ?_) (fun c hdigit _ => ?_) (by decide)
    all_goals
      rw [beq_eq_false_iff_ne]
      rintro rfl
      contradiction

/--
A quotient can be told apart from what may follow it, whichever of its operands are in parentheses.
-/
theorem fits_quotient {num den : Formula} {space wrapNum wrapDen : Bool}
    (hnum : Regular style words num) (hden : Regular style words den)
    (hnumFits : Fitting style num) (hdenFits : Fitting style den)
    (hnumParens : wrapNum = false → num.needsParens = false)
    (hdenParens : wrapDen = false → den.needsParens = false)
    (hspace : space = true → wrapNum = true) (hmore : Fits more)
    (hdigit : den.isNumber → NotStartsWith Char.isDigit (joined more))
    : Fits ((if space then [.softSpace] else []) ++ (wrapped wrapNum (num.spelling style) ++
        .token "/" :: (wrapped wrapDen (den.spelling style) ++ more))) := by
  have hdenominator : Fits (wrapped wrapDen (den.spelling style) ++ more) := by
    refine fits_wrapped hdenFits.closable (fun hplain => ?_) hmore
    exact hdenFits _ hmore (meets_of_not_needsParens hden (hdenParens hplain) hdigit)
  have hslash := Fits.slash (notStartsWith_operand hden) hdenominator
  have hnumerator : Fits (wrapped wrapNum (num.spelling style) ++
      .token "/" :: (wrapped wrapDen (den.spelling style) ++ more)) := by
    refine fits_wrapped hnumFits.closable (fun hplain => ?_) hslash
    exact hnumFits _ hslash
      (meets_of_not_needsParens hnum (hnumParens hplain) fun _ => notStartsWith_cons.mpr rfl)
  cases space with
  | true =>
    rw [hspace rfl] at hnumerator ⊢
    refine .soft ?_ hnumerator
    rintro _ ⟨⟩
    decide
  | false => exact hnumerator

theorem fits_frac {num den : Formula} (hnum : Regular style words num)
    (hden : Regular style words den) (hnumFits : Fitting style num) (hdenFits : Fitting style den)
    (hmore : Fits more) (hmeets : Meets (.frac num den) more)
    : Fits ((Formula.frac num den).spelling style ++ more) := by
  rw [spelling_frac, List.append_assoc, List.append_assoc, List.cons_append]
  exact fits_quotient hnum hden hnumFits hdenFits id id id hmore hmeets.not_digit

theorem Regular.fitting (h : Regular style words node) : Fitting style node := by
  induction h with
  | letter h =>
    intro more hmore _
    rw [(@letter _ words _ h).spelling_atom]
    exact .word (String.toList_ofList ▸ .letter h) hmore
  | sign h =>
    intro more hmore _
    rw [(@sign _ words _ h).spelling_atom]
    simp only [List.mem_cons, List.not_mem_nil, or_false] at h
    rcases h with rfl | rfl
    . exact .word (@IsWord.mark '+' (by decide)) hmore
    . exact .word (@IsWord.mark '=' (by decide)) hmore
  | number h hne =>
    intro more hmore hmeets
    rw [(@number _ words _ h hne).spelling_atom]
    exact .number h hne (hmeets.not_digit (isNumber_of_digits h hne)) hmore
  | symbol hname hinfinity =>
    intro more hmore _
    rw [spelling, pieces]
    refine .word ?_ hmore
    rcases symbolText_cases hinfinity with htext | hmem
    . rw [htext]
      exact .name (words.typstName _ hname)
    . exact .shorthand hmem
  | parens _ hnumbers h ih =>
    intro more hmore _
    have hnodes := closable_nodes hnumbers fun node hnode => ⟨h node hnode, ih node hnode⟩
    rw [spelling_parens]
    exact @fits_wrapped _ true _ hnodes (by simp) hmore
  | group _ _ hnumbers h ih =>
    intro more hmore hmeets
    rw [spelling_group]
    exact closable_nodes hnumbers (fun node hnode => ⟨h node hnode, ih node hnode⟩) _ hmore
      ⟨hmeets.not_digit rfl, hmeets.not_marked rfl⟩
  | @call _ args hname _ h ih =>
    intro more hmore _
    have hargs := @closable_separated (args.map (spelling style)) "," (by decide) ?_
    . rw [spelling_call h, List.cons_append, List.append_assoc]
      exact .word (isWord_call (words.typstName _ hname)) (hargs.before (by decide) hmore)
    . simp only [List.mem_map, forall_exists_index, and_imp]
      rintro _ arg harg rfl
      exact (ih arg harg).closable
  | frac hnum hden _ _ ihnum ihden =>
    intro more hmore hmeets
    exact fits_frac hnum hden ihnum ihden hmore hmeets
  | attach _ hkind _ hsup _ ihbase ihsub ihsup =>
    intro more hmore hmeets
    have hscripts := fits_scripts ihsub ihsup hmore (hmeets.not_marked rfl)
    rw [spelling_attach hkind hsup]
    simp only [List.append_assoc]
    exact ihbase _ hscripts (meets_of_isScriptBase hkind)
  | primed _ hkind _ hcount ihbase ihsub =>
    intro more hmore hmeets
    have hscripts := @fits_scripts _ _ _ none ihsub (by simp) hmore (hmeets.not_marked rfl)
    rw [spelling_primed hkind hcount]
    simp only [List.append_assoc]
    exact ihbase _ (fits_primes _ hscripts) (meets_of_isScriptBase hkind)
  | leftRight hfences hbody _ ih =>
    intro more hmore _
    exact fits_leftRight hfences hbody ih hmore
  | matrix hnamed hrows _ h ih =>
    exact fun more hmore _ => fits_matrix hnamed hrows (uniform_of_regular h) ih hmore
  | cases _ _ h ih => exact fun more hmore _ => fits_cases (uniform_of_regular h) ih hmore

end Fits

end Formula
end Typst
end MathMarkup
