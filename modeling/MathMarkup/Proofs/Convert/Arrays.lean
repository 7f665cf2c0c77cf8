import Mathlib.Algebra.Group.Nat.Defs
import Mathlib.Data.Finset.Filter
import Mathlib.Data.Finset.Insert
import Mathlib.Data.List.Fold
import Mathlib.Data.List.MinMax
import Mathlib.Data.List.Sort
import Mathlib.Order.Nat
import MathMarkup.Proofs.Convert.Grids

/-!
This module contains the proof that the column specification of an array survives the conversion to
Typst and back. On the way the rules become a text with their positions, in which the numbers are
found again.
-/

namespace MathMarkup

open Text

def ruleBar (rules : Finset Nat) (gap : Nat) : List Char :=
  if gap ∈ rules then ['|'] else []

/--
The specification of columns that are all aligned alike, with a bar in each gap that has a rule. The
gap `i` is the one before the column `i`.
-/
def ruledColumns (letter : Char) (rules : Finset Nat) : (columns : Nat) → List Char
  | 0 => ruleBar rules 0
  | columns + 1 => ruledColumns letter rules columns ++ letter :: ruleBar rules (columns + 1)

section Columns

variable {letter : Char} {rules : Finset Nat} {columns : Nat}

theorem mem_ruledColumns {c : Char} (h : c ∈ ruledColumns letter rules columns)
    : c ∈ ['|', letter] := by
  have hbar (gap : Nat) (hc : c ∈ ruleBar rules gap) : c ∈ ['|', letter] := by
    unfold ruleBar at hc
    split at hc
    . exact List.mem_cons.mpr (.inl (List.mem_singleton.mp hc))
    . contradiction
  induction columns with
  | zero => exact hbar 0 h
  | succ columns ih =>
    rw [ruledColumns, List.mem_append, List.mem_cons] at h
    rcases h with h | rfl | h
    . exact ih h
    . simp
    . exact hbar _ h

/--
There is a bar for each occurrence of a gap, so positions without repetition are needed here.
-/
theorem columnSpec_eq {lines : List Nat} (hnodup : lines.Nodup)
    (h : ∀ gap ≤ columns, gap ∈ lines ↔ gap ∈ rules)
    : Tex.OfTypst.columnSpec letter lines columns =
      String.ofList (ruledColumns letter rules columns) := by
  have hbar : ∀ gap ≤ columns,
      ((lines.filter (· == gap)).map fun _ => '|') = ruleBar rules gap := by
    intro gap hgap
    rw [List.filter_beq, List.map_replicate, ruleBar]
    split
    next hmem => rw [List.count_eq_one_of_mem hnodup ((h gap hgap).mpr hmem), List.replicate_one]
    next hmem => rw [List.count_eq_zero_of_not_mem (mt (h gap hgap).mp hmem), List.replicate_zero]
  have hcolumns : ruledColumns letter rules columns =
      ((List.range columns).flatMap fun gap => ruleBar rules gap ++ [letter]) ++
        ruleBar rules columns := by
    clear h hbar
    induction columns with
    | zero => rfl
    | succ columns ih =>
      rw [ruledColumns, ih, List.range_succ, List.flatMap_append]
      simp
  rw [Tex.OfTypst.columnSpec, hcolumns, List.range_succ, List.flatMap_append,
    List.flatMap_singleton, hbar columns le_rfl, if_neg (lt_irrefl columns), List.append_nil]
  congr 2
  apply List.flatMap_congr
  intro gap hgap
  rw [List.mem_range] at hgap
  rw [hbar gap hgap.le, if_pos hgap]

variable (hletter : letter ≠ '|')

include hletter

theorem specColumns_ruledColumns
    : Typst.OfTex.specColumns (ruledColumns letter rules columns) =
        List.replicate columns letter := by
  have hbar (gap : Nat) : (ruleBar rules gap).filter (· != '|') = [] := by
    unfold ruleBar
    split
    all_goals rfl
  rw [Typst.OfTex.specColumns]
  induction columns with
  | zero => exact hbar 0
  | succ columns ih =>
    rw [ruledColumns, List.filter_append, ih, List.filter_cons_of_pos (by simpa using hletter),
      hbar, ← List.replicate_succ']

theorem specLines_ruledColumns
    : Typst.OfTex.specLines 0 (ruledColumns letter rules columns) =
      (List.range (columns + 1)).filter (· ∈ rules) := by
  have happend (before : Nat) (spec more : List Char)
      : Typst.OfTex.specLines before (spec ++ more) = Typst.OfTex.specLines before spec ++
        Typst.OfTex.specLines (before + (Typst.OfTex.specColumns spec).length) more := by
    induction spec generalizing before with
    | nil => rfl
    | cons c spec ih =>
      by_cases hc : c = '|'
      . simp [Typst.OfTex.specLines, Typst.OfTex.specColumns, hc, ih]
      . simp [Typst.OfTex.specLines, Typst.OfTex.specColumns, hc, ih, Nat.add_assoc, Nat.add_comm]
  have hbar (gap : Nat)
      : Typst.OfTex.specLines gap (ruleBar rules gap) = [gap].filter (· ∈ rules) := by
    unfold ruleBar
    split
    all_goals simp [Typst.OfTex.specLines, *]
  induction columns with
  | zero => exact hbar 0
  | succ columns ih =>
    rw [ruledColumns, happend, ih, specColumns_ruledColumns hletter, List.length_replicate,
      Typst.OfTex.specLines, if_neg hletter, Nat.zero_add, hbar, ← List.filter_append,
      ← List.range_succ]

end Columns

namespace Tex.OfTypst

section Integers

variable {word rest : List Char}

/--
Whether a text holds neither numbers nor anything that could change one, and no beginning of
`hline` either.
-/
def Unnumbered (word : List Char) : Prop :=
  ∀ c ∈ word, c.isDigit = false ∧ c ≠ '-' ∧ c ≠ 'h'

theorem integers_append (h : Unnumbered word) (rest : List Char)
    : integers false (word ++ rest) = integers false rest := by
  induction word with
  | nil => rfl
  | cons c word ih =>
    rw [Unnumbered, List.forall_mem_cons] at h
    rw [List.cons_append, integers, if_neg (by simp [h.1.1]), beq_eq_false_iff_ne.mpr h.1.2.1,
      ih h.2]

theorem integers_toString (n : Nat) (hrest : NotStartsWith Char.isDigit rest)
    : integers false ((toString n).toList ++ rest) = (n : Int) :: integers false rest := by
  have hdigits : ∀ c ∈ Nat.toDigits 10 n, c.isDigit := fun c hc =>
    Nat.isDigit_of_mem_toDigits (by decide) (by decide) hc
  have hvalue := @Nat.ofDigitChars_ten_toDigits n
  rw [Nat.toString_eq_ofList_toDigits, String.toList_ofList]
  cases hcs : Nat.toDigits 10 n with
  | nil => exact absurd hcs Nat.toDigits_ne_nil
  | cons digit digits =>
    rw [hcs, Nat.ofDigitChars_eq_foldl] at hvalue
    rw [hcs, List.forall_mem_cons] at hdigits
    rw [List.cons_append, integers, if_pos hdigits.1]
    simp only [takeWhile_append_of_all hdigits.2 hrest, List.drop_left, hvalue]
    rfl

theorem integers_intercalate (n : Nat) (ns : List Nat) (hrest : NotStartsWith Char.isDigit rest)
    : integers false ((", ".intercalate ((n :: ns).map toString)).toList ++ rest) =
      (n :: ns).map Int.ofNat ++ integers false rest := by
  induction ns generalizing n with
  | nil => exact integers_toString n hrest
  | cons next ns ih =>
    have hcomma : Unnumbered ", ".toList := by
      unfold Unnumbered
      decide
    have hnext (cs : List Char) : NotStartsWith Char.isDigit (", ".toList ++ cs) :=
      notStartsWith_cons.mpr rfl
    rw [List.map_cons, List.map_cons, String.intercalate_cons_cons, ← List.map_cons,
      String.toList_append, String.toList_append, List.append_assoc, List.append_assoc,
      integers_toString n (hnext _), integers_append hcomma, ih]
    rfl

theorem not_mem_intercalate (ns : List Nat)
    : 'h' ∉ (", ".intercalate (ns.map toString)).toList := by
  have hdigits (n : Nat) : 'h' ∉ (toString n).toList := by
    rw [Nat.toString_eq_ofList_toDigits, String.toList_ofList]
    intro hmem
    exact absurd (Nat.isDigit_of_mem_toDigits (by decide) (by decide) hmem) (by decide)
  match ns with
  | [] => decide
  | [n] => exact hdigits n
  | n :: next :: ns =>
    rw [List.map_cons, List.map_cons, String.intercalate_cons_cons, ← List.map_cons]
    simp only [String.toList_append, List.mem_append, not_or]
    exact ⟨⟨hdigits n, by decide⟩, not_mem_intercalate (next :: ns)⟩

end Integers

/--
The text that is written for rules mentions no horizontal ones, and their positions are found in it.
-/
theorem exists_augment {lines : List Nat} (h : lines ≠ [])
    : ∃ text : String, Typst.OfTex.augmentArgument lines = [("augment", .symbol text)] ∧
        findFirst? "hline".toList text.toList = none ∧
        integers false text.toList = lines.map Int.ofNat := by
  have hform : ∃ front back, Typst.OfTex.augmentArgument lines =
      [("augment", .symbol (front ++ ", ".intercalate (lines.map toString) ++ back))] ∧
        (front, back) ∈ [("#", ""), ("#(vline: (", "))")] := by
    match lines with
    | [line] => exact ⟨"#", "", by simp [Typst.OfTex.augmentArgument], by decide⟩
    | _ :: _ :: _ => exact ⟨_, _, rfl, by decide⟩
  have hplain : ∀ pair ∈ [("#", ""), ("#(vline: (", "))")],
      Unnumbered pair.1.toList ∧ Unnumbered pair.2.toList := by
    unfold Unnumbered
    decide
  obtain ⟨front, back, htext, hpair⟩ := hform
  obtain ⟨hfront, hback⟩ := hplain _ hpair
  refine ⟨_, htext, ?_, ?_⟩
  . rw [Option.eq_none_iff_forall_ne_some]
    intro before hbefore
    obtain ⟨after, hafter⟩ := append_of_findFirst? hbefore
    have hmem : 'h' ∈ (front ++ ", ".intercalate (lines.map toString) ++ back).toList := by
      rw [hafter]
      simp
    simp only [String.toList_append, List.mem_append] at hmem
    rcases hmem with (hmem | hmem) | hmem
    . exact (hfront _ hmem).2.2 rfl
    . exact not_mem_intercalate lines hmem
    . exact (hback _ hmem).2.2 rfl
  . obtain ⟨line, lines, rfl⟩ := List.exists_cons_of_ne_nil h
    have hend : integers false (back.toList ++ []) = [] := by
      rw [integers_append hback, integers]
    rw [List.append_nil] at hend
    rw [String.toList_append, String.toList_append, List.append_assoc, integers_append hfront,
      integers_intercalate _ _ fun c hc => (hback c (List.mem_of_mem_head? hc)).1, hend,
      List.append_nil]

section Repeats

variable {line : Nat} {lines : List Nat}

theorem mem_dropRepeats : line ∈ dropRepeats lines ↔ line ∈ lines := by
  fun_induction dropRepeats lines with
  | case1 first lines ih => simp [ih]
  | case2 first second lines hne ih => simp [ih]
  | case3 lines => rfl

/--
What is in order and has no equal neighbours increases from each place to the next.
-/
theorem pairwise_dropRepeats (h : lines.Pairwise (· ≤ ·))
    : (dropRepeats lines).Pairwise (· < ·) := by
  fun_induction dropRepeats lines with
  | case1 first lines ih => exact ih h.of_cons
  | case2 first second lines hne ih =>
    rw [List.pairwise_cons] at h ⊢
    refine ⟨fun line hline => ?_, ih h.2⟩
    rw [mem_dropRepeats, List.mem_cons] at hline
    have hfirst := h.1 second List.mem_cons_self
    rcases hline with rfl | hline
    . omega
    . have := (List.pairwise_cons.mp h.2).1 line hline
      omega
  | case3 lines hshort =>
    match lines with
    | [] => exact .nil
    | [line] => exact List.pairwise_singleton _ line
    | first :: second :: lines => exact absurd rfl (hshort first second lines)

end Repeats

section Positions

variable {value : List Char} {columns line : Nat}

theorem pairwise_augmentLines (value : List Char) (columns : Nat)
    : (augmentLines value columns).Pairwise (· < ·) := by
  apply pairwise_dropRepeats
  apply List.pairwise_mergeSort'

theorem nodup_augmentLines (value : List Char) (columns : Nat)
    : (augmentLines value columns).Nodup :=
  (pairwise_augmentLines value columns).imp fun h => h.ne

theorem mem_augmentLines_iff
    : line ∈ augmentLines value columns ↔
      ∃ n ∈ integers false value, isWord n ∧ linePosition columns n = line := by
  simp only [augmentLines, mem_dropRepeats, List.mem_mergeSort, List.mem_map, List.mem_filter,
    and_assoc]

end Positions

theorem columnLines_augment {lines : List Nat} {columns : Nat} (h : ∀ line ∈ lines, line ≤ columns)
    : ∃ found, columnLines {} columns ((Typst.OfTex.augmentArgument lines).lookup "augment") =
        .ok found ∧ found.Nodup ∧ ∀ line, line ∈ found ↔ line ∈ lines ∧ line < 2 ^ 63 := by
  by_cases hne : lines = []
  . exact ⟨[], by rw [hne]; rfl, .nil, by simp [hne]⟩
  obtain ⟨text, htext, hfind, hnumbers⟩ := exists_augment hne
  refine ⟨augmentLines text.toList columns, ?_, nodup_augmentLines _ _, fun line => ?_⟩
  . rw [htext]
    simp only [List.lookup_cons_self, columnLines, hfind]
  . have hword (n : Nat) : isWord (Int.ofNat n) ↔ n < 2 ^ 63 := by
      rw [isWord, Bool.and_eq_true, decide_eq_true_iff, decide_eq_true_iff, Int.ofNat_eq_natCast]
      omega
    have hposition {n : Nat} (hn : n ∈ lines) (hbits : n < 2 ^ 63)
        : linePosition columns (Int.ofNat n) = n := by
      have := h n hn
      rw [linePosition, lineFromStart, lastLine, Int.ofNat_eq_natCast, if_neg (by omega)]
      omega
    rw [mem_augmentLines_iff, hnumbers]
    simp only [List.mem_map]
    constructor
    . rintro ⟨_, ⟨n, hn, rfl⟩, hbits, rfl⟩
      rw [hword] at hbits
      rw [hposition hn hbits]
      exact ⟨hn, hbits⟩
    . rintro ⟨hline, hbits⟩
      exact ⟨_, ⟨line, hline, rfl⟩, (hword line).mpr hbits, hposition hline hbits⟩

/--
The named arguments of a matrix that an array with these columns and rules becomes.
-/
structure ArrayNamed (letter : Char) (lines : List Nat) (named : List (String × Typst.Formula)) :
    Prop where
  delim : named.lookup "delim" = some .nothing
  align : columnLetter (named.lookup "align") = .ok letter
  augment : named.lookup "augment" = (Typst.OfTex.augmentArgument lines).lookup "augment"
  foreign : foreignArgument? named = none
  shown : letter ≠ 'c' ∨ lines ≠ [] →
    ((named.lookup "align").isNone && (named.lookup "augment").isNone) = false

theorem arrayNamed_of_letter {letter : Char} {columns : Nat} (hletter : letter ∈ ['l', 'c', 'r'])
    (hcolumns : 1 ≤ columns) (spec : List Char) (lines : List Nat)
    : ∃ align, Typst.OfTex.alignArgument {} spec (List.replicate columns letter) = .ok align ∧
        ArrayNamed letter lines
          (("delim", .nothing) :: align ++ Typst.OfTex.augmentArgument lines) := by
  obtain ⟨columns, rfl⟩ := Nat.exists_eq_add_of_le' hcolumns
  have halign : Typst.OfTex.alignArgument {} spec (List.replicate (columns + 1) letter) =
      .ok (if letter = 'l' then [("align", .symbol "#left")]
        else if letter = 'r' then [("align", .symbol "#right")] else []) := by
    have hhead : (List.replicate (columns + 1) letter).head? = some letter := rfl
    have hall : (List.replicate (columns + 1) letter).all (some · == some letter) = true := by simp
    rw [Typst.OfTex.alignArgument, hhead, hall]
    simp only [List.mem_cons, List.not_mem_nil, or_false] at hletter
    rcases hletter with rfl | rfl | rfl
    all_goals rfl
  refine ⟨_, halign, ?_⟩
  have haugment : Typst.OfTex.augmentArgument lines = [] ∧ lines = [] ∨
      ∃ text, Typst.OfTex.augmentArgument lines = [("augment", .symbol text)] := by
    by_cases hne : lines = []
    . exact .inl ⟨by rw [hne]; rfl, hne⟩
    . obtain ⟨text, htext, _⟩ := exists_augment hne
      exact .inr ⟨text, htext⟩
  simp only [List.mem_cons, List.not_mem_nil, or_false] at hletter
  rcases haugment with ⟨htext, rfl⟩ | ⟨text, htext⟩
  all_goals
    rw [htext]
    rcases hletter with rfl | rfl | rfl
    all_goals exact ⟨rfl, rfl, by rw [htext]; rfl, rfl, by simp [List.lookup_cons]⟩

theorem matrix_of_arrayNamed {letter : Char} {lines found : List Nat}
    {named : List (String × Typst.Formula)} {rows : List (List Formula)} {columns : Nat}
    (h : ArrayNamed letter lines named) (hshown : letter ≠ 'c' ∨ lines ≠ [])
    (hcolumns : (rows.map List.length).foldl max 0 = columns)
    (hfound : columnLines {} columns ((Typst.OfTex.augmentArgument lines).lookup "augment") =
      .ok found)
    : matrix {} named rows = .ok (.env "array" (some (columnSpec letter found columns)) rows) := by
  have hspec : arraySpec {} named columns = .ok (columnSpec letter found columns) := by
    rw [arraySpec, h.align, h.augment, hfound]
    rfl
  rw [matrix, h.delim, h.foreign]
  simp only [matrixFrame, bind, Except.bind, h.shown hshown, hcolumns, hspec]
  rfl

end Tex.OfTypst

section Arrays

variable {letter : Char} {rules : Finset Nat} {columns : Nat}

theorem array_ruledColumns (hletter : letter ∈ ['l', 'c', 'r']) (hcolumns : 1 ≤ columns)
    (rows : List (List Typst.Formula))
    : ∃ named, Tex.OfTypst.ArrayNamed letter ((List.range (columns + 1)).filter (· ∈ rules)) named ∧
        Typst.OfTex.array {} (String.ofList (ruledColumns letter rules columns)) rows =
          .ok (.matrix rows named) := by
  have hspec : ∀ letter ∈ ['l', 'c', 'r'], letter ≠ '|' ∧
      Typst.OfTex.isColumnSpec ['|', letter] = true ∧ ∀ c ∈ ['|', letter], isBlank c = false := by
    decide
  obtain ⟨hbar, hvalid, hsolid⟩ := hspec letter hletter
  have hblank : (ruledColumns letter rules columns).filter (fun c => !isBlank c) =
      ruledColumns letter rules columns := by
    apply List.filter_eq_self.mpr
    intro c hc
    simp [hsolid c (mem_ruledColumns hc)]
  have hcolumn : letter ∈ Typst.OfTex.specColumns (ruledColumns letter rules columns) := by
    rw [specColumns_ruledColumns hbar]
    exact List.mem_replicate.mpr ⟨by omega, rfl⟩
  have hvalid : Typst.OfTex.isColumnSpec (ruledColumns letter rules columns) = true := by
    rw [Typst.OfTex.isColumnSpec, Bool.and_eq_true, List.all_eq_true, List.any_eq_true]
      at hvalid ⊢
    exact ⟨fun c hc => hvalid.1 c (mem_ruledColumns hc), letter, List.mem_filter.mp hcolumn⟩
  obtain ⟨align, halign, hnamed⟩ := Tex.OfTypst.arrayNamed_of_letter hletter hcolumns
    (ruledColumns letter rules columns) ((List.range (columns + 1)).filter (· ∈ rules))
  refine ⟨_, hnamed, ?_⟩
  rw [Typst.OfTex.array, String.toList_ofList, hblank, if_pos hvalid, specColumns_ruledColumns hbar,
    specLines_ruledColumns hbar, halign]
  rfl

theorem foldl_max_length {α β : Type} (f : α → β) {rows : List (List α)}
    (hlongest : ∃ row ∈ rows, row.length = columns) (hrows : ∀ row ∈ rows, row.length ≤ columns)
    : ((rows.map (List.map f)).map List.length).foldl max 0 = columns := by
  rw [List.foldl_eq_foldr, List.map_map]
  change List.foldr max ⊥ _ = columns
  apply le_antisymm
  . apply List.max_le_of_forall_le
    simpa using hrows
  . obtain ⟨row, hrow, hlength⟩ := hlongest
    apply List.le_max_of_le (List.mem_map_of_mem hrow)
    simp [hlength]

/--
An array whose columns are all aligned alike comes back from Typst with the same specification.
Positions of rules are read as signed words; a specification with a rule beyond these would be
longer than any that fits into memory. Without rules, columns that are centred would make it a
plain matrix.
-/
theorem ofTypst_ofTex_array {letter : Char} {rules : Finset Nat} {columns : Nat}
    {rows : List (List (Option Letter))} (hletter : letter ∈ ['l', 'c', 'r'])
    (hcolumns : 1 ≤ columns) (hrules : ∀ gap ∈ rules, gap ≤ columns)
    (hshown : letter = 'c' → rules.Nonempty)
    (hlongest : ∃ row ∈ rows, row.length = columns) (hrows : ∀ row ∈ rows, row.length ≤ columns)
    : let spec := String.ofList (ruledColumns letter rules columns)
      let array := Tex.Formula.env "array" (some spec) (rows.map (List.map Tex.Formula.ofCell))
      ∃ matrix, Typst.Formula.ofTex {} array = .ok matrix ∧
        (Tex.Formula.ofTypst {} matrix = .ok array ↔ ∀ gap ∈ rules, gap < 2 ^ 63) := by
  intro spec array
  have hbar : letter ≠ '|' := by
    rintro rfl
    contradiction
  have hlines (gap : Nat) : gap ∈ (List.range (columns + 1)).filter (· ∈ rules) ↔
      gap ≤ columns ∧ gap ∈ rules := by
    rw [List.mem_filter, List.mem_range, decide_eq_true_iff, Nat.lt_succ_iff]
  have hshown : letter ≠ 'c' ∨ (List.range (columns + 1)).filter (· ∈ rules) ≠ [] := by
    by_cases hc : letter = 'c'
    . obtain ⟨gap, hgap⟩ := hshown hc
      exact .inr (List.ne_nil_of_mem ((hlines gap).mpr ⟨hrules gap hgap, hgap⟩))
    . exact .inl hc
  obtain ⟨named, hnamed, hforth⟩ := @array_ruledColumns _ rules _ hletter hcolumns
    (rows.map (List.map Typst.Formula.ofCell))
  obtain ⟨found, hfound, hnodup, hmem⟩ := Tex.OfTypst.columnLines_augment fun gap hgap =>
    ((hlines gap).mp hgap).1
  have hspec := @columnSpec_eq letter (rules.filter (· < 2 ^ 63)) columns found hnodup
    fun gap hgap => by
      rw [hmem, hlines, Finset.mem_filter]
      tauto
  have hback := Tex.OfTypst.matrix_of_arrayNamed hnamed hshown
    (foldl_max_length Tex.Formula.ofCell hlongest hrows) hfound
  refine ⟨_, (Tex.Formula.bind_of_ok (rows_ofCell rows).1).trans hforth, ?_⟩
  have hresult : Tex.Formula.ofTypst {} (.matrix (rows.map (List.map Typst.Formula.ofCell)) named) =
      .ok (.env "array" (some (String.ofList
        (ruledColumns letter (rules.filter (· < 2 ^ 63)) columns)))
          (rows.map (List.map Tex.Formula.ofCell))) :=
    (Tex.Formula.bind_of_ok (rows_ofCell rows).2).trans (hback.trans (by rw [hspec]))
  rw [hresult]
  constructor
  . intro heq gap hgap
    have hcolumns : ruledColumns letter (rules.filter (· < 2 ^ 63)) columns =
        ruledColumns letter rules columns := by
      simpa [array, spec, String.ofList_inj] using heq
    have hsame := congrArg (Typst.OfTex.specLines 0) hcolumns
    rw [specLines_ruledColumns hbar, specLines_ruledColumns hbar] at hsame
    have hkept := (hlines gap).mpr ⟨hrules gap hgap, hgap⟩
    rw [← hsame] at hkept
    simp only [List.mem_filter, decide_eq_true_eq, Finset.mem_filter] at hkept
    exact hkept.2.2
  . intro hbits
    rw [Finset.filter_true_of_mem hbits]

theorem ofTypst_ofTex_array_framed
    : ∃ matrix,
        Typst.Formula.ofTex {} (.env "array" (some "|rr|")
          [[.element "a"], [.element "b", .element "c"]]) = .ok matrix ∧
        Tex.Formula.ofTypst {} matrix =
          .ok (.env "array" (some "|rr|") [[.element "a"], [.element "b", .element "c"]]) := by
  obtain ⟨matrix, hforth, hback⟩ := @ofTypst_ofTex_array 'r' {0, 2} 2
    [[some ⟨'a', rfl⟩], [some ⟨'b', rfl⟩, some ⟨'c', rfl⟩]] (by decide) (by decide) (by decide)
    (by decide) ⟨_, List.mem_cons_of_mem _ List.mem_cons_self, rfl⟩ (by decide)
  exact ⟨matrix, hforth, hback.mpr (by decide)⟩

end Arrays

end MathMarkup
