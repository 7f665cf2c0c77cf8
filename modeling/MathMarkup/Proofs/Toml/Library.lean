import Mathlib.Data.List.Basic
import MathMarkup.Proofs.Text
import MathMarkup.Proofs.Toml.Forms

/-!
This module contains that the library for TOML writes and reads the forms that are assumed of one. A
document is read line by line, so that each line of it adds one assignment.
-/

namespace MathMarkup
namespace Toml

/-! ## Strings -/

section Characters

variable {c : Char}

theorem isTextChar_of_not_isControl (h : isControl c = false) : isTextChar c := by
  simp only [isControl, Bool.or_eq_false_iff, decide_eq_false_iff_not, Nat.not_lt,
    beq_eq_false_iff_ne] at h
  simp [isTextChar, h]

theorem basicChar_eq (h : isControl c = false) (hquote : c ≠ '"') (hbackslash : c ≠ '\\')
    : basicChar c = [c] := by
  unfold basicChar
  split
  case h_8 => rw [if_pos (isTextChar_of_not_isControl h)]
  all_goals simp_all [isControl]

end Characters

section Strings

variable {text form : String} {cs rest : List Char}

theorem basicString?_append (h : ∀ c ∈ cs, isControl c = false ∧ c ≠ '"' ∧ c ≠ '\\')
    (rest : List Char) : basicString? (cs ++ '"' :: rest) = some (cs, cs.length + 1) := by
  induction cs with
  | nil => simp [basicString?]
  | cons c cs ih =>
    rw [List.forall_mem_cons] at h
    have htext := isTextChar_of_not_isControl h.1.1
    rw [List.cons_append, basicString?.eq_def]
    split
    all_goals simp_all [consChar, Nat.add_comm]

theorem literalString?_append (h : ∀ c ∈ cs, isControl c = false ∧ c ≠ '\'') (rest : List Char)
    : literalString? (cs ++ '\'' :: rest) = some (cs, cs.length + 1) := by
  induction cs with
  | nil => simp [literalString?]
  | cons c cs ih =>
    rw [List.forall_mem_cons] at h
    have htext := isTextChar_of_not_isControl h.1.1
    rw [List.cons_append, literalString?.eq_def]
    split
    all_goals simp_all [consChar, Nat.add_comm]

theorem Quotes.lineString?_append (h : Quotes text form) (rest : List Char)
    : lineString? (form.toList ++ rest) = some (text, form.toList.length) := by
  cases h with
  | double h => simp [lineString?, basicString?_append h]
  | single h => simp [lineString?, literalString?_append h]

theorem Quotes.exists_head (h : Quotes text form)
    : ∃ quote tail, form.toList = quote :: tail ∧ (quote = '"' ∨ quote = '\'') := by
  cases h with
  | double => exact ⟨_, _, by simp; rfl, .inl rfl⟩
  | single => exact ⟨_, _, by simp; rfl, .inr rfl⟩

/--
At the end of a line two quotes are an empty string and not the beginning of one on several lines.
-/
theorem string?_eq_lineString? {quote : Char} (hquote : quote = '"' ∨ quote = '\'') (h : quote ∉ cs)
    (rest : List Char)
    : string? (quote :: (cs ++ quote :: '\n' :: rest)) =
      lineString? (quote :: (cs ++ quote :: '\n' :: rest)) := by
  cases cs with
  | nil => rcases hquote with rfl | rfl <;> rfl
  | cons c cs =>
    rw [List.mem_cons, not_or] at h
    unfold string?
    split
    all_goals simp_all

theorem Quotes.string?_append (h : Quotes text form) (rest : List Char)
    : string? (form.toList ++ '\n' :: rest) = some (text, form.toList.length) := by
  rw [← h.lineString?_append ('\n' :: rest)]
  cases h with
  | double h =>
    have hquote : '"' ∉ text.toList := fun hmem => (h _ hmem).2.1 rfl
    simpa using string?_eq_lineString? (.inl rfl) hquote rest
  | single h =>
    have hquote : '\'' ∉ text.toList := fun hmem => (h _ hmem).2 rfl
    simpa using string?_eq_lineString? (.inr rfl) hquote rest

end Strings

/-! ## Lines -/

theorem blanks_eq_zero {c : Char} (hspace : c ≠ ' ') (htab : c ≠ '\t') (cs : List Char)
    : blanks (c :: cs) = 0 := by
  simp [blanks, hspace, htab]

@[simp]
theorem blanks_space (cs : List Char) : blanks (' ' :: cs) = blanks cs + 1 := by
  simp [blanks]

section Keys

variable {key form : String} {rest : List Char}

theorem KeyForm.exists_head (h : KeyForm key form)
    : ∃ c tail, form.toList = c :: tail ∧ (isBareChar c ∨ c = '"' ∨ c = '\'') := by
  cases h with
  | bare hne h =>
    obtain ⟨c, tail, heq⟩ := List.exists_cons_of_ne_nil (mt String.toList_eq_nil_iff.mp hne)
    exact ⟨c, tail, heq, .inl (h c (heq ▸ List.mem_cons_self))⟩
  | quotes h =>
    obtain ⟨quote, tail, heq, hquote⟩ := h.exists_head
    exact ⟨quote, tail, heq, .inr hquote⟩

theorem KeyForm.key?_append (h : KeyForm key form) (hrest : Text.NotStartsWith isBareChar rest)
    : key? (form.toList ++ rest) = some (key, form.toList.length) := by
  cases h with
  | bare hne h =>
    rw [key?, Text.takeWhile_append_of_all h hrest]
    split
    next hnil => exact absurd (String.toList_eq_nil_iff.mp hnil) hne
    next => rw [String.ofList_toList]
  | quotes h =>
    obtain ⟨quote, tail, heq, hquote⟩ := h.exists_head
    have hbare : isBareChar quote = false := by
      rcases hquote with rfl | rfl
      all_goals rfl
    rw [← h.lineString?_append rest, heq, List.cons_append, key?,
      List.takeWhile_cons_of_neg (by simp [hbare])]

theorem KeyForm.blanks_append (h : KeyForm key form) (rest : List Char)
    : blanks (form.toList ++ rest) = 0 := by
  obtain ⟨c, tail, heq, hc⟩ := h.exists_head
  rw [heq, List.cons_append]
  refine blanks_eq_zero ?_ ?_ _ <;> (rintro rfl; revert hc; decide)

theorem anyKeyPath?_of_key {cs : List Char} {size : Nat} (hblanks : blanks cs = 0)
    (hkey : key? cs = some (key, size))
    (hpoint : ((cs.drop size).drop (blanks (cs.drop size))).head? ≠ some '.')
    : anyKeyPath? cs = some (⟨[], key⟩, size + blanks (cs.drop size)) := by
  rw [List.drop_drop] at hpoint
  rw [anyKeyPath?]
  simp only [hblanks, List.drop_zero, hkey, Nat.zero_add]
  rw [Option.bind_eq_bind, Option.bind_some]
  split
  next heq =>
    simp only [hblanks, Nat.zero_add] at heq
    rw [heq] at hpoint
    contradiction
  next => rfl

theorem KeyForm.keyPath?_append (h : KeyForm key form)
    (hrest : Text.NotStartsWith isBareChar rest)
    (hpoint : (rest.drop (blanks rest)).head? ≠ some '.')
    : keyPath? (form.toList ++ rest) = some (⟨[], key⟩, form.toList.length + blanks rest) := by
  have hpath := anyKeyPath?_of_key (h.blanks_append rest) (h.key?_append hrest)
    (by rwa [List.drop_left])
  rw [List.drop_left] at hpath
  simp [keyPath?, hpath, depthLimit]

end Keys

section Values

variable {value : Scalar} {key keyForm form : String}

theorem value?_of_string? {c : Char} {cs : List Char} {text : String} {used : Nat}
    (harray : c ≠ '[') (htable : c ≠ '\x7b') (h : string? (c :: cs) = some (text, used))
    : value? 0 (c :: cs) = some (.string text, used) := by
  rw [value?.eq_def]
  split
  all_goals simp_all

theorem ScalarForm.value?_append (h : ScalarForm value form) (rest : List Char)
    : value? 0 (form.toList ++ '\n' :: rest) = some (value.toValue, form.toList.length) := by
  cases h with
  | boolean value =>
    cases value
    . show value? 0 ('f' :: 'a' :: 'l' :: 's' :: 'e' :: '\n' :: rest) = _
      rw [value?.eq_def]
      rfl
    . show value? 0 ('t' :: 'r' :: 'u' :: 'e' :: '\n' :: rest) = _
      rw [value?.eq_def]
      rfl
  | quotes h =>
    have hread := h.string?_append rest
    obtain ⟨quote, tail, heq, hquote⟩ := h.exists_head
    rw [heq, List.cons_append] at hread ⊢
    refine value?_of_string? ?_ ?_ hread <;> (rintro rfl; simp at hquote)

theorem ScalarForm.blanks_append (h : ScalarForm value form) (rest : List Char)
    : blanks (form.toList ++ rest) = 0 := by
  cases h with
  | boolean value => cases value <;> rfl
  | quotes h => exact (KeyForm.quotes h).blanks_append rest

theorem assignment?_of_read {cs rest : List Char} {path : KeyPath} {value : Value} {size used : Nat}
    (hpath : keyPath? cs = some (path, size)) (hrest : cs.drop size = '=' :: rest)
    (hvalue : value? 0 (rest.drop (blanks rest)) = some (value, used))
    : assignment? 0 cs = some (⟨path, value⟩,
        size + 1 + blanks rest + used + blanks (cs.drop (size + 1 + blanks rest + used))) := by
  rw [assignment?]
  simp only [hpath]
  rw [Option.bind_eq_bind, Option.bind_some]
  split
  next tail heq =>
    obtain rfl : rest = tail := (List.cons.inj (hrest.symm.trans heq)).2
    simp only [hvalue]
    rfl
  next hne => exact absurd hrest (hne rest)

theorem assignment?_append (hkey : KeyForm key keyForm) (hvalue : ScalarForm value form)
    (rest : List Char)
    : assignment? 0 (keyForm.toList ++ [' ', '=', ' '] ++ form.toList ++ '\n' :: rest) =
      some (⟨⟨[], key⟩, value.toValue⟩,
        (keyForm.toList ++ [' ', '=', ' '] ++ form.toList).length) := by
  have hsplit : keyForm.toList ++ [' ', '=', ' '] ++ form.toList ++ '\n' :: rest =
      keyForm.toList ++ ' ' :: '=' :: ' ' :: (form.toList ++ '\n' :: rest) := by
    simp
  have hpath : keyPath? (keyForm.toList ++ [' ', '=', ' '] ++ form.toList ++ '\n' :: rest) =
      some (⟨[], key⟩, keyForm.toList.length + 1) := by
    rw [hsplit]
    exact hkey.keyPath?_append (by rw [Text.notStartsWith_cons]; rfl) (by simp [blanks])
  have hequals : (keyForm.toList ++ [' ', '=', ' '] ++ form.toList ++ '\n' :: rest).drop
      (keyForm.toList.length + 1) = '=' :: ' ' :: (form.toList ++ '\n' :: rest) := by
    rw [hsplit, ← List.drop_drop, List.drop_left]
    rfl
  have hblanks : blanks (' ' :: (form.toList ++ '\n' :: rest)) = 1 := by
    rw [blanks_space, hvalue.blanks_append]
  have hread : value? 0 ((' ' :: (form.toList ++ '\n' :: rest)).drop 1) =
      some (value.toValue, form.toList.length) :=
    hvalue.value?_append rest
  have hsize : keyForm.toList.length + 1 + 1 + 1 + form.toList.length =
      (keyForm.toList ++ [' ', '=', ' '] ++ form.toList).length := by
    simp only [List.length_append, List.length_cons, List.length_nil]
  have hassignment := assignment?_of_read hpath hequals (by rwa [hblanks])
  rwa [hblanks, hsize, List.drop_left] at hassignment

end Values

/-! ## Statements -/

def assign (entry : String × Value) : Assignment :=
  ⟨⟨[], entry.1⟩, entry.2⟩

section Statements

variable {key keyForm form : String} {value : Scalar}

theorem statement?_of_key (hkey : KeyForm key form) (rest : List Char)
    : statement? (form.toList ++ rest) =
      (assignment? 0 (form.toList ++ rest)).map fun (assignment, size) =>
        (some (.assign assignment), size) := by
  obtain ⟨c, tail, heq, hc⟩ := hkey.exists_head
  have hmarks : ∀ d ∈ ['[', '#', '\n', '\r'], ¬(isBareChar d ∨ d = '"' ∨ d = '\'') := by decide
  have hother : ∀ d ∈ ['[', '#', '\n', '\r'], c ≠ d := fun d hd h => hmarks d hd (h ▸ hc)
  simp only [List.mem_cons, List.not_mem_nil, or_false, forall_eq_or_imp, forall_eq] at hother
  obtain ⟨hbracket, hcomment, hnewline, hreturn⟩ := hother
  rw [statement?, hkey.blanks_append, List.drop_zero, heq, List.cons_append]
  split
  all_goals simp_all

theorem statements?_of_line (cs rest : List Char) {statement : Option Statement}
    (h : statement? (cs ++ '\n' :: rest) = some (statement, cs.length))
    : statements? (cs ++ '\n' :: rest) = (statements? rest).map (statement.toList ++ ·) := by
  have htrailer : trailer ('\n' :: rest) = 0 := rfl
  have hend : (cs ++ '\n' :: rest).drop
      (cs.length + trailer ((cs ++ '\n' :: rest).drop cs.length)) = '\n' :: rest := by
    rw [List.drop_left, htrailer, Nat.add_zero, List.drop_left]
  rw [statements?, h, Option.bind_eq_bind, Option.bind_some]
  dsimp only
  split
  next heq => exact absurd (hend.symm.trans heq) (List.cons_ne_nil _ _)
  next tail heq =>
    obtain rfl : rest = tail := (List.cons.inj (hend.symm.trans heq)).2
    cases statements? rest <;> rfl
  next heq => exact absurd (List.cons.inj (hend.symm.trans heq)).1 (by decide)
  next hnewline _ => exact absurd hend (hnewline rest)

theorem statement?_header {c : Char} {cs tail : List Char} {path : KeyPath} {size : Nat}
    (hc : c ≠ '[') (hpath : keyPath? (c :: cs) = some (path, size))
    (hend : (c :: cs).drop size = ']' :: tail)
    : statement? ('[' :: c :: cs) = some (some (.header path), size + 2) := by
  simp [statement?, blanks, hc, hpath, hend]

/--
An empty line, and the header of a table on the next one.
-/
theorem statements?_header (hkey : KeyForm key form) (rest : List Char)
    : statements? ('\n' :: '[' :: (form.toList ++ ']' :: '\n' :: rest)) =
      (statements? rest).map (.header ⟨[], key⟩ :: ·) := by
  have hempty := statements?_of_line [] ('[' :: (form.toList ++ ']' :: '\n' :: rest)) rfl
  have hpath : keyPath? (form.toList ++ ']' :: '\n' :: rest) =
      some (⟨[], key⟩, form.toList.length) :=
    hkey.keyPath?_append (by rw [Text.notStartsWith_cons]; rfl) (by simp [blanks])
  have hend : (form.toList ++ ']' :: '\n' :: rest).drop form.toList.length = ']' :: '\n' :: rest :=
    List.drop_left
  obtain ⟨c, tail, heq, hc⟩ := hkey.exists_head
  have hbracket : c ≠ '[' := by
    rintro rfl
    simp [isBareChar] at hc
  rw [heq] at hpath hend hempty ⊢
  have hline := statements?_of_line ('[' :: c :: tail ++ [']']) rest
    (by simpa using statement?_header hbracket hpath hend)
  simp_all

theorem LinesForm.statements?_append {lines : Lines} {text : String} (h : LinesForm lines text)
    (rest : List Char)
    : statements? (text.toList ++ rest) =
      (statements? rest).map ((lines.entries.map fun entry => .assign (assign entry)) ++ ·) := by
  induction h with
  | nil => simp [Lines.entries]
  | @cons key keyForm form others value lines hkey hvalue _ ih =>
    have hline : (keyForm ++ " = " ++ form ++ "\n" ++ others).toList ++ rest =
        keyForm.toList ++ [' ', '=', ' '] ++ form.toList ++ '\n' :: (others.toList ++ rest) := by
      simp
    have hstatement : statement? (keyForm.toList ++ [' ', '=', ' '] ++ form.toList ++
        '\n' :: (others.toList ++ rest)) = some (some (.assign (assign (key, value.toValue))),
          (keyForm.toList ++ [' ', '=', ' '] ++ form.toList).length) := by
      have hread := assignment?_append hkey hvalue (others.toList ++ rest)
      simp only [List.append_assoc] at hread ⊢
      rw [statement?_of_key hkey, hread]
      rfl
    rw [hline, statements?_of_line _ _ hstatement, ih]
    simp [Lines.entries, Function.comp_def]

end Statements

/-! ## Entries -/

theorem leadingAssignments_append (entries : List (String × Value)) (rest : List Statement)
    : leadingAssignments ((entries.map fun entry => .assign (assign entry)) ++ rest) =
      (entries.map assign ++ (leadingAssignments rest).1, (leadingAssignments rest).2) := by
  induction entries with
  | nil => rfl
  | cons entry entries ih => simp [leadingAssignments, ih]

theorem lookup_eq_none_of_not_mem {α : Type} {key : String} {entries : List (String × α)}
    (h : key ∉ entries.map Prod.fst) : entries.lookup key = none := by
  rw [List.lookup_eq_none_iff]
  intro entry hmem
  rw [bne_iff_ne]
  rintro rfl
  exact h (List.mem_map_of_mem hmem)

theorem assignAll_of_nodup {entries : Entries} {values : List (String × Value)}
    (h : (entries.map Prod.fst ++ values.map Prod.fst).Nodup)
    : entries.assignAll (values.map assign) =
      some (entries ++ values.map fun entry => (entry.1, .value entry.2)) := by
  induction values generalizing entries with
  | nil => simp [Entries.assignAll]
  | cons entry values ih =>
    have hnew : entry.1 ∉ entries.map Prod.fst := by
      rw [List.map_cons, List.nodup_append] at h
      exact fun hmem => h.2.2 _ hmem _ List.mem_cons_self rfl
    have hstep : entries.assign [] entry.1 entry.2 =
        some (entries ++ [(entry.1, .value entry.2)]) := by
      rw [Entries.assign, lookup_eq_none_of_not_mem hnew]
      rfl
    have hrest := @ih (entries ++ [(entry.1, .value entry.2)]) (by simpa using h)
    simp only [Entries.assignAll, List.map_cons, List.foldlM_cons, assign, hstep,
      Option.bind_eq_bind, Option.bind_some] at hrest ⊢
    simpa [assign] using hrest

theorem assignAll_nil {values : List (String × Value)} (h : (values.map Prod.fst).Nodup)
    : Entries.assignAll [] (values.map assign) =
      some (values.map fun entry => (entry.1, .value entry.2)) :=
  assignAll_of_nodup h

theorem addSections_header {entries : Entries} {key : String} {values : List (String × Value)}
    (hkey : key ∉ entries.map Prod.fst) (hvalues : (values.map Prod.fst).Nodup)
    : entries.addSections (.header ⟨[], key⟩ :: values.map fun entry => .assign (assign entry)) =
      some (entries ++
        [(key, .table .header (values.map fun entry => (entry.1, .value entry.2)))]) := by
  have hleading : leadingAssignments (values.map fun entry => .assign (assign entry)) =
      (values.map assign, []) := by
    simpa [leadingAssignments] using leadingAssignments_append values []
  rw [Entries.addSections, hleading]
  simp only [Entries.addTable, Entries.under, lookup_eq_none_of_not_mem hkey, assignAll_nil hvalues]
  rw [Option.bind_eq_bind, Option.bind_some, Option.pure_def, Option.bind_some, Entries.addSections]

theorem entriesToValues_append (entries more : Entries)
    : entriesToValues (entries ++ more) = entriesToValues entries ++ entriesToValues more := by
  induction entries with
  | nil => simp [entriesToValues]
  | cons entry entries ih => simp [entriesToValues, ih]

theorem entriesToValues_map (values : List (String × Value))
    : entriesToValues (values.map fun entry => (entry.1, .value entry.2)) = values := by
  induction values with
  | nil => rfl
  | cons entry values ih => simp [entriesToValues, Item.toValue, ih]

/-! ## Documents -/

theorem map_fst_entries (lines : Lines) : lines.entries.map Prod.fst = lines.map Prod.fst := by
  simp [Lines.entries, Function.comp_def]

theorem LinesForm.head?_ne {lines : Lines} {text : String} (h : LinesForm lines text)
    {rest : List Char} (hrest : rest.head? ≠ some '\ufeff')
    : (text.toList ++ rest).head? ≠ some '\ufeff' := by
  cases h with
  | nil => simpa using hrest
  | cons hkey =>
    obtain ⟨c, tail, heq, hc⟩ := hkey.exists_head
    have hmark : c ≠ '\ufeff' := by
      rintro rfl
      revert hc
      decide
    simp [heq, hmark]

theorem document?_of_statements {text : String} {statements : List Statement}
    (hmark : text.toList.head? ≠ some '\ufeff') (h : statements? text.toList = some statements)
    : document? text = (do
        let entries ← Entries.assignAll [] (leadingAssignments statements).1
        let entries ← Entries.addSections entries (leadingAssignments statements).2
        return entriesToValues entries) := by
  rw [document?]
  split
  next heq => simp [heq] at hmark
  next => rw [h]; rfl

theorem statements?_nil : statements? [] = some [] := by
  rw [statements?]
  rfl

section Layouts

variable {layout : Layout} {text : String}

theorem toList_layout (lines header table : String)
    : (lines ++ "\n[" ++ header ++ "]\n" ++ table).toList =
      lines.toList ++ '\n' :: '[' :: (header.toList ++ ']' :: '\n' :: (table.toList ++ [])) := by
  simp

theorem LayoutForm.statements?_eq (h : LayoutForm layout text)
    : statements? text.toList =
      some ((layout.lines.entries.map fun entry => .assign (assign entry)) ++
        .header ⟨[], layout.header⟩ ::
          layout.table.entries.map fun entry => .assign (assign entry)) := by
  cases h with
  | intro hlines hheader htable =>
    rw [toList_layout, hlines.statements?_append, statements?_header hheader,
      htable.statements?_append, statements?_nil]
    simp

theorem LayoutForm.head?_ne (h : LayoutForm layout text)
    : text.toList.head? ≠ some '\ufeff' := by
  cases h with
  | intro hlines =>
    rw [toList_layout]
    exact hlines.head?_ne (by simp)

end Layouts

theorem library_readsForms : library.ReadsForms := by
  intro layout text h
  have hkeys := layout.nodup
  rw [← map_fst_entries, List.nodup_append] at hkeys
  have htable := layout.nodup_table
  rw [← map_fst_entries] at htable
  have hheader : layout.header ∉ layout.lines.entries.map Prod.fst :=
    fun hmem => hkeys.2.2 _ hmem _ List.mem_cons_self rfl
  show document? text = _
  rw [document?_of_statements h.head?_ne h.statements?_eq, leadingAssignments_append]
  simp only [leadingAssignments, List.append_nil, assignAll_nil hkeys.1, Option.bind_eq_bind,
    Option.bind_some]
  rw [addSections_header (by simpa using hheader) htable]
  simp [entriesToValues_append, entriesToValues_map, entriesToValues, Item.toValue, Layout.entries]

/-! ## Writing -/

section Writing

variable {text key : String} {cs : List Char}

theorem longestRun.go_eq_zero_iff {c : Char} {run : Nat} : go c run cs = 0 ↔ run = 0 ∧ c ∉ cs := by
  induction cs generalizing run with
  | nil => simp [go]
  | cons d cs ih =>
    rw [go]
    split
    next h => simp [ih, h]
    next h =>
      rw [Nat.max_eq_zero_iff, ih]
      simp [Ne.symm h]

theorem writeBasic_eq (h : ∀ c ∈ cs, isControl c = false ∧ c ≠ '"' ∧ c ≠ '\\')
    : writeBasic cs = '"' :: cs ++ ['"'] := by
  have hchars : cs.flatMap basicChar = cs := by
    induction cs with
    | nil => rfl
    | cons c cs ih =>
      obtain ⟨hc, hcs⟩ := List.forall_mem_cons.mp h
      rw [List.flatMap_cons, basicChar_eq hc.1 hc.2.1 hc.2.2, ih hcs, List.singleton_append]
  rw [writeBasic, hchars]

theorem isPlain_iff : isPlain text ↔ (∀ c ∈ text.toList, isControl c = false) ∧
    (isLiteral text → '\'' ∉ text.toList) := by
  simp only [isPlain, Bool.and_eq_true, Bool.not_eq_true', List.any_eq_false, Bool.not_eq_true,
    Bool.and_eq_false_imp, List.contains_eq_mem, decide_eq_false_iff_not]

theorem longestRun_eq_zero_iff {c : Char} : longestRun c cs = 0 ↔ c ∉ cs := by
  rw [longestRun, longestRun.go_eq_zero_iff, and_iff_right rfl]

/--
Characters of a plain text, by the quotes that are chosen for it.
-/
theorem cases_of_isPlain (h : isPlain text)
    : (isLiteral text = false ∧ (quoted text).toList = writeBasic text.toList ∧
        '\\' ∉ text.toList ∧ '"' ∉ text.toList) ∨
      (isLiteral text = true ∧ (quoted text).toList = writeLiteral text.toList ∧
        '\'' ∉ text.toList) := by
  obtain ⟨hchars, hquote⟩ := isPlain_iff.mp h
  cases hliteral : isLiteral text with
  | true =>
    refine .inr ⟨rfl, ?_, hquote hliteral⟩
    simp [quoted, hliteral, writeLiteral]
  | false =>
    have hnone := hliteral
    simp only [isLiteral, Bool.or_eq_false_iff, List.contains_eq_mem,
      decide_eq_false_iff_not] at hnone
    refine .inl ⟨rfl, ?_, hnone⟩
    have hbasic : ∀ c ∈ text.toList, isControl c = false ∧ c ≠ '"' ∧ c ≠ '\\' := fun c hc =>
      ⟨hchars c hc, fun h => hnone.2 (h ▸ hc), fun h => hnone.1 (h ▸ hc)⟩
    rw [writeBasic_eq hbasic]
    simp [quoted, hliteral]

theorem writeString_eq (h : isPlain text) : writeString text.toList = (quoted text).toList := by
  have hchars := (isPlain_iff.mp h).1
  have hline : '\n' ∉ text.toList := fun hmem => absurd (hchars _ hmem) (by decide)
  have hescape : needsEscape text.toList = false := by
    simp only [needsEscape, List.any_eq_false, Bool.and_eq_true, Bool.not_eq_true', not_and]
    exact fun c hc _ => by simp [isTextChar_of_not_isControl (hchars c hc)]
  rcases cases_of_isPlain h with
    ⟨hliteral, hquoted, hbackslash, hdouble⟩ | ⟨hliteral, hquoted, hsingle⟩
  . simp [writeString, hescape, hline, hquoted, hbackslash, longestRun_eq_zero_iff.mpr hdouble]
  . have hfirst : ¬('\\' ∉ text.toList ∧ longestRun '"' text.toList = 0) := by
      rw [longestRun_eq_zero_iff]
      simpa [isLiteral, or_iff_not_imp_left] using hliteral
    simp [writeString, hescape, hline, hquoted, hfirst, longestRun_eq_zero_iff.mpr hsingle]

theorem writeKey_eq (h : isPlain key) : writeKey key.toList = (writtenKey key).toList := by
  have hchars := (isPlain_iff.mp h).1
  have htext : ∀ c ∈ key.toList, isTextChar c :=
    fun c hc => isTextChar_of_not_isControl (hchars c hc)
  have hempty : key.toList.isEmpty = key.isEmpty := by
    rw [Bool.eq_iff_iff]
    simp
  rw [writeKey, writtenKey, hempty]
  split
  . rfl
  rcases cases_of_isPlain h with
    ⟨hliteral, hquoted, hbackslash, hdouble⟩ | ⟨hliteral, hquoted, hsingle⟩
  . simp [hquoted, hbackslash, hdouble]
  . have hnot : ¬('\\' ∉ key.toList ∧ '"' ∉ key.toList) := by
      simpa [isLiteral, or_iff_not_imp_left] using hliteral
    simp [hquoted, hnot, hsingle, List.all_eq_true.mpr htext]

theorem writeScalar?_eq {value : Scalar} (h : value.isPlain)
    : writeScalar? value.toValue = some value.written.toList := by
  cases value with
  | boolean value => cases value <;> rfl
  | string text => exact congrArg some (writeString_eq h)

theorem writeLine?_eq {line : String × Scalar} (hkey : isPlain line.1) (hvalue : line.2.isPlain)
    : writeLine? (line.1, line.2.toValue) =
      some (writtenKey line.1 ++ " = " ++ line.2.written ++ "\n").toList := by
  simp [writeLine?, writeScalar?_eq hvalue, writeKey_eq hkey]

theorem writeLines?_eq {lines : Lines} (h : lines.isPlain)
    : writeLines? lines.entries = some lines.written.toList := by
  induction lines with
  | nil => rfl
  | cons line lines ih =>
    simp only [Lines.isPlain, List.all_cons, Bool.and_eq_true] at h
    have hrest := ih h.2
    rw [Lines.entries, List.map_cons, writeLines?, writeLine?_eq h.1.1 h.1.2]
    rw [Lines.entries] at hrest
    simp [hrest, Lines.written]

theorem writeTables?_eq {header : String} {table : Lines} (hheader : isPlain header)
    (htable : table.isPlain)
    : writeTables? [(header, .table table.entries)] =
      some ("\n[" ++ writtenKey header ++ "]\n" ++ table.written).toList := by
  simp [writeTables?, writeLines?_eq htable, writeKey_eq hheader]

theorem writeEntries?_cons (key : String) (value : Scalar) (rest : List (String × Value))
    : writeEntries? ((key, value.toValue) :: rest) = (do
        let line ← writeLine? (key, value.toValue)
        let lines ← writeEntries? rest
        return line ++ lines) := by
  cases value
  all_goals rfl

theorem writeEntries?_eq {lines table : Lines} {header : String} (hlines : lines.isPlain)
    (hheader : isPlain header) (htable : table.isPlain)
    : writeEntries? (lines.entries ++ [(header, .table table.entries)]) =
      some (lines.written ++ "\n[" ++ writtenKey header ++ "]\n" ++ table.written).toList := by
  induction lines with
  | nil =>
    have htables := writeTables?_eq hheader htable
    simpa [writeEntries?, Lines.entries, Lines.written] using htables
  | cons line lines ih =>
    simp only [Lines.isPlain, List.all_cons, Bool.and_eq_true] at hlines
    have hrest := ih hlines.2
    rw [Lines.entries] at hrest ⊢
    rw [List.map_cons, List.cons_append, writeEntries?_cons, hrest,
      writeLine?_eq hlines.1.1 hlines.1.2]
    simp [Lines.written]

theorem library_writesPlain : library.WritesPlain := by
  intro layout h
  simp only [Layout.isPlain, Bool.and_eq_true] at h
  show write? layout.entries = _
  rw [write?, Layout.entries, writeEntries?_eq h.1.1 h.1.2 h.2, Option.map_some,
    String.ofList_toList, Layout.written]

end Writing

end Toml
end MathMarkup
