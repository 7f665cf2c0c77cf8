import MathMarkup.Options.Config
import MathMarkup.Proofs.Toml.Library

/-!
This module contains that options are read back from the document that they are written as, whatever
library for TOML does the writing and the reading. From the entries of the document the fields are
set one after the other.
-/

namespace MathMarkup

namespace Macros

theorem eq_of_entries {one other : Macros} (h : one.entries = other.entries) : one = other := by
  cases one
  cases other
  cases h
  rfl

theorem set_of_not_mem {name text : String} {entries : List (String × String)}
    (h : name ∉ entries.map Prod.fst) : set name text entries = entries ++ [(name, text)] := by
  induction entries with
  | nil => rfl
  | cons entry entries ih =>
    simp only [List.map_cons, List.mem_cons, not_or] at h
    rw [set, if_neg (Ne.symm h.1), ih h.2, List.cons_append]

theorem entries_insertAll_of_nodup {definitions : Macros} {pairs : List (String × String)}
    (h : (definitions.entries.map Prod.fst ++ pairs.map Prod.fst).Nodup)
    : (definitions.insertAll pairs).entries = definitions.entries ++ pairs := by
  induction pairs generalizing definitions with
  | nil => exact (List.append_nil _).symm
  | cons pair pairs ih =>
    have hnew : pair.1 ∉ definitions.entries.map Prod.fst := by
      rw [List.map_cons, List.nodup_append] at h
      exact fun hmem => h.2.2 _ hmem _ List.mem_cons_self rfl
    have hstep : (definitions.insert pair.1 pair.2).entries = definitions.entries ++ [pair] :=
      set_of_not_mem hnew
    have hrest := @ih (definitions.insert pair.1 pair.2) (by simpa [hstep] using h)
    rwa [hstep, List.append_assoc] at hrest

theorem insertAll_entries (definitions : Macros)
    : empty.insertAll definitions.entries = definitions :=
  eq_of_entries (entries_insertAll_of_nodup definitions.distinct)

end Macros

namespace Options

open Toml

/--
Whether the texts of the options need no escapes in a document.
-/
def isPlain (options : Options) : Bool :=
  Toml.isPlain options.nonAsciiWrapper &&
    options.customMacros.entries.all fun entry => Toml.isPlain entry.1 && Toml.isPlain entry.2

def fieldLines (options : Options) : Lines :=
  [(Field.preferShorthands.name, .boolean options.preferShorthands),
    (Field.fracToSlash.name, .boolean options.fracToSlash),
    (Field.inftyToOo.name, .boolean options.inftyToOo),
    (Field.nonStrict.name, .boolean options.nonStrict),
    (Field.optimize.name, .boolean options.optimize),
    (Field.keepSpaces.name, .boolean options.keepSpaces),
    (Field.nonAsciiWrapper.name, .string options.nonAsciiWrapper)]

def macroLines (options : Options) : Lines :=
  options.customMacros.entries.map fun entry => (entry.1, .string entry.2)

theorem nodup_names : (Field.all.map Field.name).Nodup := by
  decide

/--
The document of options. Fields have different names, and so have commands.
-/
def layout (options : Options) : Layout where
  lines := options.fieldLines
  header := Field.customMacros.name
  table := options.macroLines
  lines_ne_nil := List.cons_ne_nil _ _
  nodup := nodup_names
  nodup_table := by
    simpa [macroLines, Function.comp_def] using options.customMacros.distinct

theorem entries_layout (options : Options) : options.layout.entries = options.toEntries := by
  simp [Layout.entries, layout, fieldLines, macroLines, Lines.entries, Scalar.toValue, toEntries,
    Function.comp_def]

theorem isPlain_layout {options : Options} (h : options.isPlain) : options.layout.isPlain := by
  have hname (field : Field) : Toml.isPlain field.name := by
    cases field <;> decide
  simp only [isPlain, Bool.and_eq_true, List.all_eq_true] at h
  simp only [Layout.isPlain, layout, fieldLines, macroLines, Lines.isPlain, List.all_cons,
    List.all_nil, Scalar.isPlain, hname, h.1, List.all_map, Bool.and_self, Bool.true_and,
    List.all_eq_true]
  intro entry hentry
  simpa using h.2 entry hentry

theorem foldlM_insert (definitions : Macros) (pairs : List (String × String))
    : (pairs.map fun pair => (pair.1, Value.string pair.2)).foldlM
        (fun definitions (name, value) => return definitions.insert name (← stringOf value))
        definitions =
      .ok (definitions.insertAll pairs) := by
  induction pairs generalizing definitions with
  | nil => rfl
  | cons pair pairs ih => exact ih (definitions.insert pair.1 pair.2)

theorem macrosOf_entries (definitions : Macros)
    : macrosOf (.table (definitions.entries.map fun entry => (entry.1, .string entry.2))) =
      .ok definitions := by
  have hall := foldlM_insert .empty definitions.entries
  rw [Macros.insertAll_entries] at hall
  exact hall

theorem ofEntries_toEntries (options : Options) : ofEntries options.toEntries = .ok options := by
  have hname (field : Field) : Field.ofName? field.name = some field := by
    cases field <;> decide
  simp only [ofEntries, toEntries, List.foldlM_cons, List.foldlM_nil, hname, setField,
    macrosOf_entries]
  rfl

/--
Options are read back from the document that they are written as, by every library that writes texts
without escapes where none are needed, and reads what is written so.
-/
theorem ofTomlWith_toTomlWith {library : Library} (hwrites : library.WritesPlain)
    (hreads : library.ReadsForms) {options : Options} (h : options.isPlain)
    : ofTomlWith library (options.toTomlWith library) = .ok options := by
  have hplain := isPlain_layout h
  have hwritten := hwrites options.layout hplain
  have hread := Library.read?_written hreads hplain
  rw [entries_layout] at hwritten hread
  rw [toTomlWith, hwritten, Option.getD_some, ofTomlWith, hread]
  exact ofEntries_toEntries options

theorem ofTomlWith_toTomlWith_macros
    : let options : Options :=
        { nonAsciiWrapper := "é"
          customMacros := Macros.empty.insertAll
            [("", "it's"), ("\\R", "\\text\x7b\"\x7d"), ("half way.", ""), ("bm-1", "\\frac12")] }
      options.isPlain ∧ ofToml options.toToml = .ok options := by
  intro options
  have hplain : options.isPlain := by decide
  exact ⟨hplain, ofTomlWith_toTomlWith library_writesPlain library_readsForms hplain⟩

end Options
end MathMarkup
