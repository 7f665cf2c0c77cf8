import Mathlib.Data.List.Nodup
import MathMarkup.Toml.Library

/-!
This module contains what is assumed of a library for TOML: the forms in which it writes documents
that need no escapes, and those in which it reads them. A document here consists of lines with one
value each, and of one table behind them. The writer chooses between forms by the characters that
occur, while the reader takes each form for what stands in it, so it is to be shown that the choices
of the writer are right.
-/

namespace MathMarkup
namespace Toml

/--
The values that stand on one line.
-/
inductive Scalar where
  | boolean (value : Bool)
  | string (text : String)
deriving DecidableEq

def Scalar.toValue : Scalar → Value
  | boolean value => .boolean value
  | string text => .string text

abbrev Lines := List (String × Scalar)

def Lines.entries (lines : Lines) : List (String × Value) :=
  lines.map fun line => (line.1, line.2.toValue)

/--
Lines and a table of lines. No key stands twice.
-/
structure Layout where
  lines : Lines
  header : String
  table : Lines
  lines_ne_nil : lines ≠ []
  nodup : (lines.map Prod.fst ++ [header]).Nodup
  nodup_table : (table.map Prod.fst).Nodup

def Layout.entries (layout : Layout) : List (String × Value) :=
  layout.lines.entries ++ [(layout.header, .table layout.table.entries)]

def isControl (c : Char) : Bool :=
  c.toNat < 32 || c.toNat == 127

/-! ## What is written -/

/--
Whether a text stands between single quotes.
-/
def isLiteral (text : String) : Bool :=
  text.toList.contains '\\' || text.toList.contains '"'

/--
Whether a text needs no escapes between the quotes that are chosen for it.
-/
def isPlain (text : String) : Bool :=
  !text.toList.any isControl && !(isLiteral text && text.toList.contains '\'')

def quoted (text : String) : String :=
  if isLiteral text then "'" ++ text ++ "'" else "\"" ++ text ++ "\""

def writtenKey (key : String) : String :=
  if !key.isEmpty && key.toList.all isBareChar then key else quoted key

namespace Scalar

def isPlain : Scalar → Bool
  | boolean _ => true
  | string text => Toml.isPlain text

def written : Scalar → String
  | boolean value => if value then "true" else "false"
  | string text => quoted text

end Scalar

namespace Lines

def isPlain (lines : Lines) : Bool :=
  lines.all fun line => Toml.isPlain line.1 && line.2.isPlain

def written : Lines → String
  | [] => ""
  | line :: lines => writtenKey line.1 ++ " = " ++ line.2.written ++ "\n" ++ written lines

end Lines

namespace Layout

def isPlain (layout : Layout) : Bool :=
  layout.lines.isPlain && Toml.isPlain layout.header && layout.table.isPlain

def written (layout : Layout) : String :=
  layout.lines.written ++ "\n[" ++ writtenKey layout.header ++ "]\n" ++ layout.table.written

end Layout

/-! ## What is read -/

/--
A text between double quotes without what would need an escape there, or between single quotes,
where nothing can be escaped.
-/
inductive Quotes (text : String) : String → Prop where
  | double (h : ∀ c ∈ text.toList, isControl c = false ∧ c ≠ '"' ∧ c ≠ '\\') :
    Quotes text ("\"" ++ text ++ "\"")
  | single (h : ∀ c ∈ text.toList, isControl c = false ∧ c ≠ '\'') :
    Quotes text ("'" ++ text ++ "'")

inductive KeyForm (key : String) : String → Prop where
  | bare (hne : key ≠ "") (h : ∀ c ∈ key.toList, isBareChar c) : KeyForm key key
  | quotes {form : String} (h : Quotes key form) : KeyForm key form

inductive ScalarForm : Scalar → String → Prop where
  | boolean (value : Bool) : ScalarForm (.boolean value) (if value then "true" else "false")
  | quotes {text form : String} (h : Quotes text form) : ScalarForm (.string text) form

inductive LinesForm : Lines → String → Prop where
  | nil : LinesForm [] ""
  | cons {key keyForm form rest : String} {value : Scalar} {lines : Lines}
    (hkey : KeyForm key keyForm) (hvalue : ScalarForm value form) (h : LinesForm lines rest) :
    LinesForm ((key, value) :: lines) (keyForm ++ " = " ++ form ++ "\n" ++ rest)

inductive LayoutForm (layout : Layout) : String → Prop where
  | intro {lines header table : String} (hlines : LinesForm layout.lines lines)
    (hheader : KeyForm layout.header header) (htable : LinesForm layout.table table) :
    LayoutForm layout (lines ++ "\n[" ++ header ++ "]\n" ++ table)

namespace Library

/--
A library that writes what needs no escapes in the forms above.
-/
def WritesPlain (library : Library) : Prop :=
  ∀ layout : Layout, layout.isPlain → library.write? layout.entries = some layout.written

/--
A library that reads what is written in one of the forms above.
-/
def ReadsForms (library : Library) : Prop :=
  ∀ (layout : Layout) (text : String), LayoutForm layout text →
    library.read? text = some layout.entries

end Library

/-! ## What is written can be read -/

section Plain

variable {text key : String} {lines : Lines} {layout : Layout}

theorem quotes_quoted (h : isPlain text) : Quotes text (quoted text) := by
  simp only [isPlain, Bool.and_eq_true, Bool.not_eq_true', List.any_eq_false, Bool.not_eq_true] at h
  unfold quoted
  split
  next hliteral =>
    refine .single fun c hc => ⟨h.1 c hc, ?_⟩
    rintro rfl
    simp [hliteral, hc] at h
  next hliteral =>
    rw [isLiteral, Bool.or_eq_true, not_or] at hliteral
    refine .double fun c hc => ⟨h.1 c hc, ?_, ?_⟩
    . rintro rfl
      exact hliteral.2 (List.elem_eq_true_of_mem hc)
    . rintro rfl
      exact hliteral.1 (List.elem_eq_true_of_mem hc)

theorem keyForm_writtenKey (h : isPlain key) : KeyForm key (writtenKey key) := by
  unfold writtenKey
  split
  next hbare =>
    simp only [Bool.and_eq_true, Bool.not_eq_true', List.all_eq_true] at hbare
    refine .bare ?_ hbare.2
    rintro rfl
    simp at hbare
  next => exact .quotes (quotes_quoted h)

theorem scalarForm_written {value : Scalar} (h : value.isPlain)
    : ScalarForm value value.written := by
  cases value with
  | boolean value => exact .boolean value
  | string text => exact .quotes (quotes_quoted h)

theorem linesForm_written (h : lines.isPlain) : LinesForm lines lines.written := by
  induction lines with
  | nil => exact .nil
  | cons line lines ih =>
    simp only [Lines.isPlain, List.all_cons, Bool.and_eq_true] at h
    exact .cons (keyForm_writtenKey h.1.1) (scalarForm_written h.1.2) (ih h.2)

theorem layoutForm_written (h : layout.isPlain) : LayoutForm layout layout.written := by
  simp only [Layout.isPlain, Bool.and_eq_true] at h
  exact .intro (linesForm_written h.1.1) (keyForm_writtenKey h.1.2) (linesForm_written h.2)

/--
What is written of a plain document is read back as it was.
-/
theorem Library.read?_written {library : Library} (hreads : library.ReadsForms) (h : layout.isPlain)
    : library.read? layout.written = some layout.entries :=
  hreads layout layout.written (layoutForm_written h)

end Plain

end Toml
end MathMarkup
