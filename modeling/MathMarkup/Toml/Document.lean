import MathMarkup.Toml.Scalar

/-!
This module contains the reading of whole TOML documents. A document is read as a list of
statements, from which its tables are then built up. A table is defined once, so a statement that
defines one again makes the document invalid.
-/

namespace MathMarkup
namespace Toml

/--
How a table came about. It decides which statements may still add to it.
-/
inductive Origin where
  | header
  | implicit
  | dotted
deriving DecidableEq, Repr

inductive Item where
  | value (value : Value)
  | table (origin : Origin) (entries : List (String × Item))
  | tables (elements : List (List (String × Item)))
deriving Repr, Inhabited

abbrev Entries := List (String × Item)

namespace Entries

def replace (entries : Entries) (key : String) (item : Item) : Entries :=
  entries.map fun entry => if entry.1 == key then (key, item) else entry

/--
Add a value under a path. Tables on the way that do not exist are created, and the last table on the
way must be one that was created so.
-/
def assign (entries : Entries) (parents : List String) (key : String) (value : Value) :
    Option Entries :=
  match parents with
  | [] => if (entries.lookup key).isSome then none else some (entries ++ [(key, .value value)])
  | parent :: parents =>
    match entries.lookup parent with
    | none => do
      let sub ← assign [] parents key value
      return entries ++ [(parent, .table .dotted sub)]
    | some (.table .dotted sub) => do
      let sub ← assign sub parents key value
      return entries.replace parent (.table .dotted sub)
    | some (.table .implicit sub) =>
      if parents.isEmpty then
        none
      else do
        let sub ← assign sub parents key value
        return entries.replace parent (.table .implicit sub)
    | some (.tables elements) =>
      match parents.isEmpty, elements.getLast? with
      | false, some last => do
        let last ← assign last parents key value
        return entries.replace parent (.tables (elements.dropLast ++ [last]))
      | _, _ => none
    | some _ => none

/--
Change the table under the parents of a header. Tables on the way that do not exist are created.
-/
def under (entries : Entries) (parents : List String) (change : Entries → Option Entries) :
    Option Entries :=
  match parents with
  | [] => change entries
  | parent :: parents =>
    match entries.lookup parent with
    | none => do
      let sub ← under [] parents change
      return entries ++ [(parent, .table .implicit sub)]
    | some (.table origin sub) => do
      let sub ← under sub parents change
      return entries.replace parent (.table origin sub)
    | some (.tables elements) =>
      match elements.getLast? with
      | some last => do
        let last ← under last parents change
        return entries.replace parent (.tables (elements.dropLast ++ [last]))
      | none => none
    | some (.value _) => none

end Entries

structure Assignment where
  path : KeyPath
  value : Value
deriving Repr

def Entries.assignAll (entries : Entries) (assignments : List Assignment) : Option Entries :=
  assignments.foldlM
    (fun entries assignment =>
      entries.assign assignment.path.parents assignment.path.key assignment.value)
    entries

mutual

def Item.toValue : Item → Value
  | .value value => value
  | .table _ entries => .table (entriesToValues entries)
  | .tables elements => .array (tablesToValues elements)

def entriesToValues : List (String × Item) → List (String × Value)
  | [] => []
  | (key, item) :: entries => (key, item.toValue) :: entriesToValues entries

def tablesToValues : List (List (String × Item)) → List Value
  | [] => []
  | entries :: elements => .table (entriesToValues entries) :: tablesToValues elements

end

def gap (cs : List Char) : Nat :=
  match cs with
  | ' ' :: cs => gap cs + 1
  | '\t' :: cs => gap cs + 1
  | '\n' :: cs => gap cs + 1
  | '\r' :: '\n' :: cs => gap cs + 2
  | '#' :: cs =>
    let text := (cs.takeWhile isTextChar).length
    match _h : cs.drop text with
    | '\n' :: rest => text + 2 + gap rest
    | '\r' :: '\n' :: rest => text + 3 + gap rest
    | _ => 0
  | _ => 0
termination_by cs.length
decreasing_by
  all_goals
    try have := congrArg List.length _h
    simp only [List.length_drop, List.length_cons] at *
    omega

mutual

def value? (depth : Nat) (cs : List Char) : Option (Value × Nat) :=
  match cs with
  | '[' :: cs =>
    if depth + 1 < depthLimit then do
      let (elements, used) ← elements? (depth + 1) cs
      return (.array elements, used + 1)
    else
      none
  | '{' :: cs =>
    if depth + 1 < depthLimit then do
      let (assignments, used) ← pairs? (depth + 1) true cs
      let entries ← Entries.assignAll [] assignments
      return (.table (entriesToValues entries), used + 1)
    else
      none
  | cs =>
    match string? cs with
    | some (text, used) => some (.string text, used)
    | none => scalar? cs
termination_by 4 * cs.length + 1

def elements? (depth : Nat) (cs : List Char) : Option (List Value × Nat) :=
  let start := gap cs
  match _h : cs.drop start with
  | [] => none
  | c :: rest =>
    if c = ']' then
      some ([], start + 1)
    else do
      let (value, size) ← value? depth (c :: rest)
      let size := size + gap ((c :: rest).drop size)
      match (c :: rest).drop size with
      | ',' :: _ =>
        let (values, more) ← elements? depth (rest.drop size)
        return (value :: values, start + size + 1 + more)
      | ']' :: _ => return ([value], start + size + 1)
      | _ => none
termination_by 4 * cs.length + 2
decreasing_by
  all_goals
    have := congrArg List.length _h
    simp only [List.length_drop, List.length_cons] at *
    omega

/--
Read the assignments of an inline table after its opening brace or, unless `first`, a comma.
-/
def pairs? (depth : Nat) (first : Bool) (cs : List Char) : Option (List Assignment × Nat) :=
  match cs.drop (blanks cs) with
  | '}' :: _ => if first then some ([], blanks cs + 1) else none
  | _ => do
    let (assignment, size) ← assignment? depth cs
    match _h : cs.drop size with
    | ',' :: rest =>
      let (assignments, more) ← pairs? depth false rest
      return (assignment :: assignments, size + 1 + more)
    | '}' :: _ => return ([assignment], size + 1)
    | _ => none
termination_by 4 * cs.length + 3
decreasing_by
  . omega
  . have := congrArg List.length _h
    simp only [List.length_drop, List.length_cons] at *
    omega

def assignment? (depth : Nat) (cs : List Char) : Option (Assignment × Nat) := do
  let (path, size) ← keyPath? cs
  match _h : cs.drop size with
  | '=' :: rest =>
    let start := blanks rest
    let (value, used) ← value? depth (rest.drop start)
    let size := size + 1 + start + used
    return (⟨path, value⟩, size + blanks (cs.drop size))
  | _ => none
termination_by 4 * cs.length + 2
decreasing_by
  have := congrArg List.length _h
  simp only [List.length_drop, List.length_cons] at *
  omega

end

inductive Statement where
  | assign (assignment : Assignment)
  | header (path : KeyPath)
  | element (path : KeyPath)
deriving Repr

def statement? (cs : List Char) : Option (Option Statement × Nat) :=
  let start := blanks cs
  match cs.drop start with
  | '[' :: '[' :: rest => do
    let (path, size) ← keyPath? rest
    match rest.drop size with
    | ']' :: ']' :: _ => return (some (.element path), start + size + 4)
    | _ => none
  | '[' :: rest => do
    let (path, size) ← keyPath? rest
    match rest.drop size with
    | ']' :: _ => return (some (.header path), start + size + 2)
    | _ => none
  | [] | '#' :: _ | '\n' :: _ | '\r' :: _ => some (none, start)
  | _ => (assignment? 0 cs).map fun (assignment, size) => (some (.assign assignment), size)

def trailer (cs : List Char) : Nat :=
  let start := blanks cs
  match cs.drop start with
  | '#' :: rest => start + 1 + (rest.takeWhile isTextChar).length
  | _ => start

def statements? (cs : List Char) : Option (List Statement) := do
  let (statement, size) ← statement? cs
  let size := size + trailer (cs.drop size)
  match _h : cs.drop size with
  | [] => return statement.toList
  | '\n' :: rest =>
    let statements ← statements? rest
    return statement.toList ++ statements
  | '\r' :: '\n' :: rest =>
    let statements ← statements? rest
    return statement.toList ++ statements
  | _ => none
termination_by cs.length
decreasing_by
  all_goals
    have := congrArg List.length _h
    simp only [List.length_drop, List.length_cons] at *
    omega

def leadingAssignments : List Statement → List Assignment × List Statement
  | .assign assignment :: statements =>
    let (assignments, rest) := leadingAssignments statements
    (assignment :: assignments, rest)
  | statements => ([], statements)

theorem length_leadingAssignments_le (statements : List Statement) :
    (leadingAssignments statements).2.length ≤ statements.length := by
  fun_induction leadingAssignments statements with
  | case1 assignment statements assignments rest h ih =>
    rw [h] at ih
    exact Nat.le_succ_of_le ih
  | case2 statements => exact Nat.le_refl _

/--
Define the table of a header. A table that only has subtables so far is moved to the end.
-/
def Entries.addTable (entries : Entries) (path : KeyPath) (assignments : List Assignment) :
    Option Entries :=
  entries.under path.parents fun entries =>
    match entries.lookup path.key with
    | none => do
      let table ← Entries.assignAll [] assignments
      return entries ++ [(path.key, .table .header table)]
    | some (.table .implicit sub) => do
      let table ← Entries.assignAll sub assignments
      return entries.filter (·.1 != path.key) ++ [(path.key, .table .header table)]
    | some _ => none

def Entries.addElement (entries : Entries) (path : KeyPath) (assignments : List Assignment) :
    Option Entries :=
  entries.under path.parents fun entries => do
    let table ← Entries.assignAll [] assignments
    match entries.lookup path.key with
    | none => return entries ++ [(path.key, .tables [table])]
    | some (.tables elements) => return entries.replace path.key (.tables (elements ++ [table]))
    | some _ => none

def Entries.addSections (entries : Entries) (statements : List Statement) : Option Entries :=
  match statements with
  | [] => some entries
  | .assign _ :: _ => none
  | .header path :: statements => do
    let entries ← entries.addTable path (leadingAssignments statements).1
    addSections entries (leadingAssignments statements).2
  | .element path :: statements => do
    let entries ← entries.addElement path (leadingAssignments statements).1
    addSections entries (leadingAssignments statements).2
termination_by statements.length
decreasing_by
  all_goals
    have := length_leadingAssignments_le statements
    simp only [List.length_cons]
    omega

/--
Read a document as the entries of its outermost table. A mark of the byte order may stand in front.
-/
def document? (text : String) : Option (List (String × Value)) := do
  let cs :=
    match text.toList with
    | '\ufeff' :: cs => cs
    | cs => cs
  let statements ← statements? cs
  let entries ← Entries.assignAll [] (leadingAssignments statements).1
  let entries ← Entries.addSections entries (leadingAssignments statements).2
  return entriesToValues entries

end Toml
end MathMarkup
