/-!
This module contains the commands that the user defines. They are kept in the order in which they
were first defined, and each name is defined once.
-/

namespace MathMarkup

structure Macros where
  entries : List (String × String) := []
  distinct : (entries.map Prod.fst).Nodup := by exact List.nodup_nil
deriving DecidableEq, Repr

namespace Macros

def empty : Macros := {}

def bareName (name : String) : String :=
  match name.toList with
  | '\\' :: rest => String.ofList rest
  | _ => name

/--
Set the text of a name in a list of definitions. A name that is defined keeps its position.
-/
def set (name text : String) : List (String × String) → List (String × String)
  | [] => [(name, text)]
  | (key, old) :: entries =>
    if key = name then (key, text) :: entries else (key, old) :: set name text entries

theorem mem_keys_set {name text key : String} {entries : List (String × String)} :
    key ∈ (set name text entries).map Prod.fst ↔ key = name ∨ key ∈ entries.map Prod.fst := by
  induction entries with
  | nil => simp [set]
  | cons entry entries ih =>
    simp only [set]
    split
    . simp_all
    . simp only [List.map_cons, List.mem_cons, ih]
      grind

theorem nodup_keys_set {name text : String} {entries : List (String × String)}
    (h : (entries.map Prod.fst).Nodup) : ((set name text entries).map Prod.fst).Nodup := by
  induction entries with
  | nil => simp [set]
  | cons entry entries ih =>
    simp only [List.map_cons, List.nodup_cons] at h
    simp only [set]
    split
    . simpa using h
    . rename_i hne
      simp only [List.map_cons, List.nodup_cons, mem_keys_set]
      exact ⟨by simp_all, ih h.2⟩

/--
Define a command. A later definition of the same name replaces an earlier one in its position.
-/
def insert (definitions : Macros) (name text : String) : Macros where
  entries := set name text definitions.entries
  distinct := nodup_keys_set definitions.distinct

def insertAll (definitions : Macros) (pairs : List (String × String)) : Macros :=
  pairs.foldl (fun definitions (name, text) => definitions.insert name text) definitions

/--
The text that a name stands for. A backslash in front of a name does not count, so of several names
that differ only there the first one is taken.
-/
def find? (definitions : Macros) (name : String) : Option String :=
  (definitions.entries.find? fun (key, _) => bareName key == bareName name).map Prod.snd

end Macros
end MathMarkup
