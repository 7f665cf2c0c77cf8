import MathMarkup.Tex.Formula

/-!
This module contains the formulas that a TeX formula is made of, at any depth.
-/

namespace MathMarkup
namespace Tex
namespace Formula

mutual

/--
The formula and all formulas within it, in the order in which they are read.
-/
def subformulas : Formula → List Formula
  | .group nodes => .group nodes :: eachSubformulas nodes
  | .attach base sub sup =>
    .attach base sub sup :: (base.subformulas ++ optionSubformulas sub ++ optionSubformulas sup)
  | .func name args degree =>
    .func name args degree :: (eachSubformulas args ++ optionSubformulas degree)
  | .leftRight left body right => .leftRight left body right :: body.subformulas
  | .env name spec rows => .env name spec rows :: rowsSubformulas rows
  | node => [node]

def eachSubformulas : List Formula → List Formula
  | [] => []
  | node :: nodes => node.subformulas ++ eachSubformulas nodes

def rowsSubformulas : List (List Formula) → List Formula
  | [] => []
  | row :: rows => eachSubformulas row ++ rowsSubformulas rows

def optionSubformulas : Option Formula → List Formula
  | none => []
  | some node => node.subformulas

end

theorem mem_subformulas_self (node : Formula) : node ∈ node.subformulas := by
  cases node with
  | group | attach | func | leftRight | env => exact List.mem_cons_self
  | _ => exact List.mem_singleton_self _

theorem mem_eachSubformulas {nodes : List Formula} {inner : Formula}
    : inner ∈ eachSubformulas nodes ↔ ∃ node ∈ nodes, inner ∈ node.subformulas := by
  induction nodes with
  | nil => simp [eachSubformulas]
  | cons node nodes ih => simp [eachSubformulas, ih]

theorem mem_rowsSubformulas {rows : List (List Formula)} {inner : Formula}
    : inner ∈ rowsSubformulas rows ↔ ∃ row ∈ rows, ∃ cell ∈ row, inner ∈ cell.subformulas := by
  induction rows with
  | nil => simp [rowsSubformulas]
  | cons row rows ih => simp [rowsSubformulas, mem_eachSubformulas, ih]

theorem mem_optionSubformulas {node : Option Formula} {inner : Formula}
    : inner ∈ optionSubformulas node ↔ ∃ outer ∈ node, inner ∈ outer.subformulas := by
  cases node with
  | none => simp [optionSubformulas]
  | some node => simp [optionSubformulas]

mutual

theorem subformulas_subset {inner : Formula} (outer : Formula) (h : inner ∈ outer.subformulas)
    : inner.subformulas ⊆ outer.subformulas := by
  cases outer with
  | group nodes =>
    cases h with
    | head => exact List.Subset.refl _
    | tail _ h => exact List.subset_cons_of_subset _ (eachSubformulas_subset nodes h)
  | attach base sub sup =>
    cases h with
    | head => exact List.Subset.refl _
    | tail _ h =>
      apply List.subset_cons_of_subset
      rcases List.mem_append.mp h with h | h
      . rcases List.mem_append.mp h with h | h
        . exact List.subset_append_of_subset_left _
            (List.subset_append_of_subset_left _ (subformulas_subset base h))
        . exact List.subset_append_of_subset_left _
            (List.subset_append_of_subset_right _ (optionSubformulas_subset sub h))
      . exact List.subset_append_of_subset_right _ (optionSubformulas_subset sup h)
  | func name args degree =>
    cases h with
    | head => exact List.Subset.refl _
    | tail _ h =>
      apply List.subset_cons_of_subset
      rcases List.mem_append.mp h with h | h
      . exact List.subset_append_of_subset_left _ (eachSubformulas_subset args h)
      . exact List.subset_append_of_subset_right _ (optionSubformulas_subset degree h)
  | leftRight left body right =>
    cases h with
    | head => exact List.Subset.refl _
    | tail _ h => exact List.subset_cons_of_subset _ (subformulas_subset body h)
  | env name spec rows =>
    cases h with
    | head => exact List.Subset.refl _
    | tail _ h => exact List.subset_cons_of_subset _ (rowsSubformulas_subset rows h)
  | _ =>
    cases List.mem_singleton.mp h
    exact List.Subset.refl _

theorem eachSubformulas_subset {inner : Formula} (nodes : List Formula)
    (h : inner ∈ eachSubformulas nodes) : inner.subformulas ⊆ eachSubformulas nodes := by
  cases nodes with
  | nil => contradiction
  | cons node nodes =>
    rcases List.mem_append.mp h with h | h
    . exact List.subset_append_of_subset_left _ (subformulas_subset node h)
    . exact List.subset_append_of_subset_right _ (eachSubformulas_subset nodes h)

theorem rowsSubformulas_subset {inner : Formula} (rows : List (List Formula))
    (h : inner ∈ rowsSubformulas rows) : inner.subformulas ⊆ rowsSubformulas rows := by
  cases rows with
  | nil => contradiction
  | cons row rows =>
    rcases List.mem_append.mp h with h | h
    . exact List.subset_append_of_subset_left _ (eachSubformulas_subset row h)
    . exact List.subset_append_of_subset_right _ (rowsSubformulas_subset rows h)

theorem optionSubformulas_subset {inner : Formula} (node : Option Formula)
    (h : inner ∈ optionSubformulas node) : inner.subformulas ⊆ optionSubformulas node := by
  cases node with
  | none => contradiction
  | some node => exact subformulas_subset node h

end

end Formula
end Tex
end MathMarkup
