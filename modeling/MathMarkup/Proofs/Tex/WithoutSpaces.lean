import MathMarkup.Proofs.WithoutSpaces
import MathMarkup.Tex.Formula

/-!
This module contains TeX formulas without their spaces, which is what two formulas that are set in
the same way have in common.
-/

namespace MathMarkup
namespace Tex
namespace Formula

mutual

/--
The formula without its spaces. A group that loses spaces is taken apart if less than two of its
nodes are left.
-/
def withoutSpaces : Formula → Formula
  | .space _ => .empty
  | .group nodes =>
    if nodes.any isSpace then .ofList (dropSpaces nodes) else .group (dropSpaces nodes)
  | .attach base sub sup =>
    .attach base.withoutSpaces (optionWithoutSpaces sub) (optionWithoutSpaces sup)
  | .func name args degree => .func name (eachWithoutSpaces args) (optionWithoutSpaces degree)
  | .leftRight left body right => .leftRight left body.withoutSpaces right
  | .env name spec rows => .env name spec (rowsWithoutSpaces rows)
  | node => node

/--
The formulas of a list that are no spaces, without the spaces in them.
-/
def dropSpaces : List Formula → List Formula
  | [] => []
  | node :: nodes =>
    if node.isSpace then dropSpaces nodes else node.withoutSpaces :: dropSpaces nodes

def eachWithoutSpaces : List Formula → List Formula
  | [] => []
  | node :: nodes => node.withoutSpaces :: eachWithoutSpaces nodes

def rowsWithoutSpaces : List (List Formula) → List (List Formula)
  | [] => []
  | cells :: rows => eachWithoutSpaces cells :: rowsWithoutSpaces rows

def optionWithoutSpaces : Option Formula → Option Formula
  | none => none
  | some node => some node.withoutSpaces

end

def toList : Formula → List Formula
  | .empty => []
  | .group nodes => nodes
  | node => [node]

theorem dropsSpaces : DropsSpaces isSpace group ofList withoutSpaces dropSpaces where
  ofList_singleton _ := rfl
  ofList_cons_cons _ _ _ := rfl
  drop_nil := by rw [dropSpaces]
  drop_cons node nodes := by rw [dropSpaces]
  strip_nil := by rw [ofList, withoutSpaces] <;> nofun
  strip_space node h := by
    cases node with
    | space => rw [withoutSpaces, ofList]
    | _ => contradiction
  strip_group nodes := by rw [withoutSpaces]

theorem eachWithoutSpaces_eq (nodes : List Formula)
    : eachWithoutSpaces nodes = nodes.map withoutSpaces :=
  eq_map_of_cons (by rw [eachWithoutSpaces]) (fun _ _ => by rw [eachWithoutSpaces]) nodes

theorem rowsWithoutSpaces_eq (rows : List (List Formula))
    : rowsWithoutSpaces rows = rows.map (List.map withoutSpaces) :=
  eq_map_of_cons (by rw [rowsWithoutSpaces])
    (fun _ _ => by rw [rowsWithoutSpaces, eachWithoutSpaces_eq]) rows

theorem optionWithoutSpaces_eq (node : Option Formula)
    : optionWithoutSpaces node = node.map withoutSpaces := by
  cases node
  all_goals rw [optionWithoutSpaces]
  all_goals rfl

theorem exists_of_dropSpaces_singleton {nodes : List Formula} {tree : Formula}
    (h : dropSpaces nodes = [tree])
    : ∃ front node back, nodes = front ++ node :: back ∧ (∀ space ∈ front, space.isSpace) ∧
      (∀ space ∈ back, space.isSpace) ∧ node.isSpace = false ∧ node.withoutSpaces = tree := by
  rw [dropsSpaces.drop_eq] at h
  obtain ⟨node, others, hfilter, hnode, hothers⟩ := List.map_eq_cons_iff.mp h
  cases List.map_eq_nil_iff.mp hothers
  obtain ⟨front, back, hnodes, hfront, hspace, hback⟩ := List.filter_eq_cons_iff.mp hfilter
  rw [List.filter_eq_nil_iff] at hback
  exact ⟨front, node, back, hnodes, by simpa using hfront, by simpa using hback,
    by simpa using hspace, hnode⟩

/--
What holds of all formulas that are the same up to spaces. There may be spaces within a formula, or
around it in a group.
-/
theorem withoutSpaces_induction {motive : Formula → Prop} {tree : Formula}
    (hne : tree.isEmpty = false)
    (hbase : ∀ node, (∀ nodes, node ≠ .group nodes) → node.withoutSpaces = tree → motive node)
    (hgroup : ∀ nodes, .group (dropSpaces nodes) = tree → motive (.group nodes))
    (hpad : ∀ front node back, (∀ space ∈ front, space.isSpace) → (∀ space ∈ back, space.isSpace) →
      motive node → motive (.group (front ++ node :: back)))
    (node : Formula) (h : node.withoutSpaces = tree) : motive node := by
  induction hsize : sizeOf node using Nat.strongRecOn generalizing node with
  | ind size ih =>
    cases node with
    | group nodes =>
      rw [withoutSpaces] at h
      split at h
      . match hnodes : dropSpaces nodes with
        | [] =>
          rw [hnodes, ofList] at h
          subst h
          contradiction
        | [inner] =>
          rw [hnodes, ofList] at h
          subst h
          obtain ⟨front, node, back, rfl, hfront, hback, _, hnode⟩ :=
            exists_of_dropSpaces_singleton hnodes
          have hsmaller : sizeOf node < sizeOf (front ++ node :: back) :=
            List.sizeOf_lt_of_mem (by simp)
          rw [Formula.group.sizeOf_spec] at hsize
          exact hpad front node back hfront hback (ih (sizeOf node) (by omega) node hnode rfl)
        | first :: second :: rest =>
          rw [hnodes] at h
          rw [← h] at hgroup
          exact hgroup nodes (congrArg _ hnodes)
      . exact hgroup nodes h
    | _ => exact hbase _ nofun h

section Inversion

variable {node base : Formula} {args : List Formula} {name s : String}
  {degree sub sup : Option Formula} (hflat : ∀ nodes, node ≠ .group nodes)

include hflat

theorem eq_element_of_withoutSpaces (h : node.withoutSpaces = .element s) : node = .element s := by
  cases node with
  | group nodes => exact absurd rfl (hflat nodes)
  | element => simpa [withoutSpaces] using h
  | _ => simp [withoutSpaces] at h

theorem eq_symbol_of_withoutSpaces (h : node.withoutSpaces = .symbol name)
    : node = .symbol name := by
  cases node with
  | group nodes => exact absurd rfl (hflat nodes)
  | symbol => simpa [withoutSpaces] using h
  | _ => simp [withoutSpaces] at h

theorem eq_func_of_withoutSpaces (h : node.withoutSpaces = .func name args degree)
    : ∃ others written, node = .func name others written ∧ eachWithoutSpaces others = args ∧
      optionWithoutSpaces written = degree := by
  cases node with
  | group nodes => exact absurd rfl (hflat nodes)
  | func => simpa [withoutSpaces] using h
  | _ => simp [withoutSpaces] at h

theorem eq_call_of_withoutSpaces (h : node.withoutSpaces = .call name args)
    : ∃ others, node = .call name others ∧ eachWithoutSpaces others = args := by
  obtain ⟨others, written, rfl, hothers, hwritten⟩ := eq_func_of_withoutSpaces hflat h
  rw [optionWithoutSpaces_eq, Option.map_eq_none_iff] at hwritten
  exact ⟨others, by rw [hwritten, call], hothers⟩

theorem eq_attach_of_withoutSpaces (h : node.withoutSpaces = .attach base sub sup)
    : ∃ other below above, node = .attach other below above ∧ other.withoutSpaces = base ∧
      optionWithoutSpaces below = sub ∧ optionWithoutSpaces above = sup := by
  cases node with
  | group nodes => exact absurd rfl (hflat nodes)
  | attach => simpa [withoutSpaces] using h
  | _ => simp [withoutSpaces] at h

end Inversion

theorem eq_singleton_of_withoutSpaces {args : List Formula} {arg : Formula}
    (h : eachWithoutSpaces args = [arg]) : ∃ other, args = [other] ∧ other.withoutSpaces = arg := by
  rw [eachWithoutSpaces_eq] at h
  obtain ⟨other, others, rfl, hother, hnil⟩ := List.map_eq_cons_iff.mp h
  exact ⟨other, by rw [List.map_eq_nil_iff.mp hnil], hother⟩

theorem eq_pair_of_withoutSpaces {args : List Formula} {first second : Formula}
    (h : eachWithoutSpaces args = [first, second])
    : ∃ one two, args = [one, two] ∧ one.withoutSpaces = first ∧ two.withoutSpaces = second := by
  rw [eachWithoutSpaces_eq] at h
  obtain ⟨one, others, rfl, hone, hrest⟩ := List.map_eq_cons_iff.mp h
  obtain ⟨two, others, rfl, htwo, hnil⟩ := List.map_eq_cons_iff.mp hrest
  exact ⟨one, two, by rw [List.map_eq_nil_iff.mp hnil], hone, htwo⟩

end Formula
end Tex
end MathMarkup
