import Mathlib.Data.List.Basic

/-!
This module contains what the formulas of both languages have in common when they lose their spaces.
Nodes side by side are a node again: a single one is itself, and two or more are a group.
-/

namespace MathMarkup

variable {α : Type}

theorem eq_map_of_cons {β : Type} {f : α → β} {each : List α → List β} (hnil : each [] = [])
    (hcons : ∀ node nodes, each (node :: nodes) = f node :: each nodes) (nodes : List α)
    : each nodes = nodes.map f := by
  induction nodes with
  | nil => exact hnil
  | cons node nodes ih => rw [hcons, ih, List.map_cons]

/--
How the nodes of a formula lose spaces: `strip` takes a node without the spaces in it, and `drop` a
list of nodes without those that are spaces. A group that loses spaces is put together anew.
-/
structure DropsSpaces (isSpace : α → Bool) (group ofList : List α → α) (strip : α → α)
    (drop : List α → List α) : Prop where
  ofList_singleton (node : α) : ofList [node] = node
  ofList_cons_cons (first second : α) (nodes : List α) :
    ofList (first :: second :: nodes) = group (first :: second :: nodes)
  drop_nil : drop [] = []
  drop_cons (node : α) (nodes : List α) :
    drop (node :: nodes) = if isSpace node then drop nodes else strip node :: drop nodes
  strip_nil : strip (ofList []) = ofList []
  strip_space (node : α) : isSpace node → strip node = ofList []
  strip_group (nodes : List α) :
    strip (group nodes) = if nodes.any isSpace then ofList (drop nodes) else group (drop nodes)

namespace DropsSpaces

variable {isSpace : α → Bool} {group ofList : List α → α} {strip : α → α}
  {drop : List α → List α} (h : DropsSpaces isSpace group ofList strip drop)

include h

theorem drop_eq (nodes : List α) : drop nodes = (nodes.filter (!isSpace ·)).map strip := by
  induction nodes with
  | nil => rw [h.drop_nil, List.filter_nil, List.map_nil]
  | cons node nodes ih =>
    rw [h.drop_cons, ih]
    cases hspace : isSpace node
    all_goals simp [hspace]

theorem drop_append (nodes more : List α) : drop (nodes ++ more) = drop nodes ++ drop more := by
  simp only [h.drop_eq, List.filter_append, List.map_append]

theorem drop_singleton {node : α} (hnode : isSpace node = false) : drop [node] = [strip node] := by
  rw [h.drop_cons, hnode, h.drop_nil]
  rfl

theorem drop_of_spaces {nodes : List α} (hnodes : ∀ node ∈ nodes, isSpace node)
    : drop nodes = [] := by
  rw [h.drop_eq, List.filter_eq_nil_iff.mpr (by simpa using hnodes), List.map_nil]

theorem drop_dropWhile (nodes : List α) : drop (nodes.dropWhile isSpace) = drop nodes := by
  induction nodes with
  | nil => rfl
  | cons node nodes ih =>
    rw [List.dropWhile_cons]
    split
    next hnode => rw [ih, h.drop_cons, if_pos hnode]
    . rfl

/--
Spaces at both ends may be dropped before.
-/
theorem drop_trim (nodes : List α)
    : drop ((nodes.dropWhile isSpace).reverse.dropWhile isSpace).reverse = drop nodes := by
  have hreverse (nodes : List α) : drop nodes.reverse = (drop nodes).reverse := by
    rw [h.drop_eq, h.drop_eq, List.filter_reverse, List.map_reverse]
  rw [hreverse, h.drop_dropWhile, hreverse, List.reverse_reverse, h.drop_dropWhile]

theorem strip_ofList (nodes : List α) : strip (ofList nodes) = ofList (drop nodes) := by
  match nodes with
  | [] => rw [h.strip_nil, h.drop_nil]
  | [node] =>
    rw [h.ofList_singleton, h.drop_cons, h.drop_nil]
    split
    next hnode => exact h.strip_space node hnode
    . rw [h.ofList_singleton]
  | first :: second :: nodes =>
    rw [h.ofList_cons_cons, h.strip_group]
    split
    . rfl
    next hnone =>
      simp only [List.any_cons, Bool.or_eq_true, not_or] at hnone
      rw [h.drop_cons, if_neg hnone.1, h.drop_cons, if_neg hnone.2.1, h.ofList_cons_cons]

end DropsSpaces

end MathMarkup
