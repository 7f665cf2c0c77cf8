import MathMarkup.Proofs.WithoutSpaces
import MathMarkup.Typst.Formula

/-!
This module contains Typst formulas without their spaces, which is what two formulas that are set in
the same way have in common.
-/

namespace MathMarkup
namespace Typst
namespace Formula

mutual

/--
The formula without its spaces. A group that loses spaces is taken apart if less than two of its
nodes are left.
-/
def withoutSpaces : Formula → Formula
  | .space _ => .empty
  | .group nodes =>
    if nodes.any isSpace then .ofList (dropSpaces nodes) else .group (dropSpaces nodes)
  | .parens nodes => .parens (dropSpaces nodes)
  | .attach base sub sup =>
    .attach base.withoutSpaces (optionWithoutSpaces sub) (optionWithoutSpaces sup)
  | .call name args named => .call name (eachWithoutSpaces args) (namedWithoutSpaces named)
  | .frac num den => .frac num.withoutSpaces den.withoutSpaces
  | .leftRight left body right => .leftRight left body.withoutSpaces right
  | .matrix rows named => .matrix (rowsWithoutSpaces rows) (namedWithoutSpaces named)
  | .cases rows named => .cases (rowsWithoutSpaces rows) (namedWithoutSpaces named)
  | .align rows => .align (rowsWithoutSpaces rows)
  | node => node

/--
The formulas of a list that are no spaces, without the spaces in them.
-/
def dropSpaces : List Formula → List Formula
  | [] => []
  | node :: nodes =>
    if node.isSpace then dropSpaces nodes else node.withoutSpaces :: dropSpaces nodes

def eachWithoutSpaces : List Formula → List Formula
  | [] => []
  | node :: nodes => node.withoutSpaces :: eachWithoutSpaces nodes

def rowsWithoutSpaces : List (List Formula) → List (List Formula)
  | [] => []
  | cells :: rows => eachWithoutSpaces cells :: rowsWithoutSpaces rows

def namedWithoutSpaces : List (String × Formula) → List (String × Formula)
  | [] => []
  | (key, value) :: named => (key, value.withoutSpaces) :: namedWithoutSpaces named

def optionWithoutSpaces : Option Formula → Option Formula
  | none => none
  | some node => some node.withoutSpaces

end

def toList : Formula → List Formula
  | .empty => []
  | .group nodes => nodes
  | node => [node]

theorem dropsSpaces : DropsSpaces isSpace group ofList withoutSpaces dropSpaces where
  ofList_singleton _ := rfl
  ofList_cons_cons _ _ _ := rfl
  drop_nil := by rw [dropSpaces]
  drop_cons node nodes := by rw [dropSpaces]
  strip_nil := by rw [ofList, withoutSpaces] <;> nofun
  strip_space node h := by
    cases node with
    | space => rw [withoutSpaces, ofList]
    | _ => contradiction
  strip_group nodes := by rw [withoutSpaces]

theorem eachWithoutSpaces_eq (nodes : List Formula)
    : eachWithoutSpaces nodes = nodes.map withoutSpaces :=
  eq_map_of_cons (by rw [eachWithoutSpaces]) (fun _ _ => by rw [eachWithoutSpaces]) nodes

/--
A formula that is a group only if it still is one without its spaces.
-/
def Trimmed (node : Formula) : Prop :=
  ∀ nodes, node = .group nodes → ∃ others, node.withoutSpaces = .group others

/--
A formula in which bases and the arguments of calls have no spaces at their ends, and named arguments
and lengths no spaces at all.
-/
inductive Tidy : Formula → Prop where
  | atom (s : String) : Tidy (.atom s)
  | symbol (name : String) : Tidy (.symbol name)
  | text (s : String) : Tidy (.text s)
  | space (s : String) : Tidy (.space s)
  | nothing : Tidy .nothing
  | empty : Tidy .empty
  | group {nodes : List Formula} (h : ∀ node ∈ nodes, Tidy node) : Tidy (.group nodes)
  | parens {nodes : List Formula} (h : ∀ node ∈ nodes, Tidy node) : Tidy (.parens nodes)
  | attach {base : Formula} {sub sup : Option Formula} (hbase : Tidy base)
    (htrimmed : Trimmed base) (hsub : ∀ node ∈ sub, Tidy node) (hsup : ∀ node ∈ sup, Tidy node) :
    Tidy (.attach base sub sup)
  | call {name : String} {args : List Formula} {named : List (String × Formula)}
    (hname : name ≠ "#h") (h : ∀ arg ∈ args, Tidy arg) (htrimmed : ∀ arg ∈ args, Trimmed arg)
    (hnamed : namedWithoutSpaces named = named) : Tidy (.call name args named)
  | frac {num den : Formula} (hnum : Tidy num) (hden : Tidy den) : Tidy (.frac num den)
  | leftRight {left right : Option String} {body : Formula} (h : Tidy body) :
    Tidy (.leftRight left body right)
  | matrix {rows : List (List Formula)} {named : List (String × Formula)}
    (h : ∀ row ∈ rows, ∀ cell ∈ row, Tidy cell) (hnamed : namedWithoutSpaces named = named) :
    Tidy (.matrix rows named)
  | cases {rows : List (List Formula)} {named : List (String × Formula)}
    (h : ∀ row ∈ rows, ∀ cell ∈ row, Tidy cell) (hnamed : namedWithoutSpaces named = named) :
    Tidy (.cases rows named)

/--
A formula that is the given tree up to spaces.
-/
structure Image (tree node : Formula) : Prop where
  isSpace : node.isSpace = false
  withoutSpaces : node.withoutSpaces = tree
  tidy : Tidy node

/--
Formulas side by side that are the given trees up to spaces.
-/
structure Images (trees nodes : List Formula) : Prop where
  dropSpaces : dropSpaces nodes = trees
  tidy : ∀ node ∈ nodes, Tidy node
  flat : ∀ node ∈ nodes, ∀ more, node ≠ .group more

section Image

variable {tree node : Formula} {trees others nodes more : List Formula}

theorem images_spaces (h : ∀ node ∈ nodes, node.isSpace) : Images [] nodes := by
  refine ⟨dropsSpaces.drop_of_spaces h, fun node hnode => ?_, fun node hnode => ?_⟩
  all_goals
    have hspace := h node hnode
    cases node with
    | space s => first | exact .space s | exact nofun
    | _ => contradiction

theorem Images.append (h : Images trees nodes) (hmore : Images others more)
    : Images (trees ++ others) (nodes ++ more) := by
  refine ⟨?_, List.forall_mem_append.mpr ⟨h.tidy, hmore.tidy⟩,
    List.forall_mem_append.mpr ⟨h.flat, hmore.flat⟩⟩
  rw [dropsSpaces.drop_append, h.dropSpaces, hmore.dropSpaces]

theorem Image.images (h : Image tree node) (hflat : ∀ more, node ≠ .group more)
    : Images [tree] [node] := by
  refine ⟨?_, by simpa using h.tidy, by simpa using hflat⟩
  rw [dropsSpaces.drop_singleton h.isSpace, h.withoutSpaces]

theorem tidy_ofList (h : ∀ node ∈ nodes, Tidy node) : Tidy (ofList nodes) := by
  match nodes with
  | [] => exact .empty
  | [node] => exact h node List.mem_cons_self
  | _ :: _ :: _ => exact .group h

theorem Images.image_ofList (h : Images trees nodes) (hne : trees ≠ [])
    : Image (ofList trees) (ofList nodes) := by
  refine ⟨?_, by rw [dropsSpaces.strip_ofList, h.dropSpaces], tidy_ofList h.tidy⟩
  match nodes with
  | [] => rfl
  | [node] =>
    by_contra hspace
    rw [Bool.not_eq_false] at hspace
    have hdrop := h.dropSpaces
    rw [dropsSpaces.drop_of_spaces (by simpa [ofList] using hspace)] at hdrop
    exact hne hdrop.symm
  | _ :: _ :: _ => rfl

theorem mem_of_mem_trimSpaces (h : node ∈ trimSpaces nodes) : node ∈ nodes := by
  rw [trimSpaces, List.mem_reverse] at h
  have hmem := (List.dropWhile_sublist _).mem h
  rw [List.mem_reverse] at hmem
  exact (List.dropWhile_sublist _).mem hmem

theorem isSpace_of_head?_dropWhile (nodes : List Formula)
    : ∀ node ∈ (nodes.dropWhile isSpace).head?, node.isSpace = false := by
  intro node hnode
  have hnot := List.head?_dropWhile_not isSpace nodes
  rw [hnode] at hnot
  exact hnot

theorem ends_trimSpaces (nodes : List Formula)
    : (∀ node ∈ (trimSpaces nodes).head?, node.isSpace = false) ∧
      ∀ node ∈ (trimSpaces nodes).getLast?, node.isSpace = false := by
  constructor
  . intro node hnode
    have hprefix : trimSpaces nodes <+: nodes.dropWhile isSpace := by
      rw [trimSpaces, ← List.reverse_suffix, List.reverse_reverse]
      exact List.dropWhile_suffix _
    obtain ⟨back, hback⟩ := hprefix
    apply isSpace_of_head?_dropWhile nodes node
    rw [← hback, List.head?_append, hnode]
    rfl
  . rw [trimSpaces, List.getLast?_reverse]
    exact isSpace_of_head?_dropWhile _

/--
Of what is trimmed and is a group, at least the nodes at both ends are left without the spaces.
-/
theorem trimmed_ofList (h : ∀ node ∈ nodes, ∀ more, node ≠ .group more)
    : Trimmed (ofList (trimSpaces nodes)) := by
  obtain ⟨hfirst, hlast⟩ := ends_trimSpaces nodes
  have hflat : ∀ node ∈ trimSpaces nodes, ∀ more, node ≠ .group more :=
    fun node hnode => h node (mem_of_mem_trimSpaces hnode)
  generalize trimSpaces nodes = trimmed at hfirst hlast hflat
  rw [Trimmed, dropsSpaces.strip_ofList]
  rcases trimmed with _ | ⟨first, rest⟩
  . exact nofun
  rcases List.eq_nil_or_concat rest with rfl | ⟨middle, last, rfl⟩
  . intro nodes heq
    exact absurd heq (hflat first List.mem_cons_self nodes)
  . rw [List.concat_eq_append, ← List.cons_append, List.getLast?_concat] at hlast
    have hdrop : dropSpaces (first :: middle.concat last) =
        first.withoutSpaces :: (dropSpaces middle ++ [last.withoutSpaces]) := by
      rw [dropSpaces, hfirst first rfl, List.concat_eq_append, dropsSpaces.drop_append,
        dropsSpaces.drop_singleton (hlast last rfl)]
      rfl
    rw [hdrop]
    intro _ _
    cases dropSpaces middle with
    | nil => exact ⟨_, rfl⟩
    | cons next more => exact ⟨_, rfl⟩

theorem Images.image_cell (h : Images trees nodes) (hne : trees ≠ [])
    : Image (ofList trees) (ofList (trimSpaces nodes)) := by
  have htrim : Images trees (trimSpaces nodes) :=
    ⟨by rw [trimSpaces, dropsSpaces.drop_trim, h.dropSpaces], fun node hnode =>
      h.tidy node (mem_of_mem_trimSpaces hnode), fun node hnode =>
      h.flat node (mem_of_mem_trimSpaces hnode)⟩
  exact htrim.image_ofList hne

end Image

end Formula
end Typst
end MathMarkup
