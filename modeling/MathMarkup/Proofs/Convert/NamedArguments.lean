import MathMarkup.Proofs.Convert.OfTypst
import MathMarkup.Proofs.Result

/-!
This module contains what becomes of named arguments when a Typst formula is converted in strict
mode. TeX can express the limits of an operator and the delimiter, alignment and rules of a matrix.
All other named arguments are refused, but those of a case distinction, which are never looked at.
-/

namespace MathMarkup

namespace Typst
namespace Formula

/--
The names of the arguments of a matrix that TeX can express.
-/
def matrixKeys : List String :=
  ["delim", "align", "augment"]

/--
The formulas directly inside of a formula that are looked at when it is converted. The length of a
horizontal space is copied as it is written, and of the arguments of a matrix that share a name the
first one counts.
-/
def visited : Formula → List Formula
  | .group nodes | .parens nodes => nodes
  | .attach base sub sup => base :: (sub.toList ++ sup.toList)
  | .call "#h" [_] [] => []
  | .call _ args named => args ++ named.map Prod.snd
  | .frac num den => [num, den]
  | .leftRight _ body _ => [body]
  | .matrix rows named => rows.flatten ++ matrixKeys.filterMap (named.lookup ·)
  | .cases rows _ | .align rows => rows.flatten
  | _ => []

/--
A formula that is looked at when another one is converted, at any depth.
-/
inductive Visits : Formula → Formula → Prop where
  | refl (node : Formula) : Visits node node
  | step {node child other : Formula} (hchild : child ∈ node.visited) (h : Visits child other) :
    Visits node other

/--
The named arguments that TeX can express, with the formula that they belong to.
-/
inductive Expressible : Formula → String × Formula → Prop where
  | limits {text : String} :
    Expressible (.call "op" [.text text] [("limits", .symbol "#true")]) ("limits", .symbol "#true")
  | matrix {rows : List (List Formula)} {named : List (String × Formula)} {key : String}
    {value : Formula} (h : key ∈ matrixKeys) : Expressible (.matrix rows named) (key, value)

end Formula
end Typst

namespace Tex
namespace Formula

open OfTypst Typst.Formula

/--
A formula that is converted on its own, or one without named arguments around such formulas.
-/
inductive Sound (options : Options) : Typst.Formula → Prop where
  | converted {node : Typst.Formula} {image : Formula} (h : ofTypst options node = .ok image) :
    Sound options node
  | unnamed {node : Typst.Formula} (hnamed : node.named = [])
    (h : ∀ child ∈ node.visited, Sound options child) : Sound options node

/--
What a conversion in strict mode has made sure of.
-/
structure Accounted (options : Options) (node : Typst.Formula) : Prop where
  visited : ∀ child ∈ node.visited, Sound options child
  named : ∀ argument ∈ node.named,
    Expressible node argument ∨ ∃ rows named, node = .cases rows named

section Parts

variable {options : Options}

theorem yields_sound (node : Typst.Formula)
    : Yields (ofTypst options node) fun _ => Sound options node :=
  fun _ h => .converted h

theorem sound_leaf {node : Typst.Formula} (hnamed : node.named = []) (h : node.visited = [])
    : Sound options node := by
  apply Sound.unnamed hnamed
  rw [h]
  exact List.forall_mem_nil _

theorem yields_sound_each (nodes : List Typst.Formula)
    : Yields (eachOfTypst options nodes) fun _ => ∀ node ∈ nodes, Sound options node := by
  induction nodes with
  | nil => exact yields_ok (List.forall_mem_nil _)
  | cons node nodes ih =>
    rw [eachOfTypst]
    refine (yields_sound node).bind ?_
    intro _ hnode
    refine ih.bind ?_
    intro _ hnodes
    exact yields_ok (List.forall_mem_cons.mpr ⟨hnode, hnodes⟩)

theorem yields_sound_rows (rows : List (List Typst.Formula))
    : Yields (rowsOfTypst options rows) fun _ => ∀ node ∈ rows.flatten, Sound options node := by
  induction rows with
  | nil => exact yields_ok (List.forall_mem_nil _)
  | cons row rows ih =>
    rw [rowsOfTypst]
    refine (yields_sound_each row).bind ?_
    intro _ hrow
    refine ih.bind ?_
    intro _ hrows
    exact yields_ok (List.forall_mem_append.mpr ⟨hrow, hrows⟩)

theorem yields_sound_option (node : Option Typst.Formula)
    : Yields (optionOfTypst options node) fun _ => ∀ child ∈ node.toList, Sound options child := by
  cases node with
  | none => exact yields_ok (List.forall_mem_nil _)
  | some node =>
    rw [optionOfTypst]
    refine (yields_sound node).bind ?_
    intro _ hnode
    exact yields_ok (List.forall_mem_singleton.mpr hnode)

theorem accounted_of_unnamed {node : Typst.Formula} (hnamed : node.named = [])
    (h : ∀ child ∈ node.visited, Sound options child) : Accounted options node where
  visited := h
  named := by
    rw [hnamed]
    exact List.forall_mem_nil _

end Parts

section Matrix

variable {options : Options} {named : List (String × Typst.Formula)}

theorem yields_sound_delim (options : Options) (delim : Option Typst.Formula)
    : Yields (matrixFrame delim) fun _ => ∀ value ∈ delim, Sound options value := by
  unfold matrixFrame
  split
  . exact yields_ok nofun
  . rintro _ _ _ ⟨⟩
    exact sound_leaf rfl rfl
  . rintro _ _ _ ⟨⟩
    exact sound_leaf rfl rfl
  . exact yields_error _

theorem yields_sound_align (options : Options) (align : Option Typst.Formula)
    : Yields (columnLetter align) fun _ => ∀ value ∈ align, Sound options value := by
  unfold columnLetter
  split
  . exact yields_ok nofun
  . rintro _ _ _ ⟨⟩
    exact sound_leaf rfl rfl
  . exact yields_error _

theorem yields_sound_augment (columns : Nat) (augment : Option Typst.Formula)
    : Yields (columnLines options columns augment) fun _ =>
        ∀ value ∈ augment, Sound options value := by
  unfold columnLines
  split
  . exact yields_ok nofun
  . rintro _ _ _ ⟨⟩
    exact sound_leaf rfl rfl
  . exact yields_error _

theorem mem_matrixKeys_of_foreign (h : foreignArgument? named = none)
    : ∀ argument ∈ named, argument.1 ∈ matrixKeys := by
  intro argument hargument
  have hnone := List.find?_eq_none.mp (Option.map_eq_none_iff.mp h) argument hargument
  exact Decidable.not_not.mp fun hkey => hnone (decide_eq_true hkey)

theorem accounted_matrix {rows : List (List Typst.Formula)}
    (hrows : ∀ node ∈ rows.flatten, Sound options node) (h : foreignArgument? named = none)
    (hdelim : ∀ value ∈ named.lookup "delim", Sound options value)
    (halign : ∀ value ∈ named.lookup "align", Sound options value)
    (haugment : ∀ value ∈ named.lookup "augment", Sound options value)
    : Accounted options (.matrix rows named) where
  visited := by
    refine List.forall_mem_append.mpr ⟨hrows, ?_⟩
    intro value hvalue
    obtain ⟨key, hkey, hlookup⟩ := List.mem_filterMap.mp hvalue
    have hkeys : ∀ key ∈ matrixKeys, ∀ value ∈ named.lookup key, Sound options value := by
      simpa [matrixKeys] using ⟨hdelim, halign, haugment⟩
    exact hkeys key hkey value hlookup
  named := fun argument hargument => .inl (.matrix (mem_matrixKeys_of_foreign h argument hargument))

theorem yields_accounted_matrix (hstrict : options.nonStrict = false)
    {rows : List (List Typst.Formula)} (hrows : ∀ node ∈ rows.flatten, Sound options node)
    (images : List (List Formula))
    : Yields (OfTypst.matrix options named images) fun _ =>
        Accounted options (.matrix rows named) := by
  unfold OfTypst.matrix
  refine (yields_sound_delim options _).bind ?_
  intro frame hdelim
  rw [hstrict]
  cases hforeign : foreignArgument? named with
  | some key => exact yields_error _
  | none =>
    dsimp only
    split
    next hnone =>
      obtain ⟨halign, haugment⟩ := Bool.and_eq_true_iff.mp hnone
      apply yields_ok
      apply accounted_matrix hrows hforeign hdelim
      . rw [Option.isNone_iff_eq_none.mp halign]
        exact nofun
      . rw [Option.isNone_iff_eq_none.mp haugment]
        exact nofun
    . unfold arraySpec
      refine Yields.bind (p := fun _ => Accounted options (.matrix rows named)) ?_ ?_
      . refine (yields_sound_align options _).bind ?_
        intro letter halign
        refine (yields_sound_augment _ _).bind ?_
        intro lines haugment
        exact yields_ok (accounted_matrix hrows hforeign hdelim halign haugment)
      . intro spec h result _
        exact h

end Matrix

section Calls

variable {options : Options} {name : String} {args : List Typst.Formula}

theorem accounted_call (h : ∀ arg ∈ args, Sound options arg)
    : Accounted options (.call name args []) := by
  apply accounted_of_unnamed rfl
  unfold Typst.Formula.visited
  split <;> simp_all

theorem accounted_limits (s : String)
    : Accounted options (.call "op" [.text s] [("limits", .symbol "#true")]) where
  visited := by
    have htext : Sound options (.text s) := sound_leaf rfl rfl
    have hvalue : Sound options (.symbol "#true") := sound_leaf rfl rfl
    exact List.forall_mem_cons.mpr ⟨htext, List.forall_mem_singleton.mpr hvalue⟩
  named := List.forall_mem_singleton.mpr (.inl .limits)

theorem yields_accounted_one (arg : Typst.Formula) (build : Formula → Formula)
    : Yields (do let image ← ofTypst options arg; return build image) fun _ =>
        Accounted options (.call name [arg] []) := by
  refine (yields_sound arg).bind ?_
  intro _ h
  exact yields_ok (accounted_call (List.forall_mem_singleton.mpr h))

theorem yields_accounted_two {one other : Typst.Formula} (hargs : args ⊆ [one, other])
    (build : Formula → Formula → Formula)
    : Yields (do
          let first ← ofTypst options one
          let second ← ofTypst options other
          return build first second) fun _ =>
        Accounted options (.call name args []) := by
  refine (yields_sound one).bind ?_
  intro _ hone
  refine (yields_sound other).bind ?_
  intro _ hother
  have hboth : ∀ arg ∈ [one, other], Sound options arg :=
    List.forall_mem_cons.mpr ⟨hone, List.forall_mem_singleton.mpr hother⟩
  exact yields_ok (accounted_call fun arg harg => hboth arg (hargs harg))

theorem accounted_text (s : String) : Accounted options (.call name [.text s] []) :=
  accounted_call (List.forall_mem_singleton.mpr (sound_leaf rfl rfl))

theorem yields_accounted_call
    : Yields (ofTypst options (.call name args [])) fun _ =>
        Accounted options (.call name args []) := by
  rw [ofTypst.eq_def]
  dsimp only
  split
  . exact yields_accounted_two (List.Subset.refl _) _
  . exact yields_accounted_two (List.Subset.refl _) _
  . exact yields_accounted_one _ _
  . exact yields_accounted_two (List.reverse_perm _).subset _
  . exact yields_ok (accounted_text _)
  next length hhead =>
    have hname : name = "#h" := Decidable.not_not.mp fun hname => ofName_ne_hspace hname hhead
    subst hname
    exact yields_ok (accounted_of_unnamed rfl (List.forall_mem_nil _))
  next body _ =>
    refine (yields_sound body).bind ?_
    intro _ hbody
    have hbold : Sound options (.call "bold" [body] []) :=
      .unnamed rfl (List.forall_mem_singleton.mpr hbody)
    exact yields_ok (accounted_call (List.forall_mem_singleton.mpr hbold))
  . exact yields_accounted_one _ _
  . exact yields_accounted_two (List.Subset.refl _) _
  . exact yields_accounted_two (List.Subset.refl _) _
  next body _ =>
    refine (yields_sound body).mono ?_
    intro _ hbody
    exact accounted_call (List.forall_mem_singleton.mpr hbody)
  . exact fun _ _ => accounted_text _
  . refine (yields_sound_each _).bind ?_
    intro _ hargs _ _
    exact accounted_call hargs

theorem yields_accounted_named (hstrict : options.nonStrict = false)
    {named : List (String × Typst.Formula)} (hne : named ≠ [])
    : Yields (ofTypst options (.call name args named)) fun _ =>
        Accounted options (.call name args named) := by
  rw [ofTypst.eq_def]
  dsimp only
  rw [hstrict]
  split
  . split
    . exact yields_ok (accounted_limits _)
    . exact yields_error _
  . exact yields_error _
  . contradiction

end Calls

section Formulas

variable {options : Options}

theorem yields_accounted_attach (base : Typst.Formula) (sub sup : Option Typst.Formula)
    : Yields (ofTypst options (.attach base sub sup)) fun _ =>
        Accounted options (.attach base sub sup) := by
  rw [ofTypst.eq_def]
  refine (yields_sound_option sub).bind ?_
  intro _ hsub
  refine (yields_sound_option sup).bind ?_
  intro _ hsup
  have haccounted (hbase : Sound options base) : Accounted options (.attach base sub sup) :=
    accounted_of_unnamed rfl
      (List.forall_mem_cons.mpr ⟨hbase, List.forall_mem_append.mpr ⟨hsub, hsup⟩⟩)
  split
  . split
    next body =>
      refine (yields_sound body).bind ?_
      intro _ hbody
      exact yields_ok (haccounted (.unnamed rfl (List.forall_mem_singleton.mpr hbody)))
    . exact yields_error _
  . exact yields_ok (haccounted (sound_leaf rfl rfl))
  . refine (yields_sound base).bind ?_
    intro _ hbase
    exact yields_ok (haccounted hbase)

/--
One step of a conversion in strict mode: what is directly inside is converted in turn, and the named
arguments are those that TeX can express or those of a case distinction.
-/
theorem yields_accounted (hstrict : options.nonStrict = false) (node : Typst.Formula)
    : Yields (ofTypst options node) fun _ => Accounted options node := by
  cases node with
  | group nodes =>
    rw [ofTypst]
    refine (yields_sound_each nodes).bind ?_
    intro _ hnodes
    exact yields_ok (accounted_of_unnamed rfl hnodes)
  | parens nodes =>
    rw [ofTypst]
    refine (yields_sound_each nodes).bind ?_
    intro _ hnodes
    exact yields_ok (accounted_of_unnamed rfl hnodes)
  | attach base sub sup => exact yields_accounted_attach base sub sup
  | call name args named =>
    cases named with
    | nil => exact yields_accounted_call
    | cons argument named => exact yields_accounted_named hstrict (List.cons_ne_nil _ _)
  | frac num den =>
    rw [ofTypst]
    refine (yields_sound num).bind ?_
    intro _ hnum
    refine (yields_sound den).bind ?_
    intro _ hden
    exact yields_ok (accounted_of_unnamed rfl
      (List.forall_mem_cons.mpr ⟨hnum, List.forall_mem_singleton.mpr hden⟩))
  | leftRight left body right =>
    rw [ofTypst]
    refine (yields_trivial _).bind ?_
    intro _ _
    refine (yields_trivial _).bind ?_
    intro _ _
    refine (yields_sound body).bind ?_
    intro _ hbody
    exact yields_ok (accounted_of_unnamed rfl (List.forall_mem_singleton.mpr hbody))
  | matrix rows named =>
    rw [ofTypst]
    refine (yields_sound_rows rows).bind ?_
    intro images hrows
    exact yields_accounted_matrix hstrict hrows images
  | cases rows named =>
    rw [ofTypst]
    refine (yields_sound_rows rows).bind ?_
    intro _ hrows
    exact yields_ok ⟨hrows, fun _ _ => .inr ⟨rows, named, rfl⟩⟩
  | align rows =>
    rw [ofTypst]
    refine (yields_sound_rows rows).bind ?_
    intro _ hrows
    exact yields_ok (accounted_of_unnamed rfl hrows)
  | _ => exact fun _ _ => accounted_of_unnamed rfl (List.forall_mem_nil _)

theorem Sound.accounted (hstrict : options.nonStrict = false) {node : Typst.Formula}
    (h : Sound options node) : Accounted options node := by
  cases h with
  | converted h => exact yields_accounted hstrict node _ h
  | unnamed hnamed h => exact accounted_of_unnamed hnamed h

theorem Sound.of_visits (hstrict : options.nonStrict = false) {tree node : Typst.Formula}
    (hvisits : Visits tree node) (h : Sound options tree) : Sound options node := by
  induction hvisits with
  | refl => exact h
  | step hchild _ ih => exact ih ((h.accounted hstrict).visited _ hchild)

theorem ofTypst_cases (rows : List (List Typst.Formula)) (named : List (String × Typst.Formula))
    : ofTypst options (.cases rows named) = ofTypst options (.cases rows []) := by
  rw [ofTypst, ofTypst]

/--
What TeX cannot express is refused in strict mode, at any depth: if a formula is converted, then
every named argument that is looked at is the limits of an operator, or the delimiter, the alignment
or the rules of a matrix, or else it belongs to a case distinction, which is converted as if it had
none.
-/
theorem expressible_of_ofTypst (hstrict : options.nonStrict = false) {tree node : Typst.Formula}
    {image : Formula} (h : ofTypst options tree = .ok image) (hvisits : Visits tree node)
    {argument : String × Typst.Formula} (hargument : argument ∈ node.named)
    : Expressible node argument ∨ ∃ rows named, node = .cases rows named ∧
        ofTypst options node = ofTypst options (.cases rows []) := by
  have hnode : Sound options node := Sound.of_visits hstrict hvisits (.converted h)
  rcases (hnode.accounted hstrict).named argument hargument with hexpressible | ⟨rows, named, rfl⟩
  . exact .inl hexpressible
  . exact .inr ⟨rows, named, rfl, ofTypst_cases rows named⟩

theorem expressible_of_ofTypst_rules
    : let matrix : Typst.Formula := .matrix [[.atom "a", .atom "b"]] [("augment", .symbol "#1")]
      let tree : Typst.Formula := .frac (.atom "c") (.group [.parens [matrix]])
      (∃ image, ofTypst {} tree = .ok image) ∧ Visits tree matrix ∧
        (Expressible matrix ("augment", .symbol "#1") ∨ ∃ rows named, matrix = .cases rows named ∧
          ofTypst {} matrix = ofTypst {} (.cases rows [])) := by
  intro matrix tree
  have htree : ∃ image, ofTypst {} tree = .ok image := exists_of_isSome (by decide +kernel)
  have hparens : Visits (.group [.parens [matrix]]) matrix :=
    .step List.mem_cons_self (.step List.mem_cons_self (.refl matrix))
  have hvisits : Visits tree matrix := .step (List.mem_cons_of_mem _ List.mem_cons_self) hparens
  obtain ⟨image, h⟩ := htree
  exact ⟨⟨image, h⟩, hvisits, expressible_of_ofTypst rfl h hvisits List.mem_cons_self⟩

/--
The delimiter of a case distinction is not refused. It is left out.
-/
theorem cases_delimiter_lost
    : ofTypst {} (.cases [[.atom "a"]] [("delim", .text "[")]) =
        .ok (.env "cases" none [[.element "a"]]) ∧
      ¬ Expressible (.cases [[.atom "a"]] [("delim", .text "[")]) ("delim", .text "[") :=
  ⟨rfl, nofun⟩

end Formulas

end Formula
end Tex
end MathMarkup
