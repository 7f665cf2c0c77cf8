import Mathlib.Logic.Relation
import MathMarkup.Proofs.Script

/-!
This module contains the proof that spaces and line ends around script markers never matter in TeX.
The parser drops them before it reads anything, and which ones it drops depends only on the tokens
that are no spaces.
-/

namespace MathMarkup
namespace Tex

/--
The second list has one space or line end more, with nothing but spaces between it and a marker.
-/
inductive Padded : List Token → List Token → Prop where
  | before (front back : List Token) {space marker : Token} {spaces : List Token}
    (hspace : space.isSpace) (hspaces : ∀ token ∈ spaces, token.isSpace)
    (hmarker : marker.isMarker) :
    Padded (front ++ (spaces ++ marker :: back)) (front ++ space :: (spaces ++ marker :: back))
  | after (front back : List Token) {space marker : Token} {spaces : List Token}
    (hspace : space.isSpace) (hspaces : ∀ token ∈ spaces, token.isSpace)
    (hmarker : marker.isMarker) :
    Padded (front ++ marker :: (spaces ++ back)) (front ++ marker :: (spaces ++ space :: back))

/--
Lists that arise from each other by inserting and deleting spaces around script markers.
-/
def Respaced : List Token → List Token → Prop :=
  Relation.EqvGen Padded

def firstSolid? (tokens : List Token) : Option Token :=
  tokens.find? fun token => !token.isSpace

section FirstSolid

variable {space marker : Token} {spaces tokens : List Token}

theorem firstSolid?_cons (h : space.isSpace)
    : firstSolid? (space :: tokens) = firstSolid? tokens := by
  apply List.find?_cons_of_neg
  simp [h]

theorem isSpace_of_isMarker (h : marker.isMarker) : marker.isSpace = false := by
  obtain ⟨place, hplace⟩ := Option.isSome_iff_exists.mp h
  exact isSpace_of_script? hplace

theorem firstSolid?_marker (hspaces : ∀ token ∈ spaces, token.isSpace) (hmarker : marker.isMarker)
    : firstSolid? (spaces ++ marker :: tokens) = some marker := by
  induction spaces with
  | nil =>
    apply List.find?_cons_of_pos
    simp [isSpace_of_isMarker hmarker]
  | cons space spaces ih =>
    rw [List.forall_mem_cons] at hspaces
    rw [List.cons_append, firstSolid?_cons hspaces.1, ih hspaces.2]

end FirstSolid

section Strip

variable {space marker : Token} {spaces one other tokens : List Token} {afterMarker : Bool}

theorem strip_space (hspace : space.isSpace)
    (h : afterMarker = true ∨ ∃ marker : Token, marker.isMarker ∧ firstSolid? tokens = some marker)
    : stripScriptSpaces.go afterMarker (space :: tokens) =
      stripScriptSpaces.go afterMarker tokens := by
  rw [stripScriptSpaces.go, if_pos hspace, if_pos]
  rcases h with rfl | ⟨marker, hmarker, hfirst⟩
  . rfl
  . rw [firstSolid?] at hfirst
    simp [hfirst, hmarker]

theorem strip_spaces (hspaces : ∀ token ∈ spaces, token.isSpace)
    : stripScriptSpaces.go true (spaces ++ tokens) = stripScriptSpaces.go true tokens := by
  induction spaces with
  | nil => rfl
  | cons space spaces ih =>
    rw [List.forall_mem_cons] at hspaces
    rw [List.cons_append, strip_space hspaces.1 (.inl rfl), ih hspaces.2]

theorem strip_front (hfirst : firstSolid? one = firstSolid? other)
    (h : ∀ afterMarker,
      stripScriptSpaces.go afterMarker one = stripScriptSpaces.go afterMarker other)
    (front : List Token) (afterMarker : Bool)
    : stripScriptSpaces.go afterMarker (front ++ one) =
      stripScriptSpaces.go afterMarker (front ++ other) := by
  induction front generalizing afterMarker with
  | nil => exact h afterMarker
  | cons token front ih =>
    have hnext : ((front ++ one).find? fun next => !next.isSpace) =
        (front ++ other).find? fun next => !next.isSpace := by
      rw [List.find?_append, List.find?_append]
      exact congrArg _ hfirst
    simp only [List.cons_append, stripScriptSpaces.go, hnext, ih]

theorem Padded.strip_eq (h : Padded one other)
    : stripScriptSpaces one = stripScriptSpaces other := by
  cases h with
  | before front back hspace hspaces hmarker =>
    have hfirst := @firstSolid?_marker _ _ back hspaces hmarker
    apply strip_front
    . exact (firstSolid?_cons hspace).symm
    . intro afterMarker
      exact (strip_space hspace (.inr ⟨_, hmarker, hfirst⟩)).symm
  | after front back hspace hspaces hmarker =>
    have hsolid := isSpace_of_isMarker hmarker
    apply strip_front
    . exact (@firstSolid?_marker _ [] _ (List.forall_mem_nil _) hmarker).trans
        (@firstSolid?_marker _ [] _ (List.forall_mem_nil _) hmarker).symm
    . intro afterMarker
      rw [strip_cons hsolid, strip_cons hsolid, hmarker, strip_spaces hspaces, strip_spaces hspaces,
        strip_space hspace (.inl rfl)]

end Strip

/--
Spaces and line ends around script markers change neither the formula that is read nor the error.
-/
theorem parse_of_respaced {one other : List Token} (h : Respaced one other)
    : parse one = parse other := by
  have hstrip : stripScriptSpaces one = stripScriptSpaces other := by
    induction h with
    | rel _ _ h => exact h.strip_eq
    | refl => rfl
    | symm _ _ _ ih => exact ih.symm
    | trans _ _ _ _ _ hfirst hsecond => exact hfirst.trans hsecond
  rw [parse, hstrip, parse]

/--
The space before the marker is deleted, and a line end and a space are inserted behind it.
-/
theorem parse_of_respaced_subscript
    : let x : Token := ⟨.element, "x", .ofOffsets 0 1⟩
      let blank : Token := ⟨.space, " ", .ofOffsets 1 2⟩
      let marker : Token := ⟨.control, "_", .ofOffsets 2 3⟩
      let feed : Token := ⟨.newline, "\n", .ofOffsets 3 4⟩
      Respaced [x, blank, marker, x] [x, marker, feed, blank, x] ∧
        parse [x, blank, marker, x] = parse [x, marker, feed, blank, x] := by
  intro x blank marker feed
  have hrespaced : Respaced [x, blank, marker, x] [x, marker, feed, blank, x] := by
    apply Relation.EqvGen.trans _ [x, marker, x]
    . exact .symm _ _ (.rel _ _
        (@Padded.before [x] [x] blank marker [] rfl (List.forall_mem_nil _) rfl))
    apply Relation.EqvGen.trans _ [x, marker, feed, x]
    . exact .rel _ _ (@Padded.after [x] [x] feed marker [] rfl (List.forall_mem_nil _) rfl)
    . exact .rel _ _
        (@Padded.after [x] [x] blank marker [feed] rfl (by simp [feed, Token.isSpace]) rfl)
  exact ⟨hrespaced, parse_of_respaced hrespaced⟩

end Tex
end MathMarkup
