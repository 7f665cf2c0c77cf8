import Mathlib.Data.List.Destutter
import MathMarkup.Proofs.Scan
import MathMarkup.Proofs.Span

/-!
This module contains the places of tokens in a text. The scanner cuts a text into pieces that follow
each other without a gap, and all tokens that stand for a piece have its place. So the places make
up the text once repetitions are left out, and each token can be traced to the piece that it stands
for.
-/

namespace MathMarkup

namespace Text

@[simp]
theorem byteSize_nil : byteSize [] = 0 := rfl

@[simp]
theorem byteSize_cons (c : Char) (cs : List Char)
    : byteSize (c :: cs) = c.utf8Size + byteSize cs := rfl

@[simp]
theorem byteSize_append (cs rest : List Char)
    : byteSize (cs ++ rest) = byteSize cs + byteSize rest := by
  induction cs with
  | nil => simp
  | cons c cs ih => rw [List.cons_append, byteSize_cons, byteSize_cons, ih, Nat.add_assoc]

theorem byteSize_pos {cs : List Char} (h : cs ≠ []) : 0 < byteSize cs := by
  cases cs with
  | nil => contradiction
  | cons c cs =>
    have := c.utf8Size_pos
    rw [byteSize_cons]
    omega

theorem utf8ByteSize_ofList (cs : List Char) : (String.ofList cs).utf8ByteSize = byteSize cs := by
  induction cs with
  | nil => rfl
  | cons c cs ih =>
    rw [String.ofList_cons, String.utf8ByteSize_append, String.utf8ByteSize_singleton, ih,
      byteSize_cons]

theorem byteSize_toList (text : String) : byteSize text.toList = text.utf8ByteSize := by
  rw [← utf8ByteSize_ofList, String.ofList_toList]

end Text

open Text

namespace Span

/--
The place of `slice` in a text, counted in bytes. Since the text is cut between characters, both
ends are character boundaries.
-/
def Locates (span : Span) (text : String) (slice : List Char) : Prop :=
  ∃ before after, text.toList = before ++ slice ++ after ∧
    span.range? = some (byteSize before, byteSize before + byteSize slice)

/--
The ends of slices that follow each other from an offset on.
-/
def consecutive (offset : Nat) : (slices : List (List Char)) → List (Nat × Nat)
  | [] => []
  | slice :: slices =>
    (offset, offset + byteSize slice) :: consecutive (offset + byteSize slice) slices

end Span

namespace Scan

variable {κ : Type} {rules : List (Rule κ)} {unknown : κ}

/--
A piece of a text with the tokens that stand for it.
-/
structure Piece (κ : Type) where
  slice : List Char
  lexemes : List (κ × String)

def Piece.tokensAt (piece : Piece κ) (span : Span) : List (Token κ) :=
  piece.lexemes.map fun (kind, text) => ⟨kind, text, span⟩

def pieces (rules : List (Rule κ)) (unknown : κ) (cs : List Char) : List (Piece κ) :=
  match cs with
  | [] => []
  | c :: cs =>
    ⟨(c :: cs).take (step rules unknown c cs).1, (step rules unknown c cs).2⟩ ::
      pieces rules unknown ((c :: cs).drop (step rules unknown c cs).1)
termination_by cs.length
decreasing_by
  have := step_pos rules unknown c cs
  simp only [List.length_drop, List.length_cons]
  omega

def joined (pieces : List (Piece κ)) : List Char :=
  (pieces.map Piece.slice).flatten

/--
The tokens of pieces that follow each other from an offset on.
-/
def placed (offset : Nat) : (pieces : List (Piece κ)) → List (Token κ)
  | [] => []
  | piece :: pieces =>
    piece.tokensAt (.ofOffsets offset (offset + byteSize piece.slice)) ++
      placed (offset + byteSize piece.slice) pieces

/--
The piece that is cut off from the front of a text, of which `rest` remains.
-/
def Piece.IsFront (rules : List (Rule κ)) (unknown : κ) (piece : Piece κ) (rest : List Char)
    : Prop :=
  ∃ c cs, piece.slice ++ rest = c :: cs ∧ piece.slice = (c :: cs).take (step rules unknown c cs).1 ∧
    piece.lexemes = (step rules unknown c cs).2

@[simp]
theorem joined_nil : joined ([] : List (Piece κ)) = [] := rfl

@[simp]
theorem joined_cons (piece : Piece κ) (pieces : List (Piece κ))
    : joined (piece :: pieces) = piece.slice ++ joined pieces := rfl

@[simp]
theorem joined_append (front back : List (Piece κ))
    : joined (front ++ back) = joined front ++ joined back := by
  simp [joined]

theorem placed_append (offset : Nat) (front back : List (Piece κ))
    : placed offset (front ++ back) =
      placed offset front ++ placed (offset + byteSize (joined front)) back := by
  induction front generalizing offset with
  | nil => rfl
  | cons piece front ih => simp [placed, ih, Nat.add_assoc]

theorem go_eq_placed (offset : Nat) (cs : List Char)
    : scan.go rules unknown offset cs = placed offset (pieces rules unknown cs) := by
  fun_induction pieces rules unknown cs generalizing offset with
  | case1 =>
    rw [scan.go]
    rfl
  | case2 c cs ih =>
    rw [scan.go, placed, ← ih]
    rfl

theorem joined_pieces (cs : List Char) : joined (pieces rules unknown cs) = cs := by
  fun_induction pieces rules unknown cs with
  | case1 => rfl
  | case2 c cs ih => rw [joined_cons, ih, List.take_append_drop]

theorem pieces_of_best {cs : List Char} {m : Match κ} (h : best rules cs = some m) (hcs : cs ≠ [])
    : pieces rules unknown cs =
      ⟨cs.take m.consumed, m.tokens⟩ :: pieces rules unknown (cs.drop m.consumed) := by
  cases cs with
  | nil => contradiction
  | cons c cs =>
    rw [pieces]
    simp only [step, h]

theorem pieces_joined {cs : List Char} {front back : List (Piece κ)}
    (h : pieces rules unknown cs = front ++ back) : pieces rules unknown (joined back) = back := by
  fun_induction pieces rules unknown cs generalizing front with
  | case1 =>
    rw [(List.nil_eq_append_iff.mp h).2]
    simp [pieces]
  | case2 c cs ih =>
    cases front with
    | nil =>
      rw [← List.nil_append back, ← h, joined_cons, joined_pieces, List.take_append_drop, pieces]
    | cons first front => exact ih (List.cons_eq_cons.mp h).2

theorem isFront_of_mem_pieces {cs : List Char} {front back : List (Piece κ)} {piece : Piece κ}
    (h : pieces rules unknown cs = front ++ piece :: back)
    : piece.IsFront rules unknown (joined back) := by
  have hback := pieces_joined h
  unfold pieces at hback
  split at hback
  . contradiction
  next c cs hcs =>
    obtain ⟨rfl, -⟩ := List.cons_eq_cons.mp hback
    exact ⟨c, cs, hcs, rfl, rfl⟩

theorem Piece.IsFront.slice_ne_nil {piece : Piece κ} {rest : List Char}
    (h : piece.IsFront rules unknown rest) : piece.slice ≠ [] := by
  obtain ⟨c, cs, -, hslice, -⟩ := h
  have := step_pos rules unknown c cs
  rw [hslice, Ne, List.take_eq_nil_iff]
  simp
  omega

section Spans

theorem destutter'_replicate_append {α : Type} [DecidableEq α] (a : α) (count : Nat)
    (rest : List α)
    : (List.replicate count a ++ rest).destutter' (· ≠ ·) a = rest.destutter' (· ≠ ·) a := by
  induction count with
  | zero => rfl
  | succ count ih =>
    rw [List.replicate_succ, List.cons_append, List.destutter'_cons_neg _ (by simp), ih]

theorem map_span_tokensAt (piece : Piece κ) (span : Span)
    : (piece.tokensAt span).map Token.span = List.replicate piece.lexemes.length span := by
  simp [Piece.tokensAt, Function.comp_def, List.map_const']

theorem destutter'_placed {offset start : Nat} {pieces : List (Piece κ)} (hstart : start < offset)
    (hslices : ∀ piece ∈ pieces, piece.slice ≠ []) (hlexemes : ∀ piece ∈ pieces, piece.lexemes ≠ [])
    (hlimit : offset + byteSize (joined pieces) < Span.limit)
    : (((placed offset pieces).map Token.span).destutter' (· ≠ ·) (.ofOffsets start offset)).map
        Span.range? =
      ((start, offset) :: Span.consecutive offset (pieces.map Piece.slice)).map some := by
  induction pieces generalizing offset start with
  | nil =>
    rw [joined_nil, byteSize_nil] at hlimit
    simp [placed, Span.consecutive, Span.range?_ofOffsets (show start < Span.limit by omega)
      (show offset ≤ Span.limit by omega)]
  | cons piece pieces ih =>
    rw [List.forall_mem_cons] at hslices hlexemes
    rw [joined_cons, byteSize_append] at hlimit
    have hpos := byteSize_pos hslices.1
    have hhere := @Span.range?_ofOffsets start offset (by omega) (by omega)
    have hnext :=
      @Span.range?_ofOffsets offset (offset + byteSize piece.slice) (by omega) (by omega)
    have hne : Span.ofOffsets start offset ≠ .ofOffsets offset (offset + byteSize piece.slice) := by
      intro heq
      rw [heq, hnext] at hhere
      simp only [Option.some.injEq, Prod.mk.injEq] at hhere
      omega
    obtain ⟨count, hcount⟩ := Nat.exists_eq_succ_of_ne_zero
      (List.length_pos_iff.mpr hlexemes.1).ne'
    rw [placed, List.map_append, map_span_tokensAt, hcount, List.replicate_succ, List.cons_append,
      List.destutter'_cons_pos _ hne, destutter'_replicate_append, List.map_cons, hhere,
      ih (by omega) hslices.2 hlexemes.2 (by omega)]
    rfl

theorem destutter_placed {offset : Nat} {pieces : List (Piece κ)}
    (hslices : ∀ piece ∈ pieces, piece.slice ≠ []) (hlexemes : ∀ piece ∈ pieces, piece.lexemes ≠ [])
    (hlimit : offset + byteSize (joined pieces) < Span.limit)
    : (((placed offset pieces).map Token.span).destutter (· ≠ ·)).map Span.range? =
      (Span.consecutive offset (pieces.map Piece.slice)).map some := by
  cases pieces with
  | nil => rfl
  | cons piece pieces =>
    rw [List.forall_mem_cons] at hslices hlexemes
    rw [joined_cons, byteSize_append] at hlimit
    have hpos := byteSize_pos hslices.1
    obtain ⟨count, hcount⟩ := Nat.exists_eq_succ_of_ne_zero
      (List.length_pos_iff.mpr hlexemes.1).ne'
    rw [placed, List.map_append, map_span_tokensAt, hcount, List.replicate_succ, List.cons_append,
      List.destutter_cons', destutter'_replicate_append,
      destutter'_placed (by omega) hslices.2 hlexemes.2 (by omega)]
    rfl

end Spans

section Tokens

variable {text : String} {token : Token κ}

theorem scan_eq_placed (text : String)
    : scan rules unknown text = placed 0 (pieces rules unknown text.toList) :=
  go_eq_placed 0 text.toList

theorem exists_piece_of_mem_placed {offset : Nat} {pieces : List (Piece κ)}
    (h : token ∈ placed offset pieces)
    : ∃ front piece back, pieces = front ++ piece :: back ∧
        token ∈ piece.tokensAt (.ofOffsets (offset + byteSize (joined front))
          (offset + byteSize (joined front) + byteSize piece.slice)) := by
  induction pieces generalizing offset with
  | nil => contradiction
  | cons piece pieces ih =>
    cases List.mem_append.mp h with
    | inl hhere => exact ⟨[], piece, pieces, rfl, hhere⟩
    | inr hlater =>
      obtain ⟨front, other, back, rfl, hother⟩ := ih hlater
      refine ⟨piece :: front, other, back, rfl, ?_⟩
      rw [joined_cons, byteSize_append, ← Nat.add_assoc]
      exact hother

/--
A token stands for a piece of the text, at the place of the piece, and so do the other tokens of the
piece.
-/
theorem exists_piece_of_mem_scan (hsize : text.utf8ByteSize < Span.limit)
    (h : token ∈ scan rules unknown text)
    : ∃ (before : List Char) (piece : Piece κ) (after : List Char),
        text.toList = before ++ piece.slice ++ after ∧ piece.IsFront rules unknown after ∧
        token.span.range? = some (byteSize before, byteSize before + byteSize piece.slice) ∧
        token.lexeme ∈ piece.lexemes ∧
        (piece.tokensAt token.span).Sublist (scan rules unknown text) := by
  rw [scan_eq_placed] at h ⊢
  obtain ⟨front, piece, back, hpieces, htoken⟩ := exists_piece_of_mem_placed h
  have htext : text.toList = joined front ++ piece.slice ++ joined back := by
    rw [← joined_pieces text.toList, hpieces, joined_append, joined_cons, List.append_assoc]
  rw [← byteSize_toList, htext, byteSize_append, byteSize_append] at hsize
  have hfront := isFront_of_mem_pieces hpieces
  have hpos := byteSize_pos hfront.slice_ne_nil
  rw [Nat.zero_add] at htoken
  obtain ⟨lexeme, hlexeme, rfl⟩ := List.mem_map.mp htoken
  refine ⟨joined front, piece, joined back, htext, hfront,
    Span.range?_ofOffsets (by omega) (by omega), hlexeme, ?_⟩
  rw [hpieces, placed_append, placed, Nat.zero_add]
  exact List.sublist_append_of_sublist_right (List.sublist_append_left _ _)

theorem exists_piece_of_alone (hsize : text.utf8ByteSize < Span.limit)
    (h : token ∈ scan rules unknown text)
    (halone : ((scan rules unknown text).map Token.span).count token.span = 1)
    : ∃ (piece : Piece κ) (after : List Char), token.span.Locates text piece.slice ∧
        piece.IsFront rules unknown after ∧ piece.lexemes = [token.lexeme] := by
  obtain ⟨before, piece, after, htext, hfront, hspan, hlexeme, hsublist⟩ :=
    exists_piece_of_mem_scan hsize h
  refine ⟨piece, after, ⟨before, after, htext, hspan⟩, hfront, ?_⟩
  have hcount := (hsublist.map Token.span).count_le token.span
  rw [halone, map_span_tokensAt, List.count_replicate_self] at hcount
  cases hlexemes : piece.lexemes with
  | nil => simp [hlexemes] at hlexeme
  | cons first others => simp_all

/--
The places of the tokens of a text, without repetitions, are those of slices that make up the text,
if every piece has a token.
-/
theorem exists_slices (hsize : text.utf8ByteSize < Span.limit)
    (hlexemes : ∀ piece rest, Piece.IsFront rules unknown piece rest → piece.lexemes ≠ [])
    : ∃ slices : List (List Char), slices.flatten = text.toList ∧ (∀ slice ∈ slices, slice ≠ []) ∧
        (((scan rules unknown text).map Token.span).destutter (· ≠ ·)).map Span.range? =
          (Span.consecutive 0 slices).map some := by
  have hfront : ∀ piece ∈ pieces rules unknown text.toList, ∃ rest,
      Piece.IsFront rules unknown piece rest := by
    intro piece hpiece
    obtain ⟨front, back, hsplit⟩ := List.append_of_mem hpiece
    exact ⟨joined back, isFront_of_mem_pieces hsplit⟩
  have hslices : ∀ piece ∈ pieces rules unknown text.toList, piece.slice ≠ [] := by
    intro piece hpiece
    obtain ⟨rest, hrest⟩ := hfront piece hpiece
    exact hrest.slice_ne_nil
  refine ⟨(pieces rules unknown text.toList).map Piece.slice, joined_pieces text.toList, ?_, ?_⟩
  . simpa using hslices
  . rw [scan_eq_placed]
    apply destutter_placed hslices
    . intro piece hpiece
      obtain ⟨rest, hrest⟩ := hfront piece hpiece
      exact hlexemes piece rest hrest
    . rwa [Nat.zero_add, joined_pieces, byteSize_toList]

end Tokens

end Scan
end MathMarkup
