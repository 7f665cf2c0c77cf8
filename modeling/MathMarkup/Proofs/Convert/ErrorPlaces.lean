import MathMarkup.Proofs.Convert.Blame
import MathMarkup.Proofs.Convert.NonStrict
import MathMarkup.Proofs.Tex.ErrorPlaces
import MathMarkup.Proofs.Tex.Origin
import MathMarkup.Proofs.Typst.Balance

/-!
This module contains the proof that the places of errors can be relied on. A formula that cannot be
read is refused at one of its tokens, and one that cannot be converted at the first occurrence of
what is to blame, if that occurs in the text at all.
-/

namespace MathMarkup

open Text Scan

/--
The place of some part of a text that is not empty.
-/
def Span.IsPlaceIn (span : Span) (text : String) : Prop :=
  ∃ slice, slice ≠ [] ∧ span.Locates text slice

/--
The place where a word occurs in a text for the first time.
-/
def Span.LocatesFirst (span : Span) (text : String) (word : List Char) : Prop :=
  ∃ before after, text.toList = before ++ word ++ after ∧
    (∀ earlier later, text.toList = earlier ++ word ++ later → before.length ≤ earlier.length) ∧
    span.range? = some (byteSize before, byteSize before + byteSize word)

/--
An error that points at the first occurrence of its culprit, or nowhere if there is none.
-/
structure ConvertError.IsLocated (text : String) (error : ConvertError) : Prop where
  first : error.span = .detached ∨ error.span.LocatesFirst text error.fault.culprit.toList
  found : error.fault.culprit ≠ "" → error.fault.culprit.toList <:+: text.toList →
    ¬error.span.isDetached

/--
The place of a token of a TeX formula. If the user has defined commands, the tokens that are read
stem from those of the formula, at whose places they stand.
-/
structure Tex.IsTokenPlace (options : Options) (text : String) (span : Span) : Prop where
  inside : span.IsPlaceIn text
  source : ∃ source ∈ tokenize text, span = source.span ∧
    ∃ token ∈ options.tokenize text, StemsFrom options.customMacros.find? source token

/--
The place of a token of a Typst formula.
-/
structure Typst.IsTokenPlace (text : String) (span : Span) : Prop where
  inside : span.IsPlaceIn text
  source : ∃ token ∈ tokenize text, span = token.span

section Spans

variable {text : String}

theorem isPlaceIn_of_mem_scan {κ : Type} {rules : List (Rule κ)} {unknown : κ} {token : Token κ}
    (hsize : text.utf8ByteSize < Span.limit) (h : token ∈ scan rules unknown text)
    : token.span.IsPlaceIn text := by
  obtain ⟨before, piece, after, htext, hfront, hspan, -, -⟩ := exists_piece_of_mem_scan hsize h
  exact ⟨piece.slice, hfront.slice_ne_nil, before, after, htext, hspan⟩

theorem ConvertError.fault_locate (text : String) (error : ConvertError)
    : (error.locate text).fault = error.fault := by
  unfold locate
  split
  . split
    . rfl
    . rfl
  . rfl

theorem ConvertError.isLocated_locate {error : ConvertError}
    (hsize : text.utf8ByteSize < Span.limit) (hspan : error.span = .detached)
    : (error.locate text).IsLocated text := by
  unfold locate
  split
  . split
    next before hfind =>
      obtain ⟨after, htext⟩ := append_of_findFirst? hfind
      have hle : byteSize before + byteSize error.fault.culprit.toList < Span.limit := by
        rw [← byteSize_toList, htext, byteSize_append, byteSize_append] at hsize
        omega
      have hrange := @Span.range?_ofOffsets (byteSize before)
        (byteSize before + byteSize error.fault.culprit.toList) (by omega) (by omega)
      have hstart : byteSize before ≠ Span.limit := by omega
      refine ⟨.inr ⟨before, after, htext, ?_, hrange⟩,
        fun _ _ => mt Span.isDetached_ofOffsets.mp hstart⟩
      intro earlier later hoccurs
      obtain ⟨first, hfirst, hlength⟩ :=
        findFirst?_append error.fault.culprit.toList earlier later
      rw [← hoccurs, hfind] at hfirst
      cases hfirst
      exact hlength
    next hfind =>
      refine ⟨.inl hspan, ?_⟩
      rintro - ⟨earlier, later, htext⟩
      obtain ⟨before, hbefore, -⟩ := findFirst?_append error.fault.culprit.toList earlier later
      rw [htext, hfind] at hbefore
      contradiction
  next hempty =>
    refine ⟨.inl hspan, fun hne => absurd ?_ hne⟩
    have hdetached : Span.detached.isDetached := rfl
    simpa [hspan, hdetached] using hempty

end Spans

section Tokens

variable {options : Options} {text : String} {token : Tex.Token}

theorem spelled_of_mem (h : token ∈ options.tokenize text) : Tex.Spelled token.lexeme := by
  obtain ⟨source, hsource, hstems⟩ := Tex.exists_stemsFrom h
  exact hstems.spelled (Tex.spelled_of_mem_tokenize hsource)

theorem isTokenPlace_of_mem (hsize : text.utf8ByteSize < Span.limit)
    (h : token ∈ options.tokenize text) : Tex.IsTokenPlace options text token.span := by
  obtain ⟨source, hsource, hstems⟩ := Tex.exists_stemsFrom h
  rw [hstems.span_eq]
  exact ⟨isPlaceIn_of_mem_scan hsize hsource, source, hsource, rfl, token, h, hstems⟩

theorem mem_tokenize_of_mem (hmacros : options.customMacros.entries = [])
    (h : token ∈ options.tokenize text) : token ∈ Tex.tokenize text := by
  obtain ⟨source, hsource, hstems⟩ := Tex.exists_stemsFrom h
  cases hstems with
  | self => exact hsource
  | definition _ htext => simp [Macros.find?, hmacros] at htext

/--
Where the user has defined no commands, the culprit that a token is blamed for can be found.
-/
theorem not_isDetached_locate {error : ConvertError} (hsize : text.utf8ByteSize < Span.limit)
    (h : error.Blames (· ∈ options.tokenize text)) (hmacros : options.customMacros.entries = [])
    (hunknown : error.fault.isUnknown) : ¬(error.locate text).span.isDetached := by
  obtain ⟨token, htoken, hkind, htext⟩ := h.culprit hunknown
  obtain ⟨hne, hinfix⟩ :=
    Tex.infix_of_mem_tokenize hsize (mem_tokenize_of_mem hmacros htoken) hkind
  rw [htext, ← error.fault_locate text] at hne hinfix
  exact (ConvertError.isLocated_locate hsize h.unplaced).found hne hinfix

end Tokens

/--
The places of errors are usable. A formula that cannot be read is refused at the place of a token,
and one that cannot be converted at the first occurrence of what is to blame. Unknown commands and
characters do occur, unless they stand in what the user has defined.
-/
theorem error_places (options : Options) {text : String} (hsize : text.utf8ByteSize < Span.limit)
    : Fails (texToTypst options text) (fun
        | .parse error => Tex.IsTokenPlace options text error.span
        | .convert error => error.IsLocated text ∧
            (options.customMacros.entries = [] → error.fault.isUnknown → ¬error.span.isDetached)) ∧
      Fails (typstToTex options text) (fun
        | .parse error => Typst.IsTokenPlace text error.span
        | .convert error => error.IsLocated text) := by
  constructor
  . have hread : Fails (Tex.parse (options.tokenize text))
        fun error => Tex.IsTokenPlace options text error.span :=
      Tex.fails_parse fun _ => isTokenPlace_of_mem hsize
    have hparsed := Tex.yields_parse fun token (h : token ∈ options.tokenize text) => h
    unfold texToTypst
    refine Fails.bind_yields ?_ (hparsed.mapError _) ?_
    . exact hread.mapError fun _ h => h
    intro formula hformula
    refine Fails.map ((Typst.fails_ofTex (fun _ => spelled_of_mem) hformula).mapError ?_) _
    intro error hblames
    refine ⟨ConvertError.isLocated_locate hsize hblames.unplaced, ?_⟩
    intro hmacros hunknown
    rw [error.fault_locate text] at hunknown
    exact not_isDetached_locate hsize hblames hmacros hunknown
  . have hread : Fails (Typst.parseText text) fun error => Typst.IsTokenPlace text error.span :=
      Typst.fails_parse fun token htoken =>
        ⟨isPlaceIn_of_mem_scan hsize htoken, token, htoken, rfl⟩
    unfold typstToTex
    refine Fails.bind ?_ ?_
    . exact hread.mapError fun _ h => h
    intro formula
    refine Fails.map ((Tex.Formula.relaxes_ofTypst options formula).unplaced.mapError ?_) _
    intro error hspan
    exact ConvertError.isLocated_locate hsize hspan

theorem error_places_unknown
    : "é\\foo".utf8ByteSize < Span.limit ∧
      ∃ error, texToTypst {} "é\\foo" = .error (.convert error) ∧ error.IsLocated "é\\foo" ∧
        ¬error.span.isDetached := by
  have hsize : "é\\foo".utf8ByteSize < Span.limit := by decide +kernel
  have hrun : texToTypst {} "é\\foo" = .error (.convert
      { fault := .unknownCommand "\\foo", span := .ofOffsets 2 6,
        hints := ["enable non-strict mode to pass unknown macros through"] }) := by
    decide +kernel
  obtain ⟨hlocated, hplace⟩ := (error_places {} hsize).1 _ hrun
  exact ⟨hsize, _, hrun, hlocated, hplace rfl rfl⟩

end MathMarkup
