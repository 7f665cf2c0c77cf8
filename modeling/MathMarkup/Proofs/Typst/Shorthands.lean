import MathMarkup.Proofs.Scan.Places
import MathMarkup.Proofs.Typst.Lexing

/-!
This module contains the proof that shorthands are read as far as they go. Many of them begin like
others, or like a mark of punctuation, so it matters at each place which one is taken.
-/

namespace MathMarkup
namespace Typst

open Text Scan

theorem pieces_of_shorthand {name spelling : String} {rest : List Char}
    (hentry : (name, spelling) ∈ Symbol.shorthands)
    (hfound : longestFront? (Symbol.shorthands.map Prod.snd) (spelling.toList ++ rest) =
      some spelling)
    : pieces rules .unknown (spelling.toList ++ rest) =
      ⟨spelling.toList, [(.symbol, name)]⟩ :: pieces rules .unknown rest := by
  have htwo : 2 ≤ spelling.toList.length := (shorthands_spelling _ hentry).1
  have hname : Symbol.ofShorthand? spelling = some name := ofShorthand?_of_mem _ hentry
  have hmatch : shorthand (spelling.toList ++ rest) =
      some (.whole spelling.toList.length [(.symbol, name)]) := by
    simp [shorthand, hfound, hname, String.length_toList]
  have hconsumed : (Match.whole spelling.toList.length [(Kind.symbol, name)]).consumed =
      spelling.toList.length := by
    simp only [Match.whole, Match.consumed]
    omega
  rw [pieces_of_best (best_of_shorthand hmatch), hconsumed, List.take_left, List.drop_left]
  . rfl
  . apply List.ne_nil_of_length_pos
    rw [List.length_append]
    omega

/--
Wherever scanning starts anew and a shorthand is ahead, the longest such shorthand becomes one token.
The place of the token is that of the shorthand, cut down like all places in a text that is too long
for them. Scanning starts anew behind each of the pieces that a text is cut into.
-/
theorem tokenize_at_shorthand {text : String} {front back : List (Scan.Piece Kind)}
    (hcut : pieces rules .unknown text.toList = front ++ back)
    (hahead : ∃ pair ∈ Symbol.shorthands, pair.2.toList <+: Scan.joined back)
    : ∃ name spelling others, (name, spelling) ∈ Symbol.shorthands ∧
        (∀ pair ∈ Symbol.shorthands, pair.2.toList <+: Scan.joined back →
          pair.2.length ≤ spelling.length) ∧
        back = ⟨spelling.toList, [(.symbol, name)]⟩ :: others ∧
        let start := byteSize (Scan.joined front)
        let stop := start + byteSize spelling.toList
        tokenize text =
          placed 0 front ++ ⟨.symbol, name, .ofOffsets start stop⟩ :: placed stop others ∧
        (text.utf8ByteSize ≤ Span.limit →
          (Span.ofOffsets start stop).range? = some (start, stop)) := by
  have hlongest {pair : String × String} (hpair : pair ∈ Symbol.shorthands)
      (hfront : pair.2.toList <+: Scan.joined back)
      : ∃ spelling,
          longestFront? (Symbol.shorthands.map Prod.snd) (Scan.joined back) = some spelling ∧
          pair.2.length ≤ spelling.length :=
    exists_of_longestFront? (List.mem_map_of_mem hpair) (isSome_dropFront?_iff.mpr hfront)
  obtain ⟨first, hfirst, hfront⟩ := hahead
  obtain ⟨spelling, hfound, -⟩ := hlongest hfirst hfront
  obtain ⟨hmem, hspelling⟩ := mem_of_longestFront? hfound
  obtain ⟨⟨name, other⟩, hentry, hsame⟩ := List.mem_map.mp hmem
  obtain rfl : other = spelling := hsame
  obtain ⟨rest, hrest⟩ := isSome_dropFront?_iff.mp hspelling
  have hback := pieces_joined hcut
  rw [← hrest, pieces_of_shorthand hentry (hrest ▸ hfound)] at hback
  refine ⟨name, _, _, hentry, ?_, hback.symm, ?_, ?_⟩
  . intro pair hpair hfront
    obtain ⟨other, hother, hle⟩ := hlongest hpair hfront
    cases hfound.symm.trans hother
    exact hle
  . rw [tokenize, scan_eq_placed, hcut, placed_append, ← hback, placed, Nat.zero_add]
    rfl
  . intro hsize
    have htwo : 2 ≤ other.toList.length := (shorthands_spelling _ hentry).1
    have hpos := byteSize_pos (List.ne_nil_of_length_pos (Nat.lt_of_lt_of_le Nat.two_pos htwo))
    rw [← byteSize_toList, ← @joined_pieces _ rules .unknown text.toList, hcut, joined_append,
      byteSize_append, ← hrest, byteSize_append] at hsize
    apply Span.range?_ofOffsets
    . omega
    . omega

theorem tokenize_at_shorthand_twohead
    : ∃ others, tokenize "a->>=" =
        ⟨.element, "a", .ofOffsets 0 1⟩ :: ⟨.symbol, "arrow.r.twohead", .ofOffsets 1 4⟩ ::
          others := by
  have hstep : step rules .unknown 'a' "->>=".toList = (1, [(.element, "a")]) := by decide +kernel
  have hcut : pieces rules .unknown "a->>=".toList =
      [⟨['a'], [(.element, "a")]⟩] ++ pieces rules .unknown "->>=".toList := by
    rw [show "a->>=".toList = 'a' :: "->>=".toList from rfl, pieces, hstep]
    rfl
  obtain ⟨name, spelling, others, hentry, hlongest, hback, htokens, -⟩ := tokenize_at_shorthand hcut
    ⟨("arrow.r", "->"), by decide, by rw [joined_pieces]; decide⟩
  have hahead : spelling.toList <+: "->>=".toList := by
    rw [← @joined_pieces _ rules .unknown "->>=".toList, hback, joined_cons]
    exact List.prefix_append _ _
  have hthree := hlongest ("arrow.r.twohead", "->>") (by decide) (by rw [joined_pieces]; decide)
  have honly : ∀ pair ∈ Symbol.shorthands, pair.2.toList <+: "->>=".toList →
      3 ≤ pair.2.length → pair = ("arrow.r.twohead", "->>") := by
    decide +kernel
  cases honly _ hentry hahead hthree
  exact ⟨_, htokens⟩

end Typst
end MathMarkup
