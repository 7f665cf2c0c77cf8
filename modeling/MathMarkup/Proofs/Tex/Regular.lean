import MathMarkup.Proofs.Symbol
import MathMarkup.Proofs.Tex.Spacing

/-!
This module contains the formulas that are written in a way in which they can be told apart again,
and what their pieces look like.
-/

namespace MathMarkup
namespace Tex

open Text

namespace Formula

def isNumber : Formula → Bool
  | .element s => s.toList.head?.any Char.isDigit
  | _ => false

def primed : Nat → Option Formula → Option Formula
  | 0, sup => sup
  | primes + 1, sup => some (.group (List.replicate (primes + 1) (.element "'") ++ sup.toList))

/--
A delimiter that is written out. In the degree of a root, square brackets would end the degree.
-/
def IsDelimiter (inDegree : Bool) (delim : String) : Prop :=
  delim ∈ elementDelimiters ++ commandDelimiters.map ("\\" ++ ·) ∧ delim ≠ "." ∧
    (inDegree → delim ≠ "[" ∧ delim ≠ "]")

/--
The name of an environment with the column specification of an array.
-/
inductive GridHead : String → Option String → Prop where
  | plain {name : String} (hname : ∀ c ∈ name.toList, c.isAlpha) (hne : name ≠ "array") :
    GridHead name none
  | array {spec : String} (hspec : ∀ c ∈ spec.toList, c ∈ ['l', 'c', 'r', '|']) :
    GridHead "array" (some spec)

/--
Formulas without spaces, raw text and separators in which what stands side by side is not in groups
of its own. `inDegree` says whether the formula stands in the degree of a root.
-/
inductive Regular : (inDegree : Bool) → Formula → Prop where
  | empty {inDegree : Bool} : Regular inDegree .empty
  | number {inDegree : Bool} {text : String} (h : IsNumber text.toList) :
    Regular inDegree (.element text)
  | char {inDegree : Bool} {c : Char} (h : c.isAlpha ∨ c ∈ "+-*/=<>!.,;:?()|".toList) :
    Regular inDegree (.element (String.ofList [c]))
  | escaped {inDegree : Bool} {c : Char} (h : c ∈ escapes) :
    Regular inDegree (.element (String.ofList ['\\', c]))
  | symbol {inDegree : Bool} {name : String} (hname : (Symbol.toTypst? name).isSome)
    (harity : Symbol.arity? name = none) : Regular inDegree (.symbol name)
  | func {inDegree : Bool} {name : String} {arity : Symbol.Arity} {args : List Formula}
    (harity : Symbol.arity? name = some arity) (hraw : name ∉ ["text", "operatorname", "hspace"])
    (hlength : args.length = arity.toNat) (hargs : ∀ arg ∈ args, Regular inDegree arg) :
    Regular inDegree (.func name args none)
  | root {inDegree : Bool} {arg degree : Formula} (hdegree : Regular true degree)
    (harg : Regular inDegree arg) : Regular inDegree (.func "sqrt" [arg] (some degree))
  | attach {inDegree : Bool} {base : Formula} {sub sup : Option Formula} {primes : Nat}
    (hbase : Regular inDegree base) (hnumber : base.isNumber = false)
    (hsub : ∀ node ∈ sub, Regular inDegree node) (hsup : ∀ node ∈ sup, Regular inDegree node)
    (hsome : sub.isSome ∨ (primed primes sup).isSome) :
    Regular inDegree (.attach base sub (primed primes sup))
  | leftRight {inDegree : Bool} {left right : Option String} {body : Formula}
    (hleft : ∀ delim ∈ left, IsDelimiter inDegree delim) (hbody : Regular inDegree body)
    (hright : ∀ delim ∈ right, IsDelimiter inDegree delim) :
    Regular inDegree (.leftRight left body right)
  | env {inDegree : Bool} {name : String} {spec : Option String} {rows : List (List Formula)}
    (hhead : GridHead name spec) (hrows : rows ≠ []) (hcells : ∀ row ∈ rows, row ≠ [])
    (hlast : rows.length ≠ 1 → rows.getLast? ≠ some [.empty])
    (h : ∀ row ∈ rows, ∀ cell ∈ row, Regular inDegree cell) :
    Regular inDegree (.env name spec rows)
  | group {inDegree : Bool} {nodes : List Formula} (hlength : 2 ≤ nodes.length)
    (hflat : ∀ node ∈ nodes, ∀ more, node ≠ .group more) (hfull : ∀ node ∈ nodes, node ≠ .empty)
    (hnumbers : nodes.IsChain fun node next => ¬ (node.isNumber ∧ next.isNumber))
    (h : ∀ node ∈ nodes, Regular inDegree node) : Regular inDegree (.group nodes)

/--
Whether what is written for the formula begins with a number.
-/
def opensWithNumber : Formula → Bool
  | .group nodes => nodes.head?.any isNumber
  | node => node.isNumber

def closesWithNumber : Formula → Bool
  | .group nodes => nodes.getLast?.any isNumber
  | node => node.isNumber

def scriptPieces (marker : String) : Option Formula → List Piece
  | none => []
  | some node => script marker node node.pieces

variable {inDegree : Bool} {node : Formula}

theorem opensWithNumber_eq (h : ∀ nodes, node ≠ .group nodes)
    : node.opensWithNumber = node.isNumber := by
  cases node with
  | group nodes => exact absurd rfl (h nodes)
  | _ => rfl

theorem closesWithNumber_eq (h : ∀ nodes, node ≠ .group nodes)
    : node.closesWithNumber = node.isNumber := by
  cases node with
  | group nodes => exact absurd rfl (h nodes)
  | _ => rfl

theorem eachPieces_eq (nodes : List Formula) : eachPieces nodes = nodes.map pieces := by
  induction nodes with
  | nil => rw [eachPieces, List.map_nil]
  | cons node nodes ih => rw [eachPieces, List.map_cons, ih]

theorem rowPieces_eq (rows : List (List Formula))
    : rowPieces rows = rows.map (List.map pieces) := by
  induction rows with
  | nil => rw [rowPieces, List.map_nil]
  | cons row rows ih => rw [rowPieces, List.map_cons, ih, eachPieces_eq]

theorem subPieces_eq (sub : Option Formula) : subPieces sub = scriptPieces "_" sub := by
  cases sub
  all_goals rw [subPieces, scriptPieces]

theorem char_ne_prime {c : Char} (h : c.isAlpha ∨ c ∈ "+-*/=<>!.,;:?()|".toList) : c ≠ '\'' := by
  rintro rfl
  rcases h with h | h
  . exact absurd h (by decide)
  . exact absurd h (by decide)

theorem Regular.isPrime (h : Regular inDegree node) : node.isPrime = false := by
  have hne : ∀ {text : String}, text.toList ≠ ['\''] → (text == "'") = false := by
    intro text htext
    rw [beq_eq_false_iff_ne]
    rintro rfl
    exact htext rfl
  cases h with
  | number h =>
    obtain ⟨digit, digits, hdigit, htext⟩ := h.exists_digit
    apply hne
    rw [htext]
    rintro ⟨⟩
    contradiction
  | char h =>
    apply hne
    rw [String.toList_ofList, ne_eq, List.cons.injEq, not_and_or]
    exact .inl (char_ne_prime h)
  | escaped h =>
    apply hne
    simp
  | _ => rfl

theorem Regular.leadingPrimes (h : Regular inDegree node) : node.leadingPrimes = 0 := by
  cases node with
  | group nodes =>
    cases h with
    | group hlength hflat hfull hnumbers h =>
      cases nodes with
      | nil => contradiction
      | cons first nodes => simp [Formula.leadingPrimes, (h first List.mem_cons_self).isPrime]
  | _ => simp [Formula.leadingPrimes, h.isPrime]

section Attach

variable {sup : Option Formula} (hsup : ∀ node ∈ sup, node.leadingPrimes = 0) (primes : Nat)

theorem isPrime_of_leadingPrimes (h : node.leadingPrimes = 0) : node.isPrime = false := by
  cases node with
  | group => rfl
  | _ => simpa [Formula.leadingPrimes] using h

theorem takeWhile_primes {count : Nat} (hsup : ∀ node ∈ sup, node.leadingPrimes = 0)
    : (List.replicate count (Formula.element "'") ++ sup.toList).takeWhile Formula.isPrime =
      List.replicate count (.element "'") := by
  rw [List.takeWhile_append_of_pos (by simp [Formula.isPrime])]
  cases sup with
  | none => simp
  | some node => simp [isPrime_of_leadingPrimes (hsup node rfl)]

include hsup in
theorem leadingPrimes_primed : ((primed primes sup).map Formula.leadingPrimes).getD 0 = primes := by
  cases primes with
  | zero =>
    cases sup with
    | none => rfl
    | some node => exact hsup node rfl
  | succ primes =>
    rw [primed, Option.map_some, Option.getD_some, Formula.leadingPrimes, takeWhile_primes hsup,
      List.length_replicate]

include hsup in
theorem supPieces_primed : supPieces (primed primes sup) = scriptPieces "^" sup := by
  cases primes with
  | zero =>
    cases sup with
    | none => rw [primed, supPieces, scriptPieces]
    | some node =>
      have hleading := hsup node rfl
      have hprime := isPrime_of_leadingPrimes hleading
      rw [primed, scriptPieces]
      cases node with
      | group nodes =>
        rw [supPieces, if_pos hleading, pieces]
        rfl
      | _ => simp [supPieces, hprime]
  | succ primes =>
    have hdrop : (List.replicate (primes + 1) (Formula.element "'") ++ sup.toList).drop (primes + 1) =
        sup.toList := List.drop_left' List.length_replicate
    have hleading : (Formula.group (List.replicate (primes + 1) (.element "'") ++
        sup.toList)).leadingPrimes = primes + 1 := by
      rw [Formula.leadingPrimes, takeWhile_primes hsup, List.length_replicate]
    rw [primed, supPieces, hleading, if_neg (Nat.succ_ne_zero _), afterPrimes, takeWhile_primes hsup,
      List.length_replicate, hdrop, eachPieces_eq, ← List.map_drop, hdrop]
    cases sup with
    | none => rfl
    | some node => simp [scriptPieces]

include hsup in
theorem pieces_attach (base : Formula) (sub : Option Formula)
    : (Formula.attach base sub (primed primes sup)).pieces =
      (if base.needsBraces then braced base.pieces else base.pieces) ++
        (List.replicate primes (.token "'") ++ (scriptPieces "_" sub ++ scriptPieces "^" sup)) := by
  rw [pieces, leadingPrimes_primed hsup, subPieces_eq, supPieces_primed hsup]
  simp

end Attach

theorem Regular.isSpace (h : Regular inDegree node) : node.isSpace = false := by
  cases h
  all_goals rfl

theorem trimSpaces_of_no_space {nodes : List Formula} (h : ∀ node ∈ nodes, node.isSpace = false)
    : trimSpaces nodes = nodes := by
  have hdrop : ∀ nodes : List Formula, (∀ node ∈ nodes, node.isSpace = false) →
      nodes.dropWhile Formula.isSpace = nodes := by
    intro nodes h
    cases nodes with
    | nil => rfl
    | cons node nodes =>
      exact List.dropWhile_cons_of_neg (by simp [h node List.mem_cons_self])
  rw [trimSpaces, hdrop nodes h, hdrop nodes.reverse (by simpa using h), List.reverse_reverse]

theorem betweenSpaces_of_no_space {nodes : List Formula} (h : ∀ node ∈ nodes, node.isSpace = false)
    : betweenSpaces nodes (nodes.map pieces) = (nodes.map pieces).flatten := by
  have hfront : nodes.takeWhile Formula.isSpace = [] := by
    cases nodes with
    | nil => rfl
    | cons node nodes =>
      exact List.takeWhile_cons_of_neg (by simp [h node List.mem_cons_self])
  rw [betweenSpaces, hfront, trimSpaces_of_no_space h, List.length_nil, List.drop_zero,
    List.take_of_length_le (by simp)]

theorem pieces_leftRight {left right : Option String} {body : Formula} (h : Regular inDegree body)
    : (Formula.leftRight left body right).pieces =
      .token ("\\left" ++ left.getD ".") :: .token " " ::
        (body.pieces ++ [.token ("\\right" ++ right.getD ".")]) := by
  cases body with
  | space blanks =>
    have := h.isSpace
    contradiction
  | group nodes =>
    cases h with
    | group hlength hflat hfull hnumbers h =>
      rw [pieces, pieces, eachPieces_eq,
        betweenSpaces_of_no_space fun node hnode => (h node hnode).isSpace]
      rfl
  | _ => simp only [pieces, List.cons_append]

def specPieces : Option String → List Piece
  | none => []
  | some spec => [.glued ("\x7b" ++ spec ++ "\x7d")]

theorem pieces_env {name : String} {spec : Option String} {rows : List (List Formula)}
    : (Formula.env name spec rows).pieces =
      .token ("\\begin\x7b" ++ name ++ "\x7d") :: (specPieces spec ++ (.token "\n" ::
        (grid (rows.map (List.map pieces)) ++
          [.token "\n", .token ("\\end\x7b" ++ name ++ "\x7d")]))) := by
  cases spec
  all_goals simp [pieces, rowPieces_eq, specPieces]

/--
Pieces that begin neither with a script marker nor with a blank, and with a digit only where a
number is expected.
-/
def Opens (number : Bool) (spelled : List Piece) : Prop :=
  ∃ c cs more, spelled = .token (String.ofList (c :: cs)) :: more ∧ isMarkerChar c = false ∧
    Text.isBlank c = false ∧ (c.isDigit → number)

theorem opens_backslash {number : Bool} {text : String} {more : List Piece}
    (h : text.toList.head? = some '\\') : Opens number (.token text :: more) := by
  obtain ⟨cs, hcs⟩ := List.head?_eq_some_iff.mp h
  refine ⟨'\\', cs, more, ?_, by decide, by decide, nofun⟩
  rw [← hcs, String.ofList_toList]

theorem opens_brace {number : Bool} {spelled : List Piece} : Opens number (braced spelled) :=
  ⟨'{', [], _, rfl, by decide, by decide, nofun⟩

theorem Opens.append {number : Bool} {spelled : List Piece} (h : Opens number spelled)
    (more : List Piece) : Opens number (spelled ++ more) := by
  obtain ⟨c, cs, rest, rfl, hc⟩ := h
  exact ⟨c, cs, rest ++ more, rfl, hc⟩

theorem isNumber_of_digits {text : String} (h : IsNumber text.toList)
    : (Formula.element text).isNumber := by
  obtain ⟨digit, digits, hdigit, htext⟩ := h.exists_digit
  simp [isNumber, htext, hdigit]

theorem isMarkerChar_of_ne {c : Char} (hsub : c ≠ '_') (hsup : c ≠ '^') : isMarkerChar c = false := by
  simp [isMarkerChar, hsub, hsup]

theorem Regular.opens (h : Regular inDegree node) (hne : node ≠ .empty)
    : Opens node.opensWithNumber node.pieces := by
  induction h with
  | empty => contradiction
  | @number _ text h =>
    obtain ⟨digit, digits, hdigit, htext⟩ := h.exists_digit
    refine ⟨digit, digits, [], ?_, ?_, isBlank_of_isDigit hdigit, fun _ => isNumber_of_digits h⟩
    . rw [pieces, ← htext, String.ofList_toList]
    . apply isMarkerChar_of_ne
      all_goals
        rintro rfl
        contradiction
  | @char _ c h =>
    refine ⟨c, [], [], by rw [pieces], ?_⟩
    rcases h with h | h
    . refine ⟨?_, isBlank_of_isAlpha h, fun hdigit => ?_⟩
      . apply isMarkerChar_of_ne
        all_goals
          rintro rfl
          contradiction
      . rw [isDigit_of_isAlpha h] at hdigit
        contradiction
    . have hmarks : ∀ c ∈ "+-*/=<>!.,;:?()|".toList,
          isMarkerChar c = false ∧ Text.isBlank c = false ∧ ¬ c.isDigit := by decide
      obtain ⟨hmarker, hblank, hdigit⟩ := hmarks c h
      exact ⟨hmarker, hblank, fun h => absurd h hdigit⟩
  | escaped | symbol | func | root =>
    rw [pieces]
    exact opens_backslash (by simp)
  | leftRight hleft hbody =>
    rw [pieces_leftRight hbody]
    exact opens_backslash (by simp)
  | @attach _ base sub sup primes hbase hnumber hsub hsup hsome ih =>
    rw [pieces_attach fun node hnode => (hsup node hnode).leadingPrimes]
    apply Opens.append
    split
    . exact opens_brace
    next hbraces =>
      have hfull : base ≠ .empty := by
        rintro rfl
        exact hbraces rfl
      have hgroup : ∀ nodes, base ≠ .group nodes := by
        rintro nodes rfl
        exact hbraces rfl
      rw [opensWithNumber_eq hgroup, hnumber] at ih
      exact ih hfull
  | env hhead =>
    rw [pieces_env]
    exact opens_backslash (by simp)
  | @group _ nodes hlength hflat hfull hnumbers h ih =>
    cases nodes with
    | nil => contradiction
    | cons first nodes =>
      have hfirst := ih first List.mem_cons_self (hfull first List.mem_cons_self)
      rw [opensWithNumber_eq (hflat first List.mem_cons_self)] at hfirst
      rw [pieces, eachPieces, List.flatten_cons]
      exact hfirst.append _

theorem Opens.notStartsWith {p : Char → Bool} {number : Bool} {spelled : List Piece}
    (h : Opens number spelled) (hp : ∀ c, isMarkerChar c = false → Text.isBlank c = false →
      (c.isDigit → number) → p c = false) (more : List Piece)
    : NotStartsWith p (joined (spelled ++ more)) := by
  obtain ⟨c, cs, rest, rfl, hmarker, hblank, hdigit⟩ := h
  rw [joined, List.cons_append, List.flatMap_cons, Piece.chars, String.toList_ofList,
    List.cons_append, notStartsWith_cons]
  exact hp c hmarker hblank hdigit

/--
What is written for a formula begins like what follows it, or neither with a marker nor with a
blank.
-/
theorem Regular.notStartsWith {p : Char → Bool} (h : Regular inDegree node) {more : List Piece}
    (hp : ∀ c, isMarkerChar c = false → Text.isBlank c = false →
      (c.isDigit → node.opensWithNumber) → p c = false)
    (hmore : NotStartsWith p (joined more)) : NotStartsWith p (joined (node.pieces ++ more)) := by
  by_cases hne : node = .empty
  . rw [hne, pieces, List.nil_append]
    exact hmore
  . exact (h.opens hne).notStartsWith hp more

/--
Whether a character may run into what precedes it: a digit into a number, and blanks and markers
into blanks.
-/
def isLoose (c : Char) : Bool :=
  c.isDigit || isMarkerChar c || isInlineBlank c

/--
Pieces that can be told apart from what follows unless it runs into them.
-/
def Closable (spelled : List Piece) : Prop :=
  ∀ more, Fits more → NotStartsWith isLoose (joined more) → Fits (spelled ++ more)

/--
Pieces that bring no character of a class to the front.
-/
def Spares (p : Char → Bool) (spelled : List Piece) : Prop :=
  ∀ more, NotStartsWith p (joined more) → NotStartsWith p (joined (spelled ++ more))

theorem Regular.spares_marker (h : Regular inDegree node) : Spares isMarkerChar node.pieces :=
  fun _ => h.notStartsWith fun _ hmarker _ _ => hmarker

theorem Regular.spares_blank (h : Regular inDegree node) : Spares isInlineBlank node.pieces :=
  fun _ => h.notStartsWith fun _ _ hblank _ => by simp [isInlineBlank, hblank]

/--
A formula that can be told apart from what follows unless a number would be joined to a digit.
-/
def Fitting (node : Formula) : Prop :=
  ∀ more, Fits more → (node.closesWithNumber → NotStartsWith Char.isDigit (joined more)) →
    Fits (node.pieces ++ more)

theorem Fitting.closable (h : Fitting node) : Closable node.pieces := by
  refine fun more hmore hloose => h more hmore fun _ c hc => ?_
  have := hloose c hc
  simp only [isLoose, Bool.or_eq_false_iff] at this
  exact this.1.1

theorem isWord_brace : IsWord "\x7b".toList ∧ IsWord "\x7d".toList ∧ IsWord "&".toList ∧
    IsWord "'".toList ∧ IsWord "[".toList ∧ IsWord "]".toList ∧ IsWord "\\\\".toList :=
  ⟨.single rfl, .single rfl, .single rfl, .single rfl, .single rfl, .single rfl, .rowEnd⟩

section Fits

variable {more : List Piece}

theorem braced_append (spelled more : List Piece)
    : braced spelled ++ more = .token "\x7b" :: (spelled ++ .token "\x7d" :: more) := by
  simp [braced]

theorem fits_braced {spelled : List Piece} (h : Closable spelled) (hmore : Fits more)
    : Fits (braced spelled ++ more) := by
  have hinner : Fits (spelled ++ .token "\x7d" :: more) :=
    h _ (.word isWord_brace.2.1 hmore) (notStartsWith_cons.mpr rfl)
  rw [braced_append]
  exact .word isWord_brace.1 hinner

theorem Regular.digits_of_isNumber (h : Regular inDegree node) (hnumber : node.isNumber)
    : ∃ text, node = .element text ∧ IsNumber text.toList := by
  cases h with
  | number h => exact ⟨_, rfl, h⟩
  | char h =>
    simp only [isNumber, String.toList_ofList, List.head?_cons, Option.any_some] at hnumber
    rcases h with h | h
    . rw [isDigit_of_isAlpha h] at hnumber
      contradiction
    . have hmarks : ∀ c ∈ "+-*/=<>!.,;:?()|".toList, ¬ c.isDigit := by decide
      exact absurd hnumber (hmarks _ h)
  | escaped h =>
    simp [isNumber] at hnumber
  | _ => contradiction

theorem fits_script {marker : Char} (hmarker : marker ∈ ['_', '^'])
    (h : node.isBareScript → Regular inDegree node ∧ Fitting node) (hcloses : Closable node.pieces)
    (hmore : Fits more) : Fits (script (String.ofList [marker]) node node.pieces ++ more) := by
  rw [script]
  split
  next hbare =>
    obtain ⟨h, hfits⟩ := h hbare
    by_cases hnumber : node.isNumber
    . obtain ⟨text, rfl, hdigits⟩ := h.digits_of_isNumber hnumber
      obtain ⟨digit, digits, hdigit, htext⟩ := hdigits.exists_digit
      have hne : digit ≠ '\\' := by
        rintro rfl
        contradiction
      have hsingle : text = String.ofList [digit] := by
        simp [isBareScript, ← String.length_toList, htext, hne] at hbare
        rw [← String.ofList_toList (s := text), htext, hbare]
      rw [pieces, hsingle]
      exact .scriptDigit hmarker hdigit hmore
    . have hfull : node ≠ .empty := by
        rintro rfl
        contradiction
      have hgroup : ∀ nodes, node ≠ .group nodes := by
        rintro nodes rfl
        contradiction
      have hstart := h.opens hfull
      rw [opensWithNumber_eq hgroup] at hstart
      rw [List.cons_append]
      refine .marker hmarker ?_ ?_ (hfits more hmore ?_)
      . exact hstart.notStartsWith (fun _ _ hblank _ => hblank) more
      . exact hstart.notStartsWith (fun _ _ _ hdigit => by simpa [hnumber] using hdigit) more
      . rw [closesWithNumber_eq hgroup]
        exact fun h => absurd h hnumber
  . have hbraces := fits_braced hcloses hmore
    rw [List.cons_append]
    rw [braced_append] at hbraces ⊢
    refine .marker hmarker ?_ ?_ hbraces
    all_goals exact notStartsWith_cons.mpr (by decide)

theorem fits_scriptPieces {marker : Char} (hmarker : marker ∈ ['_', '^']) {sub : Option Formula}
    (h : ∀ node ∈ sub, (node.isBareScript → Regular inDegree node ∧ Fitting node) ∧
      Closable node.pieces)
    (hmore : Fits more) : Fits (scriptPieces (String.ofList [marker]) sub ++ more) := by
  cases sub with
  | none => exact hmore
  | some node => exact fits_script hmarker (h node rfl).1 (h node rfl).2 hmore

theorem fits_primes (primes : Nat) (hmore : Fits more)
    : Fits (List.replicate primes (.token "'") ++ more) := by
  induction primes with
  | zero => exact hmore
  | succ primes ih => exact .word isWord_brace.2.2.2.1 ih

theorem fits_base (hcloses : Closable node.pieces) (h : node.needsBraces = false → Fitting node)
    (hnumber : node.isNumber = false) (hmore : Fits more)
    : Fits ((if node.needsBraces then braced node.pieces else node.pieces) ++ more) := by
  split
  . exact fits_braced hcloses hmore
  next hbraces =>
    apply h (by simpa using hbraces) more hmore
    have hgroup : ∀ nodes, node ≠ .group nodes := by
      rintro nodes rfl
      exact hbraces rfl
    rw [closesWithNumber_eq hgroup, hnumber]
    exact nofun

theorem isWord_char {c : Char} (h : c.isAlpha ∨ c ∈ "+-*/=<>!.,;:?()|".toList)
    : singleKind? c = some .element := by
  rcases h with h | h
  . have hcontrol : c ∉ ['{', '}', '&', '~'] := by
      intro hmem
      exact (by decide : ∀ c ∈ ['{', '}', '&', '~'], ¬ c.isAlpha) c hmem h
    simp [singleKind?, h, hcontrol]
  . exact (by decide : ∀ c ∈ "+-*/=<>!.,;:?()|".toList, singleKind? c = some .element) c h

theorem not_raw_of_commandName {name : String} (h : Symbol.CommandName name)
    : String.ofList name.toList ∉ rawCommands := by
  rw [String.ofList_toList]
  intro hmem
  exact h.not_reserved ((by decide : ∀ name ∈ rawCommands, name ∈ Symbol.reserved) name hmem)

theorem isWord_command {name : String} (h : Symbol.CommandName name)
    (harity : Symbol.arity? name = none) : IsWord ("\\" ++ name).toList := by
  have hcommand := @IsWord.command name.toList h.isAlpha h.ne_nil (not_raw_of_commandName h)
  rw [String.ofList_toList] at hcommand
  simpa using hcommand harity

theorem commandDelimiters_spec : ∀ name ∈ commandDelimiters,
    Symbol.CommandName name ∧ Symbol.arity? name = none := by
  have hnames : ∀ name ∈ commandDelimiters, Symbol.CommandName name := by
    simp only [commandDelimiters, List.forall_mem_cons]
    repeat' first | apply And.intro | exact ⟨_, rfl, rfl⟩ | exact List.forall_mem_nil _
  have harities : ∀ name ∈ commandDelimiters, Symbol.arity? name = none := by
    decide +kernel
  exact fun name h => ⟨hnames name h, harities name h⟩

theorem elementDelimiters_spec : ∀ delim ∈ elementDelimiters,
    IsWord delim.toList ∧ NotStartsWith Char.isAlpha delim.toList := by
  simp only [elementDelimiters, List.forall_mem_cons]
  repeat' first
    | apply And.intro
    | exact .single rfl
    | exact .escaped (by decide)
    | exact notStartsWith_cons.mpr rfl
    | exact List.forall_mem_nil _

theorem isWord_delimiter {delim : String}
    (h : delim ∈ elementDelimiters ++ commandDelimiters.map ("\\" ++ ·))
    : IsWord delim.toList ∧ NotStartsWith Char.isAlpha delim.toList := by
  rcases List.mem_append.mp h with h | h
  . exact elementDelimiters_spec delim h
  . obtain ⟨name, hname, rfl⟩ := List.mem_map.mp h
    obtain ⟨hname, harity⟩ := commandDelimiters_spec name hname
    refine ⟨isWord_command hname harity, ?_⟩
    rw [String.toList_append]
    exact notStartsWith_cons.mpr rfl

theorem mem_delimiters {delim : Option String} (h : ∀ text ∈ delim, IsDelimiter inDegree text)
    : delim.getD "." ∈ elementDelimiters ++ commandDelimiters.map ("\\" ++ ·) := by
  cases delim with
  | none => simp [elementDelimiters]
  | some text => exact (h text rfl).1

theorem fits_fence {side : String} {delim : Option String} (hside : side ∈ ["\\left", "\\right"])
    (h : ∀ text ∈ delim, IsDelimiter inDegree text) (hmore : Fits more)
    : Fits (.token (side ++ delim.getD ".") :: more) := by
  obtain ⟨hword, hstart⟩ := isWord_delimiter (mem_delimiters h)
  refine .word ?_ hmore
  rw [String.toList_append]
  simp only [List.mem_cons, List.not_mem_nil, or_false] at hside
  rcases hside with rfl | rfl
  . exact @IsWord.fence "left".toList _ (by simp) hword hstart
  . exact @IsWord.fence "right".toList _ (by simp) hword hstart

theorem fits_fenced {left right : Option String} {spelled : List Piece}
    (hleft : ∀ text ∈ left, IsDelimiter inDegree text) (h : Closable spelled)
    (hmarker : Spares isMarkerChar spelled) (hblank : Spares isInlineBlank spelled)
    (hright : ∀ text ∈ right, IsDelimiter inDegree text) (hmore : Fits more)
    : Fits (.token ("\\left" ++ left.getD ".") :: .token " " ::
        (spelled ++ .token ("\\right" ++ right.getD ".") :: more)) := by
  have hclose : ∀ p : Char → Bool, p '\\' = false →
      NotStartsWith p (joined (.token ("\\right" ++ right.getD ".") :: more)) := by
    intro p hp
    rw [joined, List.flatMap_cons, Piece.chars, String.toList_append]
    exact notStartsWith_cons.mpr hp
  refine fits_fence (by simp) hleft (.space (by decide) (by decide) ?_ ?_ ?_)
  . exact hmarker _ (hclose _ rfl)
  . exact hblank _ (hclose _ (by decide))
  . exact h _ (fits_fence (by simp) hright hmore) (hclose _ (by decide))

theorem argPieces_cons {arg : Formula} (h : ∀ text, arg ≠ .text text) (args : List Formula)
    : argPieces (arg :: args) = braced arg.pieces ++ argPieces args := by
  cases arg with
  | text s => exact absurd rfl (h s)
  | _ =>
    rw [argPieces]
    nofun

theorem Regular.ne_text (h : Regular inDegree node) (text : String) : node ≠ .text text := by
  rintro rfl
  nomatch h

theorem fits_args {args : List Formula}
    (h : ∀ arg ∈ args, (∀ text, arg ≠ .text text) ∧ Closable arg.pieces)
    (hmore : Fits more) : Fits (argPieces args ++ more) := by
  induction args with
  | nil =>
    rw [argPieces]
    exact hmore
  | cons arg args ih =>
    simp only [List.forall_mem_cons] at h
    rw [argPieces_cons h.1.1, List.append_assoc]
    exact fits_braced h.1.2 (ih h.2)

theorem fits_command {name bracket : String} (hname : Symbol.CommandName name)
    (hbracket : bracket ∈ ["\x7b", "["]) (h : Fits (.token bracket :: more))
    : Fits (.token ("\\" ++ name) :: .token bracket :: more) := by
  have htext : "\\" ++ name = String.ofList ('\\' :: name.toList) := by
    rw [← String.toList_inj]
    simp
  rw [htext]
  exact .func hname.isAlpha hname.ne_nil (not_raw_of_commandName hname) hbracket h

theorem pieces_func (name : String) (args : List Formula)
    : (Formula.func name args none).pieces = .token ("\\" ++ name) :: argPieces args := by
  rw [pieces, degreePieces]
  rfl

theorem pieces_root (arg degree : Formula)
    : (Formula.func "sqrt" [arg] (some degree)).pieces =
      .token "\\sqrt" :: .token "[" :: (degree.pieces ++ .token "]" :: argPieces [arg]) := by
  simp [pieces, degreePieces]

theorem fits_func {name : String} {args : List Formula} (hname : Symbol.CommandName name)
    (hne : args ≠ []) (h : ∀ arg ∈ args, (∀ text, arg ≠ .text text) ∧ Closable arg.pieces)
    (hmore : Fits more) : Fits ((Formula.func name args none).pieces ++ more) := by
  have hargs := fits_args h hmore
  rw [pieces_func, List.cons_append]
  cases args with
  | nil => contradiction
  | cons arg args =>
    rw [argPieces_cons (h arg List.mem_cons_self).1, List.append_assoc, braced_append] at hargs ⊢
    exact fits_command hname (by simp) hargs

theorem fits_root {arg degree : Formula} (hdegree : Closable degree.pieces)
    (h : (∀ text, arg ≠ .text text) ∧ Closable arg.pieces) (hmore : Fits more)
    : Fits ((Formula.func "sqrt" [arg] (some degree)).pieces ++ more) := by
  have hargs : Fits (argPieces [arg] ++ more) := fits_args (by simpa using h) hmore
  obtain ⟨_, _, _, _, hopening, hclosing, _⟩ := isWord_brace
  rw [pieces_root, List.cons_append, List.cons_append, List.append_assoc]
  have hname : Symbol.CommandName "sqrt" := ⟨_, rfl, rfl⟩
  refine fits_command hname (by simp) (.word hopening ?_)
  exact hdegree _ (.word hclosing hargs) (notStartsWith_cons.mpr (by decide))

theorem row_cons (cell next : List Piece) (cells : List (List Piece))
    : row (cell :: next :: cells) = cell ++ .token "&" :: row (next :: cells) := by
  simp [row]

theorem grid_cons (first next : List (List Piece)) (rows : List (List (List Piece)))
    : grid (first :: next :: rows) =
      row first ++ .token "\\\\" :: .token "\n" :: grid (next :: rows) := by
  simp [grid]

theorem fits_row {cells : List Formula} (h : ∀ cell ∈ cells, Closable cell.pieces)
    (hmore : Fits more) (hloose : NotStartsWith isLoose (joined more))
    : Fits (row (cells.map pieces) ++ more) := by
  match cells with
  | [] => exact hmore
  | [cell] =>
    rw [List.map_singleton, row]
    simpa using h cell (by simp) _ hmore hloose
  | cell :: next :: cells =>
    rw [List.map_cons, List.map_cons, row_cons, ← List.map_cons, List.append_assoc]
    have hrest := fits_row (fun cell hcell => h cell (List.mem_cons_of_mem _ hcell)) hmore hloose
    exact h cell List.mem_cons_self _ (.word isWord_brace.2.2.1 hrest)
      (notStartsWith_cons.mpr (by decide))

theorem row_notStartsWith {cells : List Formula}
    (h : ∀ cell ∈ cells, Spares isMarkerChar cell.pieces)
    (hmore : NotStartsWith isMarkerChar (joined more))
    : NotStartsWith isMarkerChar (joined (row (cells.map pieces) ++ more)) := by
  match cells with
  | [] => exact hmore
  | [cell] =>
    rw [List.map_singleton, row]
    simpa using h cell (by simp) _ hmore
  | cell :: next :: cells =>
    rw [List.map_cons, List.map_cons, row_cons, List.append_assoc]
    exact h cell (by simp) _ (notStartsWith_cons.mpr rfl)

theorem fits_grid {rows : List (List Formula)}
    (h : ∀ row ∈ rows, ∀ cell ∈ row, Spares isMarkerChar cell.pieces ∧ Closable cell.pieces)
    (hmore : Fits more) (hnext : NotStartsWith isMarkerChar (joined more))
    (hloose : NotStartsWith isLoose (joined more))
    : Fits (.token "\n" :: (grid (rows.map (List.map pieces)) ++ more)) := by
  match rows with
  | [] => exact .newline hnext hmore
  | [cells] =>
    have hcells := h cells (by simp)
    rw [List.map_singleton, grid, List.map_singleton, List.intersperse_singleton,
      List.flatten_singleton]
    exact .newline (row_notStartsWith (fun cell hcell => (hcells cell hcell).1) hnext)
      (fits_row (fun cell hcell => (hcells cell hcell).2) hmore hloose)
  | cells :: next :: rows =>
    have hcells := h cells (by simp)
    have hrest := fits_grid (fun row hrow => h row (List.mem_cons_of_mem _ hrow)) hmore hnext hloose
    rw [List.map_cons, List.map_cons, grid_cons, ← List.map_cons, List.append_assoc]
    have hfollow : Fits (.token "\\\\" :: .token "\n" ::
        (grid ((next :: rows).map (List.map pieces)) ++ more)) := .word .rowEnd hrest
    exact .newline (row_notStartsWith (fun cell hcell => (hcells cell hcell).1)
        (notStartsWith_cons.mpr rfl))
      (fits_row (fun cell hcell => (hcells cell hcell).2) hfollow
        (notStartsWith_cons.mpr (by decide)))

theorem GridHead.isAlpha {name : String} {spec : Option String} (h : GridHead name spec)
    : ∀ c ∈ name.toList, c.isAlpha := by
  cases h with
  | plain hname hne => exact hname
  | array hspec => decide

theorem fits_env {name : String} {spec : Option String} {rows : List (List Formula)}
    (hhead : GridHead name spec)
    (h : ∀ row ∈ rows, ∀ cell ∈ row, Spares isMarkerChar cell.pieces ∧ Closable cell.pieces)
    (hmore : Fits more) : Fits ((Formula.env name spec rows).pieces ++ more) := by
  have hend : Fits (.token ("\\end\x7b" ++ name ++ "\x7d") :: more) := by
    refine .word ?_ hmore
    have := @IsWord.raw "end".toList name.toList (by simp) hhead.isAlpha (by simp)
    simpa using this
  have hstop : ∀ p : Char → Bool, p '\n' = false →
      NotStartsWith p (joined (.token "\n" :: .token ("\\end\x7b" ++ name ++ "\x7d") :: more)) :=
    fun p hp => notStartsWith_cons.mpr hp
  have hnewline : Fits (.token "\n" :: .token ("\\end\x7b" ++ name ++ "\x7d") :: more) := by
    refine .newline ?_ hend
    rw [joined, List.flatMap_cons, Piece.chars, String.toList_append, String.toList_append]
    exact notStartsWith_cons.mpr rfl
  have hbody := fits_grid h hnewline (hstop _ rfl) (hstop _ (by decide))
  have hlist : (Formula.env name spec rows).pieces ++ more =
      .token ("\\begin\x7b" ++ name ++ "\x7d") :: (specPieces spec ++ (.token "\n" ::
        (grid (rows.map (List.map pieces)) ++
          .token "\n" :: .token ("\\end\x7b" ++ name ++ "\x7d") :: more))) := by
    simp [pieces_env]
  rw [hlist]
  cases hhead with
  | plain hname hne =>
    refine .word ?_ hbody
    have hraw : name.toList ≠ "array".toList := fun heq => hne (String.toList_inj.mp heq)
    have := @IsWord.raw "begin".toList name.toList (by simp) hname fun _ => hraw
    simpa using this
  | @array spec hspec =>
    have hclose : '}' ∉ spec.toList := fun hmem => absurd (hspec _ hmem) (by decide)
    have htext : "\x7b" ++ spec ++ "\x7d" = String.ofList ('{' :: spec.toList ++ ['}']) := by
      rw [← String.toList_inj]
      simp
    rw [specPieces, htext]
    exact .array hclose hbody

theorem fits_group {nodes : List Formula} (hflat : ∀ node ∈ nodes, ∀ more, node ≠ .group more)
    (hfull : ∀ node ∈ nodes, node ≠ .empty)
    (hnumbers : nodes.IsChain fun node next => ¬ (node.isNumber ∧ next.isNumber))
    (h : ∀ node ∈ nodes, Regular inDegree node ∧ Fitting node) (hmore : Fits more)
    (hdigit : nodes.getLast?.any isNumber → NotStartsWith Char.isDigit (joined more))
    : Fits ((nodes.map pieces).flatten ++ more) := by
  induction nodes with
  | nil => exact hmore
  | cons node nodes ih =>
    simp only [List.forall_mem_cons] at hflat hfull h
    rw [List.map_cons, List.flatten_cons, List.append_assoc]
    cases nodes with
    | nil =>
      apply h.1.2 _ hmore
      rw [closesWithNumber_eq hflat.1]
      exact hdigit
    | cons next nodes =>
      have hchain := List.isChain_cons_cons.mp hnumbers
      apply h.1.2 _ (ih hflat.2 hfull.2 hchain.2 h.2 hdigit)
      rw [closesWithNumber_eq hflat.1]
      intro hnumber
      have hnext : next.isNumber = false := by
        rw [Bool.eq_false_iff]
        exact fun hnext => hchain.1 ⟨hnumber, hnext⟩
      have hopens := (h.2 next List.mem_cons_self).1.opens (hfull.2 next List.mem_cons_self)
      rw [opensWithNumber_eq (hflat.2 next List.mem_cons_self), hnext] at hopens
      rw [List.map_cons, List.flatten_cons, List.append_assoc]
      exact hopens.notStartsWith (fun _ _ _ hdigit => by simpa using hdigit) _

theorem Regular.fitting (h : Regular inDegree node) : Fitting node := by
  induction h with
  | empty =>
    intro more hmore _
    rw [pieces]
    exact hmore
  | number h =>
    intro more hmore hdigit
    rw [pieces]
    exact .number h (hdigit (isNumber_of_digits h)) hmore
  | char h =>
    intro more hmore _
    rw [pieces]
    exact .word (by simpa using IsWord.single (isWord_char h)) hmore
  | escaped h =>
    intro more hmore _
    rw [pieces]
    exact .word (by simpa using IsWord.escaped h) hmore
  | symbol hname harity =>
    intro more hmore _
    rw [pieces]
    exact .word (isWord_command (Symbol.commandName_of_toTypst? hname) harity) hmore
  | @func _ name arity args harity hraw hlength hargs ih =>
    intro more hmore _
    have hne : args ≠ [] := by
      rintro rfl
      cases arity
      all_goals contradiction
    exact fits_func (Symbol.commandName_of_arity? harity hraw) hne
      (fun arg harg => ⟨(hargs arg harg).ne_text, (ih arg harg).closable⟩) hmore
  | root hdegree harg ihdegree iharg =>
    exact fun more hmore _ => fits_root ihdegree.closable ⟨harg.ne_text, iharg.closable⟩ hmore
  | attach hbase hnumber hsub hsup hsome ih ihsub ihsup =>
    intro more hmore _
    rw [pieces_attach fun node hnode => (hsup node hnode).leadingPrimes, List.append_assoc,
      List.append_assoc, List.append_assoc]
    have hmarkers : '^' ∈ ['_', '^'] ∧ '_' ∈ ['_', '^'] := by decide
    have hsupFits := fits_scriptPieces hmarkers.1 (fun node hnode =>
      ⟨fun _ => ⟨hsup node hnode, ihsup node hnode⟩, (ihsup node hnode).closable⟩) hmore
    have hsubFits := fits_scriptPieces hmarkers.2 (fun node hnode =>
      ⟨fun _ => ⟨hsub node hnode, ihsub node hnode⟩, (ihsub node hnode).closable⟩) hsupFits
    exact fits_base ih.closable (fun _ => ih) hnumber (fits_primes _ hsubFits)
  | leftRight hleft hbody hright ih =>
    intro more hmore _
    rw [pieces_leftRight hbody, List.cons_append, List.cons_append, List.append_assoc]
    exact fits_fenced hleft ih.closable hbody.spares_marker hbody.spares_blank hright hmore
  | env hhead hrows hcells hlast h ih =>
    exact fun more hmore _ => fits_env hhead (fun row hrow cell hcell =>
      ⟨(h row hrow cell hcell).spares_marker, (ih row hrow cell hcell).closable⟩) hmore
  | group hlength hflat hfull hnumbers h ih =>
    intro more hmore hdigit
    rw [pieces, eachPieces_eq]
    exact fits_group hflat hfull hnumbers (fun node hnode => ⟨h node hnode, ih node hnode⟩) hmore hdigit

end Fits

/--
Pieces that do not end with a blank.
-/
def Ends (spelled : List Piece) : Prop :=
  ∀ c, (joined spelled).getLast? = some c → Text.isBlank c = false

section Ends

variable {spelled more : List Piece} {text : String}

theorem ends_nil : Ends [] := nofun

theorem Ends.append (h : Ends spelled) (hmore : Ends more) : Ends (spelled ++ more) := by
  intro c hc
  rw [joined, List.flatMap_append, List.getLast?_append] at hc
  rcases Option.or_eq_some_iff.mp hc with hc | ⟨_, hc⟩
  . exact hmore c hc
  . exact h c hc

theorem ends_of_no_blank (h : ∀ piece ∈ spelled, ∀ c ∈ piece.chars, Text.isBlank c = false)
    : Ends spelled := by
  intro c hc
  obtain ⟨piece, hpiece, hmem⟩ := List.mem_flatMap.mp (List.mem_of_getLast? hc)
  exact h piece hpiece c hmem

theorem ends_token (h : ∀ c ∈ text.toList, Text.isBlank c = false) : Ends [.token text] :=
  ends_of_no_blank (by simpa [Piece.chars] using h)

theorem Ends.after (h : Ends more) (hne : joined more ≠ []) (spelled : List Piece)
    : Ends (spelled ++ more) := by
  intro c hc
  rw [joined, List.flatMap_append, ← joined, ← joined, getLast?_append_of_ne_nil hne] at hc
  exact h c hc

theorem ends_braced : Ends (braced spelled) :=
  (ends_token (by decide)).after (by simp [joined, Piece.chars]) (.token "\x7b" :: spelled)

theorem ends_command (h : Symbol.CommandName text) : Ends [.token ("\\" ++ text)] := by
  apply ends_token
  rw [String.toList_append, List.forall_mem_append]
  exact ⟨by decide, fun c hc => isBlank_of_isAlpha (h.isAlpha c hc)⟩

theorem ends_scriptPieces {marker : String} {sub : Option Formula} (hmarker : Ends [.token marker])
    (h : ∀ node ∈ sub, node.isBareScript → Ends node.pieces) : Ends (scriptPieces marker sub) := by
  cases sub with
  | none => exact ends_nil
  | some node =>
    rw [scriptPieces, script, ← List.singleton_append]
    apply hmarker.append
    split
    next hbare => exact h node rfl hbare
    . exact ends_braced

theorem ends_args {args : List Formula} (h : ∀ arg ∈ args, ∀ text, arg ≠ .text text)
    : Ends (argPieces args) := by
  induction args with
  | nil =>
    rw [argPieces]
    exact ends_nil
  | cons arg args ih =>
    rw [List.forall_mem_cons] at h
    rw [argPieces_cons h.1]
    exact ends_braced.append (ih h.2)

theorem isBlank_of_number {cs : List Char} (h : IsNumber cs) : ∀ c ∈ cs, Text.isBlank c = false := by
  obtain ⟨digits, fraction, hdigits, _, hfraction, htext⟩ := h
  rcases htext with rfl | ⟨_, rfl⟩
  . exact fun c hc => isBlank_of_isDigit (hdigits c hc)
  . rw [List.forall_mem_append, List.forall_mem_cons]
    exact ⟨fun c hc => isBlank_of_isDigit (hdigits c hc), by decide,
      fun c hc => isBlank_of_isDigit (hfraction c hc)⟩

theorem ends_right {delim : Option String} (h : ∀ text ∈ delim, IsDelimiter inDegree text)
    : Ends (spelled ++ [.token ("\\right" ++ delim.getD ".")]) := by
  have hblank : ∀ text ∈ elementDelimiters ++ commandDelimiters.map ("\\" ++ ·),
      ∀ c ∈ text.toList, Text.isBlank c = false := by
    decide +kernel
  refine (ends_token ?_).after (by simp [joined, Piece.chars]) spelled
  rw [String.toList_append, List.forall_mem_append]
  exact ⟨by decide, hblank _ (mem_delimiters h)⟩

theorem ends_end {name : String} {spec : Option String} (h : GridHead name spec)
    : Ends (spelled ++ [.token ("\\end\x7b" ++ name ++ "\x7d")]) := by
  refine (ends_token ?_).after (by simp [joined, Piece.chars]) spelled
  rw [String.toList_append, String.toList_append, List.forall_mem_append, List.forall_mem_append]
  exact ⟨⟨by decide, fun c hc => isBlank_of_isAlpha (h.isAlpha c hc)⟩, by decide⟩

theorem ends_func {name : String} {args : List Formula} (hname : Symbol.CommandName name)
    (h : ∀ arg ∈ args, ∀ text, arg ≠ .text text) : Ends (Formula.func name args none).pieces := by
  rw [pieces_func]
  exact (ends_command hname).append (ends_args h)

theorem ends_root {arg degree : Formula} (h : ∀ text, arg ≠ .text text)
    : Ends (Formula.func "sqrt" [arg] (some degree)).pieces := by
  have hargs : argPieces [arg] = braced arg.pieces := by
    rw [argPieces_cons h, argPieces, List.append_nil]
  rw [pieces_root, hargs, List.append_cons]
  exact ends_braced.after (by simp [braced, joined, Piece.chars])
    (.token "\\sqrt" :: .token "[" :: (degree.pieces ++ [.token "]"]))

theorem ends_attach {base : Formula} {sub sup : Option Formula} {primes : Nat}
    (hbase : base.needsBraces = false → Ends base.pieces)
    (hsub : ∀ node ∈ sub, node.isBareScript → Ends node.pieces)
    (hsup : ∀ node ∈ sup, node.isBareScript → Ends node.pieces)
    (hprimes : ∀ node ∈ sup, node.leadingPrimes = 0)
    : Ends (Formula.attach base sub (primed primes sup)).pieces := by
  rw [pieces_attach hprimes]
  refine .append ?_ (.append ?_ (.append ?_ ?_))
  . split
    . exact ends_braced
    next hbraces => exact hbase (by simpa using hbraces)
  . have hprime : Text.isBlank '\'' = false := by decide
    exact ends_of_no_blank (by simp [Piece.chars, hprime])
  . exact ends_scriptPieces (ends_token (by decide)) hsub
  . exact ends_scriptPieces (ends_token (by decide)) hsup

theorem ends_env {name : String} {spec : Option String} {rows : List (List Formula)}
    (hhead : GridHead name spec) : Ends (Formula.env name spec rows).pieces := by
  have hlist : (Formula.env name spec rows).pieces =
      .token ("\\begin\x7b" ++ name ++ "\x7d") :: (specPieces spec ++ (.token "\n" ::
        (grid (rows.map (List.map pieces)) ++ [.token "\n"]))) ++
          [.token ("\\end\x7b" ++ name ++ "\x7d")] := by
    simp [pieces_env]
  rw [hlist]
  exact ends_end hhead

theorem Regular.ends (h : Regular inDegree node) : Ends node.pieces := by
  induction h with
  | empty =>
    rw [pieces]
    exact ends_nil
  | number h =>
    rw [pieces]
    exact ends_token (isBlank_of_number h)
  | char h =>
    rw [pieces]
    apply ends_token
    simpa using isBlank_of_singleKind? (isWord_char h)
  | escaped h =>
    have hescapes : ∀ c ∈ escapes, Text.isBlank c = false := by decide
    have hslash : Text.isBlank '\\' = false := by decide
    rw [pieces]
    apply ends_token
    simpa [hslash] using hescapes _ h
  | symbol hname harity =>
    rw [pieces]
    exact ends_command (Symbol.commandName_of_toTypst? hname)
  | func harity hraw hlength hargs ih =>
    exact ends_func (Symbol.commandName_of_arity? harity hraw)
      fun arg harg => (hargs arg harg).ne_text
  | root hdegree harg ihdegree iharg => exact ends_root harg.ne_text
  | attach hbase hnumber hsub hsup hsome ih ihsub ihsup =>
    exact ends_attach (fun _ => ih) (fun node hnode _ => ihsub node hnode)
      (fun node hnode _ => ihsup node hnode) fun node hnode => (hsup node hnode).leadingPrimes
  | leftRight hleft hbody hright ih =>
    rw [pieces_leftRight hbody, ← List.cons_append, ← List.cons_append]
    exact ends_right hright
  | env hhead hrows hcells hlast h ih => exact ends_env hhead
  | @group _ nodes hlength hflat hfull hnumbers h ih =>
    rw [pieces, eachPieces_eq]
    clear hlength hflat hfull hnumbers h
    induction nodes with
    | nil => exact ends_nil
    | cons node nodes ihnodes =>
      rw [List.forall_mem_cons] at ih
      rw [List.map_cons, List.flatten_cons]
      exact ih.1.append (ihnodes ih.2)

end Ends

end Formula

end Tex
end MathMarkup
