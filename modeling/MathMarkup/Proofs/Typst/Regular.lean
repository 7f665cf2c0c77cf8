import MathMarkup.Proofs.Typst.Spacing
import MathMarkup.Typst.Formula.Parser

/-!
This module contains the Typst formulas that are written in a way in which they can be told apart
again, and what their pieces look like.
-/

namespace MathMarkup
namespace Typst

open Text Scan

def reservedCalls : List String :=
  ["mat", "cases", "lr"]

/--
The names that symbols and calls may have.
-/
structure Vocabulary where
  mem : String → Prop
  typstName : ∀ name, mem name → Symbol.TypstName name
  not_reserved : ∀ name, mem name → name ∉ reservedCalls

namespace Formula

def isNumber : Formula → Bool
  | .atom s => s.toList.head?.any Char.isDigit
  | _ => false

/--
Whether what is written for the formula may begin with a number.
-/
def opensWithNumber : Formula → Bool
  | .frac num _ => num.isNumber
  | .group _ => true
  | node => node.isNumber

/--
Whether what is written for the formula may end with a number.
-/
def closesWithNumber : Formula → Bool
  | .frac _ den => den.isNumber
  | .group _ => true
  | node => node.isNumber

/--
Whether what is written for the formula may end with a soft space.
-/
def closesSoftly : Formula → Bool
  | .attach _ _ _ | .group _ => true
  | _ => false

/--
Whether the formula carries scripts without parentheses around it.
-/
def isScriptBase : Formula → Bool
  | .atom s =>
    match s.toList with
    | [c] => c.isAlpha
    | _ => false
  | .symbol _ | .call _ _ _ | .parens _ | .leftRight _ _ _ | .matrix _ _ | .cases _ _ => true
  | _ => false

def primes (count : Nat) : Formula :=
  .group (List.replicate count (.atom "'"))

/--
A delimiter that is no bracket for rounding.
-/
def IsDelimiter (delim : String) : Prop :=
  delim ∈ elementDelimiters ++ symbolDelimiters ∧
    delim ∉ ["floor.l", "floor.r", "ceil.l", "ceil.r"]

/--
The delimiters of a body: one or two, and parentheses only as a pair.
-/
inductive Fences : Option String → Option String → Prop where
  | parens : Fences (some "(") (some ")")
  | other {left right : Option String} (hsome : left.isSome ∨ right.isSome)
    (hleft : ∀ delim ∈ left, IsDelimiter delim ∧ delim ∉ ["(", ")"])
    (hright : ∀ delim ∈ right, IsDelimiter delim ∧ delim ∉ ["(", ")"]) : Fences left right

/--
The named arguments of a matrix: its delimiter at most.
-/
inductive MatrixNamed : List (String × Formula) → Prop where
  | none : MatrixNamed []
  | bare : MatrixNamed [("delim", .nothing)]
  | delim {delim : String} (h : delim ∈ matrixDelimiters) : MatrixNamed [("delim", .text delim)]

/--
Formulas without spaces, raw text and separators in which what stands side by side is not in groups
of its own. No number stands directly before another one.
-/
inductive Regular (style : Style) (words : Vocabulary) : Formula → Prop where
  | letter {c : Char} (h : c.isAlpha) : Regular style words (.atom (String.ofList [c]))
  | sign {s : String} (h : s ∈ ["+", "="]) : Regular style words (.atom s)
  | number {digits : String} (h : ∀ c ∈ digits.toList, c.isDigit) (hne : digits.toList ≠ []) :
    Regular style words (.atom digits)
  | symbol {name : String} (h : words.mem name)
    (hinfinity : style.inftyToOo → name ≠ "infinity") : Regular style words (.symbol name)
  | parens {nodes : List Formula} (hflat : ∀ node ∈ nodes, ∀ more, node ≠ .group more)
    (hnumbers : nodes.IsChain fun node next => ¬ (node.closesWithNumber ∧ next.opensWithNumber))
    (h : ∀ node ∈ nodes, Regular style words node) : Regular style words (.parens nodes)
  | group {nodes : List Formula} (hlength : 2 ≤ nodes.length)
    (hflat : ∀ node ∈ nodes, ∀ more, node ≠ .group more)
    (hnumbers : nodes.IsChain fun node next => ¬ (node.closesWithNumber ∧ next.opensWithNumber))
    (h : ∀ node ∈ nodes, Regular style words node) : Regular style words (.group nodes)
  | call {name : String} {args : List Formula} (hname : words.mem name) (hne : args ≠ [])
    (h : ∀ arg ∈ args, Regular style words arg) : Regular style words (.call name args [])
  | frac {num den : Formula} (hnum : Regular style words num) (hden : Regular style words den)
    (hnumParens : ∀ nodes, num ≠ .parens nodes) (hdenParens : ∀ nodes, den ≠ .parens nodes) :
    Regular style words (.frac num den)
  | attach {base : Formula} {sub sup : Option Formula} (hbase : Regular style words base)
    (hkind : base.isScriptBase) (hsub : ∀ node ∈ sub, Regular style words node)
    (hsup : ∀ node ∈ sup, Regular style words node) (hsome : sub.isSome ∨ sup.isSome) :
    Regular style words (.attach base sub sup)
  | primed {base : Formula} {sub : Option Formula} {count : Nat} (hbase : Regular style words base)
    (hkind : base.isScriptBase) (hsub : ∀ node ∈ sub, Regular style words node)
    (hcount : count ≠ 0) : Regular style words (.attach base sub (some (.primes count)))
  | leftRight {left right : Option String} {body : Formula} (hfences : Fences left right)
    (hbody : Regular style words body)
    (hwords : ∀ name, words.mem name → name ∉ symbolDelimiters) :
    Regular style words (.leftRight left body right)
  | matrix {rows : List (List Formula)} {named : List (String × Formula)}
    (hnamed : MatrixNamed named) (hrows : rows ≠ []) (hcells : ∀ row ∈ rows, row ≠ [])
    (h : ∀ row ∈ rows, ∀ cell ∈ row, Regular style words cell) :
    Regular style words (.matrix rows named)
  | cases {rows : List (List Formula)} (hrows : rows ≠ []) (hcells : ∀ row ∈ rows, row ≠ [])
    (h : ∀ row ∈ rows, ∀ cell ∈ row, Regular style words cell) :
    Regular style words (.cases rows [])

def spelling (style : Style) (node : Formula) : List Piece :=
  node.pieces style {}

/--
A formula that is written in arguments as it is written outside of them.
-/
def Uniform (style : Style) (node : Formula) : Prop :=
  ∀ cx, node.pieces style cx = node.spelling style

def wrapped (wrap : Bool) (spelled : List Piece) : List Piece :=
  if wrap then parenthesized spelled else spelled

def scriptSpelling (style : Style) (marker : String) : Option Formula → List Piece
  | none => []
  | some node => .token marker :: wrapped node.isWrappedScript (node.spelling style)

section Pieces

variable {style : Style} {words : Vocabulary} {node : Formula}

theorem eachPieces_eq (cx : Context) (nodes : List Formula)
    : eachPieces style cx nodes = nodes.map (pieces style cx) := by
  induction nodes with
  | nil => rw [eachPieces, List.map_nil]
  | cons node nodes ih => rw [eachPieces, List.map_cons, ih]

theorem rowPieces_eq (cx : Context) (rows : List (List Formula))
    : rowPieces style cx rows = rows.map (List.map (pieces style cx)) := by
  induction rows with
  | nil => rw [rowPieces, List.map_nil]
  | cons row rows ih => rw [rowPieces, List.map_cons, ih, eachPieces_eq]

theorem scriptPieces_eq {cx : Context} {marker : String} {script : Option Formula}
    (h : ∀ node ∈ script, node.pieces style cx = node.spelling style)
    : scriptPieces style cx marker script = scriptSpelling style marker script := by
  cases script with
  | none => rw [scriptPieces, scriptSpelling]
  | some node =>
    rw [scriptPieces, scriptSpelling, h node rfl]
    rfl

def isAtomStart (c : Char) : Bool :=
  c.isAlphanum || ['+', '='].contains c

theorem Regular.atom_first {s : String} (h : Regular style words (.atom s))
    : s.toList.head?.any isAtomStart := by
  cases h with
  | letter h => simp [isAtomStart, Char.isAlphanum, h]
  | sign h =>
    simp only [List.mem_cons, List.not_mem_nil, or_false] at h
    rcases h with rfl | rfl
    all_goals decide
  | number h hne =>
    cases hs : s.toList with
    | nil => contradiction
    | cons c cs => simp [isAtomStart, Char.isAlphanum, h c (by simp [hs])]

theorem Regular.atom_ne {s : String} (h : Regular style words (.atom s))
    : s ∉ [",", ";", "'", "(", ")", "[", "]", "\x7b", "\x7d"] := by
  intro hmem
  have hfirst : ∀ t ∈ [",", ";", "'", "(", ")", "[", "]", "\x7b", "\x7d"],
      ¬ t.toList.head?.any isAtomStart := by
    decide
  exact hfirst s hmem h.atom_first

theorem Regular.isPrime (h : Regular style words node) : node.isPrime = false := by
  cases node with
  | atom s =>
    have hne := h.atom_ne
    simp only [List.mem_cons, not_or] at hne
    simp [Formula.isPrime, hne]
  | _ => rfl

theorem Regular.bracketDepth (h : Regular style words node) : node.bracketDepth = 0 := by
  cases node with
  | atom s =>
    have hne := h.atom_ne
    simp only [List.mem_cons, List.not_mem_nil, or_false, not_or] at hne
    simp [Formula.bracketDepth, hne]
  | _ => rfl

theorem Regular.primeMarks? (h : Regular style words node) : node.primeMarks? = none := by
  cases node with
  | group nodes =>
    cases h with
    | group hlength _ _ h =>
      cases nodes with
      | nil => contradiction
      | cons first nodes => simp [Formula.primeMarks?, (h first List.mem_cons_self).isPrime]
  | _ => simp [Formula.primeMarks?, h.isPrime]

theorem Regular.needsParens_group {nodes : List Formula} (h : Regular style words (.group nodes))
    : (Formula.group nodes).needsParens = true := by
  cases h with
  | group hlength _ _ h =>
    match nodes with
    | [] => contradiction
    | [_] => contradiction
    | first :: second :: nodes =>
      simp [Formula.needsParens, isEnclosed, (h first List.mem_cons_self).bracketDepth]

theorem Regular.isEmpty (h : Regular style words node) : node.isEmpty = false := by
  cases h
  all_goals rfl

theorem needsParens_of_isScriptBase (h : node.isScriptBase) : node.needsParens = false := by
  cases node
  all_goals first | rfl | contradiction

section Attach

variable {cx : Context} {base : Formula} {sub sup : Option Formula}
  (hbase : base.pieces style cx = base.spelling style) (hkind : base.isScriptBase)
  (hsub : ∀ node ∈ sub, node.pieces style cx = node.spelling style)

include hbase hkind hsub

theorem pieces_attach (hsup : ∀ node ∈ sup, node.pieces style cx = node.spelling style)
    (hmarks : ∀ node ∈ sup, node.primeMarks? = none)
    : (Formula.attach base sub sup).pieces style cx =
      base.spelling style ++ (scriptSpelling style "_" sub ++
        (scriptSpelling style "^" sup ++ scriptGap sub sup)) := by
  have hnone : sup.bind Formula.primeMarks? = none := by
    cases sup with
    | none => rfl
    | some node => exact hmarks node rfl
  have hempty : base.isEmpty = false := by
    cases base
    all_goals first | rfl | contradiction
  rw [pieces, hnone, hempty, needsParens_of_isScriptBase hkind, hbase, scriptPieces_eq hsub,
    scriptPieces_eq hsup]
  simp

theorem pieces_primed {count : Nat} (hcount : count ≠ 0)
    : (Formula.attach base sub (some (.primes count))).pieces style cx =
      base.spelling style ++ (List.replicate count (.token "'") ++
        (scriptSpelling style "_" sub ++ scriptGap sub none)) := by
  have hmarks : (some (Formula.primes count)).bind Formula.primeMarks? = some count := by
    simp [Formula.primes, Formula.primeMarks?, Formula.isPrime, hcount]
  have hempty : base.isEmpty = false := by
    cases base
    all_goals first | rfl | contradiction
  rw [pieces, hmarks, hempty, needsParens_of_isScriptBase hkind, hbase, scriptPieces_eq hsub]
  simp

end Attach

theorem Regular.pieces_atom {s : String} (h : Regular style words (.atom s)) (cx : Context)
    : (Formula.atom s).pieces style cx = [.token s] := by
  have hne := h.atom_ne
  simp only [List.mem_cons, not_or] at hne
  simp [pieces, atomText, hne]

theorem Regular.spelling_atom {s : String} (h : Regular style words (.atom s))
    : (Formula.atom s).spelling style = [.token s] :=
  h.pieces_atom {}

theorem Regular.pieces_of_atom {s : String} (h : Regular style words (.atom s)) (cx : Context)
    : (Formula.atom s).pieces style cx = (Formula.atom s).spelling style :=
  (h.pieces_atom cx).trans h.spelling_atom.symm

theorem Regular.pieces_eq (h : Regular style words node) (cx : Context)
    : node.pieces style cx = node.spelling style := by
  induction h generalizing cx with
  | letter h => exact (@letter _ words _ h).pieces_of_atom cx
  | sign h => exact (@sign _ words _ h).pieces_of_atom cx
  | number h hne => exact (@number _ words _ h hne).pieces_of_atom cx
  | group _ _ _ _ ih =>
    rw [spelling, pieces, pieces, eachPieces_eq, eachPieces_eq,
      List.map_congr_left fun node hnode => ih node hnode cx]
    rfl
  | frac _ _ _ _ ihnum ihden =>
    rw [spelling, pieces, pieces]
    simp only [ihnum, ihden]
  | attach _ hkind hsub hsup _ ihbase ihsub ihsup =>
    have hmarks := fun node hnode => (hsup node hnode).primeMarks?
    rw [spelling, pieces_attach (ihbase cx) hkind (fun node hnode => ihsub node hnode cx)
      (fun node hnode => ihsup node hnode cx) hmarks,
      pieces_attach rfl hkind (fun _ _ => rfl) (fun _ _ => rfl) hmarks]
  | primed _ hkind _ hcount ihbase ihsub =>
    rw [spelling, pieces_primed (ihbase cx) hkind (fun node hnode => ihsub node hnode cx) hcount,
      pieces_primed rfl hkind (fun _ _ => rfl) hcount]
  | symbol | parens | call | leftRight | matrix | cases => simp only [spelling, pieces]

end Pieces

/--
The pieces of the named arguments of a matrix, with the comma after them.
-/
def delimSpelling : List (String × Formula) → List Piece
  | [(_, .nothing)] => [.token "delim:", .token "#none", .token ","]
  | [(_, .text delim)] => [.token "delim:", .token (quote delim), .token ","]
  | _ => []

section Spelling

variable {style : Style} {words : Vocabulary}

theorem spelling_group (nodes : List Formula)
    : (Formula.group nodes).spelling style = (nodes.map (spelling style)).flatten := by
  rw [spelling, pieces, eachPieces_eq]
  rfl

theorem spelling_parens (nodes : List Formula)
    : (Formula.parens nodes).spelling style =
      parenthesized (nodes.map (spelling style)).flatten := by
  rw [spelling, pieces, eachPieces_eq]
  rfl

theorem spelling_frac (num den : Formula)
    : (Formula.frac num den).spelling style =
      (if num.needsParens then [.softSpace] else []) ++
        (wrapped num.needsParens (num.spelling style) ++
          .token "/" :: wrapped den.needsParens (den.spelling style)) := by
  rw [spelling, pieces, wrapped, wrapped]
  split
  all_goals rfl

theorem spelling_call {name : String} {args : List Formula}
    (h : ∀ arg ∈ args, Regular style words arg)
    : (Formula.call name args []).spelling style =
      .token (name ++ "(") ::
        (separated [.token ","] (args.map (spelling style)) ++ [.token ")"]) := by
  rw [spelling, pieces, eachPieces_eq, namedPieces, List.append_nil,
    List.map_congr_left fun arg harg => (h arg harg).pieces_eq .args]
  rfl

theorem spelling_leftRight {left right : Option String} {body : Formula}
    (h : Regular style words body)
    : (Formula.leftRight left body right).spelling style =
      .token "lr(" :: (left.toList.map .token ++ (body.spelling style ++
        (right.toList.map .token ++ [.token ")"]))) := by
  rw [spelling, pieces, h.pieces_eq]
  simp

section Grid

variable {rows : List (List Formula)}

theorem uniform_of_regular (h : ∀ row ∈ rows, ∀ cell ∈ row, Regular style words cell)
    : ∀ row ∈ rows, ∀ cell ∈ row, Uniform style cell :=
  fun row hrow cell hcell => (h row hrow cell hcell).pieces_eq

variable (h : ∀ row ∈ rows, ∀ cell ∈ row, Uniform style cell)

include h

theorem rowPieces_of_uniform (cx : Context)
    : rowPieces style cx rows = rows.map (List.map (spelling style)) := by
  rw [rowPieces_eq]
  apply List.map_congr_left
  intro row hrow
  exact List.map_congr_left fun cell hcell => h row hrow cell hcell cx

theorem spelling_matrix {named : List (String × Formula)} (hnamed : MatrixNamed named)
    (hrows : rows ≠ [])
    : (Formula.matrix rows named).spelling style =
      .token "mat(" :: (delimSpelling named ++
        (grid [.token ";"] [.token ","] (rows.map (List.map (spelling style))) ++
          [.token ")"])) := by
  rw [spelling, pieces, rowPieces_of_uniform h]
  cases hnamed
  all_goals simp [namedPieces, gridCall, delimSpelling, separated, pieces, hrows]

theorem spelling_cases
    : (Formula.cases rows []).spelling style =
      .token "cases(" ::
        (grid [.token ","] [.token "&"] (rows.map (List.map (spelling style))) ++
          [.token ")"]) := by
  rw [spelling, pieces, rowPieces_of_uniform h]
  simp [namedPieces, gridCall, separated]

end Grid

section Scripts

variable {base : Formula} {sub sup : Option Formula} (hkind : base.isScriptBase)

include hkind

theorem spelling_attach (hsup : ∀ node ∈ sup, Regular style words node)
    : (Formula.attach base sub sup).spelling style =
      base.spelling style ++ (scriptSpelling style "_" sub ++
        (scriptSpelling style "^" sup ++ scriptGap sub sup)) :=
  pieces_attach rfl hkind (fun _ _ => rfl) (fun _ _ => rfl) fun node hnode =>
    (hsup node hnode).primeMarks?

theorem spelling_primed {count : Nat} (hcount : count ≠ 0)
    : (Formula.attach base sub (some (.primes count))).spelling style =
      base.spelling style ++ (List.replicate count (.token "'") ++
        (scriptSpelling style "_" sub ++ scriptGap sub none)) :=
  pieces_primed rfl hkind (fun _ _ => rfl) hcount

end Scripts

end Spelling

theorem symbolText_cases {style : Style} {name : String}
    (hinfinity : style.inftyToOo → name ≠ "infinity")
    : symbolText style name = name ∨ (name, symbolText style name) ∈ Symbol.shorthands := by
  have hname : (style.inftyToOo && name == "infinity") = false := by
    rw [Bool.and_eq_false_imp]
    intro hstyle
    exact beq_eq_false_iff_ne.mpr (hinfinity hstyle)
  unfold symbolText
  rw [hname]
  cases style.preferShorthands with
  | false => exact .inl rfl
  | true =>
    cases hshorthand : Symbol.shorthand? name with
    | none => exact .inl rfl
    | some spelling => exact .inr (Symbol.mem_of_lookup hshorthand)

/--
The tokens that a formula may begin with. A number is among them only where it is expected.
-/
inductive Opener (words : Vocabulary) (number : Bool) : String → Prop where
  | letter {c : Char} (h : c.isAlpha) : Opener words number (String.ofList [c])
  | sign {s : String} (h : s ∈ ["+", "="]) : Opener words number s
  | number {digits : String} (h : ∀ c ∈ digits.toList, c.isDigit) (hne : digits.toList ≠ [])
    (hnumber : number) : Opener words number digits
  | name {name : String} (h : words.mem name) : Opener words number name
  | shorthand {name spelling : String} (h : words.mem name)
    (hspelling : (name, spelling) ∈ Symbol.shorthands) : Opener words number spelling
  | paren : Opener words number "("
  | call {name : String} (h : Symbol.TypstName name)
    (hname : words.mem name ∨ name ∈ reservedCalls) : Opener words number (name ++ "(")

/--
The tokens that a formula may end with.
-/
inductive Closer (words : Vocabulary) : String → Prop where
  | letter {c : Char} (h : c.isAlpha) : Closer words (String.ofList [c])
  | sign {s : String} (h : s ∈ ["+", "="]) : Closer words s
  | number {digits : String} (h : ∀ c ∈ digits.toList, c.isDigit) (hne : digits.toList ≠ []) :
    Closer words digits
  | name {name : String} (h : words.mem name) : Closer words name
  | shorthand {name spelling : String} (h : words.mem name)
    (hspelling : (name, spelling) ∈ Symbol.shorthands) : Closer words spelling
  | paren : Closer words ")"
  | prime : Closer words "'"

section Ends

variable {style : Style} {words : Vocabulary} {node : Formula}

theorem tokenTexts_append (spelled more : List Piece)
    : tokenTexts (spelled ++ more) = tokenTexts spelled ++ tokenTexts more :=
  List.filterMap_append ..

theorem isNumber_of_digits {digits : String} (h : ∀ c ∈ digits.toList, c.isDigit)
    (hne : digits.toList ≠ []) : (Formula.atom digits).isNumber := by
  cases hdigits : digits.toList with
  | nil => contradiction
  | cons c cs => simp [isNumber, hdigits, h c (by simp [hdigits])]

theorem head?_texts_append {spelled more : List Piece} {text : String}
    (h : (tokenTexts spelled).head? = some text)
    : (tokenTexts (spelled ++ more)).head? = some text := by
  rw [tokenTexts_append, List.head?_append, h, Option.some_or]

theorem getLast?_texts_append {spelled more : List Piece} {text : String}
    (h : (tokenTexts more).getLast? = some text)
    : (tokenTexts (spelled ++ more)).getLast? = some text := by
  rw [tokenTexts_append, List.getLast?_append, h, Option.some_or]

theorem Opener.mono {number expected : Bool} {text : String} (h : Opener words number text)
    (hexpected : number → expected) : Opener words expected text := by
  cases h with
  | letter h => exact .letter h
  | sign h => exact .sign h
  | number h hne hnumber => exact .number h hne (hexpected hnumber)
  | name h => exact .name h
  | shorthand h hspelling => exact .shorthand h hspelling
  | paren => exact .paren
  | call h hname => exact .call h hname

theorem opener_reserved {number : Bool}
    : Opener words number "mat(" ∧ Opener words number "cases(" ∧ Opener words number "lr(" :=
  ⟨@Opener.call _ _ "mat" ⟨_, rfl, rfl⟩ (.inr (by decide)),
    @Opener.call _ _ "cases" ⟨_, rfl, rfl⟩ (.inr (by decide)),
    @Opener.call _ _ "lr" ⟨_, rfl, rfl⟩ (.inr (by decide))⟩

theorem opensWithNumber_of_isScriptBase (h : node.isScriptBase)
    : node.opensWithNumber = false ∧ node.closesWithNumber = false ∧ node.closesSoftly = false := by
  cases node with
  | atom s =>
    simp only [isScriptBase] at h
    split at h
    next c hs =>
      have hdigit := isDigit_of_isAlpha h
      simp [opensWithNumber, closesWithNumber, closesSoftly, isNumber, hs, hdigit]
    . contradiction
  | _ => first | contradiction | exact ⟨rfl, rfl, rfl⟩

theorem opensWithNumber_of_not_needsParens (h : Regular style words node)
    (hparens : ¬ node.needsParens) : node.opensWithNumber = node.isNumber := by
  cases node with
  | group nodes => exact absurd h.needsParens_group hparens
  | frac num den => exact absurd rfl hparens
  | _ => rfl

/--
A regular formula begins with a token by which it can be told apart from what stands before it.
-/
theorem Regular.exists_opener (h : Regular style words node)
    : ∃ text, (tokenTexts (node.spelling style)).head? = some text ∧
      Opener words node.opensWithNumber text := by
  induction h with
  | letter h =>
    rw [(@letter _ words _ h).spelling_atom]
    exact ⟨_, rfl, .letter h⟩
  | sign h =>
    rw [(@sign _ words _ h).spelling_atom]
    exact ⟨_, rfl, .sign h⟩
  | number h hne =>
    rw [(@number _ words _ h hne).spelling_atom]
    exact ⟨_, rfl, .number h hne (isNumber_of_digits h hne)⟩
  | symbol hname hinfinity =>
    rw [spelling, pieces]
    refine ⟨_, rfl, ?_⟩
    rcases symbolText_cases hinfinity with htext | hmem
    . rw [htext]
      exact .name hname
    . exact .shorthand hname hmem
  | parens =>
    rw [spelling_parens]
    exact ⟨_, rfl, .paren⟩
  | @group nodes hlength hflat _ h ih =>
    cases nodes with
    | nil => contradiction
    | cons first nodes =>
      obtain ⟨text, htext, hopener⟩ := ih first List.mem_cons_self
      rw [spelling_group, List.map_cons, List.flatten_cons]
      exact ⟨text, head?_texts_append htext, hopener.mono fun _ => rfl⟩
  | call hname _ h =>
    rw [spelling_call h]
    exact ⟨_, rfl, .call (words.typstName _ hname) (.inl hname)⟩
  | @frac num den hnum _ _ _ ih _ =>
    rw [spelling_frac, wrapped]
    by_cases hparens : num.needsParens
    . rw [if_pos hparens, if_pos hparens]
      exact ⟨_, rfl, .paren⟩
    . obtain ⟨text, htext, hopener⟩ := ih
      rw [if_neg hparens, if_neg hparens, List.nil_append]
      refine ⟨text, head?_texts_append htext, ?_⟩
      rwa [opensWithNumber_of_not_needsParens hnum hparens] at hopener
  | attach _ hkind _ hsup _ ih =>
    obtain ⟨text, htext, hopener⟩ := ih
    rw [(opensWithNumber_of_isScriptBase hkind).1] at hopener
    rw [spelling_attach hkind hsup]
    exact ⟨text, head?_texts_append htext, hopener⟩
  | primed _ hkind _ hcount ih =>
    obtain ⟨text, htext, hopener⟩ := ih
    rw [(opensWithNumber_of_isScriptBase hkind).1] at hopener
    rw [spelling_primed hkind hcount]
    exact ⟨text, head?_texts_append htext, hopener⟩
  | leftRight _ hbody =>
    rw [spelling_leftRight hbody]
    exact ⟨_, rfl, opener_reserved.2.2⟩
  | matrix hnamed hrows _ h =>
    rw [spelling_matrix (uniform_of_regular h) hnamed hrows]
    exact ⟨_, rfl, opener_reserved.1⟩
  | cases _ _ h =>
    rw [spelling_cases (uniform_of_regular h)]
    exact ⟨_, rfl, opener_reserved.2.1⟩

theorem getLast?_texts_soft {spelled : List Piece}
    : (tokenTexts (spelled ++ [.softSpace])).getLast? = (tokenTexts spelled).getLast? := by
  rw [tokenTexts_append]
  exact congrArg List.getLast? (List.append_nil _)

theorem exists_closer_wrapped {wrap : Bool} {spelled front : List Piece}
    (h : ∃ text, (tokenTexts spelled).getLast? = some text ∧ Closer words text)
    : ∃ text, (tokenTexts (front ++ wrapped wrap spelled)).getLast? = some text ∧
      Closer words text := by
  cases wrap with
  | true => exact ⟨")", getLast?_texts_append (getLast?_texts_append rfl), .paren⟩
  | false =>
    obtain ⟨text, htext, hcloser⟩ := h
    exact ⟨text, getLast?_texts_append htext, hcloser⟩

/--
The scripts of a formula, with the space after them, end with a token that a formula may end with.
-/
theorem exists_closer_script {marker : String} {front : List Piece} {script : Formula}
    (h : ∃ text, (tokenTexts (script.spelling style)).getLast? = some text ∧ Closer words text)
    : ∃ text, (tokenTexts (front ++ (scriptSpelling style marker (some script) ++
        if script.isWrappedScript then [] else [.softSpace]))).getLast? = some text ∧
      Closer words text := by
  have hscript : ∃ text, (tokenTexts (front ++
      scriptSpelling style marker (some script))).getLast? = some text ∧ Closer words text := by
    rw [scriptSpelling, ← List.singleton_append, ← List.append_assoc]
    exact exists_closer_wrapped h
  rw [← List.append_assoc]
  split
  . rwa [List.append_nil]
  . rwa [getLast?_texts_soft]

theorem exists_closer_paren {spelled : List Piece}
    : ∃ text, (tokenTexts (spelled ++ [.token ")"])).getLast? = some text ∧ Closer words text :=
  ⟨")", getLast?_texts_append rfl, .paren⟩

/--
A regular formula ends with a token by which it can be told apart from what stands after it.
-/
theorem Regular.exists_closer (h : Regular style words node)
    : ∃ text, (tokenTexts (node.spelling style)).getLast? = some text ∧ Closer words text := by
  induction h with
  | letter h =>
    rw [(@letter _ words _ h).spelling_atom]
    exact ⟨_, rfl, .letter h⟩
  | sign h =>
    rw [(@sign _ words _ h).spelling_atom]
    exact ⟨_, rfl, .sign h⟩
  | number h hne =>
    rw [(@number _ words _ h hne).spelling_atom]
    exact ⟨_, rfl, .number h hne⟩
  | symbol hname hinfinity =>
    rw [spelling, pieces]
    refine ⟨_, rfl, ?_⟩
    rcases symbolText_cases hinfinity with htext | hmem
    . rw [htext]
      exact .name hname
    . exact .shorthand hname hmem
  | parens =>
    rw [spelling_parens, parenthesized]
    exact exists_closer_paren
  | @group nodes hlength _ _ _ ih =>
    rw [spelling_group]
    rcases List.eq_nil_or_concat nodes with rfl | ⟨nodes, last, rfl⟩
    . contradiction
    . obtain ⟨text, htext, hcloser⟩ := ih last (by simp)
      rw [List.concat_eq_append, List.map_append, List.flatten_append, List.map_singleton,
        List.flatten_singleton]
      exact ⟨text, getLast?_texts_append htext, hcloser⟩
  | call _ _ h =>
    rw [spelling_call h, ← List.cons_append]
    exact exists_closer_paren
  | frac _ _ _ _ _ ih =>
    rw [spelling_frac, ← List.append_assoc, List.append_cons]
    exact exists_closer_wrapped ih
  | @attach base sub sup _ hkind _ hsup hsome _ ihsub ihsup =>
    rw [spelling_attach hkind hsup]
    cases sup with
    | some sup =>
      rw [← List.append_assoc]
      exact exists_closer_script (ihsup sup rfl)
    | none =>
      cases sub with
      | some sub => exact exists_closer_script (ihsub sub rfl)
      | none => simp at hsome
  | @primed base sub count _ hkind _ hcount _ ihsub =>
    rw [spelling_primed hkind hcount]
    cases sub with
    | some sub =>
      rw [← List.append_assoc]
      exact exists_closer_script (ihsub sub rfl)
    | none =>
      obtain ⟨count, rfl⟩ := Nat.exists_eq_succ_of_ne_zero hcount
      refine ⟨"'", getLast?_texts_append ?_, .prime⟩
      rw [List.replicate_succ', List.append_assoc]
      exact getLast?_texts_append rfl
  | leftRight _ hbody =>
    rw [spelling_leftRight hbody, ← List.append_assoc, ← List.append_assoc, ← List.cons_append]
    exact exists_closer_paren
  | matrix hnamed hrows _ h =>
    rw [spelling_matrix (uniform_of_regular h) hnamed hrows, ← List.append_assoc, ← List.cons_append]
    exact exists_closer_paren
  | cases _ _ h =>
    rw [spelling_cases (uniform_of_regular h), ← List.cons_append]
    exact exists_closer_paren

end Ends

section Opener

variable {words : Vocabulary} {number : Bool} {text : String}

theorem Opener.first (h : Opener words number text)
    : ∃ c cs, text.toList = c :: cs ∧ (c.isAlpha ∨ (c.isDigit ∧ number) ∨ c ∈ ['+', '=', '('] ∨
      (c ∈ shorthandStarts ∧ cs ≠ [])) := by
  cases h with
  | letter h => exact ⟨_, [], String.toList_ofList, .inl h⟩
  | sign h =>
    simp only [List.mem_cons, List.not_mem_nil, or_false] at h
    rcases h with rfl | rfl
    . exact ⟨'+', [], rfl, .inr (.inr (.inl (by decide)))⟩
    . exact ⟨'=', [], rfl, .inr (.inr (.inl (by decide)))⟩
  | number h hne hnumber =>
    cases htext : text.toList with
    | nil => contradiction
    | cons c cs => exact ⟨c, cs, rfl, .inr (.inl ⟨h c (by simp [htext]), hnumber⟩)⟩
  | name h =>
    obtain ⟨c, cs, hname, halpha⟩ := first_name (words.typstName _ h)
    exact ⟨c, cs, hname, .inl halpha⟩
  | shorthand h hspelling =>
    obtain ⟨htwo, _, hfirst⟩ := shorthands_spelling _ hspelling
    dsimp only at htwo hfirst
    rcases htext : text.toList with - | ⟨c, - | ⟨d, cs⟩⟩
    . rw [htext] at htwo
      contradiction
    . rw [htext] at htwo
      contradiction
    . rw [htext] at hfirst
      exact ⟨c, d :: cs, rfl, .inr (.inr (.inr ⟨hfirst c rfl, List.cons_ne_nil _ _⟩))⟩
  | paren => exact ⟨'(', [], rfl, .inr (.inr (.inl (by decide)))⟩
  | call h =>
    obtain ⟨c, cs, hname, halpha⟩ := first_name h
    refine ⟨c, cs ++ ['('], ?_, .inl halpha⟩
    rw [String.toList_append, hname]
    rfl

theorem Opener.notStartsWith (h : Opener words number text) {p : Char → Bool}
    (halpha : ∀ c, c.isAlpha → p c = false) (hdigit : ∀ c, c.isDigit → number → p c = false)
    (hmark : ∀ c ∈ '+' :: '(' :: shorthandStarts, p c = false) : NotStartsWith p text.toList := by
  obtain ⟨c, cs, htext, hc⟩ := h.first
  rw [htext, notStartsWith_cons]
  rcases hc with hc | hc | hc | hc
  . exact halpha c hc
  . exact hdigit c hc.1 hc.2
  . apply hmark
    simp only [List.mem_cons, List.not_mem_nil, or_false, shorthandStarts] at hc ⊢
    tauto
  . exact hmark c (List.mem_cons_of_mem _ (List.mem_cons_of_mem _ hc.1))

theorem Opener.not_marker (h : Opener words number text) : text ∉ markers := by
  obtain ⟨c, cs, htext, hc⟩ := h.first
  intro hmem
  have hmarkers : ∀ text ∈ markers, text.toList.tail = [] ∧ ∀ c ∈ text.toList.head?,
      ¬ c.isAlpha ∧ ¬ c.isDigit ∧ c ∉ ['+', '=', '('] := by
    decide
  obtain ⟨htail, hfirst⟩ := hmarkers text hmem
  rw [htext] at htail hfirst
  obtain ⟨halpha, hdigit, hmark⟩ := hfirst c rfl
  rcases hc with hc | hc | hc | hc
  . exact halpha hc
  . exact hdigit hc.1
  . exact hmark hc
  . exact hc.2 htail

end Opener

end Formula
end Typst
end MathMarkup
