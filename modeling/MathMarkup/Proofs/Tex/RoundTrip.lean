import MathMarkup.Proofs.Result
import MathMarkup.Proofs.Tex.Reading
import MathMarkup.Proofs.Tex.Regular
import MathMarkup.Proofs.Tex.WithoutSpaces

/-!
This module contains the proof that the parser undoes the writer: a regular formula is read back
from what is written for it, up to spaces.
-/

namespace MathMarkup
namespace Tex

open Text Formula

/--
Tokens that pieces are cut into, with spaces in between.
-/
def Spells (spelled : List Piece) (tokens : List Token) : Prop :=
  Spaced spelled (tokens.map Token.lexeme)

section Spells

variable {spelled more : List Piece} {tokens : List Token} {text : String} {lexeme : Lexeme}

theorem Spells.eq_nil (h : Spells [] tokens) : tokens = [] := by
  rw [Spells] at h
  generalize hlexemes : tokens.map Token.lexeme = lexemes at h
  cases h
  exact List.map_eq_nil_iff.mp hlexemes

theorem isGap_of_lexeme {token : Token} {gap : List Token} (h : token.lexeme = (.space, " "))
    (hgap : IsGap gap) : IsGap (token :: gap) := by
  rw [IsGap, List.forall_mem_cons]
  have hkind : token.kind = .space := congrArg Prod.fst h
  exact ⟨by simp [Token.isSpace, hkind], hgap⟩

theorem isGap_nil : IsGap [] := nofun

theorem IsGap.append {front back : List Token} (hfront : IsGap front) (hback : IsGap back)
    : IsGap (front ++ back) :=
  List.forall_mem_append.mpr ⟨hfront, hback⟩

theorem Spells.cons_inv {piece : Piece} (h : Spells (piece :: more) tokens)
    : ∃ gap own rest, tokens = gap ++ (own ++ rest) ∧ IsGap gap ∧
      own.map Token.lexeme = piece.lexemes ∧ Spells more rest ∧
      (gap ≠ [] → ∃ text, piece = .token text ∧ text ∉ Line.tight) := by
  rw [Spells] at h
  generalize hlexemes : tokens.map Token.lexeme = lexemes at h
  cases h with
  | joined h =>
    obtain ⟨own, rest, rfl, hown, rfl⟩ := List.map_eq_append_iff.mp hlexemes
    exact ⟨[], own, rest, rfl, isGap_nil, hown, h, nofun⟩
  | spaced htight h =>
    obtain ⟨space, tokens, rfl, hspace, htokens⟩ := List.map_eq_cons_iff.mp hlexemes
    obtain ⟨own, rest, rfl, hown, rfl⟩ := List.map_eq_append_iff.mp htokens
    exact ⟨[space], own, rest, rfl, isGap_of_lexeme hspace isGap_nil, hown, h,
      fun _ => ⟨_, rfl, htight⟩⟩

theorem Spells.append_inv (h : Spells (spelled ++ more) tokens)
    : ∃ own rest, tokens = own ++ rest ∧ Spells spelled own ∧ Spells more rest := by
  induction spelled generalizing tokens with
  | nil => exact ⟨[], tokens, rfl, .nil, h⟩
  | cons piece spelled ih =>
    rw [Spells, List.cons_append] at h
    generalize hlexemes : tokens.map Token.lexeme = lexemes at h
    cases h with
    | joined h =>
      obtain ⟨own, tokens, rfl, hown, rfl⟩ := List.map_eq_append_iff.mp hlexemes
      obtain ⟨middle, rest, rfl, hmiddle, hrest⟩ := ih h
      refine ⟨own ++ middle, rest, by simp, ?_, hrest⟩
      rw [Spells, List.map_append, hown]
      exact .joined hmiddle
    | spaced htight h =>
      obtain ⟨space, tokens, rfl, hspace, htokens⟩ := List.map_eq_cons_iff.mp hlexemes
      obtain ⟨own, tokens, rfl, hown, rfl⟩ := List.map_eq_append_iff.mp htokens
      obtain ⟨middle, rest, rfl, hmiddle, hrest⟩ := ih h
      refine ⟨space :: (own ++ middle), rest, by simp, ?_, hrest⟩
      rw [Spells, List.map_cons, List.map_append, hown, hspace]
      exact .spaced htight hmiddle

theorem Spells.token_inv (hlex : lex text.toList = [lexeme]) (h : Spells (.token text :: more) tokens)
    : ∃ gap token rest, tokens = gap ++ token :: rest ∧ IsGap gap ∧ token.lexeme = lexeme ∧
      Spells more rest ∧ (text ∈ Line.tight → gap = []) := by
  obtain ⟨gap, own, rest, rfl, hgap, hown, hrest, htight⟩ := h.cons_inv
  rw [Piece.lexemes, hlex] at hown
  obtain ⟨token, own, rfl, htoken, hown⟩ := List.map_eq_cons_iff.mp hown
  rw [List.map_eq_nil_iff.mp hown]
  refine ⟨gap, token, rest, rfl, hgap, htoken, hrest, ?_⟩
  intro hmem
  by_contra hne
  obtain ⟨_, ⟨⟩, hnot⟩ := htight hne
  exact hnot hmem

end Spells

/--
Tokens that are read as these formulas side by side, up to spaces.
-/
structure Reading (inDegree : Bool) (trees : List Formula) (tokens : List Token) : Prop where
  paired : Paired inDegree tokens
  reads : ∃ nodes, ReadsAs tokens nodes ∧ dropSpaces nodes = trees

/--
Tokens that are read as this formula where one expression without scripts is expected, up to
spaces.
-/
structure ArgumentReading (inDegree : Bool) (tree : Formula) (tokens : List Token) : Prop where
  paired : Paired inDegree tokens
  argument : ∃ node, Argument tokens node ∧ node.isSpace = false ∧ node.withoutSpaces = tree

/--
Tokens that are read as this formula in braces, up to spaces.
-/
structure BracedReading (inDegree : Bool) (tree : Formula) (tokens : List Token) : Prop where
  paired : Paired inDegree tokens
  braced : ∃ node, Braced tokens node ∧ node.isSpace = false ∧ node.withoutSpaces = tree

section Readings

variable {inDegree : Bool} {trees others : List Formula} {tree : Formula}
  {tokens more gap : List Token}

theorem paired_gap (h : IsGap gap) : Paired inDegree gap := by
  induction gap with
  | nil => exact paired_nil
  | cons token gap ih =>
    rw [IsGap, List.forall_mem_cons] at h
    refine .cons (neutral_of_kind ?_) (ih h.2)
    rcases kind_of_isSpace h.1 with hkind | hkind
    all_goals simp [hkind]

theorem reading_nil : Reading inDegree [] [] :=
  ⟨paired_nil, [], readsAs_nil, by rw [dropSpaces]⟩

theorem Reading.append (h : Reading inDegree trees tokens) (hmore : Reading inDegree others more)
    : Reading inDegree (trees ++ others) (tokens ++ more) := by
  obtain ⟨nodes, hnodes, rfl⟩ := h.reads
  obtain ⟨otherNodes, hother, rfl⟩ := hmore.reads
  exact ⟨h.paired.append hmore.paired, _, hnodes.append hother, dropsSpaces.drop_append _ _⟩

theorem reading_gap (h : IsGap gap) : Reading inDegree [] gap :=
  ⟨paired_gap h, _, readsAs_gap h, dropsSpaces.drop_of_spaces (by simp [Formula.isSpace])⟩

theorem Reading.surround {front back : List Token} (hfront : IsGap front)
    (h : Reading inDegree trees tokens) (hback : IsGap back)
    : Reading inDegree trees (front ++ (tokens ++ back)) := by
  have := (reading_gap hfront).append (h.append (reading_gap hback))
  simpa using this

theorem Argument.readsAs {node : Formula} (h : Argument tokens node)
    : ∃ nodes, ReadsAs tokens nodes ∧ (node.isSpace = false → dropSpaces nodes = [node.withoutSpaces]) := by
  obtain ⟨hgap, h⟩ := h
  refine ⟨_, (readsAs_gap hgap).append h.readsAs, fun hspace => ?_⟩
  rw [dropsSpaces.drop_append, dropsSpaces.drop_of_spaces (by simp [Formula.isSpace]), dropSpaces,
    hspace, dropSpaces]
  rfl

theorem ArgumentReading.reading (h : ArgumentReading inDegree tree tokens)
    : Reading inDegree [tree] tokens := by
  obtain ⟨node, hnode, hspace, rfl⟩ := h.argument
  obtain ⟨nodes, hnodes, hdrop⟩ := hnode.readsAs
  exact ⟨h.paired, nodes, hnodes, hdrop hspace⟩

theorem BracedReading.argumentReading (h : BracedReading inDegree tree tokens)
    : ArgumentReading inDegree tree tokens := by
  obtain ⟨node, hnode, hspace, rfl⟩ := h.braced
  exact ⟨h.paired, node, hnode.argument, hspace, rfl⟩

end Readings

section Constructs

variable {inDegree : Bool} {tree : Formula} {spelled : List Piece} {tokens : List Token}

theorem lex_char {text : String} {c : Char} {kind : Kind} (htext : text.toList = [c])
    (h : singleKind? c = some kind) : lex text.toList = [(kind, text)] := by
  rw [htext, lex_single h [], lex_nil, ← htext, String.ofList_toList]

theorem lex_escapedText {text : String} {c : Char} (htext : text.toList = ['\\', c])
    (h : c ∈ escapes) : lex text.toList = [(.element, text)] := by
  rw [htext, lex_escaped h [], lex_nil, ← htext, String.ofList_toList]

theorem lex_brace : lex "\x7b".toList = [(.control, "\x7b")] ∧
    lex "\x7d".toList = [(.control, "\x7d")] :=
  ⟨lex_char rfl rfl, lex_char rfl rfl⟩

theorem ReadsAs.eq_nil {nodes : List Formula} (h : ReadsAs [] nodes) : nodes = [] := by
  have hsequence : Parser.sequence false [] = .ok nodes := h.sequence_eq
  rw [Parser.sequence] at hsequence
  exact (Except.ok.inj hsequence).symm

theorem isSpace_ofList {nodes : List Formula} (h : ReadsAs tokens nodes)
    (htokens : dropSpaces nodes = [] → tokens = []) : (ofList nodes).isSpace = false := by
  match nodes with
  | [] => rfl
  | [node] =>
    by_contra hspace
    have hdrop : dropSpaces [node] = [] :=
      dropsSpaces.drop_of_spaces (by simpa [ofList] using hspace)
    have hnil := htokens hdrop
    subst hnil
    exact absurd h.eq_nil (List.cons_ne_nil _ _)
  | _ :: _ :: _ => rfl

theorem mem_brackets : Bracket.brace ∈ Bracket.all inDegree ∧ Bracket.fence ∈ Bracket.all inDegree ∧
    Bracket.environment ∈ Bracket.all inDegree := by
  cases inDegree
  all_goals decide

/--
What is written for a formula is read as the formula. `flat` says that it is no degenerate group.
-/
structure Readable (inDegree : Bool) (tree : Formula) : Prop where
  flat : ofList tree.toList = tree
  reading : ∀ tokens, Spells tree.pieces tokens → Reading inDegree tree.toList tokens
  argument : tree.needsBraces = false → ∀ tokens, Spells tree.pieces tokens →
    ArgumentReading inDegree tree tokens

theorem readable_of_needsBraces (hbraces : tree.needsBraces) (hflat : ofList tree.toList = tree)
    (h : ∀ tokens, Spells tree.pieces tokens → Reading inDegree tree.toList tokens)
    : Readable inDegree tree := by
  refine ⟨hflat, h, fun hnone => ?_⟩
  rw [hbraces] at hnone
  contradiction

theorem readable_of_argument (hbraces : tree.needsBraces = false)
    (h : ∀ tokens, Spells tree.pieces tokens → ArgumentReading inDegree tree tokens)
    : Readable inDegree tree := by
  have hlist : tree.toList = [tree] := by
    cases tree with
    | empty | group => contradiction
    | _ => rfl
  refine ⟨by rw [hlist, ofList], fun tokens htokens => ?_, fun _ => h⟩
  rw [hlist]
  exact (h tokens htokens).reading

theorem Readable.braced (htree : Readable inDegree tree) (h : Spells (braced tree.pieces) tokens)
    : BracedReading inDegree tree tokens := by
  obtain ⟨gap, opener, rest, rfl, hgap, hopener, hrest, _⟩ := h.token_inv lex_brace.1
  obtain ⟨inner, last, rfl, hinner, hlast⟩ := Spells.append_inv hrest
  obtain ⟨noGap, closer, none, rfl, _, hcloser, hnone, htight⟩ := hlast.token_inv lex_brace.2
  rw [hnone.eq_nil, htight (by decide), List.nil_append]
  have hreading := htree.reading inner hinner
  obtain ⟨nodes, hnodes, hdrop⟩ := hreading.reads
  refine ⟨?_, ofList nodes, .intro hgap hopener hcloser ?_ hnodes, ?_, ?_⟩
  . exact (paired_gap hgap).append (hreading.paired.wrap mem_brackets.1 hopener hcloser)
  . exact hreading.paired _ mem_brackets.1
  . apply isSpace_ofList hnodes
    rw [hdrop]
    intro hempty
    have htree := htree.flat
    rw [hempty, ofList] at htree
    rw [← htree, pieces] at hinner
    exact hinner.eq_nil
  . rw [dropsSpaces.strip_ofList, hdrop, htree.flat]

theorem argumentReading_token {text : String} {lexeme : Lexeme} (hlex : lex text.toList = [lexeme])
    (hneutral : Neutral inDegree lexeme)
    (hatomic : ∀ token : Token, token.lexeme = lexeme → Atomic [token] tree)
    (hspace : tree.isSpace = false) (htree : tree.withoutSpaces = tree)
    (h : Spells [.token text] tokens) : ArgumentReading inDegree tree tokens := by
  obtain ⟨gap, token, rest, rfl, hgap, htoken, hrest, _⟩ := h.token_inv hlex
  rw [hrest.eq_nil]
  refine ⟨(paired_gap hgap).append (.cons ?_ paired_nil), tree, .intro hgap (hatomic token htoken),
    hspace, htree⟩
  rwa [htoken]

theorem argumentReading_element {text : String} (hlex : lex text.toList = [(.element, text)])
    (htext : text ∉ ["'", "[", "]"]) (h : Spells [.token text] tokens)
    : ArgumentReading inDegree (.element text) tokens := by
  simp only [List.mem_cons, List.not_mem_nil, or_false, not_or] at htext
  refine argumentReading_token hlex (neutral_element fun _ => htext.2) ?_ rfl
    (by rw [withoutSpaces] <;> simp) h
  intro token htoken
  have hkind : token.kind = .element := congrArg Prod.fst htoken
  have hsame : token.text = text := congrArg Prod.snd htoken
  rw [← hsame]
  exact atomic_element hkind (hsame ▸ htext.1)

theorem argumentReading_number {text : String} (hnumber : IsNumber text.toList)
    (h : Spells [.token text] tokens) : ArgumentReading inDegree (.element text) tokens := by
  have hlex := lex_number hnumber ⟨notStartsWith_nil, nofun⟩
  rw [List.append_nil, lex_nil, String.ofList_toList] at hlex
  refine argumentReading_element hlex ?_ h
  obtain ⟨digit, digits, hdigit, htext⟩ := hnumber.exists_digit
  intro hmem
  have hfirst : ∀ text ∈ ["'", "[", "]"], ¬ text.toList.head?.any Char.isDigit := by decide
  exact hfirst text hmem (by simp [htext, hdigit])

theorem argumentReading_char {c : Char} (hc : c.isAlpha ∨ c ∈ "+-*/=<>!.,;:?()|".toList)
    (h : Spells [.token (String.ofList [c])] tokens)
    : ArgumentReading inDegree (.element (String.ofList [c])) tokens := by
  refine argumentReading_element (lex_char String.toList_ofList (isWord_char hc)) ?_ h
  have hne : ∀ d ∈ ['\'', '[', ']'], c ≠ d := by
    rintro d hd rfl
    rcases hc with hc | hc
    . exact (by decide : ∀ d ∈ ['\'', '[', ']'], ¬ d.isAlpha) c hd hc
    . exact (by decide : ∀ d ∈ ['\'', '[', ']'], d ∉ "+-*/=<>!.,;:?()|".toList) c hd hc
  simp only [List.mem_cons, List.not_mem_nil, or_false, not_or, ← String.toList_inj,
    String.toList_ofList]
  simp at hne
  simpa using hne

theorem argumentReading_escaped {c : Char} (hc : c ∈ escapes)
    (h : Spells [.token (String.ofList ['\\', c])] tokens)
    : ArgumentReading inDegree (.element (String.ofList ['\\', c])) tokens := by
  refine argumentReading_element (lex_escapedText String.toList_ofList hc) ?_ h
  simp [← String.toList_inj]

theorem toList_of_part (hflat : ∀ nodes, tree ≠ .group nodes) (hfull : tree ≠ .empty)
    : tree.toList = [tree] := by
  cases tree with
  | group nodes => exact absurd rfl (hflat nodes)
  | empty => exact absurd rfl hfull
  | _ => rfl

theorem reading_nodes {nodes : List Formula} (hflat : ∀ node ∈ nodes, ∀ more, node ≠ .group more)
    (hfull : ∀ node ∈ nodes, node ≠ .empty) (ih : ∀ node ∈ nodes, Readable inDegree node)
    (h : Spells (nodes.map pieces).flatten tokens) : Reading inDegree nodes tokens := by
  induction nodes generalizing tokens with
  | nil =>
    rw [Spells.eq_nil h]
    exact reading_nil
  | cons node nodes ihnodes =>
    rw [List.forall_mem_cons] at hflat hfull ih
    rw [List.map_cons, List.flatten_cons] at h
    obtain ⟨own, rest, rfl, hown, hrest⟩ := h.append_inv
    have hnode := ih.1.reading own hown
    rw [toList_of_part hflat.1 hfull.1] at hnode
    exact hnode.append (ihnodes hflat.2 hfull.2 ih.2 hrest)

theorem token_of_command {token : Token} {name : String}
    (h : token.lexeme = (.command, "\\" ++ name)) : token.kind = .command ∧ token.name = name := by
  have htext : token.text = "\\" ++ name := congrArg Prod.snd h
  refine ⟨congrArg Prod.fst h, ?_⟩
  rw [Token.name, htext]
  simp

theorem neutral_of_commandName {name : String} (h : Symbol.CommandName name)
    : Neutral inDegree (.command, "\\" ++ name) := by
  apply neutral_command
  have hne : ∀ text ∈ Symbol.reserved, "\\" ++ name ≠ "\\" ++ text := by
    intro text htext heq
    rw [String.append_right_inj] at heq
    exact h.not_reserved (heq ▸ htext)
  simp only [List.mem_cons, List.not_mem_nil, or_false, not_or]
  exact ⟨hne "left" (by decide), hne "right" (by decide), hne "begin" (by decide),
    hne "end" (by decide)⟩

theorem lex_commandName {name : String} (h : Symbol.CommandName name)
    : lex ("\\" ++ name).toList = [(.command, "\\" ++ name)] := by
  have htext : ("\\" ++ name).toList = '\\' :: name.toList := by simp
  have hlex := lex_command h.isAlpha h.ne_nil notStartsWith_nil (not_raw_of_commandName h) (.inr rfl)
  rwa [List.append_nil, lex_nil, ← htext, String.ofList_toList] at hlex

theorem argumentReading_symbol {name : String} (hname : (Symbol.toTypst? name).isSome)
    (harity : Symbol.arity? name = none) (h : Spells [.token ("\\" ++ name)] tokens)
    : ArgumentReading inDegree (.symbol name) tokens := by
  have hcommand := Symbol.commandName_of_toTypst? hname
  refine argumentReading_token (lex_commandName hcommand) (neutral_of_commandName hcommand) ?_ rfl
    (by rw [withoutSpaces] <;> simp) h
  intro token htoken
  obtain ⟨hkind, rfl⟩ := token_of_command htoken
  exact atomic_symbol hkind hcommand.not_reserved harity hname

theorem arguments_reading {args : List Formula} (hargs : ∀ arg ∈ args, Regular inDegree arg)
    (ih : ∀ arg ∈ args, Readable inDegree arg) (h : Spells (argPieces args) tokens)
    : Paired inDegree tokens ∧ ∃ nodes, Arguments tokens nodes ∧ eachWithoutSpaces nodes = args := by
  induction args generalizing tokens with
  | nil =>
    rw [argPieces] at h
    rw [h.eq_nil]
    exact ⟨paired_nil, [], .nil, by rw [eachWithoutSpaces]⟩
  | cons arg args ihargs =>
    rw [List.forall_mem_cons] at hargs ih
    rw [argPieces_cons hargs.1.ne_text] at h
    obtain ⟨own, rest, rfl, hown, hrest⟩ := h.append_inv
    have hbraced := ih.1.braced hown
    obtain ⟨node, hnode, _, rfl⟩ := hbraced.braced
    obtain ⟨hpaired, nodes, hnodes, rfl⟩ := ihargs hargs.2 ih.2 hrest
    exact ⟨hbraced.paired.append hpaired, node :: nodes, .cons hnode hnodes,
      by rw [eachWithoutSpaces]⟩

theorem length_eachWithoutSpaces (nodes : List Formula)
    : (eachWithoutSpaces nodes).length = nodes.length := by
  rw [eachWithoutSpaces_eq, List.length_map]

theorem argumentReading_func {name : String} {arity : Symbol.Arity} {args : List Formula}
    (harity : Symbol.arity? name = some arity) (hraw : name ∉ ["text", "operatorname", "hspace"])
    (hlength : args.length = arity.toNat) (hargs : ∀ arg ∈ args, Regular inDegree arg)
    (ih : ∀ arg ∈ args, Readable inDegree arg)
    (h : Spells (Formula.func name args none).pieces tokens)
    : ArgumentReading inDegree (.func name args none) tokens := by
  have hname := Symbol.commandName_of_arity? harity hraw
  rw [pieces_func] at h
  obtain ⟨gap, token, rest, rfl, hgap, htoken, hrest, _⟩ := h.token_inv (lex_commandName hname)
  obtain ⟨hpaired, nodes, hnodes, rfl⟩ := arguments_reading hargs ih hrest
  rw [length_eachWithoutSpaces] at hlength
  obtain ⟨hkind, rfl⟩ := token_of_command htoken
  refine ⟨(paired_gap hgap).append (.cons ?_ hpaired), _,
    .intro hgap (atomic_func hkind hname.not_reserved harity hlength hnodes), rfl, ?_⟩
  . rw [htoken]
    exact neutral_of_commandName hname
  . rw [withoutSpaces, optionWithoutSpaces]

theorem argumentReading_root {arg degree : Formula} (harg : Regular inDegree arg)
    (ihdegree : Readable true degree) (iharg : Readable inDegree arg)
    (h : Spells (Formula.func "sqrt" [arg] (some degree)).pieces tokens)
    : ArgumentReading inDegree (.func "sqrt" [arg] (some degree)) tokens := by
  have hname : Symbol.CommandName "sqrt" := ⟨_, rfl, rfl⟩
  rw [pieces_root] at h
  obtain ⟨gap, token, rest, rfl, hgap, htoken, hrest, _⟩ := h.token_inv (lex_commandName hname)
  obtain ⟨inner, opener, rest, rfl, hinner, hopener, hrest, _⟩ := hrest.token_inv (lex_char rfl rfl)
  obtain ⟨root, rest, rfl, hroot, hrest⟩ := hrest.append_inv
  obtain ⟨last, closer, rest, rfl, hlast, hcloser, hrest, _⟩ := hrest.token_inv (lex_char rfl rfl)
  obtain ⟨hpaired, nodes, hnodes, harg⟩ := arguments_reading (by simpa using harg)
    (by simpa using iharg) hrest
  have hreading := (ihdegree.reading root hroot).append (reading_gap hlast)
  rw [List.append_nil] at hreading
  obtain ⟨degreeNodes, hdegree, hdrop⟩ := hreading.reads
  obtain ⟨node, rfl⟩ : ∃ node, nodes = [node] := by
    rw [← List.length_eq_one_iff, ← length_eachWithoutSpaces, harg]
    rfl
  have hsquare : Bracket.square ∈ Bracket.all true := by decide
  have hskips : Bracket.square.Skips (root ++ last) := hreading.paired _ hsquare
  have hbracket : Paired inDegree (opener :: (root ++ last ++ [closer])) :=
    hreading.paired.of_degree.wrap hsquare hopener hcloser
  have hlist : root ++ (last ++ closer :: rest) = (root ++ last) ++ closer :: rest := by simp
  rw [hlist]
  refine ⟨(paired_gap hgap).append (.cons ?_ ((paired_gap hinner).append ?_)), _,
    .intro hgap (atomic_root htoken hinner hopener hcloser hskips hdegree hnodes), rfl, ?_⟩
  . rw [htoken]
    exact neutral_of_commandName hname
  . have := hbracket.append hpaired
    simpa using this
  . rw [withoutSpaces, harg, optionWithoutSpaces, dropsSpaces.strip_ofList, hdrop, ihdegree.flat]

theorem Readable.base (htree : Readable inDegree tree)
    (h : Spells (if tree.needsBraces then Formula.braced tree.pieces else tree.pieces) tokens)
    : ArgumentReading inDegree tree tokens := by
  split at h
  . exact (htree.braced h).argumentReading
  next hbraces => exact htree.argument (by simpa using hbraces) tokens h

theorem Readable.script (htree : Readable inDegree tree)
    (h : Spells (if tree.isBareScript then tree.pieces else Formula.braced tree.pieces) tokens)
    : ArgumentReading inDegree tree tokens := by
  split at h
  next hbare =>
    refine htree.argument ?_ tokens h
    cases tree with
    | empty | group | attach => contradiction
    | _ => rfl
  . exact (htree.braced h).argumentReading

theorem lex_markers : lex "_".toList = [(.control, "_")] ∧ lex "^".toList = [(.control, "^")] := by
  have hmarker : ∀ marker ∈ ['_', '^'], lex [marker] = [(.control, String.ofList [marker])] := by
    intro marker hmarker
    rw [lex_marker hmarker notStartsWith_nil notStartsWith_nil, lex_nil]
  exact ⟨hmarker '_' (by simp), hmarker '^' (by simp)⟩

theorem script?_of_lexeme {token : Token} {marker : String} (h : token.lexeme = (.control, marker))
    : token.script? = Script.ofMarker? marker := by
  obtain ⟨kind, text, span⟩ := token
  cases h
  rfl

theorem readsScript_scriptPieces {marker : String} {place : Script} {sub : Option Formula}
    (hlex : lex marker.toList = [(.control, marker)]) (hmarker : Script.ofMarker? marker = some place)
    (htight : marker ∈ Line.tight) (ih : ∀ tree ∈ sub, Readable inDegree tree)
    (h : Spells (scriptPieces marker sub) tokens)
    : Paired inDegree tokens ∧ ∃ node, ReadsScript place tokens node ∧
      optionWithoutSpaces node = sub ∧ ∀ tree ∈ node, tree.isSpace = false := by
  cases sub with
  | none =>
    rw [h.eq_nil]
    exact ⟨paired_nil, none, .absent, by rw [optionWithoutSpaces], nofun⟩
  | some tree =>
    obtain ⟨gap, token, rest, rfl, _, htoken, hrest, hgap⟩ := h.token_inv hlex
    have hreading := (ih tree rfl).script hrest
    obtain ⟨node, hnode, hspace, rfl⟩ := hreading.argument
    have hscript : token.script? = some place := (script?_of_lexeme htoken).trans hmarker
    have hbraces : marker ∉ ["\x7b", "\x7d"] := by
      intro hmem
      simp only [List.mem_cons, List.not_mem_nil, or_false] at hmem
      rcases hmem with rfl | rfl
      all_goals contradiction
    rw [hgap htight, List.nil_append]
    refine ⟨.cons ?_ hreading.paired, some node, .present hscript hnode, by rw [optionWithoutSpaces], ?_⟩
    . rw [htoken]
      exact neutral_control hbraces
    . rintro _ ⟨⟩
      exact hspace

theorem primes_spells {primes : Nat} (h : Spells (List.replicate primes (.token "'")) tokens)
    : Paired inDegree tokens ∧ (∀ token ∈ tokens, token.isPrime) ∧ tokens.length = primes := by
  induction primes generalizing tokens with
  | zero =>
    rw [Spells.eq_nil h]
    exact ⟨paired_nil, nofun, rfl⟩
  | succ primes ih =>
    have hlex : lex "'".toList = [(.element, "'")] := lex_char rfl rfl
    obtain ⟨gap, token, rest, rfl, _, htoken, hrest, hgap⟩ := Spells.token_inv hlex h
    obtain ⟨hpaired, hprimes, hlength⟩ := ih hrest
    rw [hgap (by decide), List.nil_append]
    refine ⟨.cons ?_ hpaired, ?_, by rw [List.length_cons, hlength]⟩
    . rw [htoken]
      exact neutral_element (by simp)
    . rw [List.forall_mem_cons]
      exact ⟨is_iff.mpr htoken, hprimes⟩

theorem superscript_eq (sub sup : Option Formula) (primes : Nat)
    : ({ sub, sup, primes } : Scripts Formula).superscript (.element "'") .group =
      primed primes sup := by
  cases primes
  all_goals rfl

theorem attachScripts_eq {sub sup : Option Formula} {primes : Nat}
    (h : sub.isSome ∨ (primed primes sup).isSome) (base : Formula)
    : attachScripts { sub, sup, primes } base = .attach base sub (primed primes sup) := by
  rw [attachScripts, superscript_eq]
  split
  next hnone hnone' =>
    simp only at hnone
    rw [hnone, hnone'] at h
    simp at h
  . rfl

theorem primed_withoutSpaces {sup : Option Formula} (h : ∀ tree ∈ sup, tree.isSpace = false)
    (primes : Nat)
    : optionWithoutSpaces (primed primes sup) = primed primes (optionWithoutSpaces sup) := by
  cases primes with
  | zero => rfl
  | succ primes =>
    have hprimes : ∀ count, dropSpaces (List.replicate count (.element "'")) =
        List.replicate count (.element "'") := by
      intro count
      induction count with
      | zero => rw [List.replicate_zero, dropSpaces]
      | succ count ih =>
        rw [List.replicate_succ, dropSpaces, ih, withoutSpaces] <;> simp [Formula.isSpace]
    have hprime : (Formula.element "'").isSpace = false := rfl
    have hany : (List.replicate (primes + 1) (Formula.element "'") ++ sup.toList).any
        Formula.isSpace = false := by
      cases sup with
      | none => simp [hprime]
      | some tree => simp [hprime, h tree rfl]
    have hsup : dropSpaces sup.toList = (optionWithoutSpaces sup).toList := by
      cases sup with
      | none => simp [dropSpaces, optionWithoutSpaces]
      | some tree => simp [dropSpaces, optionWithoutSpaces, h tree rfl]
    rw [primed, optionWithoutSpaces, withoutSpaces, hany, dropsSpaces.drop_append, hprimes, hsup]
    rfl

theorem isSome_withoutSpaces (node : Option Formula)
    : (optionWithoutSpaces node).isSome = node.isSome := by
  rw [optionWithoutSpaces_eq, Option.isSome_map]

theorem reading_attach {base : Formula} {sub sup : Option Formula} {primes : Nat}
    (hbase : Readable inDegree base) (hsub : ∀ tree ∈ sub, Readable inDegree tree)
    (hsup : ∀ tree ∈ sup, Regular inDegree tree) (hsupRead : ∀ tree ∈ sup, Readable inDegree tree)
    (hsome : sub.isSome ∨ (primed primes sup).isSome)
    (h : Spells (Formula.attach base sub (primed primes sup)).pieces tokens)
    : Reading inDegree [.attach base sub (primed primes sup)] tokens := by
  rw [pieces_attach fun node hnode => (hsup node hnode).leadingPrimes] at h
  obtain ⟨baseTokens, rest, rfl, hbaseTokens, hrest⟩ := h.append_inv
  obtain ⟨primeTokens, rest, rfl, hprimeTokens, hrest⟩ := hrest.append_inv
  obtain ⟨subTokens, supTokens, rfl, hsubTokens, hsupTokens⟩ := hrest.append_inv
  have hbaseReading := hbase.base hbaseTokens
  obtain ⟨node, ⟨hgap, hatomic⟩, hspace, rfl⟩ := hbaseReading.argument
  obtain ⟨hprimePaired, hprimes, rfl⟩ := primes_spells hprimeTokens
  obtain ⟨hsubPaired, subNode, hsubReads, rfl, _⟩ :=
    readsScript_scriptPieces lex_markers.1 rfl (by decide) hsub hsubTokens
  obtain ⟨hsupPaired, supNode, hsupReads, rfl, hsupSpace⟩ :=
    readsScript_scriptPieces lex_markers.2 rfl (by decide) hsupRead hsupTokens
  have hprimed := primed_withoutSpaces hsupSpace primeTokens.length
  rw [← hprimed, isSome_withoutSpaces, isSome_withoutSpaces] at hsome
  have hreads := (readsAs_gap hgap).append (readsAs_attach hatomic hprimes hsubReads hsupReads)
  rw [← List.append_assoc, attachScripts_eq hsome] at hreads
  refine ⟨hbaseReading.paired.append (hprimePaired.append (hsubPaired.append hsupPaired)), _, hreads,
    ?_⟩
  rw [dropsSpaces.drop_append, dropsSpaces.drop_of_spaces (by simp [Formula.isSpace]), dropSpaces,
    dropSpaces, withoutSpaces, hprimed]
  rfl

theorem lex_blank : lex " ".toList = [(.space, " ")] := by
  rw [← lex_nil]
  exact lex_space notStartsWith_nil

theorem lex_elementDelimiter : ∀ delim ∈ elementDelimiters,
    lex delim.toList = [(.element, delim)] := by
  simp only [elementDelimiters, List.forall_mem_cons]
  repeat' first
    | apply And.intro
    | exact lex_char rfl rfl
    | exact lex_escapedText rfl (by decide)
    | exact List.forall_mem_nil _

theorem lex_delimiter {delim : String}
    (h : delim ∈ elementDelimiters ++ commandDelimiters.map ("\\" ++ ·))
    (hsquare : inDegree → delim ≠ "[" ∧ delim ≠ "]")
    : ∃ kind, lex delim.toList = [(kind, delim)] ∧ Neutral inDegree (kind, delim) ∧
      ∀ token : Token, token.lexeme = (kind, delim) → token.isDelimiter := by
  rcases List.mem_append.mp h with h | h
  . refine ⟨.element, lex_elementDelimiter delim h, neutral_element hsquare, ?_⟩
    rintro ⟨_, _, _⟩ ⟨⟩
    exact List.contains_iff_mem.mpr h
  . obtain ⟨name, hmem, rfl⟩ := List.mem_map.mp h
    have hname := (commandDelimiters_spec name hmem).1
    refine ⟨.command, lex_commandName hname, neutral_of_commandName hname, ?_⟩
    intro token htoken
    obtain ⟨hkind, hsame⟩ := token_of_command htoken
    rw [Token.isDelimiter, hkind, hsame]
    exact List.contains_iff_mem.mpr hmem

theorem fence_spells {side : String} {delim : Option String} {more : List Piece}
    (hside : side ∈ ["\\left", "\\right"]) (hdelim : ∀ text ∈ delim, IsDelimiter inDegree text)
    (h : Spells (.token (side ++ delim.getD ".") :: more) tokens)
    : ∃ gap fence token rest, tokens = gap ++ fence :: token :: rest ∧ IsGap gap ∧
      fence.lexeme = (.command, side) ∧ Neutral inDegree token.lexeme ∧ token.isDelimiter ∧
      token.delimiter = delim ∧ Spells more rest := by
  have hsquare : inDegree → delim.getD "." ≠ "[" ∧ delim.getD "." ≠ "]" := by
    cases delim with
    | none => simp
    | some text => exact (hdelim text rfl).2.2
  obtain ⟨kind, hlex, hneutral, hdelimiter⟩ := lex_delimiter (mem_delimiters hdelim) hsquare
  have hstart := (isWord_delimiter (mem_delimiters hdelim)).2
  have hfence : lex (side ++ delim.getD ".").toList = [(.command, side), (kind, delim.getD ".")] := by
    simp only [List.mem_cons, List.not_mem_nil, or_false] at hside
    rw [String.toList_append, ← hlex]
    rcases hside with rfl | rfl
    . exact @lex_fence "left".toList _ (by simp) hstart
    . exact @lex_fence "right".toList _ (by simp) hstart
  obtain ⟨gap, own, rest, rfl, hgap, hown, hrest, _⟩ := h.cons_inv
  rw [Piece.lexemes, hfence] at hown
  obtain ⟨fence, own, rfl, hside, hown⟩ := List.map_eq_cons_iff.mp hown
  obtain ⟨token, own, rfl, htoken, hown⟩ := List.map_eq_cons_iff.mp hown
  rw [List.map_eq_nil_iff.mp hown]
  refine ⟨gap, fence, token, rest, rfl, hgap, hside, htoken ▸ hneutral, hdelimiter token htoken, ?_,
    hrest⟩
  have htext : token.text = delim.getD "." := congrArg Prod.snd htoken
  rw [Token.delimiter, htext]
  cases delim with
  | none => rfl
  | some text => simp [(hdelim text rfl).2.1]

theorem argumentReading_leftRight {left right : Option String} {body : Formula}
    (hleft : ∀ text ∈ left, IsDelimiter inDegree text) (hbody : Regular inDegree body)
    (ih : Readable inDegree body) (hright : ∀ text ∈ right, IsDelimiter inDegree text)
    (h : Spells (Formula.leftRight left body right).pieces tokens)
    : ArgumentReading inDegree (.leftRight left body right) tokens := by
  rw [pieces_leftRight hbody] at h
  obtain ⟨gap, opener, opening, rest, rfl, hgap, hopener, hneutral, hopening, rfl, hrest⟩ :=
    fence_spells (by simp) hleft h
  obtain ⟨front, space, rest, rfl, hfront, hspace, hrest, _⟩ := hrest.token_inv lex_blank
  obtain ⟨inner, rest, rfl, hinner, hrest⟩ := hrest.append_inv
  obtain ⟨back, closer, closing, rest, rfl, hback, hcloser, hneutral', hclosing, rfl, hnone⟩ :=
    fence_spells (by simp) hright hrest
  have hreading := (ih.reading inner hinner).surround
    (hfront.append (isGap_of_lexeme hspace isGap_nil)) hback
  obtain ⟨nodes, hnodes, hdrop⟩ := hreading.reads
  have hbodyPaired := hreading.paired.cons hneutral
  have hpaired := (hbodyPaired.wrap mem_brackets.2.1 hopener hcloser).append
    (paired_nil.cons hneutral')
  have hlist : opener :: opening :: (front ++ space :: (inner ++ (back ++ closer :: closing :: rest))) =
      opener :: opening :: (front ++ [space] ++ (inner ++ back) ++ [closer, closing]) := by
    simp [hnone.eq_nil]
  rw [hlist]
  refine ⟨(paired_gap hgap).append (by simpa using hpaired), _,
    .intro hgap (atomic_leftRight hopener hopening (hbodyPaired _ mem_brackets.2.1) hnodes hcloser
      hclosing), rfl, ?_⟩
  rw [withoutSpaces, dropsSpaces.strip_ofList, hdrop, ih.flat]

end Constructs

/--
Tokens that are read as a cell of a grid, up to what `f` changes.
-/
structure CellReading (inDegree : Bool) (f : Formula → Formula) (cell : Formula)
    (tokens : List Token) : Prop where
  paired : Paired inDegree tokens
  reads : ∃ nodes, ReadsAs tokens nodes ∧ f (GridItem.cell nodes) = cell

/--
Tokens that are read as the cells of a grid, up to what `f` changes.
-/
structure TableReading (inDegree : Bool) (f : Formula → Formula) (rows : List (List Formula))
    (tokens : List Token) : Prop where
  paired : Paired inDegree tokens
  reads : ∃ table, ReadsTable tokens table ∧ table.map (List.map f) = rows

/--
What is written for a cell is read as the cell, with spaces on either side.
-/
def ReadableCell (inDegree : Bool) (f : Formula → Formula) (cell : Formula) : Prop :=
  ∀ front tokens back, IsGap front → Spells cell.pieces tokens → IsGap back →
    CellReading inDegree f cell (front ++ (tokens ++ back))

section Grids

variable {inDegree : Bool} {f : Formula → Formula} {cell : Formula} {cells : List Formula}
  {rows : List (List Formula)} {tokens more : List Token} {separator : Token}

theorem Readable.readableCell (h : Readable inDegree cell)
    : ReadableCell inDegree withoutSpaces cell := by
  intro front tokens back hfront htokens hback
  have hreading := (h.reading tokens htokens).surround hfront hback
  obtain ⟨nodes, hnodes, hdrop⟩ := hreading.reads
  refine ⟨hreading.paired, nodes, hnodes, ?_⟩
  rw [GridItem.cell, dropsSpaces.strip_ofList, trimSpaces, dropsSpaces.drop_trim, hdrop, h.flat]

theorem CellReading.table (h : CellReading inDegree f cell tokens)
    : TableReading inDegree f [[cell]] tokens := by
  obtain ⟨nodes, hnodes, rfl⟩ := h.reads
  exact ⟨h.paired, _, .last hnodes, rfl⟩

theorem paired_separator {text : String} (htext : text ∈ ["&", "\\\\"])
    (hseparator : separator.lexeme = (.control, text)) (h : Paired inDegree tokens)
    (hmore : Paired inDegree more) : Paired inDegree (tokens ++ separator :: more) := by
  refine h.append (.cons ?_ hmore)
  rw [hseparator]
  apply neutral_control
  simp only [List.mem_cons, List.not_mem_nil, or_false] at htext
  rcases htext with rfl | rfl
  all_goals decide

theorem CellReading.cellEnd (h : CellReading inDegree f cell tokens)
    (hseparator : separator.lexeme = (.control, "&"))
    (hmore : TableReading inDegree f (cells :: rows) more)
    : TableReading inDegree f ((cell :: cells) :: rows) (tokens ++ separator :: more) := by
  obtain ⟨nodes, hnodes, rfl⟩ := h.reads
  obtain ⟨table, htable, hrows⟩ := hmore.reads
  obtain ⟨first, table, rfl, rfl, rfl⟩ := List.map_eq_cons_iff.mp hrows
  exact ⟨paired_separator (by simp) hseparator h.paired hmore.paired, _,
    .cellEnd hnodes hseparator htable, rfl⟩

theorem CellReading.rowEnd (h : CellReading inDegree f cell tokens)
    (hseparator : separator.lexeme = (.control, "\\\\")) (hmore : TableReading inDegree f rows more)
    : TableReading inDegree f ([cell] :: rows) (tokens ++ separator :: more) := by
  obtain ⟨nodes, hnodes, rfl⟩ := h.reads
  obtain ⟨table, htable, rfl⟩ := hmore.reads
  exact ⟨paired_separator (by simp) hseparator h.paired hmore.paired, _,
    .rowEnd hnodes hseparator htable, rfl⟩

theorem tableReading_row {cells : List Formula} {tokens front tail : List Token}
    (htail : ∀ cell ∈ cells, ∀ front tokens, IsGap front → Spells cell.pieces tokens →
      TableReading inDegree f ([cell] :: rows) (front ++ (tokens ++ tail)))
    (hne : cells ≠ []) (ih : ∀ cell ∈ cells, ReadableCell inDegree f cell) (hfront : IsGap front)
    (h : Spells (row (cells.map pieces)) tokens)
    : TableReading inDegree f (cells :: rows) (front ++ (tokens ++ tail)) := by
  match cells with
  | [cell] =>
    rw [List.map_singleton, row, List.intersperse_singleton, List.flatten_singleton] at h
    exact htail cell (by simp) front tokens hfront h
  | cell :: next :: cells =>
    rw [List.forall_mem_cons] at htail ih
    rw [List.map_cons, List.map_cons, row_cons, ← List.map_cons] at h
    obtain ⟨own, rest, rfl, hown, hrest⟩ := h.append_inv
    obtain ⟨gap, separator, rest, rfl, hgap, hseparator, hrest, _⟩ :=
      hrest.token_inv (lex_char rfl rfl)
    have hmore := tableReading_row htail.2 (List.cons_ne_nil _ _) ih.2 isGap_nil hrest
    have := (ih.1 front own gap hfront hown hgap).cellEnd hseparator hmore
    simpa using this

theorem lex_newlineText : lex "\n".toList = [(.newline, "\n")] := by
  rw [← lex_nil]
  exact lex_newline []

theorem isGap_newline {token : Token} (h : token.lexeme = (.newline, "\n")) : IsGap [token] := by
  have hkind : token.kind = .newline := congrArg Prod.fst h
  simp [IsGap, Token.isSpace, hkind]

theorem tableReading_grid {rows : List (List Formula)} {tokens front back : List Token}
    (hne : rows ≠ []) (hcells : ∀ row ∈ rows, row ≠ [])
    (ih : ∀ row ∈ rows, ∀ cell ∈ row, ReadableCell inDegree f cell) (hfront : IsGap front)
    (h : Spells (grid (rows.map (List.map pieces))) tokens) (hback : IsGap back)
    : TableReading inDegree f rows (front ++ (tokens ++ back)) := by
  match rows with
  | [cells] =>
    rw [List.map_singleton, grid, List.map_singleton, List.intersperse_singleton,
      List.flatten_singleton] at h
    have hreads := ih cells (by simp)
    refine tableReading_row ?_ (hcells cells (by simp)) hreads hfront h
    intro cell hcell front tokens hfront htokens
    exact (hreads cell hcell front tokens back hfront htokens hback).table
  | cells :: next :: rows =>
    rw [List.forall_mem_cons] at hcells ih
    rw [List.map_cons, List.map_cons, grid_cons, ← List.map_cons] at h
    have hrowEnd : lex "\\\\".toList = [(.control, "\\\\")] := by
      rw [← lex_nil]
      exact lex_rowEnd []
    obtain ⟨own, rest, rfl, hown, hrest⟩ := h.append_inv
    obtain ⟨gap, separator, rest, rfl, hgap, hseparator, hrest, _⟩ := hrest.token_inv hrowEnd
    obtain ⟨lineGap, line, rest, rfl, hlineGap, hline, hrest, _⟩ := hrest.token_inv lex_newlineText
    have hmore := tableReading_grid (List.cons_ne_nil _ _) hcells.2 ih.2
      (hlineGap.append (isGap_newline hline)) hrest hback
    have htail : ∀ cell ∈ cells, ∀ front tokens, IsGap front → Spells cell.pieces tokens →
        TableReading inDegree f ([cell] :: next :: rows)
          (front ++ (tokens ++ (gap ++ separator :: (lineGap ++ [line] ++ (rest ++ back))))) := by
      intro cell hcell front tokens hfront htokens
      have := (ih.1 cell hcell front tokens gap hfront htokens hgap).rowEnd hseparator hmore
      simpa using this
    have hrow := tableReading_row htail hcells.1 ih.1 hfront hown
    simpa using hrow

theorem rawText_of_lexemes {name : String} {own : List Token}
    (hname : ∀ c ∈ name.toList, Text.isBlank c = false)
    (h : own.map Token.lexeme = bracedTokens name.toList) : RawText own name :=
  ⟨h, trim_of_no_blank hname⟩

theorem raw_spells {name text : String} {more : List Piece} (side : String)
    (hside : side ∈ ["\\begin", "\\end"]) (hname : ∀ c ∈ name.toList, c.isAlpha)
    (htext : text.toList = side.toList ++ '{' :: name.toList ++ ['}'])
    (h : Spells (.token text :: more) tokens)
    : ∃ gap token own rest, tokens = gap ++ token :: (own ++ rest) ∧ IsGap gap ∧
      token.lexeme = (.command, side) ∧ RawText own name ∧ Spells more rest := by
  have hlex : lex text.toList = (.command, side) :: bracedTokens name.toList := by
    simp only [List.mem_cons, List.not_mem_nil, or_false] at hside
    rw [htext]
    rcases hside with rfl | rfl
    . exact @lex_raw_alone "begin".toList name.toList (by simp) hname
    . exact @lex_raw_alone "end".toList name.toList (by simp) hname
  obtain ⟨gap, own, rest, rfl, hgap, hown, hrest, _⟩ := h.cons_inv
  rw [Piece.lexemes, hlex] at hown
  obtain ⟨token, own, rfl, htoken, hown⟩ := List.map_eq_cons_iff.mp hown
  exact ⟨gap, token, own, rest, rfl, hgap, htoken,
    rawText_of_lexemes (fun c hc => isBlank_of_isAlpha (hname c hc)) hown, hrest⟩

theorem paired_rawText {text : String} (h : RawText tokens text) : Paired inDegree tokens := by
  have hlexemes := h.lexemes
  rw [bracedTokens] at hlexemes
  obtain ⟨opener, _, rfl, hopener, h⟩ := List.map_eq_cons_iff.mp hlexemes
  obtain ⟨raw, _, rfl, hraw, h⟩ := List.map_eq_cons_iff.mp h
  obtain ⟨closer, _, rfl, hcloser, h⟩ := List.map_eq_cons_iff.mp h
  rw [List.map_eq_nil_iff.mp h]
  have hinner : Paired inDegree [raw] := by
    refine .cons ?_ paired_nil
    rw [hraw]
    exact neutral_of_kind (by decide)
  exact hinner.wrap mem_brackets.1 hopener hcloser

theorem spec_spells {name : String} {spec : Option String} {more : List Piece}
    (hhead : GridHead name spec) (h : Spells (specPieces spec ++ more) tokens)
    : ∃ own rest, tokens = own ++ rest ∧ Paired inDegree own ∧ RawSpec name own spec ∧
      Spells more rest := by
  cases hhead with
  | plain hname hne => exact ⟨[], tokens, rfl, paired_nil, .absent hne, h⟩
  | @array spec hspec =>
    obtain ⟨gap, own, rest, rfl, _, hown, hrest, hgap⟩ := Spells.cons_inv h
    have hnone : gap = [] := by
      by_contra hne
      obtain ⟨_, ⟨⟩, _⟩ := hgap hne
    have hblank : ∀ c ∈ spec.toList, Text.isBlank c = false := fun c hc =>
      (by decide : ∀ c ∈ ['l', 'c', 'r', '|'], Text.isBlank c = false) c (hspec c hc)
    have hraw : RawText own spec := rawText_of_lexemes hblank (by simpa [Piece.lexemes] using hown)
    exact ⟨own, rest, by rw [hnone, List.nil_append], paired_rawText hraw, .array hraw, hrest⟩

theorem eq_of_isEmptyRow {row : List Formula} (h : GridItem.isEmptyRow row) : row = [.empty] := by
  unfold GridItem.isEmptyRow at h
  split at h
  next only =>
    cases only with
    | empty => rfl
    | _ => contradiction
  . contradiction

theorem atomic_of_spells_env {name : String} {spec : Option String} (hhead : GridHead name spec)
    (hne : rows ≠ []) (hcells : ∀ row ∈ rows, row ≠ [])
    (ih : ∀ row ∈ rows, ∀ cell ∈ row, ReadableCell inDegree f cell)
    (h : Spells (Formula.env name spec rows).pieces tokens)
    : ∃ gap own table, tokens = gap ++ own ∧ IsGap gap ∧ Paired inDegree own ∧
      table.map (List.map f) = rows ∧
      Atomic own (.env name spec (GridItem.withoutEmptyRow table)) := by
  rw [pieces_env] at h
  obtain ⟨gap, start, nameTokens, rest, rfl, hgap, hstart, hname, hrest⟩ :=
    raw_spells "\\begin" (by simp) hhead.isAlpha (by simp) h
  obtain ⟨specTokens, rest, rfl, hspecPaired, hspec, hrest⟩ := spec_spells hhead hrest
  obtain ⟨lineGap, line, rest, rfl, hlineGap, hline, hrest, _⟩ := hrest.token_inv lex_newlineText
  obtain ⟨body, rest, rfl, hbody, hrest⟩ := hrest.append_inv
  obtain ⟨lastGap, last, rest, rfl, hlastGap, hlastLine, hrest, _⟩ := hrest.token_inv lex_newlineText
  obtain ⟨stopGap, stop, stopTokens, rest, rfl, hstopGap, hstop, hstopName, hnone⟩ :=
    raw_spells "\\end" (by simp) hhead.isAlpha (by simp) hrest
  have hgrid := tableReading_grid hne hcells ih (hlineGap.append (isGap_newline hline)) hbody
    ((hlastGap.append (isGap_newline hlastLine)).append hstopGap)
  obtain ⟨table, hreads, hrows⟩ := hgrid.reads
  obtain ⟨items, hitems, htable⟩ := hreads.items_eq
  have hinner := hspecPaired.append hgrid.paired
  have hpaired := (((paired_rawText hname).append hinner).wrap mem_brackets.2.2 hstart hstop).append
    (paired_rawText hstopName)
  have hatomic := atomic_env hstart hname hspec (hinner _ mem_brackets.2.2) hitems hstop hstopName
  have hlist : start :: (nameTokens ++ (specTokens ++ (lineGap ++ line :: (body ++
      (lastGap ++ last :: (stopGap ++ stop :: (stopTokens ++ rest))))))) =
      start :: (nameTokens ++ (specTokens ++ (lineGap ++ [line] ++ (body ++
        (lastGap ++ [last] ++ stopGap))) ++ stop :: stopTokens)) := by
    simp [hnone.eq_nil]
  rw [GridItem.rows_eq, htable] at hatomic
  refine ⟨gap, _, table, by rw [hlist], hgap, by simpa using hpaired, hrows, hatomic⟩

theorem argumentReading_env {name : String} {spec : Option String} (hhead : GridHead name spec)
    (hne : rows ≠ []) (hcells : ∀ row ∈ rows, row ≠ [])
    (hlast : rows.length ≠ 1 → rows.getLast? ≠ some [.empty])
    (ih : ∀ row ∈ rows, ∀ cell ∈ row, Readable inDegree cell)
    (h : Spells (Formula.env name spec rows).pieces tokens)
    : ArgumentReading inDegree (.env name spec rows) tokens := by
  obtain ⟨gap, own, table, rfl, hgap, hpaired, rfl, hatomic⟩ := atomic_of_spells_env hhead hne
    hcells (fun row hrow cell hcell => (ih row hrow cell hcell).readableCell) h
  have hkept : GridItem.withoutEmptyRow table = table := by
    apply GridItem.withoutEmptyRow_eq
    intro hlength
    have hrow := hlast (by rwa [List.length_map])
    rw [Bool.eq_false_iff]
    intro hempty
    obtain ⟨row, hfound, hempty⟩ := (Option.any_eq_true _ _).mp hempty
    rw [eq_of_isEmptyRow hempty] at hfound
    apply hrow
    rw [List.getLast?_map, hfound]
    simp [withoutSpaces]
  rw [hkept] at hatomic
  refine ⟨(paired_gap hgap).append hpaired, _, .intro hgap hatomic, rfl, ?_⟩
  rw [withoutSpaces, rowsWithoutSpaces_eq]

end Grids

theorem Formula.Regular.readable {inDegree : Bool} {tree : Formula} (h : Regular inDegree tree)
    : Readable inDegree tree := by
  induction h with
  | empty =>
    refine readable_of_needsBraces rfl rfl fun tokens h => ?_
    rw [pieces] at h
    rw [h.eq_nil]
    exact reading_nil
  | number h =>
    refine readable_of_argument rfl fun tokens htokens => ?_
    rw [pieces] at htokens
    exact argumentReading_number h htokens
  | char h =>
    refine readable_of_argument rfl fun tokens htokens => ?_
    rw [pieces] at htokens
    exact argumentReading_char h htokens
  | escaped h =>
    refine readable_of_argument rfl fun tokens htokens => ?_
    rw [pieces] at htokens
    exact argumentReading_escaped h htokens
  | symbol hname harity =>
    refine readable_of_argument rfl fun tokens htokens => ?_
    rw [pieces] at htokens
    exact argumentReading_symbol hname harity htokens
  | func harity hraw hlength hargs ih =>
    exact readable_of_argument rfl fun _ => argumentReading_func harity hraw hlength hargs ih
  | root hdegree harg ihdegree iharg =>
    exact readable_of_argument rfl fun _ => argumentReading_root harg ihdegree iharg
  | attach hbase hnumber hsub hsup hsome ih ihsub ihsup =>
    exact readable_of_needsBraces rfl rfl fun _ => reading_attach ih ihsub hsup ihsup hsome
  | leftRight hleft hbody hright ih =>
    exact readable_of_argument rfl fun _ => argumentReading_leftRight hleft hbody ih hright
  | env hhead hrows hcells hlast h ih =>
    exact readable_of_argument rfl fun _ => argumentReading_env hhead hrows hcells hlast ih
  | @group _ nodes hlength hflat hfull hnumbers h ih =>
    refine readable_of_needsBraces rfl ?_ fun tokens htokens => ?_
    . rcases nodes with - | ⟨first, - | ⟨second, nodes⟩⟩
      . contradiction
      . contradiction
      . rfl
    . rw [pieces, eachPieces_eq] at htokens
      exact reading_nodes hflat hfull ih htokens

namespace Formula

variable {inDegree : Bool} {node : Formula}

/--
Cut into tokens, what is written for pieces that can be told apart is cut as they are, and no space
stands next to a script marker.
-/
theorem lexemes_of_fits (hfits : Fits node.pieces) (hends : Ends node.pieces)
    : (tokenize (write node)).map Token.lexeme = ({} : Line).lexemes node.pieces ∧
      stripScriptSpaces (tokenize (write node)) = tokenize (write node) := by
  have hlexemes : (tokenize (write node)).map Token.lexeme = lex (({} : Line).emit node.pieces) := by
    rw [tokenize_lexemes, write_eq, String.toList_ofList, trimEnd_of_last]
    rw [Line.getLast?_emit]
    exact hends
  have hsettled := settled_emit hfits {} (.false _)
  rw [← hlexemes] at hsettled
  exact ⟨hsettled.lexemes_eq, hsettled.unstripped nofun _ rfl⟩

theorem spells_of_fits (hfits : Fits node.pieces) (hends : Ends node.pieces)
    : Spells node.pieces (tokenize (write node)) := by
  rw [Spells, (lexemes_of_fits hfits hends).1]
  exact Line.spaced_lexemes _ _

theorem Regular.spells (h : Regular inDegree node)
    : Spells node.pieces (tokenize (write node)) ∧
      stripScriptSpaces (tokenize (write node)) = tokenize (write node) := by
  have hfits := h.fitting [] .nil fun _ => notStartsWith_nil
  rw [List.append_nil] at hfits
  exact ⟨spells_of_fits hfits h.ends, (lexemes_of_fits hfits h.ends).2⟩

theorem Regular.reading (h : Regular inDegree node)
    : Reading inDegree node.toList (stripScriptSpaces (tokenize (write node))) := by
  rw [h.spells.2]
  exact h.readable.reading _ h.spells.1

theorem parse_of_reading {trees : List Formula} {tokens : List Token}
    (h : Reading inDegree trees (stripScriptSpaces tokens))
    : ∃ read, parse tokens = .ok read ∧ read.withoutSpaces = ofList trees := by
  obtain ⟨nodes, hnodes, hdrop⟩ := h.reads
  have hsequence : Parser.sequence false (stripScriptSpaces tokens) = .ok nodes :=
    hnodes.sequence_eq
  refine ⟨ofList nodes, ?_, ?_⟩
  . rw [parse, hsequence]
    rfl
  . rw [dropsSpaces.strip_ofList, hdrop]

/--
The parser undoes the writer: what is written for a regular formula is read, and without the spaces
that were written it is the formula again.
-/
theorem parseText_write (node : Formula) (h : Regular false node)
    : ∃ read, parseText (write node) = .ok read ∧ read.withoutSpaces = node := by
  obtain ⟨read, hparse, hread⟩ := parse_of_reading h.reading
  rw [h.readable.flat] at hread
  exact ⟨read, hparse, hread⟩

theorem parseText_write_root
    : ∃ read,
      parseText (write (.attach (.symbol "alpha")
        (some (.func "sqrt" [.empty] (some (.element "12")))) (primed 2 none))) = .ok read ∧
      read.withoutSpaces = .attach (.symbol "alpha")
        (some (.func "sqrt" [.empty] (some (.element "12")))) (primed 2 none) := by
  have hdegree : Regular true (.element "12") :=
    .number ⟨"12".toList, [], by decide, by decide, nofun, .inl rfl⟩
  have hroot : Regular false (.func "sqrt" [.empty] (some (.element "12"))) := .root hdegree .empty
  have hsub : ∀ node ∈ some (.func "sqrt" [.empty] (some (.element "12"))), Regular false node := by
    rintro _ ⟨⟩
    exact hroot
  exact parseText_write _ (.attach (.symbol rfl rfl) rfl hsub nofun (.inl rfl))

/--
The point is a delimiter, but it is read as no delimiter at all.
-/
theorem point_not_kept
    : Token.isDelimiter ⟨.element, ".", .detached⟩ ∧
      ¬ ∃ read, parseText (write (.leftRight (some ".") (.element "x") (some ")"))) = .ok read ∧
        read.withoutSpaces = .leftRight (some ".") (.element "x") (some ")") := by
  refine ⟨by decide, ?_⟩
  have hbody : Regular false (.element (String.ofList ['x'])) := .char (by decide)
  have hclosing : ∀ text ∈ some ")", IsDelimiter false text := by
    rintro _ ⟨⟩
    exact ⟨by decide, by decide, nofun⟩
  have hregular : Regular false (.leftRight none (.element "x") (some ")")) :=
    .leftRight nofun hbody hclosing
  have hsame : write (.leftRight (some ".") (.element "x") (some ")")) =
      write (.leftRight none (.element "x") (some ")")) := by
    simp only [write, pieces]
    rfl
  obtain ⟨found, hparse, hfound⟩ := parse_of_reading hregular.reading
  rintro ⟨read, hread, hspaces⟩
  rw [hsame, parseText, hparse] at hread
  cases hread
  rw [hregular.readable.flat, hspaces] at hfound
  cases hfound

end Formula

/--
A text that is read and written again.
-/
def format (text : String) : Except ParseError String :=
  write <$> parseText text

/--
The line break after a comment is read as a space, and the comment is written with one of its own,
so there is one more each time. An empty row at the end of a grid is written and then not read.
-/
theorem format_not_idempotent
    : format "a % c\nb" = .ok "a % c\n\nb" ∧ format "a % c\n\nb" = .ok "a % c\n\n\nb" ∧
      format "\\begin\x7bmatrix\x7d a & \\\\ \\\\ \\end\x7bmatrix\x7d" =
        .ok "\\begin\x7bmatrix\x7d\na & \\\\\n\n\\end\x7bmatrix\x7d" ∧
      format "\\begin\x7bmatrix\x7d\na & \\\\\n\n\\end\x7bmatrix\x7d" =
        .ok "\\begin\x7bmatrix\x7d\na &\n\\end\x7bmatrix\x7d" := by
  refine ⟨?_, ?_, ?_, ?_⟩
  all_goals exact eq_ok_of_toOption (by decide +kernel)

end Tex
end MathMarkup
