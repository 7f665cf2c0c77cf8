import MathMarkup.Proofs.Typst.Call
import MathMarkup.Proofs.Typst.Fitting
import MathMarkup.Proofs.Typst.Spells

/-!
This module contains how the constructs that are written for a formula are read back one by one:
tokens, formulas side by side, fractions, scripts, and the parts of a call.
-/

namespace MathMarkup
namespace Typst

open Text Formula

/--
The tokens that set apart arguments, cells, rows and lines, or a named argument from its name.
-/
def splitting : List Lexeme :=
  [(.element, ","), (.element, ";"), (.element, ":"), (.control, "&"), (.control, "\\")]

/--
A token at which nothing is split.
-/
def Whole (token : Token) : Prop :=
  token.lexeme ∉ splitting

/--
Tokens that are read as these formulas side by side, up to spaces. `name` says whether they end with
a name.
-/
structure Reading (name : Bool) (trees : List Formula) (tokens : List Token) : Prop where
  nested : Nested Whole tokens
  reads : ∃ nodes, ReadsAs name tokens nodes ∧ Images trees nodes

/--
Tokens that are read as this formula where one expression without scripts is expected, up to
spaces.
-/
structure ArgumentReading (name : Bool) (tree : Formula) (tokens : List Token) : Prop where
  nested : Nested Whole tokens
  argument : ∃ node, Argument name tokens node ∧ Image tree node ∧ ∀ nodes, node ≠ .group nodes

/--
Tokens that are read as this formula where parentheses only group, up to spaces.
-/
structure OperandReading (name : Bool) (tree : Formula) (tokens : List Token) : Prop where
  nested : Nested Whole tokens
  operand : ∃ node, Argument name tokens node ∧ node.isSpace = false ∧ Image tree (Item.operand node)

section Readings

variable {words : Vocabulary} {name other : Bool} {tree : Formula} {trees others : List Formula}
  {token first : Token} {tokens more gap rest : List Token}

theorem Simple.begins (h : Simple words token.lexeme) : Begins token := by
  obtain ⟨kind, text, span⟩ := token
  cases h with
  | element h =>
    apply begins_element rfl
    intro hmem
    exact (by decide : ∀ text ∈ ["'", "/", ")"], ¬ text.toList.head?.any isAtomStart) text hmem h
  | symbol => exact begins_symbol rfl

theorem Simple.whole (h : Simple words token.lexeme) : Whole token := by
  obtain ⟨kind, text, span⟩ := token
  cases h with
  | element h =>
    intro hmem
    have hfirst : ∀ lexeme ∈ splitting, lexeme.1 = .element →
        ¬ lexeme.2.toList.head?.any isAtomStart := by
      decide
    exact hfirst _ hmem rfl h
  | symbol =>
    intro hmem
    exact (by decide : ∀ lexeme ∈ splitting, lexeme.1 ≠ .symbol) _ hmem rfl

theorem Simple.nested (h : Simple words token.lexeme) : Nested Whole [token] :=
  .cons h.isOpen h.begins.isClose h.whole .nil

theorem Opening.begins (h : Opening words name gap first) : Begins first := by
  rcases h.simple with hsimple | hopen
  . exact hsimple.begins
  . exact begins_open hopen

theorem Opening.stops (h : Opening words name gap first) : Stops name (gap ++ first :: rest) := by
  cases gap with
  | nil =>
    apply h.begins.stops
    rintro hname _ ⟨⟩
    exact h.unopened rfl hname
  | cons space gap => exact stops_space (h.isGap space List.mem_cons_self)

theorem whole_of_isSpace (h : token.isSpace) : Whole token ∧ token.isOpen = false ∧
    token.isClose = false := by
  obtain ⟨kind, text, span⟩ := token
  have hsplitting : ∀ lexeme ∈ splitting, lexeme.1 ≠ .space ∧ lexeme.1 ≠ .newline := by decide
  rcases kind_of_isSpace h with rfl | rfl
  . exact ⟨fun hmem => (hsplitting _ hmem).1 rfl, rfl, rfl⟩
  . exact ⟨fun hmem => (hsplitting _ hmem).2 rfl, rfl, rfl⟩

theorem nested_gap (h : IsGap gap) : Nested Whole gap := by
  induction gap with
  | nil => exact .nil
  | cons token gap ih =>
    rw [IsGap, List.forall_mem_cons] at h
    obtain ⟨hwhole, hopen, hclose⟩ := whole_of_isSpace h.1
    exact .cons hopen hclose hwhole (ih h.2)

theorem nested_mark {lexeme : Lexeme} (htoken : token.lexeme = lexeme)
    (h : lexeme ∉ (.element, "(") :: (.element, ")") :: splitting) : Nested Whole [token] := by
  simp only [List.mem_cons, not_or] at h
  refine .cons ?_ ?_ ?_ .nil
  . exact is_eq_false_iff.mpr (htoken ▸ h.1)
  . exact is_eq_false_iff.mpr (htoken ▸ h.2.1)
  . rw [Whole, htoken]
    exact h.2.2

theorem reading_nil : Reading name [] [] :=
  ⟨.nil, [], readsAs_nil, images_spaces nofun⟩

theorem Reading.append (h : Reading name trees tokens) (hmore : Reading other others more)
    (hstops : ∀ rest, Stops other rest → Stops name (more ++ rest))
    : Reading other (trees ++ others) (tokens ++ more) := by
  obtain ⟨nodes, hnodes, himages⟩ := h.reads
  obtain ⟨otherNodes, hother, hotherImages⟩ := hmore.reads
  exact ⟨h.nested.append hmore.nested, _, hnodes.append hother hstops, himages.append hotherImages⟩

theorem ArgumentReading.reading (h : ArgumentReading name tree tokens)
    : Reading name [tree] tokens := by
  obtain ⟨node, hnode, himage, hflat⟩ := h.argument
  obtain ⟨spaces, hreads, hspaces⟩ := hnode.readsAs
  exact ⟨h.nested, _, hreads, (images_spaces hspaces).append (himage.images hflat)⟩

theorem reading_gap {node : Formula} (hgap : IsGap gap) (hnested : Nested Whole (gap ++ tokens))
    (hreads : ReadsAs name tokens [node]) (hstops : ∀ rest, Stops false (tokens ++ rest))
    (himage : Image tree node) (hflat : ∀ nodes, node ≠ .group nodes)
    : Reading name [tree] (gap ++ tokens) := by
  refine ⟨hnested, _, (readsAs_gap hgap).append hreads fun rest _ => hstops rest, ?_⟩
  exact (images_spaces isSpace_of_mem_spacesOf).append (himage.images hflat)

end Readings

/--
What is written for a formula is read as the formula.
-/
structure Readable (style : Style) (tree : Formula) : Prop where
  ofList : ofList tree.toList = tree
  nonempty : tree.toList ≠ []
  reading : ∀ afterName tokens, Spells afterName (tree.spelling style) tokens →
    Reading (lastName afterName (tree.spelling style)) tree.toList tokens
  argument : tree.needsParens = false → ∀ afterName tokens,
    Spells afterName (tree.spelling style) tokens →
      ArgumentReading (lastName afterName (tree.spelling style)) tree tokens

section Constructs

variable {style : Style} {words : Vocabulary} {afterName : Bool} {tree : Formula}
  {spelled : List Piece} {tokens : List Token}

theorem toList_of_not_group (hflat : ∀ nodes, tree ≠ .group nodes) (hempty : tree.isEmpty = false)
    : tree.toList = [tree] := by
  cases tree with
  | group nodes => exact absurd rfl (hflat nodes)
  | empty => contradiction
  | _ => rfl

theorem readable_of_reading (hflat : ∀ nodes, tree ≠ .group nodes) (hempty : tree.isEmpty = false)
    (hparens : tree.needsParens = true)
    (h : ∀ afterName tokens, Spells afterName (tree.spelling style) tokens →
      Reading (lastName afterName (tree.spelling style)) [tree] tokens)
    : Readable style tree := by
  have hlist := toList_of_not_group hflat hempty
  refine ⟨by rw [hlist, Formula.ofList], by simp [hlist], by rwa [hlist], ?_⟩
  intro hnone
  rw [hparens] at hnone
  contradiction

theorem readable_of_argument (hflat : ∀ nodes, tree ≠ .group nodes) (hempty : tree.isEmpty = false)
    (h : ∀ afterName tokens, Spells afterName (tree.spelling style) tokens →
      ArgumentReading (lastName afterName (tree.spelling style)) tree tokens)
    : Readable style tree := by
  have hlist := toList_of_not_group hflat hempty
  refine ⟨by rw [hlist, Formula.ofList], by simp [hlist], fun afterName tokens htokens => ?_,
    fun _ => h⟩
  rw [hlist]
  exact (h afterName tokens htokens).reading

theorem argumentReading_token {text : String} {lexeme : Lexeme} (hlex : lex text.toList = [lexeme])
    (hsimple : Simple words lexeme)
    (hatomic : ∀ token : Token, token.lexeme = lexeme → Atomic (endsWithName [lexeme]) [token] tree)
    (himage : Image tree tree) (hflat : ∀ nodes, tree ≠ .group nodes)
    (h : Spells afterName [.token text] tokens)
    : ArgumentReading (lastName afterName [.token text]) tree tokens := by
  obtain ⟨gap, token, rest, rfl, hgap, rfl, hrest, _⟩ := h.single_inv hlex
  rw [hrest.eq_nil, lastName_token, hlex]
  exact ⟨(nested_gap hgap).append hsimple.nested, tree, .intro hgap (hatomic token rfl), himage,
    hflat⟩

theorem image_atom (s : String) : Image (.atom s) (.atom s) :=
  ⟨rfl, by rw [withoutSpaces] <;> nofun, .atom s⟩

theorem image_symbol (name : String) : Image (.symbol name) (.symbol name) :=
  ⟨rfl, by rw [withoutSpaces] <;> nofun, .symbol name⟩

theorem atomic_simple {s : String} {token : Token} (htoken : token.lexeme = (.element, s))
    (h : Simple words (.element, s)) : Atomic false [token] (.atom s) := by
  have hkind : token.kind = .element := congrArg Prod.fst htoken
  have hsame : token.text = s := congrArg Prod.snd htoken
  subst hsame
  cases h with
  | element hfirst =>
    apply atomic_element hkind
    intro hmem
    exact (by decide : ∀ text ∈ ["'", "/", ")", "("], ¬ text.toList.head?.any isAtomStart) _ hmem
      hfirst

theorem readable_atom {s : String} (hspelling : (Formula.atom s).spelling style = [.token s])
    (h : lex s.toList = [(.element, s)] ∧ Simple words (.element, s))
    : Readable style (.atom s) := by
  obtain ⟨hlex, hsimple⟩ := h
  refine readable_of_argument nofun rfl fun afterName tokens h => ?_
  rw [hspelling] at h ⊢
  exact argumentReading_token hlex hsimple (fun _ htoken => atomic_simple htoken hsimple)
    (image_atom s) nofun h

theorem readable_symbol {name : String} (h : words.mem name)
    (hinfinity : style.inftyToOo → name ≠ "infinity") : Readable style (.symbol name) := by
  have hlex : lex (symbolText style name).toList = [(.symbol, name)] := by
    rcases symbolText_cases hinfinity with htext | hmem
    . rw [htext]
      exact lex_name_alone (words.typstName _ h)
    . exact lex_shorthand_alone hmem
  refine readable_of_argument nofun rfl fun afterName tokens htokens => ?_
  have hspelling : (Formula.symbol name).spelling style = [.token (symbolText style name)] := by
    rw [spelling, pieces]
  rw [hspelling] at htokens ⊢
  refine argumentReading_token hlex (@Simple.symbol words _ (.inl h)) ?_ (image_symbol name) nofun
    htokens
  intro token htoken
  have hkind : token.kind = .symbol := congrArg Prod.fst htoken
  have hsame : token.text = name := congrArg Prod.snd htoken
  subst hsame
  exact atomic_symbol hkind

theorem reading_parenthesized {trees : List Formula}
    (hreading : ∀ inner, Spells false spelled inner → Reading (lastName false spelled) trees inner)
    (h : Spells afterName (parenthesized spelled) tokens)
    : Nested Whole tokens ∧ ∃ nodes, Argument false tokens (.parens nodes) ∧ Images trees nodes := by
  obtain ⟨gap, opener, inner, closer, rfl, hgap, hopener, hcloser, hinner⟩ := h.parenthesized_inv
  have hreads := hreading inner hinner
  obtain ⟨nodes, hnodes, himages⟩ := hreads.reads
  refine ⟨(nested_gap hgap).append ?_, nodes, .intro hgap ?_, himages⟩
  . exact .wrap hopener hcloser (hreads.nested.mono fun _ _ => trivial) .nil
  . exact atomic_parens hopener hcloser hreads.nested hnodes.sequence_eq

theorem Readable.operand (htree : Readable style tree) {wrap : Bool}
    (hparens : wrap = false → tree.needsParens = false ∧ ∀ nodes, tree ≠ .parens nodes)
    (h : Spells afterName (wrapped wrap (tree.spelling style)) tokens)
    : OperandReading (lastName afterName (wrapped wrap (tree.spelling style))) tree tokens := by
  cases wrap with
  | true =>
    have hname : lastName afterName (wrapped true (tree.spelling style)) = false :=
      lastName_paren afterName (.token "(" :: tree.spelling style)
    obtain ⟨hnested, nodes, hargument, himages⟩ :=
      reading_parenthesized (fun inner hinner => htree.reading false inner hinner) h
    rw [hname]
    refine ⟨hnested, .parens nodes, hargument, rfl, ?_⟩
    have himage := himages.image_ofList htree.nonempty
    rwa [htree.ofList, ← Item.operand_parens] at himage
  | false =>
    obtain ⟨hneeds, hnot⟩ := hparens rfl
    have hreading := htree.argument hneeds afterName tokens h
    obtain ⟨node, hnode, himage, _⟩ := hreading.argument
    have hne : ∀ nodes, node ≠ .parens nodes := by
      rintro nodes rfl
      have hsame := himage.withoutSpaces
      rw [withoutSpaces] at hsame
      exact hnot _ hsame.symm
    refine ⟨hreading.nested, node, hnode, himage.isSpace, ?_⟩
    rwa [Item.operand_of_ne_parens hne]

theorem Formula.Regular.opening {more : List Piece} (htree : Regular style words tree)
    (h : Spells afterName (tree.spelling style ++ more) tokens)
    : ∃ gap first rest, tokens = gap ++ first :: rest ∧ Opening words afterName gap first ∧
      Spells false (tree.spelling style ++ more) (first :: rest) := by
  obtain ⟨text, htext, hopener⟩ := htree.exists_opener
  exact h.opening (head?_texts_append htext) hopener

theorem reading_nodes {nodes : List Formula} (hflat : ∀ node ∈ nodes, ∀ more, node ≠ .group more)
    (hnodes : ∀ node ∈ nodes, Regular style words node)
    (ih : ∀ node ∈ nodes, Readable style node)
    (h : Spells afterName (nodes.map (spelling style)).flatten tokens)
    : Reading (lastName afterName (nodes.map (spelling style)).flatten) nodes tokens := by
  induction nodes generalizing afterName tokens with
  | nil =>
    rw [Spells.eq_nil h]
    exact reading_nil
  | cons node nodes ihnodes =>
    rw [List.forall_mem_cons] at hflat hnodes ih
    rw [List.map_cons, List.flatten_cons] at h ⊢
    obtain ⟨own, rest, rfl, hown, hrest⟩ := Spells.append_inv h
    have hreading := ih.1.reading afterName own hown
    rw [toList_of_not_group hflat.1 hnodes.1.isEmpty] at hreading
    rw [lastName_append]
    refine hreading.append (ihnodes hflat.2 hnodes.2 ih.2 hrest) fun after hafter => ?_
    cases nodes with
    | nil =>
      rw [Spells.eq_nil hrest]
      exact hafter
    | cons next nodes =>
      obtain ⟨gap, first, rest, rfl, hopening, _⟩ :=
        (hnodes.2 next List.mem_cons_self).opening hrest
      rw [List.append_assoc]
      exact hopening.stops

theorem readable_parens {nodes : List Formula}
    (hflat : ∀ node ∈ nodes, ∀ more, node ≠ .group more)
    (hnodes : ∀ node ∈ nodes, Regular style words node)
    (ih : ∀ node ∈ nodes, Readable style node) : Readable style (.parens nodes) := by
  refine readable_of_argument nofun rfl fun afterName tokens h => ?_
  rw [spelling_parens] at h ⊢
  obtain ⟨hnested, others, hargument, himages⟩ :=
    reading_parenthesized (fun inner hinner => reading_nodes hflat hnodes ih hinner) h
  have hname : lastName afterName (parenthesized (nodes.map (spelling style)).flatten) = false :=
    lastName_paren afterName (.token "(" :: _)
  rw [hname]
  refine ⟨hnested, .parens others, hargument, ⟨rfl, ?_, .parens himages.tidy⟩, nofun⟩
  rw [withoutSpaces, himages.dropSpaces]

theorem readable_group {nodes : List Formula} (htree : Regular style words (.group nodes))
    (hflat : ∀ node ∈ nodes, ∀ more, node ≠ .group more)
    (hnodes : ∀ node ∈ nodes, Regular style words node) (hlength : 2 ≤ nodes.length)
    (ih : ∀ node ∈ nodes, Readable style node) : Readable style (.group nodes) := by
  refine ⟨?_, ?_, fun afterName tokens h => ?_, ?_⟩
  . match nodes with
    | [] => contradiction
    | [_] => contradiction
    | _ :: _ :: _ => rfl
  . exact List.ne_nil_of_length_pos (Nat.lt_of_lt_of_le Nat.two_pos hlength)
  . rw [spelling_group] at h ⊢
    exact reading_nodes hflat hnodes ih h
  . intro hparens
    rw [htree.needsParens_group] at hparens
    contradiction

theorem lex_slash_alone : lex "/".toList = [(.element, "/")] :=
  (lex_slash notStartsWith_nil).trans (congrArg _ lex_nil)

theorem reading_quotient {num den : Formula} {space wrapNum wrapDen : Bool}
    (hnum : Readable style num) (hden : Readable style den)
    (hnumParens : wrapNum = false → num.needsParens = false ∧ ∀ nodes, num ≠ .parens nodes)
    (hdenParens : wrapDen = false → den.needsParens = false ∧ ∀ nodes, den ≠ .parens nodes)
    (h : Spells afterName ((if space then [.softSpace] else []) ++
      (wrapped wrapNum (num.spelling style) ++
        .token "/" :: wrapped wrapDen (den.spelling style))) tokens)
    : Reading (lastName afterName ((if space then [.softSpace] else []) ++
      (wrapped wrapNum (num.spelling style) ++
        .token "/" :: wrapped wrapDen (den.spelling style)))) [.frac num den] tokens := by
  have hspaced : ∀ spelled tokens,
      Spells afterName ((if space then [.softSpace] else []) ++ spelled) tokens →
        Spells afterName spelled tokens := by
    intro spelled tokens h
    split at h
    . exact h.soft_inv
    . exact h
  have hname : ∀ spelled, lastName afterName
      ((if space then [.softSpace] else []) ++ spelled) = lastName afterName spelled := by
    intro spelled
    split
    all_goals rfl
  rw [hname, lastName_append, lastName_token, lex_slash_alone]
  obtain ⟨own, rest, rfl, hown, hrest⟩ := (hspaced _ _ h).append_inv
  obtain ⟨none, slash, rest, rfl, _, hslash, hrest, htight⟩ := hrest.single_inv lex_slash_alone
  rw [htight (by decide), List.nil_append]
  have hnumReading := hnum.operand hnumParens hown
  have hdenReading := hden.operand hdenParens hrest
  obtain ⟨numNode, ⟨hgap, hatomic⟩, hnumSpace, hnumImage⟩ := hnumReading.operand
  obtain ⟨denNode, hdenNode, hdenSpace, hdenImage⟩ := hdenReading.operand
  have hslashes := nested_mark hslash (by decide)
  have hnested := hnumReading.nested.append (hslashes.append hdenReading.nested)
  rw [List.append_assoc] at hnested ⊢
  refine reading_gap hgap hnested (readsAs_frac hatomic hslash hdenNode hnumSpace hdenSpace) ?_ ?_
    nofun
  . intro rest
    rw [List.append_assoc]
    exact hatomic.stops
  . refine ⟨rfl, ?_, .frac hnumImage.tidy hdenImage.tidy⟩
    rw [withoutSpaces, hnumImage.withoutSpaces, hdenImage.withoutSpaces]

theorem readable_frac {num den : Formula} (hnum : Readable style num) (hden : Readable style den)
    (hnumParens : ∀ nodes, num ≠ .parens nodes) (hdenParens : ∀ nodes, den ≠ .parens nodes)
    : Readable style (.frac num den) := by
  refine readable_of_reading nofun rfl rfl fun afterName tokens h => ?_
  rw [spelling_frac] at h ⊢
  exact reading_quotient hnum hden (fun hplain => ⟨hplain, hnumParens⟩)
    (fun hplain => ⟨hplain, hdenParens⟩) h

end Constructs

/--
Tokens that are read as a script with its marker, if there is one. `before` and `name` say whether
what stands before them and the tokens end with a name.
-/
inductive ScriptReading (before : Bool) (place : Script) :
    (name : Bool) → Option Formula → List Token → Prop where
  | none : ScriptReading before place before none []
  | some {name : Bool} {marker : Token} {own : List Token} {node tree : Formula}
    (hmarker : marker.script? = some place) (hnested : Nested Whole (marker :: own))
    (h : Argument name own node) (himage : Image tree (Item.operand node)) :
    ScriptReading before place name (some tree) (marker :: own)

section Scripts

variable {style : Style} {words : Vocabulary} {afterName before name other : Bool} {place : Script}
  {base : Formula} {script sub sup : Option Formula} {own tokens more marks : List Token}

theorem Formula.Regular.operand {tree : Formula} (htree : Regular style words tree)
    (hread : Readable style tree)
    (h : Spells afterName (wrapped tree.isWrappedScript (tree.spelling style)) tokens)
    : OperandReading (lastName afterName (wrapped tree.isWrappedScript (tree.spelling style))) tree
      tokens := by
  refine hread.operand (fun hwrapped => ?_) h
  cases tree with
  | group | attach | frac | parens | empty => contradiction
  | _ => exact ⟨rfl, nofun⟩

theorem scriptReading {marker : Char}
    (hmarker : (marker, place) ∈ [('_', Script.sub), ('^', Script.sup)])
    (hscript : ∀ tree ∈ script, Regular style words tree ∧ Readable style tree)
    (h : Spells afterName (scriptSpelling style (String.ofList [marker]) script) tokens)
    : ScriptReading afterName place
      (lastName afterName (scriptSpelling style (String.ofList [marker]) script)) script tokens := by
  cases script with
  | none =>
    rw [Spells.eq_nil h]
    exact .none
  | some tree =>
    obtain ⟨htree, hread⟩ := hscript tree rfl
    rw [scriptSpelling] at h ⊢
    have hcontrol : marker ∈ ['_', '^', '&'] ∧ String.ofList [marker] ∈ Line.tight ∧
        Script.ofMarker? (String.ofList [marker]) = some place := by
      simp only [List.mem_cons, List.not_mem_nil, or_false, Prod.mk.injEq] at hmarker
      rcases hmarker with ⟨rfl, rfl⟩ | ⟨rfl, rfl⟩
      all_goals decide
    have hlex : lex (String.ofList [marker]).toList = [(.control, String.ofList [marker])] := by
      rw [String.toList_ofList, lex_control hcontrol.1, lex_nil]
    obtain ⟨none, token, own, rfl, _, htoken, hown, htight⟩ := h.single_inv hlex
    rw [htight hcontrol.2.1, List.nil_append, lastName_token, hlex]
    have hreading := htree.operand hread hown
    obtain ⟨node, hnode, _, himage⟩ := hreading.operand
    refine .some ?_ ?_ hnode himage
    . have hkind : token.kind = .control := congrArg Prod.fst htoken
      have hsame : token.text = String.ofList [marker] := congrArg Prod.snd htoken
      rw [Token.script?, hkind, hsame]
      exact hcontrol.2.2
    . refine (nested_mark htoken ?_).append hreading.nested
      simp only [List.mem_cons, List.not_mem_nil, or_false, Prod.mk.injEq] at hmarker
      rcases hmarker with ⟨rfl, rfl⟩ | ⟨rfl, rfl⟩
      all_goals decide

theorem ScriptReading.nested (h : ScriptReading before place name script tokens)
    : Nested Whole tokens := by
  cases h with
  | none => exact .nil
  | some _ hnested => exact hnested

theorem ScriptReading.tokens_ne (h : ScriptReading before place name script tokens)
    (hsome : script.isSome) : tokens ≠ [] := by
  cases h with
  | none => contradiction
  | some => exact List.cons_ne_nil _ _

theorem exists_scriptsRead (hsub : ScriptReading before .sub other sub own)
    (hsup : ScriptReading other .sup name sup more) (primes : Nat)
    : ∃ subNode supNode, ScriptsRead name (own ++ more) { primes }
        { sub := subNode, sup := supNode, primes } ∧
      Option.Rel Image sub subNode ∧ Option.Rel Image sup supNode := by
  cases hsub with
  | none =>
    cases hsup with
    | none => exact ⟨_, _, .nil, .none, .none⟩
    | some hmarker _ h himage =>
      refine ⟨_, _, ?_, .none, .some himage⟩
      rw [List.nil_append, ← List.append_nil (_ :: _)]
      exact .cons hmarker rfl h (fun _ => rfl) .nil
  | some hmarker _ h himage =>
    cases hsup with
    | none =>
      exact ⟨_, _, .cons hmarker rfl h (fun _ => rfl) .nil, .some himage, .none⟩
    | some hmarker' _ h' himage' =>
      refine ⟨_, _, .cons hmarker rfl h nofun ?_, .some himage, .some himage'⟩
      rw [← List.append_nil (_ :: _)]
      exact .cons hmarker' rfl h' (fun _ => rfl) .nil

theorem image_attach {node : Formula} {subNode supNode : Option Formula} (hbase : Image base node)
    (hflat : ∀ nodes, node ≠ .group nodes) (hsub : Option.Rel Image sub subNode)
    (hsup : Option.Rel Image sup supNode)
    : Image (.attach base sub sup) (.attach node subNode supNode) := by
  have hoption : ∀ {tree node : Option Formula}, Option.Rel Image tree node →
      optionWithoutSpaces node = tree ∧ ∀ some ∈ node, Tidy some := by
    intro tree node h
    cases h with
    | some himage =>
      refine ⟨by rw [optionWithoutSpaces, himage.withoutSpaces], ?_⟩
      rintro _ ⟨⟩
      exact himage.tidy
    | none => exact ⟨by rw [optionWithoutSpaces], by simp⟩
  have htrimmed : Trimmed node := fun nodes hgroup => absurd hgroup (hflat nodes)
  refine ⟨rfl, ?_, .attach hbase.tidy htrimmed (hoption hsub).2 (hoption hsup).2⟩
  rw [withoutSpaces, hbase.withoutSpaces, (hoption hsub).1, (hoption hsup).1]

theorem Spells.scriptGap_inv (h : Spells afterName (scriptGap sub sup) tokens)
    : tokens = [] ∧ ∀ name, lastName name (scriptGap sub sup) = name := by
  have hsoft : tokenTexts (scriptGap sub sup) = [] := by
    unfold scriptGap
    split
    . split
      all_goals rfl
    . split
      all_goals rfl
    . rfl
  refine ⟨h.eq_nil_of_soft hsoft, fun name => ?_⟩
  rw [lastName, hsoft]
  rfl

theorem reading_attach {node result : Formula} {found : Scripts Formula}
    (hbase : Argument other own node) (hnested : Nested Whole (own ++ (marks ++ tokens)))
    (hmarks : ∀ token ∈ marks, token.isPrime)
    (h : ScriptsRead name tokens { primes := marks.length } found) (hne : marks ++ tokens ≠ [])
    (hresult : attachScripts found node = .attach node found.sub sup)
    (himage : Image result (.attach node found.sub sup))
    : Reading name [result] (own ++ (marks ++ tokens)) := by
  obtain ⟨hgap, hatomic⟩ := hbase
  have hreads := readsAs_attach hatomic hmarks h hne
  rw [hresult] at hreads
  rw [List.append_assoc] at hnested ⊢
  refine reading_gap hgap hnested hreads (fun rest => ?_) himage nofun
  rw [List.append_assoc]
  exact hatomic.stops

theorem readable_attach (hbase : Readable style base) (hkind : base.isScriptBase)
    (hsub : ∀ tree ∈ sub, Regular style words tree ∧ Readable style tree)
    (hsup : ∀ tree ∈ sup, Regular style words tree ∧ Readable style tree)
    (hsome : sub.isSome ∨ sup.isSome) : Readable style (.attach base sub sup) := by
  refine readable_of_reading nofun rfl rfl fun afterName tokens h => ?_
  rw [spelling_attach hkind fun tree htree => (hsup tree htree).1] at h ⊢
  obtain ⟨own, rest, rfl, hown, hrest⟩ := Spells.append_inv h
  obtain ⟨subTokens, rest, rfl, hsubTokens, hrest⟩ := hrest.append_inv
  obtain ⟨supTokens, rest, rfl, hsupTokens, hrest⟩ := hrest.append_inv
  obtain ⟨rfl, hname⟩ := hrest.scriptGap_inv
  have hsubReading := scriptReading (by decide : ('_', Script.sub) ∈ _) hsub hsubTokens
  have hsupReading := scriptReading (by decide : ('^', Script.sup) ∈ _) hsup hsupTokens
  have hbaseReading := hbase.argument (needsParens_of_isScriptBase hkind) afterName own hown
  obtain ⟨node, hnode, himage, hflat⟩ := hbaseReading.argument
  obtain ⟨subNode, supNode, hscripts, hsubImage, hsupImage⟩ :=
    exists_scriptsRead hsubReading hsupReading 0
  rw [lastName_append, lastName_append, lastName_append, hname, List.append_nil]
  have hnested := hbaseReading.nested.append (hsubReading.nested.append hsupReading.nested)
  refine @reading_attach _ _ _ _ _ [] _ _ _ hnode hnested nofun hscripts ?_ ?_
    (image_attach himage hflat hsubImage hsupImage)
  . rcases hsome with hsome | hsome
    . have hne := hsubReading.tokens_ne hsome
      simp [hne]
    . have hne := hsupReading.tokens_ne hsome
      simp [hne]
  . unfold attachScripts
    cases hsubImage with
    | some => rfl
    | none =>
      cases hsupImage with
      | some => rfl
      | none => simp at hsome

theorem Spells.primes_inv {count : Nat}
    (h : Spells afterName (List.replicate count (.token "'")) tokens)
    : tokens.length = count ∧ Nested Whole tokens ∧ ∀ token ∈ tokens, token.isPrime := by
  induction count generalizing afterName tokens with
  | zero =>
    rw [Spells.eq_nil h]
    exact ⟨rfl, .nil, nofun⟩
  | succ count ih =>
    rw [List.replicate_succ] at h
    obtain ⟨token, rest, rfl, htoken, hrest⟩ := @Spells.tight_inv _ _ _ '\'' (by decide) h
    obtain ⟨hlength, hnested, hprimes⟩ := ih hrest
    refine ⟨congrArg (· + 1) hlength, (nested_mark htoken (by decide)).append hnested, ?_⟩
    exact List.forall_mem_cons.mpr ⟨is_iff.mpr htoken, hprimes⟩

theorem image_primes (count : Nat) : Image (primes count) (primes count) := by
  have hatoms : ∀ node ∈ List.replicate count (Formula.atom "'"), node = .atom "'" :=
    fun node hnode => (List.mem_replicate.mp hnode).2
  refine ⟨rfl, ?_, .group fun node hnode => hatoms node hnode ▸ .atom _⟩
  have hdrop : dropSpaces (List.replicate count (Formula.atom "'")) =
      List.replicate count (.atom "'") := by
    induction count with
    | zero => rw [List.replicate_zero, dropSpaces]
    | succ count ih =>
      rw [List.replicate_succ, dropSpaces, ih fun node hnode => (List.mem_replicate.mp hnode).2]
      rfl
  rw [Formula.primes, withoutSpaces, if_neg, hdrop]
  simp [Formula.isSpace]

theorem readable_primed {count : Nat} (hbase : Readable style base) (hkind : base.isScriptBase)
    (hsub : ∀ tree ∈ sub, Regular style words tree ∧ Readable style tree) (hcount : count ≠ 0)
    : Readable style (.attach base sub (some (.primes count))) := by
  refine readable_of_reading nofun rfl rfl fun afterName tokens h => ?_
  rw [spelling_primed hkind hcount] at h ⊢
  obtain ⟨own, rest, rfl, hown, hrest⟩ := Spells.append_inv h
  obtain ⟨primeTokens, rest, rfl, hprimeTokens, hrest⟩ := hrest.append_inv
  obtain ⟨subTokens, rest, rfl, hsubTokens, hrest⟩ := hrest.append_inv
  obtain ⟨rfl, hname⟩ := hrest.scriptGap_inv
  obtain ⟨hlength, hprimesNested, hprimes⟩ := hprimeTokens.primes_inv
  have hsubReading := scriptReading (by decide : ('_', Script.sub) ∈ _) hsub hsubTokens
  have hbaseReading := hbase.argument (needsParens_of_isScriptBase hkind) afterName own hown
  obtain ⟨node, hnode, himage, hflat⟩ := hbaseReading.argument
  obtain ⟨subNode, supNode, hscripts, hsubImage, hsupImage⟩ :=
    exists_scriptsRead hsubReading .none primeTokens.length
  cases hsupImage
  rw [lastName_append, lastName_append, lastName_append, hname, List.append_nil]
  rw [List.append_nil] at hscripts
  have hnested := hbaseReading.nested.append (hprimesNested.append hsubReading.nested)
  have hne : primeTokens ≠ [] := by
    rintro rfl
    exact hcount hlength.symm
  refine reading_attach hnode hnested hprimes hscripts (by simp [hne]) ?_
    (image_attach himage hflat hsubImage (.some (image_primes count)))
  have hsuperscript : Scripts.superscript (.atom "'") Formula.group
      { sub := subNode, sup := none, primes := primeTokens.length } = some (.primes count) := by
    simp [Scripts.superscript, hlength, hcount, Formula.primes]
  unfold attachScripts
  rw [hsuperscript]
  cases subNode
  all_goals rfl

end Scripts

/--
Tokens that are read as this argument or cell, up to spaces.
-/
structure CellReading (tree : Formula) (part : List Token) : Prop where
  nested : Nested Whole part
  cell : ∃ node, Cell part node ∧ Image tree node ∧ Trimmed node

/--
Tokens that are read as these cells of a row, up to spaces. The separator is the only token at which
something is split.
-/
structure RowReading (isSep : Token → Bool) (separator : Lexeme) (row : List Formula)
    (part : List Token) : Prop where
  nested : Nested (fun token => Whole token ∨ token.lexeme = separator) part
  row : ∃ nodes, Row isSep part nodes [] ∧ List.Forall₂ Image row nodes

/--
A piece that is a separator.
-/
structure Separator (text : String) (lexeme : Lexeme) (isSep : Token → Bool) : Prop where
  lex : lex text.toList = [lexeme]
  isSep : ∀ token : Token, token.lexeme = lexeme → isSep token
  isOpen : ∀ token : Token, token.lexeme = lexeme → token.isOpen = false
  isClose : ∀ token : Token, token.lexeme = lexeme → token.isClose = false

section Cells

variable {style : Style} {words : Vocabulary} {afterName : Bool} {tree : Formula}
  {first : Token} {tokens gap rest part : List Token} {parts : List (List Token)}
  {row : List Formula} {isSep : Token → Bool} {separator : String} {lexeme : Lexeme}

theorem separator_comma : Separator "," (.element, ",") Token.isComma :=
  ⟨lex_single_mark (by decide : ',' ∈ pieceMarks), fun _ h => is_iff.mpr h,
    fun _ h => is_eq_false_iff.mpr (by simp [h]), fun _ h => is_eq_false_iff.mpr (by simp [h])⟩

theorem separator_semicolon : Separator ";" (.element, ";") Token.isSemicolon :=
  ⟨lex_single_mark (by decide : ';' ∈ pieceMarks), fun _ h => is_iff.mpr h,
    fun _ h => is_eq_false_iff.mpr (by simp [h]), fun _ h => is_eq_false_iff.mpr (by simp [h])⟩

theorem separator_alignment : Separator "&" (.control, "&") Token.isAlignment :=
  ⟨(lex_control (by decide : '&' ∈ _)).trans (congrArg _ lex_nil), fun _ h => is_iff.mpr h,
    fun _ h => is_eq_false_iff.mpr (by simp [h]), fun _ h => is_eq_false_iff.mpr (by simp [h])⟩

theorem Whole.is_eq_false {token : Token} (h : Whole token) {lexeme : Lexeme}
    (hmem : lexeme ∈ splitting) : token.is lexeme.1 lexeme.2 = false := by
  rw [is_eq_false_iff]
  intro heq
  rw [Whole, heq] at h
  exact h hmem

theorem Nested.drop_gap (hgap : IsGap gap) (h : Nested Whole (gap ++ rest)) : Nested Whole rest := by
  induction gap with
  | nil => exact h
  | cons token gap ih =>
    rw [IsGap, List.forall_mem_cons] at hgap
    exact ih hgap.2 (h.cons_inv (whole_of_isSpace hgap.1).2.1).2

theorem namedArgument?_eq_none (hgap : IsGap gap) (hfirst : Begins first)
    (h : Nested Whole (gap ++ first :: rest)) : namedArgument? (gap ++ first :: rest) = none := by
  have hnested := h.drop_gap hgap
  have hblanks : Token.countFront Token.isSpace (gap ++ first :: rest) = gap.length := by
    rw [Token.countFront, List.takeWhile_append_of_pos hgap, List.takeWhile_cons_of_neg,
      List.append_nil]
    simp [hfirst.isSpace]
  unfold namedArgument?
  rw [hblanks]
  simp only [List.drop_left]
  cases rest with
  | nil => rfl
  | cons colon rest =>
    dsimp only
    rw [if_neg]
    intro hnamed
    rw [Bool.and_eq_true] at hnamed
    cases hopen : first.isOpen with
    | true =>
      obtain ⟨kind, text, span⟩ := first
      cases is_iff.mp hopen
      simp at hnamed
    | false =>
      have hmore := (hnested.cons_inv hopen).2
      have hcolon : colon.isOpen = false := by
        rw [Token.isOpen, is_eq_false_iff, is_iff.mp hnamed.2]
        decide
      have hwhole := (hmore.cons_inv hcolon).1
      have hnot := hwhole.is_eq_false (by decide : (.element, ":") ∈ splitting)
      rw [hnamed.2] at hnot
      contradiction

theorem isBlankPart_eq_false (hfirst : Begins first)
    : isBlankPart (gap ++ first :: rest) = false := by
  simp [isBlankPart, hfirst.isSpace]

theorem Reading.cellReading {name : Bool} {trees : List Formula} {front : List Token}
    (hreading : Reading name trees (front ++ first :: rest)) (hfront : IsGap front)
    (hfirst : Begins first) (hne : trees ≠ []) (hempty : (Formula.ofList trees).isEmpty = false)
    (hgap : IsGap gap) : CellReading (Formula.ofList trees) (front ++ first :: rest ++ gap) := by
  obtain ⟨nodes, hnodes, himages⟩ := hreading.reads
  have hnested := hreading.nested.append (nested_gap hgap)
  have hall := himages.append (images_spaces (@isSpace_of_mem_spacesOf gap))
  rw [List.append_nil] at hall
  have himage := hall.image_cell hne
  refine ⟨hnested, _, ⟨⟨?_, ?_⟩, ?_, ?_⟩, himage, trimmed_ofList hall.flat⟩
  . rw [Parser.cell, hnodes.sequence_gap hgap]
    rfl
  . rw [List.append_assoc] at hnested ⊢
    exact namedArgument?_eq_none hfront hfirst hnested
  . rw [List.append_assoc]
    exact isBlankPart_eq_false hfirst
  . by_contra hnode
    rw [Bool.not_eq_false] at hnode
    rw [← himage.withoutSpaces] at hempty
    cases hcell : Formula.ofList (trimSpaces (nodes ++ spacesOf gap)) with
    | empty =>
      rw [hcell, withoutSpaces] at hempty <;> contradiction
    | _ =>
      rw [hcell] at hnode
      contradiction

theorem Readable.cellReading (hread : Readable style tree) (htree : Regular style words tree)
    (h : Spells afterName (tree.spelling style) tokens) (hgap : IsGap gap)
    : CellReading tree (tokens ++ gap) := by
  have hreading := hread.reading afterName tokens h
  rw [← List.append_nil (spelling style tree)] at h
  obtain ⟨front, first, rest, rfl, hopening, _⟩ := htree.opening h
  have hempty := htree.isEmpty
  rw [← hread.ofList] at hempty
  have hcell := hreading.cellReading hopening.isGap hopening.begins hread.nonempty hempty hgap
  rwa [hread.ofList] at hcell

theorem Separator.exists_joined {α : Type} {spell : α → List Piece} {r : α → List Token → Prop}
    {p : Token → Prop} (hseparator : Separator separator lexeme isSep)
    (hp : ∀ token, p token → isSep token = false) {items : List α} (hne : items ≠ [])
    (hitem : ∀ item ∈ items, ∀ afterName tokens gap, Spells afterName (spell item) tokens →
      IsGap gap → r item (tokens ++ gap))
    (hnested : ∀ item part, r item part → Nested p part)
    (h : Spells afterName (separated [.token separator] (items.map spell)) tokens)
    (hgap : IsGap gap)
    : ∃ parts, Joined isSep (tokens ++ gap) parts ∧ List.Forall₂ r items parts ∧
      Nested (fun token => p token ∨ token.lexeme = lexeme) (tokens ++ gap) := by
  have hpart : ∀ {item part}, r item part → Nested (isSep · = false) part :=
    fun hpart => (hnested _ _ hpart).mono hp
  induction items generalizing afterName tokens with
  | nil => contradiction
  | cons item items ih =>
    rw [List.forall_mem_cons] at hitem
    cases items with
    | nil =>
      have hsingle : separated [.token separator] ([item].map spell) = spell item :=
        List.append_nil _
      rw [hsingle] at h
      have hr := hitem.1 afterName tokens gap h hgap
      exact ⟨_, .last (hpart hr), .cons hr .nil, (hnested _ _ hr).mono fun _ => .inl⟩
    | cons next items =>
      rw [List.map_cons, List.map_cons, separated_cons] at h
      obtain ⟨own, rest, rfl, hown, hrest⟩ := Spells.append_inv h
      obtain ⟨before, token, rest, rfl, hbefore, htoken, hrest, _⟩ :=
        hrest.single_inv hseparator.lex
      have hr := hitem.1 afterName own before hown hbefore
      obtain ⟨parts, hjoined, hparts, hmore⟩ := ih (List.cons_ne_nil _ _) hitem.2 hrest
      have hopen := hseparator.isOpen token htoken
      have hclose := hseparator.isClose token htoken
      have hassoc : own ++ (before ++ token :: rest) ++ gap =
          own ++ before ++ token :: (rest ++ gap) := by
        simp
      rw [hassoc]
      refine ⟨_, .cons (hpart hr) (hseparator.isSep token htoken) hopen hclose hjoined,
        .cons hr hparts, ?_⟩
      exact ((hnested _ _ hr).mono fun _ => .inl).append (.cons hopen hclose (.inr htoken) hmore)

end Cells

end Typst
end MathMarkup
