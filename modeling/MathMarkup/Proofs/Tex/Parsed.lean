import MathMarkup.Proofs.Tex.Brackets
import MathMarkup.Proofs.Tex.Element

/-!
This module contains the shape of the formulas that the parser builds. `Parsed` has one case for
each way in which it makes a node, with the tables and tokens that it consulted. Every function of
the parser is shown to answer formulas of that shape only, and to use tokens that nest: each
construct is read up to a partner that is searched for on its own, and the constructs fit into each
other. What holds of all formulas that can be read is then proved by induction on the shape, without
looking at the parser again.
-/

namespace MathMarkup

/--
All scripts found so far have the property.
-/
structure Scripts.All {α : Type} (q : α → Prop) (found : Scripts α) : Prop where
  sub : ∀ node ∈ found.sub, q node
  sup : ∀ node ∈ found.sup, q node

namespace Scripts

variable {α : Type} {q : α → Prop} {found : Scripts α}

theorem all_primes (primes : Nat) : All q { primes } :=
  ⟨nofun, nofun⟩

theorem All.insert {node : α} (h : found.All q) (hnode : q node) (place : Script)
    : (found.insert node place).All q := by
  cases place with
  | sub => exact ⟨by rintro _ ⟨⟩; exact hnode, h.sup⟩
  | sup => exact ⟨h.sub, by rintro _ ⟨⟩; exact hnode⟩

theorem All.addPrimes (h : found.All q) (count : Nat) : (found.addPrimes count).All q :=
  ⟨h.sub, h.sup⟩

theorem forall_mem_superscript {prime : α} {group : List α → α} (hprime : q prime)
    (hgroup : ∀ nodes, (∀ node ∈ nodes, q node) → q (group nodes))
    (h : ∀ node ∈ found.sup, q node) : ∀ node ∈ found.superscript prime group, q node := by
  unfold superscript
  split
  . exact h
  . rintro _ ⟨⟩
    apply hgroup
    intro node hnode
    cases List.mem_append.1 hnode with
    | inl hmark => exact List.eq_of_mem_replicate hmark ▸ hprime
    | inr hsup => exact h node (Option.mem_toList.1 hsup)

end Scripts

namespace Tex

def textualCommands : List String :=
  ["text", "operatorname", "operatorname*", "hspace"]

/--
A delimiter that is written after `\left` or `\right`, and is not the invisible one.
-/
def Fence (p : Token → Prop) (delim : String) : Prop :=
  ∃ token, p token ∧ token.isDelimiter ∧ token.text = delim ∧ delim ≠ "."

/--
The formulas that the parser builds from tokens with the property `p`. Separators are nodes only
within the braces of an environment, where `inEnv` is set.
-/
inductive Parsed (p : Token → Prop) : (inEnv : Bool) → Formula → Prop where
  | element {inEnv : Bool} {token : Token} (htoken : p token) (hkind : token.kind = .element)
    : Parsed p inEnv (.element token.text)
  | text {inEnv : Bool} (text : String) : Parsed p inEnv (.text text)
  | comment {inEnv : Bool} {token : Token} (htoken : p token) (hkind : token.kind = .comment)
    : Parsed p inEnv (.comment token.text)
  | space {inEnv : Bool} {token : Token} (htoken : p token) (hspace : token.isSpace)
    : Parsed p inEnv (.space token.text)
  | character {inEnv : Bool} {token : Token} (htoken : p token) (hkind : token.kind = .unknown)
    : Parsed p inEnv (.unknown token.text)
  | control {inEnv : Bool} {token : Token} (htoken : p token) (hkind : token.kind = .control)
    (hscript : token.script? = none) (htext : token.text ∉ ["\x7b", "\x7d", "&", "\\\\"])
    : Parsed p inEnv (.control token.text)
  | separator {text : String} (htext : text ∈ ["&", "\\\\"]) : Parsed p true (.control text)
  | command {inEnv : Bool} {token : Token} (htoken : p token) (hkind : token.kind = .command)
    (harity : Symbol.arity? token.name = none) (hname : Symbol.toTypst? token.name = none)
    : Parsed p inEnv (.unknown token.text)
  | symbol {inEnv : Bool} {name : String} (harity : Symbol.arity? name = none)
    (hname : (Symbol.toTypst? name).isSome) : Parsed p inEnv (.symbol name)
  | raw {inEnv : Bool} {name : String} (hname : name ∈ textualCommands) (text : String)
    : Parsed p inEnv (.func name [.text text] none)
  | func {inEnv : Bool} {name : String} {arity : Symbol.Arity} {args : List Formula}
    (hname : name ∉ textualCommands) (harity : Symbol.arity? name = some arity)
    (hlength : args.length = arity.toNat) (hargs : ∀ arg ∈ args, Parsed p inEnv arg)
    : Parsed p inEnv (.func name args none)
  | root {inEnv : Bool} {arg degree : Formula} (harg : Parsed p inEnv arg)
    (hdegree : Parsed p inEnv degree) : Parsed p inEnv (.func "sqrt" [arg] (some degree))
  | empty {inEnv : Bool} : Parsed p inEnv .empty
  | group {inEnv : Bool} {nodes : List Formula} (hlength : 2 ≤ nodes.length)
    (hnodes : ∀ node ∈ nodes, Parsed p inEnv node) : Parsed p inEnv (.group nodes)
  | attach {inEnv : Bool} {base : Formula} {found : Scripts Formula} {sup : Option Formula}
    (hbase : Parsed p inEnv base) (hsub : ∀ node ∈ found.sub, Parsed p inEnv node)
    (hsup : ∀ node ∈ found.sup, Parsed p inEnv node)
    (heq : found.superscript (.element "'") .group = sup)
    (hsome : found.sub.isSome ∨ sup.isSome) : Parsed p inEnv (.attach base found.sub sup)
  | leftRight {inEnv : Bool} {left right : Option String} {body : Formula}
    (hleft : ∀ delim ∈ left, Fence p delim) (hright : ∀ delim ∈ right, Fence p delim)
    (hbody : Parsed p inEnv body) : Parsed p inEnv (.leftRight left body right)
  | env {inEnv : Bool} {name : String} {spec : Option String} {rows : List (List Formula)}
    (hspec : spec.isSome → name = "array") (hrows : rows ≠ []) (hrow : ∀ row ∈ rows, row ≠ [])
    (hcells : ∀ row ∈ rows, ∀ cell ∈ row, Parsed p true cell) : Parsed p inEnv (.env name spec rows)

variable {p : Token → Prop} {inEnv : Bool} {tokens : List Token}

theorem parsed_ofList {nodes : List Formula} (h : ∀ node ∈ nodes, Parsed p inEnv node)
    : Parsed p inEnv (.ofList nodes) := by
  match nodes with
  | [] => exact .empty
  | [node] => exact h node (List.mem_singleton_self node)
  | first :: second :: nodes => exact .group (by simp) h

theorem parsed_attachScripts {found : Scripts Formula} {base : Formula}
    (hbase : Parsed p inEnv base) (h : found.All (Parsed p inEnv))
    : Parsed p inEnv (attachScripts found base) := by
  unfold attachScripts
  split
  . exact hbase
  . rename_i hnone
    refine .attach hbase h.sub h.sup rfl ?_
    by_cases hsub : found.sub = none
    . exact .inr (Option.isSome_iff_ne_none.2 (hnone hsub))
    . exact .inl (Option.isSome_iff_ne_none.2 hsub)

namespace GridItem

/--
The nodes of the body of an environment have the shape.
-/
def AllParsed (p : Token → Prop) (items : List GridItem) : Prop :=
  ∀ node, .node node ∈ items → Parsed p true node

variable {items : List GridItem} {item : GridItem}

theorem allParsed_nil : AllParsed p [] :=
  nofun

theorem AllParsed.tail (h : AllParsed p (item :: items)) : AllParsed p items :=
  fun node hnode => h node (List.mem_cons_of_mem item hnode)

theorem AllParsed.cons_node {node : Formula} (hnode : Parsed p true node)
    (h : AllParsed p items) : AllParsed p (.node node :: items) := by
  intro other hother
  cases hother with
  | head => exact hnode
  | tail _ hother => exact h other hother

theorem AllParsed.cons_separator {token : Token} (heq : ofToken? token = some item)
    (h : AllParsed p items) : AllParsed p (item :: items) := by
  intro node hnode
  cases hnode with
  | tail _ hnode => exact h node hnode
  | head => grind [ofToken?]

theorem parsed_cell {nodes : List Formula} (h : ∀ node ∈ nodes, Parsed p true node)
    : Parsed p true (cell nodes) := by
  apply parsed_ofList
  intro node hnode
  have hdrop := (List.dropWhile_sublist _).mem (List.mem_reverse.1 hnode)
  exact h node ((List.dropWhile_sublist _).mem (List.mem_reverse.1 hdrop))

theorem split_parsed (h : AllParsed p items)
    : (∀ node ∈ (split items).1, Parsed p true node) ∧
      (∀ cell ∈ (split items).2.1, Parsed p true cell) ∧
      ∀ row ∈ (split items).2.2, row ≠ [] ∧ ∀ cell ∈ row, Parsed p true cell := by
  induction items with
  | nil => simp [split]
  | cons item items ih =>
    obtain ⟨hnodes, hrow, hrows⟩ := ih h.tail
    cases item with
    | node node =>
      exact ⟨List.forall_mem_cons.2 ⟨h node List.mem_cons_self, hnodes⟩, hrow, hrows⟩
    | cellEnd =>
      exact ⟨List.forall_mem_nil _, List.forall_mem_cons.2 ⟨parsed_cell hnodes, hrow⟩, hrows⟩
    | rowEnd =>
      refine ⟨List.forall_mem_nil _, List.forall_mem_nil _,
        List.forall_mem_cons.2 ⟨⟨List.cons_ne_nil _ _, ?_⟩, hrows⟩⟩
      exact List.forall_mem_cons.2 ⟨parsed_cell hnodes, hrow⟩

theorem rows_parsed (h : AllParsed p items)
    : rows items ≠ [] ∧ ∀ row ∈ rows items, row ≠ [] ∧ ∀ cell ∈ row, Parsed p true cell := by
  obtain ⟨hnodes, hrow, hrows⟩ := split_parsed h
  have hall : ∀ row ∈ (cell (split items).1 :: (split items).2.1) :: (split items).2.2,
      row ≠ [] ∧ ∀ cell ∈ row, Parsed p true cell := by
    refine List.forall_mem_cons.2 ⟨⟨List.cons_ne_nil _ _, ?_⟩, hrows⟩
    exact List.forall_mem_cons.2 ⟨parsed_cell hnodes, hrow⟩
  simp only [rows]
  split
  . rename_i hdrop
    refine ⟨?_, fun row hmem => hall row ((List.dropLast_sublist _).mem hmem)⟩
    -- The last row is only dropped when another one stands before it.
    cases hfurther : (split items).2.2 with
    | nil => simp [hfurther] at hdrop
    | cons row rows => simp [List.dropLast]
  . exact ⟨List.cons_ne_nil _ _, hall⟩

end GridItem

section Sublists

theorem forall_mem_drop (h : ∀ token ∈ tokens, p token) (count : Nat)
    : ∀ token ∈ tokens.drop count, p token :=
  fun token htoken => h token (List.mem_of_mem_drop htoken)

theorem forall_mem_take (h : ∀ token ∈ tokens, p token) (count : Nat)
    : ∀ token ∈ tokens.take count, p token :=
  fun token htoken => h token (List.mem_of_mem_take htoken)

end Sublists

theorem yields_delimiter (inEnv : Bool) (owner : Token) (h : ∀ token ∈ tokens, p token)
    : Yields (delimiter owner tokens) fun (delim, used) =>
        (∀ text ∈ delim, Fence p text) ∧ Nests inEnv (tokens.take used) := by
  simp only [delimiter]
  split
  . exact yields_error _
  next token rest heq =>
    have htoken : p token := forall_mem_drop h _ token (heq ▸ List.mem_cons_self)
    split
    next hdelimiter =>
      refine yields_ok ⟨?_, (nests_blanks tokens).take_add
        (nests_take_one heq (isPlain_of_isDelimiter hdelimiter))⟩
      intro text htext
      split at htext
      . contradiction
      next hpoint =>
        cases htext
        exact ⟨token, htoken, hdelimiter, rfl, by simpa using hpoint⟩
    next => exact yields_error _

theorem Token.script?_eq_none {token : Token} (h : ¬token.endsArgument) : token.script? = none := by
  grind [Token.endsArgument, Token.script?, Script.ofMarker?]

theorem parsed_root {name : String} {arity : Symbol.Arity} {args degree : List Formula}
    (hsqrt : name == "sqrt") (harity : Symbol.arity? name = some arity)
    (hlength : args.length = arity.toNat) (hargs : ∀ arg ∈ args, Parsed p inEnv arg)
    (hdegree : ∀ node ∈ degree, Parsed p inEnv node)
    : Parsed p inEnv (.func name args (some (.ofList degree))) := by
  cases eq_of_beq hsqrt
  have hone : Symbol.arity? "sqrt" = some .one := by decide +kernel
  cases harity.symm.trans hone
  obtain ⟨arg, rfl⟩ := List.length_eq_one_iff.1 hlength
  exact .root (hargs arg (List.mem_singleton_self arg)) (parsed_ofList hdegree)

/--
All commands with the property have a backslash, so that the brackets among them can be told.
-/
def AllBackslashed (p : Token → Prop) : Prop :=
  ∀ token, p token → token.IsBackslashed

namespace Parser

-- Each function answers formulas of the shape, and the tokens that it has used for them nest.
mutual

theorem yields_sequence (inEnv : Bool) (tokens : List Token) (h : ∀ token ∈ tokens, p token)
    : Yields (sequence inEnv tokens) fun nodes =>
        (∀ node ∈ nodes, Parsed p inEnv node) ∧ (AllBackslashed p → Nests inEnv tokens) := by
  cases tokens with
  | nil =>
    rw [sequence]
    exact yields_ok ⟨by simp, fun _ => nests_nil⟩
  | cons token tokens =>
    obtain ⟨htoken, htokens⟩ := List.forall_mem_cons.1 h
    rw [sequence]
    refine (yields_expr inEnv token tokens htoken htokens).bind ?_
    rintro ⟨node, used⟩ ⟨hnode, hnests⟩
    refine (yields_sequence inEnv (tokens.drop used) (forall_mem_drop htokens used)).bind ?_
    rintro nodes ⟨hnodes, hrest⟩
    refine yields_ok ⟨List.forall_mem_cons.2 ⟨hnode, hnodes⟩, fun hp => ?_⟩
    rw [← List.take_append_drop used tokens]
    exact (hnests hp).append (hrest hp)
termination_by 8 * tokens.length + 5
decreasing_by all_goals (subst_vars; simp only [List.length_cons, List.length_drop]; omega)

theorem yields_items (tokens : List Token) (h : ∀ token ∈ tokens, p token)
    : Yields (items tokens) fun items =>
        GridItem.AllParsed p items ∧ (AllBackslashed p → Nests true tokens) := by
  cases tokens with
  | nil =>
    rw [items]
    exact yields_ok ⟨GridItem.allParsed_nil, fun _ => nests_nil⟩
  | cons token tokens =>
    obtain ⟨htoken, htokens⟩ := List.forall_mem_cons.1 h
    rw [items]
    split
    next item hitem =>
      refine (yields_items tokens htokens).bind ?_
      rintro rest ⟨hrest, hnests⟩
      have hedge := edge?_of_isSeparator (isSeparator_of_ofToken? hitem)
      exact yields_ok ⟨hrest.cons_separator hitem,
        fun hp => (nests_token hedge fun _ => rfl).append (hnests hp)⟩
    next =>
      refine (yields_expr true token tokens htoken htokens).bind ?_
      rintro ⟨node, used⟩ ⟨hnode, hnests⟩
      refine (yields_items (tokens.drop used) (forall_mem_drop htokens used)).bind ?_
      rintro rest ⟨hrest, hmore⟩
      refine yields_ok ⟨hrest.cons_node hnode, fun hp => ?_⟩
      rw [← List.take_append_drop used tokens]
      exact (hnests hp).append (hmore hp)
termination_by 8 * tokens.length + 5
decreasing_by all_goals (subst_vars; simp only [List.length_cons, List.length_drop]; omega)

theorem yields_expr (inEnv : Bool) (token : Token) (tokens : List Token) (htoken : p token)
    (h : ∀ token ∈ tokens, p token)
    : Yields (expr inEnv token tokens) fun (node, used) =>
        Parsed p inEnv node ∧ (AllBackslashed p → Nests inEnv (token :: tokens.take used)) := by
  rw [expr]
  split
  next place hplace =>
    refine (yields_script inEnv {} place token tokens (Scripts.all_primes 0) h).bind ?_
    rintro ⟨found, used⟩ ⟨hfound, hscript⟩
    refine (yields_scripts inEnv found (tokens.drop used) hfound (forall_mem_drop h used)).bind ?_
    rintro ⟨found, more⟩ ⟨hfound, hscripts⟩
    exact yields_ok ⟨parsed_attachScripts .empty hfound,
      fun hp => ((hscript hp).take_add (hscripts hp)).cons (isPlain_of_script? hplace)⟩
  next hscript =>
    refine (yields_atom inEnv token tokens htoken hscript h).bind ?_
    rintro ⟨base, used⟩ ⟨hbase, hnests⟩
    refine (yields_scripts inEnv _ (tokens.drop (used + _)) (Scripts.all_primes _)
      (forall_mem_drop h _)).bind ?_
    rintro ⟨found, more⟩ ⟨hfound, hscripts⟩
    refine yields_ok ⟨parsed_attachScripts hbase hfound, fun hp => ?_⟩
    rw [← List.drop_drop] at hscripts
    rw [Nat.add_assoc, List.take_add]
    exact (hnests hp).append ((nests_primes (tokens.drop used)).take_add (hscripts hp))
termination_by 8 * tokens.length + 12
decreasing_by all_goals (simp -failIfUnchanged only [List.length_drop]; omega)

theorem yields_scripts (inEnv : Bool) (found : Scripts Formula) (tokens : List Token)
    (hfound : found.All (Parsed p inEnv)) (h : ∀ token ∈ tokens, p token)
    : Yields (scripts inEnv found tokens) fun (found, used) =>
        found.All (Parsed p inEnv) ∧ (AllBackslashed p → Nests inEnv (tokens.take used)) := by
  cases tokens with
  | nil =>
    rw [scripts]
    exact yields_ok ⟨hfound, fun _ => nests_nil⟩
  | cons token tokens =>
    obtain ⟨-, htokens⟩ := List.forall_mem_cons.1 h
    rw [scripts]
    split
    . exact yields_ok ⟨hfound, fun _ => nests_nil⟩
    next place hplace =>
      refine (yields_script inEnv found place token tokens hfound htokens).bind ?_
      rintro ⟨found, used⟩ ⟨hfound, hscript⟩
      refine (yields_scripts inEnv found (tokens.drop used) hfound
        (forall_mem_drop htokens used)).bind ?_
      rintro ⟨found, more⟩ ⟨hfound, hscripts⟩
      refine yields_ok ⟨hfound, fun hp => ?_⟩
      rw [Nat.add_assoc, Nat.add_comm 1, List.take_succ_cons]
      exact ((hscript hp).take_add (hscripts hp)).cons (isPlain_of_script? hplace)
termination_by 8 * tokens.length + 5
decreasing_by all_goals (subst_vars; simp only [List.length_cons, List.length_drop]; omega)

theorem yields_script (inEnv : Bool) (found : Scripts Formula) (place : Script) (owner : Token)
    (tokens : List Token) (hfound : found.All (Parsed p inEnv)) (h : ∀ token ∈ tokens, p token)
    : Yields (script inEnv found place owner tokens) fun (found, used) =>
        found.All (Parsed p inEnv) ∧ (AllBackslashed p → Nests inEnv (tokens.take used)) := by
  rw [script]
  split
  . exact yields_error _
  . refine (yields_argument inEnv owner tokens h).bind ?_
    rintro ⟨node, used⟩ ⟨hnode, hnests⟩
    cases place with
    | sup => exact yields_ok ⟨hfound.insert hnode .sup, hnests⟩
    | sub =>
      exact yields_ok ⟨(hfound.insert hnode .sub).addPrimes _,
        fun hp => (hnests hp).take_add (nests_primes (tokens.drop used))⟩
termination_by 8 * tokens.length + 4
decreasing_by all_goals omega

theorem yields_atom (inEnv : Bool) (token : Token) (tokens : List Token) (htoken : p token)
    (hscript : token.script? = none) (h : ∀ token ∈ tokens, p token)
    : Yields (atom inEnv token tokens) fun (node, used) =>
        Parsed p inEnv node ∧ (AllBackslashed p → Nests inEnv (token :: tokens.take used)) := by
  have hplain (hkind : token.kind ≠ .control ∧ token.kind ≠ .command)
      : AllBackslashed p → Nests inEnv (token :: tokens.take 0) :=
    fun _ => nests_nil.cons (isPlain_of_kind hkind)
  unfold atom
  split
  next hkind => exact yields_ok ⟨.element htoken hkind, hplain (by simp [hkind])⟩
  next hkind => exact yields_ok ⟨.text _, hplain (by simp [hkind])⟩
  next hkind => exact yields_ok ⟨.comment htoken hkind, hplain (by simp [hkind])⟩
  next hkind =>
    exact yields_ok ⟨.space htoken (by simp [Token.isSpace, hkind]), hplain (by simp [hkind])⟩
  next hkind =>
    exact yields_ok ⟨.space htoken (by simp [Token.isSpace, hkind]), hplain (by simp [hkind])⟩
  next hkind => exact yields_ok ⟨.character htoken hkind, hplain (by simp [hkind])⟩
  next hkind => exact yields_command inEnv token tokens htoken hkind h
  next hkind =>
    split
    next htext =>
      split
      . exact yields_error _
      next size closer hclosing =>
        refine (yields_sequence inEnv (tokens.take size) (forall_mem_take h size)).bind ?_
        rintro nodes ⟨hnodes, hnests⟩
        refine yields_ok ⟨parsed_ofList hnodes, fun hp => ?_⟩
        refine nests_closing .brace (by decide) [] 0 ?_ hclosing (absurd · (by decide)) ?_ nests_nil
        . rw [Token.lexeme, hkind, htext]
          rfl
        . change Nests (inEnv || false) (tokens.take size)
          rw [Bool.or_false]
          exact hnests hp
    next => exact yields_error _
    next htext =>
      split
      next hinEnv =>
        subst hinEnv
        refine yields_ok ⟨.separator (by decide), fun _ => ?_⟩
        exact nests_token (edge?_control hkind (by simp [htext])) fun _ => rfl
      next => exact yields_error _
    next htext =>
      split
      next hinEnv =>
        subst hinEnv
        refine yields_ok ⟨.separator (by decide), fun _ => ?_⟩
        exact nests_token (edge?_control hkind (by simp [htext])) fun _ => rfl
      next => exact yields_error _
    next hopening hclosing hcell hrow =>
      refine yields_ok ⟨.control htoken hkind hscript (by simp_all), fun _ => ?_⟩
      refine nests_token (edge?_control hkind (by simp_all)) ?_
      simp_all [Token.isSeparator, Token.is]
termination_by 8 * tokens.length + 10
decreasing_by all_goals (simp -failIfUnchanged only [List.length_take]; omega)

theorem yields_command (inEnv : Bool) (token : Token) (tokens : List Token) (htoken : p token)
    (hkind : token.kind = .command) (h : ∀ token ∈ tokens, p token)
    : Yields (command inEnv token tokens) fun (node, used) =>
        Parsed p inEnv node ∧ (AllBackslashed p → Nests inEnv (token :: tokens.take used)) := by
  unfold command
  split
  next hname =>
    have hleft (hp : AllBackslashed p) := lexeme_of_name (hp token htoken) hkind hname
    exact yields_leftRight inEnv token tokens hleft h
  . exact yields_error _
  next hname =>
    have hstart (hp : AllBackslashed p) := lexeme_of_name (hp token htoken) hkind hname
    exact yields_environment inEnv token tokens hstart h
  . exact yields_error _
  next hleft hright hbegin hend =>
    have hplain : token.IsPlain := isPlain_command hkind (by simp_all)
    split
    next hraw =>
      refine (nests_rawArgument inEnv token tokens).bind ?_
      rintro ⟨text, used⟩ hnests
      exact yields_ok ⟨.raw (List.contains_iff_mem.1 hraw) text, fun _ => hnests.cons hplain⟩
    next hraw =>
      have hraw : token.name ∉ textualCommands := fun hmem => hraw (List.contains_iff_mem.2 hmem)
      split
      next harity =>
        refine yields_ok ⟨?_, fun _ => nests_nil.cons hplain⟩
        change Parsed p inEnv (if _ then _ else _)
        split
        . exact .symbol harity ‹_›
        . exact .command htoken hkind harity (by simp_all)
      next arity harity =>
        have harguments : Yields (do
            let (args, used) ← arguments inEnv token arity tokens
            return (Formula.func token.name args none, used)) fun (node, used) =>
              Parsed p inEnv node ∧
              (AllBackslashed p → Nests inEnv (token :: tokens.take used)) := by
          refine (yields_arguments inEnv token arity tokens h).bind ?_
          rintro ⟨args, used⟩ ⟨hlength, hargs, hnests⟩
          exact yields_ok ⟨.func hraw harity hlength hargs, fun hp => (hnests hp).cons hplain⟩
        dsimp only
        split
        next hsqrt =>
          refine (nests_degree? inEnv tokens).bind ?_
          rintro (_ | ⟨before, size⟩) hdegree
          . exact harguments
          . obtain ⟨hbefore, closer, hcloser, hdrop⟩ := hdegree before size rfl
            refine (yields_sequence inEnv ((tokens.drop before).take size)
              (forall_mem_take (forall_mem_drop h before) size)).bind ?_
            rintro degree ⟨hdegree, hinner⟩
            refine (yields_arguments inEnv token arity (tokens.drop (before + size + 1))
              (forall_mem_drop h _)).bind ?_
            rintro ⟨args, used⟩ ⟨hlength, hargs, hnests⟩
            refine yields_ok ⟨parsed_root hsqrt harity hlength hargs hdegree, fun hp => ?_⟩
            have hsize : before + size + 1 + used = before + (size + (used + 1)) := by
              omega
            rw [hsize]
            refine (hbefore.take_add ((hinner hp).take_add ?_)).cons hplain
            rw [hdrop, List.take_succ_cons]
            exact (hnests hp).cons hcloser
        next => exact harguments
termination_by 8 * tokens.length + 9
decreasing_by
  all_goals
    subst_vars
    simp -failIfUnchanged only [List.length_drop, List.length_take]
    omega

theorem yields_arguments (inEnv : Bool) (owner : Token) (arity : Symbol.Arity)
    (tokens : List Token) (h : ∀ token ∈ tokens, p token)
    : Yields (arguments inEnv owner arity tokens) fun (args, used) =>
        args.length = arity.toNat ∧ (∀ arg ∈ args, Parsed p inEnv arg) ∧
        (AllBackslashed p → Nests inEnv (tokens.take used)) := by
  cases arity with
  | one =>
    rw [arguments]
    refine (yields_argument inEnv owner tokens h).bind ?_
    rintro ⟨arg, used⟩ ⟨harg, hnests⟩
    exact yields_ok ⟨rfl, by simpa using harg, hnests⟩
  | two =>
    rw [arguments]
    refine (yields_argument inEnv owner tokens h).bind ?_
    rintro ⟨first, used⟩ ⟨hfirst, hnests⟩
    refine (yields_argument inEnv owner (tokens.drop used) (forall_mem_drop h used)).bind ?_
    rintro ⟨second, more⟩ ⟨hsecond, hmore⟩
    exact yields_ok ⟨rfl, by simpa using ⟨hfirst, hsecond⟩,
      fun hp => (hnests hp).take_add (hmore hp)⟩
termination_by 8 * tokens.length + 4
decreasing_by all_goals (subst_vars; simp -failIfUnchanged only [List.length_drop]; omega)

theorem yields_argument (inEnv : Bool) (owner : Token) (tokens : List Token)
    (h : ∀ token ∈ tokens, p token)
    : Yields (argument inEnv owner tokens) fun (node, used) =>
        Parsed p inEnv node ∧ (AllBackslashed p → Nests inEnv (tokens.take used)) := by
  cases tokens with
  | nil =>
    rw [argument]
    exact yields_error _
  | cons token tokens =>
    obtain ⟨htoken, htokens⟩ := List.forall_mem_cons.1 h
    rw [argument]
    split
    next hspace =>
      refine (yields_argument inEnv owner tokens htokens).bind ?_
      rintro ⟨node, used⟩ ⟨hnode, hnests⟩
      exact yields_ok ⟨hnode, fun hp => (hnests hp).cons (isPlain_of_isSpace hspace)⟩
    next =>
      split
      . exact yields_error _
      next hends =>
        refine (yields_atom inEnv token tokens htoken (Token.script?_eq_none hends) htokens).bind ?_
        rintro ⟨node, used⟩ hnode
        exact yields_ok hnode
termination_by 8 * tokens.length + 3
decreasing_by all_goals (subst_vars; simp only [List.length_cons]; omega)

theorem yields_leftRight (inEnv : Bool) (left : Token) (tokens : List Token)
    (hleft : AllBackslashed p → left.lexeme = (.command, "\\left"))
    (h : ∀ token ∈ tokens, p token)
    : Yields (leftRight inEnv left tokens) fun (node, used) =>
        Parsed p inEnv node ∧ (AllBackslashed p → Nests inEnv (left :: tokens.take used)) := by
  rw [leftRight]
  split
  . exact yields_error _
  next size right hclosing =>
    refine (yields_delimiter inEnv left (forall_mem_take h size)).bind ?_
    rintro ⟨opening, before⟩ ⟨hopening, hbefore⟩
    refine (yields_delimiter inEnv right (forall_mem_drop h (size + 1))).bind ?_
    rintro ⟨closing, after⟩ ⟨hfence, hafter⟩
    refine (yields_sequence inEnv ((tokens.take size).drop before)
      (forall_mem_drop (forall_mem_take h size) before)).bind ?_
    rintro body ⟨hbody, hnests⟩
    refine yields_ok ⟨.leftRight hopening hfence (parsed_ofList hbody), fun hp => ?_⟩
    refine nests_closing .fence (by decide) [] after (hleft hp) hclosing (absurd · (by decide)) ?_
      hafter
    change Nests (inEnv || false) (tokens.take size)
    rw [Bool.or_false, ← List.take_append_drop before (tokens.take size)]
    exact hbefore.append (hnests hp)
termination_by 8 * tokens.length + 8
decreasing_by all_goals (simp only [List.length_drop, List.length_take]; omega)

theorem yields_environment (inEnv : Bool) (start : Token) (tokens : List Token)
    (hstart : AllBackslashed p → start.lexeme = (.command, "\\begin"))
    (h : ∀ token ∈ tokens, p token)
    : Yields (environment start tokens) fun (node, used) =>
        Parsed p inEnv node ∧ (AllBackslashed p → Nests inEnv (start :: tokens.take used)) := by
  rw [environment]
  split
  . exact yields_error _
  next name hname =>
    simp only
    split
    . exact yields_error _
    next size stop hclosing =>
      split
      . exact yields_error _
      next stopName hstopName =>
        split
        . exact yields_error _
        next heq =>
          refine (yields_items _
            (forall_mem_drop (forall_mem_take (forall_mem_drop h 3) size) _)).bind ?_
          rintro body ⟨hbody, hnests⟩
          obtain ⟨hrows, hrow⟩ := GridItem.rows_parsed hbody
          refine yields_ok ⟨.env ?_ hrows (fun row h => (hrow row h).1) fun row h =>
            (hrow row h).2, fun hp => ?_⟩
          . intro hsome
            split at hsome
            next harray => exact eq_of_beq harray
            next => contradiction
          . have hsize : size + 7 = 3 + (size + 1 + 3) := by
              omega
            rw [hsize, List.take_add]
            refine nests_closing .environment (by decide) (tokens.take 3) 3 (hstart hp) hclosing
              ?_ ?_ (nests_bracedText hstopName)
            . intro _
              refine ⟨name, bracedText?_take hname, ?_⟩
              rw [bracedText?_take hstopName]
              simpa using heq
            . rw [beq_self_eq_true, Bool.or_true]
              exact (nests_bracedText hname).append (nests_spec (hnests hp))
termination_by 8 * tokens.length + 8
decreasing_by all_goals (simp only [List.length_drop, List.length_take]; omega)

end

end Parser

theorem stripScriptSpaces_go_sublist (afterMarker : Bool) (tokens : List Token)
    : (stripScriptSpaces.go afterMarker tokens).Sublist tokens := by
  induction tokens generalizing afterMarker with
  | nil => exact .slnil
  | cons token tokens ih =>
    unfold stripScriptSpaces.go
    split
    . split
      . exact (ih afterMarker).cons token
      . exact (ih afterMarker).cons_cons token
    . exact (ih token.isMarker).cons_cons token

theorem yields_parse (h : ∀ token ∈ tokens, p token)
    : Yields (parse tokens) (Parsed p false) := by
  have hstripped : ∀ token ∈ stripScriptSpaces tokens, p token :=
    fun token htoken => h token ((stripScriptSpaces_go_sublist false tokens).mem htoken)
  refine (Parser.yields_sequence false _ hstripped).bind ?_
  rintro nodes ⟨hnodes, -⟩
  exact yields_ok (parsed_ofList hnodes)

section Spelling

theorem backslash_append_name {token : Token} (h : Spelled token.lexeme)
    (hkind : token.kind = .command) : "\\" ++ token.name = token.text := by
  simp only [Token.lexeme, hkind, Spelled] at h
  rw [← String.toList_inj]
  simp only [Token.name, String.toList_append, String.toList_ofList]
  cases hcs : token.text.toList with
  | nil => simp [hcs] at h
  | cons c cs =>
    simp only [hcs, List.head?_cons, Option.some.injEq] at h
    simp [h]

theorem yields_parseText (text : String)
    : Yields (parseText text) (Parsed (fun token => Spelled token.lexeme) false) :=
  yields_parse fun _ htoken => spelled_of_mem_tokenize htoken

end Spelling

end Tex
end MathMarkup
