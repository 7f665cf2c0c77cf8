import MathMarkup.Proofs.Convert.OfTex

/-!
This module contains what the conversion from TeX blames when it fails. Formulas do not remember
where they were read, so no error has a place yet. An error about what is unknown can be traced
nevertheless: its culprit is the text of a token that the formula was read from.
-/

namespace MathMarkup

/--
Whether a fault is about a command or a character that is unknown.
-/
def ConvertFault.isUnknown : ConvertFault → Bool
  | unknownCommand _ | unknownToken _ => true
  | _ => false

/--
An error without a place that, if it is about what is unknown, is about the text of a command or
an unknown character among the tokens with the property `p`.
-/
structure ConvertError.Blames (p : Tex.Token → Prop) (error : ConvertError) : Prop where
  unplaced : error.span = .detached
  culprit : error.fault.isUnknown → ∃ token, p token ∧
    (token.kind = .command ∨ token.kind = .unknown) ∧ token.text = error.fault.culprit

namespace Typst

open OfTex Formula

variable {options : Options} {p : Tex.Token → Prop} {q : ConvertError → Prop}

theorem blames_of_known {fault : ConvertFault} {hints : List String}
    (h : fault.isUnknown = false) : ConvertError.Blames p { fault, hints } :=
  ⟨rfl, fun hunknown => by simp [h] at hunknown⟩

section Nodes

variable {node : Tex.Formula} {args nodes : List Tex.Formula}

theorem fails_eachOfTex (h : ∀ node ∈ nodes, Fails (ofTex options node) q)
    : Fails (eachOfTex options nodes) q := by
  induction nodes with
  | nil => exact fails_ok _
  | cons node nodes ih =>
    obtain ⟨hnode, hnodes⟩ := List.forall_mem_cons.mp h
    exact hnode.bind fun _ => (ih hnodes).map _

theorem fails_rowsOfTex {rows : List (List Tex.Formula)}
    (h : ∀ row ∈ rows, ∀ cell ∈ row, Fails (ofTex options cell) q)
    : Fails (rowsOfTex options rows) q := by
  induction rows with
  | nil => exact fails_ok _
  | cons row rows ih =>
    obtain ⟨hrow, hrows⟩ := List.forall_mem_cons.mp h
    exact (fails_eachOfTex hrow).bind fun _ => (ih hrows).map _

theorem fails_optionOfTex {script : Option Tex.Formula}
    (h : ∀ node ∈ script, Fails (ofTex options node) q)
    : Fails (optionOfTex options script) q := by
  cases script with
  | none => exact fails_ok _
  | some node => exact (h node rfl).map _

theorem fails_group (h : ∀ node ∈ nodes, Fails (ofTex options node) q)
    : Fails (ofTex options (.group nodes)) q :=
  (fails_eachOfTex h).map _

theorem fails_unknown {token : Tex.Token} (htoken : p token)
    (hkind : token.kind = .command ∨ token.kind = .unknown)
    : Fails (ofTex options (.unknown token.text)) (·.Blames p) := by
  unfold ofTex OfTex.unknown
  split
  . exact .ite (fails_ok _) (fails_error ⟨rfl, fun _ => ⟨token, htoken, hkind, rfl⟩⟩)
  . exact .ite (fails_ok _) (fails_error ⟨rfl, fun _ => ⟨token, htoken, hkind, rfl⟩⟩)

theorem fails_of_exists_ok {x : Except ConvertError Formula} (h : ∃ image, x = .ok image)
    : Fails x q := by
  obtain ⟨image, rfl⟩ := h
  exact fails_ok _

theorem fails_byName {name : String} (hname : (Symbol.toTypst? name).any (· != "#h"))
    (args : List Formula) : Fails (byName options name args) q := by
  unfold byName
  cases hmapped : Symbol.toTypst? name with
  | none => simp [hmapped] at hname
  | some mapped => exact fails_ok _

theorem fails_raw {name : String} (hname : name ∈ Tex.textualCommands) (text : String)
    : Fails (ofTex options (.func name [.text text] none)) q := by
  simp only [Tex.textualCommands, List.mem_cons, List.not_mem_nil, or_false] at hname
  rcases hname with rfl | rfl | rfl | rfl
  all_goals exact fails_ok _

/--
A command that is read with arguments has a rule or a name, so only its arguments can be refused.
-/
theorem fails_func {name : String} {arity : Symbol.Arity} (hname : name ∉ Tex.textualCommands)
    (harity : Symbol.arity? name = some arity) (hlength : args.length = arity.toNat)
    (hargs : ∀ arg ∈ args, Fails (ofTex options arg) q)
    : Fails (ofTex options (.func name args none)) q := by
  have hsuits := suits_of_mem_arities _ (Symbol.mem_of_lookup harity) hname
  have htwo := exists_two hlength hargs
  have hone := exists_one hlength hargs
  unfold ofTex
  generalize Head.ofName name = head at hsuits
  cases head with
  | fraction =>
    obtain ⟨num, den, rfl, hnum, hden⟩ := htwo hsuits
    exact hnum.bind fun _ => hden.map _
  | binomial =>
    obtain ⟨n, k, rfl, hn, hk⟩ := htwo hsuits
    exact hn.bind fun _ => hk.map _
  | root =>
    obtain ⟨radicand, rfl, hradicand⟩ := hone hsuits
    exact hradicand.map _
  | bold =>
    obtain ⟨body, rfl, hbody⟩ := hone hsuits
    exact hbody.map _
  | above =>
    obtain ⟨top, base, rfl, htop, hbase⟩ := htwo hsuits
    exact .ite (fails_ok _) (hbase.bind fun _ => htop.map _)
  | below =>
    obtain ⟨bottom, base, rfl, hbottom, hbase⟩ := htwo hsuits
    exact hbase.bind fun _ => hbottom.map _
  | blackboard | roman =>
    dsimp only
    split
    all_goals first | contradiction | skip
    . exact .ite (fails_ok _) (fails_byName hsuits _)
    . exact (fails_eachOfTex hargs).bind fun _ => fails_byName hsuits _
  | other => exact (fails_eachOfTex hargs).bind fun _ => fails_byName hsuits _
  | text | operator | limitsOperator | hspace => contradiction

theorem fails_of_brace {name : String} (hname : name ∈ ["overbrace", "underbrace"])
    {body : Tex.Formula} {degree : Option Tex.Formula}
    (h : Fails (ofTex options (.func name [body] degree)) q) : Fails (ofTex options body) q := by
  intro error herror
  apply h
  rw [ofTex_brace hname, herror]
  rfl

theorem fails_attach {base : Tex.Formula} {sub sup : Option Tex.Formula}
    (hbase : Fails (ofTex options base) q) (hsub : ∀ node ∈ sub, Fails (ofTex options node) q)
    (hsup : ∀ node ∈ sup, Fails (ofTex options node) q)
    : Fails (ofTex options (.attach base sub sup)) q := by
  unfold ofTex
  split
  next body _ label =>
    exact (fails_of_brace (by decide) hbase).bind fun _ => (hsup label rfl).map _
  next body _ label =>
    exact (fails_of_brace (by decide) hbase).bind fun _ => (hsub label rfl).map _
  . exact hbase.bind fun _ => (fails_optionOfTex hsub).bind fun _ => (fails_optionOfTex hsup).map _

theorem fails_delimiter? (delim : Option String) : Fails (delimiter? delim) (·.Blames p) := by
  cases delim with
  | none => exact fails_ok _
  | some delim =>
    apply Fails.map
    unfold delimiter
    split
    case h_12 =>
      split
      . split
        . exact fails_ok _
        . exact fails_error (blames_of_known rfl)
      . exact fails_error (blames_of_known rfl)
    all_goals exact fails_ok _

theorem fails_enclose (left right : Option String) (body : Formula)
    : Fails (enclose options left right body) (·.Blames p) := by
  unfold enclose
  split
  . exact fails_ok _
  . dsimp only
    split
    . exact fails_ok _
    . exact (fails_delimiter? left).bind fun _ => (fails_delimiter? right).map _

theorem fails_environment (name : String) (spec : Option String) (rows : List (List Formula))
    : Fails (environment options name spec rows) (·.Blames p) := by
  unfold environment
  refine .ite (fails_ok _) (.ite (fails_ok _) (.ite ?_ ?_))
  . unfold array
    refine .ite (Fails.map ?_ _) (fails_error (blames_of_known rfl))
    unfold alignArgument
    dsimp only
    split
    case h_4 => exact .ite (fails_ok _) (fails_error (blames_of_known rfl))
    all_goals exact fails_ok _
  . split
    . exact fails_ok _
    . exact fails_error (blames_of_known rfl)

theorem fails_ofTex {inEnv : Bool} (hp : ∀ token, p token → Tex.Spelled token.lexeme)
    (h : Tex.Parsed p inEnv node) : Fails (ofTex options node) (·.Blames p) := by
  induction h with
  | element | text | comment | space | empty => exact fails_ok _
  | character htoken hkind => exact fails_unknown htoken (.inr hkind)
  | command htoken hkind => exact fails_unknown htoken (.inl hkind)
  | control htoken hkind hscript htext =>
    have hspelled := hp _ htoken
    simp only [Tex.Token.script?, hkind, beq_self_eq_true, if_true] at hscript
    simp only [Token.lexeme, hkind, Tex.Spelled] at hspelled
    have hcontrol := control_of_mem _ hspelled hscript (by simp_all)
    change Fails (OfTex.control _) _
    exact fails_of_exists_ok (exists_of_isSome hcontrol)
  | separator htext =>
    simp only [List.mem_cons, List.not_mem_nil, or_false] at htext
    rcases htext with rfl | rfl
    all_goals exact fails_ok _
  | symbol _ hname =>
    obtain ⟨mapped, hmapped⟩ := Option.isSome_iff_exists.1 hname
    change Fails (OfTex.symbol options _) _
    rw [OfTex.symbol, hmapped]
    exact fails_ok _
  | raw hname text => exact fails_raw hname text
  | func hname harity hlength _ ih => exact fails_func hname harity hlength ih
  | root _ _ iharg ihdegree => exact ihdegree.bind fun _ => iharg.map _
  | group _ _ ih => exact fails_group ih
  | attach _ _ _ heq _ ihbase ihsub ihsup =>
    refine fails_attach ihbase ihsub ?_
    rw [← heq]
    exact Scripts.forall_mem_superscript (fails_ok _) (fun _ => fails_group) ihsup
  | leftRight _ _ _ ih => exact ih.bind fun _ => fails_enclose _ _ _
  | env _ _ _ _ ih => exact (fails_rowsOfTex ih).bind fun _ => fails_environment _ _ _

end Nodes

end Typst
end MathMarkup
