import MathMarkup.Proofs.Scan
import MathMarkup.Proofs.Typst.Nesting
import MathMarkup.Proofs.Typst.WithoutSpaces

/-!
This module contains how the parser reads one construct after the other: for each of them, which
tokens make it up and that these are read in the same way whatever follows. Only a name depends on
what follows it, since a parenthesis directly after it makes a call.
-/

namespace MathMarkup
namespace Typst

/--
Tokens that do not call a name before them.
-/
def Unopened (name : Bool) (rest : List Token) : Prop :=
  name → ∀ token, rest.head? = some token → token.isOpen = false

/--
Tokens before which an expression ends: neither a prime nor a script marker comes next. `name` says
whether the expression ends with a name.
-/
structure Stops (name : Bool) (rest : List Token) : Prop where
  isPrime : ∀ token, rest.head? = some token → token.isPrime = false
  script? : ∀ token, rest.head? = some token → token.script? = none
  unopened : Unopened name rest

/--
A token that an expression can begin with.
-/
structure Begins (token : Token) : Prop where
  isSpace : token.isSpace = false
  isPrime : token.isPrime = false
  script? : token.script? = none
  isControl : (token.kind == .control) = false
  isClose : token.isClose = false
  isSlash : token.is .element "/" = false

/--
Tokens that are spaces.
-/
def IsGap (tokens : List Token) : Prop :=
  ∀ token ∈ tokens, token.isSpace

/--
Tokens that are read as one expression without scripts. `name` says whether they end with a name.
-/
inductive Atomic (name : Bool) : List Token → Formula → Prop where
  | intro {token : Token} {tokens : List Token} {node : Formula} (hbegins : Begins token)
    (hatom : ∀ rest, Unopened name rest →
      Parser.atom token (tokens ++ rest) = .ok (node, tokens.length)) :
    Atomic name (token :: tokens) node

/--
Tokens that are read as one expression without scripts, with spaces before it.
-/
inductive Argument (name : Bool) : List Token → Formula → Prop where
  | intro {gap tokens : List Token} {node : Formula} (hgap : IsGap gap)
    (h : Atomic name tokens node) : Argument name (gap ++ tokens) node

/--
Items that are resolved into formulas on their own.
-/
def Resolves (items : List Item) (nodes : List Formula) : Prop :=
  ∀ done rest, Item.resolve.go done none (items ++ rest) =
    Item.resolve.go (nodes.reverse ++ done) none rest

/--
Tokens that are read as formulas side by side, unless what follows belongs to the last of them.
-/
def ReadsAs (name : Bool) (tokens : List Token) (nodes : List Formula) : Prop :=
  ∃ items, Resolves items nodes ∧ ∀ rest, Stops name rest →
    Parser.items (tokens ++ rest) = (items ++ ·) <$> Parser.items rest

section Resolves

variable {items more : List Item} {nodes others : List Formula} {node num den : Formula}

theorem resolves_nil : Resolves [] [] :=
  fun _ _ => rfl

theorem Resolves.append (h : Resolves items nodes) (hmore : Resolves more others)
    : Resolves (items ++ more) (nodes ++ others) := by
  intro done rest
  rw [List.append_assoc, h, hmore, List.reverse_append, List.append_assoc]

theorem resolves_node : Resolves [.node node] [node] :=
  fun _ _ => rfl

theorem resolves_nodes (nodes : List Formula) : Resolves (nodes.map .node) nodes := by
  induction nodes with
  | nil => exact resolves_nil
  | cons node nodes ih => exact resolves_node.append ih

theorem Item.operand_parens (nodes : List Formula)
    : Item.operand (.parens nodes) = .ofList nodes :=
  rfl

theorem Item.operand_of_ne_parens {node : Formula} (h : ∀ nodes, node ≠ .parens nodes)
    : Item.operand node = node := by
  cases node with
  | parens nodes => exact absurd rfl (h nodes)
  | _ => rfl

theorem go_pending_spaces {spaces : List Formula} (h : ∀ node ∈ spaces, node.isSpace)
    (done : List Formula) (pending : Formula × Span) (rest : List Item)
    : Item.resolve.go done (some pending) (spaces.map .node ++ rest) =
      Item.resolve.go done (some pending) rest := by
  induction spaces with
  | nil => rfl
  | cons space spaces ih =>
    rw [List.forall_mem_cons] at h
    rw [List.map_cons, List.cons_append, Item.resolve.go, if_pos h.1]
    exact ih h.2

theorem resolves_frac {span : Span} {spaces : List Formula} (hnum : num.isSpace = false)
    (hden : den.isSpace = false) (hspaces : ∀ node ∈ spaces, node.isSpace)
    : Resolves (.node num :: .slash span :: (spaces.map .node ++ [.node den]))
      [.frac (Item.operand num) (Item.operand den)] := by
  intro done rest
  have hdrop : (num :: done).dropWhile Formula.isSpace = num :: done :=
    List.dropWhile_cons_of_neg (by simp [hnum])
  rw [List.cons_append, List.cons_append, List.append_assoc, Item.resolve.go, Item.resolve.go, hdrop]
  dsimp only
  rw [go_pending_spaces hspaces, List.singleton_append, Item.resolve.go, if_neg (by simp [hden])]
  rfl

theorem Resolves.resolve_eq (h : Resolves items nodes) : Item.resolve items = .ok nodes := by
  have hgo := h [] []
  rw [List.append_nil, List.append_nil] at hgo
  rw [Item.resolve, hgo, Item.resolve.go, List.reverse_reverse]

end Resolves

section Reads

variable {name other : Bool} {token owner : Token} {tokens more rest gap : List Token}
  {node : Formula} {nodes others : List Formula}

theorem stops_nil : Stops name [] :=
  ⟨nofun, nofun, nofun⟩

theorem Begins.stops (h : Begins token) (hopen : Unopened name (token :: tokens))
    : Stops name (token :: tokens) := by
  refine ⟨?_, ?_, hopen⟩
  . rintro _ ⟨⟩
    exact h.isPrime
  . rintro _ ⟨⟩
    exact h.script?

theorem countFront_of_stops (h : Stops name rest) : Token.countFront Token.isPrime rest = 0 := by
  cases rest with
  | nil => rfl
  | cons token rest => simp [Token.countFront, h.isPrime token rfl]

theorem scripts_of_stops (h : Stops name rest) (found : Scripts Formula)
    : Parser.scripts found rest = .ok (found, 0) := by
  cases rest with
  | nil => rw [Parser.scripts]
  | cons token rest => rw [Parser.scripts, h.script? token rfl]

theorem expr_of_atom (hscript : token.script? = none) (hrest : Stops name rest)
    (h : Parser.atom token (tokens ++ rest) = .ok (node, tokens.length))
    : Parser.expr token (tokens ++ rest) = .ok (node, tokens.length) := by
  rw [Parser.expr, hscript]
  simp only [h, bind, Except.bind, List.drop_left, countFront_of_stops hrest, Nat.add_zero,
    scripts_of_stops hrest]
  rfl

theorem readsAs_nil : ReadsAs name [] [] :=
  ⟨[], resolves_nil, fun _ _ => by simp⟩

theorem ReadsAs.append (h : ReadsAs name tokens nodes) (hmore : ReadsAs other more others)
    (hstops : ∀ rest, Stops other rest → Stops name (more ++ rest))
    : ReadsAs other (tokens ++ more) (nodes ++ others) := by
  obtain ⟨items, hitems, htokens⟩ := h
  obtain ⟨moreItems, hmoreItems, hmoreTokens⟩ := hmore
  refine ⟨items ++ moreItems, hitems.append hmoreItems, fun rest hrest => ?_⟩
  rw [List.append_assoc, htokens _ (hstops rest hrest), hmoreTokens _ hrest]
  simp

theorem items_of_expr (hslash : token.is .element "/" = false)
    (h : Parser.expr token (tokens ++ rest) = .ok (node, tokens.length))
    : Parser.items (token :: tokens ++ rest) = ([.node node] ++ ·) <$> Parser.items rest := by
  rw [List.cons_append, Parser.items, hslash, h]
  simp only [bind, Except.bind, List.drop_left]
  rfl

theorem readsAs_of_expr (hslash : token.is .element "/" = false)
    (h : ∀ rest, Stops name rest → Parser.expr token (tokens ++ rest) = .ok (node, tokens.length))
    : ReadsAs name (token :: tokens) [node] :=
  ⟨[.node node], resolves_node, fun rest hrest => items_of_expr hslash (h rest hrest)⟩

theorem Atomic.items_eq (h : Atomic name tokens node) (hrest : Stops name rest)
    : Parser.items (tokens ++ rest) = ([.node node] ++ ·) <$> Parser.items rest := by
  cases h with
  | intro hbegins hatom =>
    exact items_of_expr hbegins.isSlash
      (expr_of_atom hbegins.script? hrest (hatom rest hrest.unopened))

theorem Atomic.readsAs (h : Atomic name tokens node) : ReadsAs name tokens [node] :=
  ⟨[.node node], resolves_node, fun _ hrest => h.items_eq hrest⟩

theorem kind_of_isSpace (h : token.isSpace) : token.kind = .space ∨ token.kind = .newline := by
  simpa [Token.isSpace] using h

theorem stops_space (h : token.isSpace) : Stops name (token :: tokens) := by
  have hplain : token.isPrime = false ∧ token.script? = none ∧ token.isOpen = false := by
    rcases kind_of_isSpace h with hkind | hkind
    all_goals simp [Token.isPrime, Token.script?, Token.isOpen, Token.is, hkind]
  constructor
  . rintro _ ⟨⟩
    exact hplain.1
  . rintro _ ⟨⟩
    exact hplain.2.1
  . rintro _ _ ⟨⟩
    exact hplain.2.2

theorem items_space (h : token.isSpace) (hrest : Stops false rest)
    : Parser.items (token :: rest) =
      ([.node (.space token.text)] ++ ·) <$> Parser.items rest := by
  have hslash : token.is .element "/" = false := by
    rcases kind_of_isSpace h with hkind | hkind
    all_goals simp [Token.is, hkind]
  have hatom : Parser.atom token rest = .ok (.space token.text, 0) := by
    unfold Parser.atom
    rcases kind_of_isSpace h with hkind | hkind
    all_goals rw [hkind]
  have hscript : token.script? = none := (@stops_space false token [] h).script? token rfl
  exact @items_of_expr token [] rest _ hslash (expr_of_atom hscript hrest hatom)

theorem stops_gap (hgap : IsGap gap) (hrest : Stops name rest) : Stops name (gap ++ rest) := by
  cases gap with
  | nil => exact hrest
  | cons token gap => exact stops_space (hgap token List.mem_cons_self)

def spacesOf (gap : List Token) : List Formula :=
  gap.map fun token => .space token.text

theorem isSpace_of_mem_spacesOf : ∀ node ∈ spacesOf gap, node.isSpace := by
  simp [spacesOf, Formula.isSpace]

theorem items_gap (h : IsGap gap) (hrest : Stops false rest)
    : Parser.items (gap ++ rest) = ((spacesOf gap).map .node ++ ·) <$> Parser.items rest := by
  induction gap with
  | nil => simp [spacesOf]
  | cons token gap ih =>
    rw [IsGap, List.forall_mem_cons] at h
    rw [List.cons_append, items_space h.1 (stops_gap h.2 hrest), ih h.2]
    simp [spacesOf]

theorem readsAs_gap (h : IsGap gap) : ReadsAs false gap (spacesOf gap) :=
  ⟨_, resolves_nodes _, fun _ hrest => items_gap h hrest⟩

theorem Atomic.stops (h : Atomic name tokens node) : Stops false (tokens ++ rest) := by
  cases h with
  | intro hbegins hatom => exact hbegins.stops nofun

theorem Argument.readsAs (h : Argument name tokens node)
    : ∃ spaces, ReadsAs name tokens (spaces ++ [node]) ∧ ∀ node ∈ spaces, node.isSpace := by
  obtain ⟨hgap, h⟩ := h
  exact ⟨_, (readsAs_gap hgap).append h.readsAs fun rest _ => h.stops, isSpace_of_mem_spacesOf⟩

theorem Argument.operand_eq (h : Argument name tokens node) (hrest : Unopened name rest)
    : Parser.operand owner (tokens ++ rest) = .ok (Item.operand node, tokens.length) := by
  obtain ⟨hgap, ⟨hbegins, hatom⟩⟩ := h
  rename_i gap token tokens
  induction gap with
  | nil =>
    rw [List.nil_append, List.cons_append, Parser.operand, hbegins.isSpace, hbegins.isControl,
      hbegins.isClose, hatom rest hrest]
    rfl
  | cons space gap ih =>
    rw [IsGap, List.forall_mem_cons] at hgap
    rw [List.cons_append, List.cons_append, Parser.operand, hgap.1, ih hgap.2]
    rfl

theorem ReadsAs.sequence_eq (h : ReadsAs name tokens nodes) : Parser.sequence tokens = .ok nodes := by
  obtain ⟨items, hitems, htokens⟩ := h
  have hall := htokens [] stops_nil
  rw [List.append_nil, Parser.items] at hall
  simp only [Except.map_ok, List.append_nil] at hall
  rw [Parser.sequence, hall]
  exact hitems.resolve_eq

theorem ReadsAs.sequence_gap (h : ReadsAs name tokens nodes) (hgap : IsGap gap)
    : Parser.sequence (tokens ++ gap) = .ok (nodes ++ spacesOf gap) := by
  cases gap with
  | nil => simpa [spacesOf] using h.sequence_eq
  | cons token gap =>
    refine (h.append (readsAs_gap hgap) fun rest _ => ?_).sequence_eq
    exact stops_space (hgap token List.mem_cons_self)

end Reads

section Atoms

variable {token opener closer : Token} {tokens inner : List Token} {nodes : List Formula}
  {node : Formula} {p : Token → Prop}

theorem begins_element (hkind : token.kind = .element) (htext : token.text ∉ ["'", "/", ")"])
    : Begins token := by
  simp only [List.mem_cons, List.not_mem_nil, or_false, not_or] at htext
  constructor
  all_goals simp [Token.isSpace, Token.isPrime, Token.script?, Token.isClose, Token.is, hkind, htext]

theorem begins_symbol (hkind : token.kind = .symbol) : Begins token := by
  constructor
  all_goals simp [Token.isSpace, Token.isPrime, Token.script?, Token.isClose, Token.is, hkind]

theorem begins_open (h : token.isOpen) : Begins token := by
  obtain ⟨kind, text, span⟩ := token
  cases is_iff.mp h
  exact ⟨rfl, rfl, rfl, rfl, rfl, rfl⟩

theorem atomic_element (hkind : token.kind = .element) (htext : token.text ∉ ["'", "/", ")", "("])
    : Atomic false [token] (.atom token.text) := by
  simp only [List.mem_cons, List.not_mem_nil, or_false, not_or] at htext
  refine .intro (begins_element hkind (by simp [htext])) fun rest _ => ?_
  unfold Parser.atom
  rw [hkind]
  dsimp only
  split
  . simp_all
  . simp_all
  . rfl

theorem atomic_symbol (hkind : token.kind = .symbol) : Atomic true [token] (.symbol token.text) := by
  refine .intro (begins_symbol hkind) fun rest hrest => ?_
  unfold Parser.atom
  rw [hkind]
  cases rest with
  | nil => rfl
  | cons next rest =>
    rw [List.nil_append]
    simp only [hrest rfl next rfl, Bool.false_eq_true, if_false]
    rfl

theorem atomic_parens (hopener : opener.isOpen) (hcloser : closer.isClose) (hinner : Nested p inner)
    (h : Parser.sequence inner = .ok nodes)
    : Atomic false (opener :: (inner ++ [closer])) (.parens nodes) := by
  refine .intro (begins_open hopener) fun rest _ => ?_
  have hclosing := @hinner.closingParen?_eq _ closer inner rest hcloser
  obtain ⟨kind, text, span⟩ := opener
  cases is_iff.mp hopener
  unfold Parser.atom
  rw [List.append_assoc, List.singleton_append]
  simp only [hclosing, List.take_left, h, bind, Except.bind]
  simp
  rfl

theorem atomic_call (hkind : token.kind = .symbol) (hopener : opener.isOpen)
    (hcloser : closer.isClose) (hinner : Nested p inner)
    (h : Parser.call token.text inner = .ok node)
    : Atomic false (token :: opener :: (inner ++ [closer])) node := by
  refine .intro (begins_symbol hkind) fun rest _ => ?_
  have hclosing := @hinner.closingParen?_eq _ closer inner rest hcloser
  unfold Parser.atom
  rw [hkind, List.cons_append, List.append_assoc, List.singleton_append]
  simp only [hopener, if_true, hclosing, List.take_left, h, bind, Except.bind]
  simp
  rfl

end Atoms

/--
Tokens that are read as scripts, given those found before. `name` says whether they end with a name.
-/
inductive ScriptsRead (name : Bool) :
    List Token → (found result : Scripts Formula) → Prop where
  | nil {found : Scripts Formula} : ScriptsRead name [] found found
  | cons {place : Script} {marker : Token} {own tokens : List Token} {node : Formula}
    {found result : Scripts Formula} {other : Bool} (hmarker : marker.script? = some place)
    (hfree : found.get? place = none) (h : Argument other own node)
    (hname : tokens = [] → other = name)
    (hmore : ScriptsRead name tokens (found.insert (Item.operand node) place) result) :
    ScriptsRead name (marker :: (own ++ tokens)) found result

section Scripts

variable {name other : Bool} {marker slash : Token} {own tokens rest primes : List Token}
  {node base num den : Formula} {found result : Scripts Formula} {place : Script}

theorem kind_of_script? (h : marker.script? = some place) : marker.kind = .control := by
  unfold Token.script? at h
  split at h
  next hkind => exact beq_iff_eq.mp hkind
  . contradiction

theorem isPrime_of_script? (h : marker.script? = some place)
    : marker.isPrime = false ∧ marker.isOpen = false := by
  have hkind := kind_of_script? h
  simp [Token.isPrime, Token.isOpen, Token.is, hkind]

theorem script_eq (hfree : found.get? place = none) (h : Argument name own node)
    (hopen : Unopened name rest) (hprime : Token.countFront Token.isPrime rest = 0)
    : Parser.script found place marker (own ++ rest) =
      .ok (found.insert (Item.operand node) place, own.length) := by
  rw [Parser.script, hfree, h.operand_eq hopen]
  cases place with
  | sup => rfl
  | sub =>
    simp only [Option.isSome_none, Bool.false_eq_true, if_false, bind, Except.bind, List.drop_left,
      hprime]
    rfl

theorem scripts_nil (found : Scripts Formula) : Parser.scripts found [] = .ok (found, 0) := by
  rw [Parser.scripts]

theorem ScriptsRead.unopened (h : ScriptsRead name tokens found result) (hrest : Stops name rest)
    : Unopened name (tokens ++ rest) ∧
      Token.countFront Token.isPrime (tokens ++ rest) = 0 := by
  cases h with
  | nil => exact ⟨hrest.unopened, countFront_of_stops hrest⟩
  | cons hmarker =>
    obtain ⟨hprime, hopen⟩ := isPrime_of_script? hmarker
    refine ⟨?_, by simp [Token.countFront, hprime]⟩
    rintro _ _ ⟨⟩
    exact hopen

theorem ScriptsRead.scripts_eq (h : ScriptsRead name tokens found result)
    (hrest : Stops name rest)
    : Parser.scripts found (tokens ++ rest) = .ok (result, tokens.length) := by
  induction h with
  | nil => exact scripts_of_stops hrest _
  | @cons place marker own tokens node found result other hmarker hfree h hname hmore ih =>
    obtain ⟨hopen, hprime⟩ := hmore.unopened hrest
    have hown : Unopened other (tokens ++ rest) := by
      cases hmore with
      | nil => exact hname rfl ▸ hopen
      | cons hmarker =>
        rintro _ _ ⟨⟩
        exact (isPrime_of_script? hmarker).2
    rw [List.cons_append, List.append_assoc, Parser.scripts, hmarker]
    simp only [script_eq hfree h hown hprime, bind, Except.bind, List.drop_left, ih]
    simp only [List.length_cons, List.length_append, pure, Except.pure, Except.ok.injEq,
      Prod.mk.injEq, true_and]
    omega

theorem readsAs_attach (hbase : Atomic other own base) (hprimes : ∀ token ∈ primes, token.isPrime)
    (h : ScriptsRead name tokens { primes := primes.length } found) (hne : primes ++ tokens ≠ [])
    : ReadsAs name (own ++ (primes ++ tokens)) [attachScripts found base] := by
  obtain ⟨hbegins, hatom⟩ := hbase
  rename_i token own
  rw [List.cons_append]
  refine readsAs_of_expr hbegins.isSlash fun rest hrest => ?_
  have hunopened : Unopened other (primes ++ (tokens ++ rest)) := by
    cases primes with
    | nil =>
      cases h with
      | nil => contradiction
      | cons hmarker =>
        rintro _ _ ⟨⟩
        exact (isPrime_of_script? hmarker).2
    | cons prime primes =>
      rintro _ _ ⟨⟩
      have hprime := is_iff.mp (hprimes prime List.mem_cons_self)
      exact is_eq_false_iff.mpr (by simp [hprime])
  have hcount : Token.countFront Token.isPrime (primes ++ (tokens ++ rest)) = primes.length := by
    have hzero := (h.unopened hrest).2
    rw [Token.countFront, List.length_eq_zero_iff] at hzero
    rw [Token.countFront, List.takeWhile_append_of_pos hprimes, hzero, List.append_nil]
  rw [List.append_assoc, List.append_assoc, Parser.expr, hbegins.script?]
  simp only [hatom _ hunopened, bind, Except.bind, List.drop_left, hcount]
  rw [← List.drop_drop, List.drop_left, List.drop_left]
  simp only [h.scripts_eq hrest]
  simp only [List.length_append, pure, Except.pure, Except.ok.injEq, Prod.mk.injEq, true_and]
  omega

theorem readsAs_frac (hnum : Atomic other own num) (hslash : slash.lexeme = (.element, "/"))
    (hden : Argument name tokens den) (hnumSpace : num.isSpace = false)
    (hdenSpace : den.isSpace = false)
    : ReadsAs name (own ++ slash :: tokens) [.frac (Item.operand num) (Item.operand den)] := by
  obtain ⟨hgap, hden⟩ := hden
  rename_i gap tokens
  refine ⟨_, @resolves_frac _ _ slash.span _ hnumSpace hdenSpace (@isSpace_of_mem_spacesOf gap),
    fun rest hrest => ?_⟩
  have hstops : ∀ rest, Stops other (slash :: rest) := by
    obtain ⟨kind, text, span⟩ := slash
    cases hslash
    intro rest
    constructor
    . rintro _ ⟨⟩
      rfl
    . rintro _ ⟨⟩
      rfl
    . rintro _ _ ⟨⟩
      rfl
  rw [List.append_assoc, List.cons_append, hnum.items_eq (hstops _), Parser.items,
    is_iff.mpr hslash, List.append_assoc, items_gap hgap hden.stops, hden.items_eq hrest]
  cases Parser.items rest
  all_goals simp

end Scripts

end Typst
end MathMarkup
