import MathMarkup.Text.Basic

/-!
This module contains the facts about trimming and splitting that the writers rest on.
-/

namespace MathMarkup
namespace Text

section Decidable

-- There may be an instance that tries all characters there are, so these come first.

variable {p : Char → Prop} [DecidablePred p]

instance (priority := 2000) decidableForallMem (cs : List Char) : Decidable (∀ c ∈ cs, p c) :=
  List.decidableBAll p cs

instance (priority := 2000) decidableForallMemOption (c? : Option Char)
    : Decidable (∀ c ∈ c?, p c) :=
  decidable_of_iff (∀ c ∈ c?.toList, p c) (by simp)

end Decidable

/--
Whether a text does not go on with a character of a class.
-/
def NotStartsWith (p : Char → Bool) (cs : List Char) : Prop :=
  ∀ c, cs.head? = some c → p c = false

instance (p : Char → Bool) (cs : List Char) : Decidable (NotStartsWith p cs) :=
  decidable_of_iff (cs.head?.all fun c => !p c) (by
    unfold NotStartsWith
    cases cs.head? with
    | none => simp
    | some c => simp)

theorem notStartsWith_nil {p : Char → Bool} : NotStartsWith p [] := nofun

theorem notStartsWith_cons {p : Char → Bool} {c : Char} {cs : List Char}
    : NotStartsWith p (c :: cs) ↔ p c = false := by
  simp [NotStartsWith]

theorem notStartsWith_append {p : Char → Bool} {cs rest : List Char} (h : cs ≠ [])
    : NotStartsWith p (cs ++ rest) ↔ NotStartsWith p cs := by
  cases cs with
  | nil => contradiction
  | cons c cs => rw [List.cons_append, notStartsWith_cons, notStartsWith_cons]

theorem takeWhile_eq_nil {p : Char → Bool} {cs : List Char} (h : NotStartsWith p cs)
    : cs.takeWhile p = [] := by
  cases cs with
  | nil => rfl
  | cons c cs => exact List.takeWhile_cons_of_neg (by simp [h c rfl])

theorem dropWhile_eq_self {p : Char → Bool} {cs : List Char} (h : NotStartsWith p cs)
    : cs.dropWhile p = cs := by
  cases cs with
  | nil => rfl
  | cons c cs => exact List.dropWhile_cons_of_neg (by simp [h c rfl])

theorem takeWhile_append_of_all {p : Char → Bool} {cs rest : List Char} (h : ∀ c ∈ cs, p c)
    (hrest : NotStartsWith p rest) : (cs ++ rest).takeWhile p = cs := by
  rw [List.takeWhile_append_of_pos h, takeWhile_eq_nil hrest, List.append_nil]

theorem dropWhile_append_of_all {p : Char → Bool} {cs rest : List Char} (h : ∀ c ∈ cs, p c)
    (hrest : NotStartsWith p rest) : (cs ++ rest).dropWhile p = rest := by
  rw [List.dropWhile_append_of_pos h, dropWhile_eq_self hrest]

theorem isAlpha_iff {c : Char}
    : c.isAlpha ↔ (65 ≤ c.toNat ∧ c.toNat ≤ 90) ∨ (97 ≤ c.toNat ∧ c.toNat ≤ 122) := by
  have hupper : c.isUpper ↔ 65 ≤ c.toNat ∧ c.toNat ≤ 90 := decide_eq_true_iff
  have hlower : c.isLower ↔ 97 ≤ c.toNat ∧ c.toNat ≤ 122 :=
    Bool.and_eq_true_iff.trans (and_congr decide_eq_true_iff decide_eq_true_iff)
  rw [← hupper, ← hlower]
  exact Bool.or_eq_true_iff

theorem isDigit_iff {c : Char} : c.isDigit ↔ 48 ≤ c.toNat ∧ c.toNat ≤ 57 := by
  simp only [Char.isDigit, Bool.and_eq_true, decide_eq_true_eq, UInt32.le_iff_toNat_le, ge_iff_le]
  rfl

theorem isBlank_eq_false_of_range {c : Char} (h : 33 ≤ c.toNat) (hlt : c.toNat < 128)
    : isBlank c = false := by
  have hne : c ≠ ' ' := by
    rintro rfl
    exact absurd h (by decide)
  simp only [isBlank, Bool.or_eq_false_iff, beq_eq_false_iff_ne, Bool.and_eq_false_iff,
    decide_eq_false_iff_not]
  exact ⟨⟨hne, .inr (by omega)⟩, .inl (by omega)⟩

theorem isBlank_of_isAlpha {c : Char} (h : c.isAlpha) : isBlank c = false := by
  rw [isAlpha_iff] at h
  exact isBlank_eq_false_of_range (by omega) (by omega)

theorem isBlank_of_isDigit {c : Char} (h : c.isDigit) : isBlank c = false := by
  rw [isDigit_iff] at h
  exact isBlank_eq_false_of_range (by omega) (by omega)

theorem isDigit_of_isAlpha {c : Char} (h : c.isAlpha) : c.isDigit = false := by
  rw [Bool.eq_false_iff, ne_eq, isDigit_iff]
  rw [isAlpha_iff] at h
  omega

theorem isBlank_of_isAlphanum {c : Char} (h : c.isAlphanum) : isBlank c = false := by
  simp only [Char.isAlphanum, Bool.or_eq_true] at h
  exact h.elim isBlank_of_isAlpha isBlank_of_isDigit

theorem lines_go_of_no_newline {cs : List Char} (h : '\n' ∉ cs) (current : List Char)
    (hne : current.reverse ++ cs ≠ []) : lines.go cs current = [current.reverse ++ cs] := by
  induction cs generalizing current with
  | nil =>
    cases current with
    | nil => contradiction
    | cons c current => simp [lines.go]
  | cons c cs ih =>
    simp only [List.mem_cons, not_or] at h
    have hgo : lines.go (c :: cs) current = lines.go cs (c :: current) := by
      rw [lines.go]
      exact fun heq => h.1 heq.symm
    rw [hgo, ih h.2 (c :: current) (by simp)]
    simp

theorem lines_of_no_newline {cs : List Char} (h : '\n' ∉ cs) (hne : cs ≠ []) : lines cs = [cs] :=
  lines_go_of_no_newline h [] hne

theorem trimEnd_of_last {cs : List Char} (h : ∀ c, cs.getLast? = some c → isBlank c = false)
    : trimEnd cs = cs := by
  unfold trimEnd
  rw [List.getLast?_eq_head?_reverse] at h
  cases hcs : cs.reverse with
  | nil => rw [List.reverse_eq_nil_iff.mp hcs]; rfl
  | cons c rest =>
    have hc : isBlank c = false := h c (by rw [hcs]; rfl)
    rw [List.dropWhile_cons_of_neg (by simp [hc]), ← hcs, List.reverse_reverse]

theorem trim_of_no_blank {text : String} (h : ∀ c ∈ text.toList, isBlank c = false)
    : trim text = text := by
  have hstart : NotStartsWith isBlank text.toList := fun c hc => h c (List.mem_of_head? hc)
  rw [trim, trimStart, dropWhile_eq_self hstart,
    trimEnd_of_last fun c hc => h c (List.mem_of_getLast? hc), String.ofList_toList]

theorem append_of_dropFront? {front text rest : List Char} (h : dropFront? front text = some rest)
    : text = front ++ rest := by
  fun_induction dropFront? front text with
  | case1 text => exact Option.some.inj h
  | case2 => contradiction
  | case3 f front text ih => rw [ih h, List.cons_append]
  | case4 => contradiction

@[simp]
theorem dropFront?_append (front rest : List Char) : dropFront? front (front ++ rest) = some rest := by
  induction front with
  | nil => simp [dropFront?]
  | cons c front ih => simp [dropFront?, ih]

theorem isSome_dropFront?_iff {front text : List Char}
    : (dropFront? front text).isSome ↔ front <+: text := by
  constructor
  . intro h
    obtain ⟨rest, hrest⟩ := Option.isSome_iff_exists.mp h
    exact ⟨rest, (append_of_dropFront? hrest).symm⟩
  . rintro ⟨rest, rfl⟩
    simp

theorem append_of_findFirst? {word text before : List Char} (h : findFirst? word text = some before)
    : ∃ after, text = before ++ word ++ after := by
  fun_induction findFirst? word text generalizing before with
  | case1 text hfront =>
    cases h
    obtain ⟨after, rfl⟩ := isSome_dropFront?_iff.mp hfront
    exact ⟨after, rfl⟩
  | case2 => contradiction
  | case3 c text _ ih =>
    obtain ⟨before, hbefore, rfl⟩ := Option.map_eq_some_iff.mp h
    obtain ⟨after, rfl⟩ := ih hbefore
    exact ⟨after, rfl⟩

theorem findFirst?_append (word earlier later : List Char)
    : ∃ before, findFirst? word (earlier ++ word ++ later) = some before ∧
        before.length ≤ earlier.length := by
  induction earlier with
  | nil =>
    refine ⟨[], ?_, Nat.le_refl _⟩
    unfold findFirst?
    simp
  | cons c earlier ih =>
    obtain ⟨before, hbefore, hle⟩ := ih
    unfold findFirst?
    split
    . exact ⟨[], rfl, Nat.zero_le _⟩
    . refine ⟨c :: before, ?_, Nat.succ_le_succ hle⟩
      change (findFirst? word (earlier ++ word ++ later)).map _ = _
      rw [hbefore]
      rfl

theorem splitFirst?_append {sep : Char} {before : List Char} (h : sep ∉ before) (rest : List Char)
    : splitFirst? sep (before ++ sep :: rest) = some (before, rest) := by
  induction before with
  | nil => simp [splitFirst?]
  | cons c before ih =>
    simp only [List.mem_cons, not_or] at h
    simp [splitFirst?, Ne.symm h.1, ih h.2]

theorem removeBlanks_of_no_blank {cs : List Char} (h : ∀ c ∈ cs, isBlank c = false)
    : removeBlanks (String.ofList cs) = String.ofList cs := by
  unfold removeBlanks
  rw [String.toList_ofList, List.filter_eq_self.mpr]
  intro c hc
  simp [h c hc]

end Text
end MathMarkup
