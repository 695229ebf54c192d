import Phasor.Proofs.Reading

/-!
# Operands and operators by turns

In infix text an operand begins where one is expected, and whatever takes an operand on its left finds one there
(`Alternates`). Neither pass looks at that: the second one only counts the trees on its stack. What such a count can
tell is a balance along the text (`balance_of_forall_isToken`), which adds up from one on each side of a token. So in
a text that is accepted, an operator that is missing in one place is made up for by an operand that is missing in
another, or by a comma that is (`balance_of_ofTokens`).
-/

namespace Phasor

/-! ### What is missing at a place -/

/-- Whether an operand is complete between the two tokens. A name is an operand unless it is that of a function. -/
def completesOperand (before after : Option String) : Bool :=
  before.any fun t => Token.isNumber t || (Token.isIdentifier t && after != some "(") || t == ")"

namespace Place

variable (p : Place)

/-- A number, a name, a negation or the parenthesis of a group. -/
def beginsOperand : Bool :=
  Token.isNumber p.token || Token.isIdentifier p.token || p.isNegation ||
    (p.token == "(" && !p.before.any Token.isIdentifier)

/-- An operator with two operands, a comma or a closing parenthesis. -/
def followsOperand : Bool := p.symbol?.isSome || p.token == "," || p.token == ")"

/-- An operand begins although another one is complete. -/
def lacksOperator : Bool := p.beginsOperand && !opensOperand p.before

def lacksOperand : Bool := p.followsOperand && !completesOperand p.before (some p.token)

/-- The commas between the arguments of the function. -/
def neededCommas : Nat := p.callee?.elim 0 fun f => functionArity f - 1

end Place

def missingOperators (ts : List String) : Nat := (places none ts).countP Place.lacksOperator

/-- The operand that the last token should complete counts too. -/
def missingOperands (ts : List String) : Nat :=
  (places none ts).countP Place.lacksOperand + (!completesOperand ts.getLast? none).toNat

def neededCommas (ts : List String) : Nat := ((places none ts).map Place.neededCommas).sum

/-- Operands and what stands between them take turns. -/
structure Alternates (ts : List String) : Prop where
  begins : ∀ p ∈ places none ts, p.beginsOperand = true → opensOperand p.before = true
  follows : ∀ p ∈ places none ts, p.followsOperand = true → completesOperand p.before (some p.token) = true
  ends : completesOperand ts.getLast? none = true

variable {ts : List String} {before next : Option String} {t : String}

theorem alternates_iff : Alternates ts ↔ missingOperators ts = 0 ∧ missingOperands ts = 0 := by
  have hoperators : missingOperators ts = 0 ↔
      ∀ p ∈ places none ts, p.beginsOperand = true → opensOperand p.before = true := by
    simp [missingOperators, List.countP_eq_zero, Place.lacksOperator]
  have hoperands : missingOperands ts = 0 ↔
      (∀ p ∈ places none ts, p.followsOperand = true → completesOperand p.before (some p.token) = true) ∧
        completesOperand ts.getLast? none = true := by
    simp [missingOperands, List.countP_eq_zero, Place.lacksOperand]
  rw [hoperators, hoperands]
  exact ⟨fun h => ⟨h.begins, h.follows, h.ends⟩, fun ⟨hbegins, hfollows, hends⟩ => ⟨hbegins, hfollows, hends⟩⟩

/-! ### The balance at one token -/

theorem completesOperand_of_isNumber (h : Token.isNumber t = true) (after : Option String) :
    completesOperand (some t) after = true := by
  simp [completesOperand, h]

theorem completesOperand_of_isIdentifier (h : Token.isIdentifier t = true) (after : Option String) :
    completesOperand (some t) after = (after != some "(") := by
  have hclosing := Token.beq_separator (.inr (.inl h)) (.inr (.inl rfl))
  simp only [completesOperand, Option.any_some, Token.isNumber_of_isIdentifier h, h, hclosing, Bool.false_or,
    Bool.true_and, Bool.or_false]

theorem completesOperand_of_isBinarySymbol (h : isBinarySymbol t = true) (after : Option String) :
    completesOperand (some t) after = false := by
  rcases isBinarySymbol_iff.1 h with rfl | rfl | rfl | rfl | rfl | rfl <;> rfl

/-- Between two tokens an operand is either expected or complete, unless the name of a function stands in front. -/
theorem completesOperand_eq (hbefore : ∀ b ∈ before, Token.IsToken b) (after : Option String) :
    completesOperand before after =
      (!opensOperand before && !(after == some "(" && before.any Token.isIdentifier)) := by
  cases before with
  | none => rfl
  | some b =>
    rcases hbefore b rfl with hb | hb | hb | rfl | rfl | rfl
    · rw [completesOperand_of_isNumber hb, opensOperand_of_isOperand (.inl hb), Option.any_some,
        Token.isIdentifier_of_isNumber hb, Bool.and_false]
      rfl
    · rw [completesOperand_of_isIdentifier hb, opensOperand_of_isOperand (.inr hb), Option.any_some, hb,
        Bool.and_true]
      rfl
    · rw [completesOperand_of_isBinarySymbol hb, opensOperand_of_isBinarySymbol hb]
      rfl
    · rfl
    · show true = !(after == some "(" && false)
      rw [Bool.and_false]
      rfl
    · rfl

namespace Place

variable {p : Place}

/-- The parenthesis is that of a call. -/
def opensCall (p : Place) : Bool := p.token == "(" && p.before.any Token.isIdentifier

theorem followsOperand_of_isOperand (h : Token.isNumber p.token = true ∨ Token.isIdentifier p.token = true) :
    p.followsOperand = false := by
  have htoken : Token.isNumber p.token = true ∨ Token.isIdentifier p.token = true ∨ isBinarySymbol p.token = true :=
    h.imp_right .inl
  rw [followsOperand, symbol?, Token.isBinarySymbol_of_isOperand h, Token.beq_separator htoken (.inr (.inl rfl)),
    Token.beq_separator htoken (.inr (.inr rfl))]
  rfl

theorem followsOperand_of_isBinarySymbol (h : isBinarySymbol p.token = true) :
    p.followsOperand = !p.isNegation := by
  have htoken : Token.isNumber p.token = true ∨ Token.isIdentifier p.token = true ∨ isBinarySymbol p.token = true :=
    .inr (.inr h)
  rw [followsOperand, symbol?, h, Token.beq_separator htoken (.inr (.inl rfl)),
    Token.beq_separator htoken (.inr (.inr rfl))]
  cases p.isNegation <;> rfl

theorem followsOperand_of_isSeparator (h : Token.IsSeparator p.token) : p.followsOperand = !(p.token == "(") := by
  rw [followsOperand, symbol?, Token.isBinarySymbol_of_isSeparator h]
  rcases h with h | h | h <;> rw [h] <;> rfl

/-- Every token begins an operand or follows one, unless it opens a call. -/
theorem beginsOperand_eq (htoken : Token.IsToken p.token) :
    p.beginsOperand = (!p.followsOperand && !p.opensCall) := by
  rw [beginsOperand, opensCall]
  rcases htoken with ht | ht | ht | ht
  · rw [followsOperand_of_isOperand (.inl ht), Token.beq_separator (.inl ht) (.inl rfl), ht]
    rfl
  · rw [followsOperand_of_isOperand (.inr ht), Token.beq_separator (.inr (.inl ht)) (.inl rfl), ht, Bool.or_true]
    rfl
  · rw [followsOperand_of_isBinarySymbol ht, Token.beq_separator (.inr (.inr ht)) (.inl rfl),
      Token.isNumber_of_isBinarySymbol ht, Token.isIdentifier_of_isBinarySymbol ht]
    cases p.isNegation <;> rfl
  · rw [followsOperand_of_isSeparator ht, Token.isNumber_of_isSeparator ht, Token.isIdentifier_of_isSeparator ht,
      isNegation_of_not_isBinarySymbol p (Token.isBinarySymbol_of_isSeparator ht)]
    cases p.token == "(" <;> rfl

theorem opensCall_of_followsOperand (h : p.followsOperand = true) : p.opensCall = false := by
  rw [opensCall]
  by_cases hopening : p.token = "("
  · rw [followsOperand_of_isSeparator (.inl hopening), hopening] at h
    exact absurd h (by decide)
  · rw [beq_eq_false_iff_ne.2 hopening, Bool.false_and]

/-- On the left of a token: an operand that is complete is asked for, or an operator is missing. -/
theorem balance_left (hbefore : ∀ b ∈ p.before, Token.IsToken b) (htoken : Token.IsToken p.token) :
    p.lacksOperator.toNat + p.followsOperand.toNat =
      (completesOperand p.before (some p.token)).toNat + p.lacksOperand.toNat := by
  have hcomplete : completesOperand p.before (some p.token) = (!opensOperand p.before && !p.opensCall) :=
    completesOperand_eq hbefore (some p.token)
  rw [lacksOperator, lacksOperand, beginsOperand_eq htoken, hcomplete]
  cases hfollows : p.followsOperand with
  | true =>
    rw [opensCall_of_followsOperand hfollows]
    cases opensOperand p.before <;> rfl
  | false => rw [Bool.not_false, Bool.true_and, Bool.false_and, Bool.and_comm]

/-- On the right of a token. -/
theorem balance_right (htoken : Token.IsToken p.token) :
    (completesOperand (some p.token) p.after).toNat + p.item?.elim 0 Item.arity + (p.token == ",").toNat =
      p.item?.isSome.toNat + p.neededCommas + p.followsOperand.toNat := by
  rcases htoken with ht | ht | ht | ht
  · rw [completesOperand_of_isNumber ht, item?_of_isNumber ht, followsOperand_of_isOperand (.inl ht),
      Token.beq_separator (.inl ht) (.inr (.inr rfl)), neededCommas, callee?, Token.isIdentifier_of_isNumber ht]
    rfl
  · rw [completesOperand_of_isIdentifier ht, item?_of_isIdentifier ht, followsOperand_of_isOperand (.inr ht),
      Token.beq_separator (.inr (.inl ht)) (.inr (.inr rfl)), neededCommas, callee?, ht]
    by_cases hafter : p.after = some "("
    · have harity := functionArity_pos p.token
      rw [hafter]
      show 0 + functionArity p.token + 0 = 1 + (functionArity p.token - 1) + 0
      omega
    · rw [beq_eq_false_iff_ne.2 hafter, if_neg hafter, bne_iff_ne.2 hafter]
      rfl
  · rw [completesOperand_of_isBinarySymbol ht, item?_of_isBinarySymbol ht, followsOperand_of_isBinarySymbol ht,
      Token.beq_separator (.inr (.inr ht)) (.inr (.inr rfl)), neededCommas, callee?,
      Token.isIdentifier_of_isBinarySymbol ht]
    cases p.isNegation with
    | true => rfl
    | false =>
      show 0 + Item.arity (.mark (.op p.token)) + 0 = 1 + 0 + 1
      rw [Item.arity_of_isBinarySymbol ht]
  · rw [item?_of_isSeparator ht, followsOperand_of_isSeparator ht, neededCommas, callee?,
      Token.isIdentifier_of_isSeparator ht]
    rcases ht with ht | ht | ht <;> rw [ht] <;> rfl

end Place

/-! ### The balance of a text -/

theorem countP_cons_toNat {α : Type} (f : α → Bool) (a : α) (l : List α) :
    (a :: l).countP f = l.countP f + (f a).toNat := by
  rw [List.countP_cons]
  cases f a <;> rfl

theorem sum_map_filterMap {α β : Type} (f : α → Option β) (g : β → Nat) (l : List α) :
    ((l.filterMap f).map g).sum = (l.map fun a => (f a).elim 0 g).sum := by
  induction l with
  | nil => rfl
  | cons a l ih =>
    rw [List.map_cons, List.sum_cons, ← ih, List.filterMap_cons]
    cases f a with
    | none => exact (Nat.zero_add _).symm
    | some b => rfl

/-- The operands that the text has behind `before`, and what becomes of them. -/
theorem balance_of_forall_isToken (hbefore : ∀ b ∈ before, Token.IsToken b) (hts : ∀ t ∈ ts, Token.IsToken t) :
    let ps := places before ts
    (completesOperand (ts.getLast?.or before) none).toNat + (ps.map fun p => p.item?.elim 0 Item.arity).sum +
        ps.countP Place.lacksOperator + ts.countP (· == ",") =
      (completesOperand before ts.head?).toNat + ps.countP (·.item?.isSome) + ps.countP Place.lacksOperand +
        (ps.map Place.neededCommas).sum := by
  induction ts generalizing before with
  | nil => rfl
  | cons t ts ih =>
    obtain ⟨ht, hts⟩ := List.forall_mem_cons.1 hts
    have hlast : (t :: ts).getLast?.or before = ts.getLast?.or (some t) := by
      rw [List.getLast?_cons]
      cases ts.getLast? <;> rfl
    have htoken : ∀ b ∈ some t, Token.IsToken b := fun b hb => Option.some.inj hb ▸ ht
    have hrest := ih htoken hts
    have hleft := Place.balance_left (p := ⟨before, t, ts.head?⟩) hbefore ht
    have hright := Place.balance_right (p := ⟨before, t, ts.head?⟩) ht
    dsimp only at hrest hleft hright ⊢
    simp only [hlast, places, List.map_cons, List.sum_cons, countP_cons_toNat, List.head?_cons]
    omega

namespace Expr

open Postfix

variable {e : Expr}

/-- In a text that is accepted the missing operators and the commas are as many as the missing operands and the commas
that the functions need. -/
theorem balance_of_ofTokens (h : ofTokens ts = .ok e) :
    missingOperators ts + ts.count "," = missingOperands ts + neededCommas ts := by
  obtain ⟨harrange, -⟩ := ofTokens_eq_ok h
  obtain ⟨hperm, -⟩ := arrange_carries harrange
  have hheight : height 0 e.postorder = some 1 := (exists_build_iff (known_of_arrange harrange)).1 ⟨e, by
    rw [ofTokens, harrange] at h
    exact h⟩
  have hoperands : 1 + ((places none ts).map fun p => p.item?.elim 0 Item.arity).sum =
      (places none ts).countP (·.item?.isSome) := by
    have hsum := height_eq_some hheight
    rw [(hperm.map Item.arity).sum_eq, sum_map_filterMap, hperm.length_eq, List.length_filterMap_eq_countP,
      Nat.zero_add] at hsum
    exact hsum
  have hbefore : ∀ b ∈ (none : Option String), Token.IsToken b := fun b hb => absurd hb (by simp)
  have hbalance := balance_of_forall_isToken hbefore (isToken_of_arrange harrange)
  have hstart : (completesOperand none ts.head?).toNat = 0 := rfl
  have hend : (completesOperand ts.getLast? none).toNat + (!completesOperand ts.getLast? none).toNat = 1 := by
    cases completesOperand ts.getLast? none <;> rfl
  dsimp only at hbalance
  rw [Option.or_none, hstart] at hbalance
  unfold missingOperators missingOperands neededCommas List.count
  omega

/-- The operands and operators of a text that is accepted take turns exactly if no operator is missing and the commas
are those that the functions need, and just so if no operand is missing. So a text that only lacks operators or only
lacks operands is refused, and one that lacks both may pass. -/
theorem alternates_iff_of_ofTokens (h : ofTokens ts = .ok e) :
    missingOperators ts + ts.count "," = missingOperands ts + neededCommas ts ∧
    (Alternates ts ↔ missingOperators ts = 0 ∧ ts.count "," = neededCommas ts) ∧
    (Alternates ts ↔ missingOperands ts = 0 ∧ ts.count "," = neededCommas ts) := by
  have hbalance := balance_of_ofTokens h
  refine ⟨hbalance, ?_, ?_⟩
  · rw [alternates_iff]
    omega
  · rw [alternates_iff]
    omega

theorem alternates_root_of_negation :
    let ts := ["root", "(", "x", ",", "-", "2", ")"]
    ofTokens ts = .ok (call "root" [var "x", unary "-" (lit "2")]) ∧ Alternates ts := by
  intro ts
  have hread : ofTokens ts = .ok (call "root" [var "x", unary "-" (lit "2")]) := by decide +kernel
  have hoperators : missingOperators ts = 0 := by decide +kernel
  have hcommas : ts.count "," = neededCommas ts := by decide +kernel
  exact ⟨hread, (alternates_iff_of_ofTokens hread).2.1.2 ⟨hoperators, hcommas⟩⟩

/-- The operator that is missing between the numbers is found behind them. -/
theorem ofTokens_operator_behind :
    let ts := ["1", "2", "+"]
    ofTokens ts = .ok (binary "+" (lit "1") (lit "2")) ∧ ¬ Alternates ts := by
  intro ts
  refine ⟨by decide +kernel, fun h => ?_⟩
  have htwo : (⟨some "1", "2", some "+"⟩ : Place) ∈ places none ts := by decide
  have hexpected : opensOperand (some "1") = true := h.begins _ htwo (by decide)
  exact absurd hexpected (by decide)

end Expr

end Phasor
