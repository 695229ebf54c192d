import Phasor.Proofs.Postorder
import Phasor.Proofs.Tokens

/-!
# Tokens in their places

What a token stands for depends on its two neighbours: a name in front of a parenthesis is a function,
and a minus is a negation where an operand begins. `Place` is a token with its neighbours, and
`Place.item?` is the item it stands for. The leaves, functions, negations and operators of a text are
read off the items as well as off the places, and those of a tree off the items of its nodes.
-/

namespace Phasor

/-! ### Tokens in their places -/

/-- A token between the token before it and the token after it. -/
structure Place where
  before : Option String
  token : String
  after : Option String
deriving DecidableEq

/-- The places of the tokens, the first one coming after `before`. -/
def places : Option String → List String → List Place
  | _, [] => []
  | before, t :: ts => ⟨before, t, ts.head?⟩ :: places (some t) ts

/-- Right after this an operand begins. -/
def opensOperand : Option String → Bool
  | none => true
  | some t => t == "(" || t == "," || isBinarySymbol t

theorem opensOperand_of_isOperand {t : String} (h : Token.isNumber t = true ∨ Token.isIdentifier t = true) :
    opensOperand (some t) = false := by
  have htoken : Token.isNumber t = true ∨ Token.isIdentifier t = true ∨ isBinarySymbol t = true := h.imp_right .inl
  rw [opensOperand, Token.beq_separator htoken (.inl rfl), Token.beq_separator htoken (.inr (.inr rfl)),
    Token.isBinarySymbol_of_isOperand h]
  rfl

theorem opensOperand_of_isBinarySymbol {t : String} (h : isBinarySymbol t = true) : opensOperand (some t) = true := by
  rw [opensOperand, h, Bool.or_true]

namespace Place

/-- The leaf that a number or a name stands for. -/
def leaf? (p : Place) : Option Expr :=
  if Token.isNumber p.token then some (.lit p.token)
  else if Token.isIdentifier p.token && p.after != some "(" then some (.var p.token)
  else none

/-- The function that a name in front of a parenthesis stands for. -/
def callee? (p : Place) : Option String :=
  if Token.isIdentifier p.token && p.after == some "(" then some p.token else none

def isNegation (p : Place) : Bool := p.token == "-" && opensOperand p.before

def symbol? (p : Place) : Option String :=
  if isBinarySymbol p.token && !p.isNegation then some p.token else none

/-- The item that the token stands for; nothing for parentheses and commas. -/
def item? (p : Place) : Option Item :=
  if Token.isNumber p.token then some (.lit p.token)
  else if Token.isIdentifier p.token then
    some (if p.after = some "(" then .mark (.fn p.token) else .var p.token)
  else if isBinarySymbol p.token then
    some (.mark (.op (if p.isNegation then Operator.negation else p.token)))
  else none

variable {p : Place}

theorem item?_of_isNumber (h : Token.isNumber p.token = true) : p.item? = some (.lit p.token) := by
  rw [item?, if_pos h]

theorem item?_of_isIdentifier (h : Token.isIdentifier p.token = true) :
    p.item? = some (if p.after = some "(" then .mark (.fn p.token) else .var p.token) := by
  rw [item?, if_neg (by rw [Token.isNumber_of_isIdentifier h]; exact Bool.false_ne_true), if_pos h]

theorem item?_of_isBinarySymbol (h : isBinarySymbol p.token = true) :
    p.item? = some (.mark (.op (if p.isNegation then Operator.negation else p.token))) := by
  rw [item?, if_neg (by rw [Token.isNumber_of_isBinarySymbol h]; exact Bool.false_ne_true),
    if_neg (by rw [Token.isIdentifier_of_isBinarySymbol h]; exact Bool.false_ne_true), if_pos h]

theorem item?_of_isSeparator (h : Token.IsSeparator p.token) : p.item? = none := by
  rw [item?, if_neg (by rw [Token.isNumber_of_isSeparator h]; exact Bool.false_ne_true),
    if_neg (by rw [Token.isIdentifier_of_isSeparator h]; exact Bool.false_ne_true),
    if_neg (by rw [Token.isBinarySymbol_of_isSeparator h]; exact Bool.false_ne_true)]

end Place

/-! ### Items of nodes and of places -/

namespace Item

def leaf? : Item → Option Expr
  | lit t => some (.lit t)
  | var n => some (.var n)
  | mark _ => none

def callee? : Item → Option String
  | mark (.fn n) => some n
  | _ => none

def isNegation (i : Item) : Bool := i == .mark (.op Operator.negation)

def symbol? : Item → Option String
  | mark (.op s) => if s = Operator.negation then none else some s
  | _ => none

end Item

namespace Expr

def leaf? : Expr → Option Expr
  | lit t => some (.lit t)
  | var n => some (.var n)
  | _ => none

def callee? : Expr → Option String
  | call n _ => some n
  | _ => none

def isUnary : Expr → Bool
  | unary _ _ => true
  | _ => false

def symbol? : Expr → Option String
  | binary op _ _ => some op
  | _ => none

theorem leaf?_eq_var {e : Expr} {n : String} : e.leaf? = some (var n) ↔ e = var n := by
  cases e <;> simp [leaf?]

theorem item_leaf? (e : Expr) : e.item.leaf? = e.leaf? := by cases e <;> rfl

theorem item_callee? (e : Expr) : e.item.callee? = e.callee? := by cases e <;> rfl

theorem item_isNegation {e : Expr} (h : e.Buildable) : e.item.isNegation = e.isUnary := by
  cases e with
  | binary op l r =>
    have hop : op ≠ Operator.negation := Postfix.negation_ne_of_isBinarySymbol h
    simp [item, Item.isNegation, isUnary, hop]
  | lit t => rfl
  | var n => rfl
  | unary op e => rfl
  | call n args => rfl

theorem item_symbol? {e : Expr} (h : e.Buildable) : e.item.symbol? = e.symbol? := by
  cases e with
  | binary op l r => exact if_neg (Postfix.negation_ne_of_isBinarySymbol h)
  | lit t => rfl
  | var n => rfl
  | unary op e => rfl
  | call n args => rfl

end Expr

namespace Place

variable (p : Place)

/-- A token is of at most one kind. -/
theorem kind_cases :
    let t := p.token
    (Token.isNumber t = true ∧ Token.isIdentifier t = false ∧ isBinarySymbol t = false) ∨
    (Token.isNumber t = false ∧ Token.isIdentifier t = true ∧ isBinarySymbol t = false) ∨
    (Token.isNumber t = false ∧ Token.isIdentifier t = false ∧ isBinarySymbol t = true) ∨
    (Token.isNumber t = false ∧ Token.isIdentifier t = false ∧ isBinarySymbol t = false) := by
  by_cases hs : isBinarySymbol p.token = true
  · have hn := Token.isNumber_of_isBinarySymbol hs
    have hi := Token.isIdentifier_of_isBinarySymbol hs
    exact .inr (.inr (.inl ⟨hn, hi, hs⟩))
  have hs : isBinarySymbol p.token = false := Bool.eq_false_iff.2 hs
  by_cases hi : Token.isIdentifier p.token = true
  · exact .inr (.inl ⟨Token.isNumber_of_isIdentifier hi, hi, hs⟩)
  have hi : Token.isIdentifier p.token = false := Bool.eq_false_iff.2 hi
  by_cases hn : Token.isNumber p.token = true
  · exact .inl ⟨hn, hi, hs⟩
  · exact .inr (.inr (.inr ⟨Bool.eq_false_iff.2 hn, hi, hs⟩))

theorem item?_bind_leaf? : p.item?.bind Item.leaf? = p.leaf? := by
  by_cases ha : p.after = some "(" <;>
    rcases p.kind_cases with ⟨hn, hi, hs⟩ | ⟨hn, hi, hs⟩ | ⟨hn, hi, hs⟩ | ⟨hn, hi, hs⟩ <;>
    simp [item?, leaf?, Item.leaf?, hn, hi, hs, ha]

variable {p} in
theorem leaf?_eq_var {n : String} :
    p.leaf? = some (.var n) ↔ p.token = n ∧ Token.isIdentifier n = true ∧ p.after ≠ some "(" := by
  rcases p.kind_cases with ⟨hn, hi, -⟩ | ⟨hn, hi, -⟩ | ⟨hn, hi, -⟩ | ⟨hn, hi, -⟩ <;>
    · simp only [leaf?, hn, hi]
      grind

theorem item?_bind_callee? : p.item?.bind Item.callee? = p.callee? := by
  by_cases ha : p.after = some "(" <;>
    rcases p.kind_cases with ⟨hn, hi, hs⟩ | ⟨hn, hi, hs⟩ | ⟨hn, hi, hs⟩ | ⟨hn, hi, hs⟩ <;>
    simp [item?, callee?, Item.callee?, hn, hi, hs, ha]

theorem isNegation_of_not_isBinarySymbol (h : isBinarySymbol p.token = false) : p.isNegation = false := by
  have ht : p.token ≠ "-" := by
    intro ht
    rw [ht] at h
    exact absurd h (by decide)
  simp [isNegation, ht]

theorem item?_bind_symbol? : p.item?.bind Item.symbol? = p.symbol? := by
  rcases p.kind_cases with ⟨hn, hi, hs⟩ | ⟨hn, hi, hs⟩ | ⟨hn, hi, hs⟩ | ⟨hn, hi, hs⟩
  · simp [item?, symbol?, Item.symbol?, hn, hs]
  · by_cases ha : p.after = some "(" <;> simp [item?, symbol?, Item.symbol?, hn, hi, hs, ha]
  · have hneg := Postfix.negation_ne_of_isBinarySymbol hs
    by_cases hu : p.isNegation = true
    · simp [item?, symbol?, Item.symbol?, hn, hi, hs, hu]
    · simp [item?, symbol?, Item.symbol?, hn, hi, hs, hu, hneg]
  · simp [item?, symbol?, hn, hi, hs]

theorem item?_any_isNegation : p.item?.any Item.isNegation = p.isNegation := by
  rcases p.kind_cases with ⟨hn, hi, hs⟩ | ⟨hn, hi, hs⟩ | ⟨hn, hi, hs⟩ | ⟨hn, hi, hs⟩
  · simp [item?, Item.isNegation, hn, p.isNegation_of_not_isBinarySymbol hs]
  · by_cases ha : p.after = some "(" <;>
      simp [item?, Item.isNegation, hn, hi, ha, p.isNegation_of_not_isBinarySymbol hs]
  · have hneg := Postfix.negation_ne_of_isBinarySymbol hs
    by_cases hu : p.isNegation = true
    · simp [item?, Item.isNegation, hn, hi, hs, hu]
    · simp [item?, Item.isNegation, hn, hi, hs, hu, hneg]
  · simp [item?, hn, hi, hs, p.isNegation_of_not_isBinarySymbol hs]

end Place

end Phasor
