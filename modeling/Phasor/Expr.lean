/-!
# Expressions

Syntax trees over complex numbers. A literal keeps its text until it is evaluated, and operators and
functions are named by strings, so that a tree may also hold a name that means nothing.
-/

namespace Phasor

inductive Expr
  | lit (text : String)
  | var (name : String)
  | unary (op : String) (e : Expr)
  | binary (op : String) (l r : Expr)
  | call (name : String) (args : List Expr)
deriving Repr

namespace Expr

mutual

def decEq : (a b : Expr) → Decidable (a = b)
  | lit s, lit t => decidable_of_iff (s = t) (by simp)
  | var s, var t => decidable_of_iff (s = t) (by simp)
  | unary o e, unary p f =>
    have := decEq e f
    decidable_of_iff (o = p ∧ e = f) (by simp)
  | binary o l r, binary p m s =>
    have := decEq l m
    have := decEq r s
    decidable_of_iff (o = p ∧ l = m ∧ r = s) (by simp)
  | call n as, call m bs =>
    have := decEqAll as bs
    decidable_of_iff (n = m ∧ as = bs) (by simp)
  | lit _, var _ | lit _, unary _ _ | lit _, binary _ _ _ | lit _, call _ _
  | var _, lit _ | var _, unary _ _ | var _, binary _ _ _ | var _, call _ _
  | unary _ _, lit _ | unary _ _, var _ | unary _ _, binary _ _ _ | unary _ _, call _ _
  | binary _ _ _, lit _ | binary _ _ _, var _ | binary _ _ _, unary _ _ | binary _ _ _, call _ _
  | call _ _, lit _ | call _ _, var _ | call _ _, unary _ _ | call _ _, binary _ _ _ =>
    isFalse (by simp)

def decEqAll : (as bs : List Expr) → Decidable (as = bs)
  | [], [] => isTrue rfl
  | a :: as, b :: bs =>
    have := decEq a b
    have := decEqAll as bs
    decidable_of_iff (a = b ∧ as = bs) (by simp)
  | [], _ :: _ | _ :: _, [] => isFalse (by simp)

end

instance : DecidableEq Expr := decEq

mutual

/-- The number of nodes. -/
def size : Expr → Nat
  | lit _ => 1
  | var _ => 1
  | unary _ e => 1 + e.size
  | binary _ l r => 1 + l.size + r.size
  | call _ args => 1 + sizeAll args

def sizeAll : List Expr → Nat
  | [] => 0
  | e :: es => e.size + sizeAll es

end

mutual

/-- The variables from left to right, each as often as it occurs. -/
def occurrences : Expr → List String
  | lit _ => []
  | var n => [n]
  | unary _ e => e.occurrences
  | binary _ l r => l.occurrences ++ r.occurrences
  | call _ args => occurrencesAll args

def occurrencesAll : List Expr → List String
  | [] => []
  | e :: es => e.occurrences ++ occurrencesAll es

end

def children : Expr → List Expr
  | lit _ => []
  | var _ => []
  | unary _ e => [e]
  | binary _ l r => [l, r]
  | call _ args => args

end Expr

/-! ### Sorted names -/

namespace Names

def insert (n : String) : List String → List String
  | [] => [n]
  | m :: ms => if n < m then n :: m :: ms else if n = m then m :: ms else m :: insert n ms

/-- In ascending order of code points, each name once. -/
def sorted (ns : List String) : List String := ns.foldr insert []

theorem mem_insert {a n : String} {ms : List String} : a ∈ insert n ms ↔ a = n ∨ a ∈ ms := by
  induction ms with
  | nil => simp [insert]
  | cons m ms ih =>
    unfold insert
    split
    · simp
    · split
      · next h => subst h; simp
      · simp only [List.mem_cons, ih]; exact or_left_comm

theorem mem_sorted {a : String} {ns : List String} : a ∈ sorted ns ↔ a ∈ ns := by
  induction ns with
  | nil => simp [sorted]
  | cons n ns ih => simp only [sorted, List.foldr_cons, mem_insert, List.mem_cons] at ih ⊢; rw [ih]

end Names

/-- The names of the variables, sorted. -/
def Expr.variables (e : Expr) : List String := Names.sorted e.occurrences

/-- A function that is not known takes one argument, so that it can be parsed. -/
def functionArity (name : String) : Nat := if name = "root" then 2 else 1

theorem functionArity_pos (name : String) : 0 < functionArity name := by
  unfold functionArity
  split <;> decide

def isBinarySymbol (s : String) : Bool := ["+", "-", "*", "/", "**", "^"].contains s

end Phasor
