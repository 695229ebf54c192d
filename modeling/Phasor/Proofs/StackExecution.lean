import Phasor.Proofs.Conservation
import Phasor.Proofs.Operations
import Phasor.Proofs.Safety

/-!
# Running a postfix listing

A listing can be run on a stack of values instead of being made into a tree (`Postfix.execute`). On the listing
of a tree this gives what the tree gives, failures included (`execute_postorder`): the items of a node take the
values of its children off the stack, so they do what `Expr.operate` does.
-/

namespace Phasor.Postfix

open Phasor.Expr

section

variable [Elementary]

/-- The stack of values after an item; the last value comes first. -/
def executeItem (env : Environment) (stack : List Complex) : Item → Except Failure (List Complex)
  | .lit t => ((Complex.ofLiteral t).mapError .eval).map (· :: stack)
  | .var n => (env.value n).map (· :: stack)
  | .mark .paren => .error (.parse .markAmongItems)
  | .mark (.fn n) =>
    let k := functionArity n
    if stack.length < k then .error (.parse (.tooFewOperands (.function n)))
    else (applyFunction n (stack.take k).reverse).map (· :: stack.drop k)
  | .mark (.op s) =>
    if s = Operator.negation then
      match stack with
      | z :: stack => .ok (z.neg :: stack)
      | [] => .error (.parse (.tooFewOperands (.operator s)))
    else
      match stack with
      | w :: z :: stack => ((applyOperator s z w).mapError .eval).map (· :: stack)
      | _ => .error (.parse (.tooFewOperands (.operator s)))

/-- The first item that fails ends the run. -/
def executeAll (env : Environment) (stack : List Complex) : List Item → Except Failure (List Complex)
  | [] => .ok stack
  | i :: items =>
    match executeItem env stack i with
    | .error f => .error f
    | .ok stack => executeAll env stack items

def execute (env : Environment) (items : List Item) : Except Failure Complex :=
  match executeAll env [] items with
  | .error f => .error f
  | .ok [z] => .ok z
  | .ok _ => .error (.parse .notOneExpression)

variable {env : Environment} {stack stack' : List Complex} {p : List Item} {f : Failure} {e : Expr}

theorem executeAll_append (p q : List Item) :
    executeAll env stack (p ++ q) = (executeAll env stack p).bind fun stack => executeAll env stack q := by
  induction p generalizing stack with
  | nil => rfl
  | cons i p ih =>
    rw [List.cons_append, executeAll, executeAll]
    cases executeItem env stack i with
    | error f => rfl
    | ok stack => exact ih

/-! ### Listings of trees -/

/-- The item of a node does to the stack what the node does to the values of its children. -/
theorem executeItem_item (he : e.Buildable) {zs : List Complex} (hzs : zs.length = e.children.length)
    (stack : List Complex) :
    executeItem env (zs.reverse ++ stack) e.item = (e.operate env zs).map (· :: stack) := by
  cases e with
  | lit t =>
    obtain rfl := List.length_eq_zero_iff.1 hzs
    rfl
  | var n =>
    obtain rfl := List.length_eq_zero_iff.1 hzs
    rfl
  | unary op e =>
    obtain ⟨z, rfl⟩ := List.length_eq_one_iff.1 hzs
    rfl
  | binary op l r =>
    obtain ⟨z, w, rfl⟩ := List.length_eq_two.1 hzs
    exact if_neg (negation_ne_of_isBinarySymbol he)
  | call n args =>
    have hlength : zs.length = functionArity n := hzs.trans he
    have htake : ((zs.reverse ++ stack).take (functionArity n)).reverse = zs := by
      rw [← hlength, ← List.length_reverse, List.take_left, List.reverse_reverse]
    have hdrop : (zs.reverse ++ stack).drop (functionArity n) = stack := by
      rw [← hlength, ← List.length_reverse, List.drop_left]
    have henough : ¬ (zs.reverse ++ stack).length < functionArity n := by
      rw [List.length_append, List.length_reverse]
      omega
    rw [item, executeItem, if_neg henough, htake, hdrop]
    rfl

theorem executeAll_flatMap_postorder {es : List Expr}
    (h : ∀ e ∈ es, ∀ stack, executeAll env stack e.postorder = (e.evaluate env).map (· :: stack))
    (stack : List Complex) :
    executeAll env stack (es.flatMap postorder) = (evaluateAll env es).map (·.reverse ++ stack) := by
  induction es generalizing stack with
  | nil => rfl
  | cons e es ih =>
    obtain ⟨he, hes⟩ := List.forall_mem_cons.1 h
    rw [List.flatMap_cons, executeAll_append, he, evaluateAll]
    cases e.evaluate env with
    | error f => rfl
    | ok z =>
      show executeAll env (z :: stack) (es.flatMap postorder) = _
      rw [ih hes]
      cases evaluateAll env es with
      | error f => rfl
      | ok zs =>
        show Except.ok (zs.reverse ++ z :: stack) = Except.ok ((z :: zs).reverse ++ stack)
        rw [List.reverse_cons, List.append_assoc]
        rfl

theorem executeAll_postorder (he : e.Everywhere Buildable) (stack : List Complex) :
    executeAll env stack e.postorder = (e.evaluate env).map (· :: stack) := by
  induction e using induction_children generalizing stack with
  | h e ih =>
    obtain ⟨hnode, hchildren⟩ := everywhere_iff.1 he
    rw [postorder_eq, executeAll_append,
      executeAll_flatMap_postorder (fun c hc stack => ih c hc (hchildren c hc) stack), evaluate_eq]
    cases hzs : evaluateAll env e.children with
    | error f => rfl
    | ok zs =>
      have hitem : executeItem env (zs.reverse ++ stack) e.item = (e.operate env zs).map (· :: stack) :=
        executeItem_item hnode (length_of_evaluateAll hzs) stack
      show executeAll env (zs.reverse ++ stack) [e.item] = (e.operate env zs).map (· :: stack)
      rw [executeAll, hitem]
      cases e.operate env zs <;> rfl

theorem execute_postorder (he : e.Everywhere Buildable) : execute env e.postorder = e.evaluate env := by
  rw [execute, executeAll_postorder he]
  cases e.evaluate env <;> rfl

/-- A function that is not known fails, but only after its arguments. -/
theorem evaluate_call_unknown {name : String} (h : name ∉ knownFunctions) (args : List Expr) (f : Failure) :
    (call name args).evaluate env = .error f ↔ evaluateAll env args = .error f ∨
      (∃ zs, evaluateAll env args = .ok zs) ∧ f = .eval (.unknownFunction name) := by
  rw [evaluate_eq, children]
  cases hargs : evaluateAll env args with
  | error f' => simp [Except.bind]
  | ok zs =>
    have hunknown : (call name args).operate env zs = .error (.eval (.unknownFunction name)) :=
      applyFunction_unknown h zs
    show (call name args).operate env zs = .error f ↔ _
    rw [hunknown]
    simp [eq_comm]

/-- Running the listing of a text gives what its tree gives. The failure is that of the first node in post-order that
fails by itself, and a function that is not known is reported only if its arguments have values. -/
theorem execute_arrange_eq_evaluate {ts : List String} {e : Expr} (h : ofTokens ts = .ok e) (env : Environment) :
    ∃ items, arrange ts = .ok items ∧ execute env items = e.evaluate env ∧
      (∀ f, execute env items = .error f ↔ ∃ n, FailsFirst env e n f) ∧
      ∀ name args f, call name args ∈ e.nodes → name ∉ knownFunctions →
        ((call name args).evaluate env = .error f ↔ evaluateAll env args = .error f ∨
          (∃ zs, evaluateAll env args = .ok zs) ∧ f = .eval (.unknownFunction name)) := by
  obtain ⟨harrange, he⟩ := ofTokens_eq_ok h
  have hexecute : execute env e.postorder = e.evaluate env := execute_postorder he
  refine ⟨e.postorder, harrange, hexecute, fun f => ?_, fun name args f _ hname => ?_⟩
  · rw [hexecute]
    exact evaluate_eq_error_iff
  · exact evaluate_call_unknown hname args f

end

/-- Of the three parts that fail, the division comes first, then the function that is not known. -/
theorem execute_division_before_unknown :
    let ts := ["f", "(", "1", "/", "0", ")", "+", "g", "(", "x", ")"]
    let e : Expr := .binary "+" (.call "f" [.binary "/" (.lit "1") (.lit "0")]) (.call "g" [.var "x"])
    ofTokens ts = .ok e ∧ (∃ items, arrange ts = .ok items ∧ execute [] items = .error (.eval .zeroDivisor)) ∧
      evaluate [] (.call "g" [.var "x"]) = .error (.eval (.unbound "x")) := by
  intro ts e
  have h : ofTokens ts = .ok e := rfl
  have hvalue : e.evaluate [] = .error (.eval .zeroDivisor) := by decide +kernel
  obtain ⟨items, hitems, hexecute, -, hcall⟩ := execute_arrange_eq_evaluate h []
  refine ⟨h, ⟨items, hitems, hexecute.trans hvalue⟩, ?_⟩
  exact (hcall "g" [.var "x"] _ (by decide) (by decide)).2 (.inl rfl)

end Phasor.Postfix
