import Phasor.Sketch
import Phasor.Proofs.OperationErrors

/-!
# Sketches with and without gaps

A sketch without gaps is an expression (`Sketch.expr?_eq_ok_iff`): it is asked (`Sketch.ask_eq_ok_iff`), evaluated
(`Sketch.evaluate_eq_ok_iff`) and compared (`Sketch.same_ofExpr`) as that expression is. Of several gaps the leftmost
one answers (`Sketch.ask_eq_error_iff`), and a sketch with a gap has no value whatever stands around it.
-/

namespace Phasor.Sketch

mutual

/-- The expression as a sketch. -/
def ofExpr : Expr → Sketch
  | .lit t => lit t
  | .var n => var n
  | .unary op e => unary op (ofExpr e)
  | .binary op l r => binary op (ofExpr l) (ofExpr r)
  | .call n args => call n (ofExprs args)

def ofExprs : List Expr → List Sketch
  | [] => []
  | e :: es => ofExpr e :: ofExprs es

end

mutual

/-- The gaps from left to right. -/
def gaps : Sketch → List Gap
  | gap g => [g]
  | lit _ => []
  | var _ => []
  | unary _ s => s.gaps
  | binary _ l r => l.gaps ++ r.gaps
  | call _ args => gapsAll args

def gapsAll : List Sketch → List Gap
  | [] => []
  | s :: ss => s.gaps ++ gapsAll ss

end

/-! ### Gaps -/

/-- There is a result if there is no gap, and otherwise the first gap. -/
def Explains {α : Type} (gs : List Gap) : Except Gap α → Prop
  | .ok _ => gs = []
  | .error g => gs.head? = some g

section

variable {α β : Type} {gs hs : List Gap}

theorem Explains.bind {x : Except Gap α} {f : α → Except Gap β} (hx : Explains gs x) (hf : ∀ a, Explains hs (f a)) :
    Explains (gs ++ hs) (x >>= f) := by
  cases x with
  | error g =>
    show (gs ++ hs).head? = some g
    rw [List.head?_append, show gs.head? = some g from hx]
    rfl
  | ok a =>
    obtain rfl : gs = [] := hx
    exact hf a

theorem Explains.map {x : Except Gap α} (hx : Explains gs x) (f : α → β) :
    Explains gs (do return f (← x)) := by
  cases x with
  | error g => exact hx
  | ok a => exact hx

end

mutual

theorem explains_expr? : ∀ s : Sketch, Explains s.gaps s.expr?
  | gap _ => rfl
  | lit _ => rfl
  | var _ => rfl
  | unary op s => by
    rw [gaps, expr?]
    exact (explains_expr? s).map _
  | binary op l r => by
    rw [gaps, expr?]
    exact (explains_expr? l).bind fun a => (explains_expr? r).map _
  | call n args => by
    rw [gaps, expr?]
    exact (explains_exprs? args).map _

theorem explains_exprs? : ∀ ss : List Sketch, Explains (gapsAll ss) (exprs? ss)
  | [] => rfl
  | s :: ss => by
    rw [gapsAll, exprs?]
    exact (explains_expr? s).bind fun e => (explains_exprs? ss).map _

end

variable {s : Sketch} {e : Expr} {g : Gap}

/-- The leftmost gap is what makes a sketch no expression. -/
theorem expr?_eq_error_iff : s.expr? = .error g ↔ s.gaps.head? = some g := by
  have h := explains_expr? s
  cases hs : s.expr? with
  | ok e =>
    rw [hs] at h
    have hgaps : s.gaps = [] := h
    simp [hgaps]
  | error g' =>
    rw [hs] at h
    have hgaps : s.gaps.head? = some g' := h
    simp [hgaps]

/-! ### Expressions -/

mutual

theorem expr?_ofExpr : ∀ e : Expr, (ofExpr e).expr? = .ok e
  | .lit _ => rfl
  | .var _ => rfl
  | .unary op e => by
    rw [ofExpr, expr?, expr?_ofExpr e]
    rfl
  | .binary op l r => by
    rw [ofExpr, expr?, expr?_ofExpr l, expr?_ofExpr r]
    rfl
  | .call n args => by
    rw [ofExpr, expr?, exprs?_ofExprs args]
    rfl

theorem exprs?_ofExprs : ∀ es : List Expr, exprs? (ofExprs es) = .ok es
  | [] => rfl
  | e :: es => by
    rw [ofExprs, exprs?, expr?_ofExpr e, exprs?_ofExprs es]
    rfl

end

mutual

theorem eq_ofExpr : ∀ (s : Sketch) {e : Expr}, s.expr? = .ok e → s = ofExpr e
  | gap _, _, h => absurd h (by simp [expr?])
  | lit _, _, h => Except.ok.inj h ▸ rfl
  | var _, _, h => Except.ok.inj h ▸ rfl
  | unary op s, _, h => by
    rw [expr?] at h
    obtain ⟨a, ha, h⟩ := bind_eq_ok_iff.1 h
    obtain rfl := Except.ok.inj h
    rw [eq_ofExpr s ha, ofExpr]
  | binary op l r, _, h => by
    rw [expr?] at h
    obtain ⟨a, ha, h⟩ := bind_eq_ok_iff.1 h
    obtain ⟨b, hb, h⟩ := bind_eq_ok_iff.1 h
    obtain rfl := Except.ok.inj h
    rw [eq_ofExpr l ha, eq_ofExpr r hb, ofExpr]
  | call n args, _, h => by
    rw [expr?] at h
    obtain ⟨es, hes, h⟩ := bind_eq_ok_iff.1 h
    obtain rfl := Except.ok.inj h
    rw [eq_ofExprs args hes, ofExpr]

theorem eq_ofExprs : ∀ (ss : List Sketch) {es : List Expr}, exprs? ss = .ok es → ss = ofExprs es
  | [], _, h => Except.ok.inj h ▸ rfl
  | s :: ss, _, h => by
    rw [exprs?] at h
    obtain ⟨e, he, h⟩ := bind_eq_ok_iff.1 h
    obtain ⟨es, hes, h⟩ := bind_eq_ok_iff.1 h
    obtain rfl := Except.ok.inj h
    rw [eq_ofExpr s he, eq_ofExprs ss hes, ofExprs]

end

theorem expr?_eq_ok_iff : s.expr? = .ok e ↔ s = ofExpr e :=
  ⟨eq_ofExpr s, fun h => h ▸ expr?_ofExpr e⟩

/-! ### Questions -/

section

variable {α : Type} {fault : Gap → Fault} {f : Expr → α} {a : α}

theorem ask_eq_ok_iff : s.ask fault f = .ok a ↔ ∃ e, s = ofExpr e ∧ f e = a := by
  rw [ask]
  cases hs : s.expr? with
  | ok e =>
    obtain rfl := expr?_eq_ok_iff.1 hs
    refine ⟨fun h => ⟨e, rfl, Except.ok.inj h⟩, ?_⟩
    rintro ⟨e', he, rfl⟩
    have heq := (expr?_ofExpr e).symm.trans (he ▸ expr?_ofExpr e')
    rw [Except.ok.inj heq]
    rfl
  | error g =>
    refine iff_of_false (by simp [Except.mapError, Except.map]) ?_
    rintro ⟨e, rfl, -⟩
    exact absurd ((expr?_ofExpr e).symm.trans hs) (by simp)

/-- The leftmost gap answers. -/
theorem ask_eq_error_iff {x : Fault} : s.ask fault f = .error x ↔ ∃ g, s.gaps.head? = some g ∧ fault g = x := by
  simp only [← expr?_eq_error_iff]
  rw [ask]
  cases s.expr? with
  | ok e => simp [Except.mapError, Except.map]
  | error g => simp [Except.mapError, Except.map]

end

/-! ### Values -/

section

variable [Elementary] {env : Environment} {z : Complex}

mutual

theorem evaluate_ofExpr : ∀ e : Expr, (ofExpr e).evaluate env = e.evaluate env
  | .lit _ => rfl
  | .var _ => rfl
  | .unary op e => by
    rw [ofExpr, evaluate, evaluate_ofExpr e, Expr.evaluate]
  | .binary op l r => by
    rw [ofExpr, evaluate, evaluate_ofExpr l, evaluate_ofExpr r, Expr.evaluate]
  | .call n args => by
    rw [ofExpr, evaluate, evaluateAll_ofExprs args, Expr.evaluate]

theorem evaluateAll_ofExprs : ∀ es : List Expr, evaluateAll env (ofExprs es) = Expr.evaluateAll env es
  | [] => rfl
  | e :: es => by
    rw [ofExprs, evaluateAll, evaluate_ofExpr e, evaluateAll_ofExprs es, Expr.evaluateAll]

end

mutual

/-- All parts of a sketch with a value have been evaluated, so that none of them is a gap. -/
theorem gaps_of_evaluate : ∀ (s : Sketch) {z : Complex}, s.evaluate env = .ok z → s.gaps = []
  | gap _, _, h => absurd h (by simp [evaluate])
  | lit _, _, _ => rfl
  | var _, _, _ => rfl
  | unary op s, _, h => by
    rw [evaluate] at h
    obtain ⟨z, hz, -⟩ := bind_eq_ok_iff.1 h
    rw [gaps, gaps_of_evaluate s hz]
  | binary op l r, _, h => by
    rw [evaluate] at h
    obtain ⟨z, hz, h⟩ := bind_eq_ok_iff.1 h
    obtain ⟨w, hw, -⟩ := bind_eq_ok_iff.1 h
    rw [gaps, gaps_of_evaluate l hz, gaps_of_evaluate r hw, List.append_nil]
  | call n args, _, h => by
    rw [evaluate] at h
    obtain ⟨zs, hzs, -⟩ := bind_eq_ok_iff.1 h
    rw [gaps, gapsAll_of_evaluateAll args hzs]

theorem gapsAll_of_evaluateAll : ∀ (ss : List Sketch) {zs : List Complex}, evaluateAll env ss = .ok zs → gapsAll ss = []
  | [], _, _ => rfl
  | s :: ss, _, h => by
    rw [evaluateAll] at h
    obtain ⟨z, hz, h⟩ := bind_eq_ok_iff.1 h
    obtain ⟨zs, hzs, -⟩ := bind_eq_ok_iff.1 h
    rw [gapsAll, gaps_of_evaluate s hz, gapsAll_of_evaluateAll ss hzs, List.append_nil]

end

/-- Only expressions have values, and they are those of the expressions. -/
theorem evaluate_eq_ok_iff : s.evaluate env = .ok z ↔ ∃ e, s = ofExpr e ∧ e.evaluate env = .ok z := by
  constructor
  · intro h
    have hgaps := gaps_of_evaluate s h
    cases hs : s.expr? with
    | error g =>
      rw [expr?_eq_error_iff, hgaps] at hs
      exact absurd hs (by simp)
    | ok e =>
      obtain rfl := expr?_eq_ok_iff.1 hs
      exact ⟨e, rfl, (evaluate_ofExpr e).symm.trans h⟩
  · rintro ⟨e, rfl, he⟩
    exact (evaluate_ofExpr e).trans he

end

/-! ### Comparisons -/

mutual

/-- Sketches of expressions are the same if the expressions are equal. -/
theorem same_ofExpr : ∀ a b : Expr, (ofExpr a).same (ofExpr b) = true ↔ a = b
  | .lit s, b => by cases b <;> simp [ofExpr, same]
  | .var m, b => by cases b <;> simp [ofExpr, same]
  | .unary o a, b => by
    cases b with
    | unary p b => simp [ofExpr, same, same_ofExpr a b]
    | _ => simp [ofExpr, same]
  | .binary o l r, b => by
    cases b with
    | binary p l' r' => simp [ofExpr, same, same_ofExpr l l', same_ofExpr r r', and_assoc]
    | _ => simp [ofExpr, same]
  | .call m as, b => by
    cases b with
    | call n bs => simp [ofExpr, same, sameAll_ofExprs as bs]
    | _ => simp [ofExpr, same]

theorem sameAll_ofExprs : ∀ as bs : List Expr, sameAll (ofExprs as) (ofExprs bs) = true ↔ as = bs
  | [], bs => by cases bs <;> simp [ofExprs, sameAll]
  | a :: as, bs => by
    cases bs with
    | nil => simp [ofExprs, sameAll]
    | cons b bs => simp [ofExprs, sameAll, same_ofExpr a b, sameAll_ofExprs as bs]

end

end Phasor.Sketch
