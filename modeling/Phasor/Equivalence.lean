import Phasor.Equivalence.Sampling
import Phasor.Evaluation

/-!
# Numerical equivalence

Two expressions are compared in one environment after another. `Check.run` stops at the first trial
whose values are apart, or after the number of trials that was asked for; an environment in which
either expression has an evaluation error is discarded and replaced, until the retries are used up.
Agreement is evidence and no proof.
-/

namespace Phasor

structure Sample where
  env : Environment
  left : Complex
  right : Complex
deriving Repr

/-- Where the expressions are not equivalent, the environment in which they differ and their values there are kept. -/
structure Report where
  equivalent : Bool
  /-- The variables of both expressions, sorted. -/
  names : List String
  trialsRun : Nat
  retries : Nat
  counterexample? : Option Environment
  left? : Option Complex
  right? : Option Complex
  samples : List Sample
deriving Repr

/-- What a check reports while it runs. -/
inductive Note
  | trial (number : Nat) (left right : Complex)
  | discarding (retries : Nat) (cause : EvalError)
  | mismatch (env : Environment)
deriving Repr

def Note.text : Note → String
  | trial n z w => "Trial " ++ toString n ++ ": " ++ z.text ++ " vs " ++ w.text
  | discarding n e =>
    "Discarding trial (" ++ toString n ++ " retries so far): " ++ e.message
  | mismatch env => "Mismatch at " ++ env.written

namespace Check

/-- The environments in the order in which they are drawn. -/
abbrev Draws := Nat → Except Fault Environment

structure State where
  /-- The number of environments drawn so far. -/
  drawn : Nat
  trialsRun : Nat
  retries : Nat
  samples : List Sample
  notes : List Note

/-- The state before the first trial, which takes draw number `drawn`. -/
def State.start (drawn : Nat) : State := ⟨drawn, 0, 0, [], []⟩

def State.discard (p : State) (e : EvalError) : State :=
  ⟨p.drawn + 1, p.trialsRun, p.retries + 1, p.samples, p.notes ++ [.discarding (p.retries + 1) e]⟩

def State.record (p : State) (x : Sample) : State :=
  ⟨p.drawn + 1, p.trialsRun + 1, p.retries, p.samples ++ [x],
    p.notes ++ [.trial (p.trialsRun + 1) x.left x.right]⟩

structure Outcome where
  result : Except Failure Report
  drawn : Nat
  notes : List Note

def State.stop (p : State) (f : Failure) : Outcome := ⟨.error f, p.drawn, p.notes⟩

def State.agree (p : State) (names : List String) : Outcome :=
  ⟨.ok ⟨true, names, p.trialsRun, p.retries, none, none, none, p.samples⟩, p.drawn, p.notes⟩

/-- The trial that shows the difference is recorded before. -/
def State.differ (p : State) (names : List String) (x : Sample) : Outcome :=
  ⟨.ok ⟨false, names, p.trialsRun, p.retries, some x.env, some x.left, some x.right, p.samples⟩, p.drawn,
    p.notes ++ [.mismatch x.env]⟩

variable [Elementary]

/-- The left expression is evaluated first. -/
def trial (a b : Expr) (env : Environment) : Except Failure Sample :=
  match a.evaluate env with
  | .error f => .error f
  | .ok z =>
    match b.evaluate env with
    | .error f => .error f
    | .ok w => .ok ⟨env, z, w⟩

def names (a b : Expr) : List String := Names.sorted (a.variables ++ b.variables)

/-- `remaining` trials are still to be run and `spare` draws may still be discarded. -/
def loop (s : Settings) (draws : Draws) (a b : Expr) (remaining spare : Nat) (p : State) : Outcome :=
  match remaining with
  | 0 => p.agree (names a b)
  | n + 1 =>
    match draws p.drawn with
    | .error f => p.stop (.fault f)
    | .ok env =>
      match trial a b env with
      | .ok x =>
        if x.left.near x.right s.tolerance then loop s draws a b n spare (p.record x)
        else (p.record x).differ (names a b) x
      | .error (.eval e) =>
        if s.maxRetries ≤ 0 then ⟨.error (.eval e), p.drawn + 1, p.notes⟩
        else
          match spare with
          | 0 => (p.discard e).stop (.inconclusive (p.retries + 1) e)
          | m + 1 => loop s draws a b (n + 1) m (p.discard e)
      | .error f => ⟨.error f, p.drawn + 1, p.notes⟩
termination_by remaining + spare

/-- Compares the expressions, the first environment being draw number `drawn`. -/
def run (s : Settings) (draws : Draws) (a b : Expr) (drawn : Nat) : Outcome :=
  loop s draws a b s.trials.toNat s.maxRetries.toNat (.start drawn)

end Check

end Phasor
