import Mathlib.Data.List.Basic
import Phasor.Elementary.Platform
import Phasor.Equivalence

/-!
# How an equivalence check ends

Each draw of a check has a `Verdict`. `Going` says that the verdicts before a draw let the check come to
that draw, and `Ends` says after which draw the check is over and with which result. The state of the
loop before a draw is given by the verdicts alone (`At`), so the loop ends as `Ends` says and nowhere else.
-/

namespace Phasor

namespace Check

/-! ### Verdicts -/

/-- What one environment shows about two expressions. -/
inductive Verdict
  | agree (x : Sample)
  | differ (x : Sample)
  | error (e : EvalError)
  | fault (f : Failure)

namespace Verdict

def ofFailure : Failure → Verdict
  | .eval e => error e
  | f => fault f

/-- The values of the draw, where both expressions have one. -/
def sample? : Verdict → Option Sample
  | agree x | differ x => some x
  | error _ | fault _ => none

/-- What the evaluation fails with, of the two expressions on the draw. -/
def failure? : Verdict → Option Failure
  | agree _ | differ _ => none
  | error e => some (.eval e)
  | fault f => some f

theorem failure?_ofFailure (f : Failure) : (ofFailure f).failure? = some f := by
  cases f <;> rfl

/-- The check may take another draw. -/
def passes : Verdict → Bool
  | agree _ | error _ => true
  | differ _ | fault _ => false

end Verdict

section

variable [Elementary]

/-- Evaluates the left expression, then the right one, and compares the values. -/
def verdict (tolerance : Scalar) (a b : Expr) (env : Environment) : Verdict :=
  match a.evaluate env, b.evaluate env with
  | .error f, _ => .ofFailure f
  | .ok _, .error f => .ofFailure f
  | .ok z, .ok w => if z.near w tolerance then .agree ⟨env, z, w⟩ else .differ ⟨env, z, w⟩

/-- The verdicts on one environment after another. -/
def verdicts (s : Settings) (a b : Expr) (env : Nat → Environment) (k : Nat) : Verdict :=
  verdict s.tolerance a b (env k)

theorem verdict_eq_match_trial (tolerance : Scalar) (a b : Expr) (env : Environment) :
    verdict tolerance a b env = match trial a b env with
      | .ok x => if x.left.near x.right tolerance then .agree x else .differ x
      | .error f => .ofFailure f := by
  unfold verdict trial
  cases a.evaluate env with
  | error f => rfl
  | ok z => cases b.evaluate env <;> rfl

theorem failure_of_verdict {tolerance : Scalar} {a b : Expr} {env : Environment} {f : Failure}
    (h : (verdict tolerance a b env).failure? = some f) :
    a.evaluate env = .error f ∨ (∃ z, a.evaluate env = .ok z) ∧ b.evaluate env = .error f := by
  unfold verdict at h
  cases ha : a.evaluate env with
  | error g =>
    rw [ha] at h
    exact .inl (congrArg _ (Option.some.inj ((Verdict.failure?_ofFailure g).symm.trans h)))
  | ok z =>
    cases hb : b.evaluate env with
    | error g =>
      rw [ha, hb] at h
      exact .inr ⟨⟨z, rfl⟩, congrArg _ (Option.some.inj ((Verdict.failure?_ofFailure g).symm.trans h))⟩
    | ok w =>
      rw [ha, hb] at h
      dsimp only at h
      split at h <;> exact absurd h (by simp [Verdict.failure?])

theorem values_of_verdict {tolerance : Scalar} {a b : Expr} {env : Environment} {x : Sample}
    (h : verdict tolerance a b env = .differ x) :
    x.env = env ∧ a.evaluate env = .ok x.left ∧ b.evaluate env = .ok x.right ∧
      x.left.near x.right tolerance = false := by
  unfold verdict at h
  cases ha : a.evaluate env with
  | error f =>
    rw [ha] at h
    cases f <;> exact absurd h (by simp [Verdict.ofFailure])
  | ok z =>
    cases hb : b.evaluate env with
    | error f =>
      rw [ha, hb] at h
      cases f <;> exact absurd h (by simp [Verdict.ofFailure])
    | ok w =>
      rw [ha, hb] at h
      dsimp only at h
      split at h
      · exact absurd h (by simp)
      · rename_i hnear
        obtain rfl := Verdict.differ.inj h
        exact ⟨rfl, rfl, rfl, Bool.eq_false_iff.2 hnear⟩

/-- What the loop does with one more draw. -/
theorem loop_succ {s : Settings} {draws : Draws} {a b : Expr} {env : Environment} {p : State}
    (hdraw : draws p.drawn = .ok env) (m spare : Nat) :
    loop s draws a b (m + 1) spare p = match verdict s.tolerance a b env with
      | .agree x => loop s draws a b m spare (p.record x)
      | .differ x => (p.record x).differ (names a b) x
      | .error e =>
        if s.maxRetries ≤ 0 then ⟨.error (.eval e), p.drawn + 1, p.notes⟩
        else match spare with
          | 0 => (p.discard e).stop (.inconclusive (p.retries + 1) e)
          | k + 1 => loop s draws a b (m + 1) k (p.discard e)
      | .fault f => ⟨.error f, p.drawn + 1, p.notes⟩ := by
  rw [loop, hdraw, verdict_eq_match_trial]
  dsimp only
  cases trial a b env with
  | ok x =>
    dsimp only
    by_cases hx : x.left.near x.right s.tolerance = true
    · rw [if_pos hx, if_pos hx]
    · rw [if_neg hx, if_neg hx]
  | error f => cases f <;> rfl

end

/-! ### Draws before one draw -/

def samplesBefore (v : Nat → Verdict) (n : Nat) : List Sample :=
  (List.range n).filterMap fun k => (v k).sample?

/-- The number of draws without values. -/
def errorsBefore (v : Nat → Verdict) (n : Nat) : Nat :=
  (List.range n).countP fun k => (v k).sample?.isNone

section

variable {v : Nat → Verdict} {n : Nat} {x : Sample}

theorem samplesBefore_succ (h : (v n).sample? = some x) :
    samplesBefore v (n + 1) = samplesBefore v n ++ [x] := by
  simp [samplesBefore, List.range_succ, h]

theorem samplesBefore_succ_of_none (h : (v n).sample? = none) :
    samplesBefore v (n + 1) = samplesBefore v n := by
  simp [samplesBefore, List.range_succ, h]

theorem errorsBefore_succ (h : (v n).sample? = some x) : errorsBefore v (n + 1) = errorsBefore v n := by
  simp [errorsBefore, List.range_succ, List.countP_append, h]

theorem errorsBefore_succ_of_none (h : (v n).sample? = none) :
    errorsBefore v (n + 1) = errorsBefore v n + 1 := by
  simp [errorsBefore, List.range_succ, List.countP_append, h]

/-- Verdicts with the same errors give the same samples up to what is done to each. -/
theorem samplesBefore_map {v' : Nat → Verdict} {f : Sample → Sample}
    (h : ∀ k, (v' k).sample? = (v k).sample?.map f) (n : Nat) :
    samplesBefore v' n = (samplesBefore v n).map f := by
  simp only [samplesBefore, h, List.map_filterMap]

theorem errorsBefore_map {v' : Nat → Verdict} {f : Sample → Sample}
    (h : ∀ k, (v' k).sample? = (v k).sample?.map f) (n : Nat) : errorsBefore v' n = errorsBefore v n := by
  simp only [errorsBefore, h, Option.isNone_map]

/-- Every draw counts once. -/
theorem length_samplesBefore_add (v : Nat → Verdict) (n : Nat) :
    (samplesBefore v n).length + errorsBefore v n = n := by
  induction n with
  | zero => rfl
  | succ n ih =>
    cases h : (v n).sample? with
    | none => rw [samplesBefore_succ_of_none h, errorsBefore_succ_of_none h]; omega
    | some x =>
      rw [samplesBefore_succ h, errorsBefore_succ h, List.length_append, List.length_singleton]
      omega

end

/-! ### The end of a check -/

/-- No draw before the draw `n` ends the check. -/
structure Going (s : Settings) (v : Nat → Verdict) (n : Nat) : Prop where
  passes : ∀ k < n, (v k).passes = true
  trials : ((samplesBefore v n).length : Int) < s.trials
  retries : (errorsBefore v n : Int) ≤ max s.maxRetries 0

end Check

namespace Report

/-- The report of a check that finds no difference in its samples. -/
def agreement (names : List String) (retries : Nat) (samples : List Sample) : Report :=
  ⟨true, names, samples.length, retries, none, none, none, samples⟩

/-- The report of a check that finds the difference `x` after samples that agree. -/
def difference (names : List String) (retries : Nat) (samples : List Sample) (x : Sample) : Report :=
  ⟨false, names, samples.length + 1, retries, some x.env, some x.left, some x.right, samples ++ [x]⟩

end Report

namespace Check

/-- A check ends after `n` draws with the result. -/
inductive Ends (s : Settings) (names : List String) (v : Nat → Verdict) :
    Nat → Except Failure Report → Prop
  | none (h : s.trials ≤ 0) : Ends s names v 0 (.ok (.agreement names 0 []))
  | differ {n : Nat} {x : Sample} (h : Going s v n) (hv : v n = .differ x) :
    Ends s names v (n + 1) (.ok (.difference names (errorsBefore v n) (samplesBefore v n) x))
  | agree {n : Nat} {x : Sample} (h : Going s v n) (hv : v n = .agree x)
    (hlast : ((samplesBefore v n).length : Int) + 1 = s.trials) :
    Ends s names v (n + 1) (.ok (.agreement names (errorsBefore v n) (samplesBefore v n ++ [x])))
  | error {n : Nat} {e : EvalError} (h : Going s v n) (hv : v n = .error e) (hretries : s.maxRetries ≤ 0) :
    Ends s names v (n + 1) (.error (.eval e))
  | inconclusive {n : Nat} {e : EvalError} (h : Going s v n) (hv : v n = .error e)
    (hretries : 0 < s.maxRetries) (hlast : (errorsBefore v n : Int) = s.maxRetries) :
    Ends s names v (n + 1) (.error (.inconclusive (s.maxRetries.toNat + 1) e))
  | fault {n : Nat} {f : Failure} (h : Going s v n) (hv : v n = .fault f) :
    Ends s names v (n + 1) (.error f)

section

variable {s : Settings} {names : List String} {v : Nat → Verdict} {n : Nat} {r : Except Failure Report}

theorem Going.zero (h : 0 < s.trials) : Going s v 0 :=
  ⟨fun k hk => absurd hk (Nat.not_lt_zero k), h, Int.le_max_right _ _⟩

theorem Going.pred (h : Going s v (n + 1)) : Going s v n := by
  have hpasses : ∀ k < n, (v k).passes = true := fun k hk => h.passes k (by omega)
  have htrials := h.trials
  have hretries := h.retries
  cases hv : (v n).sample? with
  | none =>
    rw [samplesBefore_succ_of_none hv] at htrials
    rw [errorsBefore_succ_of_none hv] at hretries
    exact ⟨hpasses, htrials, by omega⟩
  | some x =>
    rw [samplesBefore_succ hv, List.length_append, List.length_singleton] at htrials
    rw [errorsBefore_succ hv] at hretries
    exact ⟨hpasses, by omega, hretries⟩

/-- Verdicts that pass where others do, with samples for theirs, let a check come as far. -/
theorem Going.map {v' : Nat → Verdict} {f : Sample → Sample} (hpasses : ∀ k, (v k).passes = true → (v' k).passes = true)
    (hsample : ∀ k, (v' k).sample? = (v k).sample?.map f) (h : Going s v n) : Going s v' n := by
  refine ⟨fun k hk => hpasses k (h.passes k hk), ?_, ?_⟩
  · rw [samplesBefore_map hsample, List.length_map]
    exact h.trials
  · rw [errorsBefore_map hsample]
    exact h.retries

theorem Going.lt (h : Going s v n) : (n : Int) < max s.trials 0 + max s.maxRetries 0 := by
  have hcount := length_samplesBefore_add v n
  have htrials := h.trials
  have hretries := h.retries
  omega

theorem Going.passes_succ (h : Going s v n) (hv : (v n).passes = true) :
    ∀ k < n + 1, (v k).passes = true := by
  intro k hk
  rcases Nat.lt_succ_iff_lt_or_eq.1 hk with hk | rfl
  · exact h.passes k hk
  · exact hv

theorem Going.succ_or_ends (h : Going s v n) (names : List String) :
    Going s v (n + 1) ∨ ∃ r, Ends s names v (n + 1) r := by
  have htrials := h.trials
  have hretries := h.retries
  cases hv : v n with
  | agree x =>
    have hx : (v n).sample? = some x := by rw [hv]; rfl
    by_cases hlast : ((samplesBefore v n).length : Int) + 1 = s.trials
    · exact .inr ⟨_, .agree h hv hlast⟩
    · refine .inl ⟨h.passes_succ (by rw [hv]; rfl), ?_, by rwa [errorsBefore_succ hx]⟩
      rw [samplesBefore_succ hx, List.length_append, List.length_singleton]
      omega
  | differ x => exact .inr ⟨_, .differ h hv⟩
  | error e =>
    have hx : (v n).sample? = none := by rw [hv]; rfl
    by_cases hR : s.maxRetries ≤ 0
    · exact .inr ⟨_, .error h hv hR⟩
    by_cases hlast : (errorsBefore v n : Int) = s.maxRetries
    · exact .inr ⟨_, .inconclusive h hv (by omega) hlast⟩
    · refine .inl ⟨h.passes_succ (by rw [hv]; rfl), by rwa [samplesBefore_succ_of_none hx], ?_⟩
      rw [errorsBefore_succ_of_none hx]
      omega
  | fault f => exact .inr ⟨_, .fault h hv⟩

theorem Ends.le (h : Ends s names v n r) : (n : Int) ≤ max s.trials 0 + max s.maxRetries 0 := by
  cases h with
  | none h => omega
  | differ h _ | agree h _ _ | error h _ _ | inconclusive h _ _ _ | fault h _ =>
    have := h.lt
    omega

/-- The verdicts run out of trials or of retries. -/
theorem exists_ends (s : Settings) (names : List String) (v : Nat → Verdict) :
    ∃ n r, Ends s names v n r := by
  by_contra hnone
  -- without an end every draw would be taken, also the one that the trials and retries do not cover
  have hends : ∀ n r, ¬ Ends s names v n r := fun n r h => hnone ⟨n, r, h⟩
  have hgoing : ∀ n, Going s v n := by
    intro n
    induction n with
    | zero =>
      by_cases htrials : s.trials ≤ 0
      · exact absurd (Ends.none htrials) (hends _ _)
      · exact Going.zero (by omega)
    | succ n ih =>
      rcases ih.succ_or_ends names with h | ⟨r, h⟩
      · exact h
      · exact absurd h (hends _ _)
  have := (hgoing (max s.trials 0 + max s.maxRetries 0).toNat).lt
  omega

end

/-! ### The loop -/

/-- The loop is about to take the draw `n`, the check having begun with the draw `d`. -/
structure At (v : Nat → Verdict) (d n : Nat) (p : State) : Prop where
  drawn : p.drawn = d + n
  trialsRun : p.trialsRun = (samplesBefore v n).length
  retries : p.retries = errorsBefore v n
  samples : p.samples = samplesBefore v n

namespace At

variable {v : Nat → Verdict} {d n : Nat} {p : State}

theorem record {x : Sample} (h : At v d n p) (hv : (v n).sample? = some x) :
    At v d (n + 1) (p.record x) := by
  refine ⟨?_, ?_, ?_, ?_⟩
  · show p.drawn + 1 = d + (n + 1)
    rw [h.drawn, Nat.add_assoc]
  · show p.trialsRun + 1 = (samplesBefore v (n + 1)).length
    rw [h.trialsRun, samplesBefore_succ hv, List.length_append, List.length_singleton]
  · show p.retries = errorsBefore v (n + 1)
    rw [h.retries, errorsBefore_succ hv]
  · show p.samples ++ [x] = samplesBefore v (n + 1)
    rw [h.samples, samplesBefore_succ hv]

theorem discard (h : At v d n p) (hv : (v n).sample? = none) (e : EvalError) :
    At v d (n + 1) (p.discard e) := by
  refine ⟨?_, ?_, ?_, ?_⟩
  · show p.drawn + 1 = d + (n + 1)
    rw [h.drawn, Nat.add_assoc]
  · show p.trialsRun = (samplesBefore v (n + 1)).length
    rw [h.trialsRun, samplesBefore_succ_of_none hv]
  · show p.retries + 1 = errorsBefore v (n + 1)
    rw [h.retries, errorsBefore_succ_of_none hv]
  · show p.samples = samplesBefore v (n + 1)
    rw [h.samples, samplesBefore_succ_of_none hv]

end At

section

variable [Elementary] {s : Settings} {draws : Draws} {a b : Expr} {d : Nat} {env : Nat → Environment}
  {v : Nat → Verdict} {n : Nat}

theorem At.loop_eq {p : State} (hp : At v d n p) (hdraws : ∀ k, draws (d + k) = .ok (env k))
    (hv : ∀ k, verdict s.tolerance a b (env k) = v k) (h : Going s v n) (spare : Nat) :
    loop s draws a b (s.trials.toNat - (samplesBefore v n).length) spare p = match v n with
      | .agree x => loop s draws a b (s.trials.toNat - ((samplesBefore v n).length + 1)) spare (p.record x)
      | .differ x => (p.record x).differ (names a b) x
      | .error e =>
        if s.maxRetries ≤ 0 then ⟨.error (.eval e), p.drawn + 1, p.notes⟩
        else match spare with
          | 0 => (p.discard e).stop (.inconclusive (p.retries + 1) e)
          | k + 1 => loop s draws a b (s.trials.toNat - (samplesBefore v n).length) k (p.discard e)
      | .fault f => ⟨.error f, p.drawn + 1, p.notes⟩ := by
  have htrials := h.trials
  have hdraw : draws p.drawn = .ok (env n) := by rw [hp.drawn]; exact hdraws n
  obtain ⟨m, hm⟩ : ∃ m, s.trials.toNat - (samplesBefore v n).length = m + 1 :=
    ⟨s.trials.toNat - (samplesBefore v n).length - 1, by omega⟩
  rw [hm, loop_succ hdraw, hv n]
  rw [show s.trials.toNat - ((samplesBefore v n).length + 1) = m by omega]

/-- A check that comes to the draw `n` has the rest of its trials and of its retries left there. -/
theorem run_eq_loop (hdraws : ∀ k, draws (d + k) = .ok (env k))
    (hv : ∀ k, verdict s.tolerance a b (env k) = v k) (h : Going s v n) :
    ∃ p, At v d n p ∧ run s draws a b d =
      loop s draws a b (s.trials.toNat - (samplesBefore v n).length)
        (s.maxRetries.toNat - errorsBefore v n) p := by
  induction n with
  | zero => exact ⟨.start d, ⟨rfl, rfl, rfl, rfl⟩, rfl⟩
  | succ n ih =>
    -- the draw `n` neither ends the check nor uses up the retries, since the check comes to the next one
    obtain ⟨p, hp, hrun⟩ := ih h.pred
    rw [hp.loop_eq hdraws hv h.pred] at hrun
    have hpass := h.passes n (Nat.lt_succ_self n)
    cases hx : v n with
    | agree x =>
      have hsample : (v n).sample? = some x := by rw [hx]; rfl
      refine ⟨p.record x, hp.record hsample, ?_⟩
      rw [hrun, hx, samplesBefore_succ hsample, errorsBefore_succ hsample, List.length_append,
        List.length_singleton]
    | error e =>
      have hsample : (v n).sample? = none := by rw [hx]; rfl
      have hretries := h.retries
      rw [errorsBefore_succ_of_none hsample] at hretries
      obtain ⟨k, hk⟩ : ∃ k, s.maxRetries.toNat - errorsBefore v n = k + 1 :=
        ⟨s.maxRetries.toNat - errorsBefore v n - 1, by omega⟩
      have hk' : s.maxRetries.toNat - (errorsBefore v n + 1) = k := by omega
      refine ⟨p.discard e, hp.discard hsample e, ?_⟩
      rw [hrun, hx, samplesBefore_succ_of_none hsample, errorsBefore_succ_of_none hsample, hk, hk']
      exact if_neg (by omega)
    | differ x => rw [hx] at hpass; exact absurd hpass Bool.false_ne_true
    | fault f => rw [hx] at hpass; exact absurd hpass Bool.false_ne_true

/-- The state that the verdicts lead to takes the last draw. -/
theorem Ends.run_eq {r : Except Failure Report} (h : Ends s (names a b) v n r)
    (hdraws : ∀ k, draws (d + k) = .ok (env k)) (hv : ∀ k, verdict s.tolerance a b (env k) = v k) :
    (run s draws a b d).drawn = d + n ∧ (run s draws a b d).result = r := by
  cases h with
  | none htrials =>
    have hzero : s.trials.toNat = 0 := by omega
    rw [run, hzero, loop]
    exact ⟨rfl, rfl⟩
  | @differ n x hg hx =>
    obtain ⟨p, hp, hrun⟩ := run_eq_loop hdraws hv hg
    rw [hp.loop_eq hdraws hv hg, hx] at hrun
    rw [hrun, Report.difference, ← hp.retries, ← hp.trialsRun, ← hp.samples]
    exact ⟨congrArg (· + 1) hp.drawn, rfl⟩
  | @agree n x hg hx hlast =>
    obtain ⟨p, hp, hrun⟩ := run_eq_loop hdraws hv hg
    have hzero : s.trials.toNat - ((samplesBefore v n).length + 1) = 0 := by omega
    rw [hp.loop_eq hdraws hv hg, hx, hzero] at hrun
    dsimp only at hrun
    rw [loop] at hrun
    rw [hrun, Report.agreement, List.length_append, List.length_singleton, ← hp.retries, ← hp.trialsRun, ← hp.samples]
    exact ⟨congrArg (· + 1) hp.drawn, rfl⟩
  | @error n e hg hx hretries =>
    obtain ⟨p, hp, hrun⟩ := run_eq_loop hdraws hv hg
    rw [hp.loop_eq hdraws hv hg, hx] at hrun
    dsimp only at hrun
    rw [if_pos hretries] at hrun
    rw [hrun]
    exact ⟨congrArg (· + 1) hp.drawn, rfl⟩
  | @inconclusive n e hg hx hretries hlast =>
    obtain ⟨p, hp, hrun⟩ := run_eq_loop hdraws hv hg
    have hzero : s.maxRetries.toNat - errorsBefore v n = 0 := by omega
    have hcount : p.retries = s.maxRetries.toNat := by rw [hp.retries]; omega
    rw [hp.loop_eq hdraws hv hg, hx, hzero] at hrun
    dsimp only at hrun
    rw [if_neg (by omega), hcount] at hrun
    rw [hrun]
    exact ⟨congrArg (· + 1) hp.drawn, rfl⟩
  | @fault n f hg hx =>
    obtain ⟨p, hp, hrun⟩ := run_eq_loop hdraws hv hg
    rw [hp.loop_eq hdraws hv hg, hx] at hrun
    rw [hrun]
    exact ⟨congrArg (· + 1) hp.drawn, rfl⟩

/-- A check takes at most as many draws as it has trials and retries together, it ends as the verdicts on the
draws say, and where it finds a difference, the counterexample is the last draw with its two values. -/
theorem run_ends (s : Settings) (draws : Draws) (a b : Expr) (d : Nat) (env : Nat → Environment)
    (hdraws : ∀ k, draws (d + k) = .ok (env k)) :
    (∃ n : Nat, (n : Int) ≤ max s.trials 0 + max s.maxRetries 0 ∧ (run s draws a b d).drawn = d + n ∧
      Ends s (names a b) (verdicts s a b env) n (run s draws a b d).result) ∧
    (∀ n r, Ends s (names a b) (verdicts s a b env) n r →
      (run s draws a b d).drawn = d + n ∧ (run s draws a b d).result = r) ∧
    ∀ r, (run s draws a b d).result = .ok r →
      (r.equivalent = true → r.counterexample? = none ∧ r.left? = none ∧ r.right? = none ∧
        (r.trialsRun : Int) = max s.trials 0) ∧
      (r.equivalent = false → ∃ n z w, Going s (verdicts s a b env) n ∧ (run s draws a b d).drawn = d + n + 1 ∧
        r.counterexample? = some (env n) ∧ r.left? = some z ∧ r.right? = some w ∧ a.evaluate (env n) = .ok z ∧
        b.evaluate (env n) = .ok w ∧ z.near w s.tolerance = false) := by
  obtain ⟨n, o, h⟩ := exists_ends s (names a b) (verdicts s a b env)
  obtain ⟨hdrawn, hresult⟩ := h.run_eq hdraws fun _ => rfl
  refine ⟨⟨n, h.le, hdrawn, hresult ▸ h⟩, fun m r hm => hm.run_eq hdraws fun _ => rfl, fun r hr => ?_⟩
  rw [hresult] at hr
  subst hr
  cases h with
  | none htrials =>
    refine ⟨fun _ => ⟨rfl, rfl, rfl, ?_⟩, fun hr => absurd hr (by simp [Report.agreement])⟩
    show (0 : Int) = max s.trials 0
    omega
  | @differ n x hg hx =>
    obtain ⟨henv, hleft, hright, hnear⟩ := values_of_verdict hx
    exact ⟨fun hr => absurd hr Bool.false_ne_true,
      fun _ => ⟨n, x.left, x.right, hg, hdrawn, congrArg some henv, rfl, rfl, hleft, hright, hnear⟩⟩
  | @agree n x hg hx hlast =>
    refine ⟨fun _ => ⟨rfl, rfl, rfl, ?_⟩, fun hr => absurd hr (by simp [Report.agreement])⟩
    show ((samplesBefore (verdicts s a b env) n ++ [x]).length : Int) = max s.trials 0
    rw [List.length_append, List.length_singleton]
    omega

end

/-- The first draw gives no value, the second one agrees and the third one differs. -/
theorem run_discards_then_differs :
    let s : Settings := { trials := 3, maxRetries := 1 }
    let env (k : Nat) : Environment :=
      ("x", .complex ⟨1, 0⟩) :: if k = 0 then [] else [("y", .complex ⟨if k = 1 then 1 else 2, 0⟩)]
    let o := run s (fun k => .ok (env k)) (.var "x") (.var "y") 0
    o.drawn = 3 ∧ o.result = .ok ⟨false, ["x", "y"], 2, 1, some (env 2), some ⟨1, 0⟩, some ⟨2, 0⟩,
      [⟨[("x", .complex ⟨1, 0⟩), ("y", .complex ⟨1, 0⟩)], ⟨1, 0⟩, ⟨1, 0⟩⟩,
        ⟨[("x", .complex ⟨1, 0⟩), ("y", .complex ⟨2, 0⟩)], ⟨1, 0⟩, ⟨2, 0⟩⟩]⟩ := by
  intro s env o
  have hgoing : Going s (verdicts s (.var "x") (.var "y") env) 2 :=
    ⟨by decide +kernel, by decide +kernel, by decide +kernel⟩
  have hdraws : ∀ k, (fun k => Except.ok (env k) : Draws) (0 + k) = .ok (env k) := fun k => by
    rw [Nat.zero_add]
  exact (run_ends s (fun k => .ok (env k)) (.var "x") (.var "y") 0 env hdraws).2.1 3 _ (.differ hgoing rfl)

end Check

end Phasor
