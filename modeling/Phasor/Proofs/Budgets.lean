import Phasor.Proofs.CheckOutcome
import Phasor.Proofs.Tolerances

/-!
# Checks with greater budgets

A check that comes to a draw comes to it with more trials or more retries too (`Going.mono`), and a report is made
behind every draw that the check comes to (`Going.lt_of_report`). So an end that is not due to a budget stays where
it is, and the samples of a check that ran out of trials are the first ones of each report with more trials. A
greater tolerance turns differences into agreement and changes no value (`Verdict.Relaxes`).
-/

namespace Phasor.Check

variable {s s' : Settings} {names : List String} {v v' : ℕ → Verdict} {n m : ℕ} {o : Except Failure Report}
  {r r' : Report}

/-! ### More draws -/

theorem prefix_samplesBefore (v : ℕ → Verdict) (h : n ≤ m) : samplesBefore v n <+: samplesBefore v m := by
  induction m with
  | zero => rw [Nat.le_zero.1 h]
  | succ m ih =>
    rcases Nat.le_or_eq_of_le_succ h with hle | rfl
    · refine (ih hle).trans ?_
      cases hm : (v m).sample? with
      | none => rw [samplesBefore_succ_of_none hm]
      | some x => exact ⟨[x], (samplesBefore_succ hm).symm⟩
    · exact List.prefix_refl _

theorem Ends.samples_eq (h : Ends s names v n (.ok r)) : r.samples = samplesBefore v n := by
  cases h with
  | none _ => rfl
  | @differ n x hgoing hx => exact (samplesBefore_succ (by rw [hx]; rfl)).symm
  | @agree n x hgoing hx hlast => exact (samplesBefore_succ (by rw [hx]; rfl)).symm

/-- No report is made before a draw that the check comes to. -/
theorem Going.lt_of_report (h : Going s v m) (hends : Ends s names v n (.ok r)) : m < n := by
  by_contra hle
  have htrials := h.trials
  cases hends with
  | none hnone => omega
  | @differ n x hgoing hx =>
    have hpass := h.passes n (by omega)
    rw [hx] at hpass
    exact Bool.false_ne_true hpass
  | @agree n x hgoing hx hlast =>
    have hlength := (prefix_samplesBefore v (show n + 1 ≤ m by omega)).length_le
    rw [samplesBefore_succ (x := x) (by rw [hx]; rfl), List.length_append, List.length_singleton] at hlength
    omega

/-! ### Greater budgets -/

theorem Going.mono (h : Going s v n) (htrials : s.trials ≤ s'.trials) (hretries : s.maxRetries ≤ s'.maxRetries) :
    Going s' v n := by
  have hsamples := h.trials
  have herrors := h.retries
  exact ⟨h.passes, by omega, by omega⟩

/-- A report was made within its retries, and more of them do not change it. -/
theorem Ends.more_retries (h : Ends s names v n (.ok r)) {R : ℤ} (hR : s.maxRetries ≤ R) :
    Ends { s with maxRetries := R } names v n (.ok r) := by
  cases h with
  | none htrials => exact .none htrials
  | differ hgoing hx => exact .differ (hgoing.mono le_rfl hR) hx
  | agree hgoing hx hlast => exact .agree (hgoing.mono le_rfl hR) hx hlast

/-- Only a check that finds the expressions equivalent would have gone on with more trials. -/
theorem Ends.more_trials (h : Ends s names v n o) (ho : ∀ r, o = .ok r → r.equivalent = false) {T : ℤ}
    (hT : s.trials ≤ T) : Ends { s with trials := T } names v n o := by
  cases h with
  | none htrials => exact absurd (ho _ rfl) (by simp [Report.agreement])
  | differ hgoing hx => exact .differ (hgoing.mono hT le_rfl) hx
  | agree hgoing hx hlast => exact absurd (ho _ rfl) (by simp [Report.agreement])
  | error hgoing hx hretries => exact .error (hgoing.mono hT le_rfl) hx hretries
  | inconclusive hgoing hx hretries hlast => exact .inconclusive (hgoing.mono hT le_rfl) hx hretries hlast
  | fault hgoing hx => exact .fault (hgoing.mono hT le_rfl) hx

theorem Ends.prefix_samples (h : Ends s names v n (.ok r)) {T : ℤ} (hT : s.trials ≤ T)
    (h' : Ends { s with trials := T } names v m (.ok r')) : r.samples <+: r'.samples := by
  rw [h.samples_eq, h'.samples_eq]
  refine prefix_samplesBefore v ?_
  cases h with
  | none _ => exact Nat.zero_le m
  | differ hgoing _ | agree hgoing _ _ =>
    have hmore : Going { s with trials := T } v _ := hgoing.mono hT le_rfl
    exact hmore.lt_of_report h'

/-! ### Greater tolerances -/

/-- Agreement may have become possible, and the values are the same. -/
inductive Verdict.Relaxes : Verdict → Verdict → Prop
  | refl (u : Verdict) : Relaxes u u
  | agree (x : Sample) : Relaxes (differ x) (agree x)

theorem verdict_relaxes [Elementary] {t t' : Scalar} (h : t.AtMost t') (a b : Expr) (env : Environment) :
    (verdict t a b env).Relaxes (verdict t' a b env) := by
  unfold verdict
  cases a.evaluate env with
  | error f => exact .refl _
  | ok z =>
    cases b.evaluate env with
    | error f => exact .refl _
    | ok w =>
      dsimp only
      by_cases hnear : z.near w t = true
      · rw [if_pos hnear, if_pos (Complex.near_of_atMost h hnear)]
        exact .refl _
      · rw [if_neg hnear]
        split
        · exact .agree _
        · exact .refl _

namespace Verdict.Relaxes

variable {u u' : Verdict} {x : Sample}

theorem sample?_eq (h : u.Relaxes u') : u'.sample? = u.sample?.map id := by
  cases h with
  | refl => exact Option.map_id_apply.symm
  | agree x => rfl

theorem passes (h : u.Relaxes u') (hu : u.passes = true) : u'.passes = true := by
  cases h with
  | refl => exact hu
  | agree x => rfl

theorem of_agree (h : u.Relaxes u') (hu : u = .agree x) : u' = .agree x := by
  subst hu
  cases h
  rfl

end Verdict.Relaxes

section

variable (hv : ∀ k, (v k).Relaxes (v' k))

include hv

theorem samplesBefore_relaxed (n : ℕ) : samplesBefore v' n = samplesBefore v n :=
  (samplesBefore_map (fun k => (hv k).sample?_eq) n).trans (List.map_id _)

theorem errorsBefore_relaxed (n : ℕ) : errorsBefore v' n = errorsBefore v n :=
  errorsBefore_map (fun k => (hv k).sample?_eq) n

theorem Going.relaxed (h : Going s v n) : Going s v' n :=
  h.map (fun k => (hv k).passes) fun k => (hv k).sample?_eq

/-- Expressions that are equivalent are so after the same draws. -/
theorem Ends.relaxed (h : Ends s names v n (.ok r)) (hr : r.equivalent = true) (t : Scalar) :
    Ends { s with tolerance := t } names v' n (.ok r) := by
  cases h with
  | none htrials => exact .none htrials
  | differ hgoing hx => exact absurd hr Bool.false_ne_true
  | @agree n x hgoing hx hlast =>
    rw [← samplesBefore_relaxed hv, ← errorsBefore_relaxed hv]
    refine .agree ((hgoing.relaxed hv).mono le_rfl le_rfl) ((hv n).of_agree hx) ?_
    rw [samplesBefore_relaxed hv]
    exact hlast

end

/-- On the same draws, more retries leave every report as it is, and more trials leave every end but equivalence as it
is, and there every report begins with the samples of that one. What is equivalent stays so with a greater tolerance,
in the same report. -/
theorem run_with_greater_budgets [Elementary] (s : Settings) (draws : Draws) (a b : Expr) (d : ℕ) (env : ℕ → Environment)
    (hdraws : ∀ k, draws (d + k) = .ok (env k)) :
    (∀ r R, (run s draws a b d).result = .ok r → s.maxRetries ≤ R →
      (run { s with maxRetries := R } draws a b d).result = .ok r) ∧
    (∀ T, (∀ r, (run s draws a b d).result = .ok r → r.equivalent = false) → s.trials ≤ T →
      (run { s with trials := T } draws a b d).result = (run s draws a b d).result) ∧
    (∀ r T, (run s draws a b d).result = .ok r → r.equivalent = true → s.trials ≤ T →
      ∀ r', (run { s with trials := T } draws a b d).result = .ok r' → r.samples <+: r'.samples) ∧
    ∀ r t, (run s draws a b d).result = .ok r → r.equivalent = true → s.tolerance.AtMost t →
      (run { s with tolerance := t } draws a b d).result = .ok r := by
  obtain ⟨n, o, hends⟩ := exists_ends s (Check.names a b) (verdicts s a b env)
  obtain ⟨-, hresult⟩ := hends.run_eq hdraws fun _ => rfl
  rw [hresult]
  refine ⟨?_, ?_, ?_, ?_⟩
  · rintro r R rfl hR
    exact ((hends.more_retries hR).run_eq hdraws fun _ => rfl).2
  · intro T ho hT
    exact ((hends.more_trials ho hT).run_eq hdraws fun _ => rfl).2
  · rintro r T rfl - hT r' hr'
    obtain ⟨m, o', hends'⟩ := exists_ends { s with trials := T } (Check.names a b) (verdicts s a b env)
    obtain ⟨-, hresult'⟩ := hends'.run_eq hdraws fun _ => rfl
    obtain rfl : o' = .ok r' := hresult'.symm.trans hr'
    exact hends.prefix_samples hT hends'
  · rintro r t rfl hr ht
    exact ((hends.relaxed (fun k => verdict_relaxes ht a b (env k)) hr t).run_eq hdraws fun _ => rfl).2

/-- The first draw is discarded, the second one agrees within 1 and the third one does not. -/
theorem run_with_more_trials_differs :
    let s : Settings := { trials := 1, tolerance := .int 1, maxRetries := 1 }
    let near : Environment := [("x", .complex ⟨1, 0⟩), ("y", .complex ⟨1.5, 0⟩)]
    let far : Environment := [("x", .complex ⟨1, 0⟩), ("y", .complex ⟨2, 0⟩)]
    let draws : Draws := fun k => .ok (if k = 0 then [] else if k = 1 then near else far)
    let run' (s : Settings) := (run s draws (.var "x") (.var "y") 0).result
    let r : Report := .agreement ["x", "y"] 1 [⟨near, ⟨1, 0⟩, ⟨1.5, 0⟩⟩]
    let r' : Report := .difference ["x", "y"] 1 r.samples ⟨far, ⟨1, 0⟩, ⟨2, 0⟩⟩
    run' s = .ok r ∧ run' { s with maxRetries := 5 } = .ok r ∧ run' { s with tolerance := .int 2 } = .ok r ∧
      run' { s with trials := 3 } = .ok r' ∧ run' { s with trials := 7 } = .ok r' ∧ r.samples <+: r'.samples := by
  intro s near far draws run' r r'
  let env (k : ℕ) : Environment := if k = 0 then [] else if k = 1 then near else far
  have hdraws : ∀ k, draws (0 + k) = .ok (env k) := fun k => by rw [Nat.zero_add]
  have hgoing : Going s (verdicts s (.var "x") (.var "y") env) 1 :=
    ⟨by decide +kernel, by decide +kernel, by decide +kernel⟩
  have hgoing' : Going { s with trials := 3 } (verdicts s (.var "x") (.var "y") env) 2 :=
    ⟨by decide +kernel, by decide +kernel, by decide +kernel⟩
  have hr : run' s = .ok r := ((Ends.agree hgoing rfl rfl).run_eq hdraws fun _ => rfl).2
  have hr' : run' { s with trials := 3 } = .ok r' := ((Ends.differ hgoing' rfl).run_eq hdraws fun _ => rfl).2
  obtain ⟨hretries, -, hprefix, htolerance⟩ := run_with_greater_budgets s draws (.var "x") (.var "y") 0 env hdraws
  obtain ⟨-, htrials, -, -⟩ :=
    run_with_greater_budgets { s with trials := 3 } draws (.var "x") (.var "y") 0 env hdraws
  have hdiffers : ∀ q, run' { s with trials := 3 } = .ok q → q.equivalent = false := by
    intro q hq
    obtain rfl := Except.ok.inj (hr'.symm.trans hq)
    rfl
  have hle : s.tolerance.AtMost (.int 2) := ⟨_, rfl, _, rfl, by norm_cast⟩
  exact ⟨hr, hretries r 5 hr (by decide), htolerance r (.int 2) hr rfl hle, hr',
    (htrials 7 hdiffers (by decide)).trans hr', hprefix r 3 hr rfl (by decide) r' hr'⟩

end Phasor.Check
