import Phasor.Proofs.CheckOutcome
import Phasor.Proofs.Values

/-!
# Exchanging the sides of a check

The distance of two doubles is the same from either side (`Double.abs_sub_comm`), so the verdicts on one
environment with the expressions exchanged mirror each other. The draws before a given one then have as many
errors and as many samples on both sides, and a check of the exchanged expressions comes to the same end.
-/

namespace Phasor

namespace Double

open Float.Model Float.Model.UnpackedFloat

variable {x y : Float} {q : ℚ}

theorem abs_ofRounded (s : Sign) (n : ℕ) (t : ℤ) : (ofRounded s n t).abs = ofRounded .positive n t := by
  unfold ofRounded
  split
  · rfl
  · split <;> rfl

theorem unpack_pack_infinity (s : Sign) : (Float.Model.pack (.infinity s)).unpack = .infinity s := by
  cases s <;> rfl

/-- The magnitude of a rounded result is the rounded magnitude. -/
theorem RoundsTo.abs_eq (h : RoundsTo x q) : x.abs = nearest |q| := by
  obtain ⟨s, r, hr, rfl, hx⟩ := h
  rw [abs_factor_mul s hr]
  refine eq_of_unpack ?_
  show (Float.Model.pack x.toModel.unpack.abs).unpack = (Float.Model.pack (rounded .positive r)).unpack
  rcases lt_or_ge r limit with hlt | hge
  · rw [hx, unpack_pack_rounded s hr hlt, rounded, abs_ofRounded, rounded]
  · rw [hx, overflow_rounded s hge, overflow_rounded .positive hge]
    exact unpack_pack_infinity .positive

/-- An infinity or a NaN gives infinities, or no numbers, on either side of a difference. -/
theorem abs_sub_unpacked {u v : UnpackedFloat} (h : ¬ (u.isFinite = true ∧ v.isFinite = true)) :
    (Float.Model.pack (UnpackedFloat.sub .binary64 u v)).unpack.abs =
      (Float.Model.pack (UnpackedFloat.sub .binary64 v u)).unpack.abs := by
  have hinfinity (s s' : Sign) :
      (Float.Model.pack (.infinity s)).unpack.abs = (Float.Model.pack (.infinity s')).unpack.abs := by
    rw [unpack_pack_infinity, unpack_pack_infinity]
    rfl
  cases u with
  | notANumber => cases v <;> rfl
  | infinity s =>
    cases v with
    | notANumber => rfl
    | infinity s' => cases s <;> cases s' <;> rfl
    | zero | finite => exact hinfinity s (-s)
  | zero | finite =>
    cases v with
    | notANumber => rfl
    | infinity s' => exact hinfinity (-s') s'
    | zero | finite => exact absurd ⟨rfl, rfl⟩ h

/-- The distance of two doubles is the same from either side. -/
protected theorem abs_sub_comm (x y : Float) : (x - y).abs = (y - x).abs := by
  by_cases h : x.isFinite = true ∧ y.isFinite = true
  · obtain ⟨hx, hy⟩ := h
    rw [(roundsTo_sub hx hy).abs_eq, (roundsTo_sub hy hx).abs_eq, abs_sub_comm]
  · exact congrArg (fun u => Float.ofModel (.pack u)) (abs_sub_unpacked h)

end Double

theorem Complex.near_comm (z w : Complex) (tolerance : Scalar) :
    z.near w tolerance = w.near z tolerance := by
  rw [near, near, Double.abs_sub_comm z.re, Double.abs_sub_comm z.im]

namespace Names

theorem pairwise_insert {ns : List String} (h : ns.Pairwise (· < ·)) (n : String) :
    (insert n ns).Pairwise (· < ·) := by
  induction ns with
  | nil => exact List.pairwise_singleton _ n
  | cons m ms ih =>
    obtain ⟨hm, hms⟩ := List.pairwise_cons.1 h
    rw [insert]
    split
    · rename_i hlt
      refine List.pairwise_cons.2 ⟨fun a ha => ?_, h⟩
      rcases List.mem_cons.1 ha with rfl | ha
      · exact hlt
      · exact hlt.trans (hm a ha)
    split
    · exact h
    · rename_i hlt hne
      refine List.pairwise_cons.2 ⟨fun a ha => ?_, ih hms⟩
      rcases mem_insert.1 ha with rfl | ha
      · exact lt_of_le_of_ne (not_lt.1 hlt) (Ne.symm hne)
      · exact hm a ha

theorem pairwise_sorted (ns : List String) : (sorted ns).Pairwise (· < ·) := by
  induction ns with
  | nil => exact List.Pairwise.nil
  | cons n ns ih => exact pairwise_insert ih n

/-- What is sorted is fixed by the names that occur. -/
theorem sorted_congr {ns ms : List String} (h : ∀ n, n ∈ ns ↔ n ∈ ms) : sorted ns = sorted ms := by
  refine (pairwise_sorted ns).eq_of_mem_iff (pairwise_sorted ms) fun n => ?_
  rw [mem_sorted, mem_sorted]
  exact h n

end Names

/-! ### The other side -/

/-- The sample with its values exchanged. -/
def Sample.mirror (x : Sample) : Sample := ⟨x.env, x.right, x.left⟩

def Report.mirror (r : Report) : Report :=
  { r with left? := r.right?, right? := r.left?, samples := r.samples.map Sample.mirror }

namespace Report

variable (names : List String) (retries : ℕ) (samples : List Sample) (x : Sample)

theorem agreement_mirror :
    agreement names retries (samples.map Sample.mirror) = (agreement names retries samples).mirror := by
  simp only [agreement, mirror, List.length_map]

theorem difference_mirror : difference names retries (samples.map Sample.mirror) x.mirror =
    (difference names retries samples x).mirror := by
  simp only [difference, mirror, Sample.mirror, List.length_map, List.map_append, List.map_cons, List.map_nil]

end Report

namespace Check

theorem names_comm (a b : Expr) : names b a = names a b :=
  Names.sorted_congr fun n => by rw [List.mem_append, List.mem_append, or_comm]

/-- What the two sides see of one environment. Where both have an error, each sees the one it comes to first. -/
inductive Verdict.Mirrors : Verdict → Verdict → Prop
  | agree (x : Sample) : Mirrors (agree x) (agree x.mirror)
  | differ (x : Sample) : Mirrors (differ x) (differ x.mirror)
  | error (e e' : EvalError) : Mirrors (error e) (error e')

/-- The results of the two sides. -/
inductive Mirrored : Except Failure Report → Except Failure Report → Prop
  | report (r : Report) : Mirrored (.ok r) (.ok r.mirror)
  | error (e e' : EvalError) : Mirrored (.error (.eval e)) (.error (.eval e'))
  | inconclusive (n : ℕ) (e e' : EvalError) :
    Mirrored (.error (.inconclusive n e)) (.error (.inconclusive n e'))

variable {s : Settings} {a b : Expr} {env : Environment} {v v' : ℕ → Verdict} {n : ℕ}

theorem verdict_mirrors [Elementary] (tolerance : Scalar) (ha : ∀ f, a.evaluate env = .error f → ∃ e, f = .eval e)
    (hb : ∀ f, b.evaluate env = .error f → ∃ e, f = .eval e) :
    (verdict tolerance a b env).Mirrors (verdict tolerance b a env) := by
  unfold verdict
  cases hz : a.evaluate env with
  | error f =>
    obtain ⟨e, rfl⟩ := ha f hz
    cases hw : b.evaluate env with
    | error g =>
      obtain ⟨e', rfl⟩ := hb g hw
      exact .error e e'
    | ok w => exact .error e e
  | ok z =>
    cases hw : b.evaluate env with
    | error g =>
      obtain ⟨e', rfl⟩ := hb g hw
      exact .error e' e'
    | ok w =>
      dsimp only
      rw [Complex.near_comm w z]
      split
      · exact .agree ⟨env, z, w⟩
      · exact .differ ⟨env, z, w⟩

namespace Verdict.Mirrors

variable {u u' : Verdict} {x : Sample} {e : EvalError} {f : Failure}

theorem sample?_eq (h : u.Mirrors u') : u'.sample? = u.sample?.map Sample.mirror := by
  cases h <;> rfl

theorem passes_eq (h : u.Mirrors u') : u'.passes = u.passes := by
  cases h <;> rfl

theorem of_agree (h : u.Mirrors u') (hu : u = .agree x) : u' = .agree x.mirror := by
  subst hu
  cases h
  rfl

theorem of_differ (h : u.Mirrors u') (hu : u = .differ x) : u' = .differ x.mirror := by
  subst hu
  cases h
  rfl

theorem of_error (h : u.Mirrors u') (hu : u = .error e) : ∃ e', u' = .error e' := by
  subst hu
  cases h
  exact ⟨_, rfl⟩

theorem ne_fault (h : u.Mirrors u') : u ≠ .fault f := by
  cases h <;> simp

end Verdict.Mirrors

section

variable (hv : ∀ k, (v k).Mirrors (v' k))

include hv

theorem samplesBefore_mirror (n : ℕ) : samplesBefore v' n = (samplesBefore v n).map Sample.mirror :=
  samplesBefore_map (fun k => (hv k).sample?_eq) n

theorem errorsBefore_mirror (n : ℕ) : errorsBefore v' n = errorsBefore v n :=
  errorsBefore_map (fun k => (hv k).sample?_eq) n

theorem Going.mirror (h : Going s v n) : Going s v' n :=
  h.map (fun k hk => (hv k).passes_eq.trans hk) fun k => (hv k).sample?_eq

/-- The two sides come to the same end. -/
theorem Ends.mirror {names : List String} {r : Except Failure Report} (h : Ends s names v n r) :
    ∃ r', Ends s names v' n r' ∧ Mirrored r r' := by
  cases h with
  | none htrials => exact ⟨_, .none htrials, .report (.agreement names 0 [])⟩
  | @differ n x hgoing hx =>
    refine ⟨_, .differ (hgoing.mirror hv) ((hv n).of_differ hx), ?_⟩
    rw [errorsBefore_mirror hv, samplesBefore_mirror hv, Report.difference_mirror]
    exact .report _
  | @agree n x hgoing hx hlast =>
    refine ⟨_, .agree (hgoing.mirror hv) ((hv n).of_agree hx) ?_, ?_⟩
    · rw [samplesBefore_mirror hv, List.length_map]
      exact hlast
    · have hsamples : samplesBefore v' n ++ [x.mirror] = (samplesBefore v n ++ [x]).map Sample.mirror := by
        rw [samplesBefore_mirror hv, List.map_append]
        rfl
      rw [errorsBefore_mirror hv, hsamples, Report.agreement_mirror]
      exact .report _
  | @error n e hgoing hx hretries =>
    obtain ⟨e', hx'⟩ := (hv n).of_error hx
    exact ⟨_, .error (hgoing.mirror hv) hx' hretries, .error e e'⟩
  | @inconclusive n e hgoing hx hretries hlast =>
    obtain ⟨e', hx'⟩ := (hv n).of_error hx
    refine ⟨_, .inconclusive (hgoing.mirror hv) hx' hretries ?_, .inconclusive _ e e'⟩
    rw [errorsBefore_mirror hv]
    exact hlast
  | @fault n f hgoing hx => exact absurd hx (hv n).ne_fault

end

/-- A check does not depend on which expression is the left one: with the expressions exchanged it takes as
many draws and ends in the same way, with the values of all samples exchanged. Only of two errors in one draw
the other one may be reported. -/
theorem run_mirrored [Elementary] (s : Settings) (draws : Draws) (a b : Expr) (d : ℕ) (env : ℕ → Environment)
    (hdraws : ∀ k, draws (d + k) = .ok (env k)) (ha : ∀ k f, a.evaluate (env k) = .error f → ∃ e, f = .eval e)
    (hb : ∀ k f, b.evaluate (env k) = .error f → ∃ e, f = .eval e) :
    (run s draws b a d).drawn = (run s draws a b d).drawn ∧
    Mirrored (run s draws a b d).result (run s draws b a d).result ∧
    ∀ r, (run s draws a b d).result = .ok r → ∃ r', (run s draws b a d).result = .ok r' ∧
      r'.equivalent = r.equivalent ∧ r'.names = r.names ∧ r'.trialsRun = r.trialsRun ∧ r'.retries = r.retries ∧
      r'.counterexample? = r.counterexample? ∧ r'.left? = r.right? ∧ r'.right? = r.left? ∧
      r'.samples = r.samples.map Sample.mirror := by
  obtain ⟨n, o, hends⟩ := exists_ends s (names a b) (verdicts s a b env)
  obtain ⟨o', hends', hmirrored⟩ := hends.mirror fun k => verdict_mirrors s.tolerance (ha k) (hb k)
  obtain ⟨hdrawn, hresult⟩ := hends.run_eq hdraws fun _ => rfl
  rw [← names_comm a b] at hends'
  obtain ⟨hdrawn', hresult'⟩ := hends'.run_eq hdraws fun _ => rfl
  rw [hdrawn, hdrawn', hresult, hresult']
  refine ⟨rfl, hmirrored, ?_⟩
  rintro r rfl
  cases hmirrored
  exact ⟨r.mirror, rfl, rfl, rfl, rfl, rfl, rfl, rfl, rfl, rfl⟩

/-- The first draw binds neither variable, so that the two sides come to different errors, and the second one
differs. -/
theorem run_mirrored_after_unbound :
    let s : Settings := { maxRetries := 1 }
    let bound : Environment := [("x", .complex ⟨1, 0⟩), ("y", .complex ⟨2, 0⟩)]
    let env (k : ℕ) : Environment := if k = 0 then [] else bound
    let draws : Draws := fun k => .ok (env k)
    (run s draws (.var "x") (.var "y") 0).result = .ok (.difference ["x", "y"] 1 [] ⟨bound, ⟨1, 0⟩, ⟨2, 0⟩⟩) ∧
      (run s draws (.var "y") (.var "x") 0).result = .ok (.difference ["x", "y"] 1 [] ⟨bound, ⟨2, 0⟩, ⟨1, 0⟩⟩) := by
  intro s bound env draws
  have hdraws : ∀ k, draws (0 + k) = .ok (env k) := fun k => by rw [Nat.zero_add]
  have hvar : ∀ name ∈ ["x", "y"], ∀ k f, (Expr.var name).evaluate (env k) = .error f → ∃ e, f = .eval e := by
    intro name hname k f hf
    by_cases hk : k = 0
    · obtain rfl := hk
      exact ⟨.unbound name, (Except.error.inj hf).symm⟩
    · have henv : env k = bound := if_neg hk
      rw [henv] at hf
      simp only [List.mem_cons, List.not_mem_nil, or_false] at hname
      rcases hname with rfl | rfl <;> exact nomatch hf
  have hgoing : Going s (verdicts s (.var "x") (.var "y") env) 1 :=
    ⟨by decide +kernel, by decide +kernel, by decide +kernel⟩
  have hresult : (run s draws (.var "x") (.var "y") 0).result = _ :=
    ((Ends.differ hgoing rfl).run_eq hdraws fun _ => rfl).2
  refine ⟨hresult, ?_⟩
  obtain ⟨-, hmirrored, -⟩ :=
    run_mirrored s draws (.var "x") (.var "y") 0 env hdraws (hvar "x" (by simp)) (hvar "y" (by simp))
  rw [hresult] at hmirrored
  generalize (run s draws (.var "y") (.var "x") 0).result = o at hmirrored
  cases hmirrored
  rfl

end Check

end Phasor
