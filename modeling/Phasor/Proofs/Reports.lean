import Phasor.Event
import Phasor.Proofs.CheckOutcome
import Phasor.Proofs.VariableUse

/-!
# Reports and what they show

A draw is recorded only if both expressions have a value on it (`Check.Recorded`), so the samples of a report bind
every variable of the two, whatever was drawn and whatever else the draws bind (`Check.recorded_of_run`). Hence the
report of a check can be shown, and its table has one full row for each trial (`Check.run_shows_trials`). A check
leaves the number system only where an evaluation does (`Check.fault_of_run`).
-/

namespace Phasor

namespace Check

section

variable [Elementary] {s : Settings} {draws : Draws} {a b : Expr} {env : Environment} {x : Sample} {p : State} {r : Report}

/-! ### Samples -/

omit [Elementary] in
theorem mem_names {m : String} : m ∈ names a b ↔ m ∈ a.variables ∨ m ∈ b.variables := by
  rw [names, Names.mem_sorted, List.mem_append]

/-- A draw on which both expressions have a value, with the values. -/
structure Recorded (a b : Expr) (x : Sample) : Prop where
  left : a.evaluate x.env = .ok x.left
  right : b.evaluate x.env = .ok x.right

theorem Recorded.binds (h : Recorded a b x) : ∀ m ∈ names a b, x.env.binds m = true := by
  intro m hm
  rcases mem_names.1 hm with hm | hm
  · exact Expr.binds_of_evaluate h.left hm
  · exact Expr.binds_of_evaluate h.right hm

theorem recorded_of_trial (h : trial a b env = .ok x) : Recorded a b x := by
  unfold trial at h
  split at h
  · exact absurd h (by simp)
  rename_i z hz
  split at h
  · exact absurd h (by simp)
  rename_i w hw
  obtain rfl := Except.ok.inj h
  exact ⟨hz, hw⟩

/-- All trials are recorded, and nothing else is. -/
structure State.Records (p : State) (a b : Expr) : Prop where
  samples : ∀ y ∈ p.samples, Recorded a b y
  trialsRun : p.trialsRun = p.samples.length

theorem State.Records.record (hp : p.Records a b) (hx : Recorded a b x) : (p.record x).Records a b := by
  refine ⟨fun y hy => ?_, ?_⟩
  · rcases List.mem_append.1 hy with hy | hy
    · exact hp.samples y hy
    · rw [List.mem_singleton.1 hy]
      exact hx
  · show p.trialsRun + 1 = (p.samples ++ [x]).length
    rw [hp.trialsRun, List.length_append, List.length_singleton]

/-- A report for `a` and `b` with a sample for each trial. -/
structure Reported (a b : Expr) (r : Report) : Prop where
  names : r.names = names a b
  samples : ∀ y ∈ r.samples, Recorded a b y
  trialsRun : r.trialsRun = r.samples.length

theorem reported_of_loop {remaining spare : Nat} (hp : p.Records a b)
    (h : (loop s draws a b remaining spare p).result = .ok r) : Reported a b r := by
  fun_induction loop s draws a b remaining spare p with
  | case1 spare p =>
    obtain rfl := Except.ok.inj h
    exact ⟨rfl, hp.samples, hp.trialsRun⟩
  | case3 spare p m env hdraw x htrial hnear ih => exact ih (hp.record (recorded_of_trial htrial)) h
  | case4 spare p m env hdraw x htrial hnear =>
    obtain rfl := Except.ok.inj h
    have hrecord := hp.record (recorded_of_trial htrial)
    exact ⟨rfl, hrecord.samples, hrecord.trialsRun⟩
  | case7 p m env hdraw e htrial hretries spare ih => exact ih ⟨hp.samples, hp.trialsRun⟩ h
  | _ => exact absurd h (by simp [State.stop])

theorem reported_of_run {d : Nat} (h : (run s draws a b d).result = .ok r) : Reported a b r :=
  reported_of_loop ⟨fun _ hy => absurd hy List.not_mem_nil, rfl⟩ h

theorem binds_of_run {d : Nat} (h : (run s draws a b d).result = .ok r) :
    ∀ y ∈ r.samples, ∀ m ∈ r.names, y.env.binds m = true := by
  have hreported := reported_of_run h
  rw [hreported.names]
  exact fun y hy => (hreported.samples y hy).binds

end

end Check

/-! ### Showing -/

namespace Report

variable {r : Report} {env : Environment} {ns cells : List String} {samples : List Sample} {i : Nat}
  {rows : List (List String)}

theorem exists_bindingCells (h : ∀ m ∈ ns, env.binds m = true) : ∃ cells, bindingCells env ns = .ok cells := by
  induction ns with
  | nil => exact ⟨[], rfl⟩
  | cons m ns ih =>
    obtain ⟨hm, hns⟩ := List.forall_mem_cons.1 h
    obtain ⟨cells, hcells⟩ := ih hns
    obtain ⟨b, hb⟩ := Option.isSome_iff_exists.1 hm
    exact ⟨b.shown :: cells, by rw [bindingCells, hb, hcells]; rfl⟩

/-- The cells of a sample are the bindings of the names, in their order. -/
theorem shown_of_bindingCells (h : bindingCells env ns = .ok cells) :
    List.Forall₂ (fun m c => (env.find? m).map Binding.shown = some c) ns cells := by
  induction ns generalizing cells with
  | nil =>
    obtain rfl := Except.ok.inj h
    exact .nil
  | cons m ns ih =>
    rw [bindingCells] at h
    split at h
    · exact absurd h (by simp)
    rename_i b hb
    cases hcells : bindingCells env ns with
    | error f =>
      rw [hcells] at h
      exact absurd h (by simp [Except.map])
    | ok cs =>
      rw [hcells] at h
      obtain rfl := Except.ok.inj h
      exact .cons (by rw [hb]; rfl) (ih hcells)

/-- What a row shows of the sample with its number. -/
def Shows (r : Report) (i : Nat) (x : Sample) (row : List String) : Prop :=
  ∃ cells, row = toString i :: cells ++ [x.left.text, x.right.text] ∧
    List.Forall₂ (fun m c => (x.env.find? m).map Binding.shown = some c) r.names cells

theorem length_columns (r : Report) : r.columns.length = r.names.length + 3 := by
  simp [columns]

theorem Shows.length_eq {x : Sample} {row : List String} (h : r.Shows i x row) : row.length = r.columns.length := by
  obtain ⟨cells, rfl, hcells⟩ := h
  rw [length_columns, hcells.length_eq]
  simp

theorem exists_row {x : Sample} (h : ∀ m ∈ r.names, x.env.binds m = true) (i : Nat) :
    ∃ row, r.row i x = .ok row ∧ r.Shows i x row := by
  obtain ⟨cells, hcells⟩ := exists_bindingCells h
  exact ⟨_, by rw [row, hcells]; rfl, cells, rfl, shown_of_bindingCells hcells⟩

/-- The rows are numbered on from `i`. -/
theorem exists_rowsFrom (h : ∀ x ∈ samples, ∀ m ∈ r.names, x.env.binds m = true) (i : Nat) :
    ∃ rows, r.rowsFrom i samples = .ok rows ∧
      List.Forall₂ (fun p row => r.Shows p.2 p.1 row) (samples.zipIdx i) rows := by
  induction samples generalizing i with
  | nil => exact ⟨[], rfl, .nil⟩
  | cons x samples ih =>
    obtain ⟨hx, hsamples⟩ := List.forall_mem_cons.1 h
    obtain ⟨row, hrow, hshows⟩ := exists_row hx i
    obtain ⟨rows, hrows, hall⟩ := ih hsamples (i + 1)
    exact ⟨row :: rows, by rw [rowsFrom, hrow, hrows]; rfl, .cons hshows hall⟩

end Report

theorem exists_showReport_of_binds {r : Report} (h : ∀ x ∈ r.samples, ∀ m ∈ r.names, x.env.binds m = true) :
    ∃ rows, showReport r = .ok [.table "Trials" r.columns rows,
        .panel "Equivalence" r.summary (if r.equivalent then "green" else "red")] ∧
      List.Forall₂ (fun p row => r.Shows p.2 p.1 row) (r.samples.zipIdx 1) rows := by
  obtain ⟨rows, hrows, hall⟩ := Report.exists_rowsFrom h 1
  exact ⟨rows, by rw [showReport, hrows]; rfl, hall⟩

namespace Check

section

variable [Elementary] {a b : Expr} {s : Settings} {draws : Draws} {d : Nat} {env : Nat → Environment} {r : Report}

/-- A check that ends in a fault comes to a draw on which one of the expressions does. -/
theorem fault_of_run {f : Fault} (hdraws : ∀ k, draws (d + k) = .ok (env k))
    (h : (run s draws a b d).result = .error (.fault f)) :
    ∃ n, Going s (verdicts s a b env) n ∧ (a.evaluate (env n) = .error (.fault f) ∨
      (∃ z, a.evaluate (env n) = .ok z) ∧ b.evaluate (env n) = .error (.fault f)) := by
  obtain ⟨n, o, hends⟩ := exists_ends s (names a b) (verdicts s a b env)
  obtain ⟨-, hresult⟩ := hends.run_eq hdraws fun _ => rfl
  obtain rfl : o = .error (.fault f) := hresult.symm.trans h
  cases hends with
  | @fault n _ hgoing hv => exact ⟨n, hgoing, failure_of_verdict (congrArg Verdict.failure? hv)⟩

/-- Every report of a check can be shown, whatever is drawn: its samples bind the variables of the columns, and its
table has a full row for each of the trials, numbered from 1. -/
theorem run_shows_trials (h : (run s draws a b d).result = .ok r) :
    (∀ x ∈ r.samples, ∀ m ∈ r.names, x.env.binds m = true) ∧ r.columns.length = r.names.length + 3 ∧
    ∃ rows, showReport r = .ok [.table "Trials" r.columns rows,
        .panel "Equivalence" r.summary (if r.equivalent then "green" else "red")] ∧
      rows.length = r.trialsRun ∧ (∀ row ∈ rows, row.length = r.columns.length) ∧
      List.Forall₂ (fun p row => r.Shows p.2 p.1 row) (r.samples.zipIdx 1) rows := by
  have hbinds := binds_of_run h
  obtain ⟨rows, hshow, hall⟩ := exists_showReport_of_binds hbinds
  refine ⟨hbinds, r.length_columns, rows, hshow, ?_, ?_, hall⟩
  · rw [← hall.length_eq, List.length_zipIdx, (reported_of_run h).trialsRun]
  · intro row hrow
    obtain ⟨k, hk, rfl⟩ := List.getElem_of_mem hrow
    exact Report.Shows.length_eq (hall.get (hall.length_eq ▸ hk) hk)

end

/-- The first draw lacks `x`, the second one binds `y` to text and also a name that does not occur, and the third one
would fail. -/
theorem run_shows_trials_of_text :
    let s : Settings := { maxRetries := 1 }
    let env : Environment := [("z", .complex .one), ("y", .datum (.text "2i")), ("x", .complex ⟨1, 0⟩)]
    let draws : Draws := fun k =>
      if k = 0 then .ok [("y", .complex .one)] else if k = 1 then .ok env else .error .badValue
    let r : Report := ⟨false, ["x", "y"], 1, 1, some env, some ⟨1, 0⟩, some ⟨0, 2⟩, [⟨env, ⟨1, 0⟩, ⟨0, 2⟩⟩]⟩
    (run s draws (.var "x") (.var "y") 0).result = .ok r ∧
      ∃ row, row.length = 5 ∧ showReport r =
        .ok [.table "Trials" r.columns [row], .panel "Equivalence" r.summary "red"] := by
  intro s env draws r
  have hresult : (run s draws (.var "x") (.var "y") 0).result = .ok r := by
    have hdraw₀ : draws (State.start 0).drawn = .ok [("y", .complex .one)] := rfl
    have hverdict₀ : verdict s.tolerance (.var "x") (.var "y") [("y", .complex .one)] = .error (.unbound "x") := rfl
    have hdraw₁ : draws ((State.start 0).discard (.unbound "x")).drawn = .ok env := rfl
    have hverdict₁ : verdict s.tolerance (.var "x") (.var "y") env = .differ ⟨env, ⟨1, 0⟩, ⟨0, 2⟩⟩ := rfl
    rw [run, show s.trials.toNat = 5 + 1 from rfl, loop_succ hdraw₀, hverdict₀]
    show (loop s draws (.var "x") (.var "y") (5 + 1) 0 _).result = .ok r
    rw [loop_succ hdraw₁, hverdict₁]
    rfl
  obtain ⟨-, -, rows, hshow, hlength, hrow, -⟩ := run_shows_trials hresult
  obtain ⟨row, rfl⟩ := List.length_eq_one_iff.1 hlength
  exact ⟨hresult, row, hrow row (List.mem_singleton_self row), hshow⟩

end Check

end Phasor
