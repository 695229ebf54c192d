import Phasor.Proofs.Answers
import Phasor.Proofs.Messages
import Phasor.Proofs.Rounds
import Phasor.Proofs.Safety
import Phasor.Proofs.Symmetry
import Phasor.Proofs.VariableUse

/-!
# Evaluation with all variables bound

A command that asks for values and a check that draws them evaluate an expression only where each of its variables
has a value. So no failure of such a dialogue is about a variable without one (`Dialogue.Sure`), and no such error is
shown (`Event.ReportsUnbound`). What the questions do is `Dialogue.askValues_completes`.
-/

namespace Phasor

/-! ### Reports of unbound variables -/

/-- The line that shows the error of a variable without a value. -/
def Event.ReportsUnbound (e : Event) : Prop :=
  ∃ f : Failure, f.IsUnbound ∧ e = .text ("Error: " ++ f.message?.getD "")

namespace Event

/-- Every report of an error opens like this. -/
theorem opening_error (s : String) : opening ("Error: " ++ s) = ['E', 'r'] :=
  opening_append (s := "Error: ") (by decide +kernel) s

theorem not_reportsUnbound_of_opening {s : String} (h : opening s ≠ ['E', 'r']) : ¬ ReportsUnbound (text s) := by
  rintro ⟨f, -, hf⟩
  rw [Event.text.inj hf] at h
  exact h (opening_error _)

theorem IsRegular.not_reportsUnbound {e : Event} (h : e.IsRegular) : ¬ e.ReportsUnbound := by
  cases h with
  | @text p hp s =>
    have hlabels : ∀ p ∈ labels, (opening p).length = 2 ∧ opening p ≠ ['E', 'r'] := by decide +kernel
    obtain ⟨hlength, hne⟩ := hlabels p hp
    exact not_reportsUnbound_of_opening (opening_append hlength s ▸ hne)
  | _ =>
    rintro ⟨f, -, hf⟩
    exact absurd hf (by simp)

theorem not_reportsUnbound_of_failure {f : Failure} (h : ¬ f.IsUnbound) :
    ¬ ReportsUnbound (text ("Error: " ++ f.message?.getD "")) := by
  rintro ⟨g, hg, htext⟩
  exact Failure.message_ne_of_unbound h hg ((String.append_right_inj _).1 (Event.text.inj htext))

end Event

/-! ### Evaluation -/

namespace Expr

theorem nodup_variables (e : Expr) : e.variables.Nodup := (Names.pairwise_sorted _).imp ne_of_lt

theorem exists_unbound_of_evaluate [Elementary] {e : Expr} {env : Environment} {f : Failure} (he : e.WellFormed)
    (h : e.evaluate env = .error f) (hf : f.IsUnbound) : ∃ x ∈ e.variables, env.binds x = false := by
  obtain ⟨n, -, hfails⟩ := exists_failsAt_of_evaluate he h
  obtain ⟨x, hx⟩ := hf
  cases hfails with
  | unbound x => exact ⟨x, mem_variables_of_unbound h⟩
  | _ => exact absurd hx (by simp [Failure.cause?])

end Expr

namespace Sampling

theorem binds_bindAll (part : Nat → Float) (env : Environment) (place : Nat) (names : List String) {n : String}
    (h : env.binds n = true ∨ n ∈ names) : (bindAll part env place names).binds n = true := by
  induction names generalizing env place with
  | nil => exact h.resolve_right List.not_mem_nil
  | cons m names ih =>
    refine ih _ _ ?_
    rw [Environment.binds, Environment.find?_bind]
    by_cases hm : m = n
    · rw [if_pos hm]
      exact .inl rfl
    · rw [if_neg hm]
      exact h.imp_right fun hn => (List.mem_cons.1 hn).resolve_left (Ne.symm hm)

/-- A draw binds all names. -/
theorem binds_of_draw {s : Settings} {numbers : Sampling.Numbers} {names : List String} {k : Nat} {env : Environment}
    (h : draw s numbers names k = .ok env) : ∀ n ∈ names, env.binds n = true := by
  intro n hn
  unfold draw at h
  split at h
  · exact absurd h (by simp)
  · rw [← Except.ok.inj h]
    exact binds_bindAll _ _ _ _ (.inr hn)

end Sampling

namespace Check

variable {s : Settings} {draws : Draws} {a b : Expr} {d : Nat} {env : Nat → Environment}

/-- A check on environments that bind all variables has no failure about an unbound one. -/
theorem not_isUnbound_of_run [Elementary] (ha : a.WellFormed) (hb : b.WellFormed) (hdraws : ∀ k, draws (d + k) = .ok (env k))
    (hbinds : ∀ k, ∀ n ∈ names a b, (env k).binds n = true) {f : Failure}
    (h : (run s draws a b d).result = .error f) : ¬ f.IsUnbound := by
  obtain ⟨n, o, hends⟩ := exists_ends s (names a b) (verdicts s a b env)
  obtain ⟨-, hresult⟩ := hends.run_eq hdraws fun _ => rfl
  obtain rfl : o = .error f := hresult.symm.trans h
  have hverdict : ∀ (n : Nat) (g : Failure), (verdicts s a b env n).failure? = some g → ¬ g.IsUnbound := by
    intro n g hg hunbound
    rcases failure_of_verdict hg with hleft | ⟨-, hright⟩
    · obtain ⟨x, hx, hmissing⟩ := Expr.exists_unbound_of_evaluate ha hleft hunbound
      rw [hbinds n x (mem_names.2 (.inl hx))] at hmissing
      exact absurd hmissing (by simp)
    · obtain ⟨x, hx, hmissing⟩ := Expr.exists_unbound_of_evaluate hb hright hunbound
      rw [hbinds n x (mem_names.2 (.inr hx))] at hmissing
      exact absurd hmissing (by simp)
  cases hends with
  | @error n e _ hv _ => exact hverdict n (.eval e) (congrArg Verdict.failure? hv)
  | @inconclusive n e _ hv _ _ =>
    -- the last draw fails with the error that the check repeats
    exact fun hunbound => hverdict n (.eval e) (congrArg Verdict.failure? hv) hunbound
  | @fault n _ _ hv => exact hverdict n f (congrArg Verdict.failure? hv)

end Check

/-! ### Dialogues -/

namespace Dialogue

variable {α β : Type}

/-- No failure of the dialogue is about a variable without a value. -/
def Sure (d : Dialogue α) : Prop := ∀ c f, (d.on c).1 = .error (.failure f) → ¬ f.IsUnbound

theorem Sure.bind {d : Dialogue α} {f : α → Dialogue β} (hd : Sure d)
    (hf : ∀ c a c', d.on c = (.ok a, c') → Sure (f a)) : Sure (d >>= f) := by
  intro c g h
  rcases on_bind_eq_error h with h | ⟨a, c', hon, h⟩
  · exact hd c g h
  · exact hf c a c' hon c' g h

theorem sure_emit (es : List Event) : Sure (emit es) := by
  intro c f h
  exact absurd h (by simp [on_emit])

theorem sure_pure (a : α) : Sure (pure a) := by
  intro c f h
  exact absurd (show (Except.ok a : Except Stop α) = _ from h) (by simp)

theorem sure_ask (label : String) : Sure (ask label) := by
  intro c f h
  rw [on_ask] at h
  split at h <;> exact absurd h (by simp)

theorem sure_askValues (names : List String) (env : Environment) : Sure (askValues names env) := by
  intro c f h
  rw [on_askValues] at h
  split at h <;> exact absurd h (by simp)

theorem sure_readExpr (text : String) : Sure (readExpr text) := by
  intro c f h
  rw [on_readExpr] at h
  obtain ⟨err, rfl, -⟩ := Expr.ofText_eq_error (mapError_failure_eq_error h)
  rintro ⟨x, hx⟩
  exact absurd hx (by simp [Failure.cause?])

theorem sure_ofFault (x : Except Fault α) : Sure (ofFault x) := by
  rintro c f h ⟨y, hy⟩
  cases x with
  | ok a => exact absurd h (by simp [on, ofFault])
  | error g =>
    obtain rfl : Failure.fault g = f := Stop.failure.inj (Except.error.inj h)
    exact absurd hy (by simp [Failure.cause?])

theorem sure_evaluate [Elementary] {e : Expr} {env : Environment} (he : e.WellFormed)
    (hbinds : ∀ x ∈ e.variables, env.binds x = true) : Sure (ofExcept (e.evaluate env)) := by
  intro c f h hf
  rw [on_ofExcept] at h
  obtain ⟨x, hx, hmissing⟩ := Expr.exists_unbound_of_evaluate he (mapError_failure_eq_error h) hf
  rw [hbinds x hx] at hmissing
  exact absurd hmissing (by simp)

theorem sure_check [Elementary] (numbers : Sampling.Numbers) {a b : Expr} (ha : a.WellFormed) (hb : b.WellFormed) :
    Sure (check {} numbers a b) := by
  intro c f h
  have hcheck := does_check {} numbers a b c.drawn c.lines c.events
  rw [show (check {} numbers a b).on c = _ from hcheck] at h
  obtain ⟨env, hdraws⟩ := Session.exists_draw numbers (Check.names a b) c.drawn
  exact Check.not_isUnbound_of_run ha hb hdraws (fun k => Sampling.binds_of_draw (hdraws k))
    (mapError_failure_eq_error h)

/-- Values are asked for until each name has one. -/
theorem binds_of_complete {names lines rest : List String} {env env' : Environment} {events : List Event}
    (hnames : names.Nodup) (h : complete env names lines = (events, some (env', rest))) :
    ∀ n ∈ names, env'.binds n = true := by
  rcases exists_questions (env.missing names) lines with ⟨qs, rest', hqs, rfl⟩ |
    ⟨qs, name, later, rejected, hqs, rfl, hrejected⟩
  · rw [complete_of_questions hnames hqs] at h
    obtain ⟨rfl, -⟩ := Prod.mk.inj (Option.some.inj (Prod.mk.inj h).2)
    exact (completes_of_missing hnames hqs).binds hqs
  · rw [complete_of_lack hnames hqs hrejected] at h
    exact absurd (Prod.mk.inj h).2 (by simp)

theorem binds_of_askValues {e : Expr} {env env' : Environment} {c c' : Console}
    (h : (askValues e.variables env).on c = (.ok env', c')) : ∀ x ∈ e.variables, env'.binds x = true := by
  obtain ⟨events, hcomplete⟩ := on_askValues_eq_ok h
  exact binds_of_complete e.nodup_variables hcomplete

/-- What has been shown stays, and the rest has the property. -/
theorem Orderly.events {P : Event → Prop} {d : Dialogue α} (hd : Orderly P d) (lines : List String) (n : Nat) :
    ∀ e ∈ (d.on ⟨lines, n, []⟩).2.events, P e := by
  cases hd n lines with
  | dry hshown h =>
    obtain ⟨m, h⟩ := h
    rw [h]
    exact hshown
  | ends hlines hshown hr h =>
    rw [hlines, h]
    exact hshown

end Dialogue

/-! ### Sessions and commands -/

namespace Transcript

theorem forall_failed {P : Event → Prop} {events : List Event} {f : Failure} (hevents : ∀ e ∈ events, P e)
    (hf : P (.text ("Error: " ++ f.message?.getD ""))) : ∀ e ∈ (failed events f).allEvents, P e := by
  have herror : ∀ e ∈ events ++ [.text ("Error: " ++ f.message?.getD "")] ++ [], P e := by
    rw [List.append_nil]
    exact List.forall_mem_append.2 ⟨hevents, List.forall_mem_singleton.2 hf⟩
  cases f with
  | fault f => exact List.forall_mem_append.2 ⟨hevents, fun e he => absurd he List.not_mem_nil⟩
  | parse e => exact herror
  | eval e => exact herror
  | inconclusive n e => exact herror

end Transcript

namespace Session

open Dialogue

theorem sure_guarded (d : Dialogue Unit) : Sure (guarded d) := by
  intro c f h
  rcases error_of_guarded h with h | ⟨g, h, -⟩
  · exact absurd h (by simp)
  · obtain rfl := Stop.failure.inj h
    rintro ⟨x, hx⟩
    exact absurd hx (by simp [Failure.cause?])

variable [Elementary]

theorem sure_evaluateChoice : Sure evaluateChoice := by
  refine (sure_ask _).bind fun _ t _ _ => (sure_readExpr t).bind fun _ e _ hread =>
    (sure_askValues _ _).bind fun _ env _ hvalues => (Sure.bind ?_ fun _ z _ _ => sure_emit _)
  exact sure_evaluate (Expr.wellFormed_of_ofText (on_readExpr_eq_ok hread).1) (binds_of_askValues hvalues)

theorem sure_compareChoice (numbers : Sampling.Numbers) : Sure (compareChoice numbers) := by
  refine (sure_ask _).bind fun _ t _ _ => (sure_readExpr t).bind fun _ a _ ha =>
    (sure_ask _).bind fun _ u _ _ => (sure_readExpr u).bind fun _ b _ hb =>
    Sure.bind ?_ fun _ r _ _ => (sure_ofFault _).bind fun _ es _ _ => sure_emit es
  exact sure_check numbers (Expr.wellFormed_of_ofText (on_readExpr_eq_ok ha).1)
    (Expr.wellFormed_of_ofText (on_readExpr_eq_ok hb).1)

theorem sure_choice (numbers : Sampling.Numbers) (option : String) : Sure (choice numbers option) := by
  unfold choice
  split
  · exact sure_evaluateChoice
  split
  · exact (sure_ask _).bind fun _ t _ _ => (sure_readExpr t).bind fun _ e _ _ => sure_emit _
  split
  · exact sure_compareChoice numbers
  · exact sure_emit _

/-- Nothing that a round shows reports a variable without a value. -/
theorem orderly_round (numbers : Sampling.Numbers) : Orderly (fun e => ¬ e.ReportsUnbound) (round numbers) := by
  have hmark : ∀ m ∈ Event.marks, opening m ≠ ['E', 'r'] := by decide +kernel
  have hsay : ∀ m ∈ Event.marks, Orderly (fun e => ¬ e.ReportsUnbound) (say m) := fun m hm =>
    orderly_say (Event.not_reportsUnbound_of_opening (hmark m hm))
  refine (hsay menu (by simp [Event.marks])).bind fun _ =>
    (orderly_ask (Event.IsRegular.prompt _).not_reportsUnbound).bind fun option => ?_
  split
  · exact (hsay "Exiting..." (by simp [Event.marks])).bind fun _ => orderly_pure false
  · refine (orderly_guarded ?_ fun c f hf => ?_).bind fun _ => orderly_pure true
    · exact (regular_choice numbers option).mono fun e he => he.not_reportsUnbound
    · exact Event.not_reportsUnbound_of_failure (sure_choice numbers option c f hf)

theorem sure_round (numbers : Sampling.Numbers) : Sure (round numbers) := by
  refine (sure_emit _).bind fun _ _ _ _ => (sure_ask _).bind fun _ option _ _ => ?_
  split
  · exact (sure_emit _).bind fun _ _ _ _ => sure_pure false
  · exact (sure_guarded _).bind fun _ _ _ _ => sure_pure true

theorem not_reportsUnbound_of_run (numbers : Sampling.Numbers) (lines : List String) (n : Nat) :
    ∀ e ∈ (run numbers lines n).allEvents, ¬ e.ReportsUnbound := by
  induction hk : lines.length using Nat.strong_induction_on generalizing lines n with
  | _ k ih =>
    have hshown : ∀ e ∈ (runRound numbers lines n).2.events, ¬ e.ReportsUnbound := (orderly_round numbers).events lines n
    have hsure : ∀ f, (runRound numbers lines n).1 = .error (.failure f) → ¬ f.IsUnbound :=
      sure_round numbers ⟨lines, n, []⟩
    rw [run]
    generalize runRound numbers lines n = o at hshown hsure
    obtain ⟨r, c⟩ := o
    have hclosed : ∀ e ∈ (⟨c.events, none, .exit 0⟩ : Transcript).allEvents, ¬ e.ReportsUnbound :=
      List.forall_mem_append.2 ⟨hshown, fun e he => absurd he List.not_mem_nil⟩
    cases r with
    | ok goesOn =>
      cases goesOn with
      | false => exact hclosed
      | true =>
        dsimp only
        split
        · rename_i hlt
          have hlater := ih c.lines.length (hk ▸ hlt) c.lines c.drawn rfl
          intro e he
          rw [Transcript.allEvents_after] at he
          exact (List.mem_append.1 he).elim (hshown e) (hlater e)
        · exact hclosed
    | error s =>
      cases s with
      | endOfInput =>
        have hend : ¬ (Event.text "\nExiting...").ReportsUnbound :=
          Event.not_reportsUnbound_of_opening (by decide +kernel)
        exact List.forall_mem_append.2 ⟨hshown, List.forall_mem_singleton.2 hend⟩
      | failure f => exact Transcript.forall_failed hshown (Event.not_reportsUnbound_of_failure (hsure f rfl))

/-- An expression is evaluated with values for all its variables only. -/
theorem Evaluates.binds {numbers : Sampling.Numbers} {lines : List String} {n : Nat} {e : Expr} {env : Environment}
    (h : Evaluates numbers lines n e env) : ∀ x ∈ e.variables, env.binds x = true := by
  induction h with
  | value _ _ hvalues => exact binds_of_complete (Expr.nodup_variables _) hvalues
  | @left _ _ _ _ _ k _ _ _ _ _ _ hdraws _ =>
    exact fun x hx => Sampling.binds_of_draw (hdraws k) x (Check.mem_names.2 (.inl hx))
  | @right _ _ _ _ _ k _ _ _ _ _ _ _ hdraws _ _ =>
    exact fun x hx => Sampling.binds_of_draw (hdraws k) x (Check.mem_names.2 (.inr hx))
  | later _ _ ih => exact ih

end Session

namespace Command

open Dialogue

theorem regular_showResult (e : Expr) (z : Complex) (env : Environment) :
    ∀ event ∈ showResult e z env, event.IsRegular := by
  have htext : Event.IsRegular (.text ("Expression: " ++ e.render)) := .text (by simp [Event.labels]) _
  have hresult : Event.IsRegular (.text ("Result: " ++ z.text)) := .text (by simp [Event.labels]) _
  unfold showResult
  refine List.forall_mem_append.2 ⟨List.forall_mem_cons.2 ⟨htext, ?_⟩, List.forall_mem_singleton.2 hresult⟩
  split
  · exact fun event h => absurd h List.not_mem_nil
  · exact List.forall_mem_singleton.2 (.table _ _ _)

variable [Elementary]

theorem regular_evalDialogue (text : String) (env : Environment) :
    Orderly Event.IsRegular (evalDialogue text env true) :=
  (orderly_readExpr text .debug).bind fun e => (orderly_askValues _ _ .prompt (.text (by simp [Event.labels]))).bind
    fun env => (orderly_ofExcept _).bind fun z => orderly_emit (regular_showResult e z env)

theorem sure_evalDialogue (text : String) (env : Environment) : Sure (evalDialogue text env true) := by
  refine (sure_readExpr text).bind fun _ e _ hread => (sure_askValues _ _).bind fun _ env _ hvalues =>
    Sure.bind ?_ fun _ z _ _ => sure_emit _
  exact sure_evaluate (Expr.wellFormed_of_ofText (on_readExpr_eq_ok hread).1) (binds_of_askValues hvalues)

omit [Elementary] in
theorem not_reportsUnbound_of_runDialogue {d : Dialogue Unit} (hd : Orderly Event.IsRegular d) (hsure : Sure d)
    (lines : List String) : ∀ e ∈ (runDialogue d lines).allEvents, ¬ e.ReportsUnbound := by
  have hshown : ∀ e ∈ (d.on ⟨lines, 0, []⟩).2.events, ¬ e.ReportsUnbound :=
    fun e he => (hd.events lines 0 e he).not_reportsUnbound
  have hfailure : ∀ f, (d.on ⟨lines, 0, []⟩).1 = .error (.failure f) → ¬ f.IsUnbound := hsure ⟨lines, 0, []⟩
  rw [runDialogue, show d.run.run ⟨lines, 0, []⟩ = d.on ⟨lines, 0, []⟩ from rfl]
  generalize d.on ⟨lines, 0, []⟩ = o at hshown hfailure
  obtain ⟨r, c⟩ := o
  have hclosed : ∀ e ∈ c.events ++ [], ¬ e.ReportsUnbound :=
    List.forall_mem_append.2 ⟨hshown, fun e he => absurd he List.not_mem_nil⟩
  cases r with
  | ok _ => exact hclosed
  | error s =>
    cases s with
    | endOfInput => exact hclosed
    | failure f => exact Transcript.forall_failed hshown (Event.not_reportsUnbound_of_failure (hfailure f rfl))

theorem not_reportsUnbound_of_eval (text : String) (bindings : List String) (generator : Generator) (lines : List String) :
    ∀ e ∈ (run (eval text bindings true) generator lines).allEvents, ¬ e.ReportsUnbound := by
  rw [run]
  cases readBindings [] bindings with
  | error e => exact fun event h => absurd h List.not_mem_nil
  | ok env => exact not_reportsUnbound_of_runDialogue (regular_evalDialogue text env) (sure_evalDialogue text env) lines

end Command

/-! ### What questions do -/

namespace Dialogue

/-- Questions complete an environment without touching it. They are put for the names that are not bound, sorted, each
until an answer is a number, and one line is shown for each rejected answer. Answers to all of them give the old
bindings and the numbers, and the lines behind the answers are left; other lines are read to their end. So what asks
for values, and the session, evaluate with all variables bound and never report that one is not. -/
theorem askValues_completes [Elementary] (e : Expr) (env : Environment) :
    (env.missing e.variables).Pairwise (· < ·) ∧
    (∀ x, x ∈ env.missing e.variables ↔ x ∈ e.variables ∧ env.binds x = false) ∧
    (∀ (qs : List Question) (rest : List String) (n : Nat) (es : List Event),
      qs.map Question.name = env.missing e.variables →
      (∃ env', (askValues e.variables env).on ⟨qs.flatMap Question.lines ++ rest, n, es⟩ =
        (.ok env', ⟨rest, n, es ++ qs.flatMap Question.events⟩) ∧ Completes env qs env') ∧
      (qs.flatMap Question.lines).length = (env.missing e.variables).length + (qs.flatMap Question.rejected).length) ∧
    (∀ (qs : List Question) (name : String) (later rejected : List String) (n : Nat) (es : List Event),
      env.missing e.variables = qs.map Question.name ++ name :: later → (∀ l ∈ rejected, IsRejected l) →
      (askValues e.variables env).on ⟨qs.flatMap Question.lines ++ rejected, n, es⟩ =
        (.error .endOfInput, ⟨[], n, es ++ (qs.flatMap Question.events ++
          (rejected.flatMap (rejection name) ++ [promptFor (valueLabel name)]))⟩)) ∧
    (∀ lines : List String,
      (∃ (qs : List Question) (rest : List String), qs.map Question.name = env.missing e.variables ∧
        lines = qs.flatMap Question.lines ++ rest) ∨
      ∃ (qs : List Question) (name : String) (later rejected : List String),
        env.missing e.variables = qs.map Question.name ++ name :: later ∧
        lines = qs.flatMap Question.lines ++ rejected ∧ ∀ l ∈ rejected, IsRejected l) ∧
    (∀ c env' c', (askValues e.variables env).on c = (.ok env', c') → ∀ x ∈ e.variables, env'.binds x = true) ∧
    (∀ text bindings generator lines,
      ∀ event ∈ (Command.run (.eval text bindings true) generator lines).allEvents, ¬ event.ReportsUnbound) ∧
    ∀ numbers lines n,
      (∀ e env, Session.Evaluates numbers lines n e env → ∀ x ∈ e.variables, env.binds x = true) ∧
      ∀ event ∈ (Session.run numbers lines n).allEvents, ¬ event.ReportsUnbound := by
  have hnames := e.nodup_variables
  refine ⟨(Names.pairwise_sorted _).filter _, fun x => Environment.mem_missing, fun qs rest n es hqs => ⟨?_, ?_⟩,
    fun qs name later rejected n es hmissing hrejected => ?_, fun lines => exists_questions _ lines,
    fun c env' c' h => binds_of_askValues h, Command.not_reportsUnbound_of_eval, fun numbers lines n =>
    ⟨fun e env h => h.binds, Session.not_reportsUnbound_of_run numbers lines n⟩⟩
  · refine ⟨env ++ qs.map Question.binding, ?_, completes_of_missing hnames hqs⟩
    rw [on_askValues, complete_of_questions hnames hqs]
  · rw [length_flatMap_lines, ← hqs, List.length_map]
  · rw [on_askValues, complete_of_lack hnames hmissing hrejected]

/-- The value of `y` is there, and the one of `x` is asked for until an answer is a number. -/
theorem askValues_completes_sum :
    let e : Expr := .binary "+" (.var "x") (.var "y")
    let env : Environment := [("y", .complex .one)]
    (∃ env', (askValues e.variables env).on ⟨["oops", "2", "4"], 0, []⟩ =
        (.ok env', ⟨["4"], 0, rejection "x" "oops" ++ [promptFor (valueLabel "x")]⟩) ∧
      env'.find? "y" = some (.complex .one) ∧ env'.find? "x" = some (.complex ⟨2, 0⟩) ∧
      ∀ x ∈ e.variables, env'.binds x = true) ∧
    (askValues e.variables env).on ⟨["oops"], 0, []⟩ =
      (.error .endOfInput, ⟨[], 0, rejection "x" "oops" ++ [promptFor (valueLabel "x")]⟩) ∧
    Session.Evaluates (fun _ _ => 0) ["1", "x+y", "oops", "2", "4"] 0 e [("x", .complex ⟨2, 0⟩), ("y", .complex ⟨4, 0⟩)] ∧
    Environment.binds [("x", .complex ⟨2, 0⟩), ("y", .complex ⟨4, 0⟩)] "x" = true := by
  intro e env
  have hoops : Complex.ofInput (Text.strip "oops") = .error (.invalidLiteral (Text.strip "oops")) := by decide +kernel
  have htwo : Complex.ofInput (Text.strip "2") = .ok ⟨2, 0⟩ := by decide +kernel
  have hfour : Complex.ofInput (Text.strip "4") = .ok ⟨4, 0⟩ := by decide +kernel
  have hmissing : env.missing e.variables = ["x"] := by decide +kernel
  let q : Question := ⟨"x", ["oops"], "2", ⟨2, 0⟩, List.forall_mem_singleton.2 hoops, htwo⟩
  have hevaluates : Session.Evaluates (fun _ _ => 0) ["1", "x+y", "oops", "2", "4"] 0 e
      [("x", .complex ⟨2, 0⟩), ("y", .complex ⟨4, 0⟩)] := by
    have hnames : e.variables = ["x", "y"] := by decide +kernel
    let q' : Question := ⟨"y", [], "4", ⟨4, 0⟩, fun l hl => absurd hl List.not_mem_nil, hfour⟩
    have hcomplete : complete [] e.variables ([q, q'].flatMap Question.lines ++ []) =
        ([q, q'].flatMap Question.events, some ([] ++ [q, q'].map Question.binding, [])) :=
      complete_of_questions e.nodup_variables (by rw [hnames]; rfl)
    exact .value (by decide +kernel) (by decide +kernel) hcomplete
  obtain ⟨-, -, hanswers, hlack, -, hbinds, -, hsession⟩ := askValues_completes e env
  obtain ⟨⟨env', hon, hcompletes⟩, -⟩ := hanswers [q] ["4"] 0 [] hmissing.symm
  refine ⟨⟨env', hon, hcompletes.keeps "y" rfl, hcompletes.answers q (List.mem_singleton_self q), hbinds _ _ _ hon⟩,
    hlack [] "x" [] ["oops"] 0 [] hmissing (List.forall_mem_singleton.2 hoops), hevaluates,
    (hsession (fun _ _ => 0) _ 0).1 e _ hevaluates "x" (by decide +kernel)⟩

end Dialogue

end Phasor
