import Phasor.Session
import Phasor.Proofs.Dialogues
import Phasor.Proofs.Reports

/-!
# The rounds of the interactive session

A round of the session runs dry, quits, or reads some lines and goes on (`Session.Round`), unless an evaluation leaves
the number system (`Session.Evaluates`). What it does depends on the lines it reads and on nothing else, so a session
is its first round followed by a session on the rest of the lines, and it ends with the farewell
(`Session.run_rounds`).
-/

namespace Phasor

/-! ### Events -/

namespace Event

def isMenu : Event → Bool
  | text s => s == Session.menu
  | _ => false

/-- What is shown as the last thing, after a choice to quit or at the end of the input. -/
def isFarewell : Event → Bool
  | text s => s == "Exiting..." || s == "\nExiting..."
  | _ => false

/-- Neither a menu nor a farewell. -/
def IsPlain (e : Event) : Prop := e.isMenu = false ∧ e.isFarewell = false

/-- The texts that say where a session stands. -/
def marks : List String := [Session.menu, "Exiting...", "\nExiting..."]

/-- How the texts begin that tell of a value, a tree or an answer without a use. -/
def labels : List String := ["Expression: ", "Result: ", "Tree (LISP): ", "Invalid input: ", "Invalid option"]

/-- What is shown unless an expression has an error. -/
inductive IsRegular : Event → Prop
  | prompt (s : String) : IsRegular (prompt s)
  | debug (s : String) : IsRegular (debug s)
  | text {p : String} (h : p ∈ labels) (s : String) : IsRegular (text (p ++ s))
  | table (title : String) (columns : List Column) (rows : List (List String)) : IsRegular (table title columns rows)
  | panel (title body border : String) : IsRegular (panel title body border)

/-- A text that begins otherwise than the marks do is none of them. -/
theorem isPlain_append {p : String} (s : String) (h : ∀ m ∈ marks, ¬ p.toList <+: m.toList) :
    IsPlain (text (p ++ s)) := by
  have hmarks : p ++ s ∉ marks := by
    intro hs
    refine h _ hs ?_
    rw [String.toList_append]
    exact List.prefix_append _ _
  simp only [marks, List.mem_cons, List.not_mem_nil, or_false, not_or] at hmarks
  obtain ⟨hmenu, hquit, hend⟩ := hmarks
  refine ⟨beq_eq_false_iff_ne.2 hmenu, ?_⟩
  show (p ++ s == "Exiting..." || p ++ s == "\nExiting...") = false
  rw [beq_eq_false_iff_ne.2 hquit, beq_eq_false_iff_ne.2 hend]
  rfl

theorem IsRegular.isPlain {e : Event} (h : e.IsRegular) : e.IsPlain := by
  cases h with
  | text hp s =>
    have hlabels : ∀ p ∈ labels, ∀ m ∈ marks, ¬ p.toList <+: m.toList := by decide +kernel
    exact isPlain_append s (hlabels _ hp)
  | _ => exact ⟨rfl, rfl⟩

end Event

theorem Transcript.allEvents_after (t : Transcript) (events : List Event) :
    (t.after events).allEvents = events ++ t.allEvents :=
  List.append_assoc ..

namespace Session

open Dialogue Text

open Event (IsPlain IsRegular)

/-! ### Choices -/

theorem regular_treeChoice : Orderly IsRegular treeChoice := by
  refine (orderly_ask (.prompt _)).bind fun t => (orderly_readExpr t .debug).bind fun e =>
    orderly_say (.text ?_ e.render)
  simp [Event.labels]

theorem regular_showReport {r : Report} {es : List Event} (h : showReport r = .ok es) : ∀ e ∈ es, IsRegular e := by
  unfold showReport at h
  cases hrows : r.rowsFrom 1 r.samples with
  | error f =>
    rw [hrows] at h
    exact absurd h (by simp [bind, Except.bind])
  | ok rows =>
    rw [hrows] at h
    obtain rfl := Except.ok.inj h
    exact List.forall_mem_cons.2 ⟨.table _ _ _, List.forall_mem_singleton.2 (.panel _ _ _)⟩

theorem orderly_guarded {P : Event → Prop} {d : Dialogue Unit} (hd : Orderly P d)
    (herror : ∀ c f, (d.on c).1 = .error (.failure f) → P (.text ("Error: " ++ f.message?.getD ""))) :
    Orderly P (guarded d) := by
  refine orderly_tryCatch hd (fun s c hs hne => ?_) rfl
  cases s with
  | endOfInput => exact absurd rfl hne
  | failure f =>
    have hsay := orderly_say (herror c f hs)
    cases f with
    | fault f => exact orderly_fail _
    | parse e => exact hsay
    | eval e => exact hsay
    | inconclusive n e => exact hsay

theorem quiet_guarded {d : Dialogue Unit} (hd : Quiet d) : Quiet (guarded d) := by
  refine quiet_tryCatch hd fun s => ?_
  cases s with
  | endOfInput => exact fun _ => rfl
  | failure f => cases f <;> exact fun _ => rfl

theorem treeChoice_ne_fault {c : Console} {f : Fault} : (treeChoice.on c).1 ≠ .error (.failure (.fault f)) := by
  intro h
  obtain h | ⟨t, c₁, -, h⟩ := on_bind_eq_error h
  · exact absurd h on_ask_ne_fault
  obtain h | ⟨e, c₂, -, h⟩ := on_bind_eq_error h
  · exact absurd h on_readExpr_ne_fault
  · exact absurd h (by simp [say, on_emit])

/-- Errors are shown, so only the end of the input and faults come out of a choice. -/
theorem error_of_guarded {c : Console} {d : Dialogue Unit} {s : Stop} (h : ((guarded d).on c).1 = .error s) :
    s = .endOfInput ∨ ∃ f, s = .failure (.fault f) ∧ (d.on c).1 = .error (.failure (.fault f)) := by
  unfold guarded at h
  rw [on_tryCatch] at h
  split at h
  · exact absurd h (by simp)
  · rename_i s' c' hd
    rw [hd]
    cases s' with
    | endOfInput => exact .inl (Except.error.inj h).symm
    | failure g =>
      cases g with
      | fault f => exact .inr ⟨f, (Except.error.inj h).symm, rfl⟩
      | _ => exact absurd h (by simp [say, on_emit])

section

variable [Elementary]

theorem regular_evaluateChoice : Orderly IsRegular evaluateChoice := by
  refine (orderly_ask (.prompt _)).bind fun t => (orderly_readExpr t .debug).bind fun e =>
    (orderly_askValues _ _ .prompt (.text ?_)).bind fun env => (orderly_ofExcept _).bind fun z =>
    orderly_say (.text ?_ z.text)
  · simp [Event.labels]
  · simp [Event.labels]

theorem regular_compareChoice (numbers : Sampling.Numbers) : Orderly IsRegular (compareChoice numbers) :=
  (orderly_ask (.prompt _)).bind fun t => (orderly_readExpr t .debug).bind fun _ =>
    (orderly_ask (.prompt _)).bind fun u => (orderly_readExpr u .debug).bind fun _ =>
    (orderly_check _ _ _ _ .debug).bind fun _ => orderly_show fun _ => regular_showReport

theorem regular_choice (numbers : Sampling.Numbers) (option : String) : Orderly IsRegular (choice numbers option) := by
  unfold choice
  split
  · exact regular_evaluateChoice
  split
  · exact regular_treeChoice
  split
  · exact regular_compareChoice numbers
  · have hlabel : "Invalid option" ∈ Event.labels := by simp [Event.labels]
    have hevent := IsRegular.text hlabel ""
    rw [String.append_empty] at hevent
    exact orderly_say hevent

theorem quiet_choice (numbers : Sampling.Numbers) {option : String} (h : option ≠ "3") : Quiet (choice numbers option) := by
  unfold choice
  split
  · exact (quiet_ask _).bind fun t => (quiet_readExpr t).bind fun e => (quiet_askValues _ _).bind fun env =>
      (quiet_ofExcept _).bind fun z => quiet_emit _
  split
  · exact (quiet_ask _).bind fun t => (quiet_readExpr t).bind fun e => quiet_emit _
  · exact quiet_emit _

end

/-! ### Evaluations -/

/-- The default bounds are those of a range. -/
theorem exists_draw (numbers : Sampling.Numbers) (names : List String) (n : Nat) :
    ∃ env : Nat → Environment, ∀ k, Sampling.draw {} numbers names (n + k) = .ok (env k) := by
  have hrange : Sampling.range {} = .ok (-5, 10) := by decide +kernel
  exact ⟨_, fun k => by rw [Sampling.draw, hrange]⟩

section

variable [Elementary]

/-- The session on the lines, with `n` environments drawn before, comes to evaluating the expression. -/
inductive Evaluates (numbers : Sampling.Numbers) : List String → Nat → Expr → Environment → Prop
  | value {l t : String} {lines rest : List String} {n : Nat} {e : Expr} {env : Environment} {events : List Event}
    (hchoice : strip l = "1") (htext : Expr.ofText (strip t) = .ok e)
    (hvalues : complete [] e.variables lines = (events, some (env, rest))) :
    Evaluates numbers (l :: t :: lines) n e env
  | left {l t u : String} {lines : List String} {n k : Nat} {a b : Expr} {env : Nat → Environment}
    (hchoice : strip l = "3") (ha : Expr.ofText (strip t) = .ok a) (hb : Expr.ofText (strip u) = .ok b)
    (hdraws : ∀ k, Sampling.draw {} numbers (Check.names a b) (n + k) = .ok (env k))
    (h : Check.Going {} (Check.verdicts {} a b env) k) : Evaluates numbers (l :: t :: u :: lines) n a (env k)
  | right {l t u : String} {lines : List String} {n k : Nat} {a b : Expr} {z : Complex} {env : Nat → Environment}
    (hchoice : strip l = "3") (ha : Expr.ofText (strip t) = .ok a) (hb : Expr.ofText (strip u) = .ok b)
    (hdraws : ∀ k, Sampling.draw {} numbers (Check.names a b) (n + k) = .ok (env k))
    (h : Check.Going {} (Check.verdicts {} a b env) k) (hz : a.evaluate (env k) = .ok z) :
    Evaluates numbers (l :: t :: u :: lines) n b (env k)
  | later {lines : List String} {n : Nat} {c : Console} {e : Expr} {env : Environment}
    (hround : runRound numbers lines n = (.ok true, c)) (h : Evaluates numbers c.lines c.drawn e env) :
    Evaluates numbers lines n e env

/-- No evaluation of the session leaves the number system. -/
def Faultless (numbers : Sampling.Numbers) (lines : List String) (n : Nat) : Prop :=
  ∀ e env, Evaluates numbers lines n e env → ∀ f, e.evaluate env ≠ .error (.fault f)

variable {numbers : Sampling.Numbers} {c : Console} {f : Fault}

theorem fault_of_evaluateChoice (h : (evaluateChoice.on c).1 = .error (.failure (.fault f))) :
    ∃ t lines rest e env events, c.lines = t :: lines ∧ Expr.ofText (strip t) = .ok e ∧
      complete [] e.variables lines = (events, some (env, rest)) ∧ e.evaluate env = .error (.fault f) := by
  obtain h | ⟨answer, c₁, hask, h⟩ := on_bind_eq_error h
  · exact absurd h on_ask_ne_fault
  obtain ⟨t, hlines, rfl, -⟩ := on_ask_eq_ok hask
  obtain h | ⟨e, c₂, hread, h⟩ := on_bind_eq_error h
  · exact absurd h on_readExpr_ne_fault
  obtain ⟨htext, hlines', -⟩ := on_readExpr_eq_ok hread
  obtain h | ⟨env, c₃, hvalues, h⟩ := on_bind_eq_error h
  · exact absurd h on_askValues_ne_fault
  obtain ⟨events, hcomplete⟩ := on_askValues_eq_ok hvalues
  obtain h | ⟨z, c₄, -, h⟩ := on_bind_eq_error h
  · rw [on_ofExcept] at h
    exact ⟨t, c₁.lines, c₃.lines, e, env, events, hlines, htext, hlines' ▸ hcomplete, mapError_failure_eq_error h⟩
  · exact absurd h (by simp [say, on_emit])

theorem report_of_check {a b : Expr} {c' : Console} {r : Report} (h : (check {} numbers a b).on c = (.ok r, c')) :
    (Check.run {} (Sampling.draw {} numbers (Check.names a b)) a b c.drawn).result = .ok r := by
  have hcheck := does_check {} numbers a b c.drawn c.lines c.events
  rw [show (check {} numbers a b).on c = _ from hcheck] at h
  exact mapError_eq_ok (congrArg Prod.fst h)

theorem fault_of_check {a b : Expr} (h : ((check {} numbers a b).on c).1 = .error (.failure (.fault f))) :
    (Check.run {} (Sampling.draw {} numbers (Check.names a b)) a b c.drawn).result = .error (.fault f) := by
  have hcheck := does_check {} numbers a b c.drawn c.lines c.events
  rw [show (check {} numbers a b).on c = _ from hcheck] at h
  exact mapError_failure_eq_error h

theorem fault_of_compareChoice (h : ((compareChoice numbers).on c).1 = .error (.failure (.fault f))) :
    ∃ t u lines a b, ∃ env : Nat → Environment, ∃ k, c.lines = t :: u :: lines ∧ Expr.ofText (strip t) = .ok a ∧
      Expr.ofText (strip u) = .ok b ∧ (∀ k, Sampling.draw {} numbers (Check.names a b) (c.drawn + k) = .ok (env k)) ∧
      Check.Going {} (Check.verdicts {} a b env) k ∧ (a.evaluate (env k) = .error (.fault f) ∨
      (∃ z, a.evaluate (env k) = .ok z) ∧ b.evaluate (env k) = .error (.fault f)) := by
  obtain h | ⟨answer, c₁, hask, h⟩ := on_bind_eq_error h
  · exact absurd h on_ask_ne_fault
  obtain ⟨t, hlines, rfl, hdrawn⟩ := on_ask_eq_ok hask
  obtain h | ⟨a, c₂, hread, h⟩ := on_bind_eq_error h
  · exact absurd h on_readExpr_ne_fault
  obtain ⟨ha, hlines₂, hdrawn₂⟩ := on_readExpr_eq_ok hread
  obtain h | ⟨answer, c₃, hask, h⟩ := on_bind_eq_error h
  · exact absurd h on_ask_ne_fault
  obtain ⟨u, hlines₃, rfl, hdrawn₃⟩ := on_ask_eq_ok hask
  obtain h | ⟨b, c₄, hread, h⟩ := on_bind_eq_error h
  · exact absurd h on_readExpr_ne_fault
  obtain ⟨hb, hlines₄, hdrawn₄⟩ := on_readExpr_eq_ok hread
  have hn : c₄.drawn = c.drawn := by rw [hdrawn₄, hdrawn₃, hdrawn₂, hdrawn]
  obtain ⟨env, hdraws⟩ := exists_draw numbers (Check.names a b) c.drawn
  obtain h | ⟨r, c₅, hcheck, h⟩ := on_bind_eq_error h
  · have hresult := fault_of_check h
    rw [hn] at hresult
    obtain ⟨k, hgoing, hfault⟩ := Check.fault_of_run hdraws hresult
    exact ⟨t, u, c₃.lines, a, b, env, k, by rw [hlines, ← hlines₂, hlines₃], ha, hb, hdraws, hgoing, hfault⟩
  · -- the report is one that can be shown
    obtain ⟨rows, hshow, -⟩ := exists_showReport_of_binds (Check.binds_of_run (report_of_check hcheck))
    rw [hshow] at h
    exact absurd h (by simp [ofFault, on_emit])

/-! ### One round -/

variable {l : String} {read rest : List String} {shown : List Event} {n m : Nat}

theorem does_round_quit (hl : strip l = "4") : Does (round numbers) n [l]
    [.text menu, promptFor "Choice", .text "Exiting..."] n (.ok false) := by
  refine (does_emit [.text menu] n).bind ((does_ask "Choice" l n).bind ?_)
  rw [if_pos hl]
  exact (does_emit [.text "Exiting..."] n).bind (does_pure false n)

theorem does_round_choice (hl : strip l ≠ "4") {r : Except Stop Unit}
    (h : Does (guarded (choice numbers (strip l))) n read shown m r) : Does (round numbers) n (l :: read)
      (.text menu :: promptFor "Choice" :: shown) m (r.map fun _ => true) := by
  refine (does_emit [.text menu] n).bind ((does_ask "Choice" l n).bind ?_)
  rw [if_neg hl]
  cases r with
  | error s => exact h.bind_error
  | ok _ =>
    have hgo := h.bind (f := fun _ => pure true) (does_pure true m)
    rwa [List.append_nil, List.append_nil] at hgo

theorem runsDry_round_nil : RunsDry (round numbers) n [] [.text menu, promptFor "Choice"] :=
  (does_emit [.text menu] n).bind_dry (runsDry_ask "Choice" n).bind

theorem runsDry_round (hl : strip l ≠ "4") {lines : List String}
    (h : RunsDry (guarded (choice numbers (strip l))) n lines shown) :
    RunsDry (round numbers) n (l :: lines) (.text menu :: promptFor "Choice" :: shown) := by
  refine (does_emit [.text menu] n).bind_dry ((does_ask "Choice" l n).bind_dry ?_)
  rw [if_neg hl]
  exact h.bind

theorem evaluates_of_choice {lines : List String} {es : List Event}
    (h : ((choice numbers (strip l)).on ⟨lines, n, es⟩).1 = .error (.failure (.fault f))) :
    ∃ e env, Evaluates numbers (l :: lines) n e env ∧ e.evaluate env = .error (.fault f) := by
  unfold choice at h
  split at h
  · rename_i hl
    obtain ⟨t, ls, rest, e, env, events, rfl, htext, hvalues, hfault⟩ := fault_of_evaluateChoice h
    exact ⟨e, env, .value hl htext hvalues, hfault⟩
  split at h
  · exact absurd h treeChoice_ne_fault
  split at h
  · rename_i hl
    obtain ⟨t, u, ls, a, b, env, k, rfl, ha, hb, hdraws, hgoing, hfault | ⟨⟨z, hz⟩, hfault⟩⟩ :=
      fault_of_compareChoice h
    · exact ⟨a, env k, .left hl ha hb hdraws hgoing, hfault⟩
    · exact ⟨b, env k, .right hl ha hb hdraws hgoing hz, hfault⟩
  · exact absurd h (by simp [say, on_emit])

/-- What a round does with the lines. -/
inductive Round (numbers : Sampling.Numbers) (n : Nat) (lines : List String) : Prop
  | dry {shown : List Event} (hshown : ∀ e ∈ shown, IsPlain e)
    (h : RunsDry (round numbers) n lines (.text menu :: shown))
  | quits {l : String} {rest : List String} (hlines : lines = l :: rest) (hl : strip l = "4")
    (h : Does (round numbers) n [l] [.text menu, promptFor "Choice", .text "Exiting..."] n (.ok false))
  | goesOn {l : String} {read rest : List String} {shown : List Event} {m : Nat} (hlines : lines = l :: read ++ rest)
    (hshown : ∀ e ∈ shown, IsPlain e) (hquiet : strip l ≠ "3" → m = n)
    (h : Does (round numbers) n (l :: read) (.text menu :: shown) m (.ok true))

theorem round_of_faultless {lines : List String} (h : Faultless numbers lines n) : Round numbers n lines := by
  cases lines with
  | nil => exact .dry (List.forall_mem_singleton.2 (IsRegular.prompt _).isPlain) runsDry_round_nil
  | cons l lines =>
    by_cases hl : strip l = "4"
    · exact .quits rfl hl (does_round_quit hl)
    have herror (s : String) : IsPlain (.text ("Error: " ++ s)) := Event.isPlain_append s (by decide +kernel)
    have hchoice := (regular_choice numbers (strip l)).mono fun _ he => he.isPlain
    cases orderly_guarded hchoice (fun _ _ _ => herror _) n lines with
    | dry hshown hdry =>
      exact .dry (List.forall_mem_cons.2 ⟨(IsRegular.prompt _).isPlain, hshown⟩) (runsDry_round hl hdry)
    | @ends read rest shown m r hlines hshown hr hdoes =>
      cases r with
      | ok _ =>
        refine .goesOn (by rw [hlines]; rfl) (List.forall_mem_cons.2 ⟨(IsRegular.prompt _).isPlain, hshown⟩)
          (fun hne => ?_) (does_round_choice hl hdoes)
        exact hdoes.quiet (quiet_guarded (quiet_choice numbers hne))
      | error s =>
        -- a choice that ends with anything but the end of the input comes from an evaluation
        subst hlines
        have herror : ((guarded (choice numbers (strip l))).on ⟨read ++ rest, n, []⟩).1 = .error s := by rw [hdoes]
        obtain rfl | ⟨f, rfl, hfault⟩ := error_of_guarded herror
        · exact absurd rfl hr
        · obtain ⟨e, env, hevaluates, hfault⟩ := evaluates_of_choice hfault
          exact absurd hfault (h e env hevaluates f)

end

/-! ### The session -/

section

variable {shown : List Event}

theorem countP_isMenu_of_plain (h : ∀ e ∈ shown, IsPlain e) : (Event.text menu :: shown).countP Event.isMenu = 1 := by
  have hshown : shown.countP Event.isMenu = 0 :=
    List.countP_eq_zero.2 fun e he => by rw [(h e he).1]; exact Bool.false_ne_true
  rw [List.countP_cons_of_pos (by decide +kernel), hshown]

theorem isFarewell_of_plain (h : ∀ e ∈ shown, IsPlain e) : ∀ e ∈ Event.text menu :: shown, e.isFarewell = false :=
  List.forall_mem_cons.2 ⟨by decide +kernel, fun e he => (h e he).2⟩

/-- The session ends by itself, after at most `k` menus and with the farewell. -/
structure Closes (k : Nat) (t : Transcript) : Prop where
  ending : t.ending = .exit 0
  menus : t.allEvents.countP Event.isMenu ≤ k
  farewell : ∃ before last, t.allEvents = before ++ [last] ∧ last.isFarewell = true ∧
    ∀ e ∈ before, e.isFarewell = false

theorem Closes.mono {t : Transcript} {k k' : Nat} (h : Closes k t) (hk : k ≤ k') : Closes k' t :=
  ⟨h.ending, Nat.le_trans h.menus hk, h.farewell⟩

/-- One round is shown and then the farewell. -/
theorem closes_of_last {t : Transcript} {s : String} (hending : t.ending = .exit 0) (h : ∀ e ∈ shown, IsPlain e)
    (hs : (Event.text s).isFarewell = true) (hmenu : (Event.text s).isMenu = false)
    (hevents : t.allEvents = .text menu :: shown ++ [.text s]) : Closes 1 t := by
  refine ⟨hending, ?_, _, _, hevents, hs, isFarewell_of_plain h⟩
  rw [hevents, List.countP_append, countP_isMenu_of_plain h, List.countP_singleton, hmenu]
  exact Nat.le_refl 1

theorem Closes.after {t : Transcript} {k : Nat} (ht : Closes k t) (h : ∀ e ∈ shown, IsPlain e) :
    Closes (k + 1) (t.after (.text menu :: shown)) := by
  have hevents := t.allEvents_after (.text menu :: shown)
  obtain ⟨before, last, hall, hlast, hbefore⟩ := ht.farewell
  refine ⟨ht.ending, ?_, .text menu :: shown ++ before, last, ?_, hlast, ?_⟩
  · have hmenus := ht.menus
    rw [hevents, List.countP_append, countP_isMenu_of_plain h]
    omega
  · rw [hevents, hall, List.append_assoc]
  · exact List.forall_mem_append.2 ⟨isFarewell_of_plain h, hbefore⟩

end

section

variable [Elementary] {numbers : Sampling.Numbers} {l : String} {lines read rest : List String} {shown : List Event}
  {n m : Nat}

theorem run_of_dry (h : RunsDry (round numbers) n lines shown) :
    run numbers lines n = ⟨shown, some [.text "\nExiting..."], .exit 0⟩ := by
  obtain ⟨m, h⟩ := h
  have hround : runRound numbers lines n = (.error .endOfInput, ⟨[], m, shown⟩) := h []
  rw [run, hround]

theorem runRound_eq {r : Except Stop Bool} (h : Does (round numbers) n read shown m r) (rest : List String) :
    runRound numbers (read ++ rest) n = (r, ⟨rest, m, shown⟩) :=
  h rest []

theorem run_of_quit (h : Does (round numbers) n read shown m (.ok false)) (rest : List String) :
    run numbers (read ++ rest) n = ⟨shown, none, .exit 0⟩ := by
  rw [run, runRound_eq h]

/-- A session is its first round followed by a session on the rest. -/
theorem run_of_goesOn (h : Does (round numbers) n (l :: read) shown m (.ok true)) (rest : List String) :
    run numbers (l :: read ++ rest) n = (run numbers rest m).after shown := by
  have hlt : rest.length < (l :: read ++ rest).length := by
    rw [List.length_append, List.length_cons]
    omega
  rw [run, runRound_eq h]
  exact if_pos hlt

theorem Faultless.later (h : Faultless numbers (l :: read ++ rest) n)
    (hround : Does (round numbers) n (l :: read) shown m (.ok true)) : Faultless numbers rest m :=
  fun e env he => h e env (.later (runRound_eq hround rest) he)

theorem closes_of_faultless (h : Faultless numbers lines n) : Closes (lines.length + 1) (run numbers lines n) := by
  induction hk : lines.length using Nat.strong_induction_on generalizing lines n with
  | _ k ih =>
    cases round_of_faultless h with
    | dry hshown hdry =>
      rw [run_of_dry hdry]
      exact (closes_of_last rfl hshown (by decide +kernel) (by decide +kernel) rfl).mono (Nat.le_add_left 1 k)
    | @quits l rest hlines hl hquit =>
      subst hlines
      rw [← List.singleton_append, run_of_quit hquit rest]
      exact (closes_of_last rfl (List.forall_mem_singleton.2 (IsRegular.prompt _).isPlain) (by decide +kernel)
        (by decide +kernel) rfl).mono (Nat.le_add_left 1 k)
    | @goesOn l read rest shown m hlines hshown hquiet hgo =>
      subst hlines
      have hlt : rest.length < k := by
        rw [← hk, List.length_append, List.length_cons]
        omega
      rw [run_of_goesOn hgo]
      exact ((ih rest.length hlt (h.later hgo) rfl).after hshown).mono (Nat.succ_le_succ hlt)

/-- If no evaluation leaves the number system, a session ends by itself: it shows at most one menu more than there are
lines, and the farewell once and as the last thing. If its first round is not cut off, and its choice is neither to
compare nor to quit, then this round does the same on the lines it reads alone, and the session goes on as a session on
the other lines would. -/
theorem run_rounds (numbers : Sampling.Numbers) (lines : List String) (h : Faultless numbers lines 0) :
    (run numbers lines 0).ending = .exit 0 ∧
    (run numbers lines 0).allEvents.countP Event.isMenu ≤ lines.length + 1 ∧
    (∃ before last, (run numbers lines 0).allEvents = before ++ [last] ∧ last.isFarewell = true ∧
      ∀ e ∈ before, e.isFarewell = false) ∧
    ∀ l read rest, lines = l :: read ++ rest → strip l ≠ "3" → strip l ≠ "4" →
      (runRound numbers lines 0).1 ≠ .error .endOfInput → (runRound numbers lines 0).2.lines = rest →
      ∃ events, runRound numbers (l :: read) 0 = (.ok true, ⟨[], 0, events⟩) ∧
        (run numbers lines 0).allEvents = events ++ (run numbers rest 0).allEvents ∧
        (run numbers lines 0).ending = (run numbers rest 0).ending := by
  have hcloses := closes_of_faultless h
  refine ⟨hcloses.ending, hcloses.menus, hcloses.farewell, fun l read rest hlines hcompare hquit hcut hrest => ?_⟩
  subst hlines
  cases round_of_faultless h with
  | dry hshown hdry =>
    obtain ⟨m, hdry⟩ := hdry
    exact absurd (congrArg Prod.fst (hdry [])) hcut
  | @quits l' rest' hlines hl hquits =>
    rw [List.cons_append, List.cons.injEq] at hlines
    exact absurd (hlines.1 ▸ hl) hquit
  | @goesOn l' read' rest' shown m hlines hshown hquiet hgo =>
    have hleft := runRound_eq hgo rest'
    rw [← hlines] at hleft
    rw [hleft] at hrest
    obtain rfl : rest' = rest := hrest
    obtain ⟨rfl, rfl⟩ := List.cons.inj (List.append_cancel_right hlines)
    obtain rfl : m = 0 := hquiet hcompare
    refine ⟨.text menu :: shown, ?_, ?_, ?_⟩
    · have halone := runRound_eq hgo []
      rwa [List.append_nil] at halone
    · rw [run_of_goesOn hgo, Transcript.allEvents_after]
    · rw [run_of_goesOn hgo]
      rfl

end

/-- The first round reads four lines, one of them an answer that is not a number, and the second one quits. -/
theorem run_rounds_of_rejected_answer :
    let numbers : Sampling.Numbers := fun _ _ => 0
    Faultless numbers ["1", "x+1", "oops", "2", "4"] 0 ∧
      (run numbers ["1", "x+1", "oops", "2", "4"] 0).ending = .exit 0 ∧
      ∃ events, runRound numbers ["1", "x+1", "oops", "2"] 0 = (.ok true, ⟨[], 0, events⟩) ∧
        (run numbers ["1", "x+1", "oops", "2", "4"] 0).allEvents = events ++ (run numbers ["4"] 0).allEvents := by
  intro numbers
  have hok : (runRound numbers ["1", "x+1", "oops", "2", "4"] 0).1.isOk = true := by decide +kernel
  have hlines : (runRound numbers ["1", "x+1", "oops", "2", "4"] 0).2.lines = ["4"] := by decide +kernel
  have hdrawn : (runRound numbers ["1", "x+1", "oops", "2", "4"] 0).2.drawn = 0 := by decide +kernel
  have htext : Expr.ofText (strip "x+1") = .ok (.binary "+" (.var "x") (.lit "1")) := by decide +kernel
  have hrejected : Complex.ofInput (strip "oops") = .error (.invalidLiteral "oops") := by decide +kernel
  have haccepted : Complex.ofInput (strip "2") = .ok ⟨2, 0⟩ := by decide +kernel
  have hquit : ∀ e env, ¬ Evaluates numbers ["4"] 0 e env := by
    intro e env h
    cases h with
    | later hround _ =>
      have hl : strip "4" = "4" := by decide +kernel
      exact absurd (congrArg Prod.fst ((runRound_eq (does_round_quit hl) []).symm.trans hround)) (by simp)
  have hfaultless : Faultless numbers ["1", "x+1", "oops", "2", "4"] 0 := by
    intro e env h f
    cases h with
    | value hchoice he hvalues =>
      obtain rfl := Except.ok.inj (htext.symm.trans he)
      rw [show Expr.variables _ = ["x"] by decide] at hvalues
      simp only [complete, readValue, hrejected, haccepted] at hvalues
      obtain ⟨rfl, -⟩ := Prod.mk.inj (Option.some.inj (Prod.mk.inj hvalues).2)
      have hvalue : (Expr.binary "+" (.var "x") (.lit "1")).evaluate (Environment.bind [] "x" (.complex ⟨2, 0⟩)) =
          .ok ⟨3, 0⟩ := by
        decide +kernel
      rw [hvalue]
      simp
    | left hchoice => exact absurd hchoice (by decide +kernel)
    | right hchoice => exact absurd hchoice (by decide +kernel)
    | later hround h =>
      rw [hround] at hlines hdrawn
      rw [hlines, hdrawn] at h
      exact absurd h (hquit e env)
  obtain ⟨hending, -, -, hrounds⟩ := run_rounds numbers _ hfaultless
  have hcut : (runRound numbers ["1", "x+1", "oops", "2", "4"] 0).1 ≠ .error .endOfInput := by
    intro hcut
    rw [hcut] at hok
    exact absurd hok (by decide)
  obtain ⟨events, hround, hevents, -⟩ :=
    hrounds "1" ["x+1", "oops", "2"] ["4"] rfl (by decide +kernel) (by decide +kernel) hcut hlines
  exact ⟨hfaultless, hending, events, hround, hevents⟩

end Session

end Phasor
