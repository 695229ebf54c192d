import Phasor.Dialogue
import Phasor.Proofs.OperationErrors
import Phasor.Proofs.Reading

/-!
# How dialogues use the input

A dialogue that comes to an end reads some lines off the front of the input, shows some events and leaves the
lines that follow as they are (`Does`). Asking, reading expressions and comparing are of this kind unless the
input ends first (`Course`), and so is every dialogue that is put together from such ones (`Orderly.bind`,
`orderly_tryCatch`).
-/

namespace Phasor

namespace Dialogue

open Text

variable {α β : Type}

/-! ### Dialogues on a console -/

/-- The result of the dialogue, and the console after it. -/
def on (d : Dialogue α) (c : Console) : Except Stop α × Console := d.run.run c

theorem on_bind (d : Dialogue α) (f : α → Dialogue β) (c : Console) :
    (d >>= f).on c = match d.on c with
      | (.ok a, c') => (f a).on c'
      | (.error s, c') => (.error s, c') := by
  simp only [on, ExceptT.run_bind, StateT.run_bind]
  rcases d.run.run c with ⟨_ | _, c'⟩ <;> rfl

theorem on_tryCatch (d : Dialogue α) (h : Stop → Dialogue α) (c : Console) :
    (tryCatch d h).on c = match d.on c with
      | (.ok a, c') => (.ok a, c')
      | (.error s, c') => (h s).on c' := by
  simp only [on, ExceptT.run_tryCatch, StateT.run_bind]
  rcases d.run.run c with ⟨_ | _, c'⟩ <;> rfl

theorem on_ask (label : String) (c : Console) :
    (ask label).on c = match c.lines with
      | [] => (.error .endOfInput, { c with events := c.events ++ [promptFor label] })
      | l :: ls => (.ok (strip l), ⟨ls, c.drawn, c.events ++ [promptFor label]⟩) := by
  rcases c with ⟨_ | _, n, es⟩ <;> rfl

theorem on_askValues (names : List String) (env : Environment) (c : Console) :
    (askValues names env).on c = match complete env names c.lines with
      | (events, none) => (.error .endOfInput, { c with lines := [], events := c.events ++ events })
      | (events, some (env, rest)) => (.ok env, { c with lines := rest, events := c.events ++ events }) := by
  have hget : (get : Dialogue Console).on c = (.ok c, c) := rfl
  rw [askValues, on_bind, hget]
  dsimp only
  rcases complete env names c.lines with ⟨_, _ | ⟨_, _⟩⟩ <;> rfl

theorem on_bind_eq_error {d : Dialogue α} {f : α → Dialogue β} {c : Console} {s : Stop}
    (h : ((d >>= f).on c).1 = .error s) :
    (d.on c).1 = .error s ∨ ∃ a c', d.on c = (.ok a, c') ∧ ((f a).on c').1 = .error s := by
  rw [on_bind] at h
  split at h
  · rename_i a c' hd
    exact .inr ⟨a, c', hd, h⟩
  · rename_i s' c' hd
    rw [hd, Except.error.inj h]
    exact .inl rfl

/-! ### Reading off the front of the input -/

/-- With the lines `read` in front of the input, the dialogue reads just these, shows the events `shown` and gives
the result, whatever lines follow and whatever was shown before. The draws are `n` before and `m` after it. -/
def Does (d : Dialogue α) (n : Nat) (read : List String) (shown : List Event) (m : Nat) (r : Except Stop α) : Prop :=
  ∀ rest es, d.on ⟨read ++ rest, n, es⟩ = (r, ⟨rest, m, es ++ shown⟩)

/-- The dialogue waits for a line after the last one, and nothing is left of the input. -/
def RunsDry (d : Dialogue α) (n : Nat) (lines : List String) (shown : List Event) : Prop :=
  ∃ m, ∀ es, d.on ⟨lines, n, es⟩ = (.error .endOfInput, ⟨[], m, es ++ shown⟩)

/-- What a dialogue does with the lines: it runs dry, or it ends and leaves the lines alone that it has not read. All
events that are shown meanwhile have the property `P`. -/
inductive Course (P : Event → Prop) (d : Dialogue α) (n : Nat) (lines : List String) : Prop
  | dry {shown : List Event} (hshown : ∀ e ∈ shown, P e) (h : RunsDry d n lines shown)
  | ends {read rest : List String} {shown : List Event} {m : Nat} {r : Except Stop α} (hlines : lines = read ++ rest)
    (hshown : ∀ e ∈ shown, P e) (hr : r ≠ .error .endOfInput) (h : Does d n read shown m r)

def Orderly (P : Event → Prop) (d : Dialogue α) : Prop := ∀ n lines, Course P d n lines

section

variable {P : Event → Prop} {d : Dialogue α} {f : α → Dialogue β} {n m k : Nat} {read read' lines : List String}
  {shown shown' : List Event} {a : α} {r : Except Stop β} {s : Stop}

theorem Does.bind (hd : Does d n read shown m (.ok a)) (hf : Does (f a) m read' shown' k r) :
    Does (d >>= f) n (read ++ read') (shown ++ shown') k r := by
  intro rest es
  rw [on_bind, List.append_assoc, hd]
  dsimp only
  rw [hf, List.append_assoc]

theorem Does.bind_error (hd : Does d n read shown m (.error s)) : Does (d >>= f) n read shown m (.error s) := by
  intro rest es
  rw [on_bind, hd]

theorem Does.bind_dry (hd : Does d n read shown m (.ok a)) (hf : RunsDry (f a) m lines shown') :
    RunsDry (d >>= f) n (read ++ lines) (shown ++ shown') := by
  obtain ⟨k, hf⟩ := hf
  refine ⟨k, fun es => ?_⟩
  rw [on_bind, hd]
  dsimp only
  rw [hf, List.append_assoc]

theorem RunsDry.bind (hd : RunsDry d n lines shown) : RunsDry (d >>= f) n lines shown := by
  obtain ⟨m, hd⟩ := hd
  refine ⟨m, fun es => ?_⟩
  rw [on_bind, hd]

theorem Orderly.bind (hd : Orderly P d) (hf : ∀ a, Orderly P (f a)) : Orderly P (d >>= f) := by
  intro n lines
  cases hd n lines with
  | dry hshown h => exact .dry hshown h.bind
  | @ends read rest shown m r hlines hshown hr h =>
    cases r with
    | error s => exact .ends hlines hshown (fun hs => hr (by rw [Except.error.inj hs])) h.bind_error
    | ok a =>
      subst hlines
      cases hf a m rest with
      | dry hshown' h' => exact .dry (List.forall_mem_append.2 ⟨hshown, hshown'⟩) (h.bind_dry h')
      | ends hlines' hshown' hr' h' =>
        exact .ends (by rw [hlines', List.append_assoc]) (List.forall_mem_append.2 ⟨hshown, hshown'⟩) hr' (h.bind h')

theorem Orderly.mono {Q : Event → Prop} (hd : Orderly P d) (h : ∀ e, P e → Q e) : Orderly Q d := by
  intro n lines
  cases hd n lines with
  | dry hshown hdry => exact .dry (fun e he => h e (hshown e he)) hdry
  | ends hlines hshown hr hdoes => exact .ends hlines (fun e he => h e (hshown e he)) hr hdoes

/-- A handler that does not catch the end of the input. -/
theorem orderly_tryCatch {h : Stop → Dialogue α} (hd : Orderly P d)
    (hh : ∀ s c, (d.on c).1 = .error s → s ≠ .endOfInput → Orderly P (h s))
    (hend : h .endOfInput = throw .endOfInput) : Orderly P (tryCatch d h) := by
  intro n lines
  cases hd n lines with
  | @dry shown hshown hdry =>
    obtain ⟨m, hdry⟩ := hdry
    refine .dry hshown ⟨m, fun es => ?_⟩
    rw [on_tryCatch, hdry]
    dsimp only
    rw [hend]
    rfl
  | @ends read rest shown m r hlines hshown hr hdoes =>
    cases r with
    | ok a =>
      refine .ends hlines hshown (m := m) hr fun rest es => ?_
      rw [on_tryCatch, hdoes]
    | error s =>
      subst hlines
      -- the handler goes on where the dialogue stopped
      have hcatch : ∀ lines es, (tryCatch d h).on ⟨read ++ lines, n, es⟩ = (h s).on ⟨lines, m, es ++ shown⟩ := by
        intro lines es
        rw [on_tryCatch, hdoes]
      have herror : (d.on ⟨read ++ rest, n, []⟩).1 = .error s := by rw [hdoes]
      cases hh s _ herror (fun hs => hr (by rw [hs])) m rest with
      | @dry shown' hshown' hdry =>
        obtain ⟨k, hdry⟩ := hdry
        refine .dry (List.forall_mem_append.2 ⟨hshown, hshown'⟩) ⟨k, fun es => ?_⟩
        rw [hcatch, hdry, List.append_assoc]
      | @ends read' rest' shown' k r' hlines' hshown' hr' hdoes' =>
        have hboth : Does (tryCatch d h) n (read ++ read') (shown ++ shown') k r' := by
          intro lines es
          rw [List.append_assoc, hcatch, hdoes', List.append_assoc]
        exact .ends (by rw [hlines', List.append_assoc]) (List.forall_mem_append.2 ⟨hshown, hshown'⟩) hr' hboth

/-- A dialogue that reads nothing and depends on no line. -/
theorem orderly_of_forall (h : ∀ n, ∃ shown m r, (∀ e ∈ shown, P e) ∧ r ≠ .error .endOfInput ∧
    Does d n [] shown m r) : Orderly P d := by
  intro n lines
  obtain ⟨shown, m, r, hshown, hr, hdoes⟩ := h n
  exact .ends (List.nil_append lines).symm hshown hr hdoes

end

/-! ### Showing and failing -/

section

variable {P : Event → Prop}

theorem does_emit (es : List Event) (n : Nat) : Does (emit es) n [] es n (.ok ()) := fun _ _ => rfl

theorem does_fail (f : Failure) (n : Nat) : Does (fail f : Dialogue α) n [] [] n (.error (.failure f)) := by
  intro rest es
  rw [List.append_nil]
  rfl

theorem does_pure (a : α) (n : Nat) : Does (pure a : Dialogue α) n [] [] n (.ok a) := by
  intro rest es
  rw [List.append_nil]
  rfl

theorem orderly_emit {es : List Event} (h : ∀ e ∈ es, P e) : Orderly P (emit es) :=
  orderly_of_forall fun n => ⟨es, n, .ok (), h, by simp, does_emit es n⟩

theorem orderly_say {s : String} (h : P (.text s)) : Orderly P (say s) :=
  orderly_emit (List.forall_mem_singleton.2 h)

theorem orderly_pure (a : α) : Orderly P (pure a) :=
  orderly_of_forall fun n => ⟨[], n, .ok a, by simp, by simp, does_pure a n⟩

theorem orderly_fail (f : Failure) : Orderly P (fail f : Dialogue α) :=
  orderly_of_forall fun n => ⟨[], n, .error (.failure f), by simp, by simp, does_fail f n⟩

theorem orderly_ofExcept (x : Except Failure α) : Orderly P (ofExcept x) := by
  cases x with
  | ok a => exact orderly_pure a
  | error f => exact orderly_fail f

theorem orderly_show {x : Except Fault (List Event)} (h : ∀ es, x = .ok es → ∀ e ∈ es, P e) :
    Orderly P (ofFault x >>= emit) := by
  cases x with
  | ok es =>
    rw [show ofFault (.ok es) = (pure es : Dialogue (List Event)) from rfl, pure_bind]
    exact orderly_emit (h es rfl)
  | error f =>
    exact orderly_of_forall fun n => ⟨[], n, .error (.failure (.fault f)), by simp, by simp,
      (does_fail (.fault f) n).bind_error⟩

/-! ### Asking -/

theorem does_ask (label l : String) (n : Nat) :
    Does (ask label) n [l] [promptFor label] n (.ok (strip l)) := fun _ _ => rfl

theorem runsDry_ask (label : String) (n : Nat) : RunsDry (ask label) n [] [promptFor label] := ⟨n, fun _ => rfl⟩

theorem orderly_ask {label : String} (h : P (promptFor label)) : Orderly P (ask label) := by
  intro n lines
  cases lines with
  | nil => exact .dry (List.forall_mem_singleton.2 h) (runsDry_ask label n)
  | cons l ls =>
    exact .ends List.singleton_append.symm (List.forall_mem_singleton.2 h) (by simp) (does_ask label l n)

/-- Answers are read up to the first one that is a number. -/
theorem readValue_cases (name : String) (lines : List String) (hprompt : ∀ s, P (.prompt s))
    (hinvalid : ∀ s, P (.text ("Invalid input: " ++ s))) :
    (∃ shown, (∀ e ∈ shown, P e) ∧ readValue name lines = (shown, none)) ∨
    ∃ read rest shown z, lines = read ++ rest ∧ (∀ e ∈ shown, P e) ∧
      ∀ rest', readValue name (read ++ rest') = (shown, some (z, rest')) := by
  induction lines with
  | nil => exact .inl ⟨_, List.forall_mem_singleton.2 (hprompt _), rfl⟩
  | cons l ls ih =>
    cases hz : Complex.ofInput (strip l) with
    | ok z =>
      refine .inr ⟨[l], ls, [promptFor (valueLabel name)], z, rfl, List.forall_mem_singleton.2 (hprompt _),
        fun rest' => ?_⟩
      rw [List.singleton_append, readValue, hz]
    | error err =>
      have hreject : ∀ shown : List Event, (∀ e ∈ shown, P e) →
          ∀ e ∈ promptFor (valueLabel name) :: .text ("Invalid input: " ++ err.message) :: shown, P e :=
        fun _ h => List.forall_mem_cons.2 ⟨hprompt _, List.forall_mem_cons.2 ⟨hinvalid _, h⟩⟩
      rcases ih with ⟨shown, hshown, h⟩ | ⟨read, rest, shown, z, rfl, hshown, h⟩
      · refine .inl ⟨_, hreject shown hshown, ?_⟩
        rw [readValue, hz, h]
      · refine .inr ⟨l :: read, rest, _, z, rfl, hreject shown hshown, fun rest' => ?_⟩
        rw [List.cons_append, readValue, hz, h]

theorem complete_cases (names : List String) (env : Environment) (lines : List String) (hprompt : ∀ s, P (.prompt s))
    (hinvalid : ∀ s, P (.text ("Invalid input: " ++ s))) :
    (∃ shown, (∀ e ∈ shown, P e) ∧ complete env names lines = (shown, none)) ∨
    ∃ read rest shown env', lines = read ++ rest ∧ (∀ e ∈ shown, P e) ∧
      ∀ rest', complete env names (read ++ rest') = (shown, some (env', rest')) := by
  induction names generalizing env lines with
  | nil => exact .inr ⟨[], lines, [], env, rfl, by simp, fun rest' => rfl⟩
  | cons name names ih =>
    by_cases hbinds : env.binds name = true
    · simp only [complete, if_pos hbinds]
      exact ih env lines
    · simp only [complete, if_neg hbinds]
      rcases readValue_cases name lines hprompt hinvalid with ⟨shown, hshown, h⟩ | ⟨read, rest, shown, z, rfl, hshown, h⟩
      · exact .inl ⟨shown, hshown, by rw [h]⟩
      · rcases ih (env.bind name (.complex z)) rest with ⟨more, hmore, h'⟩ |
          ⟨read', rest', more, env', rfl, hmore, h'⟩
        · exact .inl ⟨shown ++ more, List.forall_mem_append.2 ⟨hshown, hmore⟩, by simp only [h, h']⟩
        · refine .inr ⟨read ++ read', rest', shown ++ more, env', by rw [List.append_assoc],
            List.forall_mem_append.2 ⟨hshown, hmore⟩, fun rest => ?_⟩
          simp only [List.append_assoc, h, h']

theorem orderly_askValues (names : List String) (env : Environment) (hprompt : ∀ s, P (.prompt s))
    (hinvalid : ∀ s, P (.text ("Invalid input: " ++ s))) : Orderly P (askValues names env) := by
  intro n lines
  rcases complete_cases names env lines hprompt hinvalid with ⟨shown, hshown, h⟩ |
    ⟨read, rest, shown, env', hlines, hshown, h⟩
  · refine .dry hshown ⟨n, fun es => ?_⟩
    rw [on_askValues, h]
  · refine .ends hlines hshown (m := n) (r := .ok env') (by simp) fun rest' es => ?_
    rw [on_askValues, h]

/-! ### Expressions -/

/-- The debug line of an expression, which is there once its tokens are in order. -/
def readExprNotes (text : String) : List Event :=
  match Token.scan text with
  | .error _ => []
  | .ok tokens =>
    match Postfix.arrange tokens with
    | .error _ => []
    | .ok items => [.debug ("postfix: " ++ " ".intercalate (items.map Postfix.describe))]

theorem does_readExpr (text : String) (n : Nat) :
    Does (readExpr text) n [] (readExprNotes text) n ((Expr.ofText text).mapError .failure) := by
  unfold readExpr readExprNotes Expr.ofText Expr.ofTokens
  cases Token.scan text with
  | error e => exact (does_fail (.parse e) n).bind_error
  | ok tokens =>
    refine (does_pure tokens n).bind ?_
    dsimp only
    cases Postfix.arrange tokens with
    | error e => exact (does_fail (.parse e) n).bind_error
    | ok items =>
      refine (does_pure items n).bind ((does_emit _ n).bind ?_)
      dsimp only
      cases Postfix.build items with
      | error f => exact does_fail f n
      | ok e => exact does_pure e n

theorem orderly_readExpr (text : String) (hdebug : ∀ s, P (.debug s)) : Orderly P (readExpr text) := by
  refine orderly_of_forall fun n => ⟨_, n, _, fun e he => ?_, ?_, does_readExpr text n⟩
  · unfold readExprNotes at he
    split at he
    · exact absurd he List.not_mem_nil
    split at he
    · exact absurd he List.not_mem_nil
    · rw [List.mem_singleton.1 he]
      exact hdebug _
  · cases Expr.ofText text <;> simp [Except.mapError]

/-! ### Comparing -/

theorem does_check [Elementary] (s : Settings) (numbers : Sampling.Numbers) (a b : Expr) (n : Nat) :
    let o := Check.run s (Sampling.draw s numbers (Check.names a b)) a b n
    Does (check s numbers a b) n [] (o.notes.map fun note => .debug note.text) o.drawn (o.result.mapError .failure) := by
  intro o rest es
  show (ofExcept o.result).on ⟨rest, o.drawn, es ++ o.notes.map fun note => .debug note.text⟩ = _
  cases o.result <;> rfl

theorem orderly_check [Elementary] (s : Settings) (numbers : Sampling.Numbers) (a b : Expr)
    (hdebug : ∀ s, P (.debug s)) : Orderly P (check s numbers a b) := by
  refine orderly_of_forall fun n => ⟨_, _, _, fun e he => ?_, ?_, does_check s numbers a b n⟩
  · obtain ⟨note, -, rfl⟩ := List.mem_map.1 he
    exact hdebug _
  · cases (Check.run s (Sampling.draw s numbers (Check.names a b)) a b n).result <;> simp [Except.mapError]

end

/-! ### Results -/

section

variable {c c' : Console} {f : Fault}

theorem mapError_failure_eq_error {x : Except Failure α} {g : Failure}
    (h : x.mapError Stop.failure = .error (.failure g)) : x = .error g := by
  cases x with
  | ok a => exact absurd h (by simp [Except.mapError])
  | error g' => rw [Stop.failure.inj (Except.error.inj h)]

theorem on_emit (es : List Event) (c : Console) :
    (emit es).on c = (.ok (), { c with events := c.events ++ es }) :=
  rfl

theorem on_ofExcept (x : Except Failure α) (c : Console) : (ofExcept x).on c = (x.mapError .failure, c) := by
  cases x <;> rfl

theorem on_ask_eq_ok {label answer : String} (h : (ask label).on c = (.ok answer, c')) :
    ∃ l, c.lines = l :: c'.lines ∧ answer = strip l ∧ c'.drawn = c.drawn := by
  rw [on_ask] at h
  split at h
  · exact absurd (congrArg Prod.fst h) (by simp)
  · rename_i l ls hlines
    obtain ⟨hanswer, rfl⟩ := Prod.mk.inj h
    exact ⟨l, hlines, (Except.ok.inj hanswer).symm, rfl⟩

theorem on_ask_ne_fault {label : String} : ((ask label).on c).1 ≠ .error (.failure (.fault f)) := by
  rw [on_ask]
  split <;> simp

theorem on_askValues_eq_ok {names : List String} {env env' : Environment}
    (h : (askValues names env).on c = (.ok env', c')) :
    ∃ events, complete env names c.lines = (events, some (env', c'.lines)) := by
  rw [on_askValues] at h
  split at h
  · exact absurd (congrArg Prod.fst h) (by simp)
  · rename_i events env'' rest hcomplete
    obtain ⟨henv, rfl⟩ := Prod.mk.inj h
    exact ⟨events, by rw [hcomplete, Except.ok.inj henv]⟩

theorem on_askValues_ne_fault {names : List String} {env : Environment} :
    ((askValues names env).on c).1 ≠ .error (.failure (.fault f)) := by
  rw [on_askValues]
  split <;> simp

theorem on_readExpr (text : String) (c : Console) : (readExpr text).on c =
    ((Expr.ofText text).mapError .failure, { c with events := c.events ++ readExprNotes text }) :=
  does_readExpr text c.drawn c.lines c.events

theorem on_readExpr_eq_ok {text : String} {e : Expr} (h : (readExpr text).on c = (.ok e, c')) :
    Expr.ofText text = .ok e ∧ c'.lines = c.lines ∧ c'.drawn = c.drawn := by
  rw [on_readExpr] at h
  obtain ⟨he, rfl⟩ := Prod.mk.inj h
  exact ⟨mapError_eq_ok he, rfl, rfl⟩

theorem on_readExpr_ne_fault {text : String} : ((readExpr text).on c).1 ≠ .error (.failure (.fault f)) := by
  rw [on_readExpr]
  intro h
  obtain ⟨err, hparse, -⟩ := Expr.ofText_eq_error (mapError_failure_eq_error h)
  exact absurd hparse (by simp)

end

/-! ### Dialogues that draw nothing -/

/-- No environment is drawn. -/
def Quiet (d : Dialogue α) : Prop := ∀ c, (d.on c).2.drawn = c.drawn

theorem Quiet.bind {d : Dialogue α} {f : α → Dialogue β} (hd : Quiet d) (hf : ∀ a, Quiet (f a)) : Quiet (d >>= f) := by
  intro c
  have hdrawn := hd c
  rw [on_bind]
  split
  · rename_i a c' h
    rw [h] at hdrawn
    exact (hf a c').trans hdrawn
  · rename_i s c' h
    rwa [h] at hdrawn

theorem quiet_tryCatch {d : Dialogue α} {h : Stop → Dialogue α} (hd : Quiet d) (hh : ∀ s, Quiet (h s)) :
    Quiet (tryCatch d h) := by
  intro c
  have hdrawn := hd c
  rw [on_tryCatch]
  split
  · rename_i a c' hon
    rwa [hon] at hdrawn
  · rename_i s c' hon
    rw [hon] at hdrawn
    exact (hh s c').trans hdrawn

theorem Does.quiet {d : Dialogue α} {n m : Nat} {read : List String} {shown : List Event} {r : Except Stop α}
    (hd : Quiet d) (h : Does d n read shown m r) : m = n := by
  have hdrawn := hd ⟨read ++ [], n, []⟩
  rwa [h] at hdrawn

theorem quiet_of_does {d : Dialogue α} (h : ∀ n, ∃ shown r, Does d n [] shown n r) : Quiet d := by
  intro c
  obtain ⟨shown, r, hd⟩ := h c.drawn
  rw [show d.on c = _ from hd c.lines c.events]

theorem quiet_emit (es : List Event) : Quiet (emit es) := fun _ => rfl

theorem quiet_ofExcept (x : Except Failure α) : Quiet (ofExcept x) := by
  cases x <;> exact fun _ => rfl

theorem quiet_ask (label : String) : Quiet (ask label) := by
  rintro ⟨_ | _, n, es⟩ <;> rfl

theorem quiet_askValues (names : List String) (env : Environment) : Quiet (askValues names env) := by
  intro c
  rw [on_askValues]
  rcases complete env names c.lines with ⟨_, _ | ⟨_, _⟩⟩ <;> rfl

theorem quiet_readExpr (text : String) : Quiet (readExpr text) :=
  quiet_of_does fun n => ⟨_, _, does_readExpr text n⟩

end Dialogue

end Phasor
