import Phasor.Proofs.Dialogues

/-!
# Answers to questions for values

A question for the value of a variable is put until an answer is a number (`Dialogue.Question`). `complete` puts one
question for each name without a value, in the order of the names: the lines it reads are the answers to these
questions, and behind the old bindings it binds each of these names to its number (`complete_of_questions`). Lines that
do not answer all questions are read to their end (`complete_of_lack`), and any lines are of one of the two kinds
(`exists_questions`).
-/

namespace Phasor

/-! ### Names without a value -/

namespace Environment

variable {env env' : Environment} {n m : String} {b : Binding} {names : List String}

/-- The names that are not bound, in their order. -/
def missing (env : Environment) (names : List String) : List String := names.filter fun n => !env.binds n

theorem mem_missing : n ∈ env.missing names ↔ n ∈ names ∧ env.binds n = false := by
  rw [missing, List.mem_filter, Bool.not_eq_true']

theorem find?_append (env env' : Environment) (n : String) :
    find? (env ++ env') n = (env.find? n).or (env'.find? n) := by
  induction env with
  | nil => rfl
  | cons p env ih =>
    obtain ⟨m, b⟩ := p
    rw [List.cons_append, find?, find?]
    split
    · rfl
    · exact ih

theorem binds_append (env env' : Environment) (n : String) :
    binds (env ++ env') n = (env.binds n || env'.binds n) := by
  rw [binds, find?_append, Option.isSome_or]
  rfl

theorem find?_eq_none (h : env.binds n = false) : env.find? n = none := by
  rw [binds] at h
  exact Option.isNone_iff_eq_none.1 (by rw [← Option.not_isSome, h, Bool.not_false])

theorem binds_singleton : binds [(m, b)] n = true ↔ m = n := by
  unfold binds find?
  split
  · rename_i h
    exact iff_of_true rfl h
  · rename_i h
    exact iff_of_false Bool.false_ne_true h

theorem bind_of_not_binds (h : env.binds n = false) (b : Binding) : env.bind n b = env ++ [(n, b)] := by
  induction env with
  | nil => rfl
  | cons p env ih =>
    obtain ⟨m, c⟩ := p
    rw [binds, find?] at h
    split at h
    · exact absurd h (by simp)
    · rename_i hne
      rw [bind, if_neg hne, ih h, List.cons_append]

/-- Binding the first of the missing names leaves the others. -/
theorem missing_append_singleton {later : List String} (hnodup : names.Nodup) (h : env.missing names = n :: later)
    (b : Binding) : missing (env ++ [(n, b)]) names = later := by
  have hsplit : missing (env ++ [(n, b)]) names = (env.missing names).filter fun m => decide (n ≠ m) := by
    rw [missing, missing, List.filter_filter]
    congr 1
    funext m
    rw [binds_append, Bool.not_or, Bool.and_comm]
    congr 1
    by_cases hm : n = m
    · rw [binds_singleton.2 hm, decide_eq_false (not_not_intro hm)]
      rfl
    · rw [Bool.eq_false_iff.2 (mt binds_singleton.1 hm), decide_eq_true hm]
      rfl
  have hlater : (n :: later).Nodup := h ▸ hnodup.filter _
  rw [hsplit, h, List.filter_cons_of_neg (by simp), List.filter_eq_self]
  intro m hm
  exact decide_eq_true fun hnm => (List.nodup_cons.1 hlater).1 (hnm ▸ hm)

end Environment

namespace Dialogue

open Text

/-! ### One question -/

/-- An answer that is no number. -/
def IsRejected (l : String) : Prop := Complex.ofInput (strip l) = .error (.invalidLiteral (strip l))

theorem isRejected_or_ofInput (l : String) : IsRejected l ∨ ∃ z, Complex.ofInput (strip l) = .ok z := by
  cases h : Complex.ofInput (strip l) with
  | ok z => exact .inr ⟨z, rfl⟩
  | error err =>
    rw [Complex.ofInput_eq_error h] at h
    exact .inl h

/-- What is shown of a rejected answer: the question, and one line that repeats the answer. -/
def rejection (name l : String) : List Event :=
  [promptFor (valueLabel name), .text ("Invalid input: " ++ (EvalError.invalidLiteral (strip l)).message)]

/-- A question for the value of a variable, with all answers up to the first one that is a number. -/
structure Question where
  name : String
  rejected : List String
  answer : String
  value : Complex
  rejected_all : ∀ l ∈ rejected, IsRejected l
  ofInput_answer : Complex.ofInput (strip answer) = .ok value

namespace Question

def lines (q : Question) : List String := q.rejected ++ [q.answer]

def events (q : Question) : List Event := q.rejected.flatMap (rejection q.name) ++ [promptFor (valueLabel q.name)]

def binding (q : Question) : String × Binding := (q.name, .complex q.value)

end Question

variable {env : Environment} {name : String} {names rejected : List String}

theorem readValue_of_rejected (name : String) (h : ∀ l ∈ rejected, IsRejected l) (lines : List String) :
    readValue name (rejected ++ lines) =
      (rejected.flatMap (rejection name) ++ (readValue name lines).1, (readValue name lines).2) := by
  induction rejected with
  | nil => rfl
  | cons l rejected ih =>
    obtain ⟨hl, hrejected⟩ := List.forall_mem_cons.1 h
    have hl : Complex.ofInput (strip l) = .error (.invalidLiteral (strip l)) := hl
    rw [List.cons_append, readValue, hl]
    dsimp only
    rw [ih hrejected]
    rfl

theorem readValue_of_question (q : Question) (lines : List String) :
    readValue q.name (q.lines ++ lines) = (q.events, some (q.value, lines)) := by
  have hanswer : readValue q.name (q.answer :: lines) = ([promptFor (valueLabel q.name)], some (q.value, lines)) := by
    rw [readValue, q.ofInput_answer]
  rw [Question.lines, List.append_assoc, List.singleton_append, readValue_of_rejected _ q.rejected_all, hanswer]
  rfl

theorem readValue_of_all_rejected (h : ∀ l ∈ rejected, IsRejected l) :
    readValue name rejected = (rejected.flatMap (rejection name) ++ [promptFor (valueLabel name)], none) := by
  have hall := readValue_of_rejected name h []
  rwa [List.append_nil] at hall

/-- Lines are read up to the first number. -/
theorem exists_question (name : String) (lines : List String) :
    (∀ l ∈ lines, IsRejected l) ∨ ∃ (q : Question) (rest : List String), q.name = name ∧ lines = q.lines ++ rest := by
  induction lines with
  | nil => exact .inl fun l hl => absurd hl List.not_mem_nil
  | cons l lines ih =>
    rcases isRejected_or_ofInput l with hl | ⟨z, hz⟩
    · rcases ih with hlines | ⟨q, rest, rfl, rfl⟩
      · exact .inl (List.forall_mem_cons.2 ⟨hl, hlines⟩)
      · exact .inr ⟨{ q with
          rejected := l :: q.rejected
          rejected_all := List.forall_mem_cons.2 ⟨hl, q.rejected_all⟩ }, rest, rfl, rfl⟩
    · exact .inr ⟨⟨name, [], l, z, fun l hl => absurd hl List.not_mem_nil, hz⟩, lines, rfl, rfl⟩

/-! ### All questions -/

theorem complete_of_binds (h : env.missing names = []) (lines : List String) :
    complete env names lines = ([], some (env, lines)) := by
  induction names with
  | nil => rfl
  | cons n names ih =>
    rw [Environment.missing, List.filter_eq_nil_iff, List.forall_mem_cons] at h
    obtain ⟨hn, hnames⟩ := h
    rw [complete, if_pos (by simpa using hn)]
    exact ih (List.filter_eq_nil_iff.2 hnames)

/-- With an answer to the first question, the others are put as if the name had been bound before. -/
theorem complete_of_question {later : List String} (q : Question) (h : env.missing names = q.name :: later)
    (lines : List String) : complete env names (q.lines ++ lines) =
      (q.events ++ (complete (env ++ [q.binding]) names lines).1, (complete (env ++ [q.binding]) names lines).2) := by
  induction names with
  | nil => exact absurd h (by simp [Environment.missing])
  | cons n names ih =>
    have hnext : Environment.binds (env ++ [q.binding]) n = (env.binds n || Environment.binds [q.binding] n) :=
      Environment.binds_append env [q.binding] n
    by_cases hn : env.binds n = true
    · rw [Environment.missing, List.filter_cons_of_neg (by simpa using hn)] at h
      rw [hn, Bool.true_or] at hnext
      rw [complete, if_pos hn, complete, if_pos hnext]
      exact ih h
    · have hn : env.binds n = false := Bool.eq_false_iff.2 hn
      rw [Environment.missing, List.filter_cons_of_pos (by simpa using hn)] at h
      obtain ⟨rfl, -⟩ := List.cons.inj h
      have hbinds : Environment.binds [q.binding] q.name = true := Environment.binds_singleton.2 rfl
      rw [hbinds, Bool.or_true] at hnext
      rw [complete, if_neg (Bool.eq_false_iff.1 hn), complete, if_pos hnext, readValue_of_question]
      dsimp only
      rw [Environment.bind_of_not_binds hn]
      rfl

/-- Without an answer to the first question nothing is left of the lines. -/
theorem complete_of_all_rejected {later : List String} (h : env.missing names = name :: later)
    (hrejected : ∀ l ∈ rejected, IsRejected l) : complete env names rejected =
      (rejected.flatMap (rejection name) ++ [promptFor (valueLabel name)], none) := by
  induction names with
  | nil => exact absurd h (by simp [Environment.missing])
  | cons n names ih =>
    by_cases hn : env.binds n = true
    · rw [Environment.missing, List.filter_cons_of_neg (by simpa using hn)] at h
      rw [complete, if_pos hn]
      exact ih h
    · rw [Environment.missing, List.filter_cons_of_pos (by simpa using hn)] at h
      obtain ⟨rfl, -⟩ := List.cons.inj h
      rw [complete, if_neg hn, readValue_of_all_rejected hrejected]

variable {qs : List Question} {rest : List String}

/-- The questions at the front are answered one after the other. -/
theorem complete_append {later : List String} (hnames : names.Nodup)
    (h : env.missing names = qs.map Question.name ++ later) (lines : List String) :
    Environment.missing (env ++ qs.map Question.binding) names = later ∧
    complete env names (qs.flatMap Question.lines ++ lines) =
      (qs.flatMap Question.events ++ (complete (env ++ qs.map Question.binding) names lines).1,
        (complete (env ++ qs.map Question.binding) names lines).2) := by
  induction qs generalizing env with
  | nil =>
    rw [List.map_nil, List.append_nil]
    exact ⟨h, rfl⟩
  | cons q qs ih =>
    have hbound : Environment.missing (env ++ [q.binding]) names = qs.map Question.name ++ later :=
      Environment.missing_append_singleton hnames h _
    have hbindings : env ++ [q.binding] ++ qs.map Question.binding = env ++ (q :: qs).map Question.binding := by
      rw [List.append_assoc, List.map_cons, List.singleton_append]
    obtain ⟨hmissing, hcomplete⟩ := ih hbound
    rw [hbindings] at hmissing hcomplete
    refine ⟨hmissing, ?_⟩
    rw [List.flatMap_cons, List.flatMap_cons, List.append_assoc, complete_of_question q h, hcomplete,
      List.append_assoc]

/-- Every name without a value gets the number that answers its question, and the lines behind the answers are left. -/
theorem complete_of_questions (hnames : names.Nodup) (h : qs.map Question.name = env.missing names) :
    complete env names (qs.flatMap Question.lines ++ rest) =
      (qs.flatMap Question.events, some (env ++ qs.map Question.binding, rest)) := by
  obtain ⟨hmissing, hcomplete⟩ := complete_append hnames (h.symm.trans (List.append_nil _).symm) rest
  rw [hcomplete, complete_of_binds hmissing, List.append_nil]

/-- The first question without an answer takes the lines that are left. -/
theorem complete_of_lack {later : List String} (hnames : names.Nodup)
    (h : env.missing names = qs.map Question.name ++ name :: later) (hrejected : ∀ l ∈ rejected, IsRejected l) :
    complete env names (qs.flatMap Question.lines ++ rejected) =
      (qs.flatMap Question.events ++ (rejected.flatMap (rejection name) ++ [promptFor (valueLabel name)]), none) := by
  obtain ⟨hmissing, hcomplete⟩ := complete_append hnames h rejected
  rw [hcomplete, complete_of_all_rejected hmissing hrejected]

/-- Lines answer the questions for the names, or all but the first few of them. -/
theorem exists_questions (names lines : List String) :
    (∃ (qs : List Question) (rest : List String), qs.map Question.name = names ∧
      lines = qs.flatMap Question.lines ++ rest) ∨
    ∃ (qs : List Question) (name : String) (later rejected : List String),
      names = qs.map Question.name ++ name :: later ∧ lines = qs.flatMap Question.lines ++ rejected ∧
      ∀ l ∈ rejected, IsRejected l := by
  induction names generalizing lines with
  | nil => exact .inl ⟨[], lines, rfl, rfl⟩
  | cons n names ih =>
    rcases exists_question n lines with hrejected | ⟨q, rest, rfl, rfl⟩
    · exact .inr ⟨[], n, names, lines, rfl, rfl, hrejected⟩
    rcases ih rest with ⟨qs, rest, rfl, rfl⟩ | ⟨qs, n, later, rejected, rfl, rfl, hrejected⟩
    · exact .inl ⟨q :: qs, rest, rfl, by rw [List.flatMap_cons, List.append_assoc]⟩
    · exact .inr ⟨q :: qs, n, later, rejected, rfl, by rw [List.flatMap_cons, List.append_assoc], hrejected⟩

/-! ### The environment with the answers -/

/-- The environment `env'` has the bindings of `env` and the answers to the questions, and no others. -/
structure Completes (env : Environment) (qs : List Question) (env' : Environment) : Prop where
  keeps : ∀ n, env.binds n = true → env'.find? n = env.find? n
  answers : ∀ q ∈ qs, env'.find? q.name = some (.complex q.value)
  nothingElse : ∀ n, env.binds n = false → n ∉ qs.map Question.name → env'.find? n = none

theorem find?_map_binding (n : String) :
    (n ∉ qs.map Question.name → Environment.find? (qs.map Question.binding) n = none) ∧
    ∀ q ∈ qs, (qs.map Question.name).Nodup →
      Environment.find? (qs.map Question.binding) q.name = some (.complex q.value) := by
  induction qs with
  | nil => exact ⟨fun _ => rfl, fun q hq => absurd hq List.not_mem_nil⟩
  | cons q qs ih =>
    obtain ⟨hnone, hsome⟩ := ih
    rw [List.map_cons, List.map_cons, Question.binding]
    refine ⟨fun hn => ?_, fun p hp hnodup => ?_⟩
    · rw [List.mem_cons, not_or] at hn
      rw [Environment.find?, if_neg (Ne.symm hn.1)]
      exact hnone hn.2
    · obtain ⟨hq, hqs⟩ := List.nodup_cons.1 hnodup
      rw [Environment.find?]
      rcases List.mem_cons.1 hp with rfl | hp
      · rw [if_pos rfl]
      · have hne : q.name ≠ p.name := fun hname => hq (hname ▸ List.mem_map_of_mem hp)
        rw [if_neg hne]
        exact hsome p hp hqs

theorem completes_of_missing (hnames : names.Nodup) (h : qs.map Question.name = env.missing names) :
    Completes env qs (env ++ qs.map Question.binding) := by
  have hnodup : (qs.map Question.name).Nodup := h ▸ hnames.filter _
  refine ⟨fun n hn => ?_, fun q hq => ?_, fun n hn hqs => ?_⟩
  · obtain ⟨b, hb⟩ := Option.isSome_iff_exists.1 hn
    rw [Environment.find?_append, hb]
    rfl
  · have hq' : q.name ∈ env.missing names := h ▸ List.mem_map_of_mem hq
    rw [Environment.find?_append, Environment.find?_eq_none (Environment.mem_missing.1 hq').2, Option.none_or]
    exact (find?_map_binding q.name).2 q hq hnodup
  · rw [Environment.find?_append, Environment.find?_eq_none hn, Option.none_or]
    exact (find?_map_binding n).1 hqs

theorem Completes.binds {env' : Environment} (h : Completes env qs env')
    (hqs : qs.map Question.name = env.missing names) : ∀ n ∈ names, env'.binds n = true := by
  intro n hn
  rw [Environment.binds]
  by_cases hbinds : env.binds n = true
  · rw [h.keeps n hbinds]
    exact hbinds
  · have hmem : n ∈ qs.map Question.name := hqs ▸ Environment.mem_missing.2 ⟨hn, Bool.eq_false_iff.2 hbinds⟩
    obtain ⟨q, hq, rfl⟩ := List.mem_map.1 hmem
    rw [h.answers q hq]
    rfl

/-- One line is read for each name and one for each rejected answer. -/
theorem length_flatMap_lines (qs : List Question) :
    (qs.flatMap Question.lines).length = qs.length + (qs.flatMap Question.rejected).length := by
  induction qs with
  | nil => rfl
  | cons q qs ih =>
    rw [List.flatMap_cons, List.flatMap_cons, List.length_append, List.length_append, List.length_cons, ih,
      Question.lines, List.length_append, List.length_singleton]
    omega

end Dialogue

end Phasor
