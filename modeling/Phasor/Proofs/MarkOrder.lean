import Mathlib.Data.List.Chain
import Phasor.Proofs.Steps

/-!
# The order of the marks that wait

Between two tokens the marks lie on each other in one order only (`LiesOn`): right above a function lies a parenthesis,
and an operator right above another one binds tighter. A function is on top only if its parenthesis is the token that
follows (`Ordered`). Every step keeps that order, whatever the tokens are (`Step.ordered`), so no function is among the
marks above the last parenthesis, which are those that a comma, a closing parenthesis and the end of the tokens move
(`Ordered.fn_not_mem_untilParen`).
-/

namespace Phasor.Postfix

variable {s s' : State} {t u symbol : String} {ts us : List String} {next next' : Option String}
  {above below marks : List Mark} {m : Mark} {o w : Operator}

/-! ### Runs that stop between two tokens -/

/-- The state behind the tokens, `next` being the token that follows them. -/
def runBefore (next : Option String) (s : State) : List String → Except ParseError State
  | [] => .ok s
  | t :: ts =>
    match step s t (ts.head?.or next) with
    | .error e => .error e
    | .ok s => runBefore next s ts

theorem runBefore_cons_eq_ok_iff : runBefore next s (t :: ts) = .ok s' ↔
    ∃ s₁, Step (ts.head?.or next) s t s₁ ∧ runBefore next s₁ ts = .ok s' := by
  constructor
  · intro h
    rw [runBefore] at h
    split at h
    · exact absurd h (by simp)
    · rename_i s₁ hs
      exact ⟨s₁, step_eq_ok_iff.1 hs, h⟩
  · rintro ⟨s₁, hs, h⟩
    rw [runBefore, hs.step_eq]
    exact h

/-- The run over all the tokens passes through that state. -/
theorem run_append (s : State) (ts us : List String) : run s (ts ++ us) =
    match runBefore us.head? s ts with
    | .error e => .error e
    | .ok s => run s us := by
  induction ts generalizing s with
  | nil => rfl
  | cons t ts ih =>
    rw [List.cons_append, run, runBefore, List.head?_append]
    cases step s t (ts.head?.or us.head?) with
    | error e => rfl
    | ok s₁ => exact ih s₁

theorem runBefore_append_eq_ok_iff : runBefore next s (ts ++ [t]) = .ok s' ↔
    ∃ s₁, runBefore (some t) s ts = .ok s₁ ∧ Step next s₁ t s' := by
  induction ts generalizing s with
  | nil =>
    rw [List.nil_append, runBefore_cons_eq_ok_iff]
    constructor
    · rintro ⟨s₁, hstep, hrun⟩
      obtain rfl := Except.ok.inj hrun
      exact ⟨s, rfl, hstep⟩
    · rintro ⟨s₁, hrun, hstep⟩
      obtain rfl := Except.ok.inj hrun
      exact ⟨s', hstep, rfl⟩
  | cons u ts ih =>
    have hnext : (ts ++ [t]).head?.or next = ts.head?.or (some t) := by
      rw [List.head?_append, Option.or_assoc]
      rfl
    rw [List.cons_append, runBefore_cons_eq_ok_iff, hnext]
    simp only [ih, runBefore_cons_eq_ok_iff]
    constructor
    · rintro ⟨s₁, hu, s₂, hrun, ht⟩
      exact ⟨s₂, ⟨s₁, hu, hrun⟩, ht⟩
    · rintro ⟨s₂, ⟨s₁, hu, hrun⟩, ht⟩
      exact ⟨s₁, hu, s₂, hrun, ht⟩

/-! ### The order -/

/-- The upper operator binds tighter, or as tight as the lower one and both group from the right. -/
def Tighter (upper lower : String) : Prop :=
  ∃ o w, Operator.ofSymbol? upper = some o ∧ Operator.ofSymbol? lower = some w ∧
    (w.precedence < o.precedence ∨
      o.precedence = w.precedence ∧ o.rightAssociative = true ∧ w.rightAssociative = true)

/-- The first mark may lie right above the second one. -/
def LiesOn : Mark → Mark → Prop
  | m, .fn _ => m = .paren
  | .op upper, .op lower => Tighter upper lower
  | _, _ => True

/-- The stack between two tokens, the second of which is `next`: which functions are on top, which marks lie on each other,
and that the operators are in the table. -/
structure Ordered (next : Option String) (marks : List Mark) : Prop where
  top : ∀ n, marks.head? = some (.fn n) → next = some "("
  adjacent : marks.IsChain LiesOn
  known : ∀ symbol, .op symbol ∈ marks → ∃ o, Operator.ofSymbol? symbol = some o

theorem rightAssociative_eq (h : Operator.ofSymbol? symbol = some o) :
    o.rightAssociative = decide (5 ≤ o.precedence) := by
  unfold Operator.ofSymbol? at h
  split at h <;> cases h <;> rfl

/-- An operator lies on those that it does not yield to. -/
theorem tighter_of_yieldsTo (ho : Operator.ofSymbol? t = some o) (hw : Operator.ofSymbol? u = some w)
    (h : o.yieldsTo w = false) : Tighter t u := by
  refine ⟨o, w, ho, hw, ?_⟩
  have hright := rightAssociative_eq ho
  have hright' := rightAssociative_eq hw
  unfold Operator.yieldsTo at h
  split at h
  · rename_i hassoc
    have hle : w.precedence ≤ o.precedence := Nat.le_of_not_lt (of_decide_eq_false h)
    rcases Nat.lt_or_eq_of_le hle with hlt | heq
    · exact .inl hlt
    · rw [heq, ← hright, hassoc] at hright'
      exact .inr ⟨heq.symm, hassoc, hright'⟩
  · exact .inl (Nat.lt_of_not_le (of_decide_eq_false h))

theorem tighter_of_waits (ho : Operator.ofSymbol? t = some o) (hu : ∃ w, Operator.ofSymbol? u = some w)
    (h : waits o (.op u) = false) : Tighter t u := by
  obtain ⟨w, hw⟩ := hu
  have hyields : (Operator.ofSymbol? u).any o.yieldsTo = false := h
  rw [hw] at hyields
  exact tighter_of_yieldsTo ho hw hyields

theorem not_waits_of_head? (h : (marks.dropWhile (waits o)).head? = some m) : waits o m = false := by
  have hhead := List.head?_dropWhile_not (waits o) marks
  rw [h] at hhead
  simpa using hhead

theorem liesOn_paren (m : Mark) : LiesOn .paren m := by
  cases m with
  | paren => trivial
  | op symbol => trivial
  | fn n => rfl

namespace Ordered

theorem nil : Ordered next [] :=
  ⟨fun n h => absurd h (by simp), .nil, fun symbol h => absurd h (by simp)⟩

/-- Behind a token that opens no parenthesis any token may follow. -/
theorem settled (h : Ordered (some t) marks) (ht : t ≠ "(") : Ordered next marks :=
  ⟨fun n hn => absurd (Option.some.inj (h.top n hn)) ht, h.adjacent, h.known⟩

theorem head?_ne (h : Ordered (some t) marks) (ht : t ≠ "(") (n : String) : marks.head? ≠ some (.fn n) :=
  fun hn => ht (Option.some.inj (h.top n hn))

/-- What is left of the stack if no function comes to the top. -/
theorem suffix (h : Ordered next (above ++ marks)) (hm : ∀ n, marks.head? ≠ some (.fn n)) : Ordered next' marks :=
  ⟨fun n hn => absurd hn (hm n), h.adjacent.suffix (List.suffix_append above marks),
    fun symbol hs => h.known symbol (List.mem_append_right above hs)⟩

theorem push (h : Ordered next marks) (hm : ∀ m' ∈ marks.head?, LiesOn m m') (hfn : ∀ n, m = .fn n → next' = some "(")
    (hop : ∀ symbol, m = .op symbol → ∃ o, Operator.ofSymbol? symbol = some o) : Ordered next' (m :: marks) := by
  refine ⟨fun n hn => hfn n (Option.some.inj hn), List.isChain_cons.2 ⟨hm, h.adjacent⟩, fun symbol hs => ?_⟩
  rcases List.mem_cons.1 hs with hs | hs
  · exact hop symbol hs.symm
  · exact h.known symbol hs

/-- A function is on top in front of its parenthesis, or right below one. -/
theorem fn_cases {n : String} (h : Ordered next (above ++ .fn n :: below)) :
    above = [] ∧ next = some "(" ∨ ∃ rest, above = rest ++ [.paren] := by
  rcases List.eq_nil_or_concat above with rfl | ⟨rest, m, rfl⟩
  · exact .inl ⟨rfl, h.top n rfl⟩
  · have hchain := h.adjacent
    rw [List.concat_eq_append, List.append_assoc, List.singleton_append] at hchain
    have hm : m = .paren := List.isChain_iff_forall_rel_of_append_cons_cons.1 hchain rfl
    exact .inr ⟨rest, by rw [hm, List.concat_eq_append]⟩

/-- Below the function of a call lies no other one. -/
theorem head?_ne_of_call {n : String} (h : Ordered next (above ++ .paren :: .fn n :: marks)) (n' : String) :
    marks.head? ≠ some (.fn n') := by
  intro hn'
  obtain ⟨below, rfl⟩ := List.head?_eq_some_iff.1 hn'
  rw [List.append_cons, List.append_cons] at h
  rcases h.fn_cases with ⟨hnil, -⟩ | ⟨rest, hrest⟩
  · exact absurd hnil (by simp)
  · obtain ⟨-, hmark⟩ := List.append_inj' hrest rfl
    exact absurd (List.singleton_inj.1 hmark) (by simp)

theorem fn_not_mem (h : Ordered next (above ++ below)) (hnext : next ≠ some "(") (habove : .paren ∉ above)
    (n : String) : .fn n ∉ above := by
  intro hn
  obtain ⟨before, after, rfl⟩ := List.append_of_mem hn
  rw [List.append_assoc, List.cons_append] at h
  rcases h.fn_cases with ⟨-, hopening⟩ | ⟨rest, rfl⟩
  · exact hnext hopening
  · exact habove (by simp)

/-- No function is above the last parenthesis. -/
theorem fn_not_mem_untilParen (h : Ordered next marks) (hnext : next ≠ some "(") (n : String) :
    .fn n ∉ (untilParen marks).1 := by
  have hparen : .paren ∉ marks.takeWhile (· != .paren) := fun hm => absurd (List.mem_takeWhile_imp hm) (by simp)
  rw [← List.takeWhile_append_dropWhile (p := (· != .paren)) (l := marks)] at h
  exact h.fn_not_mem hnext hparen n

/-- The marks that an operator moves lie on no function. -/
theorem head?_dropWhile_ne (h : Ordered (some t) marks) (ht : t ≠ "(") (o : Operator) (n : String) :
    (marks.dropWhile (waits o)).head? ≠ some (.fn n) := by
  intro hn
  obtain ⟨below, hbelow⟩ := List.head?_eq_some_iff.1 hn
  rw [← List.takeWhile_append_dropWhile (p := waits o) (l := marks), hbelow] at h
  rcases h.fn_cases with ⟨-, hopening⟩ | ⟨rest, hrest⟩
  · exact ht (Option.some.inj hopening)
  · exact paren_not_mem_takeWhile o marks (by simp [hrest])

theorem pushOperator (h : Ordered (some t) s.marks) (ht : t ≠ "(") (ho : Operator.ofSymbol? symbol = some o) :
    Ordered next (pushOperator s symbol o).marks := by
  have hfn := h.head?_dropWhile_ne ht o
  rw [← List.takeWhile_append_dropWhile (p := waits o) (l := s.marks)] at h
  have hrest : Ordered next (s.marks.dropWhile (waits o)) := h.suffix hfn
  refine hrest.push (fun m hm => ?_) (fun n hn => absurd hn (by simp)) fun symbol' hop => ?_
  · cases m with
    | paren => trivial
    | fn n => exact absurd hm (hfn n)
    | op u => exact tighter_of_waits ho (hrest.known u (List.mem_of_mem_head? hm)) (not_waits_of_head? hm)
  · obtain rfl := Mark.op.inj hop
    exact ⟨o, ho⟩

end Ordered

/-! ### Steps and runs -/

/-- One step keeps the order. -/
theorem Step.ordered (h : Step next s t s') (hs : Ordered (some t) s.marks) : Ordered next s'.marks := by
  cases h with
  | number h => exact hs.settled (Token.ne_separator (.inl h) (.inl rfl))
  | function h hn =>
    have htop := hs.head?_ne (Token.ne_separator (.inr (.inl h)) (.inl rfl))
    refine hs.push (fun m hm => ?_) (fun n _ => hn) fun symbol hop => absurd hop (by simp)
    cases m with
    | paren => trivial
    | op symbol => trivial
    | fn n => exact absurd hm (htop n)
  | name h hn => exact hs.settled (Token.ne_separator (.inr (.inl h)) (.inl rfl))
  | comma h => exact hs.suffix fun n hn => absurd hn (by simp)
  | opening =>
    exact hs.push (fun m _ => liesOn_paren m) (fun n hn => absurd hn (by simp)) fun symbol hop => absurd hop (by simp)
  | @closing out popped marks b h hm =>
    rw [List.append_cons] at hs
    exact hs.suffix hm
  | @closingCall out popped marks b n h =>
    have hm := hs.head?_ne_of_call
    rw [List.append_cons, List.append_cons] at hs
    exact hs.suffix hm
  | negation h =>
    rw [← pushOperator_negation]
    exact hs.pushOperator (by decide) rfl
  | operator h ho hb => exact hs.pushOperator (Token.ne_separator (.inr (.inr h)) (.inl rfl)) ho

/-- A run that begins with an ordered stack keeps the order. -/
theorem ordered_of_runBefore (h : runBefore next s ts = .ok s') (hs : Ordered (ts.head?.or next) s.marks) :
    Ordered next s'.marks := by
  induction ts generalizing s with
  | nil =>
    obtain rfl := Except.ok.inj h
    exact hs
  | cons t ts ih =>
    obtain ⟨s₁, hstep, hrun⟩ := runBefore_cons_eq_ok_iff.1 h
    exact ih hrun (hstep.ordered hs)

end Phasor.Postfix
