import Mathlib.Data.List.Induction
import Mathlib.Data.List.Infix
import Phasor.Proofs.Depth
import Phasor.Proofs.MarkOrder

/-!
# Functions wait for their own parenthesis

A mark of a parenthesis on the stack has been there since its token (`Step.opened`), and the marks above it are those of
the tokens behind that token (`exists_opening`). As the parentheses of a list of tokens match in one way only
(`Balanced.unique`), the function below a parenthesis is the one whose name stands in front of it. So a function leaves
the stack with the closing parenthesis of its own call, which finds the stack as it was in front of the name, and with no
other token (`functions_wait_for_their_parenthesis`).
-/

namespace Phasor.Postfix

variable {s s' : State} {t n : String} {ts us before outer inside outer' inside' : List String} {next : Option String}
  {above below popped marks : List Mark} {m : Mark}

/-! ### Parentheses that match -/

theorem depth_append (ts us : List String) : depth (ts ++ us) = depth ts + depth us := by
  simp only [depth, List.count_append]
  omega

/-- As many parentheses are closed as are opened, and none is closed that has not been opened. -/
structure Balanced (ts : List String) : Prop where
  nonneg : ∀ p, p <+: ts → 0 ≤ depth p
  depth_eq : depth ts = 0

instance (ts : List String) : Decidable (Balanced ts) :=
  decidable_of_iff ((∀ p ∈ ts.inits, 0 ≤ depth p) ∧ depth ts = 0)
    ⟨fun ⟨hnonneg, hdepth⟩ => ⟨fun p hp => hnonneg p ((List.mem_inits p ts).2 hp), hdepth⟩,
      fun h => ⟨fun p hp => h.nonneg p ((List.mem_inits p ts).1 hp), h.depth_eq⟩⟩

/-- Between a parenthesis that is open and a balanced list no other parenthesis is open. -/
theorem Balanced.eq_nil (h : Balanced inside) (h' : Balanced inside') (heq : "(" :: inside = ts ++ "(" :: inside') :
    ts = [] := by
  cases ts with
  | nil => rfl
  | cons t ts =>
    rw [List.cons_append] at heq
    obtain ⟨-, rfl⟩ := List.cons.inj heq
    have hts := h.nonneg ts (List.prefix_append ts _)
    have hdepth := h.depth_eq
    rw [depth_append, depth_cons "(", h'.depth_eq, show depth ["("] = 1 from rfl] at hdepth
    omega

/-- The last parenthesis that is open has one place. -/
theorem Balanced.unique (h : Balanced inside) (h' : Balanced inside')
    (heq : outer ++ "(" :: inside = outer' ++ "(" :: inside') : outer = outer' ∧ inside = inside' := by
  have houter : outer = outer' := by
    rcases List.append_eq_append_iff.1 heq with ⟨ts, rfl, hts⟩ | ⟨ts, rfl, hts⟩
    · rw [h.eq_nil h' hts, List.append_nil]
    · rw [h'.eq_nil h hts, List.append_nil]
  subst houter
  exact ⟨rfl, (List.cons.inj (List.append_cancel_left heq)).2⟩

/-- The last parenthesis that is open behind `before` is that of a call of `n`, whose name stands behind `outer`. -/
def InsideCall (outer : List String) (n : String) (before : List String) : Prop :=
  Token.isIdentifier n = true ∧ ∃ inside, Balanced inside ∧ before = outer ++ n :: "(" :: inside

/-! ### Where a mark has come from -/

theorem suffix_of_suffix_cons (hm : m ≠ .paren) (h : .paren :: below <:+ m :: marks) : .paren :: below <:+ marks := by
  rcases List.suffix_cons_iff.1 h with heq | h
  · exact absurd (List.cons.inj heq).1.symm hm
  · exact h

/-- The parenthesis is the token, or it has been on the stack already. -/
theorem Step.opened (h : Step next s t s') (hs : .paren :: below <:+ s'.marks) :
    t = "(" ∧ s.marks = below ∨ .paren :: below <:+ s.marks := by
  cases h with
  | number h => exact .inr hs
  | function h hn => exact .inr (suffix_of_suffix_cons (by simp) hs)
  | name h hn => exact .inr hs
  | @comma out popped marks b h => exact .inr (hs.trans (List.suffix_append popped _))
  | opening =>
    rcases List.suffix_cons_iff.1 hs with heq | hs
    · exact .inl ⟨rfl, (List.cons.inj heq).2.symm⟩
    · exact .inr hs
  | @closing out popped marks b h hm =>
    exact .inr (hs.trans ((List.suffix_cons _ marks).trans (List.suffix_append popped _)))
  | @closingCall out popped marks b n h =>
    have hmarks : marks <:+ .paren :: .fn n :: marks := (List.suffix_cons _ marks).trans (List.suffix_cons _ _)
    exact .inr (hs.trans (hmarks.trans (List.suffix_append popped _)))
  | negation h => exact .inr (suffix_of_suffix_cons (by simp) hs)
  | @operator s t o h ho hb =>
    have hrest : .paren :: below <:+ s.marks.dropWhile (waits o) := suffix_of_suffix_cons (by simp) hs
    exact .inr (hrest.trans (List.dropWhile_suffix _))

theorem depth_of_marks (h : s.marks = above ++ .paren :: below) :
    s.depth = above.count .paren + 1 + below.count .paren := by
  rw [State.depth, h, List.count_append, List.count_cons_self]
  omega

/-- A parenthesis on the stack lies on the marks that were there in front of its token, and those of the parentheses that
are open behind it lie above. -/
theorem exists_opening (h : runBefore next start before = .ok s) (hs : s.marks = above ++ .paren :: below) :
    ∃ outer inside s₀, before = outer ++ "(" :: inside ∧ runBefore (some "(") start outer = .ok s₀ ∧
      s₀.marks = below ∧ (∀ p, p <+: inside → 0 ≤ depth p) ∧ depth inside = above.count .paren := by
  -- By the last token, and for every parenthesis on the stack: a closing one uncovers another that was opened far before.
  induction before using List.reverseRecOn generalizing next s above with
  | nil =>
    obtain rfl := Except.ok.inj h
    exact absurd hs.symm (by simp [start])
  | append_singleton before t ih =>
    obtain ⟨s₁, hrun, hstep⟩ := runBefore_append_eq_ok_iff.1 h
    have hdepth := hstep.depth_eq
    rw [depth_of_marks hs] at hdepth
    rcases hstep.opened ⟨above, hs.symm⟩ with ⟨rfl, hbelow⟩ | ⟨above₁, hs₁⟩
    · have hnone : depth [] = above.count .paren := by
        rw [State.depth, hbelow, show depth ["("] = 1 from rfl] at hdepth
        show (0 : Int) = _
        omega
      refine ⟨before, [], s₁, rfl, hrun, hbelow, fun p hp => ?_, hnone⟩
      rw [List.prefix_nil.1 hp]
      exact Int.le_refl _
    · obtain ⟨outer, inside, s₀, rfl, hopening, hmarks, hnonneg, hinside⟩ := ih hrun hs₁.symm
      have hcount : depth (inside ++ [t]) = above.count .paren := by
        rw [depth_of_marks hs₁.symm] at hdepth
        rw [depth_append, hinside]
        omega
      refine ⟨outer, inside ++ [t], s₀, by simp, hopening, hmarks, fun p hp => ?_, hcount⟩
      rcases List.prefix_concat_iff.1 hp with rfl | hp
      · rw [hcount]
        exact Int.natCast_nonneg _
      · exact hnonneg p hp

/-- The last parenthesis on the stack is the last one that is open. -/
theorem exists_last_opening (h : runBefore next start before = .ok s) (hs : s.marks = popped ++ .paren :: below)
    (hpopped : .paren ∉ popped) : ∃ outer inside s₀, before = outer ++ "(" :: inside ∧ Balanced inside ∧
      runBefore (some "(") start outer = .ok s₀ ∧ s₀.marks = below := by
  obtain ⟨outer, inside, s₀, hbefore, hopening, hmarks, hnonneg, hdepth⟩ := exists_opening h hs
  rw [List.count_eq_zero_of_not_mem hpopped] at hdepth
  exact ⟨outer, inside, s₀, hbefore, ⟨hnonneg, hdepth⟩, hopening, hmarks⟩

/-- A function comes to the top with its own name only. -/
theorem Step.name_of_fn (h : Step next s t s') (hs : Ordered (some t) s.marks) (hn : s'.marks.head? = some (.fn n)) :
    Token.isIdentifier t = true ∧ t = n := by
  cases h with
  | number h => exact absurd hn (hs.head?_ne (Token.ne_separator (.inl h) (.inl rfl)) n)
  | function h _ => exact ⟨h, Mark.fn.inj (Option.some.inj hn)⟩
  | name h _ => exact absurd hn (hs.head?_ne (Token.ne_separator (.inr (.inl h)) (.inl rfl)) n)
  | comma h => exact absurd hn (by simp)
  | opening => exact absurd hn (by simp)
  | closing h hm => exact absurd hn (hm n)
  | closingCall h => exact absurd hn (hs.head?_ne_of_call n)
  | negation h => exact absurd hn (by simp)
  | operator h ho hb => exact absurd hn (by simp [pushOperator])

theorem Step.marks_of_isIdentifier (h : Step (some "(") s t s') (ht : Token.isIdentifier t = true) :
    s'.marks = .fn t :: s.marks := by
  have hstep := h.step_eq
  rw [step_of_isIdentifier ht, if_pos rfl] at hstep
  rw [← Except.ok.inj hstep]

theorem ordered_of_run_start (h : runBefore next start ts = .ok s) : Ordered next s.marks :=
  ordered_of_runBefore h .nil

/-- Below the last parenthesis lies the function in front of it. -/
theorem insideCall_of_marks (h : runBefore next start before = .ok s)
    (hs : s.marks = popped ++ .paren :: .fn n :: below) (hpopped : .paren ∉ popped) :
    ∃ outer, InsideCall outer n before := by
  obtain ⟨outer, inside, s₁, rfl, hinside, hrun, hmarks⟩ := exists_last_opening h hs hpopped
  rcases List.eq_nil_or_concat outer with rfl | ⟨outer, t, rfl⟩
  · obtain rfl := Except.ok.inj hrun
    exact absurd hmarks (by simp [start])
  · rw [List.concat_eq_append] at hrun ⊢
    obtain ⟨s₀, hrun₀, hstep⟩ := runBefore_append_eq_ok_iff.1 hrun
    obtain ⟨ht, rfl⟩ := hstep.name_of_fn (ordered_of_run_start hrun₀) (by rw [hmarks]; rfl)
    exact ⟨outer, ht, inside, hinside, by simp⟩

/-- The function lies on the marks that were there in front of its name. -/
theorem marks_of_insideCall (h : runBefore next start before = .ok s) (hparen : .paren ∈ s.marks)
    (hcall : InsideCall outer n before) : ∃ s₀ popped, runBefore (some n) start outer = .ok s₀ ∧ .paren ∉ popped ∧
      s.marks = popped ++ .paren :: .fn n :: s₀.marks := by
  obtain ⟨hn, inside, hinside, hbefore⟩ := hcall
  obtain ⟨popped, below, hmarks, hpopped⟩ := List.eq_append_cons_of_mem hparen
  obtain ⟨outer', inside', s₁, hbefore', hinside', hrun, hbelow⟩ := exists_last_opening h hmarks hpopped
  rw [hbefore, List.append_cons] at hbefore'
  obtain ⟨rfl, -⟩ := hinside.unique hinside' hbefore'
  obtain ⟨s₀, hrun₀, hstep⟩ := runBefore_append_eq_ok_iff.1 hrun
  refine ⟨s₀, popped, hrun₀, hpopped, ?_⟩
  rw [hmarks, ← hbelow, hstep.marks_of_isIdentifier hn]

/-! ### What a step moves -/

theorem filterMap_callee?_mark (h : ∀ n, .fn n ∉ marks) : (marks.map Item.mark).filterMap Item.callee? = [] := by
  refine List.filterMap_eq_nil_iff.2 fun i hi => ?_
  obtain ⟨m, hm, rfl⟩ := List.mem_map.1 hi
  cases m with
  | paren => rfl
  | op symbol => rfl
  | fn n => exact absurd hm (h n)

theorem filterMap_callee?_call (h : ∀ n, .fn n ∉ popped) :
    (popped.map Item.mark ++ [Item.mark (.fn n)]).filterMap Item.callee? = [n] := by
  rw [List.filterMap_append, filterMap_callee?_mark h]
  rfl

/-- A step moves no function, or it closes the parenthesis above the one that it moves. -/
theorem Step.exists_moved (h : Step next s t s') (hs : Ordered (some t) s.marks) :
    ∃ moved, s'.output = s.output ++ moved ∧ (moved.filterMap Item.callee? = [] ∨
      t = ")" ∧ ∃ popped n, .paren ∉ popped ∧ s.marks = popped ++ .paren :: .fn n :: s'.marks ∧
        moved.filterMap Item.callee? = [n]) := by
  cases h with
  | @number s t h => exact ⟨[.lit t], rfl, .inl rfl⟩
  | function h hn => exact ⟨[], (List.append_nil _).symm, .inl rfl⟩
  | @name s t h hn => exact ⟨[.var t], rfl, .inl rfl⟩
  | @comma out popped marks b h =>
    exact ⟨popped.map .mark, rfl, .inl (filterMap_callee?_mark (hs.fn_not_mem (by simp) h))⟩
  | opening => exact ⟨[], (List.append_nil _).symm, .inl rfl⟩
  | @closing out popped marks b h hm =>
    exact ⟨popped.map .mark, rfl, .inl (filterMap_callee?_mark (hs.fn_not_mem (by simp) h))⟩
  | @closingCall out popped marks b n h =>
    exact ⟨popped.map .mark ++ [.mark (.fn n)], List.append_assoc .., .inr ⟨rfl, popped, n, h, rfl,
      filterMap_callee?_call (hs.fn_not_mem (by simp) h)⟩⟩
  | negation h => exact ⟨[], (List.append_nil _).symm, .inl rfl⟩
  | @operator s t o h ho hb =>
    exact ⟨(s.marks.takeWhile (waits o)).map .mark, rfl,
      .inl (filterMap_callee?_mark (fn_not_mem_takeWhile o s.marks))⟩

theorem Step.paren_mem (h : Step next s ")" s') : .paren ∈ s.marks := by
  by_contra hparen
  have herror : step s ")" next = .error .unopened := close_eq_error_iff.2 ⟨depth_eq_zero_iff.2 hparen, rfl⟩
  exact absurd (h.step_eq.symm.trans herror) (by simp)

theorem Step.eq_of_call (h : Step next s ")" s') (hs : s.marks = popped ++ .paren :: .fn n :: below)
    (hpopped : .paren ∉ popped) :
    s' = ⟨s.output ++ popped.map .mark ++ [.mark (.fn n)], below, false⟩ := by
  obtain ⟨out, marks, b⟩ := s
  obtain rfl : marks = popped ++ .paren :: .fn n :: below := hs
  exact Except.ok.inj (h.step_eq.symm.trans (Step.closingCall hpopped).step_eq)

/-- The end of the tokens moves no function. -/
theorem exists_moved_of_finish {items : List Item} (h : finish s = .ok items) (hs : Ordered none s.marks) :
    ∃ moved, items = s.output ++ moved ∧ moved.filterMap Item.callee? = [] := by
  rw [finish_of_depth] at h
  split at h
  · exact absurd h (by simp)
  · rename_i hdepth
    have hnonneg : 0 ≤ s.depth := Int.natCast_nonneg _
    have hparen : .paren ∉ s.marks := depth_eq_zero_iff.1 (by omega)
    rw [← List.append_nil s.marks] at hs
    exact ⟨s.marks.map .mark, (Except.ok.inj h).symm, filterMap_callee?_mark (hs.fn_not_mem (by simp) hparen)⟩

/-! ### Whole runs -/

/-- Between two tokens of a run the stack is ordered. Only a closing parenthesis moves a function to the output: the one
whose call it closes and no other, and it leaves the stack as it was in front of the name. No function is among the marks
above the last parenthesis, which a comma, a closing parenthesis and the end move even where they fail in the end. -/
theorem functions_wait_for_their_parenthesis {before after : List String} {s : State}
    (h : runBefore after.head? start before = .ok s) :
    run start (before ++ after) = run s after ∧
    Ordered after.head? s.marks ∧
    (∀ t rest s', after = t :: rest → step s t rest.head? = .ok s' → ∃ moved, s'.output = s.output ++ moved ∧
      (∀ n ∈ moved.filterMap Item.callee?, t = ")" ∧ ∃ outer, InsideCall outer n before) ∧
      ∀ outer n, t = ")" → InsideCall outer n before → moved.filterMap Item.callee? = [n] ∧
        ∃ s₀, runBefore (some n) start outer = .ok s₀ ∧ s'.marks = s₀.marks) ∧
    (after.head? ≠ some "(" → ∀ n, .fn n ∉ (untilParen s.marks).1) ∧
    (after = [] → ∀ items, finish s = .ok items →
      ∃ moved, items = s.output ++ moved ∧ moved.filterMap Item.callee? = []) := by
  have hs : Ordered after.head? s.marks := ordered_of_run_start h
  refine ⟨by rw [run_append, h], hs, ?_, hs.fn_not_mem_untilParen, ?_⟩
  · rintro t rest s' rfl hok
    have hstep : Step rest.head? s t s' := step_eq_ok_iff.1 hok
    obtain ⟨moved, hout, hmoved⟩ := hstep.exists_moved hs
    refine ⟨moved, hout, fun n hn => ?_, ?_⟩
    · rcases hmoved with hnone | ⟨rfl, popped, n', hpopped, hmarks, hone⟩
      · rw [hnone] at hn
        exact absurd hn (by simp)
      · rw [hone] at hn
        obtain rfl := List.mem_singleton.1 hn
        exact ⟨rfl, insideCall_of_marks h hmarks hpopped⟩
    · rintro outer n rfl hcall
      obtain ⟨s₀, popped, hrun, hpopped, hmarks⟩ := marks_of_insideCall h hstep.paren_mem hcall
      obtain rfl := hstep.eq_of_call hmarks hpopped
      have hmoved : popped.map .mark ++ [.mark (.fn n)] = moved := by
        rw [List.append_assoc] at hout
        exact List.append_cancel_left hout
      rw [hmarks] at hs
      rw [← hmoved]
      exact ⟨filterMap_callee?_call (hs.fn_not_mem (by simp) hpopped), s₀, hrun, rfl⟩
  · rintro rfl items hfinish
    exact exists_moved_of_finish hfinish hs

/-- The second `)` closes the call of `sqrt`, whose argument has a group of its own, and `root` still waits. -/
theorem sqrt_waits_for_its_parenthesis :
    let outer := ["2", "*", "root", "(", "1", "+"]
    let before := outer ++ ["sqrt", "(", "(", "y", ")", "^", "2"]
    ∃ s s', runBefore (some ")") start before = .ok s ∧
      s.marks = [.op "^", .paren, .fn "sqrt", .op "+", .paren, .fn "root", .op "*"] ∧ Ordered (some ")") s.marks ∧
      InsideCall outer "sqrt" before ∧ step s ")" (some ",") = .ok s' ∧
      s'.marks = [.op "+", .paren, .fn "root", .op "*"] ∧
      ∃ moved, s'.output = s.output ++ moved ∧ moved.filterMap Item.callee? = ["sqrt"] := by
  intro outer before
  have hrun : runBefore (some ")") start before = .ok ⟨[.lit "2", .lit "1", .var "y", .lit "2"],
      [.op "^", .paren, .fn "sqrt", .op "+", .paren, .fn "root", .op "*"], false⟩ := by decide +kernel
  have hcall : InsideCall outer "sqrt" before := ⟨by decide +kernel, ["(", "y", ")", "^", "2"], by decide, rfl⟩
  obtain ⟨-, hordered, hsteps, -⟩ :=
    @functions_wait_for_their_parenthesis before [")", ",", "3", ")"] _ hrun
  obtain ⟨moved, hout, -, hcalls⟩ := hsteps ")" [",", "3", ")"] _ rfl rfl
  obtain ⟨hmoved, -⟩ := hcalls outer "sqrt" rfl hcall
  exact ⟨_, _, hrun, rfl, hordered, hcall, rfl, rfl, moved, hout, hmoved⟩

end Phasor.Postfix
