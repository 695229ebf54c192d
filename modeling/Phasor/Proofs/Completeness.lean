import Phasor.Proofs.Grammar
import Phasor.Proofs.Postorder
import Phasor.Proofs.Steps

/-!
# Every sentence is read

The operator stack reads a phrase on top of whatever it holds already (`Reads`), as long as no operator
of the phrase takes a mark from below (`Phrase.StartsOn`). Of the operators of the phrase, those that
still wait at its end bind as tightly as the phrase itself (`Phrase.Leaves`), so the next operator of a
looser phrase moves exactly these.
-/

namespace Phasor.Grammar

open Postfix

/-! ### Operators of a phrase -/

namespace Phrase

/-- The loosest operator that a phrase of the kind has outside of parentheses. -/
def loosest : Phrase → Operator
  | sum => ⟨2, false⟩
  | product => ⟨3, false⟩
  | power => ⟨5, true⟩
  | sign | atom => ⟨6, true⟩

/-- A phrase may begin right above the mark. -/
def StartsOn (p : Phrase) (m : Mark) : Prop := (∀ f, m ≠ .fn f) ∧ waits p.loosest m = false

/-- The mark may still wait at the end of a phrase. -/
def Leaves (p : Phrase) (m : Mark) : Prop :=
  ∃ s o, m = .op s ∧ Operator.ofSymbol? s = some o ∧ p.loosest.precedence ≤ o.precedence

variable {p q : Phrase} {m : Mark}

theorem StartsOn.mono (h : p.StartsOn m) (hpq : ∀ o, q.loosest.yieldsTo o = true → p.loosest.yieldsTo o = true) :
    q.StartsOn m := by
  refine ⟨h.1, Bool.eq_false_iff.2 fun hw => ?_⟩
  cases m with
  | paren => exact absurd hw (by simp [waits])
  | fn f => exact h.1 f rfl
  | op s =>
    have hp : (Operator.ofSymbol? s).any p.loosest.yieldsTo = false := h.2
    have hq : (Operator.ofSymbol? s).any q.loosest.yieldsTo = true := hw
    cases ho : Operator.ofSymbol? s with
    | none => simp [ho] at hq
    | some o =>
      rw [ho] at hp hq
      exact absurd (hpq o hq) (by rw [show p.loosest.yieldsTo o = false from hp]; decide)

theorem Leaves.mono (h : q.Leaves m) (hpq : p.loosest.precedence ≤ q.loosest.precedence) : p.Leaves m := by
  obtain ⟨s, o, hm, ho, hle⟩ := h
  exact ⟨s, o, hm, ho, Nat.le_trans hpq hle⟩

theorem Leaves.waits (h : q.Leaves m) {o : Operator}
    (ho : ∀ w : Operator, q.loosest.precedence ≤ w.precedence → o.yieldsTo w = true) : waits o m = true := by
  obtain ⟨s, w, rfl, hw, hle⟩ := h
  show (Operator.ofSymbol? s).any o.yieldsTo = true
  rw [hw]
  exact ho w hle

theorem paren_not_mem_of_leaves {marks : List Mark} (h : ∀ m ∈ marks, p.Leaves m) : .paren ∉ marks := by
  intro hm
  obtain ⟨s, o, hs, -⟩ := h _ hm
  exact absurd hs (by simp)

end Phrase

/-! ### Reading phrases -/

/-- The tokens are read from any stack on which the phrase may begin; the output gets the items but for
those of the marks that wait. -/
def Reads (p : Phrase) (ts : List String) (items : List Item) : Prop :=
  ∀ (out : List Item) (marks : List Mark) (rest : List String),
    (∀ m ∈ marks.head?, p.StartsOn m) → rest.head? ≠ some "(" →
    ∃ done waiting, items = done ++ waiting.map .mark ∧ (∀ m ∈ waiting, p.Leaves m) ∧
      run ⟨out, marks, true⟩ (ts ++ rest) = run ⟨out ++ done, waiting ++ marks, false⟩ rest

namespace Reads

variable {p q r : Phrase} {ts us : List String} {is js : List Item}

theorem mono (h : Reads q ts is)
    (hpq : ∀ o, q.loosest.yieldsTo o = true → p.loosest.yieldsTo o = true)
    (hle : p.loosest.precedence ≤ q.loosest.precedence) : Reads p ts is := by
  intro out marks rest hm hrest
  obtain ⟨done, waiting, hitems, hwaiting, hrun⟩ := h out marks rest (fun m h => (hm m h).mono hpq) hrest
  exact ⟨done, waiting, hitems, fun m h => (hwaiting m h).mono hle, hrun⟩

theorem number {t : String} (h : Token.isNumber t = true) : Reads .atom [t] [.lit t] := by
  intro out marks rest _ _
  exact ⟨[.lit t], [], rfl, by simp, run_cons (.number h)⟩

theorem name {t : String} (h : Token.isIdentifier t = true) : Reads .atom [t] [.var t] := by
  intro out marks rest _ hrest
  exact ⟨[.var t], [], rfl, by simp, run_cons (.name h hrest)⟩

theorem negation (h : Reads .sign ts is) : Reads .sign ("-" :: ts) (is ++ [.mark (.op Operator.negation)]) := by
  intro out marks rest _ hrest
  have hstart : ∀ m ∈ (Mark.op Operator.negation :: marks).head?, Phrase.sign.StartsOn m := by
    intro m hm
    obtain rfl := Option.some.inj hm
    exact ⟨by simp, waits_negation _⟩
  obtain ⟨done, waiting, rfl, hwaiting, hrun⟩ := h out (.op Operator.negation :: marks) rest hstart hrest
  refine ⟨done, waiting ++ [.op Operator.negation], by simp, ?_, ?_⟩
  · rw [List.forall_mem_append, List.forall_mem_singleton]
    exact ⟨hwaiting, Operator.negation, ⟨6, true⟩, rfl, rfl, Nat.le_refl _⟩
  · rw [List.cons_append, run_cons (.negation rfl), hrun, List.append_assoc]
    rfl

/-- The operator moves exactly what the left operand left waiting. -/
theorem binary {op : String} (hop : isBinarySymbol op = true) (ho : Operator.ofSymbol? op = some p.loosest)
    (hl : Reads q ts is) (hr : Reads r us js) (hq : ∀ m, p.StartsOn m → q.StartsOn m)
    (hpop : ∀ m, q.Leaves m → waits p.loosest m = true) (hstart : r.StartsOn (.op op))
    (hle : p.loosest.precedence ≤ r.loosest.precedence) :
    Reads p (ts ++ op :: us) (is ++ js ++ [.mark (.op op)]) := by
  intro out marks rest hm hrest
  have hopen : (op :: (us ++ rest)).head? ≠ some "(" := by
    rintro h
    rw [Option.some.inj h] at hop
    exact absurd hop (by decide)
  obtain ⟨done, waiting, rfl, hwaiting, hrun⟩ :=
    hl out marks (op :: (us ++ rest)) (fun m h => hq m (hm m h)) hopen
  have hpush : pushOperator ⟨out ++ done, waiting ++ marks, false⟩ op p.loosest =
      ⟨out ++ done ++ waiting.map .mark, .op op :: marks, true⟩ :=
    pushOperator_append (fun m h => hpop m (hwaiting m h)) (fun m h => (hm m h).2) ..
  obtain ⟨done', waiting', rfl, hwaiting', hrun'⟩ :=
    hr (out ++ done ++ waiting.map .mark) (.op op :: marks) rest
      (fun m h => by obtain rfl := Option.some.inj h; exact hstart) hrest
  refine ⟨done ++ waiting.map .mark ++ done', waiting' ++ [.op op], by simp, ?_, ?_⟩
  · rw [List.forall_mem_append, List.forall_mem_singleton]
    exact ⟨fun m h => (hwaiting' m h).mono hle, op, p.loosest, rfl, ho, Nat.le_refl _⟩
  · calc run ⟨out, marks, true⟩ (ts ++ op :: us ++ rest)
        = run ⟨out, marks, true⟩ (ts ++ op :: (us ++ rest)) := by
          rw [List.append_assoc, List.cons_append]
      _ = run ⟨out ++ done, waiting ++ marks, false⟩ (op :: (us ++ rest)) := hrun
      _ = run ⟨out ++ done ++ waiting.map .mark, .op op :: marks, true⟩ (us ++ rest) := by
          rw [run_cons (.operator hop ho fun _ => rfl), hpush]
      _ = run ⟨out ++ done ++ waiting.map .mark ++ done', waiting' ++ .op op :: marks, false⟩ rest := hrun'
      _ = _ := by simp only [List.append_assoc, List.singleton_append]

theorem group (h : Reads .sum ts is) : Reads .atom ("(" :: ts ++ [")"]) is := by
  intro out marks rest hm hrest
  obtain ⟨done, waiting, rfl, hwaiting, hrun⟩ := h out (.paren :: marks) (")" :: rest)
    (fun m h => by obtain rfl := Option.some.inj h; exact ⟨by simp, rfl⟩) (by simp)
  have hfn : ∀ f, marks.head? ≠ some (.fn f) := fun f h => (hm _ h).1 f rfl
  refine ⟨done ++ waiting.map .mark, [], by simp, by simp, ?_⟩
  calc run ⟨out, marks, true⟩ ("(" :: ts ++ [")"] ++ rest)
      = run ⟨out, marks, true⟩ ("(" :: (ts ++ ")" :: rest)) := by simp
    _ = run ⟨out ++ done, waiting ++ .paren :: marks, false⟩ (")" :: rest) := by
        rw [run_cons .opening, hrun]
    _ = run ⟨out ++ done ++ waiting.map .mark, marks, false⟩ rest :=
        run_cons (.closing (Phrase.paren_not_mem_of_leaves hwaiting) hfn)
    _ = _ := by rw [List.append_assoc, List.nil_append]

/-- The arguments of a call, each a sum above the parenthesis that opens the call. -/
theorem arguments {args : List (List String × Expr)} (hne : args ≠ [])
    (h : ∀ a ∈ args, Reads .sum a.1 a.2.postorder) (out : List Item) (marks : List Mark) (rest : List String)
    (hrest : rest.head? ≠ some "(") :
    ∃ done waiting, (args.map Prod.snd).flatMap Expr.postorder = done ++ waiting.map .mark ∧
      (∀ m ∈ waiting, Phrase.sum.Leaves m) ∧
      run ⟨out, .paren :: marks, true⟩ ([","].intercalate (args.map Prod.fst) ++ rest) =
        run ⟨out ++ done, waiting ++ .paren :: marks, false⟩ rest := by
  have hstart : ∀ m ∈ (Mark.paren :: marks).head?, Phrase.sum.StartsOn m := by
    intro m hm
    obtain rfl := Option.some.inj hm
    exact ⟨by simp, rfl⟩
  induction args generalizing out with
  | nil => exact absurd rfl hne
  | cons a args ih =>
    obtain ⟨ha, hargs⟩ := List.forall_mem_cons.1 h
    by_cases hnil : args = []
    · subst hnil
      simpa using ha out (.paren :: marks) rest hstart hrest
    obtain ⟨done, waiting, hitems, hwaiting, hrun⟩ := ha out (.paren :: marks)
      ("," :: ([","].intercalate (args.map Prod.fst) ++ rest)) hstart (by simp)
    obtain ⟨done', waiting', hitems', hwaiting', hrun'⟩ :=
      ih hnil hargs (out ++ done ++ waiting.map .mark)
    refine ⟨done ++ waiting.map .mark ++ done', waiting', ?_, hwaiting', ?_⟩
    · rw [List.map_cons, List.flatMap_cons, hitems, hitems', List.append_assoc _ done']
    · have hsep : [","].intercalate ((a :: args).map Prod.fst) ++ rest =
          a.1 ++ "," :: ([","].intercalate (args.map Prod.fst) ++ rest) := by
        rw [List.map_cons, List.intercalate_cons_of_ne_nil (by simpa using hnil)]
        simp
      rw [hsep, hrun, run_cons (.comma (Phrase.paren_not_mem_of_leaves hwaiting)), hrun']
      simp only [List.append_assoc]

theorem call {f : String} {args : List (List String × Expr)}
    (hf : Token.isIdentifier f = true) (hne : args ≠ []) (h : ∀ a ∈ args, Reads .sum a.1 a.2.postorder) :
    Reads .atom (f :: "(" :: [","].intercalate (args.map Prod.fst) ++ [")"])
      ((args.map Prod.snd).flatMap Expr.postorder ++ [.mark (.fn f)]) := by
  intro out marks rest _ _
  obtain ⟨done, waiting, hitems, hwaiting, hrun⟩ :=
    arguments hne h out (.fn f :: marks) (")" :: rest) (by simp)
  refine ⟨done ++ waiting.map .mark ++ [.mark (.fn f)], [], by rw [hitems]; simp, by simp, ?_⟩
  calc run ⟨out, marks, true⟩ (f :: "(" :: [","].intercalate (args.map Prod.fst) ++ [")"] ++ rest)
      = run ⟨out, marks, true⟩ (f :: "(" :: ([","].intercalate (args.map Prod.fst) ++ ")" :: rest)) := by simp
    _ = run ⟨out, .fn f :: marks, false⟩ ("(" :: ([","].intercalate (args.map Prod.fst) ++ ")" :: rest)) :=
        run_cons (.function hf rfl)
    _ = run ⟨out ++ done, waiting ++ .paren :: .fn f :: marks, false⟩ (")" :: rest) := by
        rw [run_cons .opening, hrun]
    _ = run ⟨out ++ done ++ waiting.map .mark ++ [.mark (.fn f)], marks, false⟩ rest :=
        run_cons (.closingCall (Phrase.paren_not_mem_of_leaves hwaiting))
    _ = _ := by simp only [List.append_assoc, List.nil_append]

end Reads

theorem reads_of_derives {takes : String → Nat → Prop} {p : Phrase} {ts : List String} {e : Expr}
    (h : Derives takes p ts e) : Reads p ts e.postorder := by
  induction h with
  | sum hop _ _ ihl ihr =>
    rw [Expr.postorder_binary]
    rcases hop with rfl | rfl <;>
      exact ihl.binary rfl rfl ihr (fun _ hm => hm) (fun _ hm => hm.waits fun _ h => decide_eq_true h)
        ⟨by simp, rfl⟩ (by decide)
  | ofProduct _ ih => exact ih.mono (by grind [Operator.yieldsTo, Phrase.loosest]) (by decide)
  | product hop _ _ ihl ihr =>
    rw [Expr.postorder_binary]
    rcases hop with rfl | rfl <;>
      exact ihl.binary rfl rfl ihr (fun _ hm => hm) (fun _ hm => hm.waits fun _ h => decide_eq_true h)
        ⟨by simp, rfl⟩ (by decide)
  | ofPower _ ih => exact ih.mono (by grind [Operator.yieldsTo, Phrase.loosest]) (by decide)
  | power hop _ _ ihl ihr =>
    rw [Expr.postorder_binary]
    rcases hop with rfl | rfl <;>
      exact ihl.binary rfl rfl ihr (fun _ hm => hm.mono (by grind [Operator.yieldsTo, Phrase.loosest]))
        (fun _ hm => hm.waits fun _ h => decide_eq_true h) ⟨by simp, rfl⟩ (by decide)
  | ofSign _ ih => exact ih.mono (by grind [Operator.yieldsTo, Phrase.loosest]) (by decide)
  | sign _ ih =>
    rw [Expr.postorder_unary]
    exact ih.negation
  | ofAtom _ ih => exact ih.mono (fun _ h => h) (Nat.le_refl _)
  | number ht => exact .number ht
  | name ht => exact .name ht
  | group _ ih => exact ih.group
  | call hf hne _ _ ih =>
    rw [Expr.postorder_call]
    exact .call hf hne ih

theorem arrange_of_derives {takes : String → Nat → Prop} {ts : List String} {e : Expr}
    (h : Derives takes .sum ts e) : arrange ts = .ok e.postorder := by
  obtain ⟨done, waiting, hitems, hwaiting, hrun⟩ := reads_of_derives h [] [] [] (by simp) (by simp)
  simp only [List.append_nil, List.nil_append, run] at hrun
  have hparen : waiting.contains .paren = false := by
    simpa using Phrase.paren_not_mem_of_leaves hwaiting
  simp only [arrange, start, hrun, finish, hparen, Bool.false_eq_true, ↓reduceIte, hitems]

/-- Sentences of any size are read as the grammar says: the first pass gives the nodes of the tree in
post-order, and the second pass gives the tree. -/
theorem arrange_and_ofTokens_of_sentence {ts : List String} {e : Expr} (h : Sentence ts e) :
    arrange ts = .ok e.postorder ∧ Expr.ofTokens ts = .ok e := by
  have harrange : arrange ts = .ok e.postorder := arrange_of_derives h
  have hbuild : build e.postorder = .ok e :=
    build_eq_ok_iff.2 ⟨rfl, Expr.Everywhere.mono h.wellFormed fun _ hn => hn.buildable⟩
  exact ⟨harrange, by rw [Expr.ofTokens, harrange]; exact hbuild⟩

theorem sentence_minus_root : Sentence ["-", "x", "**", "2", "-", "root", "(", "(", "y", ")", ",", "3", ")"]
    (.binary "-" (.binary "**" (.unary "-" (.var "x")) (.lit "2"))
      (.call "root" [.var "y", .lit "3"])) := by
  have hx : Sentence ["-", "x", "**", "2"] (.binary "**" (.unary "-" (.var "x")) (.lit "2")) :=
    .ofProduct (.ofPower (.power (.inl rfl) (.sign (.ofAtom (.name (by decide))))
      (.ofSign (.ofAtom (.number (by decide))))))
  have hy : Sentence ["(", "y", ")"] (.var "y") := .sumOfAtom (.group (.sumOfAtom (.name (by decide))))
  have hn : Sentence ["3"] (.lit "3") := .sumOfAtom (.number (by decide))
  exact .sum (.inr rfl) hx (.ofPower (.ofSign (.ofAtom (.callOfTwo (by decide) (by decide) hy hn))))

/-- Negation binds tighter than the power on its left, and parentheses leave no trace. -/
theorem ofTokens_minus_root :
    let ts := ["-", "x", "**", "2", "-", "root", "(", "(", "y", ")", ",", "3", ")"]
    let e : Expr := .binary "-" (.binary "**" (.unary "-" (.var "x")) (.lit "2"))
      (.call "root" [.var "y", .lit "3"])
    Sentence ts e ∧
    arrange ts = .ok [.var "x", .mark (.op Operator.negation), .lit "2", .mark (.op "**"), .var "y", .lit "3",
      .mark (.fn "root"), .mark (.op "-")] ∧
    Expr.ofTokens ts = .ok e :=
  ⟨sentence_minus_root, arrange_and_ofTokens_of_sentence sentence_minus_root⟩

end Phasor.Grammar
