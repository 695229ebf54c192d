import Phasor.Proofs.PrefixReader

/-!
# Prefix form and trees

The rendered text of a well-formed tree is cut into the tokens of the tree (`cut_render`), since its
words are made of characters that are neither blank nor parentheses (`IsWord`). With what the reader
does on tokens, texts and well-formed trees correspond exactly, up to blanks.
-/

namespace Phasor.PrefixForm

open Phasor.Expr Text

/-! ### Words -/

/-- A string that `cut` keeps in one piece. -/
def IsWord (w : String) : Prop := w.toList ≠ [] ∧ ∀ c ∈ w.toList, isAtomChar c = true

theorem isAtomChar_of_range {c : Char} (h : 0x2A ≤ c.toNat) (h' : c.toNat ≤ 0x7E) : isAtomChar c = true := by
  have hblank : isBlank c = false := by
    unfold isBlank
    grind
  have hopen : c ≠ '(' := by rintro rfl; exact absurd h (by decide)
  have hclose : c ≠ ')' := by rintro rfl; exact absurd h (by decide)
  simp [isAtomChar, hblank, hopen, hclose]

theorem isAtomChar_of_isIdentRest {c : Char} (h : Token.isIdentRest c = true) : isAtomChar c = true := by
  obtain ⟨hlow, hhigh⟩ := Token.toNat_of_isIdentRest h
  exact isAtomChar_of_range (by omega) (by omega)

theorem isWord_of_isNumber {t : String} (h : Token.isNumber t = true) : IsWord t := by
  obtain ⟨hne, heq⟩ := Token.isNumber_iff.1 h
  refine ⟨hne, fun c hc => ?_⟩
  rw [← heq] at hc
  rcases Token.mem_number hc with hc | rfl | rfl | rfl | rfl | rfl
  · exact isAtomChar_of_isIdentRest (Token.isIdentRest_of_isDigit hc)
  all_goals decide

theorem isWord_of_isIdentifier {t : String} (h : Token.isIdentifier t = true) : IsWord t :=
  ⟨(Token.isIdentifier_iff.1 h).1,
    fun c hc => isAtomChar_of_isIdentRest (Token.isIdentRest_of_isIdentifier h c hc)⟩

theorem isWord_of_isBinarySymbol {t : String} (h : isBinarySymbol t = true) : IsWord t := by
  rcases isBinarySymbol_iff.1 h with rfl | rfl | rfl | rfl | rfl | rfl <;>
    exact ⟨by decide, List.all_eq_true.1 (by decide)⟩

theorem isWord_head {e : Expr} {head : String} (he : e.Proper) (h : e.head? = some head) : IsWord head := by
  cases e with
  | lit t => exact absurd h (by simp [head?])
  | var n => exact absurd h (by simp [head?])
  | unary op e =>
    obtain rfl : op = head := Option.some.inj h
    obtain rfl : op = "-" := he
    exact isWord_of_isBinarySymbol rfl
  | binary op l r =>
    obtain rfl : op = head := Option.some.inj h
    exact isWord_of_isBinarySymbol he
  | call n args =>
    obtain rfl : n = head := Option.some.inj h
    exact isWord_of_isIdentifier he.1

theorem isWord_render {e : Expr} (he : e.Proper) (h : e.head? = none) : IsWord e.render := by
  cases e with
  | lit t => exact isWord_of_isNumber he
  | var n => exact isWord_of_isIdentifier he
  | unary op e => exact absurd h (by simp [head?])
  | binary op l r => exact absurd h (by simp [head?])
  | call n args => exact absurd h (by simp [head?])

/-! ### Cutting -/

/-- No word goes on with these characters. -/
def Ends (cs : List Char) : Prop := ∀ c ∈ cs.head?, isAtomChar c = false

theorem cut_nil : cut [] = [] := cut.eq_def []

theorem cut_cons (c : Char) (r : List Char) : cut (c :: r) =
    if isAtomChar c then String.ofList (c :: r.takeWhile isAtomChar) :: cut (r.dropWhile isAtomChar)
    else if isBlank c then cut r
    else String.singleton c :: cut r :=
  cut.eq_def (c :: r)

theorem cut_word {w : String} (h : IsWord w) {cs : List Char} (hcs : Ends cs) :
    cut (w.toList ++ cs) = w :: cut cs := by
  obtain ⟨hne, hw⟩ := h
  obtain ⟨c, r, hcr⟩ := List.exists_cons_of_ne_nil hne
  rw [hcr] at hw
  obtain ⟨hc, hr⟩ := List.forall_mem_cons.1 hw
  obtain ⟨htake, hdrop⟩ := span_append hr hcs
  rw [hcr, List.cons_append, cut_cons, if_pos hc, htake, hdrop, ← hcr, String.ofList_toList]

theorem cut_space (cs : List Char) : cut (' ' :: cs) = cut cs := cut_cons ' ' cs

theorem cut_open (cs : List Char) : cut ('(' :: cs) = "(" :: cut cs := cut_cons '(' cs

theorem cut_close (cs : List Char) : cut (')' :: cs) = ")" :: cut cs := cut_cons ')' cs

/-! ### Rendered trees -/

theorem toList_renderAll (es : List Expr) :
    (renderAll es).toList = es.flatMap fun e => ' ' :: e.render.toList := by
  induction es with
  | nil => rfl
  | cons e es ih => simp [renderAll, ih]

theorem toList_render_of_head {e : Expr} {head : String} (h : e.head? = some head) :
    e.render.toList =
      '(' :: head.toList ++ e.children.flatMap (fun c => ' ' :: c.render.toList) ++ [')'] := by
  cases e <;> cases h <;> simp [render, children, toList_renderAll]

theorem cut_flatMap_render {es : List Expr}
    (h : ∀ e ∈ es, ∀ cs, Ends cs → cut (e.render.toList ++ cs) = e.prefixTokens ++ cut cs)
    {cs : List Char} (hcs : Ends cs) :
    cut (es.flatMap (fun e => ' ' :: e.render.toList) ++ cs) = es.flatMap prefixTokens ++ cut cs ∧
      Ends (es.flatMap (fun e => ' ' :: e.render.toList) ++ cs) := by
  induction es with
  | nil => exact ⟨rfl, hcs⟩
  | cons e es ih =>
    obtain ⟨he, hes⟩ := List.forall_mem_cons.1 h
    obtain ⟨hcut, hends⟩ := ih hes
    refine ⟨?_, ?_⟩
    · rw [List.flatMap_cons, List.append_assoc, List.cons_append, cut_space, he _ hends, hcut,
        List.flatMap_cons, List.append_assoc]
    · intro c hc
      obtain rfl : ' ' = c := Option.some.inj hc
      rfl

theorem cut_render {e : Expr} (h : e.WellFormed) {cs : List Char} (hcs : Ends cs) :
    cut (e.render.toList ++ cs) = e.prefixTokens ++ cut cs := by
  induction e using induction_children generalizing cs with
  | h e ih =>
    obtain ⟨he, hchildren⟩ := everywhere_iff.1 h
    cases hhead : e.head? with
    | none =>
      rw [prefixTokens_of_head_eq_none hhead, cut_word (isWord_render he hhead) hcs, List.singleton_append]
    | some head =>
      have hclose : Ends (')' :: cs) := fun c hc => by obtain rfl := Option.some.inj hc; rfl
      obtain ⟨hcut, hends⟩ := cut_flatMap_render (fun c hc cs hcs => ih c hc (hchildren c hc) hcs) hclose
      calc cut (e.render.toList ++ cs)
          = cut ('(' :: (head.toList ++
              (e.children.flatMap (fun c => ' ' :: c.render.toList) ++ ')' :: cs))) := by
            rw [toList_render_of_head hhead]; simp
        _ = "(" :: head :: (e.children.flatMap prefixTokens ++ ")" :: cut cs) := by
            rw [cut_open, cut_word (isWord_head he hhead) hends, hcut, cut_close]
        _ = e.prefixTokens ++ cut cs := by rw [prefixTokens_of_head hhead]; simp

theorem cut_render_self {e : Expr} (h : e.WellFormed) : cut e.render.toList = e.prefixTokens := by
  have hcut := cut_render h (show Ends [] by simp [Ends])
  rwa [List.append_nil, cut_nil, List.append_nil] at hcut

theorem ofPrefixForm_of_cut_eq {t : String} {e : Expr} (h : e.WellFormed) (ht : cut t.toList = e.prefixTokens) :
    Expr.ofPrefixForm t = .ok e := by
  have hread : read [] (cut t.toList) = .ok (e, []) := by
    have := read_prefixTokens h [] []
    rwa [List.append_nil, ← ht] at this
  simp only [Expr.ofPrefixForm, hread]

theorem wellFormed_of_ofPrefixForm {t : String} {e : Expr} (h : Expr.ofPrefixForm t = .ok e) :
    e.WellFormed ∧ cut t.toList = e.prefixTokens := by
  have hanswer : Answers (pending [] ++ cut t.toList) (read [] (cut t.toList)) := answers_read (by simp)
  unfold Expr.ofPrefixForm at h
  dsimp only at h
  split at h
  · exact absurd h (by simp)
  · rename_i e' hread
    obtain rfl : e' = e := Except.ok.inj h
    rw [hread] at hanswer
    exact ⟨hanswer.1, by simpa [pending] using hanswer.2⟩
  · exact absurd h (by simp)

theorem kind_of_ofPrefixForm {t : String} {err : ParseError} (h : Expr.ofPrefixForm t = .error err) :
    ReaderKind err.kind := by
  have hanswer : Answers (pending [] ++ cut t.toList) (read [] (cut t.toList)) := answers_read (by simp)
  unfold Expr.ofPrefixForm at h
  dsimp only at h
  split at h
  · rename_i err' hread
    obtain rfl : err' = err := Except.error.inj h
    rw [hread] at hanswer
    exact hanswer
  · exact absurd h (by simp)
  · obtain rfl := Except.error.inj h
    exact .malformedExpression

/-- Exactly the well-formed trees are read, each from its rendered text up to blanks, and any other text
has one of four kinds of errors. -/
theorem ofPrefixForm_inverts_render :
    (∀ (t : String) (e : Expr), Expr.ofPrefixForm t = .ok e ↔
      e.WellFormed ∧ cut t.toList = cut e.render.toList) ∧
    (∀ e : Expr, e.WellFormed → Expr.ofPrefixForm e.render = .ok e) ∧
    ∀ (t : String) (err : ParseError), Expr.ofPrefixForm t = .error err → ReaderKind err.kind := by
  refine ⟨fun t e => ⟨fun h => ?_, fun ⟨he, ht⟩ => ?_⟩, fun e he => ?_, fun t err => kind_of_ofPrefixForm⟩
  · obtain ⟨he, ht⟩ := wellFormed_of_ofPrefixForm h
    exact ⟨he, by rw [ht, cut_render_self he]⟩
  · exact ofPrefixForm_of_cut_eq he (ht.trans (cut_render_self he))
  · exact ofPrefixForm_of_cut_eq he (cut_render_self he)

theorem ofPrefixForm_with_blanks :
    Expr.ofPrefixForm " (-( - a)\n(root 2i b) ) " =
      .ok (.binary "-" (.unary "-" (.var "a")) (.call "root" [.lit "2i", .var "b"])) ∧
    Expr.ofPrefixForm "(- (- a) (root 2i b))" =
      .ok (.binary "-" (.unary "-" (.var "a")) (.call "root" [.lit "2i", .var "b"])) ∧
    ReaderKind (ParseError.tooFewOperands (.head "root")).kind :=
  ⟨(ofPrefixForm_inverts_render.1 _ _).2 ⟨by decide, by decide +kernel⟩,
    ofPrefixForm_inverts_render.2.1 (.binary "-" (.unary "-" (.var "a")) (.call "root" [.lit "2i", .var "b"]))
      (by decide),
    ofPrefixForm_inverts_render.2.2 "(root a)" _ (by decide +kernel)⟩

end Phasor.PrefixForm
