import Phasor.Proofs.Scanning

/-!
# Longest match

The tokens have a grammar of their own (`isToken_iff_isWord`), and the lexeme at the front of a text is the longest token
there (`longestToken_lexeme`): where a token is at the front, each part of the lexeme is at least as long as the same part
of the token (`prefix_lexeme_append`). So the tokens of a text are those that are cut off by taking the longest token each
time (`scan_eq_ok_iff`), and tokens with blanks between them are read as they are (`cuts_spaced`).
-/

namespace Phasor.Token

open Text

variable {t : String} {ts : List String} {cs rest : List Char}

/-! ### The grammar of tokens -/

/-- The tokens by their forms. -/
def IsWord (t : String) : Prop :=
  NumberText t.toList ∨ (∃ c r, t.toList = c :: r ∧ isIdentStart c = true ∧ ∀ x ∈ r, isIdentRest x = true) ∨
  t ∈ ["+", "-", "*", "/", "**", "^", "(", ")", ","]

theorem isNumber_iff_numberText : isNumber t = true ↔ NumberText t.toList := by
  rw [isNumber_iff]
  constructor
  · rintro ⟨hne, hnumber⟩
    exact hnumber ▸ numberText_number (hnumber.symm ▸ hne)
  · intro h
    exact ⟨numberText_ne_nil h, number_eq_self h⟩

theorem isIdentifier_iff_exists : isIdentifier t = true ↔
    ∃ c r, t.toList = c :: r ∧ isIdentStart c = true ∧ ∀ x ∈ r, isIdentRest x = true := by
  refine ⟨exists_cons_of_isIdentifier, ?_⟩
  rintro ⟨c, r, ht, hc, hr⟩
  rw [isIdentifier_iff, ht, show identifier (c :: r) = c :: r.takeWhile isIdentRest from if_pos hc,
    List.takeWhile_eq_self_iff.2 hr]
  exact ⟨List.cons_ne_nil _ _, rfl⟩

theorem isToken_iff_isWord : IsToken t ↔ IsWord t := by
  have hmarks : t ∈ ["+", "-", "*", "/", "**", "^", "(", ")", ","] ↔ isBinarySymbol t = true ∨ IsSeparator t := by
    rw [isBinarySymbol_iff, IsSeparator]
    simp only [List.mem_cons, List.not_mem_nil, or_false, or_assoc]
  rw [IsToken, IsWord, isNumber_iff_numberText, isIdentifier_iff_exists, hmarks]

/-! ### What follows can only make a lexeme longer -/

theorem prefix_mantissa_append (cs x : List Char) : mantissa cs <+: mantissa (mantissa cs ++ x) := by
  have hwhole : ∀ c ∈ cs.takeWhile isDigit, isDigit c = true := fun c hc => List.mem_takeWhile_imp hc
  rcases mantissa_cases cs with h | ⟨ds, hds, hne, h⟩
  · rw [h]
    have htake : (cs.takeWhile isDigit ++ x).takeWhile isDigit = cs.takeWhile isDigit ++ x.takeWhile isDigit :=
      List.takeWhile_append_of_pos hwhole
    rcases mantissa_cases (cs.takeWhile isDigit ++ x) with h' | ⟨es, -, -, h'⟩
    · rw [h', htake]
      exact List.prefix_append _ _
    · rw [h', htake, List.append_assoc]
      exact List.prefix_append _ _
  · rw [h, List.append_assoc, List.cons_append, mantissa_point_append hwhole hds hne, ← List.cons_append,
      ← List.append_assoc]
    exact List.prefix_append _ _

theorem prefix_exponent_append (cs x : List Char) : exponent cs <+: exponent (exponent cs ++ x) := by
  rcases exponent_cases cs with h | ⟨sign, ds, hsign, hds, hne, h⟩
  · rw [h]
    exact List.nil_prefix
  · rw [h, List.cons_append, List.append_assoc, exponent_append hsign hds hne, ← List.append_assoc, ← List.cons_append]
    exact List.prefix_append _ _

theorem mantissa_prefix_number (cs : List Char) : mantissa cs <+: number cs := by
  unfold number
  dsimp only
  split
  · rename_i h
    exact List.prefix_nil.2 (List.isEmpty_iff.1 h)
  · rw [List.append_assoc]
    exact List.prefix_append _ _

theorem prefix_number_append (h : NumberText cs) (rest : List Char) : cs <+: number (cs ++ rest) := by
  obtain ⟨hws, hpoint, hds, hne, hes, hus⟩ := h
  rename_i ws point ds es us
  by_cases hsuffix : es ++ us = []
  · -- digits and points may go on in the rest
    have hfront := prefix_mantissa_append (ws ++ (point ++ ds)) rest
    rw [mantissa_eq_self hws hpoint hds hne] at hfront
    rw [hsuffix, List.append_nil]
    exact hfront.trans (mantissa_prefix_number _)
  · have hfirst : ∀ c ∈ (es ++ us ++ rest).head?, c = 'e' ∨ c = 'i' := by
      obtain ⟨d, suffix, hcons⟩ := List.exists_cons_of_ne_nil hsuffix
      have hsuffix := head?_exponentText hes hus
      rwa [hcons] at hsuffix ⊢
    have hmantissa := mantissa_append_suffix hws hpoint hds hne hfirst
    rw [List.append_assoc _ (es ++ us), number_append_eq hmantissa (by simp [hne]), List.prefix_append_right_inj]
    rcases hus with rfl | rfl
    · have hfront := prefix_exponent_append es rest
      rw [exponent_eq_self hes] at hfront
      rw [List.append_nil]
      exact hfront.trans (List.prefix_append _ _)
    · have hexponent : exponent (exponent es ++ 'i' :: rest) = exponent es :=
        exponent_exponent_append es (by simp; decide)
      rw [exponent_eq_self hes] at hexponent
      rw [List.append_assoc, List.singleton_append, hexponent, List.drop_left]
      exact List.prefix_refl _

/-! ### The longest token -/

/-- A token of one of the four kinds that are read apart. -/
theorem isToken_cases (h : IsToken t) :
    isNumber t = true ∨ isIdentifier t = true ∨ t = "**" ∨ ∃ c, isMarkChar c = true ∧ t = String.ofList [c] := by
  rcases h with h | h | h | h
  · exact .inl h
  · exact .inr (.inl h)
  · rcases isBinarySymbol_iff.1 h with rfl | rfl | rfl | rfl | rfl | rfl
    · exact .inr (.inr (.inr ⟨'+', rfl, rfl⟩))
    · exact .inr (.inr (.inr ⟨'-', rfl, rfl⟩))
    · exact .inr (.inr (.inr ⟨'*', rfl, rfl⟩))
    · exact .inr (.inr (.inr ⟨'/', rfl, rfl⟩))
    · exact .inr (.inr (.inl rfl))
    · exact .inr (.inr (.inr ⟨'^', rfl, rfl⟩))
  · rcases h with rfl | rfl | rfl
    · exact .inr (.inr (.inr ⟨'(', rfl, rfl⟩))
    · exact .inr (.inr (.inr ⟨')', rfl, rfl⟩))
    · exact .inr (.inr (.inr ⟨',', rfl, rfl⟩))

theorem lexeme_of_isMarkChar {c : Char} (h : isMarkChar c = true) (rest : List Char) :
    lexeme (c :: rest) = mark (c :: rest) := by
  simp only [isMarkChar, List.contains_iff_mem, List.mem_cons, List.not_mem_nil, or_false] at h
  rcases h with rfl | rfl | rfl | rfl | rfl | rfl | rfl | rfl <;> rfl

theorem lexeme_of_isIdentStart {c : Char} (h : isIdentStart c = true) (rest : List Char) :
    lexeme (c :: rest) = c :: rest.takeWhile isIdentRest := by
  have hnumber : number (c :: rest) = [] :=
    number_eq_nil_of_head (isDigit_of_isIdentStart h) (by rintro rfl; exact absurd h (by decide))
  have hname : identifier (c :: rest) = c :: rest.takeWhile isIdentRest := if_pos h
  rw [lexeme, hnumber, hname]
  rfl

theorem lexeme_of_number {x : List Char} (h : number x ≠ []) : lexeme x = number x := by
  rw [lexeme, if_pos (by simpa using h)]

/-- A token at the front of a text is at the front of the lexeme there. -/
theorem prefix_lexeme_append (h : IsToken t) (rest : List Char) : t.toList <+: lexeme (t.toList ++ rest) := by
  rcases isToken_cases h with hnumber | hname | rfl | ⟨c, hc, rfl⟩
  · have hfront := prefix_number_append (isNumber_iff_numberText.1 hnumber) rest
    have hne : number (t.toList ++ rest) ≠ [] := fun hnil =>
      (isNumber_iff.1 hnumber).1 (List.prefix_nil.1 (hnil ▸ hfront))
    rwa [lexeme_of_number hne]
  · obtain ⟨c, r, ht, hc, hr⟩ := exists_cons_of_isIdentifier hname
    rw [ht, List.cons_append, lexeme_of_isIdentStart hc, List.takeWhile_append_of_pos hr, ← List.cons_append]
    exact List.prefix_append _ _
  · exact List.prefix_refl _
  · rw [String.toList_ofList, List.singleton_append, lexeme_of_isMarkChar hc]
    rcases mark_cases c rest with ⟨-, hmark | hmark⟩ | ⟨hnot, -⟩
    · exact ⟨[], hmark.symm⟩
    · obtain ⟨rfl, -⟩ := List.cons_prefix_cons.1 (hmark ▸ mark_prefix (c :: rest))
      exact ⟨['*'], hmark.symm⟩
    · rw [hc] at hnot
      exact absurd hnot (by decide)

/-- The token `t` is at the front of the text, and no longer one is. -/
structure LongestToken (cs : List Char) (t : String) : Prop where
  isToken : IsToken t
  isPrefix : t.toList <+: cs
  longest : ∀ t', IsToken t' → t'.toList <+: cs → t'.toList.length ≤ t.toList.length

theorem toList_ne_nil_of_isToken (h : IsToken t) : t.toList ≠ [] := by
  rcases isToken_cases h with h | h | rfl | ⟨c, -, rfl⟩
  · exact (isNumber_iff.1 h).1
  · exact (isIdentifier_iff.1 h).1
  · exact List.cons_ne_nil _ _
  · rw [String.toList_ofList]
    exact List.cons_ne_nil _ _

theorem prefix_lexeme (h : IsToken t) (hfront : t.toList <+: cs) : t.toList <+: lexeme cs := by
  obtain ⟨rest, rfl⟩ := hfront
  exact prefix_lexeme_append h rest

theorem longestToken_lexeme (h : lexeme cs ≠ []) : LongestToken cs (String.ofList (lexeme cs)) := by
  refine ⟨isToken_lexeme h, ?_, fun t' ht' hfront => ?_⟩
  · rw [String.toList_ofList]
    exact lexeme_prefix cs
  · rw [String.toList_ofList]
    exact (prefix_lexeme ht' hfront).length_le

namespace LongestToken

theorem lexeme_ne_nil (h : LongestToken cs t) : lexeme cs ≠ [] := fun hnil =>
  toList_ne_nil_of_isToken h.isToken (List.prefix_nil.1 (hnil ▸ prefix_lexeme h.isToken h.isPrefix))

theorem lexeme_eq (h : LongestToken cs t) : lexeme cs = t.toList := by
  have hlexeme := longestToken_lexeme h.lexeme_ne_nil
  have hle := h.longest _ hlexeme.isToken hlexeme.isPrefix
  rw [String.toList_ofList] at hle
  exact ((prefix_lexeme h.isToken h.isPrefix).eq_of_length_le hle).symm

end LongestToken

theorem isBlank_of_mem_isToken (h : IsToken t) : ∀ c ∈ t.toList, isBlank c = false := fun _ hc =>
  isBlank_of_mem_lexeme ((prefix_lexeme h (List.prefix_refl _)).subset hc)

/-- A token in front of a blank or the end of the text is the longest one. -/
theorem longestToken_of_blank (h : IsToken t) (hrest : ∀ c ∈ rest.head?, isBlank c = true) :
    LongestToken (t.toList ++ rest) t := by
  refine ⟨h, List.prefix_append _ _, fun t' ht' hfront => ?_⟩
  -- the characters of a token are no blanks, so those of the other one end where `rest` begins
  obtain ⟨s, hs⟩ := hfront
  have hword : ∀ {t : String}, IsToken t → ∀ c ∈ t.toList, (!isBlank c) = true := fun ht c hc => by
    rw [isBlank_of_mem_isToken ht c hc]
    rfl
  have htake : (t.toList ++ rest).takeWhile (fun c => !isBlank c) = t.toList :=
    (span_append (hword h) fun c hc => by rw [hrest c hc]; rfl).1
  rw [← hs, List.takeWhile_append_of_pos (hword ht')] at htake
  exact List.IsPrefix.length_le ⟨_, htake⟩

/-! ### Taking the longest token each time -/

/-- The text is cut into the tokens, each of which is the longest at the front of what is left after blanks. -/
inductive Cuts : List Char → List String → Prop
  | nil {bs : List Char} (hbs : ∀ c ∈ bs, isBlank c = true) : Cuts bs []
  | cons {bs rest : List Char} {t : String} {ts : List String} (hbs : ∀ c ∈ bs, isBlank c = true)
    (ht : LongestToken (t.toList ++ rest) t) (h : Cuts rest ts) : Cuts (bs ++ (t.toList ++ rest)) (t :: ts)

theorem scanFrom_of_blanks (total : Nat) (h : skipBlanks cs = []) : scanFrom total cs = .ok [] := by
  rw [scanFrom]
  split
  · rfl
  · rename_i hs
    exact absurd (h.symm.trans hs) (by simp)

theorem scanFrom_of_lexeme (total : Nat) (hne : lexeme (skipBlanks cs) ≠ [])
    (hrest : lexeme (skipBlanks cs) ++ rest = skipBlanks cs) : scanFrom total cs =
      (scanFrom total rest).map (String.ofList (lexeme (skipBlanks cs)) :: ·) := by
  rw [scanFrom]
  split
  · rename_i hs
    rw [hs] at hne
    exact absurd rfl hne
  · rename_i c r hs
    rw [hs] at hne hrest ⊢
    rw [if_neg hne, drop_lexeme hrest]
    cases scanFrom total rest <;> rfl

theorem skipBlanks_append {bs : List Char} (hbs : ∀ c ∈ bs, isBlank c = true)
    (hcs : ∀ c ∈ cs.head?, isBlank c = false) : skipBlanks (bs ++ cs) = cs :=
  (span_append hbs hcs).2

theorem scanFrom_of_cuts (total : Nat) (h : Cuts cs ts) : scanFrom total cs = .ok ts := by
  induction h with
  | @nil bs hbs =>
    have hskip : skipBlanks (bs ++ []) = [] := skipBlanks_append hbs (by simp)
    rw [List.append_nil] at hskip
    exact scanFrom_of_blanks total hskip
  | @cons bs rest t ts hbs ht h ih =>
    have hskip : skipBlanks (bs ++ (t.toList ++ rest)) = t.toList ++ rest := by
      refine skipBlanks_append hbs fun c hc => ?_
      obtain ⟨d, s, hcons⟩ := List.exists_cons_of_ne_nil (toList_ne_nil_of_isToken ht.isToken)
      rw [hcons] at hc
      obtain rfl : d = c := Option.some.inj hc
      exact isBlank_of_mem_isToken ht.isToken d (hcons ▸ List.mem_cons_self ..)
    have hlexeme := ht.lexeme_eq
    rw [← hskip] at hlexeme
    have hne : lexeme (skipBlanks (bs ++ (t.toList ++ rest))) ≠ [] := by
      rw [hlexeme]
      exact toList_ne_nil_of_isToken ht.isToken
    have hrest : lexeme (skipBlanks (bs ++ (t.toList ++ rest))) ++ rest = skipBlanks (bs ++ (t.toList ++ rest)) := by
      rw [hlexeme, hskip]
    rw [scanFrom_of_lexeme total hne hrest, ih, hlexeme, String.ofList_toList]
    rfl

theorem cuts_of_scanFrom {total : Nat} (h : scanFrom total cs = .ok ts) : Cuts cs ts := by
  fun_induction scanFrom total cs generalizing ts with
  | case1 cs hs =>
    obtain rfl := Except.ok.inj h
    exact .nil (List.dropWhile_eq_nil_iff.1 hs)
  | case2 cs c r hs hl => exact absurd h (by simp)
  | case3 cs c r hs hl ih =>
    obtain ⟨rest, hrest⟩ := lexeme_prefix (c :: r)
    have hcs : cs.takeWhile isBlank ++ ((String.ofList (lexeme (c :: r))).toList ++ rest) = cs := by
      rw [String.toList_ofList, hrest, ← hs, takeWhile_append_skipBlanks]
    have hlongest : LongestToken ((String.ofList (lexeme (c :: r))).toList ++ rest) (String.ofList (lexeme (c :: r))) := by
      rw [String.toList_ofList, hrest]
      exact longestToken_lexeme hl
    rw [drop_lexeme hrest] at ih h
    cases hscan : scanFrom total rest with
    | error err =>
      rw [hscan] at h
      exact absurd h (by simp [bind, Except.bind])
    | ok ts' =>
      rw [hscan] at h
      obtain rfl := Except.ok.inj h
      rw [← hcs]
      exact .cons (fun c hc => List.mem_takeWhile_imp hc) hlongest (ih hscan)

theorem scan_eq_ok_iff {text : String} : scan text = .ok ts ↔ Cuts text.toList ts :=
  ⟨cuts_of_scanFrom, scanFrom_of_cuts _⟩

/-! ### Tokens with blanks between them -/

/-- The text of the tokens with the blanks behind each of them, and the blanks `lead` in front. -/
def spaced (lead : List Char) (l : List (String × List Char)) : List Char :=
  lead ++ l.flatMap fun x => x.1.toList ++ x.2

theorem cuts_spaced {lead : List Char} {l : List (String × List Char)} (hlead : ∀ c ∈ lead, isBlank c = true)
    (htokens : ∀ x ∈ l, IsToken x.1) (hblanks : ∀ x ∈ l, ∀ c ∈ x.2, isBlank c = true)
    (hgaps : ∀ x ∈ l.dropLast, x.2 ≠ []) : Cuts (spaced lead l) (l.map Prod.fst) := by
  induction l generalizing lead with
  | nil =>
    rw [spaced, List.flatMap_nil, List.append_nil]
    exact .nil hlead
  | cons x l ih =>
    obtain ⟨hx, htokens⟩ := List.forall_mem_cons.1 htokens
    obtain ⟨hblank, hblanks⟩ := List.forall_mem_cons.1 hblanks
    have htext : spaced lead (x :: l) = lead ++ (x.1.toList ++ spaced x.2 l) := by
      rw [spaced, spaced, List.flatMap_cons, List.append_assoc]
    have hrest : ∀ c ∈ (spaced x.2 l).head?, isBlank c = true := by
      intro c hc
      cases l with
      | nil =>
        rw [spaced, List.flatMap_nil, List.append_nil] at hc
        exact hblank c (List.mem_of_mem_head? hc)
      | cons y l =>
        obtain ⟨d, ds, hgap⟩ := List.exists_cons_of_ne_nil (hgaps x (List.mem_cons_self ..))
        rw [spaced, hgap] at hc
        obtain rfl : d = c := Option.some.inj hc
        exact hblank d (hgap ▸ List.mem_cons_self ..)
    rw [htext, List.map_cons]
    refine .cons hlead (longestToken_of_blank hx hrest) (ih hblank htokens hblanks fun y hy => hgaps y ?_)
    rw [List.dropLast_cons_of_ne_nil (List.ne_nil_of_mem (List.dropLast_subset l hy))]
    exact List.mem_cons_of_mem x hy

/-- Tokens with blanks between them are read as they are, and of any text the tokens are those that are cut off by
taking, after blanks, the longest token at the front each time. -/
theorem scan_takes_longest_tokens :
    (∀ t, IsToken t ↔ IsWord t) ∧
    (∀ lead l, (∀ c ∈ lead, isBlank c = true) → (∀ x ∈ l, IsToken x.1) → (∀ x ∈ l, ∀ c ∈ x.2, isBlank c = true) →
      (∀ x ∈ l.dropLast, x.2 ≠ []) → scan (String.ofList (spaced lead l)) = .ok (l.map Prod.fst)) ∧
    ∀ text ts, scan text = .ok ts ↔ Cuts text.toList ts := by
  refine ⟨fun _ => isToken_iff_isWord, fun lead l hlead htokens hblanks hgaps => ?_, fun _ _ => scan_eq_ok_iff⟩
  rw [scan_eq_ok_iff, String.toList_ofList]
  exact cuts_spaced hlead htokens hblanks hgaps

/-- The sign belongs to the exponent where digits follow it, and is an operator where they do not. -/
theorem scan_longest_of_exponents :
    (IsToken "1.5e-3i" ∧ IsToken "**" ∧ IsToken "x" ∧ scan " 1.5e-3i\t** x" = .ok ["1.5e-3i", "**", "x"]) ∧
    scan "1e+.5" = .ok ["1", "e", "+", ".5"] ∧ Cuts "1e+.5".toList ["1", "e", "+", ".5"] := by
  obtain ⟨-, hspaced, hlongest⟩ := scan_takes_longest_tokens
  have hnumber : IsToken "1.5e-3i" := .inl (by decide +kernel)
  have hpower : IsToken "**" := .inr (.inr (.inl (by decide)))
  have hname : IsToken "x" := .inr (.inl (by decide +kernel))
  have hscan : scan "1e+.5" = .ok ["1", "e", "+", ".5"] := by decide +kernel
  refine ⟨⟨hnumber, hpower, hname, ?_⟩, hscan, (hlongest _ _).1 hscan⟩
  refine hspaced [' '] [("1.5e-3i", ['\t']), ("**", [' ']), ("x", [])] (List.forall_mem_singleton.2 rfl) ?_ ?_
    (by decide)
  · simp only [List.forall_mem_cons]
    exact ⟨hnumber, hpower, hname, by simp⟩
  · simp [isBlank]

end Phasor.Token
