import Mathlib.Data.List.TakeWhile
import Phasor.Proofs.Tokens

/-!
# The token at the front of a text

`IsToken` are the strings a text is cut into. The lexeme at the front of a text is a token by itself
(`isToken_lexeme`): cut out of the text, a number is one still, by its grammar `NumberText`. There is a lexeme
exactly where the first character `Starts` a token, and then all of its characters may stand where they do
(`Allowed`).
-/

namespace Phasor.Token

open Text

/-- Strings that infix text consists of, blanks apart. -/
def IsToken (t : String) : Prop :=
  isNumber t = true ∨ isIdentifier t = true ∨ isBinarySymbol t = true ∨ IsSeparator t

/-! ### Characters in a text -/

/-- The characters that are tokens by themselves. -/
def isMarkChar (c : Char) : Bool := ['(', ')', '+', '-', '*', '/', ',', '^'].contains c

/-- Letters, digits, `_` and marks begin a token, and a point does in front of a digit. -/
def Starts (c : Char) (next : Option Char) : Prop :=
  isIdentRest c = true ∨ isMarkChar c = true ∨ (c = '.' ∧ ∃ d ∈ next, isDigit d = true)

instance (c : Char) (next : Option Char) : Decidable (Starts c next) :=
  -- the next character is looked at, where a search through all characters would do as well
  have : Decidable (∃ d ∈ next, isDigit d = true) := Option.decidableExistsMem next
  inferInstanceAs (Decidable (_ ∨ _ ∨ (_ ∧ ∃ d ∈ next, isDigit d = true)))

/-- The character may stand in a text where `next` comes after it. -/
def Fits (c : Char) (next : Option Char) : Prop := isBlank c = true ∨ Starts c next

instance (c : Char) (next : Option Char) : Decidable (Fits c next) :=
  inferInstanceAs (Decidable (_ ∨ Starts c next))

/-- Every character of `l` fits where `r` comes after them. -/
def Allowed : List Char → List Char → Prop
  | [], _ => True
  | c :: l, r => Fits c (l ++ r).head? ∧ Allowed l r

theorem allowed_append {l m r : List Char} : Allowed (l ++ m) r ↔ Allowed l (m ++ r) ∧ Allowed m r := by
  induction l with
  | nil => simp [Allowed]
  | cons c l ih => rw [List.cons_append, Allowed, Allowed, ih, List.append_assoc, and_assoc]

theorem allowed_of_forall {l : List Char} (h : ∀ c ∈ l, ∀ next, Fits c next) (r : List Char) : Allowed l r := by
  induction l with
  | nil => trivial
  | cons c l ih =>
    obtain ⟨hc, hl⟩ := List.forall_mem_cons.1 h
    exact ⟨hc _, ih hl⟩

theorem fits_of_isIdentRest {c : Char} (h : isIdentRest c = true) (next : Option Char) : Fits c next :=
  .inr (.inl h)

theorem isBlank_of_isIdentRest {c : Char} (h : isIdentRest c = true) : isBlank c = false := by
  have := toNat_of_isIdentRest h
  unfold isBlank
  grind

theorem isBlank_of_isMarkChar {c : Char} (h : isMarkChar c = true) : isBlank c = false := by
  simp only [isMarkChar, List.contains_iff_mem, List.mem_cons, List.not_mem_nil, or_false] at h
  rcases h with rfl | rfl | rfl | rfl | rfl | rfl | rfl | rfl <;> rfl

theorem isIdentRest_iff {c : Char} : isIdentRest c = true ↔ isIdentStart c = true ∨ isDigit c = true := by
  show ((c.isAlpha || c.isDigit) || c == '_') = true ↔ (c.isAlpha || c == '_') = true ∨ c.isDigit = true
  simp only [Bool.or_eq_true]
  exact or_right_comm

/-! ### Numbers -/

/-- Digits, or digits with a point in front of the last ones. -/
theorem mantissa_cases (cs : List Char) :
    (mantissa cs = cs.takeWhile isDigit) ∨
    ∃ ds, (∀ c ∈ ds, isDigit c = true) ∧ ds ≠ [] ∧ mantissa cs = cs.takeWhile isDigit ++ '.' :: ds := by
  unfold mantissa
  split
  · rename_i r _
    dsimp only
    split
    · exact .inl rfl
    · rename_i hds
      exact .inr ⟨r.takeWhile isDigit, fun c hc => List.mem_takeWhile_imp hc, by simpa using hds, rfl⟩
  · exact .inl rfl

/-- Behind a point the digits go on as far as they can. -/
theorem mantissa_point_append {ws ds : List Char} (hws : ∀ c ∈ ws, isDigit c = true)
    (hds : ∀ c ∈ ds, isDigit c = true) (hne : ds ≠ []) (x : List Char) :
    mantissa (ws ++ '.' :: (ds ++ x)) = ws ++ '.' :: (ds ++ x.takeWhile isDigit) := by
  obtain ⟨htake, hdrop⟩ := span_append (x := '.' :: (ds ++ x)) hws (by simp; decide)
  have hdigits : (ds ++ x).takeWhile isDigit = ds ++ x.takeWhile isDigit := List.takeWhile_append_of_pos hds
  rw [mantissa, htake, hdrop]
  simp only [hdigits, List.isEmpty_iff, List.append_eq_nil_iff, hne, false_and, ↓reduceIte]

theorem takeWhile_isDigit_eq_nil {x : List Char} (hx : ∀ c ∈ x.head?, isDigit c = false) : x.takeWhile isDigit = [] :=
  (span_append (l := []) (by simp) hx).1

/-- What comes after a mantissa does not belong to it. -/
theorem mantissa_mantissa_append (cs : List Char) {x : List Char}
    (hx : ∀ c ∈ x.head?, isDigit c = false ∧ c ≠ '.') : mantissa (mantissa cs ++ x) = mantissa cs := by
  have hwhole : ∀ c ∈ cs.takeWhile isDigit, isDigit c = true := fun c hc => List.mem_takeWhile_imp hc
  rcases mantissa_cases cs with h | ⟨ds, hds, hne, h⟩
  · obtain ⟨htake, hdrop⟩ := span_append hwhole fun c hc => (hx c hc).1
    rw [h, mantissa, htake, hdrop]
    split
    · exact absurd rfl (hx '.' rfl).2
    · rfl
  · rw [h, List.append_assoc, List.cons_append, mantissa_point_append hwhole hds hne,
      takeWhile_isDigit_eq_nil fun c hc => (hx c hc).1, List.append_nil]

theorem exponentSign_append {sign x : List Char} (hs : sign = [] ∨ sign = ['+'] ∨ sign = ['-'])
    (hx : ∀ c ∈ x.head?, c ≠ '+' ∧ c ≠ '-') : exponentSign (sign ++ x) = sign := by
  rcases hs with rfl | rfl | rfl
  · rw [List.nil_append]
    unfold exponentSign
    split
    · exact absurd rfl (hx '+' rfl).1
    · exact absurd rfl (hx '-' rfl).2
    · rfl
  · rfl
  · rfl

theorem exponentSign_cases (cs : List Char) :
    exponentSign cs = [] ∨ exponentSign cs = ['+'] ∨ exponentSign cs = ['-'] := by
  unfold exponentSign
  split <;> simp

/-- Nothing, or an `e`, a sign that may be missing, and digits. -/
theorem exponent_cases (cs : List Char) : exponent cs = [] ∨
    ∃ sign ds, (sign = [] ∨ sign = ['+'] ∨ sign = ['-']) ∧ (∀ c ∈ ds, isDigit c = true) ∧ ds ≠ [] ∧
      exponent cs = 'e' :: (sign ++ ds) := by
  unfold exponent
  split
  · rename_i r
    dsimp only
    split
    · exact .inl rfl
    · rename_i hds
      exact .inr ⟨exponentSign r, _, exponentSign_cases r, fun c hc => List.mem_takeWhile_imp hc,
        by simpa using hds, rfl⟩
  · exact .inl rfl

/-- The digits of an exponent go on as far as they can. -/
theorem exponent_append {sign ds : List Char} (hsign : sign = [] ∨ sign = ['+'] ∨ sign = ['-'])
    (hds : ∀ c ∈ ds, isDigit c = true) (hne : ds ≠ []) (x : List Char) :
    exponent ('e' :: (sign ++ (ds ++ x))) = 'e' :: (sign ++ (ds ++ x.takeWhile isDigit)) := by
  have hfirst : ∀ c ∈ (ds ++ x).head?, c ≠ '+' ∧ c ≠ '-' := by
    intro c hc
    obtain ⟨d, ds', rfl⟩ := List.exists_cons_of_ne_nil hne
    obtain rfl : d = c := Option.some.inj hc
    have hd := hds d (List.mem_cons_self ..)
    constructor <;> rintro rfl <;> exact absurd hd (by decide)
  have hdigits : (ds ++ x).takeWhile isDigit = ds ++ x.takeWhile isDigit := List.takeWhile_append_of_pos hds
  rw [exponent, exponentSign_append hsign hfirst, List.drop_left, hdigits, if_neg (by simp [hne])]
  rfl

theorem exponent_exponent_append (cs : List Char) {x : List Char}
    (hx : ∀ c ∈ x.head?, isDigit c = false ∧ c ≠ 'e') : exponent (exponent cs ++ x) = exponent cs := by
  rcases exponent_cases cs with h | ⟨sign, ds, hsign, hds, hne, h⟩
  · rw [h, List.nil_append]
    unfold exponent
    split
    · exact absurd rfl (hx 'e' rfl).2
    · rfl
  · rw [h, List.cons_append, List.append_assoc, exponent_append hsign hds hne,
      takeWhile_isDigit_eq_nil fun c hc => (hx c hc).1, List.append_nil]

theorem unit_cases (cs : List Char) : unit cs = [] ∨ unit cs = ['i'] := by
  unfold unit
  split <;> simp

theorem head?_exponent_append_unit (cs ds : List Char) :
    ∀ c ∈ (exponent cs ++ unit ds).head?, c = 'e' ∨ c = 'i' := by
  intro c hc
  rcases exponent_cases cs with he | ⟨sign, es, -, -, -, he⟩
  · rw [he, List.nil_append] at hc
    rcases unit_cases ds with hu | hu
    · rw [hu] at hc
      exact absurd hc (by simp)
    · rw [hu] at hc
      exact .inr (Option.some.inj hc).symm
  · rw [he] at hc
    exact .inl (Option.some.inj hc).symm

/-- The three parts of a number. -/
theorem number_eq (cs : List Char) : number cs = [] ∨ (mantissa cs ≠ [] ∧
    ∃ ds es, number cs = mantissa cs ++ (exponent ds ++ unit es)) := by
  unfold number
  dsimp only
  split
  · exact .inl rfl
  · rename_i hm
    exact .inr ⟨by simpa using hm, _, _, List.append_assoc ..⟩

/-- Where the mantissa ends, an exponent and a suffix may follow. -/
theorem number_append_eq {m x : List Char} (hm : mantissa (m ++ x) = m) (hne : m ≠ []) :
    number (m ++ x) = m ++ (exponent x ++ unit (x.drop (exponent x).length)) := by
  rw [number, hm]
  dsimp only
  rw [if_neg (by simpa using hne), ← List.drop_drop, List.drop_left, List.append_assoc]

/-! ### The grammar of numbers -/

/-- The exponent of a number, which may be missing. -/
inductive ExponentText : List Char → Prop
  | none : ExponentText []
  | some {sign ds : List Char} (hsign : sign = [] ∨ sign = ['+'] ∨ sign = ['-'])
    (hds : ∀ c ∈ ds, isDigit c = true) (hne : ds ≠ []) : ExponentText ('e' :: (sign ++ ds))

/-- Digits, perhaps with a point in front of the last ones, then perhaps an exponent and perhaps the suffix. -/
inductive NumberText : List Char → Prop
  | mk {ws point ds es us : List Char} (hws : ∀ c ∈ ws, isDigit c = true) (hpoint : point = [] ∨ point = ['.'])
    (hds : ∀ c ∈ ds, isDigit c = true) (hne : ds ≠ []) (hes : ExponentText es) (hus : us = [] ∨ us = ['i']) :
    NumberText (ws ++ (point ++ ds) ++ (es ++ us))

theorem mantissa_eq_self {ws point ds : List Char} (hws : ∀ c ∈ ws, isDigit c = true)
    (hpoint : point = [] ∨ point = ['.']) (hds : ∀ c ∈ ds, isDigit c = true) (hne : ds ≠ []) :
    mantissa (ws ++ (point ++ ds)) = ws ++ (point ++ ds) := by
  rcases hpoint with rfl | rfl
  · rw [List.nil_append]
    obtain ⟨htake, hdrop⟩ := span_append (x := []) (List.forall_mem_append.2 ⟨hws, hds⟩) (by simp)
    rw [List.append_nil] at htake hdrop
    rw [mantissa, htake, hdrop]
  · have hpoint := mantissa_point_append hws hds hne []
    rwa [List.takeWhile_nil, List.append_nil] at hpoint

/-- An exponent or the suffix ends the mantissa. -/
theorem mantissa_append_suffix {ws point ds x : List Char} (hws : ∀ c ∈ ws, isDigit c = true)
    (hpoint : point = [] ∨ point = ['.']) (hds : ∀ c ∈ ds, isDigit c = true) (hne : ds ≠ [])
    (hx : ∀ c ∈ x.head?, c = 'e' ∨ c = 'i') : mantissa (ws ++ (point ++ ds) ++ x) = ws ++ (point ++ ds) := by
  have hself := mantissa_eq_self hws hpoint hds hne
  have happend : mantissa (mantissa (ws ++ (point ++ ds)) ++ x) = mantissa (ws ++ (point ++ ds)) := by
    refine mantissa_mantissa_append _ fun c hc => ?_
    rcases hx c hc with rfl | rfl <;> decide
  rwa [hself] at happend

theorem exponent_eq_self {es : List Char} (h : ExponentText es) : exponent es = es := by
  cases h with
  | none => rfl
  | some hsign hds hne =>
    have hexponent := exponent_append hsign hds hne []
    rwa [List.takeWhile_nil, List.append_nil] at hexponent

theorem head?_exponentText {es us : List Char} (hes : ExponentText es) (hus : us = [] ∨ us = ['i']) :
    ∀ c ∈ (es ++ us).head?, c = 'e' ∨ c = 'i' := by
  rw [← exponent_eq_self hes]
  rcases hus with rfl | rfl
  · exact head?_exponent_append_unit es []
  · exact head?_exponent_append_unit es ['i']

theorem number_eq_self {cs : List Char} (h : NumberText cs) : number cs = cs := by
  obtain ⟨hws, hpoint, hds, hne, hes, hus⟩ := h
  rename_i ws point ds es us
  have hmantissa := mantissa_append_suffix hws hpoint hds hne (head?_exponentText hes hus)
  have hexponent : exponent (es ++ us) = es := by
    have happend := exponent_exponent_append es (x := us) fun c hc => by
      rcases hus with rfl | rfl
      · exact absurd hc (by simp)
      · obtain rfl := Option.some.inj hc
        decide
    rwa [exponent_eq_self hes] at happend
  have hunit : unit us = us := by rcases hus with rfl | rfl <;> rfl
  rw [number_append_eq hmantissa (by simp [hne]), hexponent, List.drop_left, hunit]

theorem numberText_number {cs : List Char} (h : number cs ≠ []) : NumberText (number cs) := by
  rcases number_eq cs with hnil | ⟨hm, ds, es, hparts⟩
  · exact absurd hnil h
  have hexponent : ExponentText (exponent ds) := by
    rcases exponent_cases ds with he | ⟨sign, fs, hsign, hfs, hne, he⟩
    · exact he ▸ .none
    · exact he ▸ .some hsign hfs hne
  have hwhole : ∀ c ∈ cs.takeWhile isDigit, isDigit c = true := fun c hc => List.mem_takeWhile_imp hc
  rw [hparts]
  rcases mantissa_cases cs with hdigits | ⟨fs, hfs, hne, hpoint⟩
  · rw [hdigits] at hm ⊢
    have htext : NumberText ([] ++ ([] ++ cs.takeWhile isDigit) ++ (exponent ds ++ unit es)) :=
      .mk (by simp) (.inl rfl) hwhole hm hexponent (unit_cases es)
    exact htext
  · rw [hpoint]
    have htext : NumberText (cs.takeWhile isDigit ++ (['.'] ++ fs) ++ (exponent ds ++ unit es)) :=
      .mk hwhole (.inr rfl) hfs hne hexponent (unit_cases es)
    exact htext

theorem numberText_ne_nil {cs : List Char} (h : NumberText cs) : cs ≠ [] := by
  obtain ⟨-, -, -, hne, -, -⟩ := h
  simp [hne]

theorem number_number (cs : List Char) : number (number cs) = number cs := by
  by_cases h : number cs = []
  · rw [h]
    rfl
  · exact number_eq_self (numberText_number h)

/-! ### Where a number begins -/

theorem number_eq_nil_iff {c : Char} {r : List Char} :
    number (c :: r) = [] ↔ isDigit c = false ∧ ¬ (c = '.' ∧ ∃ d ∈ r.head?, isDigit d = true) := by
  have hnil : number (c :: r) = [] ↔ mantissa (c :: r) = [] := by
    constructor
    · intro h
      rcases number_eq (c :: r) with hn | ⟨-, ds, es, hn⟩
      · unfold number at hn
        dsimp only at hn
        split at hn
        · rename_i hm; simpa using hm
        · exact (List.append_eq_nil_iff.1 (List.append_eq_nil_iff.1 hn).1).1
      · rw [h] at hn
        exact (List.append_eq_nil_iff.1 hn.symm).1
    · intro h
      rw [number, h]
      rfl
  rw [hnil]
  by_cases hd : isDigit c = true
  · have hne : mantissa (c :: r) ≠ [] := by
      have hcons : (c :: r).takeWhile isDigit = c :: r.takeWhile isDigit := List.takeWhile_cons_of_pos hd
      rcases mantissa_cases (c :: r) with h | ⟨ds, -, -, h⟩ <;> rw [h, hcons] <;> simp
    simp [hd, hne]
  · have htake : (c :: r).takeWhile isDigit = [] := List.takeWhile_cons_of_neg hd
    have hdrop : (c :: r).dropWhile isDigit = c :: r := List.dropWhile_cons_of_neg hd
    rw [mantissa, htake, hdrop]
    by_cases hc : c = '.'
    · subst hc
      cases r with
      | nil => simp [isDigit]
      | cons d r => by_cases hd' : isDigit d = true <;> simp [hd', hd]
    · have : isDigit c = false := Bool.eq_false_iff.2 hd
      simp only [hc, this]
      split
      · rename_i h; exact absurd (List.cons.inj h).1 hc
      · simp

theorem allowed_number (cs r : List Char) : Allowed (number cs) r := by
  have hdigits : ∀ ds : List Char, (∀ c ∈ ds, isDigit c = true) → ∀ r, Allowed ds r := fun ds hds =>
    allowed_of_forall fun c hc => fits_of_isIdentRest (isIdentRest_of_isDigit (hds c hc))
  have hwhole : ∀ r, Allowed (cs.takeWhile isDigit) r := hdigits _ fun c hc => List.mem_takeWhile_imp hc
  rcases number_eq cs with h | ⟨-, ds, es, h⟩
  · rw [h]
    trivial
  rw [h, allowed_append, allowed_append]
  refine ⟨?_, ?_, ?_⟩
  · rcases mantissa_cases cs with hm | ⟨fs, hfs, hne, hm⟩
    · rw [hm]
      exact hwhole _
    · rw [hm, allowed_append]
      obtain ⟨d, fs', rfl⟩ := List.exists_cons_of_ne_nil hne
      exact ⟨hwhole _, .inr (.inr (.inr ⟨rfl, d, rfl, hfs d (List.mem_cons_self ..)⟩)), hdigits _ hfs _⟩
  · refine allowed_of_forall (fun c hc next => ?_) _
    rcases mem_exponent hc with hc | rfl | rfl | rfl
    · exact fits_of_isIdentRest (isIdentRest_of_isDigit hc) next
    · exact fits_of_isIdentRest rfl next
    · exact .inr (.inr (.inl rfl))
    · exact .inr (.inr (.inl rfl))
  · refine allowed_of_forall (fun c hc next => ?_) _
    obtain rfl := mem_unit hc
    exact fits_of_isIdentRest rfl next

/-! ### Identifiers and marks -/

theorem identifier_eq_nil_iff {c : Char} {r : List Char} : identifier (c :: r) = [] ↔ isIdentStart c = false := by
  by_cases hc : isIdentStart c = true <;> simp [identifier, hc]

theorem identifier_identifier (cs : List Char) : identifier (identifier cs) = identifier cs := by
  cases cs with
  | nil => rfl
  | cons c r =>
    by_cases hc : isIdentStart c = true
    · rw [show identifier (c :: r) = c :: r.takeWhile isIdentRest from if_pos hc]
      rw [show identifier (c :: r.takeWhile isIdentRest) = c :: (r.takeWhile isIdentRest).takeWhile isIdentRest
        from if_pos hc, List.takeWhile_takeWhile]
      simp
    · rw [show identifier (c :: r) = [] from if_neg hc]
      rfl

theorem isIdentRest_of_mem_identifier {cs : List Char} {c : Char} (h : c ∈ identifier cs) :
    isIdentRest c = true := by
  unfold identifier at h
  split at h
  · split at h
    · rcases List.mem_cons.1 h with rfl | h
      · exact isIdentRest_of_isIdentStart ‹_›
      · exact List.mem_takeWhile_imp h
    · exact absurd h List.not_mem_nil
  · exact absurd h List.not_mem_nil

theorem mark_cases (c : Char) (r : List Char) :
    (isMarkChar c = true ∧ (mark (c :: r) = [c] ∨ mark (c :: r) = ['*', '*'])) ∨
    (isMarkChar c = false ∧ mark (c :: r) = []) := by
  unfold mark
  split
  · rename_i h
    obtain ⟨rfl, -⟩ := List.cons.inj h
    exact .inl ⟨rfl, .inr rfl⟩
  · rename_i h
    obtain ⟨rfl, -⟩ := List.cons.inj h
    by_cases hc : isMarkChar c = true
    · exact .inl ⟨hc, .inl (if_pos hc)⟩
    · exact .inr ⟨Bool.eq_false_iff.2 hc, if_neg hc⟩
  · rename_i h
    exact absurd h (by simp)

theorem isToken_of_isMarkChar {c : Char} (h : isMarkChar c = true) : IsToken (String.ofList [c]) := by
  simp only [isMarkChar, List.contains_iff_mem, List.mem_cons, List.not_mem_nil, or_false] at h
  rcases h with rfl | rfl | rfl | rfl | rfl | rfl | rfl | rfl
  · exact .inr (.inr (.inr (.inl rfl)))
  · exact .inr (.inr (.inr (.inr (.inl rfl))))
  · exact .inr (.inr (.inl rfl))
  · exact .inr (.inr (.inl rfl))
  · exact .inr (.inr (.inl rfl))
  · exact .inr (.inr (.inl rfl))
  · exact .inr (.inr (.inr (.inr (.inr rfl))))
  · exact .inr (.inr (.inl rfl))

/-! ### Lexemes -/

theorem lexeme_cases (cs : List Char) :
    (number cs ≠ [] ∧ lexeme cs = number cs) ∨
    (number cs = [] ∧ identifier cs ≠ [] ∧ lexeme cs = identifier cs) ∨
    (number cs = [] ∧ identifier cs = [] ∧ lexeme cs = mark cs) := by
  by_cases hn : number cs = []
  · by_cases hi : identifier cs = []
    · exact .inr (.inr ⟨hn, hi, by simp [lexeme, hn, hi]⟩)
    · exact .inr (.inl ⟨hn, hi, by simp [lexeme, hn, hi]⟩)
  · exact .inl ⟨hn, by simp [lexeme, hn]⟩

theorem lexeme_ne_nil_iff {c : Char} {r : List Char} : lexeme (c :: r) ≠ [] ↔ Starts c r.head? := by
  unfold Starts
  rw [isIdentRest_iff]
  rcases lexeme_cases (c :: r) with ⟨hn, h⟩ | ⟨hn, hi, h⟩ | ⟨hn, hi, h⟩
  · rw [h]
    refine iff_of_true hn ?_
    rw [Ne, number_eq_nil_iff, not_and_or, not_not, Bool.not_eq_false] at hn
    rcases hn with hn | hn
    · exact .inl (.inr hn)
    · exact .inr (.inr hn)
  · rw [h]
    refine iff_of_true hi (.inl (.inl ?_))
    rwa [Ne, identifier_eq_nil_iff, Bool.not_eq_false] at hi
  · obtain ⟨hd, hp⟩ := number_eq_nil_iff.1 hn
    have hs := identifier_eq_nil_iff.1 hi
    rw [h]
    rcases mark_cases c r with ⟨hm, hmark⟩ | ⟨hm, hmark⟩
    · refine iff_of_true ?_ (.inr (.inl hm))
      rcases hmark with hmark | hmark <;> rw [hmark] <;> simp
    · refine iff_of_false (not_not.2 hmark) ?_
      rintro ((hc | hc) | hc | hc)
      · rw [hs] at hc; exact absurd hc Bool.false_ne_true
      · rw [hd] at hc; exact absurd hc Bool.false_ne_true
      · rw [hm] at hc; exact absurd hc Bool.false_ne_true
      · exact hp hc

theorem allowed_lexeme (cs r : List Char) : Allowed (lexeme cs) r := by
  rcases lexeme_cases cs with ⟨-, h⟩ | ⟨-, -, h⟩ | ⟨-, -, h⟩
  · rw [h]
    exact allowed_number cs r
  · rw [h]
    exact allowed_of_forall (fun c hc => fits_of_isIdentRest (isIdentRest_of_mem_identifier hc)) r
  · rw [h]
    cases cs with
    | nil => trivial
    | cons c s =>
      rcases mark_cases c s with ⟨hm, hmark | hmark⟩ | ⟨-, hmark⟩ <;> rw [hmark]
      · exact ⟨.inr (.inr (.inl hm)), trivial⟩
      · exact ⟨.inr (.inr (.inl rfl)), .inr (.inr (.inl rfl)), trivial⟩
      · trivial

theorem isToken_lexeme {cs : List Char} (h : lexeme cs ≠ []) : IsToken (String.ofList (lexeme cs)) := by
  rcases lexeme_cases cs with ⟨hn, heq⟩ | ⟨-, hi, heq⟩ | ⟨-, -, heq⟩
  · rw [heq]
    exact .inl (isNumber_iff.2 (by rw [String.toList_ofList]; exact ⟨hn, number_number cs⟩))
  · rw [heq]
    exact .inr (.inl (isIdentifier_iff.2 (by rw [String.toList_ofList]; exact ⟨hi, identifier_identifier cs⟩)))
  · rw [heq] at h ⊢
    cases cs with
    | nil => exact absurd rfl h
    | cons c s =>
      rcases mark_cases c s with ⟨hm, hmark | hmark⟩ | ⟨-, hmark⟩
      · rw [hmark]
        exact isToken_of_isMarkChar hm
      · rw [hmark]
        exact .inr (.inr (.inl rfl))
      · exact absurd hmark h

end Phasor.Token
