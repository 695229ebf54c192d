import Phasor.Failure
import Phasor.Text.Alphanumeric
import Phasor.Text.Blank

/-!
# Tokens of infix text

A token is a number, an identifier, `**` or one of the characters `( ) + - * / , ^`. `next?` takes
the longest token off the front of a text, and `scan` cuts a whole text into tokens, with any blanks
between them.
-/

namespace Phasor.Token

open Text

def isDigit (c : Char) : Bool := c.isDigit

def isIdentStart (c : Char) : Bool := c.isAlpha || c == '_'

def isIdentRest (c : Char) : Bool := c.isAlphanum || c == '_'

/-! ### Numbers -/

/-- A sign in front of an exponent's digits. -/
def exponentSign : List Char → List Char
  | '+' :: _ => ['+']
  | '-' :: _ => ['-']
  | _ => []

/-- Digits with at most one point among or before them; the point has a digit after it. -/
def mantissa (cs : List Char) : List Char :=
  let whole := cs.takeWhile isDigit
  match cs.dropWhile isDigit with
  | '.' :: r => if (r.takeWhile isDigit).isEmpty then whole else whole ++ '.' :: r.takeWhile isDigit
  | _ => whole

/-- `e`, perhaps a sign, and digits; nothing where the digits are missing. -/
def exponent : List Char → List Char
  | 'e' :: r =>
    let sign := exponentSign r
    let digits := (r.drop sign.length).takeWhile isDigit
    if digits.isEmpty then [] else 'e' :: sign ++ digits
  | _ => []

/-- The suffix of imaginary numbers. -/
def unit : List Char → List Char
  | 'i' :: _ => ['i']
  | _ => []

/-- The longest number at the front of the text; empty if there is none. -/
def number (cs : List Char) : List Char :=
  let m := mantissa cs
  if m.isEmpty then []
  else
    let e := exponent (cs.drop m.length)
    let u := unit (cs.drop (m.length + e.length))
    m ++ e ++ u

/-! ### Tokens -/

def identifier : List Char → List Char
  | c :: r => if isIdentStart c then c :: r.takeWhile isIdentRest else []
  | [] => []

def mark : List Char → List Char
  | '*' :: '*' :: _ => ['*', '*']
  | c :: _ => if ['(', ')', '+', '-', '*', '/', ',', '^'].contains c then [c] else []
  | [] => []

/-- The longest token at the front of the text; empty if there is none. The three kinds start with
different characters. -/
def lexeme (cs : List Char) : List Char :=
  if !(number cs).isEmpty then number cs
  else if !(identifier cs).isEmpty then identifier cs
  else mark cs

private theorem drop_of_append {l r cs : List Char} (h : l ++ r = cs) : cs.drop l.length = r := by
  subst h; simp

theorem mantissa_prefix (cs : List Char) : mantissa cs <+: cs := by
  have hsplit : cs.takeWhile isDigit ++ cs.dropWhile isDigit = cs := List.takeWhile_append_dropWhile
  unfold mantissa
  split
  · rename_i r hr
    split
    · exact ⟨_, hsplit⟩
    · refine ⟨r.dropWhile isDigit, ?_⟩
      have hr' : r.takeWhile isDigit ++ r.dropWhile isDigit = r := List.takeWhile_append_dropWhile
      rw [hr] at hsplit
      simp only [List.append_assoc, List.cons_append, hr', hsplit]
  · exact ⟨_, hsplit⟩

theorem exponentSign_prefix (cs : List Char) : exponentSign cs <+: cs := by
  unfold exponentSign
  split <;> simp

theorem exponent_prefix (cs : List Char) : exponent cs <+: cs := by
  unfold exponent
  split
  · rename_i r
    simp only
    split
    · exact List.nil_prefix
    · obtain ⟨t, ht⟩ := exponentSign_prefix r
      have hd : r.drop (exponentSign r).length = t := drop_of_append ht
      have ht' : t.takeWhile isDigit ++ t.dropWhile isDigit = t := List.takeWhile_append_dropWhile
      refine ⟨t.dropWhile isDigit, ?_⟩
      rw [hd]
      simp only [List.cons_append, List.append_assoc, ht', ht]
  · exact List.nil_prefix

theorem unit_prefix (cs : List Char) : unit cs <+: cs := by
  unfold unit
  split <;> simp

theorem number_prefix (cs : List Char) : number cs <+: cs := by
  unfold number
  simp only
  split
  · exact List.nil_prefix
  · obtain ⟨r, hr⟩ := mantissa_prefix cs
    have h₁ : cs.drop (mantissa cs).length = r := drop_of_append hr
    obtain ⟨s, hs⟩ := exponent_prefix r
    have h₂ : cs.drop ((mantissa cs).length + (exponent r).length) = s := by
      rw [← List.drop_drop, h₁]
      exact drop_of_append hs
    obtain ⟨t, ht⟩ := unit_prefix s
    refine ⟨t, ?_⟩
    rw [h₁, h₂, List.append_assoc, List.append_assoc, ht, hs, hr]

theorem identifier_prefix (cs : List Char) : identifier cs <+: cs := by
  unfold identifier
  split
  · split
    · exact List.cons_prefix_cons.2 ⟨rfl, List.takeWhile_prefix _⟩
    · exact List.nil_prefix
  · exact List.nil_prefix

theorem mark_prefix (cs : List Char) : mark cs <+: cs := by
  unfold mark
  split
  · simp
  · split <;> simp
  · simp

theorem lexeme_prefix (cs : List Char) : lexeme cs <+: cs := by
  unfold lexeme
  split
  · exact number_prefix cs
  · split
    · exact identifier_prefix cs
    · exact mark_prefix cs

/-- Tokens of the text that ends `total` characters after its start, from the part `cs` on. -/
def scanFrom (total : Nat) (cs : List Char) : Except ParseError (List String) :=
  match _hs : skipBlanks cs with
  | [] => .ok []
  | c :: r =>
    if lexeme (c :: r) = [] then .error (.unknownCharacter (total - (c :: r).length) c)
    else do
      let ts ← scanFrom total ((c :: r).drop (lexeme (c :: r)).length)
      return String.ofList (lexeme (c :: r)) :: ts
termination_by cs.length
decreasing_by
  rename_i hl
  have h₁ := length_skipBlanks_le cs
  have h₂ := List.length_pos_iff.2 hl
  rw [_hs] at h₁
  simp only [List.length_drop, List.length_cons] at h₁ ⊢
  omega

def scan (text : String) : Except ParseError (List String) :=
  scanFrom text.toList.length text.toList

/-! ### Classes of tokens -/

/-- Used of any string, also of one no text is cut into. -/
def isNumber (t : String) : Bool := !t.toList.isEmpty && number t.toList == t.toList

def isIdentifier (t : String) : Bool := !t.toList.isEmpty && identifier t.toList == t.toList

/-- Made of characters that no number, name or blank contains. -/
def looksLikeOperator (t : String) : Bool :=
  !t.toList.isEmpty && t.toList.all fun c => !(isAlphanumeric c || c == '_' || isBlank c)

end Phasor.Token
