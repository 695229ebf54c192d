import Phasor.Complex.Reading
import Phasor.Datum

/-!
# Bindings of variables

A variable may be bound to a complex number or to plain data: numbers, text that is read as a complex
number when it is looked up, or something that is no number at all.
-/

namespace Phasor

inductive Binding
  | complex (z : Complex)
  /-- Two parts that keep a negative zero. -/
  | pair (re im : Float)
  | datum (d : Datum)
deriving Repr

namespace Binding

def value : Binding → Except Failure Complex
  | complex z => .ok z
  | pair re im => .ok (.ofParts re im)
  | datum (.text s) => (Complex.ofInput s).mapError .eval
  | datum (.bool b) => .ok (.ofParts (if b then 1 else 0) 0)
  | datum (.double x) => .ok (.ofParts x 0)
  | datum (.int n) =>
    match nearestInt? n with
    | some x => .ok (.ofParts x 0)
    | none => .error (.fault .outOfRange)
  | datum d => .error (.eval (.invalidLiteral d.written))

/-- A pair is written with a `j`, its real part left out if that is a positive zero. -/
def pairText (re im : Float) : String :=
  if re == 0 && re.toBits == 0 then Decimal.compact im ++ "j"
  else
    let i := Decimal.compact im
    "(" ++ Decimal.compact re ++ (if i.startsWith "-" then "" else "+") ++ i ++ "j)"

def shown : Binding → String
  | complex z => z.text
  | pair re im => pairText re im
  | datum d => d.shown

/-- The form in which a binding is written inside an environment. -/
def written : Binding → String
  | complex z => "Complex(re=" ++ Decimal.text z.re ++ ", im=" ++ Decimal.text z.im ++ ")"
  | pair re im => pairText re im
  | datum d => d.written

end Binding

/-- The bindings in the order in which they were made; the first of a name counts. -/
abbrev Environment := List (String × Binding)

namespace Environment

def find? : Environment → String → Option Binding
  | [], _ => none
  | (n, b) :: rest, name => if n = name then some b else find? rest name

def binds (env : Environment) (name : String) : Bool := (env.find? name).isSome

/-- Replaces the binding of a name where it stands, or adds one at the end. -/
def bind (env : Environment) (name : String) (b : Binding) : Environment :=
  match env with
  | [] => [(name, b)]
  | (n, c) :: rest => if n = name then (n, b) :: rest else (n, c) :: bind rest name b

theorem find?_bind (env : Environment) (name other : String) (b : Binding) :
    find? (env.bind name b) other = if name = other then some b else find? env other := by
  induction env with
  | nil => simp [bind, find?]
  | cons p rest ih =>
    obtain ⟨n, c⟩ := p
    unfold bind
    split
    · next hn => subst hn; by_cases h : n = other <;> simp [find?, h]
    · next hn =>
      simp only [find?, ih]
      by_cases h : name = other
      · subst h; simp [hn]
      · simp [h]

theorem mem_of_find? {env : Environment} {name : String} {b : Binding} (h : env.find? name = some b) :
    (name, b) ∈ env := by
  induction env with
  | nil => exact absurd h (by simp [find?])
  | cons p rest ih =>
    obtain ⟨n, c⟩ := p
    rw [find?] at h
    split at h
    · next hn =>
      subst hn
      rw [Option.some.inj h]
      exact List.mem_cons_self ..
    · exact List.mem_cons_of_mem _ (ih h)

def value (env : Environment) (name : String) : Except Failure Complex :=
  match env.find? name with
  | some b => b.value
  | none => .error (.eval (.unbound name))

def written (env : Environment) : String :=
  "\x7b" ++ ", ".intercalate (env.map fun (n, b) => Text.quoted n ++ ": " ++ b.written) ++ "\x7d"

end Environment

end Phasor
