import Mathlib.Data.List.Basic
import Phasor.Proofs.Nodes

/-!
# The grammar of infix text

`Derives` is the usual layered grammar over tokens, with one kind of phrase for each strength of
binding and with the tree of each phrase. Parentheses leave no node.
-/

namespace Phasor

/-- The node is as it should be, but a function `f` may have `k` arguments if `takes f k`. -/
def Expr.Fits (takes : String → Nat → Prop) : Expr → Prop
  | .call f args => Token.isIdentifier f = true ∧ takes f args.length
  | e => e.Proper

theorem Expr.Fits.proper {e : Expr} (h : e.Fits fun f k => k = functionArity f) : e.Proper := by
  cases e with
  | lit t => exact h
  | var n => exact h
  | unary op e => exact h
  | binary op l r => exact h
  | call f args => exact h

namespace Grammar

/-- The kinds of phrases, from the loosest to the tightest. -/
inductive Phrase
  | sum
  | product
  | power
  | sign
  | atom

/-- The tokens are a phrase with that tree. A function `f` may have `k` arguments if `takes f k`. -/
inductive Derives (takes : String → Nat → Prop) : Phrase → List String → Expr → Prop
  | sum {ts us : List String} {l r : Expr} {op : String} (hop : op = "+" ∨ op = "-")
    (hl : Derives takes .sum ts l) (hr : Derives takes .product us r) :
    Derives takes .sum (ts ++ op :: us) (.binary op l r)
  | ofProduct {ts : List String} {e : Expr} (h : Derives takes .product ts e) : Derives takes .sum ts e
  | product {ts us : List String} {l r : Expr} {op : String} (hop : op = "*" ∨ op = "/")
    (hl : Derives takes .product ts l) (hr : Derives takes .power us r) :
    Derives takes .product (ts ++ op :: us) (.binary op l r)
  | ofPower {ts : List String} {e : Expr} (h : Derives takes .power ts e) : Derives takes .product ts e
  | power {ts us : List String} {l r : Expr} {op : String} (hop : op = "**" ∨ op = "^")
    (hl : Derives takes .sign ts l) (hr : Derives takes .power us r) :
    Derives takes .power (ts ++ op :: us) (.binary op l r)
  | ofSign {ts : List String} {e : Expr} (h : Derives takes .sign ts e) : Derives takes .power ts e
  | sign {ts : List String} {e : Expr} (h : Derives takes .sign ts e) :
    Derives takes .sign ("-" :: ts) (.unary "-" e)
  | ofAtom {ts : List String} {e : Expr} (h : Derives takes .atom ts e) : Derives takes .sign ts e
  | number {t : String} (h : Token.isNumber t = true) : Derives takes .atom [t] (.lit t)
  | name {t : String} (h : Token.isIdentifier t = true) : Derives takes .atom [t] (.var t)
  | group {ts : List String} {e : Expr} (h : Derives takes .sum ts e) :
    Derives takes .atom ("(" :: ts ++ [")"]) e
  | call {f : String} {args : List (List String × Expr)} (hf : Token.isIdentifier f = true) (hne : args ≠ [])
    (hk : takes f args.length) (h : ∀ a ∈ args, Derives takes .sum a.1 a.2) :
    Derives takes .atom (f :: "(" :: [","].intercalate (args.map Prod.fst) ++ [")"])
      (.call f (args.map Prod.snd))

/-- A whole text: a sum in which every function has as many arguments as it takes. -/
def Sentence (ts : List String) (e : Expr) : Prop := Derives (fun f k => k = functionArity f) .sum ts e

theorem Derives.sumOfAtom {takes : String → Nat → Prop} {ts : List String} {e : Expr}
    (h : Derives takes .atom ts e) : Derives takes .sum ts e :=
  .ofProduct (.ofPower (.ofSign (.ofAtom h)))

theorem Derives.callOfTwo {takes : String → Nat → Prop} {f : String} {ts us : List String} {a b : Expr}
    (hf : Token.isIdentifier f = true) (hk : takes f 2) (ha : Derives takes .sum ts a) (hb : Derives takes .sum us b) :
    Derives takes .atom (f :: "(" :: (ts ++ "," :: us) ++ [")"]) (.call f [a, b]) := by
  have hargs : ∀ c ∈ [(ts, a), (us, b)], Derives takes .sum c.1 c.2 :=
    List.forall_mem_cons.2 ⟨ha, List.forall_mem_singleton.2 hb⟩
  have htokens : [","].intercalate [ts, us] = ts ++ "," :: us := by simp [List.intercalate]
  rw [← htokens]
  exact .call hf (List.cons_ne_nil _ _) hk hargs

theorem Derives.fits {takes : String → Nat → Prop} {p : Phrase} {ts : List String} {e : Expr}
    (h : Derives takes p ts e) : e.Everywhere (Expr.Fits takes) := by
  induction h with
  | sum hop _ _ ihl ihr | product hop _ _ ihl ihr | power hop _ _ ihl ihr =>
    refine Expr.everywhere_iff.2 ⟨?_, List.forall_mem_cons.2 ⟨ihl, List.forall_mem_singleton.2 ihr⟩⟩
    rcases hop with rfl | rfl <;> exact rfl
  | ofProduct _ ih | ofPower _ ih | ofSign _ ih | ofAtom _ ih | group _ ih => exact ih
  | sign _ ih => exact Expr.everywhere_iff.2 ⟨rfl, List.forall_mem_singleton.2 ih⟩
  | number ht => exact Expr.everywhere_iff.2 ⟨ht, by simp [Expr.children]⟩
  | name ht => exact Expr.everywhere_iff.2 ⟨ht, by simp [Expr.children]⟩
  | call hf _ hk _ ih =>
    refine Expr.everywhere_iff.2 ⟨⟨hf, by rw [List.length_map]; exact hk⟩, fun c hc => ?_⟩
    obtain ⟨a, ha, rfl⟩ := List.mem_map.1 hc
    exact ih a ha

theorem Derives.wellFormed {p : Phrase} {ts : List String} {e : Expr}
    (h : Derives (fun f k => k = functionArity f) p ts e) : e.WellFormed :=
  h.fits.mono fun _ hn => hn.proper

end Grammar

end Phasor
