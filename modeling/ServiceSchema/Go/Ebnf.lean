/-
  ServiceSchema.Go.Ebnf — grammars in extended Backus–Naur form.

  The specification of Go is written in this form: over characters where it says what
  tokens look like, and over tokens where it says what a file is. An expression stands for
  the words that it matches.
-/

namespace ServiceSchema.Go

/-- An expression over terminals and named rules. -/
inductive Ebnf (T R : Type) where
  | term (t : T)
  | rule (r : R)
  | seq (x y : Ebnf T R)
  | alt (x y : Ebnf T R)
  /-- `[ x ]` -/
  | opt (x : Ebnf T R)
  /-- `{ x }` -/
  | many (x : Ebnf T R)
  deriving DecidableEq, Repr

namespace Ebnf

variable {T R α : Type}

instance : Append (Ebnf T R) := ⟨seq⟩

instance : OrOp (Ebnf T R) := ⟨alt⟩

/-- One or more, with something between neighbours. -/
def list (x separator : Ebnf T R) : Ebnf T R := x ++ many (separator ++ x)

/-- One of several terminals. -/
def oneOf (t : T) (ts : List T) : Ebnf T R := ts.foldl (fun x t => x ||| term t) (term t)

/-- An expression matches a word, if `fits` tells the terminals and `rules` the meaning of
    names. -/
inductive Matches (fits : T → α → Prop) (rules : R → Ebnf T R) : Ebnf T R → List α → Prop
  | term {t : T} {a : α} : fits t a → Matches fits rules (.term t) [a]
  | rule {r : R} {w : List α} : Matches fits rules (rules r) w → Matches fits rules (.rule r) w
  | seq {x y : Ebnf T R} {u v : List α} : Matches fits rules x u → Matches fits rules y v →
      Matches fits rules (.seq x y) (u ++ v)
  | left {x y : Ebnf T R} {w : List α} : Matches fits rules x w → Matches fits rules (.alt x y) w
  | right {x y : Ebnf T R} {w : List α} : Matches fits rules y w → Matches fits rules (.alt x y) w
  | without {x : Ebnf T R} : Matches fits rules (.opt x) []
  | within {x : Ebnf T R} {w : List α} : Matches fits rules x w → Matches fits rules (.opt x) w
  | done {x : Ebnf T R} : Matches fits rules (.many x) []
  | more {x : Ebnf T R} {u v : List α} : Matches fits rules x u → Matches fits rules (.many x) v →
      Matches fits rules (.many x) (u ++ v)

end Ebnf

end ServiceSchema.Go
