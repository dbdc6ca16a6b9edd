/-
  ServiceSchema.Parsing.Grammar — context-free grammars without empty rules.

  Terminals and rule names are types of their own. Every rule name has a list of
  alternatives, and an alternative is a non-empty list of symbols.
-/

namespace ServiceSchema.Parsing

/-- A terminal, or the name of a rule. -/
inductive Sym (T N : Type) where
  | term (t : T)
  | rule (n : N)
  deriving DecidableEq, Repr

/-- A grammar over terminals `T` with rules named by `N`. -/
structure Grammar (T N : Type) where
  start : N
  /-- All rule names. -/
  names : List N
  /-- The alternatives of a rule. -/
  rules : N → List (List (Sym T N))

namespace Grammar

variable {T N : Type} [DecidableEq T] [DecidableEq N] (g : Grammar T N)

/-- The rules that an alternative of `n` may begin with. -/
def leftCorners (n : N) : List N :=
  (g.rules n).filterMap fun alt =>
    match alt with
    | .rule m :: _ => some m
    | _ => none

/-- Follow left corners: `todo` are the names still to look at, all of them in `seen`. -/
def reachFrom : Nat → List N → List N → List N
  | 0, _, seen => seen
  | _, [], seen => seen
  | fuel + 1, n :: todo, seen =>
    let new := ((g.leftCorners n).filter fun m => !seen.contains m).eraseDups
    reachFrom fuel (todo ++ new) (seen ++ new)

/-- All rules that may begin where one of `ns` begins. -/
def reach (ns : List N) : List N :=
  let ns := ns.eraseDups
  g.reachFrom g.names.length ns ns

end Grammar

end ServiceSchema.Parsing
