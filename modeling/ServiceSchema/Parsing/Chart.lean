/-
  ServiceSchema.Parsing.Chart — reading terminals left to right with a chart.

  Column `k` of the chart tells what the first `k` terminals can be. An item is an
  alternative that has been read up to some symbol, with the column it began at; a
  span is a rule that has been read completely, with the column it began at. A column
  has the spans that end at it and the items that lack something there, those that may
  only begin there included.

  `Chart.expects` says which terminals may come next, so a text stops being the start
  of a word of the language exactly at the first terminal that is not expected.
  `Chart.accepts` says that the terminals so far are a word of the language.

  A terminal may be one for some readings of a text and nothing at all for others:
  `Chart.scanSome` lets the items of some rules pass it over.
-/
import ServiceSchema.Parsing.Grammar

namespace ServiceSchema.Parsing

variable {T N : Type}

/-- An alternative of `head` that began at column `origin` and still lacks `rest`. -/
structure Item (T N : Type) where
  head : N
  rest : List (Sym T N)
  origin : Nat
  deriving DecidableEq, Repr

/-- A rule read completely from column `origin` on. -/
structure Span (N : Type) where
  head : N
  origin : Nat
  deriving DecidableEq, Repr

/-- What is known after some terminals. -/
structure Column (T N : Type) where
  spans : List (Span N)
  items : List (Item T N)
  deriving Repr

/-- The columns so far, from the one before the first terminal on. -/
abbrev Chart (T N : Type) := Array (Column T N)

variable [DecidableEq T] [DecidableEq N]

/-- The item one symbol further, if that symbol is `s`. -/
def Item.advance? (s : Sym T N) (item : Item T N) : Option (Item T N) :=
  match item.rest with
  | x :: rest => if x = s then some { item with rest } else none
  | [] => none

/-- The span of an item that lacks nothing. -/
def Item.span? (item : Item T N) : Option (Span N) :=
  match item.rest with
  | [] => some ⟨item.head, item.origin⟩
  | _ :: _ => none

/-- The rule that an item lacks next. -/
def Item.next? (item : Item T N) : Option N :=
  match item.rest with
  | .rule n :: _ => some n
  | _ => none

namespace Chart

variable (g : Grammar T N)

/-- The items of column `k`. -/
def itemsAt (chart : Chart T N) (k : Nat) : List (Item T N) :=
  match chart[k]? with
  | some column => column.items
  | none => []

/-- The items of column `k` that lack `s` next, one symbol further. -/
def advance (chart : Chart T N) (k : Nat) (s : Sym T N) : List (Item T N) :=
  (chart.itemsAt k).filterMap (Item.advance? s)

/-- Complete spans: whatever lacks only a span that ends here is complete too. `todo`
    are the spans still to look at, all of them in `seen`. -/
def completeFrom (chart : Chart T N) : Nat → List (Span N) → List (Span N) → List (Span N)
  | 0, _, seen => seen
  | _, [], seen => seen
  | fuel + 1, s :: todo, seen =>
    let ended := (chart.advance s.origin (.rule s.head)).filterMap Item.span?
    let new := (ended.filter fun e => !seen.contains e).eraseDups
    completeFrom chart fuel (todo ++ new) (seen ++ new)

/-- All spans that end here, from those that the last terminal completed. -/
def complete (chart : Chart T N) (spans : List (Span N)) : List (Span N) :=
  let spans := spans.eraseDups
  chart.completeFrom (g.names.length * chart.size) spans spans

/-- The alternatives of rules, to be read from column `k` on. -/
def beginning (k : Nat) (ns : List N) : List (Item T N) :=
  (g.reach ns).flatMap fun n => (g.rules n).map fun alt => ⟨n, alt, k⟩

/-- Column `k`, which ends the given spans, with the given items in progress. -/
def column (k : Nat) (spans : List (Span N)) (items : List (Item T N)) : Column T N :=
  ⟨spans, items ++ beginning g k (items.filterMap Item.next?)⟩

/-- The chart before any terminal. -/
def initial : Chart T N := #[⟨[], beginning g 0 [g.start]⟩]

/-- Read one terminal, which may be of any of the classes `ts`. Items of rules in
    `passes` that have begun before it pass it over. -/
def scanSome (chart : Chart T N) (ts : List T) (passes : N → Bool) : Chart T N :=
  let last := chart.size - 1
  let read := ts.flatMap fun t => chart.advance last (.term t)
  let spans := chart.complete g (read.filterMap Item.span?)
  let waiting := spans.flatMap fun s => chart.advance s.origin (.rule s.head)
  let items := ((read ++ waiting).filter fun item => !item.rest.isEmpty).eraseDups
  let passed := (chart.itemsAt last).filter fun item => item.origin < last && passes item.head
  chart.push (column g chart.size spans (items ++ passed))

/-- Read one terminal, which may be of any of the classes `ts`. -/
def scan (chart : Chart T N) (ts : List T) : Chart T N := chart.scanSome g ts fun _ => false

/-- Whether terminal `t` may come next. -/
def expects (chart : Chart T N) (t : T) : Bool :=
  (chart.itemsAt (chart.size - 1)).any fun item => (item.advance? (.term t)).isSome

/-- Whether the terminals so far are a word of the language. -/
def accepts (chart : Chart T N) : Bool :=
  match chart.back? with
  | some column => column.spans.contains ⟨g.start, 0⟩
  | none => false

end Chart

end ServiceSchema.Parsing
