/-!
# Where a grammar gave up

A parsing expression grammar over named rules, and a run that reports what was expected at the
furthest place where a rule failed. A rule is a token, matched character by character, or a
phrase, whose parts may stand apart by gaps.

The report keeps the rules that failed at the furthest start seen so far. A rule that fails takes
the place of the rules that failed inside it at the same start, unless exactly one more failed
there since it began: then that one says more and stays. Rules inside a token are not reported.
-/

namespace BrowserAgent

inductive Peg (ρ : Type) where
  | literal (text : List Char)
  | char (test : Char → Bool)
  | seq (first second : Peg ρ)
  | alt (first second : Peg ρ)
  | opt (p : Peg ρ)
  | star (p : Peg ρ)
  /-- Succeeds without reading anything where the expression fails. -/
  | unless (p : Peg ρ)
  | rule (r : ρ)
  | finish

namespace Peg

/-- The expressions in order. -/
def all {ρ : Type} : List (Peg ρ) → Peg ρ
  | [] => .literal []
  | [p] => p
  | p :: ps => .seq p (all ps)

/-- The first of the expressions that fits. -/
def any {ρ : Type} : List (Peg ρ) → Peg ρ
  | [] => .unless (.literal [])
  | [p] => p
  | p :: ps => .alt p (any ps)

def word {ρ : Type} (s : String) : Peg ρ := .literal s.toList

structure Rule (ρ : Type) where
  isToken : Bool
  body : Peg ρ

structure Grammar (ρ : Type) where
  isGap : Char → Bool
  rule : ρ → Rule ρ

/-- A place in the text: how many characters lie before it and what lies after. -/
structure Place where
  column : Nat
  rest : List Char

def Place.skip (isGap : Char → Bool) (p : Place) : Place :=
  ⟨p.column + (p.rest.takeWhile isGap).length, p.rest.dropWhile isGap⟩

/-- The rules that failed at the furthest start, in the order in which they failed. -/
structure Report (ρ : Type) where
  column : Nat
  expected : List ρ

namespace Report

variable {ρ : Type}

/-- How many rules are known to have failed at the place. -/
def countAt (r : Report ρ) (column : Nat) : Nat :=
  if r.column = column then r.expected.length else 0

/-- The report after a rule that began with the report `before` failed at the place. -/
def fail (before r : Report ρ) (column : Nat) (name : ρ) : Report ρ :=
  let known := before.countAt column
  if r.countAt column = known + 1 then r
  else if column < r.column then r
  else if column = r.column then ⟨column, r.expected.take known ++ [name]⟩
  else ⟨column, [name]⟩

end Report

/-- Matches the expression; the place after it, if it fits, and the report so far. -/
def run {ρ : Type} (g : Grammar ρ) :
    Nat → Bool → Peg ρ → Place → Report ρ → Option Place × Report ρ
  | 0, _, _, _, report => (none, report)
  | fuel + 1, inToken, p, place, report =>
    match p with
    | .literal text =>
      if text.isPrefixOf place.rest then
        (some ⟨place.column + text.length, place.rest.drop text.length⟩, report)
      else (none, report)
    | .char test =>
      match place.rest with
      | c :: cs => if test c then (some ⟨place.column + 1, cs⟩, report) else (none, report)
      | [] => (none, report)
    | .seq first second =>
      match run g fuel inToken first place report with
      | (none, report) => (none, report)
      | (some place, report) =>
        let place := if inToken then place else place.skip g.isGap
        run g fuel inToken second place report
    | .alt first second =>
      match run g fuel inToken first place report with
      | (none, report) => run g fuel inToken second place report
      | found => found
    | .opt p =>
      match run g fuel inToken p place report with
      | (none, report) => (some place, report)
      | found => found
    | .star p =>
      let start := if inToken then place else place.skip g.isGap
      match run g fuel inToken p start report with
      | (none, report) => (some place, report)
      | (some next, report) => run g fuel inToken (.star p) next report
    | .unless p =>
      match run g fuel true p place report with
      | (none, _) => (some place, report)
      | (some _, _) => (none, report)
    | .rule r =>
      let rule := g.rule r
      match run g fuel (inToken || rule.isToken) rule.body place report with
      | (none, after) => (none, if inToken then after else Report.fail report after place.column r)
      | found => found
    | .finish => (if place.rest.isEmpty then some place else none, report)

/-- What a text that does not fit the rule was expected to have, and before which column. -/
def Grammar.report {ρ : Type} (g : Grammar ρ) (start : ρ) (text : List Char) : Report ρ :=
  (run g (64 * (text.length + 2)) false (.rule start) ⟨0, text⟩ ⟨0, []⟩).2

end Peg

end BrowserAgent
