import BrowserAgent.Action.Phrase
import BrowserAgent.Peg

/-!
# What a line was expected to have

The grammar of a statement as data. Where a line is no statement, the report of the grammar says
at which column reading stopped and what could have stood there.
-/

namespace BrowserAgent

/-- The rules of the grammar, in the order in which expectations are listed. -/
inductive GrammarRule where
  | endOfLine
  | statement
  | binding
  | letWord
  | expr
  | call
  | callee
  | arg
  | keywordArg
  | item
  | var
  | boolean
  | none
  | number
  | integer
  | string
  | name
deriving DecidableEq, Repr

namespace GrammarRule

open Peg

def all : List GrammarRule :=
  [endOfLine, statement, binding, letWord, expr, call, callee, arg, keywordArg, item, var, boolean,
    none, number, integer, string, name]

/-- What a person is told was expected. -/
def label : GrammarRule → String
  | endOfLine => "end of line"
  | statement => "statement"
  | binding => "binding"
  | letWord => "let_kw"
  | expr | arg => "an expression"
  | call | callee => "a call"
  | name | var => "a name"
  | integer => "a non-negative integer"
  | string => "a string"
  | keywordArg => "kwarg"
  | item => "index"
  | boolean => "boolean"
  | none => "none"
  | number => "number"

/-- Whole words, no name character after them. -/
def wholeWord (ws : List String) : Peg GrammarRule :=
  .seq (Peg.any (ws.map Peg.word)) (.unless (.char Action.isNameChar))

def digits : Peg GrammarRule := .seq (.char Char.isDigit) (.star (.char Char.isDigit))

def quoted (quote : Char) : Peg GrammarRule :=
  Peg.all [.literal [quote],
    .star (.alt (.char fun c => c != quote && c != '\\')
      (.seq (.literal ['\\']) (.char fun _ => true))),
    .literal [quote]]

def body : GrammarRule → Peg GrammarRule
  | endOfLine => .finish
  | statement => Peg.all [.opt (.rule binding), .rule expr, .opt (Peg.word ";"), .rule endOfLine]
  | binding => Peg.all [.opt (.rule letWord), .rule name, Peg.word "="]
  | letWord => wholeWord ["let"]
  | expr => Peg.any [.rule call, .rule string, .rule number, .rule boolean, .rule none, .rule item,
      .rule var]
  | call => Peg.all [.rule callee, Peg.word "(",
      .opt (.seq (.rule arg) (.star (.seq (Peg.word ",") (.rule arg)))), Peg.word ")"]
  | callee => .seq (.rule name) (.star (.seq (Peg.word ".") (.rule name)))
  | arg => .alt (.rule keywordArg) (.rule expr)
  | keywordArg => Peg.all [.rule name, Peg.word "=", .rule expr]
  | item => Peg.all [.rule name, Peg.word "[", .rule integer, Peg.word "]"]
  | var => .rule name
  | boolean => wholeWord (Action.trueWords ++ Action.falseWords)
  | none => wholeWord Action.noneWords
  | number => Peg.all [.opt (Peg.word "-"), digits,
      .opt (.seq (Peg.word ".") (.star (.char Char.isDigit)))]
  | integer => digits
  | string => .alt (quoted '"') (quoted '\'')
  | name => .seq (.char Action.isNameStart) (.star (.char Action.isNameChar))

def isToken : GrammarRule → Bool
  | endOfLine | letWord | callee | boolean | none | number | integer | string | name => true
  | _ => false

end GrammarRule

/-- The grammar of a statement. -/
def statementGrammar : Peg.Grammar GrammarRule where
  isGap := Action.isGap
  rule r := ⟨r.isToken, r.body⟩

/-- The column before which reading a line stopped, counted from one, and what was expected there.
-/
structure Expectation where
  column : Nat
  labels : List String
deriving DecidableEq, Repr

/-- One label, two with "or", more with commas and "or" before the last. -/
def joinLabels : List String → String
  | [] => ""
  | [a] => a
  | [a, b] => a ++ " or " ++ b
  | labels => ", ".intercalate labels.dropLast ++ ", or " ++ labels.getLastD ""

namespace Expectation

def ofLine (line : String) : Expectation :=
  let report := statementGrammar.report .statement line.toList
  ⟨report.column + 1, (GrammarRule.all.filter (· ∈ report.expected)).map GrammarRule.label⟩

def message (e : Expectation) : String :=
  "column " ++ toString e.column ++ ": expected " ++ joinLabels e.labels

end Expectation

end BrowserAgent
