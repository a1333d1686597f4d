import BrowserAgent.Action.Expr

/-!
# How a statement is spelled

What the characters of a line have to be so that they spell a binding and an expression, said
without reading them: which tokens stand one after the other, and where gaps may stand between
them. A quoted text is spelled piece by piece, each piece one character of its value.
-/

namespace BrowserAgent.Action

/-- Says of which values some characters are a spelling. -/
abbrev Spelling (α : Type) := List Char → α → Prop

/-! ## Tokens -/

def IsGap (cs : List Char) : Prop := ∀ c ∈ cs, isGap c = true

/-- A letter or underscore, then letters, digits and underscores. -/
def IsName : List Char → Prop
  | [] => False
  | c :: cs => isNameStart c = true ∧ ∀ d ∈ cs, isNameChar d = true

instance : DecidablePred IsName
  | [] => .isFalse id
  | c :: cs => decidable_of_iff ((isNameStart c && cs.all isNameChar) = true) (by simp [IsName])

def IsDigits (cs : List Char) : Prop := ∀ c ∈ cs, c.isDigit = true

/-- Names, each after a point. -/
inductive IsPath : List Char → Prop
  | nil : IsPath []
  | cons {name path : List Char} : IsName name → IsPath path → IsPath ('.' :: (name ++ path))

/-- The spellings that stand for a truth value or none. -/
def literalWords : List String := trueWords ++ falseWords ++ noneWords

/-- A name that may stand for a value. -/
def IsVariable (cs : List Char) : Prop := IsName cs ∧ String.ofList cs ∉ literalWords

/-! ## Quoted texts -/

/-- One character of a quoted text, as it is written. -/
inductive Piece where
  | plain (c : Char)
  /-- The character after a backslash. -/
  | escaped (c : Char)
deriving DecidableEq, Repr

namespace Piece

def written : Piece → List Char
  | plain c => [c]
  | escaped c => ['\\', c]

def value : Piece → Char
  | plain c => c
  | escaped c => unescape c

/-- The piece may stand between the quotes: only an escaped character may be a quote or a
backslash. -/
def Fits (quote : Char) : Piece → Prop
  | plain c => c ≠ quote ∧ c ≠ '\\'
  | escaped _ => True

end Piece

def quoted (quote : Char) (pieces : List Piece) : List Char :=
  quote :: (pieces.flatMap Piece.written ++ [quote])

/-! ## Expressions -/

def signOf (negative : Bool) : List Char := if negative then ['-'] else []

/-- An argument, where the expression in it is spelled as given. -/
inductive SpellsArg (E : Spelling Phrase) : Spelling (Option String × Phrase)
  | positional {cs : List Char} {p : Phrase} : E cs p → SpellsArg E cs (none, p)
  | keyword {key g₁ g₂ cs : List Char} {p : Phrase} : IsName key → IsGap g₁ → IsGap g₂ → E cs p →
    SpellsArg E (key ++ (g₁ ++ '=' :: (g₂ ++ cs))) (some (String.ofList key), p)

/-- Further arguments, each after a comma. -/
inductive SpellsMoreArgs (E : Spelling Phrase) : Spelling (List (Option String × Phrase))
  | nil {g : List Char} : IsGap g → SpellsMoreArgs E g []
  | cons {g₁ g₂ cs more : List Char} {arg : Option String × Phrase}
    {args : List (Option String × Phrase)} : IsGap g₁ → IsGap g₂ → SpellsArg E cs arg →
    SpellsMoreArgs E more args → SpellsMoreArgs E (g₁ ++ ',' :: (g₂ ++ (cs ++ more))) (arg :: args)

/-- What stands between the parentheses of a call. -/
inductive SpellsArgs (E : Spelling Phrase) : Spelling (List (Option String × Phrase))
  | nil {g : List Char} : IsGap g → SpellsArgs E g []
  | cons {g cs more : List Char} {arg : Option String × Phrase}
    {args : List (Option String × Phrase)} : IsGap g → SpellsArg E cs arg →
    SpellsMoreArgs E more args → SpellsArgs E (g ++ (cs ++ more)) (arg :: args)

section

variable {E : Spelling Phrase} {cs : List Char} {args : List (Option String × Phrase)}

theorem SpellsArg.part {arg : Option String × Phrase} (h : SpellsArg E cs arg) :
    ∃ part, E part arg.2 ∧ part <:+: cs := by
  cases h with
  | positional he => exact ⟨cs, he, List.infix_rfl⟩
  | @keyword key g₁ g₂ part p _ _ _ he =>
    exact ⟨part, he, key ++ (g₁ ++ '=' :: g₂), [], by simp⟩

theorem SpellsMoreArgs.part (h : SpellsMoreArgs E cs args) :
    ∀ arg ∈ args, ∃ part, E part arg.2 ∧ part <:+: cs := by
  induction h with
  | nil => simp
  | @cons g₁ g₂ cs more arg args _ _ harg _ ih =>
    have head : cs <:+: g₁ ++ ',' :: (g₂ ++ (cs ++ more)) := ⟨g₁ ++ ',' :: g₂, more, by simp⟩
    have tail : more <:+: g₁ ++ ',' :: (g₂ ++ (cs ++ more)) :=
      ⟨g₁ ++ ',' :: (g₂ ++ cs), [], by simp⟩
    rintro found (_ | ⟨_, hfound⟩)
    · obtain ⟨part, he, hpart⟩ := harg.part
      exact ⟨part, he, hpart.trans head⟩
    · obtain ⟨part, he, hpart⟩ := ih found hfound
      exact ⟨part, he, hpart.trans tail⟩

theorem SpellsArgs.part (h : SpellsArgs E cs args) :
    ∀ arg ∈ args, ∃ part, E part arg.2 ∧ part <:+: cs := by
  cases h with
  | nil => simp
  | @cons g cs more arg args _ harg hmore =>
    rintro found (_ | ⟨_, hfound⟩)
    · obtain ⟨part, he, hpart⟩ := harg.part
      exact ⟨part, he, hpart.trans ⟨g, more, by simp⟩⟩
    · obtain ⟨part, he, hpart⟩ := hmore.part found hfound
      exact ⟨part, he, hpart.trans ⟨g ++ cs, [], by simp⟩⟩

end

inductive Spells : Spelling Phrase
  | text {quote : Char} {pieces : List Piece} : quote = '"' ∨ quote = '\'' →
    (∀ p ∈ pieces, p.Fits quote) →
    Spells (quoted quote pieces) (.text (String.ofList (pieces.map Piece.value)))
  | whole {negative : Bool} {whole : List Char} : IsDigits whole → whole ≠ [] →
    Spells (signOf negative ++ whole) (.number (.ofDigits negative whole [] 0))
  | decimal {negative : Bool} {whole fraction : List Char} : IsDigits whole → whole ≠ [] →
    IsDigits fraction →
    Spells (signOf negative ++ (whole ++ '.' :: fraction))
      (.number (.ofDigits negative whole fraction 0))
  | yes {word : String} : word ∈ trueWords → Spells word.toList (.bool true)
  | no {word : String} : word ∈ falseWords → Spells word.toList (.bool false)
  | nothing {word : String} : word ∈ noneWords → Spells word.toList .nothing
  | var {name : List Char} : IsVariable name → Spells name (.var (String.ofList name))
  | item {name g₁ g₂ digits g₃ : List Char} : IsVariable name → IsGap g₁ → IsGap g₂ →
    IsDigits digits → digits ≠ [] → IsGap g₃ →
    Spells (name ++ (g₁ ++ '[' :: (g₂ ++ (digits ++ (g₃ ++ [']'])))))
      (.item (String.ofList name) (Number.Decimal.digitsValue digits))
  | call {name path g inner : List Char} {args : List (Option String × Phrase)} : IsName name →
    IsPath path → IsGap g → SpellsArgs Spells inner args →
    Spells (name ++ (path ++ (g ++ '(' :: (inner ++ [')']))))
      (.call (String.ofList (name ++ path)) args)

/-! ## Statements -/

/-- The word that may stand before a binding; a gap parts it from the name. -/
inductive IsLet : List Char → Prop
  | leftOut : IsLet []
  | written {g : List Char} : IsGap g → g ≠ [] → IsLet ('l' :: 'e' :: 't' :: g)

inductive SpellsBinding : Spelling (Option String)
  | none : SpellsBinding [] none
  | some {start name g₁ g₂ : List Char} : IsLet start → IsName name → IsGap g₁ → IsGap g₂ →
    SpellsBinding (start ++ (name ++ (g₁ ++ '=' :: g₂))) (some (String.ofList name))

/-- What may stand after the expression. -/
inductive IsStop : List Char → Prop
  | nil : IsStop []
  | semicolon {g : List Char} : IsGap g → IsStop (g ++ [';'])

/-- The characters of a line that spell a binding, if any, and an expression. -/
inductive SpellsLine : Spelling (Option String × Phrase)
  | mk {start cs stop : List Char} {binding : Option String} {p : Phrase} :
    SpellsBinding start binding → Spells cs p → IsStop stop →
    SpellsLine (start ++ (cs ++ stop)) (binding, p)

theorem SpellsLine.part {line : List Char} {binding : Option String} {p : Phrase}
    (h : SpellsLine line (binding, p)) : ∃ part, Spells part p ∧ part <:+: line := by
  cases h with
  | @mk start part stop _ _ _ hs => exact ⟨part, hs, List.infix_append' start part stop⟩

end BrowserAgent.Action
