/-!
# Blank characters

A character is blank when Unicode calls it white space. Trimming and cutting into words go by
this class, so a no-break space counts and a zero-width space does not.
-/

namespace BrowserAgent.Text

/-- The characters that Unicode calls white space. -/
def isBlank (c : Char) : Bool :=
  let n := c.toNat
  (9 ≤ n && n ≤ 13) || n == 0x20 || n == 0x85 || n == 0xA0 || n == 0x1680 ||
    (0x2000 ≤ n && n ≤ 0x200A) || n == 0x2028 || n == 0x2029 || n == 0x202F || n == 0x205F ||
    n == 0x3000

/-- The list without the characters at its end that pass the test. -/
def dropEndWhile (p : Char → Bool) (cs : List Char) : List Char :=
  (cs.reverse.dropWhile p).reverse

def trimStart (s : String) : String := String.ofList (s.toList.dropWhile isBlank)

def trimEnd (s : String) : String := String.ofList (dropEndWhile isBlank s.toList)

def trim (s : String) : String := trimEnd (trimStart s)

/-- A text of blank characters only; the empty text is one. -/
def isBlankText (s : String) : Bool := s.toList.all isBlank

/-! ## Words -/

/-- The first word, which is empty when the list starts with a blank, and the words after it. -/
def wordsFrom : List Char → List Char × List (List Char)
  | [] => ([], [])
  | c :: cs =>
    let (word, more) := wordsFrom cs
    if isBlank c then ([], if word.isEmpty then more else word :: more)
    else (c :: word, more)

/-- The longest runs of characters that are not blank, in order. -/
def words (s : String) : List String :=
  let (word, more) := wordsFrom s.toList
  (if word.isEmpty then more else word :: more).map String.ofList

end BrowserAgent.Text
