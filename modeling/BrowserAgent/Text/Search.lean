/-!
# Finding a text in another
-/

namespace BrowserAgent.Text

def startsWith (start s : String) : Bool := start.toList.isPrefixOf s.toList

/-- The rest of the text after the given start, if it starts so. -/
def dropStart? (start s : String) : Option String :=
  if startsWith start s then some (String.ofList (s.toList.drop start.toList.length)) else none

/-- The needle stands somewhere in the list. -/
def occursIn (needle : List Char) : List Char → Bool
  | [] => needle.isEmpty
  | c :: cs => needle.isPrefixOf (c :: cs) || occursIn needle cs

def contains (needle s : String) : Bool := occursIn needle.toList s.toList

/-- The text up to the first place where one of the stops starts; an empty stop never does. -/
def cutBefore (stops : List (List Char)) : List Char → List Char
  | [] => []
  | c :: cs =>
    if stops.any fun stop => !stop.isEmpty && stop.isPrefixOf (c :: cs) then []
    else c :: cutBefore stops cs

/-- The text with the ASCII capitals made small; other characters stay. -/
def lowerAscii (s : String) : String := String.ofList (s.toList.map Char.toLower)

end BrowserAgent.Text
