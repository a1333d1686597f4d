import BrowserAgent.Text.Blank

/-!
# Elements and the words for finding them
-/

namespace BrowserAgent

/-- An element of a page, with the frame that has to be entered before it can be addressed. -/
structure Element where
  id : String
  frame : Option String
deriving DecidableEq, Repr

def Element.text (e : Element) : String :=
  match e.frame with
  | some frame => "<element " ++ e.id ++ " in frame " ++ frame ++ ">"
  | none => "<element " ++ e.id ++ ">"

/-! ## Words for a choice -/

/-- A word that is none of those a kind of choice has. -/
structure ChoiceError where
  kind : String
  value : String
  allowed : List String
deriving DecidableEq, Repr

def ChoiceError.message (e : ChoiceError) : String :=
  "invalid " ++ e.kind ++ " `" ++ e.value ++ "` (expected one of: " ++
    ", ".intercalate e.allowed ++ ")"

/-- The choice that the text names, blanks around it and the case of ASCII letters aside. -/
def readChoice {α : Type} (kind : String) (all : List α) (word : α → String) (value : String) :
    Except ChoiceError α :=
  let wanted := (Text.trim value).map Char.toLower
  match all.find? fun choice => word choice == wanted with
  | some choice => .ok choice
  | none => .error ⟨kind, value, all.map word⟩

/-- What a lookup goes by. -/
inductive Strategy where
  | xpath
  | css
  | id
  | name
  | tag
  | className
  | linkText
deriving DecidableEq, Repr

namespace Strategy

def all : List Strategy := [xpath, css, id, name, tag, className, linkText]

def word : Strategy → String
  | xpath => "xpath"
  | css => "css"
  | id => "id"
  | name => "name"
  | tag => "tag"
  | className => "class"
  | linkText => "link_text"

def read (value : String) : Except ChoiceError Strategy :=
  readChoice "LocatorStrategy" all word value

end Strategy

/-- Where to look from an anchor. -/
inductive NearDirection where
  | near
  | above
  | below
  | left
  | right
deriving DecidableEq, Repr

namespace NearDirection

def all : List NearDirection := [near, above, below, left, right]

def word : NearDirection → String
  | near => "near"
  | above => "above"
  | below => "below"
  | left => "left"
  | right => "right"

def read (value : String) : Except ChoiceError NearDirection :=
  readChoice "NearDirection" all word value

end NearDirection

/-- Where to scroll. -/
inductive ScrollDirection where
  | up
  | down
  | top
  | bottom
  | left
  | right
deriving DecidableEq, Repr

namespace ScrollDirection

def all : List ScrollDirection := [up, down, top, bottom, left, right]

def word : ScrollDirection → String
  | up => "up"
  | down => "down"
  | top => "top"
  | bottom => "bottom"
  | left => "left"
  | right => "right"

def read (value : String) : Except ChoiceError ScrollDirection :=
  readChoice "ScrollDirection" all word value

end ScrollDirection

end BrowserAgent
