/-!
# Operations

An action may call these operations and no others. Each has a name and its parameters in
positional order.
-/

namespace BrowserAgent

/-- What a parameter takes. -/
inductive ParamKind where
  | text
  | number
  | bool
  | element
  /-- An element or none. -/
  | maybeElement
deriving DecidableEq, Repr

def ParamKind.name : ParamKind → String
  | .text => "text"
  | .number => "number"
  | .bool => "bool"
  | .element => "element"
  | .maybeElement => "maybe_element"

structure Param where
  name : String
  kind : ParamKind
  required : Bool
deriving DecidableEq, Repr

def Param.needed (name : String) (kind : ParamKind) : Param := ⟨name, kind, true⟩

def Param.optional (name : String) (kind : ParamKind) : Param := ⟨name, kind, false⟩

inductive Operation where
  | navigate
  | findElements
  | findElement
  | findNearest
  | sendKeys
  | click
  | wait
  | scroll
  | queryLlm
  | queryMemory
  | retrieveInformation
  | findElementByDescription
  | screenshot
  | save
  | text
  | pageText
deriving DecidableEq, Repr

namespace Operation

def all : List Operation :=
  [navigate, findElements, findElement, findNearest, sendKeys, click, wait, scroll, queryLlm,
    queryMemory, retrieveInformation, findElementByDescription, screenshot, save, text, pageText]

def name : Operation → String
  | navigate => "navigate"
  | findElements => "find_elements"
  | findElement => "find_element"
  | findNearest => "find_nearest"
  | sendKeys => "send_keys"
  | click => "click"
  | wait => "wait"
  | scroll => "scroll"
  | queryLlm => "query_llm"
  | queryMemory => "query_memory"
  | retrieveInformation => "retrieve_information"
  | findElementByDescription => "find_element_by_description"
  | screenshot => "screenshot"
  | save => "save"
  | text => "text"
  | pageText => "page_text"

def ofName? (name : String) : Option Operation := all.find? fun op => op.name == name

open Param in
/-- The parameters in positional order. -/
def params : Operation → List Param
  | navigate => [needed "url" .text]
  | findElements | findElement =>
    [needed "by" .text, needed "value" .text, optional "within" .maybeElement]
  | findNearest =>
    [needed "anchor" .element, needed "xpath" .text, optional "direction" .text]
  | sendKeys => [needed "element" .maybeElement, needed "text" .text]
  | click | text => [needed "element" .element]
  | wait => [needed "seconds" .number]
  | scroll => [needed "direction" .text, optional "frame" .maybeElement]
  | queryLlm | queryMemory => [needed "text" .text]
  | retrieveInformation => [needed "prompt" .text, optional "entire_page" .bool]
  | findElementByDescription => [needed "description" .text]
  | screenshot => [needed "element" .element, needed "filename" .text]
  | save => [needed "text" .text, needed "filename" .text]
  | pageText => [optional "entire_page" .bool]

end Operation

end BrowserAgent
