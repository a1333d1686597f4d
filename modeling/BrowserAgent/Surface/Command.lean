import BrowserAgent.Duration
import BrowserAgent.Run
import BrowserAgent.Surface.Element

/-!
# Commands to a browser

A surface is anything that carries out commands: it has a state, and answers a command with a
reply of the command's kind or with a fault. Elements in a frame are addressed between a command
that enters the frame and one that leaves it.
-/

namespace BrowserAgent

inductive Command where
  | navigate (url : String)
  | findElements (strategy : Strategy) (value : String) (within : Option Element)
  | findNearest (anchor : Element) (xpath : String) (direction : NearDirection)
  | findByDescription (description : String)
  /-- Types into the element, or into whatever has the focus. -/
  | sendKeys (element : Option Element) (text : String)
  | click (element : Element)
  | wait (duration : Duration)
  | scroll (direction : ScrollDirection) (frame : Option Element)
  | queryLlm (text : String)
  | queryMemory (text : String)
  | retrieve (prompt : String) (entirePage : Bool)
  | screenshot (element : Element) (filename : String)
  | save (text : String) (filename : String)
  | elementText (element : Element)
  | pageText (entirePage : Bool)
  | enterFrame (frame : String)
  | exitFrame
deriving DecidableEq, Repr

namespace Command

/-- What a command is answered with. -/
def Reply : Command → Type
  | findElements .. => List Element
  | findNearest .. => Element
  | findByDescription _ => Option Element
  | queryLlm _ | queryMemory _ | retrieve .. | elementText _ | pageText _ => String
  | _ => Unit

/-- The name that a fault and a transcript go by. -/
def name : Command → String
  | navigate _ => "navigate"
  | findElements .. => "find_elements"
  | findNearest .. => "find_nearest"
  | findByDescription _ => "find_element_by_description"
  | sendKeys .. => "send_keys"
  | click _ => "click"
  | wait _ => "wait"
  | scroll .. => "scroll"
  | queryLlm _ => "query_llm"
  | queryMemory _ => "query_memory"
  | retrieve .. => "retrieve_information"
  | screenshot .. => "screenshot"
  | save .. => "save"
  | elementText _ => "text"
  | pageText _ => "page_text"
  | enterFrame _ => "enter_frame"
  | exitFrame => "exit_frame"

/-- The element that the command addresses. -/
def element? : Command → Option Element
  | findElements _ _ within => within
  | findNearest anchor _ _ => some anchor
  | sendKeys element _ => element
  | click element => some element
  | scroll _ frame => frame
  | screenshot element _ => some element
  | elementText element => some element
  | _ => none

end Command

/-- Why a command was not carried out. -/
inductive Fault where
  | refused (reason : String)
  /-- The frame could not be entered. -/
  | entering (frame : String) (cause : Fault)
  /-- The frame could not be left. -/
  | leaving (cause : Fault)
deriving DecidableEq, Repr

def Fault.message : Fault → String
  | .refused reason => reason
  | .entering frame cause => "switch to frame " ++ frame ++ ": " ++ cause.message
  | .leaving cause => "restore default frame: " ++ cause.message

structure Surface (σ : Type) where
  /-- The name under which the surface shows in its own messages. -/
  hostName : String
  perform : (c : Command) → Run σ Fault c.Reply

namespace Surface

variable {σ : Type} (s : Surface σ)

/-- A run inside the frame, which is left again also after a fault. -/
def inFrame {α : Type} (frame : String) (run : Run σ Fault α) : Run σ Fault α :=
  ExceptT.mk fun state =>
    match (s.perform (.enterFrame frame)).run state with
    -- If the frame cannot be entered the run does not start.
    | (.error fault, state) => (.error (.entering frame fault), state)
    | (.ok _, state) =>
      let (result, state) := run.run state
      let (left, state) := (s.perform .exitFrame).run state
      match result, left with
      -- A fault of the run wins over one of leaving.
      | .error fault, _ => (.error fault, state)
      | .ok _, .error fault => (.error (.leaving fault), state)
      | .ok value, .ok _ => (.ok value, state)

/-- A run inside the frame of the element, if it lies in one. -/
def inFrameOf {α : Type} (element : Element) (run : Run σ Fault α) : Run σ Fault α :=
  match element.frame with
  | some frame => s.inFrame frame run
  | none => run

/-- The command inside the frame of the element that it addresses, if it addresses one. -/
def address (c : Command) : Run σ Fault c.Reply :=
  match c.element? with
  | some element => s.inFrameOf element (s.perform c)
  | none => s.perform c

end Surface

end BrowserAgent
