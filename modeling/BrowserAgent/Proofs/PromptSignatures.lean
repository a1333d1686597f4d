import BrowserAgent.Prompt
import BrowserAgent.Proofs.JoinedLines
import BrowserAgent.Proofs.SlotAssignment

/-!
# The signatures of the prompt

The prompt shows the model how each operation is called: its name, and the names of its parameters
in positional order, some with a default. A call by these names should be the call by position. It
is, apart from the one operation whose parameter goes by another name in the prompt.
-/

namespace BrowserAgent

open BrowserAgent.Action

/-- An operation as the prompt shows it. A parameter with a default may be left out. -/
structure Signature where
  name : String
  params : List (String × Option String)
deriving DecidableEq, Repr

namespace Signature

def ofParam (cs : List Char) : String × Option String :=
  let shown := skipGaps cs
  (String.ofList (shown.takeWhile (· != '=')),
    match shown.dropWhile (· != '=') with
    | _ :: default => some (String.ofList default)
    | [] => none)

/-- The signature between backticks at the start of an item. -/
def ofChars? : List Char → Option Signature
  | '-' :: ' ' :: '`' :: cs =>
    let params := ((cs.dropWhile (· != '(')).drop 1).takeWhile (· != ')')
    some ⟨String.ofList (cs.takeWhile (· != '(')), (Text.splitAtChar ',' params).map ofParam⟩
  | _ => none

def ofLine? (line : String) : Option Signature := ofChars? line.toList

/-- So many expressions may be given: what is left out has a default. -/
structure Fits (sig : Signature) (count : Nat) : Prop where
  room : count ≤ sig.params.length
  given : ∀ param ∈ sig.params.drop count, param.2.isSome = true

/-- The expressions with the names of the signature. -/
def named (sig : Signature) (phrases : List Phrase) : List (Option String × Phrase) :=
  (sig.params.zip phrases).map fun found => (some found.1.1, found.2)

end Signature

def Prompt.signatures : List Signature := preambleLines.filterMap Signature.ofLine?

namespace Phrase

def unnamed (phrases : List Phrase) : List (Option String × Phrase) := phrases.map (none, ·)

/-- What reading an action of one line comes to, from what its phrase comes to. -/
def alone (source : String) (binding : Option String) :
    Except SyntaxError Expr → Except ActionSyntaxError Program
  | .ok e => .ok ⟨[⟨1, source, binding, e⟩]⟩
  | .error cause => .error ⟨1, source, cause⟩

/-- What the phrase comes to, by itself and on every line, bound to a name or not. -/
structure ReadAs (phrase : Phrase) (result : Except SyntaxError Expr) : Prop where
  toExpr : phrase.toExpr = result
  parse : ∀ (line : String) (binding : Option String), '\n' ∉ line.toList →
    SpellsLine (Text.trim line).toList (binding, phrase) → (∀ name ∈ binding, IsBindable name) →
    Action.parse line = alone (Text.trim line) binding result

end Phrase

/-- A call by the names of the signature, in any order, is the call by position. -/
def Signature.Honoured (sig : Signature) : Prop :=
  ∀ phrases values, Phrase.Values (Phrase.unnamed phrases) values → sig.Fits phrases.length →
    ∃ op slots, op.name = sig.name ∧
      (Phrase.call sig.name (Phrase.unnamed phrases)).ReadAs (.ok (.call op slots)) ∧
      ∀ args, args.Perm (sig.named phrases) →
        (Phrase.call sig.name args).ReadAs (.ok (.call op slots))

/-! ## Lines -/

section

variable {cs name : List Char} {phrase : Phrase} {binding : Option String}

theorem Action.SpellsLine.starts (h : SpellsLine cs (binding, phrase)) :
    ∃ c tail, cs = c :: tail ∧ startsPhrase c = true := by
  cases h with
  | mk hb hs =>
    cases hb with
    | none =>
      obtain ⟨c, tail, rfl, hc⟩ := hs.starts
      exact ⟨c, _, rfl, hc⟩
    | some hl hn =>
      cases hl with
      | leftOut =>
        obtain ⟨c, tail, rfl, hc⟩ := hn.starts
        exact ⟨c, _, rfl, hc⟩
      | written => exact ⟨'l', _, rfl, by decide⟩

theorem Action.SpellsLine.not_skipped {line : String}
    (h : SpellsLine line.toList (binding, phrase)) : isSkipped line = false := by
  obtain ⟨c, tail, hline, hc⟩ := h.starts
  -- No phrase starts with a slash or a backtick.
  have other : ∀ (start : String) (d : Char) (more : List Char), start.toList = d :: more →
      startsPhrase d = false → Text.startsWith start line = false := by
    intro start d more heq hd
    have differs : d ≠ c := by
      rintro rfl
      rw [hd] at hc
      cases hc
    rw [Text.startsWith, heq, hline, List.isPrefixOf, beq_false_of_ne differs, Bool.false_and]
  have nonempty : line.isEmpty = false := by
    rw [Bool.eq_false_iff]
    intro empty
    rw [String.isEmpty_iff.mp empty] at hline
    cases hline
  have comment := other "//" '/' ['/'] (by decide) (by decide)
  have fenced := other fence '`' ['`', '`'] (by decide) (by decide)
  rw [isSkipped, nonempty, comment, fenced]
  rfl

theorem parse_of_no_newline {line : String} (h : '\n' ∉ line.toList) :
    Action.parse line = (Action.readLine 1 line).map fun found => ⟨found.toList⟩ := by
  have whole : Text.splitAtChar '\n' line.toList = [line.toList] := by
    rw [Text.splitAtChar_eq]
    exact List.splitOn_eq_singleton h
  rw [Action.parse, Text.lines, Action.statementsFrom_closeLines, whole, List.map_singleton,
    String.ofList_toList, Action.statementsFrom]
  cases Action.readLine 1 line with
  | error cause => rfl
  | ok found =>
    change Except.ok (Program.mk (found.toList ++ [])) = Except.ok (Program.mk found.toList)
    rw [List.append_nil]

theorem Phrase.readAs_toExpr (phrase : Phrase) : phrase.ReadAs phrase.toExpr where
  toExpr := rfl
  parse line binding unbroken spelled bindable := by
    have free : binding.filter isReserved = none := by
      refine Option.filter_eq_none_iff.mpr fun name hname => ?_
      simpa using isReserved_eq_false_iff.mpr (bindable name hname).2
    have read : readStatement? (Text.trim line) = some (binding, phrase) :=
      readStatement?_of_spells spelled fun name hname heq =>
        (bindable name hname).2.2 (heq ▸ by decide)
    rw [parse_of_no_newline unbroken, readLine, spelled.not_skipped]
    delta readStatement
    simp only [read, free]
    cases phrase.toExpr <;> rfl

theorem Phrase.readAs_iff {result : Except SyntaxError Expr} :
    phrase.ReadAs result ↔ phrase.toExpr = result :=
  ⟨fun h => h.toExpr, fun h => h ▸ phrase.readAs_toExpr⟩

theorem Phrase.ReadAs.parse_line {result : Except SyntaxError Expr} {line : String}
    (h : phrase.ReadAs result) (unbroken : '\n' ∉ line.toList) (trim : Text.trim line = line)
    (spelled : SpellsLine line.toList (none, phrase)) :
    Action.parse line = alone line none result := by
  have parsed := h.parse line none unbroken (trim.symm ▸ spelled) (by simp)
  rwa [trim] at parsed

end

/-! ## Calls by position and by keyword -/

/-- The operation has the parameters that the signature shows. -/
def Signature.Shows (sig : Signature) (op : Operation) : Prop :=
  sig.name = op.name ∧
    sig.params.map (fun param => (param.1, param.2.isNone)) =
      op.params.map fun param => (param.name, param.required)

namespace Operation

/-- The slot of the parameter with the name. -/
def slotOf (op : Operation) (key : Option String) : Nat :=
  (key.bind fun name => op.params.findIdx? fun param => param.name == name).getD 0

theorem slotOf_of_getElem? {op : Operation} {slot : Nat} {param : Param}
    (h : op.params[slot]? = some param) : op.slotOf (some param.name) = slot := by
  have found := findIdx?_params_eq_some_iff.mpr ⟨param, h, rfl⟩
  rw [slotOf, Option.bind_some, found, Option.getD_some]

end Operation

section

variable {op : Operation} {sig : Signature} {phrases : List Phrase} {values : List Expr}
  {args : List (Option String × Phrase)}

theorem places_of_keywords
    (h : ∀ arg ∈ args, ∃ param ∈ op.params, arg.1 = some param.name) (taken : Nat) :
    Places op taken (args.map (·.1)) (args.map fun arg => op.slotOf arg.1) := by
  induction args with
  | nil => exact .nil
  | cons arg args ih =>
    obtain ⟨⟨param, hmem, hkey⟩, later⟩ := List.forall_mem_cons.mp h
    obtain ⟨slot, hslot⟩ := List.getElem?_of_mem hmem
    rw [List.map_cons, List.map_cons, hkey, Operation.slotOf_of_getElem? hslot]
    exact .keyword hslot (ih later)

theorem keys_unnamed (phrases : List Phrase) :
    (Phrase.unnamed phrases).map (·.1) = List.replicate phrases.length none := by
  rw [Phrase.unnamed, List.map_map]
  exact List.map_const' ..

theorem phrases_unnamed (phrases : List Phrase) :
    (Phrase.unnamed phrases).map (·.2) = phrases := by
  rw [Phrase.unnamed, List.map_map]
  exact List.map_id phrases

theorem Signature.Shows.length_eq (h : sig.Shows op) : sig.params.length = op.params.length := by
  simpa using congrArg List.length h.2

theorem Signature.Shows.getElem?_eq (h : sig.Shows op) {i : Nat} {shown : String × Option String}
    (hi : sig.params[i]? = some shown) :
    ∃ param, op.params[i]? = some param ∧ param.name = shown.1 ∧
      param.required = shown.2.isNone := by
  have same := congrArg (fun params => params[i]?) h.2
  simp only [List.getElem?_map, hi, Option.map_some] at same
  obtain ⟨param, hparam, heq⟩ := Option.map_eq_some_iff.mp same.symm
  exact ⟨param, hparam, congrArg Prod.fst heq, congrArg Prod.snd heq⟩

theorem Signature.Shows.accepts (h : sig.Shows op) {count : Nat} (fits : sig.Fits count) :
    op.Accepts (List.replicate count none) := by
  have unnamed : ∀ key : String, some key ∉ List.replicate count none := fun key hmem =>
    absurd (List.eq_of_mem_replicate hmem) (by simp)
  refine ⟨List.pairwise_replicate.mpr (.inr id), ?_, fun key hmem => absurd hmem (unnamed key), ?_,
    fun slot param _ _ => unnamed param.name, fun slot param hparam required => ?_⟩
  · rw [List.count_replicate_self, ← h.length_eq]
    exact fits.room
  · rw [List.reduceOption_replicate_none]
    exact .nil
  · rw [List.count_replicate_self]
    by_contra missing
    have hslot : slot < sig.params.length := h.length_eq ▸ (List.getElem?_eq_some_iff.mp hparam).1
    obtain ⟨other, hother, -, needed⟩ := h.getElem?_eq (List.getElem?_eq_getElem hslot)
    rw [hparam] at hother
    cases hother
    have left : sig.params[slot] ∈ sig.params.drop count := by
      refine List.mem_iff_getElem?.mpr ⟨slot - count, ?_⟩
      rw [List.getElem?_drop, Nat.add_sub_cancel' (by omega), List.getElem?_eq_getElem hslot]
    have default := fits.given _ left
    rw [required, eq_comm, Option.isNone_iff_eq_none] at needed
    rw [needed] at default
    cases default

theorem Signature.Shows.zip_named (h : sig.Shows op) (fits : sig.Fits phrases.length) :
    (sig.named phrases).map (fun arg => (op.slotOf arg.1, arg.2)) =
      (List.range phrases.length).zip phrases := by
  have room := fits.room
  rw [Signature.named, List.map_map]
  refine List.ext_getElem (by simp; omega) fun i hi hi' => ?_
  have lt : i < phrases.length := by simpa using hi'
  have shown : sig.params[i]? = some sig.params[i] := List.getElem?_eq_getElem (by omega)
  obtain ⟨param, hparam, hname, -⟩ := h.getElem?_eq shown
  have slot := Operation.slotOf_of_getElem? hparam
  rw [hname] at slot
  simp [slot]

theorem Signature.Shows.honoured (h : sig.Shows op) : sig.Honoured := by
  intro phrases values read fits
  have called : op.IsCalled sig.name := .inl h.1
  have binds := Phrase.binds_of_called called read
  have accepts : op.Accepts ((Phrase.unnamed phrases).map (·.1)) := by
    rw [keys_unnamed]
    exact h.accepts fits
  obtain ⟨e, he⟩ := binds.accepted.mpr accepts
  obtain ⟨slots, rfl, -⟩ := binds.held e he
  obtain ⟨places, placed, rearranged⟩ := binds.rearranged _ he
  rw [keys_unnamed] at placed
  obtain rfl := places_of_positions placed
  refine ⟨op, slots, h.1.symm, Phrase.readAs_iff.mpr he, fun args perm => ?_⟩
  -- With its name an argument takes its slot wherever it stands.
  have keyword : ∀ arg ∈ args, ∃ param ∈ op.params, arg.1 = some param.name := by
    intro arg harg
    obtain ⟨⟨shown, phrase⟩, hmem, rfl⟩ := List.mem_map.mp (perm.mem_iff.mp harg)
    obtain ⟨i, hi⟩ := List.getElem?_of_mem (List.of_mem_zip hmem).1
    obtain ⟨param, hparam, hname, -⟩ := h.getElem?_eq hi
    exact ⟨param, List.mem_of_getElem? hparam, hname ▸ rfl⟩
  have order : ArgOrder.keywordsLast.Allows (args.map (·.1)) := by
    refine allows_keywordsLast.mpr (List.pairwise_of_forall_mem_list fun _ _ later hlater _ => ?_)
    obtain ⟨arg, harg, rfl⟩ := List.mem_map.mp hlater
    obtain ⟨param, -, hkey⟩ := keyword arg harg
    rw [hkey]
    rfl
  refine Phrase.readAs_iff.mpr (rearranged _ args _ called order (places_of_keywords keyword 0) ?_)
  have same := perm.map fun arg => (op.slotOf arg.1, arg.2)
  rw [h.zip_named fits] at same
  rwa [List.zip_map', phrases_unnamed]

end

/-! ## The prompt -/

namespace Signature

theorem ofLine?_ofList (cs : List Char) : ofLine? (String.ofList cs) = ofChars? cs := by
  rw [ofLine?, String.toList_ofList]

theorem ofLine?_append (cs : List Char) (rest : String) :
    ofLine? (String.ofList cs ++ rest) = ofChars? (cs ++ rest.toList) := by
  rw [ofLine?, String.toList_append, String.toList_ofList]

def description : Signature := ⟨"find_element_by_description", [("text", none)]⟩

end Signature

namespace Prompt

open Signature

/-- The signatures, in the order of the prompt. -/
def shown : List Signature := [
  ⟨"navigate", [("url", none)]⟩,
  ⟨"find_elements", [("by", none), ("value", none), ("within", some "none")]⟩,
  ⟨"find_element", [("by", none), ("value", none), ("within", some "none")]⟩,
  ⟨"find_nearest", [("anchor", none), ("xpath", none), ("direction", some "\"above\"")]⟩,
  ⟨"send_keys", [("element", none), ("text", none)]⟩,
  ⟨"click", [("element", none)]⟩,
  ⟨"wait", [("seconds", none)]⟩,
  ⟨"scroll", [("direction", none), ("frame", some "none")]⟩,
  ⟨"query_llm", [("text", none)]⟩,
  ⟨"query_memory", [("text", none)]⟩,
  ⟨"retrieve_information", [("prompt", none), ("entire_page", some "false")]⟩,
  description,
  ⟨"screenshot", [("element", none), ("filename", none)]⟩,
  ⟨"save", [("text", none), ("filename", none)]⟩,
  ⟨"text", [("element", none)]⟩,
  ⟨"page_text", [("entire_page", some "false")]⟩]

theorem signatures_eq : signatures = shown := by
  have lines : preambleLines.map ofLine? =
      none :: (shown.map some ++ List.replicate 15 none) := by
    simp only [preambleLines, shown, String.append_assoc, List.map_cons, List.map_nil,
      List.cons_append, List.nil_append, List.replicate, List.cons.injEq,
      and_true]
    and_intros
    -- A signature stands in the first literal of its line, so nothing behind that is looked at.
    all_goals
      first
      | with_reducible refine (ofLine?_append _ _).trans ?_
      | with_reducible refine (ofLine?_ofList _).trans ?_
      rfl
  have found := congrArg List.reduceOption lines
  rw [List.reduceOption_cons_of_none, List.reduceOption_append, List.reduceOption_replicate_none,
    List.append_nil, List.reduceOption, List.filterMap_map, List.filterMap_map] at found
  exact found.trans List.filterMap_some

/-- Apart from one, every signature shows its operation. -/
theorem signatures_show :
    List.Forall₂ (fun sig op => sig = description ∨ sig.Shows op) signatures Operation.all := by
  rw [signatures_eq]
  repeat refine .cons (.inr ⟨rfl, rfl⟩) ?_
  refine .cons (.inl rfl) ?_
  repeat refine .cons (.inr ⟨rfl, rfl⟩) ?_
  exact .nil

end Prompt

section

variable {op : Operation} {callee key : String} {phrase : Phrase} {value : Expr}
  {args : List (Option String × Phrase)}

theorem toExpr_unknown (called : op.IsCalled callee)
    (unknown : ∀ param ∈ op.params, param.name ≠ key) :
    (Phrase.call callee ((some key, phrase) :: args)).toExpr =
      .error (.unknownParameter op key) := by
  have named : Operation.ofCallee? callee = some op := Operation.ofCallee?_eq_some_iff.mpr called
  have none : op.params.findIdx? (fun param => param.name == key) = none := by
    rw [List.findIdx?_eq_none_iff]
    exact fun param hparam => beq_false_of_ne (unknown param hparam)
  simp only [Phrase.toExpr, named, Phrase.fillSlots, slotFor, none]
  rfl

theorem toExpr_unary {param : Param} {used : Option String} (called : op.IsCalled callee)
    (one : op.params = [param]) (hused : ∀ name ∈ used, name = param.name)
    (read : phrase.toExpr = .ok value) :
    (Phrase.call callee [(used, phrase)]).toExpr = .ok (.call op [some value]) := by
  have first : op.params[0]? = some param := by rw [one]; rfl
  have placed : Places op 0 [used] [0] := by
    cases used with
    | none => exact .position (by rw [one]; exact Nat.one_pos) .nil
    | some name =>
      rw [hused name rfl]
      exact .keyword first .nil
  have slots : [some value] = slotsWith op.params.length ([0].zip [value]) := by rw [one]; rfl
  refine toExpr_call_eq_ok_iff.mpr ⟨op, [some value], called, ⟨[value], .cons read .nil,
    allows_keywordsLast.mpr (List.pairwise_singleton ..), ⟨[0], placed, by simp, slots⟩, ?_⟩, rfl⟩
  intro slot _ _ _
  cases slot <;> simp

/-- The operation has the parameter of the signature under another name. -/
theorem Signature.reads_description (read : phrase.toExpr = .ok value) :
    (Phrase.call description.name (Phrase.unnamed [phrase])).ReadAs
      (.ok (.call .findElementByDescription [some value])) ∧
    (Phrase.call description.name [(some "description", phrase)]).ReadAs
      (.ok (.call .findElementByDescription [some value])) ∧
    (Phrase.call description.name (description.named [phrase])).ReadAs
      (.error (.unknownParameter .findElementByDescription "text")) := by
  have called : Operation.findElementByDescription.IsCalled description.name := .inl rfl
  refine ⟨?_, ?_, ?_⟩
  · exact Phrase.readAs_iff.mpr (toExpr_unary called rfl (by simp) read)
  · exact Phrase.readAs_iff.mpr (toExpr_unary called rfl (by simp [Param.needed]) read)
  · exact Phrase.readAs_iff.mpr (toExpr_unknown called (by simp [Operation.params, Param.needed]))

theorem Signature.not_honoured_description : ¬ description.Honoured := by
  intro honoured
  have read : Phrase.Values (Phrase.unnamed [.text "a"]) [.text "a"] := .cons rfl .nil
  have fits : description.Fits [Phrase.text "a"].length := ⟨by decide, by simp [description]⟩
  obtain ⟨op, slots, -, -, named⟩ := honoured _ _ read fits
  have accepted := (named _ (.refl _)).toExpr
  have value : (Phrase.text "a").toExpr = .ok (.text "a") := rfl
  obtain ⟨-, -, rejected⟩ := reads_description value
  cases rejected.toExpr.symm.trans accepted

theorem Prompt.mem_signatures {sig : Signature} : sig ∈ signatures ↔ sig ∈ shown := by
  rw [signatures_eq]

end

/-- A call by the names of a signature is the call by position, for every signature of the prompt
but one. That one has its operation's parameter under another name, which no call may use. -/
theorem signatures_honoured_but_one {sig : Signature} (shown : sig ∈ Prompt.signatures) :
    (sig.Honoured ↔ sig ≠ .description) ∧
    ∀ phrase value, sig = .description → phrase.toExpr = .ok value →
      (Phrase.call sig.name (Phrase.unnamed [phrase])).ReadAs
        (.ok (.call .findElementByDescription [some value])) ∧
      (Phrase.call sig.name [(some "description", phrase)]).ReadAs
        (.ok (.call .findElementByDescription [some value])) ∧
      (Phrase.call sig.name (sig.named [phrase])).ReadAs
        (.error (.unknownParameter .findElementByDescription "text")) := by
  refine ⟨⟨?_, fun other => ?_⟩, ?_⟩
  · rintro honoured rfl
    exact Signature.not_honoured_description honoured
  · obtain ⟨i, hi, rfl⟩ := List.getElem_of_mem shown
    have hi' : i < Operation.all.length := Prompt.signatures_show.length_eq ▸ hi
    exact ((Prompt.signatures_show.get hi hi').resolve_left other).honoured
  · rintro phrase value rfl read
    exact Signature.reads_description read

/-- The two parameters of `save`, in any order, and the description of an element. -/
theorem signatures_honoured_save :
    let save : Signature := ⟨"save", [("text", none), ("filename", none)]⟩
    save ∈ Prompt.signatures ∧ save.Honoured ∧
      .description ∈ Prompt.signatures ∧ ¬ Signature.description.Honoured := by
  intro save
  have saves : save ∈ Prompt.signatures := Prompt.mem_signatures.mpr (by simp [save, Prompt.shown])
  have describes : .description ∈ Prompt.signatures :=
    Prompt.mem_signatures.mpr (by simp [Prompt.shown])
  refine ⟨saves, ?_, describes, fun honoured => ?_⟩
  · exact (signatures_honoured_but_one saves).1.mpr (by simp [save, Signature.description])
  · exact (signatures_honoured_but_one describes).1.mp honoured rfl

/-- The description of an element, by the name that the prompt has for it. -/
theorem description_not_honoured :
    ¬ (∀ sig ∈ Prompt.signatures, sig.Honoured) ∧
    Action.parse "find_element_by_description(text=\"a\")" =
      .error ⟨1, "find_element_by_description(text=\"a\")",
        .unknownParameter .findElementByDescription "text"⟩ ∧
    Action.parse "find_element_by_description(\"a\")" =
      .ok ⟨[⟨1, "find_element_by_description(\"a\")", none,
        .call .findElementByDescription [some (.text "a")]⟩]⟩ := by
  have text : Spells "\"a\"".toList (.text "a") :=
    @Spells.text '"' [.plain 'a'] (.inl rfl) (by simp [Piece.Fits])
  have keyword : SpellsArg Spells "text=\"a\"".toList (some "text", .text "a") :=
    @SpellsArg.keyword _ "text".toList [] [] _ _ (by decide) isGap_nil isGap_nil text
  have named : SpellsLine "find_element_by_description(text=\"a\")".toList
      (none, .call "find_element_by_description" [(some "text", .text "a")]) :=
    .mk .none (@Spells.call "find_element_by_description".toList [] [] _ _ (by decide) .nil
      isGap_nil (.cons isGap_nil keyword (.nil isGap_nil))) .nil
  have unnamed : SpellsLine "find_element_by_description(\"a\")".toList
      (none, .call "find_element_by_description" [(none, .text "a")]) :=
    .mk .none (@Spells.call "find_element_by_description".toList [] [] _ _ (by decide) .nil
      isGap_nil (.cons isGap_nil (.positional text) (.nil isGap_nil))) .nil
  have value : (Phrase.text "a").toExpr = .ok (.text "a") := rfl
  obtain ⟨positional, -, rejected⟩ := Signature.reads_description value
  refine ⟨fun honoured => ?_, ?_, ?_⟩
  · have shown : .description ∈ Prompt.signatures :=
      Prompt.mem_signatures.mpr (by simp [Prompt.shown])
    exact Signature.not_honoured_description (honoured _ shown)
  · exact rejected.parse_line (by decide) (by decide) named
  · exact positional.parse_line (by decide) (by decide) unnamed

end BrowserAgent
