import BrowserAgent.Proofs.ReachedNames
import BrowserAgent.Surface.Rehearsal

/-!
# Arguments that fit

Evaluation gives a call one value for each parameter, of a kind that the parameter takes. So the
command of the call is made from slots that there are and from values of the kinds it asks for. Only
a text that is to be a number can still be none.
-/

namespace BrowserAgent

open Number

variable {σ α β : Type}

/-- A value is missing, or is not of the kind that is wanted at its place. -/
def EvalError.IsKindError : EvalError → Prop
  | .missingArgument .. | .unfitArgument .. | .mismatch .. | .notAList .. => True
  | _ => False

namespace CallArgs

/-- One value for each parameter, which accepts it. -/
def Fit (a : CallArgs) : Prop :=
  List.Forall₂ (fun (p : Param) value => p.accepts value = true) a.op.params a.values

/-- The call is to wait for a text that is no number, and the error says so. -/
def SpellsNoNumber (a : CallArgs) (e : EvalError) : Prop :=
  ∃ text, a.op = .wait ∧ a.values = [.text text] ∧
    Decimal.readNumber? double (Text.trim text) = none ∧
    e = .mismatch .wait "seconds" "number" (.text text)

end CallArgs

/-! ## Values that evaluation gives -/

theorem absentValue_accepted {op : Operation} {p : Param} {value : Value}
    (h : absentValue op p = .ok value) : p.accepts value = true := by
  obtain ⟨optional, rfl⟩ := Surface.absentValue_ok_iff.mp h
  simp [Param.accepts, optional]

theorem absentValues_accepted {op : Operation} {params : List Param} {values : List Value}
    (h : params.mapM (absentValue op) = .ok values) :
    List.Forall₂ (fun (p : Param) value => p.accepts value = true) params values := by
  induction params generalizing values with
  | nil =>
    cases h
    exact .nil
  | cons p params ih =>
    rw [List.mapM_cons] at h
    obtain ⟨value, first, h⟩ := bind_eq_ok_iff.mp h
    obtain ⟨more, rest, ⟨⟩⟩ := bind_eq_ok_iff.mp h
    exact .cons (absentValue_accepted first) (ih rest)

namespace Surface

variable {s : Surface σ} {b : Bindings} {op : Operation}

/-- However many arguments there are, each parameter gets one value, which it accepts. -/
theorem evalArgs_accepted : {params : List Param} → {args : List (Option Expr)} →
    {state after : σ} → {values : List Value} →
    (s.evalArgs b op params args).run state = (.ok values, after) →
    List.Forall₂ (fun (p : Param) value => p.accepts value = true) params values
  | [], _, _, _, _, h => by
    rw [evalArgs] at h
    cases h
    exact .nil
  | p :: params, some arg :: args, _, _, _, h => by
    rw [evalArgs] at h
    obtain ⟨value, _, -, h⟩ := Run.run_bind_ok_iff.mp h
    obtain ⟨checked, _, fits, h⟩ := Run.run_bind_ok_iff.mp h
    obtain ⟨more, _, rest, ⟨⟩⟩ := Run.run_bind_ok_iff.mp h
    obtain ⟨accepted, rfl⟩ := checkedValue_ok_iff.mp (Run.run_ofExcept_ok_iff.mp fits).1
    exact .cons accepted (evalArgs_accepted rest)
  | p :: params, none :: args, _, _, _, h => by
    rw [evalArgs] at h
    obtain ⟨value, _, absent, h⟩ := Run.run_bind_ok_iff.mp h
    obtain ⟨more, _, rest, ⟨⟩⟩ := Run.run_bind_ok_iff.mp h
    exact .cons (absentValue_accepted (Run.run_ofExcept_ok_iff.mp absent).1)
      (evalArgs_accepted rest)
  | p :: params, [], _, _, _, h => by
    simp only [evalArgs] at h
    exact absentValues_accepted (Run.run_ofExcept_ok_iff.mp h).1

end Surface

/-! ## Slots that are looked at -/

/-- Why a call gets no command: a slot is looked at that there is not, or the values give none. -/
inductive DispatchError where
  | noSlot (slot : Nat)
  | failed (cause : EvalError)

/-- What is read from the slot, if there is such a slot. -/
def CallArgs.look (a : CallArgs) (slot : Nat) (read : CallArgs → Nat → Except EvalError α) :
    Except DispatchError α :=
  if slot < a.values.length then (read a slot).mapError .failed else .error (.noSlot slot)

open CallArgs in
/-- The command of a call, where it is an error to look at a slot that there is not. -/
def dispatch (a : CallArgs) : Except DispatchError Command :=
  match a.op with
  | .navigate => do return .navigate (← a.look 0 text)
  | .findElements | .findElement => do
    let strategy ← (a.choice (Strategy.read (← a.look 0 text))).mapError .failed
    return .findElements strategy (← a.look 1 text) (← a.look 2 element?)
  | .findNearest => do
    let anchor ← a.look 0 element
    let xpath ← a.look 1 text
    match ← a.look 2 text? with
    | some direction =>
      return .findNearest anchor xpath
        (← (a.choice (NearDirection.read direction)).mapError .failed)
    | none => return .findNearest anchor xpath .above
  | .sendKeys => do
    let text ← a.look 1 text
    return .sendKeys (← a.look 0 element?) text
  | .click => do return .click (← a.look 0 element)
  | .wait => do
    let seconds ← a.look 0 number
    match Duration.ofSeconds seconds with
    | .ok duration => return .wait duration
    | .error cause => throw (.failed (.invalidDuration a.op seconds cause))
  | .scroll => do
    let direction ← (a.choice (ScrollDirection.read (← a.look 0 text))).mapError .failed
    return .scroll direction (← a.look 1 element?)
  | .queryLlm => do return .queryLlm (← a.look 0 text)
  | .queryMemory => do return .queryMemory (← a.look 0 text)
  | .retrieveInformation => do return .retrieve (← a.look 0 text) (← a.look 1 flag)
  | .findElementByDescription => do return .findByDescription (← a.look 0 text)
  | .screenshot => do return .screenshot (← a.look 0 element) (← a.look 1 text)
  | .save => do
    let text ← a.look 0 text
    let filename ← a.look 1 CallArgs.text
    if Text.isBlankText filename then throw (.failed (.emptyFilename a.op))
    return .save text filename
  | .text => do return .elementText (← a.look 0 element)
  | .pageText => do return .pageText (← a.look 0 flag)

/-- Without a value nothing is read. -/
example : dispatch ⟨.retrieveInformation, [.text "title"]⟩ = .error (.noSlot 1) := rfl

/-- The first ends as the second does, without a kind error that is not allowed. -/
structure Settled (allowed : EvalError → Prop) (x : Except DispatchError α)
    (y : Except EvalError α) : Prop where
  same : x = y.mapError .failed
  kinds : ∀ e, y = .error e → e.IsKindError → allowed e

namespace Settled

variable {allowed : EvalError → Prop}

theorem ok (value : α) : Settled allowed (.ok value) (.ok value) := by
  refine ⟨rfl, ?_⟩
  rintro e ⟨⟩

theorem error {e : EvalError} (h : ¬e.IsKindError) :
    Settled allowed (.error (.failed e) : Except DispatchError α) (.error e) := by
  refine ⟨rfl, ?_⟩
  rintro _ ⟨⟩ kind
  exact absurd kind h

theorem bind {x : Except DispatchError α} {y : Except EvalError α}
    {f : α → Except DispatchError β} {g : α → Except EvalError β} (h : Settled allowed x y)
    (hf : ∀ value, Settled allowed (f value) (g value)) :
    Settled allowed (x >>= f) (y >>= g) := by
  obtain ⟨rfl, kinds⟩ := h
  cases y with
  | error e =>
    refine ⟨rfl, ?_⟩
    rintro _ ⟨⟩ kind
    exact kinds e rfl kind
  | ok value => exact hf value

theorem look {a : CallArgs} {slot : Nat} {read : CallArgs → Nat → Except EvalError α}
    (inside : slot < a.values.length) (h : ∃ value, read a slot = .ok value) :
    Settled allowed (a.look slot read) (read a slot) := by
  obtain ⟨value, hv⟩ := h
  rw [CallArgs.look, if_pos inside, hv]
  exact .ok value

theorem choice (a : CallArgs) (result : Except ChoiceError α) :
    Settled allowed ((a.choice result).mapError .failed) (a.choice result) := by
  cases result with
  | error cause => exact .error id
  | ok value => exact .ok value

end Settled

/-! ## Values that fit -/

namespace CallArgs.Fit

variable {a : CallArgs} {allowed : EvalError → Prop} {name : String} {required : Bool}

theorem slot (h : a.Fit) {slot : Nat} {p : Param} (hp : a.op.params[slot]? = some p) :
    slot < a.values.length ∧ p.accepts (a.value slot) = true := by
  obtain ⟨inside, rfl⟩ := List.getElem?_eq_some_iff.mp hp
  have inside' : slot < a.values.length := by rwa [← List.Forall₂.length_eq h]
  refine ⟨inside', ?_⟩
  rw [CallArgs.value, List.getD_eq_getElem?_getD, List.getElem?_eq_getElem inside']
  exact List.Forall₂.get h inside inside'

theorem read (h : a.Fit) {slot : Nat} {p : Param} (hp : a.op.params[slot]? = some p)
    {read : CallArgs → Nat → Except EvalError α}
    (takes : ∀ value, a.value slot = value → p.accepts value = true →
      ∃ found, read a slot = .ok found) :
    Settled allowed (a.look slot read) (read a slot) := by
  obtain ⟨inside, accepted⟩ := h.slot hp
  exact .look inside (takes _ rfl accepted)

theorem text (h : a.Fit) (slot : Nat) (hp : a.op.params[slot]? = some ⟨name, .text, true⟩) :
    Settled allowed (a.look slot CallArgs.text) (a.text slot) := by
  refine h.read hp fun value hv accepted => ?_
  rw [CallArgs.text, CallArgs.text?, hv]
  cases value with
  | text value => exact ⟨value, rfl⟩
  | number value => exact ⟨_, rfl⟩
  | _ => simp [Param.accepts] at accepted

theorem text? (h : a.Fit) (slot : Nat) (hp : a.op.params[slot]? = some ⟨name, .text, required⟩) :
    Settled allowed (a.look slot CallArgs.text?) (a.text? slot) := by
  refine h.read hp fun value hv accepted => ?_
  rw [CallArgs.text?, hv]
  cases value with
  | nothing => exact ⟨none, rfl⟩
  | text value => exact ⟨some value, rfl⟩
  | number value => exact ⟨some _, rfl⟩
  | _ => simp [Param.accepts] at accepted

theorem element (h : a.Fit) (slot : Nat)
    (hp : a.op.params[slot]? = some ⟨name, .element, true⟩) :
    Settled allowed (a.look slot CallArgs.element) (a.element slot) := by
  refine h.read hp fun value hv accepted => ?_
  rw [CallArgs.element, CallArgs.element?, hv]
  cases value with
  | element value => exact ⟨value, rfl⟩
  | _ => simp [Param.accepts] at accepted

theorem element? (h : a.Fit) (slot : Nat)
    (hp : a.op.params[slot]? = some ⟨name, .maybeElement, required⟩) :
    Settled allowed (a.look slot CallArgs.element?) (a.element? slot) := by
  refine h.read hp fun value hv accepted => ?_
  rw [CallArgs.element?, hv]
  cases value with
  | nothing => exact ⟨none, rfl⟩
  | element value => exact ⟨some value, rfl⟩
  | _ => simp [Param.accepts] at accepted

theorem flag (h : a.Fit) (slot : Nat) (hp : a.op.params[slot]? = some ⟨name, .bool, required⟩) :
    Settled allowed (a.look slot CallArgs.flag) (a.flag slot) := by
  refine h.read hp fun value hv accepted => ?_
  rw [CallArgs.flag, hv]
  cases value with
  | nothing => exact ⟨false, rfl⟩
  | bool value => exact ⟨value, rfl⟩
  | _ => simp [Param.accepts] at accepted

theorem seconds {values : List Value} (h : Fit ⟨.wait, values⟩) :
    Settled (SpellsNoNumber ⟨.wait, values⟩) (look ⟨.wait, values⟩ 0 CallArgs.number)
      (CallArgs.number ⟨.wait, values⟩ 0) := by
  obtain _ | @⟨_, value, _, _, accepted, ⟨⟩⟩ := h
  cases value with
  | number value => exact .look Nat.one_pos ⟨value, rfl⟩
  | text text =>
    cases hn : Decimal.readNumber? double (Text.trim text) with
    | some value =>
      refine .look Nat.one_pos ⟨value, ?_⟩
      simp [CallArgs.number, CallArgs.value, Value.number?, hn]
    | none =>
      have refused : CallArgs.number ⟨.wait, [.text text]⟩ 0 =
          .error (.mismatch .wait "seconds" "number" (.text text)) := by
        simp [CallArgs.number, CallArgs.value, Value.number?, hn]
        rfl
      refine ⟨if_pos Nat.one_pos, fun e he _ => ?_⟩
      rw [refused] at he
      cases he
      exact ⟨text, rfl, rfl, hn, rfl⟩
  | _ => simp [Param.needed, Param.accepts] at accepted

end CallArgs.Fit

/-- If the values fit, the command is made from slots that there are, without a kind error but for
the one about a text that is no number. -/
theorem dispatch_settled {a : CallArgs} (h : a.Fit) :
    Settled a.SpellsNoNumber (dispatch a) (commandOf a) := by
  -- Both operations that look for elements have the same parameters.
  have lookup {a : CallArgs} (h : a.Fit)
      (same : a.op.params = Operation.findElements.params) :
      Settled a.SpellsNoNumber
        (do
          let strategy ← (a.choice (Strategy.read (← a.look 0 CallArgs.text))).mapError .failed
          return Command.findElements strategy (← a.look 1 CallArgs.text)
            (← a.look 2 CallArgs.element?))
        (do
          let strategy ← a.choice (Strategy.read (← a.text 0))
          return Command.findElements strategy (← a.text 1) (← a.element? 2)) := by
    refine (h.text 0 (by rw [same]; rfl)).bind fun word => ?_
    refine (Settled.choice a _).bind fun strategy => ?_
    refine (h.text 1 (by rw [same]; rfl)).bind fun value => ?_
    exact (h.element? 2 (by rw [same]; rfl)).bind fun within => .ok _
  obtain ⟨op, values⟩ := a
  cases op with
  | navigate => exact (h.text 0 rfl).bind fun _ => .ok _
  | findElements => exact lookup h rfl
  | findElement => exact lookup h rfl
  | findNearest =>
    refine (h.element 0 rfl).bind fun anchor => ?_
    refine (h.text 1 rfl).bind fun xpath => ?_
    refine (h.text? 2 rfl).bind fun direction => ?_
    cases direction with
    | none => exact .ok _
    | some direction => exact (Settled.choice _ _).bind fun _ => .ok _
  | sendKeys =>
    refine (h.text 1 rfl).bind fun text => ?_
    exact (h.element? 0 rfl).bind fun _ => .ok _
  | click => exact (h.element 0 rfl).bind fun _ => .ok _
  | wait =>
    refine h.seconds.bind fun seconds => ?_
    cases Duration.ofSeconds seconds with
    | error cause => exact .error id
    | ok duration => exact .ok _
  | scroll =>
    refine (h.text 0 rfl).bind fun word => ?_
    refine (Settled.choice _ _).bind fun direction => ?_
    exact (h.element? 1 rfl).bind fun _ => .ok _
  | queryLlm => exact (h.text 0 rfl).bind fun _ => .ok _
  | queryMemory => exact (h.text 0 rfl).bind fun _ => .ok _
  | retrieveInformation =>
    refine (h.text 0 rfl).bind fun prompt => ?_
    exact (h.flag 1 rfl).bind fun _ => .ok _
  | findElementByDescription => exact (h.text 0 rfl).bind fun _ => .ok _
  | screenshot =>
    refine (h.element 0 rfl).bind fun element => ?_
    exact (h.text 1 rfl).bind fun _ => .ok _
  | save =>
    refine (h.text 0 rfl).bind fun text => ?_
    refine (h.text 1 rfl).bind fun filename => ?_
    cases Text.isBlankText filename with
    | true => exact .error id
    | false => exact .ok _
  | text => exact (h.element 0 rfl).bind fun _ => .ok _
  | pageText => exact (h.flag 0 rfl).bind fun _ => .ok _

theorem CallArgs.SpellsNoNumber.commandOf {a : CallArgs} {e : EvalError} (h : a.SpellsNoNumber e) :
    commandOf a = .error e := by
  obtain ⟨op, values⟩ := a
  obtain ⟨text, rfl, rfl, hn, rfl⟩ := h
  simp [BrowserAgent.commandOf, CallArgs.number, CallArgs.value, Value.number?, hn]
  rfl

theorem replyValue_kinds {op : Operation} {c : Command} {reply : c.Reply} {e : EvalError}
    (h : replyValue op c reply = .error e) : ¬e.IsKindError := by
  cases c with
  | findElements strategy value within =>
    change List Element at reply
    simp only [replyValue] at h
    split at h
    · cases reply with
      | nil =>
        cases h
        exact id
      | cons e more => cases h
    · cases h
  | _ => cases h

namespace Surface

/-- A call makes sure of the kinds of its values before it makes its command: its values are one
for each parameter, its command is made from slots that there are, and every kind error comes from
the evaluation of the arguments, but for the one about a text that is no number. -/
theorem kinds_settled_by_arguments (s : Surface σ) (b : Bindings) (op : Operation)
    (args : List (Option Expr)) (state after : σ) :
    (∀ values, (s.evalArgs b op op.params args).run state = (.ok values, after) →
      values.length = op.params.length ∧
        dispatch ⟨op, values⟩ = (commandOf ⟨op, values⟩).mapError .failed ∧
        ∀ e : EvalError, e.IsKindError →
          (commandOf ⟨op, values⟩ = .error e ↔ CallArgs.SpellsNoNumber ⟨op, values⟩ e)) ∧
      ∀ e : EvalError, e.IsKindError →
        ((s.eval b (.call op args)).run state = (.error e, after) ↔
          (s.evalArgs b op op.params args).run state = (.error e, after) ∨
            ∃ values, (s.evalArgs b op op.params args).run state = (.ok values, after) ∧
              CallArgs.SpellsNoNumber ⟨op, values⟩ e) := by
  have settled {values : List Value} {between : σ}
      (h : (s.evalArgs b op op.params args).run state = (.ok values, between)) :
      Settled (CallArgs.SpellsNoNumber ⟨op, values⟩) (dispatch ⟨op, values⟩)
        (commandOf ⟨op, values⟩) := dispatch_settled (evalArgs_accepted h)
  refine ⟨fun values h => ⟨?_, (settled h).same, fun e kind => ?_⟩, fun e kind => ?_⟩
  · exact (List.Forall₂.length_eq (evalArgs_accepted h)).symm
  · exact ⟨fun he => (settled h).kinds e he kind, fun he => he.commandOf⟩
  · rw [eval, Run.run_bind_error_iff]
    refine or_congr_right ⟨?_, ?_⟩
    · rintro ⟨values, between, h, failed⟩
      rcases Run.run_bind_error_iff.mp failed with failed | ⟨command, _, -, failed⟩
      · obtain ⟨he, rfl⟩ := Run.run_ofExcept_error_iff.mp failed
        exact ⟨values, h, (settled h).kinds e he kind⟩
      · rcases Run.run_bind_error_iff.mp failed with failed | ⟨reply, _, -, failed⟩
        · obtain ⟨fault, -, rfl⟩ := Run.run_adapt_error_iff.mp failed
          exact absurd kind id
        · exact absurd kind (replyValue_kinds (Run.run_ofExcept_error_iff.mp failed).1)
    · rintro ⟨values, h, he⟩
      refine ⟨values, after, h, Run.run_bind_error_iff.mpr (.inl ?_)⟩
      exact Run.run_ofExcept_error_iff.mpr ⟨he.commandOf, rfl⟩

/-- To wait for a word: the evaluation of the arguments leaves the second one alone and passes the
first, which then turns out to be no number. -/
theorem wait_for_word_refused :
    let args := [some (.text "soon"), some (.var "then")]
    let refusal := EvalError.mismatch .wait "seconds" "number" (.text "soon")
    (Rehearsal.surface.evalArgs [] .wait Operation.wait.params args).run .new =
        (.ok [.text "soon"], .new) ∧
      dispatch ⟨.wait, [.text "soon"]⟩ = .error (.failed refusal) ∧
      (Rehearsal.surface.eval [] (.call .wait args)).run .new = (.error refusal, .new) := by
  intro args refusal
  have evaluated : (Rehearsal.surface.evalArgs [] .wait Operation.wait.params args).run .new =
      (.ok [.text "soon"], .new) := rfl
  have spells : CallArgs.SpellsNoNumber ⟨.wait, [.text "soon"]⟩ refusal :=
    ⟨"soon", rfl, rfl, by decide, rfl⟩
  obtain ⟨passed, refused⟩ := Rehearsal.surface.kinds_settled_by_arguments [] .wait args .new .new
  obtain ⟨-, same, kinds⟩ := passed _ evaluated
  refine ⟨evaluated, ?_, (refused refusal trivial).mpr (.inr ⟨_, evaluated, spells⟩)⟩
  rw [same, (kinds refusal trivial).mpr spells]
  rfl

end Surface

end BrowserAgent
