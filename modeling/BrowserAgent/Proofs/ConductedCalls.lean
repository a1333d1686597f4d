import BrowserAgent.Proofs.CallBlocks
import BrowserAgent.Proofs.WritableExpr

/-!
# Calls that are conducted

A program conducts its calls on every surface: each gives its one command after the calls in its
arguments have given theirs, and what stops the program on the way stops it for good.
-/

namespace BrowserAgent

variable {σ α β : Type}

/-! ## Errors and the faults behind them -/

def EvalError.fault? : EvalError → Option Fault
  | .faulted _ cause => some cause
  | _ => none

def ActionFailure.fault? (f : ActionFailure) : Option Fault :=
  match f.cause with
  | .notEvaluated cause => cause.fault?
  | _ => none

/-- A value of which `P` holds, or an error that comes from no fault. -/
def FaultFree (P : α → Prop) : Except EvalError α → Prop
  | .ok value => P value
  | .error e => e.fault? = none

/-- The call that an error is about. -/
def EvalError.operation? : EvalError → Option Operation
  | .undefined _ | .outOfRange .. | .notAList .. => none
  | .missingArgument op _ | .unfitArgument op .. | .mismatch op .. | .invalidChoice op _
  | .invalidDuration op .. | .nothingFound op .. | .emptyFilename op | .faulted op _ => some op

/-- A value of which `P` holds, or an error about the call that comes from no fault. -/
def Blaming (op : Operation) (P : α → Prop) : Except EvalError α → Prop
  | .ok value => P value
  | .error e => e.operation? = some op ∧ e.fault? = none

namespace Blaming

variable {op : Operation}

theorem bind {P : β → Prop} {x : Except EvalError α} {f : α → Except EvalError β}
    (h : Blaming op (fun _ => True) x) (hf : ∀ value, Blaming op P (f value)) :
    Blaming op P (x >>= f) := by
  cases x with
  | error e => exact h
  | ok value => exact hf value

theorem faultFree {P : α → Prop} {x : Except EvalError α} (h : Blaming op P x) : FaultFree P x := by
  cases x with
  | error e => exact h.2
  | ok value => exact h

theorem operation {P : α → Prop} {e : EvalError}
    (h : Blaming op P (.error e : Except EvalError α)) : e.operation? = some op := h.1

end Blaming

namespace CallArgs

variable (a : CallArgs) (slot : Nat)

theorem blaming_text? : Blaming a.op (fun _ => True) (a.text? slot) := by
  unfold text?
  split
  · trivial
  · split
    · trivial
    · exact ⟨rfl, rfl⟩

theorem blaming_text : Blaming a.op (fun _ => True) (a.text slot) := by
  refine (a.blaming_text? slot).bind fun found => ?_
  cases found with
  | none => exact ⟨rfl, rfl⟩
  | some s => trivial

theorem blaming_element? : Blaming a.op (fun _ => True) (a.element? slot) := by
  unfold element?
  split
  · trivial
  · trivial
  · exact ⟨rfl, rfl⟩

theorem blaming_element : Blaming a.op (fun _ => True) (a.element slot) := by
  refine (a.blaming_element? slot).bind fun found => ?_
  cases found with
  | none => exact ⟨rfl, rfl⟩
  | some e => trivial

theorem blaming_flag : Blaming a.op (fun _ => True) (a.flag slot) := by
  unfold flag
  split
  · trivial
  · trivial
  · exact ⟨rfl, rfl⟩

theorem blaming_number : Blaming a.op (fun _ => True) (a.number slot) := by
  unfold number
  split
  · trivial
  · exact ⟨rfl, rfl⟩

theorem blaming_choice (result : Except ChoiceError α) :
    Blaming a.op (fun _ => True) (a.choice result) := by
  cases result with
  | error cause => exact ⟨rfl, rfl⟩
  | ok => trivial

end CallArgs

/-- The command of a call goes by the name of the operation and switches no frame. -/
theorem commandOf_isFor (a : CallArgs) : Blaming a.op (·.IsFor a.op) (commandOf a) := by
  -- Both operations that look for elements make their command in the same way.
  have lookup (a : CallArgs) (same : Operation.findElements.name = a.op.commandName) :
      Blaming a.op (fun c : Command => c.IsFor a.op) (do
        let strategy ← a.choice (Strategy.read (← a.text 0))
        return .findElements strategy (← a.text 1) (← a.element? 2)) := by
    refine (CallArgs.blaming_text _ 0).bind fun word => ?_
    refine (CallArgs.blaming_choice _ _).bind fun strategy => ?_
    refine (CallArgs.blaming_text _ 1).bind fun value => ?_
    exact (CallArgs.blaming_element? _ 2).bind fun within => ⟨rfl, same⟩
  obtain ⟨op, values⟩ := a
  cases op with
  | navigate => exact (CallArgs.blaming_text _ 0).bind fun _ => ⟨rfl, rfl⟩
  | findElements => exact lookup _ rfl
  | findElement => exact lookup _ rfl
  | findNearest =>
    refine (CallArgs.blaming_element _ 0).bind fun anchor => ?_
    refine (CallArgs.blaming_text _ 1).bind fun xpath => ?_
    refine (CallArgs.blaming_text? _ 2).bind fun direction => ?_
    cases direction with
    | none => exact ⟨rfl, rfl⟩
    | some direction => exact (CallArgs.blaming_choice _ _).bind fun _ => ⟨rfl, rfl⟩
  | sendKeys =>
    refine (CallArgs.blaming_text _ 1).bind fun text => ?_
    exact (CallArgs.blaming_element? _ 0).bind fun _ => ⟨rfl, rfl⟩
  | click => exact (CallArgs.blaming_element _ 0).bind fun _ => ⟨rfl, rfl⟩
  | wait =>
    refine (CallArgs.blaming_number _ 0).bind fun seconds => ?_
    cases Duration.ofSeconds seconds with
    | error cause => exact ⟨rfl, rfl⟩
    | ok duration => exact ⟨rfl, rfl⟩
  | scroll =>
    refine (CallArgs.blaming_text _ 0).bind fun word => ?_
    refine (CallArgs.blaming_choice _ _).bind fun direction => ?_
    exact (CallArgs.blaming_element? _ 1).bind fun _ => ⟨rfl, rfl⟩
  | queryLlm => exact (CallArgs.blaming_text _ 0).bind fun _ => ⟨rfl, rfl⟩
  | queryMemory => exact (CallArgs.blaming_text _ 0).bind fun _ => ⟨rfl, rfl⟩
  | retrieveInformation =>
    refine (CallArgs.blaming_text _ 0).bind fun prompt => ?_
    exact (CallArgs.blaming_flag _ 1).bind fun _ => ⟨rfl, rfl⟩
  | findElementByDescription => exact (CallArgs.blaming_text _ 0).bind fun _ => ⟨rfl, rfl⟩
  | screenshot =>
    refine (CallArgs.blaming_element _ 0).bind fun element => ?_
    exact (CallArgs.blaming_text _ 1).bind fun _ => ⟨rfl, rfl⟩
  | save =>
    refine (CallArgs.blaming_text _ 0).bind fun text => ?_
    refine (CallArgs.blaming_text _ 1).bind fun filename => ?_
    cases Text.isBlankText filename with
    | true => exact ⟨rfl, rfl⟩
    | false => exact ⟨rfl, rfl⟩
  | text => exact (CallArgs.blaming_element _ 0).bind fun _ => ⟨rfl, rfl⟩
  | pageText => exact (CallArgs.blaming_flag _ 0).bind fun _ => ⟨rfl, rfl⟩

theorem replyValue_blaming (op : Operation) (c : Command) (reply : c.Reply) :
    Blaming op (fun _ => True) (replyValue op c reply) := by
  cases c with
  | findElements strategy value within =>
    change List Element at reply
    by_cases h : op = .findElement
    · cases reply with
      | nil => simp [replyValue, h, Blaming, EvalError.fault?, EvalError.operation?]
      | cons e more => simp [replyValue, h, Blaming]
    · simp [replyValue, h, Blaming]
  | _ => trivial

theorem itemValue_faultFree (b : Bindings) (name : String) (index : Nat) :
    FaultFree (fun _ => True) (itemValue b name index) := by
  unfold itemValue
  split
  · rfl
  · split
    · trivial
    · rfl
  · rfl

theorem absentValue_blaming (op : Operation) (p : Param) :
    Blaming op (fun _ => True) (absentValue op p) := by
  unfold absentValue
  split
  · exact ⟨rfl, rfl⟩
  · trivial

theorem checkedValue_blaming (op : Operation) (p : Param) (value : Value) :
    Blaming op (fun _ => True) (checkedValue op p value) := by
  unfold checkedValue
  split
  · trivial
  · exact ⟨rfl, rfl⟩

theorem absentValues_blaming (op : Operation) (params : List Param) :
    Blaming op (fun _ => True) (params.mapM (absentValue op)) := by
  induction params with
  | nil => trivial
  | cons p params ih =>
    rw [List.mapM_cons]
    refine (absentValue_blaming op p).bind fun value => ?_
    exact ih.bind fun values => trivial

/-! ## The order of calls -/

namespace Expr

mutual

/-- The operations called, each after those of its arguments. -/
def postorder : Expr → List Operation
  | .call op args => postorderOfArgs args ++ [op]
  | _ => []

def postorderOfArgs : List (Option Expr) → List Operation
  | [] => []
  | none :: args => postorderOfArgs args
  | some arg :: args => postorder arg ++ postorderOfArgs args

end

mutual

theorem postorder_perm : (e : Expr) → e.postorder.Perm e.operations
  | .call op args => by
    rw [postorder, operations]
    have swapped : (postorderOfArgs args ++ [op]).Perm ([op] ++ postorderOfArgs args) :=
      List.perm_append_comm
    exact swapped.trans ((postorderOfArgs_perm args).cons op)
  | .text _ | .number _ | .bool _ | .nothing | .var _ | .item _ _ => .refl _

theorem postorderOfArgs_perm :
    (args : List (Option Expr)) → (postorderOfArgs args).Perm (operationsOfArgs args)
  | [] => .refl _
  | none :: args => by
    rw [postorderOfArgs, operationsOfArgs]
    exact postorderOfArgs_perm args
  | some arg :: args => by
    rw [postorderOfArgs, operationsOfArgs]
    exact (postorder_perm arg).append (postorderOfArgs_perm args)

end

end Expr

def Program.postorder (p : Program) : List Operation :=
  p.statements.flatMap fun statement => statement.expr.postorder

/-! ## Calls -/

namespace Surface

variable {s : Surface σ} {ops : List Operation}

theorem ofExcept_conducts {x : Except EvalError α} (h : FaultFree (fun _ => True) x) :
    (Run.ofExcept x : Run σ EvalError α).Conducts s EvalError.fault? [] := by
  cases x with
  | error e => exact .ofError h []
  | ok value => exact .pure value

theorem bind_ofExcept_conducts {P : α → Prop} {x : Except EvalError α} (h : FaultFree P x)
    {f : α → Run σ EvalError β}
    (hf : ∀ value, P value → (f value).Conducts s EvalError.fault? ops) :
    Run.Conducts s EvalError.fault? ops (Run.ofExcept x >>= f) := by
  cases x with
  | error e => exact Run.Conducts.ofError h ops
  | ok value => exact hf value h

theorem address_conducts {c : Command} {op : Operation} (hc : c.IsFor op) :
    Run.Conducts s EvalError.fault? [op] ((s.address c).adapt (.faulted op)) := by
  intro state
  obtain ⟨b, serves, after⟩ := s.address_serves hc state
  refine ⟨[b], ?_⟩
  rw [Run.run_adapt, after]
  cases hr : ((s.address c).run state).1 with
  | error fault =>
    rw [hr] at serves
    exact .failed serves
  | ok reply =>
    rw [hr] at serves
    exact .passed serves .done

theorem carryOut_conducts (a : CallArgs) :
    (s.carryOut a).Conducts s EvalError.fault? [a.op] := by
  refine bind_ofExcept_conducts (commandOf_isFor a).faultFree fun c hc => ?_
  have address : Run.Conducts s EvalError.fault? [a.op] _ := address_conducts hc
  exact address.bind fun reply => ofExcept_conducts (replyValue_blaming a.op c reply).faultFree

mutual

/-- Whatever its names stand for, an expression conducts the same calls, which are all that are
written in it if every call has one slot for each parameter. -/
theorem eval_conducts : (e : Expr) → ∃ ops,
    (∀ b, (s.eval b e).Conducts s EvalError.fault? ops) ∧ (e.Writable → ops = e.postorder)
  | .text _ | .number _ | .bool _ | .nothing => ⟨[], fun _ => .pure _, fun _ => rfl⟩
  | .var name => by
    refine ⟨[], fun b => ?_, fun _ => rfl⟩
    rw [eval]
    cases b.find? name with
    | some value => exact .pure value
    | none => exact .ofError rfl []
  | .item name index =>
    ⟨[], fun b => ofExcept_conducts (itemValue_faultFree b name index), fun _ => rfl⟩
  | .call op args => by
    -- The calls in the arguments come first, and then the call itself.
    obtain ⟨ops, conducts, complete⟩ := evalArgs_conducts op op.params args
    refine ⟨ops ++ [op], fun b => ?_, fun writable => ?_⟩
    · rw [eval]
      exact (conducts b).bind fun values => carryOut_conducts ⟨op, values⟩
    · cases writable with
      | call length filled parts => rw [Expr.postorder, complete length parts]

theorem evalArgs_conducts (op : Operation) :
    (params : List Param) → (args : List (Option Expr)) → ∃ ops,
      (∀ b, (s.evalArgs b op params args).Conducts s EvalError.fault? ops) ∧
        (args.length = params.length → (∀ arg, some arg ∈ args → arg.Writable) →
          ops = Expr.postorderOfArgs args)
  | [], args => by
    refine ⟨[], fun b => ?_, fun length _ => ?_⟩
    · rw [evalArgs]
      exact .pure []
    · rw [List.eq_nil_of_length_eq_zero length]
      rfl
  | p :: params, some arg :: args => by
    obtain ⟨first, evaluated, whole⟩ := eval_conducts arg
    obtain ⟨ops, conducts, complete⟩ := evalArgs_conducts op params args
    refine ⟨first ++ ops, fun b => ?_, fun length parts => ?_⟩
    · rw [evalArgs]
      refine (evaluated b).bind fun value => ?_
      refine bind_ofExcept_conducts (checkedValue_blaming op p value).faultFree fun value _ => ?_
      exact (conducts b).bind_pure
    · rw [Expr.postorderOfArgs, whole (parts arg List.mem_cons_self),
        complete (Nat.succ.inj length) fun arg' h => parts arg' (List.mem_cons_of_mem _ h)]
  | p :: params, none :: args => by
    obtain ⟨ops, conducts, complete⟩ := evalArgs_conducts op params args
    refine ⟨ops, fun b => ?_, fun length parts => ?_⟩
    · rw [evalArgs]
      refine bind_ofExcept_conducts (absentValue_blaming op p).faultFree fun value _ => ?_
      exact (conducts b).bind_pure
    · rw [Expr.postorderOfArgs,
        complete (Nat.succ.inj length) fun arg' h => parts arg' (List.mem_cons_of_mem _ h)]
  | p :: params, [] => by
    -- The parameters that are left take their defaults.
    refine ⟨[], fun b => ?_, fun _ _ => rfl⟩
    simp only [evalArgs]
    exact ofExcept_conducts (absentValues_blaming op (p :: params)).faultFree

end

theorem runStatements_conducts (statements : List Statement) : ∃ ops,
    (∀ b, (s.runStatements b statements).Conducts s ActionFailure.fault? ops) ∧
      ((∀ statement ∈ statements, statement.expr.Writable) →
        ops = statements.flatMap fun statement => statement.expr.postorder) := by
  induction statements with
  | nil => exact ⟨[], fun b => .pure b, fun _ => rfl⟩
  | cons statement more ih =>
    obtain ⟨first, evaluated, whole⟩ := eval_conducts (s := s) statement.expr
    obtain ⟨ops, conducts, complete⟩ := ih
    refine ⟨first ++ ops, fun b => ?_, fun writable => ?_⟩
    · rw [runStatements]
      have adapted : Run.Conducts s ActionFailure.fault? first _ :=
        (evaluated b).adapt fun cause =>
          show ActionFailure.fault? ⟨statement.line, statement.source, .notEvaluated cause⟩ = _ from
            rfl
      refine adapted.bind fun value => ?_
      cases statement.binding with
      | some name => exact conducts _
      | none => exact conducts _
    · obtain ⟨here, later⟩ := List.forall_mem_cons.mp writable
      rw [List.flatMap_cons, whole here, complete later]

theorem runProgram_conducts (p : Program) : ∃ ops,
    (s.runProgram p).Conducts s ActionFailure.fault? ops ∧
      ((∀ statement ∈ p.statements, statement.expr.Writable) → ops = p.postorder) := by
  obtain ⟨ops, conducts, complete⟩ := runStatements_conducts (s := s) p.statements
  exact ⟨ops, conducts [], complete⟩

end Surface

end BrowserAgent
