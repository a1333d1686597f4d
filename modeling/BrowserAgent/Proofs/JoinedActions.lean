import BrowserAgent.Proofs.JoinedLines
import BrowserAgent.Proofs.Rehearsed
import BrowserAgent.Proofs.Replaying

/-!
# Joined actions

A document without its steps holds the actions of its records as one program. In it the names bound
by one action are there for the next, but an action that runs by itself asks for none of them: with
more names it does the same. So actions that all run do the same joined as they do one by one.
-/

namespace BrowserAgent

variable {μ ν σ : Type}

/-! ## More names -/

/-- What the first names stand for the second stand for too. -/
def Bindings.Within (b b' : Bindings) : Prop :=
  ∀ name value, b.find? name = some value → b'.find? name = some value

namespace Bindings.Within

variable {b b' : Bindings}

theorem nil (b : Bindings) : Bindings.Within [] b := by
  intro name value h
  cases h

theorem insert (h : b.Within b') (name : String) (value : Value) :
    Bindings.Within (b.insert name value) (b'.insert name value) := by
  intro other found hfound
  rw [Table.find?_insert] at hfound ⊢
  split at hfound
  · next heq => rwa [if_pos heq]
  · next hne => rw [if_neg hne, h other found hfound]

end Bindings.Within

theorem itemValue_within {b b' : Bindings} (h : b.Within b') {name : String} {index : Nat}
    {value : Value} (hv : itemValue b name index = .ok value) :
    itemValue b' name index = .ok value := by
  cases hb : b.find? name with
  | none => simp [itemValue, hb] at hv
  | some found =>
    rw [itemValue, hb] at hv
    rw [itemValue, h name found hb, hv]

namespace Surface

variable (s : Surface σ) {b b' : Bindings}

mutual

theorem eval_covered (h : b.Within b') :
    (e : Expr) → (s.eval b e).Covered Eq (s.eval b' e)
  | .text _ | .number _ | .bool _ | .nothing => .pure rfl
  | .var name => by
    rw [eval, eval]
    cases hb : b.find? name with
    | none => exact .throw _ _
    | some value =>
      rw [h name value hb]
      exact .refl _
  | .item name index => by
    rw [eval, eval]
    exact .ofExcept fun value hv => ⟨value, itemValue_within h hv, rfl⟩
  | .call op args => by
    rw [eval, eval]
    refine (evalArgs_covered h op op.params args).bind ?_
    rintro values _ rfl
    exact .refl _

theorem evalArgs_covered (h : b.Within b') (op : Operation) :
    (params : List Param) → (args : List (Option Expr)) →
      (s.evalArgs b op params args).Covered Eq (s.evalArgs b' op params args)
  | [], _ => by
    rw [evalArgs, evalArgs]
    exact .refl _
  | p :: params, some arg :: args => by
    rw [evalArgs, evalArgs]
    refine (eval_covered h arg).bind ?_
    rintro value _ rfl
    refine (Run.Covered.refl _).bind ?_
    rintro value _ rfl
    refine (evalArgs_covered h op params args).bind ?_
    rintro values _ rfl
    exact .refl _
  | p :: params, none :: args => by
    rw [evalArgs, evalArgs]
    refine (Run.Covered.refl _).bind ?_
    rintro value _ rfl
    refine (evalArgs_covered h op params args).bind ?_
    rintro values _ rfl
    exact .refl _
  | p :: params, [] => by
    simp only [evalArgs]
    exact .refl _

end

/-- With more names, and on other lines, the same statements run as they did. -/
theorem runStatements_covered (h : b.Within b') {statements statements' : List Statement}
    (same : statements'.map (·.code) = statements.map (·.code)) :
    (s.runStatements b statements).Covered Bindings.Within (s.runStatements b' statements') := by
  induction statements generalizing b b' statements' with
  | nil =>
    obtain rfl := List.map_eq_nil_iff.mp same
    exact .pure h
  | cons statement more ih =>
    obtain ⟨statement', more', rfl, code, same⟩ := List.map_eq_cons_iff.mp same
    obtain ⟨binding, expr⟩ := Prod.mk.inj code
    rw [runStatements, runStatements, binding, expr]
    refine ((eval_covered s h _).adapt _ _).bind ?_
    rintro value _ rfl
    cases statement.binding with
    | some name => exact ih (h.insert name value) same
    | none => exact ih h same

theorem runStatements_append (b : Bindings) (statements more : List Statement) :
    s.runStatements b (statements ++ more) =
      (s.runStatements b statements >>= fun b => s.runStatements b more) := by
  induction statements generalizing b with
  | nil => rfl
  | cons statement statements ih =>
    rw [List.cons_append, runStatements, runStatements, bind_assoc]
    congr 1
    funext value
    cases statement.binding with
    | some name => exact ih _
    | none => exact ih _

theorem runWhole_eq_ok {s : Surface σ} {action : String} {browser after : σ} :
    (s.runWhole action).run browser = (.ok (), after) ↔
      ∃ program bindings, Action.parse action = .ok program ∧ program.statements ≠ [] ∧
        (s.runStatements [] program.statements).run browser = (.ok bindings, after) := by
  rw [runWhole]
  cases Action.parse action with
  | error e =>
    constructor
    · rintro ⟨⟩
    · rintro ⟨_, _, ⟨⟩, _⟩
  | ok program =>
    simp only []
    split
    · next none =>
      constructor
      · rintro ⟨⟩
      · rintro ⟨_, _, ⟨⟩, some, _⟩
        exact absurd (List.isEmpty_iff.mp none) some
    · next some =>
      rw [Run.run_discard_ok_iff]
      constructor
      · rintro ⟨bindings, ran⟩
        exact ⟨program, bindings, rfl, fun h => some (List.isEmpty_iff.mpr h), ran⟩
      · rintro ⟨_, bindings, ⟨⟩, _, ran⟩
        exact ⟨bindings, ran⟩

/-! ## One program -/

/-- The statements of actions that all run, read from any line on, run in any names as the actions
do one by one. -/
theorem joined_covered {s : Surface σ} {actions : List String} {browser : σ}
    (h : s.firstFailure? actions browser = none) (n : Nat) (b : Bindings) :
    ∃ statements b', Action.statementsFrom n (actions.flatMap Text.pieces) = .ok statements ∧
      (s.runStatements b statements).run browser = (.ok b', s.afterActions actions browser) ∧
      (actions ≠ [] → statements ≠ []) := by
  induction actions generalizing n b browser with
  | nil => exact ⟨[], b, rfl, rfl, by simp⟩
  | cons action more ih =>
    obtain ⟨after, whole, later⟩ := firstFailure?_cons_eq_none.mp h
    obtain ⟨program, own, parsed, some, ran⟩ := runWhole_eq_ok.mp whole
    -- The same statements on later lines, run where earlier actions bound names.
    obtain ⟨placed, readPlaced, same⟩ := Action.statementsFrom_code (Action.parse_eq_ok.mp parsed) n
    obtain ⟨bound, ranPlaced, -⟩ :=
      runStatements_covered s (.nil b) same browser own after ran
    obtain ⟨others, b', readOthers, ranOthers, -⟩ := ih later (n + (Text.pieces action).length) bound
    refine ⟨placed ++ others, b', Action.statementsFrom_append readPlaced readOthers, ?_, ?_⟩
    · rw [runStatements_append, Run.run_bind_ok_iff, afterActions, List.foldl_cons, whole]
      exact ⟨bound, after, ranPlaced, ranOthers⟩
    · rintro - none
      rw [List.append_eq_nil_iff.mp none |>.1, List.map_nil] at same
      exact some (List.map_eq_nil_iff.mp same.symm)

theorem flatMap_pieces_ne_nil {actions : List String} (h : actions ≠ []) :
    actions.flatMap Text.pieces ≠ [] := by
  obtain ⟨action, more, rfl⟩ := List.exists_cons_of_ne_nil h
  exact List.append_ne_nil_of_left_ne_nil (Text.pieces_ne_nil action) _

theorem joined_run {s : Surface σ} {actions : List String} {browser : σ} (h : actions ≠ [])
    (unfailing : s.firstFailure? actions browser = none) :
    (s.runWhole (Text.unlines (actions.flatMap Text.pieces))).run browser =
      (.ok (), s.afterActions actions browser) := by
  obtain ⟨statements, b, read, ran, some⟩ := joined_covered unfailing 1 []
  refine runWhole_eq_ok.mpr ⟨⟨statements⟩, b, ?_, some h, ran⟩
  rwa [Action.parse_eq_ok, Text.pieces_unlines (flatMap_pieces_ne_nil h)]
  intro line hline
  obtain ⟨action, -, hline⟩ := List.mem_flatMap.mp hline
  exact Text.notMem_of_mem_pieces hline

end Surface

/-! ## Replays of the document -/

/-- The document with the boundaries between its records lost. -/
def Document.withoutSteps (d : Document) : Document := { d with steps := none }

/-- The one record of the lines of all. -/
def ActionRecord.joined (records : List ActionRecord) : ActionRecord :=
  ⟨⟨Text.unlines (Document.flatten records).1⟩, Text.unlines (Document.flatten records).2⟩

theorem ActionRecord.action_joined (records : List ActionRecord) :
    (joined records).action =
      Text.unlines ((records.map (·.action)).flatMap Text.pieces) := by
  rw [List.flatMap_map]
  rfl

theorem Document.plan_withoutSteps {records : List ActionRecord} (h : records ≠ []) :
    (Document.ofRecords records).withoutSteps.plan true =
      .ok (.replay [.joined records] false) := by
  obtain ⟨r, more, rfl⟩ := List.exists_cons_of_ne_nil h
  have lines : (Document.flatten (r :: more)).2 ≠ [] :=
    List.append_ne_nil_of_left_ne_nil (Text.pieces_ne_nil r.action) _
  have actions : (Document.flatten (r :: more)).2.isEmpty = false :=
    List.isEmpty_eq_false_iff.mpr lines
  simp [plan, withoutSteps, hasActions, stepRecords, actionLines, ofRecords, actions,
    ActionRecord.joined]

/-- Replayed as one, records that all run lead the surface to where they lead it one by one. -/
theorem Surface.replayed_joined {s : Surface σ} {records : List ActionRecord} {browser : σ}
    (filled : records ≠ [])
    (unfailing : s.firstFailure? (records.map (·.action)) browser = none) :
    s.firstFailure? ([ActionRecord.joined records].map (·.action)) browser = none ∧
      s.afterActions ([ActionRecord.joined records].map (·.action)) browser =
        s.afterActions (records.map (·.action)) browser := by
  have run := joined_run (by simpa using filled) unfailing
  rw [List.map_singleton, ActionRecord.action_joined]
  exact ⟨firstFailure?_cons_eq_none.mpr ⟨_, run, rfl⟩, congrArg Prod.snd run⟩

/-- Of any records that all run where they are replayed one by one: without its steps their document
is planned to be replayed as one record, and from where the surface was at first that succeeds, gives
the surface the same commands and leaves it the same. -/
theorem Agent.joined_replay_agrees (a : Agent μ σ) (b : Agent ν σ) (same : b.surface = a.surface)
    {records : List ActionRecord} (filled : records ≠ []) {s : Session μ σ} {t : Session ν σ}
    (start : t.browser = s.browser)
    (unfailing : a.surface.firstFailure? (records.map (·.action)) s.browser = none) :
    let steps := [Call.replay records true]
    let legacy := [Call.replay [.joined records] false]
    (a.replay records true s).1 = .ok (a.after steps s).summary ∧
      (Document.ofRecords records).withoutSteps.plan true =
        .ok (.replay [.joined records] false) ∧
      (b.replay [.joined records] false t).1 = .ok (b.after legacy t).summary ∧
      b.commands legacy t = a.commands steps s ∧
      (b.after legacy t).browser = (a.after steps s).browser := by
  intro steps legacy
  obtain ⟨unfailing', browser⟩ := Surface.replayed_joined filled unfailing
  have watched : a.surface.watched.firstFailure? (records.map (·.action)) (s.browser, []) = none :=
    (Surface.firstFailure?_alike a.surface.watched_alike _ rfl).trans unfailing
  obtain ⟨-, commands⟩ := Surface.replayed_joined filled watched
  rw [← same, ← start] at unfailing'
  obtain ⟨m, replayed⟩ := a.replay_of_unfailing unfailing true
  obtain ⟨m', replayed'⟩ := b.replay_of_unfailing unfailing' false
  have after : a.after steps s = (a.replay records true s).2 := rfl
  have after' : b.after legacy t = (b.replay [.joined records] false t).2 := rfl
  refine ⟨?_, Document.plan_withoutSteps filled, ?_, ?_, ?_⟩
  · rw [after, replayed]
  · rw [after', replayed']
  · rw [b.commands_replay unfailing', a.commands_replay unfailing, same, start]
    exact congrArg Prod.snd commands
  · rw [after, after', replayed, replayed', same, start]
    exact browser

/-- Two actions that read the page. -/
theorem Agent.rehearsed_joined_replay_agrees :
    let records : List ActionRecord := [⟨⟨"Read"⟩, "page_text()"⟩, ⟨⟨"Read again"⟩, "page_text()"⟩]
    let start : Session ScriptedModel Rehearsal := .start [] (.ofAnswers []) .new
    records ≠ [] ∧
      rehearsed.surface.firstFailure? (records.map (·.action)) start.browser = none ∧
      rehearsed.commands [.replay [.joined records] false] start =
        rehearsed.commands [.replay records true] start := by
  intro records start
  have unfailing : rehearsed.surface.firstFailure? (records.map (·.action)) start.browser = none :=
    Surface.firstFailure?_cons_eq_none.mpr ⟨_, run_pageText rfl,
      Surface.firstFailure?_cons_eq_none.mpr ⟨_, run_pageText rfl, rfl⟩⟩
  obtain ⟨-, -, -, commands, -⟩ := joined_replay_agrees rehearsed rehearsed rfl
    (List.cons_ne_nil _ _) (t := start) rfl unfailing
  exact ⟨List.cons_ne_nil _ _, unfailing, commands⟩

end BrowserAgent
