import BrowserAgent.Interpreter
import BrowserAgent.Proofs.RunLaws

/-!
# Statements one after the other

A run of statements is a chain of evaluations: each statement is evaluated where the names stand for
what the statements before it bound. The chain ends behind the last statement, or at the first whose
evaluation fails, and what stands behind that one makes no difference.
-/

namespace BrowserAgent

variable {σ : Type}

/-- A statement that was evaluated, and its value. -/
structure Evaluated where
  statement : Statement
  value : Value

def Statement.bind (x : Statement) (value : Value) (b : Bindings) : Bindings :=
  match x.binding with
  | some name => b.insert name value
  | none => b

/-- The failure of a statement whose expression has no value. -/
def Statement.failure (x : Statement) (cause : EvalError) : ActionFailure :=
  ⟨x.line, x.source, .notEvaluated cause⟩

def Bindings.after (b : Bindings) (done : List Evaluated) : Bindings :=
  done.foldl (fun b d => d.statement.bind d.value b) b

/-- The statements were evaluated one after the other, each without an error, from a state to
another. The names stood for the given values at first. -/
inductive Surface.Ran (s : Surface σ) : Bindings → σ → List Evaluated → σ → Prop
  | nil {b : Bindings} {state : σ} : Ran s b state [] state
  | cons {b : Bindings} {state between after : σ} {x : Statement} {value : Value}
    {done : List Evaluated} :
    (s.eval b x.expr).run state = (.ok value, between) →
    Ran s (x.bind value b) between done after → Ran s b state (⟨x, value⟩ :: done) after

/-! ## Names -/

theorem Statement.find?_bind (x : Statement) (value : Value) (b : Bindings) (name : String) :
    (x.bind value b).find? name = if x.binding = some name then some value else b.find? name := by
  unfold Statement.bind
  cases hx : x.binding with
  | none => simp
  | some bound =>
    simp only [Table.find?_insert, Option.some.injEq]
    simp only [eq_comm]

/-- The last of the statements that bind the name has the value. -/
def LastBinds (done : List Evaluated) (name : String) (value : Value) : Prop :=
  ∃ earlier d later, done = earlier ++ d :: later ∧ d.statement.binding = some name ∧
    d.value = value ∧ ∀ y ∈ later, y.statement.binding ≠ some name

theorem lastBinds_cons {d : Evaluated} {done : List Evaluated} {name : String} {value : Value} :
    LastBinds (d :: done) name value ↔ LastBinds done name value ∨
      (d.statement.binding = some name ∧ d.value = value ∧
        ∀ y ∈ done, y.statement.binding ≠ some name) := by
  constructor
  · rintro ⟨earlier, d', later, split, binds, hvalue, none⟩
    cases earlier with
    | nil =>
      obtain ⟨rfl, rfl⟩ := List.cons.inj split
      exact .inr ⟨binds, hvalue, none⟩
    | cons _ earlier =>
      obtain ⟨rfl, rfl⟩ := List.cons.inj split
      exact .inl ⟨earlier, d', later, rfl, binds, hvalue, none⟩
  · rintro (⟨earlier, d', later, rfl, rest⟩ | ⟨binds, hvalue, none⟩)
    · exact ⟨d :: earlier, d', later, rfl, rest⟩
    · exact ⟨[], d, done, rfl, binds, hvalue, none⟩

namespace Bindings

theorem after_append (b : Bindings) (done more : List Evaluated) :
    b.after (done ++ more) = (b.after done).after more := List.foldl_append

theorem find?_after_of_unbound {done : List Evaluated} {name : String}
    (h : ∀ d ∈ done, d.statement.binding ≠ some name) (b : Bindings) :
    (b.after done).find? name = b.find? name := by
  induction done generalizing b with
  | nil => rfl
  | cons d done ih =>
    obtain ⟨here, later⟩ := List.forall_mem_cons.mp h
    show ((d.statement.bind d.value b).after done).find? name = _
    rw [ih later, Statement.find?_bind, if_neg here]

theorem find?_after_of_lastBinds {done : List Evaluated} {name : String} {value : Value}
    (h : LastBinds done name value) (b : Bindings) :
    (b.after done).find? name = some value := by
  obtain ⟨earlier, d, later, rfl, binds, rfl, none⟩ := h
  rw [after_append]
  show ((d.statement.bind d.value (b.after earlier)).after later).find? name = _
  rw [find?_after_of_unbound none, Statement.find?_bind, if_pos binds]

theorem exists_lastBinds {done : List Evaluated} {name : String}
    (h : ∃ d ∈ done, d.statement.binding = some name) : ∃ value, LastBinds done name value := by
  induction done with
  | nil => simp at h
  | cons d done ih =>
    by_cases later : ∃ d ∈ done, d.statement.binding = some name
    · obtain ⟨value, last⟩ := ih later
      exact ⟨value, lastBinds_cons.mpr (.inl last)⟩
    · have none : ∀ y ∈ done, y.statement.binding ≠ some name := by simpa using later
      have here : d.statement.binding = some name := by
        obtain ⟨found, hfound, binds⟩ := h
        rcases List.mem_cons.mp hfound with rfl | hfound
        · exact binds
        · exact absurd binds (none found hfound)
      exact ⟨d.value, lastBinds_cons.mpr (.inr ⟨here, rfl, none⟩)⟩

/-- Of names that stand for nothing at first, those have a value that some statement binds, and it
is the value of the last. -/
theorem find?_after_nil_eq_some {done : List Evaluated} {name : String} {value : Value} :
    (after [] done).find? name = some value ↔ LastBinds done name value := by
  constructor
  · intro found
    by_cases bound : ∃ d ∈ done, d.statement.binding = some name
    · obtain ⟨last, hlast⟩ := exists_lastBinds bound
      rw [find?_after_of_lastBinds hlast, Option.some.injEq] at found
      exact found ▸ hlast
    · rw [find?_after_of_unbound (by simpa using bound)] at found
      cases found
  · intro last
    exact find?_after_of_lastBinds last []

theorem find?_after_nil_eq_none {done : List Evaluated} {name : String} :
    (after [] done).find? name = none ↔ ∀ d ∈ done, d.statement.binding ≠ some name := by
  constructor
  · intro unfound d hd binds
    obtain ⟨value, last⟩ := exists_lastBinds ⟨d, hd, binds⟩
    rw [find?_after_of_lastBinds last] at unfound
    cases unfound
  · intro unbound
    exact find?_after_of_unbound unbound []

end Bindings

/-! ## Runs -/

namespace Surface

variable {s : Surface σ} {b : Bindings} {state between after : σ} {xs : List Statement}
  {done : List Evaluated}

theorem runStatements_cons (s : Surface σ) (b : Bindings) (x : Statement) (more : List Statement) :
    s.runStatements b (x :: more) =
      ((s.eval b x.expr).adapt x.failure >>= fun value =>
        s.runStatements (x.bind value b) more) := by
  rw [runStatements]
  unfold Statement.bind
  congr 1
  funext value
  cases x.binding <;> rfl

theorem runStatements_ok_iff {b' : Bindings} :
    (s.runStatements b xs).run state = (.ok b', after) ↔
      ∃ done, done.map (·.statement) = xs ∧ s.Ran b state done after ∧ b' = b.after done := by
  induction xs generalizing b state with
  | nil =>
    constructor
    · rintro ⟨⟩
      exact ⟨[], rfl, .nil, rfl⟩
    · rintro ⟨done, none, ran, rfl⟩
      obtain rfl := List.map_eq_nil_iff.mp none
      cases ran
      rfl
  | cons x more ih =>
    rw [runStatements_cons, Run.run_bind_ok_iff]
    constructor
    · rintro ⟨value, between, hx, h⟩
      obtain ⟨done, rfl, ran, rfl⟩ := ih.mp h
      exact ⟨⟨x, value⟩ :: done, rfl, .cons (Run.run_adapt_ok_iff.mp hx) ran, rfl⟩
    · rintro ⟨done, same, ran, rfl⟩
      cases ran with
      | nil => simp at same
      | @cons _ _ between _ _ value done hx ran =>
        obtain ⟨rfl, rfl⟩ := List.cons.inj same
        exact ⟨value, between, Run.run_adapt_ok_iff.mpr hx, ih.mpr ⟨done, rfl, ran, rfl⟩⟩

/-- From the state the statements before `x` run, with the given values, and `x` fails. -/
inductive Stops (s : Surface σ) (b : Bindings) (state : σ) (done : List Evaluated) (x : Statement)
    (cause : EvalError) (after : σ) : Prop
  | mk {between : σ} : s.Ran b state done between →
    (s.eval (b.after done) x.expr).run between = (.error cause, after) →
    Stops s b state done x cause after

theorem runStatements_error_iff {f : ActionFailure} :
    (s.runStatements b xs).run state = (.error f, after) ↔
      ∃ done x later cause, xs = done.map (·.statement) ++ x :: later ∧
        s.Stops b state done x cause after ∧ f = x.failure cause := by
  induction xs generalizing b state with
  | nil =>
    constructor
    · rintro ⟨⟩
    · rintro ⟨done, x, later, cause, split, -⟩
      simp at split
  | cons x more ih =>
    rw [runStatements_cons, Run.run_bind_error_iff]
    constructor
    · rintro (here | ⟨value, between, hx, h⟩)
      · obtain ⟨cause, hx, rfl⟩ := Run.run_adapt_error_iff.mp here
        exact ⟨[], x, more, cause, rfl, .mk .nil hx, rfl⟩
      · obtain ⟨done, y, later, cause, rfl, ⟨ran, hy⟩, rfl⟩ := ih.mp h
        exact ⟨⟨x, value⟩ :: done, y, later, cause, rfl,
          .mk (.cons (Run.run_adapt_ok_iff.mp hx) ran) hy, rfl⟩
    · rintro ⟨done, y, later, cause, split, ⟨ran, hy⟩, rfl⟩
      cases ran with
      | nil =>
        obtain ⟨rfl, rfl⟩ := List.cons.inj split
        exact .inl (Run.run_adapt_error_iff.mpr ⟨cause, hy, rfl⟩)
      | @cons _ _ between _ _ value done hx ran =>
        obtain ⟨rfl, rfl⟩ := List.cons.inj split
        exact .inr ⟨value, between, Run.run_adapt_ok_iff.mpr hx,
          ih.mpr ⟨done, y, later, cause, rfl, .mk ran hy, rfl⟩⟩

theorem Ran.runStatements_append (h : s.Ran b state done between) (more : List Statement) :
    (s.runStatements b (done.map (·.statement) ++ more)).run state =
      (s.runStatements (b.after done) more).run between := by
  induction h with
  | nil => rfl
  | cons hx _ ih =>
    rw [List.map_cons, List.cons_append, runStatements_cons, Run.run_bind,
      Run.run_adapt_ok_iff.mpr hx]
    exact ih

theorem Stops.runStatements {x : Statement} {cause : EvalError}
    (h : s.Stops b state done x cause after) (later : List Statement) :
    (s.runStatements b (done.map (·.statement) ++ x :: later)).run state =
      (.error (x.failure cause), after) :=
  runStatements_error_iff.mpr ⟨done, x, later, cause, rfl, h, rfl⟩

/-! ## Failures of programs -/

/-- The program fails at its statement `x`: those before it run by themselves, and do not with
it. -/
structure FailsAt (s : Surface σ) (start : σ) (p : Program) (earlier : List Statement)
    (x : Statement) (f : ActionFailure) : Prop where
  stands : earlier ++ [x] <+: p.statements
  passed : ∃ b between, (s.runProgram ⟨earlier⟩).run start = (.ok b, between)
  failed : ((s.runProgram ⟨earlier ++ [x]⟩).run start).1 = .error f

theorem failsAt_iff {start : σ} {p : Program} {earlier : List Statement} {x : Statement}
    {f : ActionFailure} :
    s.FailsAt start p earlier x f ↔ earlier ++ [x] <+: p.statements ∧
      ∃ done cause after, done.map (·.statement) = earlier ∧ s.Stops [] start done x cause after ∧
        f = x.failure cause := by
  constructor
  · rintro ⟨stands, ⟨b, between, passed⟩, failed⟩
    obtain ⟨done, rfl, ran, rfl⟩ := runStatements_ok_iff.mp passed
    refine ⟨stands, ?_⟩
    obtain ⟨result, after, run⟩ : ∃ result after,
        (s.runProgram ⟨done.map (·.statement) ++ [x]⟩).run start = (result, after) := ⟨_, _, rfl⟩
    rw [run] at failed
    obtain rfl : result = .error f := failed
    rw [runProgram, ran.runStatements_append, runStatements_cons] at run
    rcases Run.run_bind_error_iff.mp run with here | ⟨value, _, _, ⟨⟩⟩
    obtain ⟨cause, hx, rfl⟩ := Run.run_adapt_error_iff.mp here
    exact ⟨done, cause, after, rfl, .mk ran hx, rfl⟩
  · rintro ⟨stands, done, cause, after, rfl, stops, rfl⟩
    refine ⟨stands, ?_, ?_⟩
    · obtain ⟨ran, -⟩ := stops
      exact ⟨_, _, runStatements_ok_iff.mpr ⟨done, rfl, ran, rfl⟩⟩
    · rw [runProgram, stops.runStatements]

theorem runProgram_fails_iff {start : σ} {p : Program} {f : ActionFailure} :
    ((s.runProgram p).run start).1 = .error f ↔ ∃ earlier x, s.FailsAt start p earlier x f := by
  constructor
  · intro failed
    have run : (s.runStatements [] p.statements).run start =
        (.error f, ((s.runProgram p).run start).2) := Prod.ext failed rfl
    obtain ⟨done, x, later, cause, split, stops, rfl⟩ := runStatements_error_iff.mp run
    refine ⟨_, x, failsAt_iff.mpr ⟨?_, done, cause, _, rfl, stops, rfl⟩⟩
    rw [split]
    exact (List.prefix_append_right_inj _).mpr ⟨later, rfl⟩
  · rintro ⟨earlier, x, fails⟩
    obtain ⟨⟨later, split⟩, done, cause, after, rfl, stops, rfl⟩ := failsAt_iff.mp fails
    rw [List.append_assoc, List.singleton_append] at split
    rw [runProgram, ← split, stops.runStatements]

end Surface

end BrowserAgent
