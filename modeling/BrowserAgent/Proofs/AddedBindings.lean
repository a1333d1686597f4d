import BrowserAgent.Proofs.JoinedLines
import BrowserAgent.Proofs.ReachedNames

/-!
# Added bindings

Names may stand for more than they did, before a program starts or on the way, without a difference
to what it does, as long as it refers to none of them before it binds them itself. So a statement
whose value was thrown away may keep it under a name, and a name may be set to a value that is
already there.
-/

namespace BrowserAgent

variable {σ : Type}

/-! ## Names that may differ -/

/-- Outside of the listed names the two agree. -/
def AgreeOff (off : List String) (b b' : Bindings) : Prop :=
  ∀ name ∉ off, b'.find? name = b.find? name

namespace AgreeOff

variable {off : List String} {b b' : Bindings}

theorem bind (h : AgreeOff off b b') (x : Statement) (value : Value) :
    AgreeOff (off.filter fun name => x.binding != some name) (x.bind value b)
      (x.bind value b') := by
  intro name hname
  rw [Statement.find?_bind, Statement.find?_bind]
  by_cases bound : x.binding = some name
  · rw [if_pos bound, if_pos bound]
  · rw [if_neg bound, if_neg bound]
    refine h name fun listed => hname ?_
    exact List.mem_filter.mpr ⟨listed, by simpa using bound⟩

theorem bind_one (h : AgreeOff off b b') {x : Statement} {added : String}
    (bound : x.binding = some added) (value : Value) :
    AgreeOff (added :: off) b (x.bind value b') := by
  intro name hname
  rw [List.mem_cons, not_or] at hname
  obtain ⟨other, unlisted⟩ := hname
  rw [Statement.find?_bind, bound, if_neg (by simpa using Ne.symm other), h name unlisted]

end AgreeOff

def Defines (b : Bindings) (bound : List String) : Prop := ∀ name ∈ bound, (b.find? name).isSome

theorem Defines.bind {b : Bindings} {bound : List String} (h : Defines b bound) (x : Statement)
    (value : Value) : Defines (x.bind value b) (x.binding.toList ++ bound) := by
  intro name hname
  rw [Statement.find?_bind]
  split
  · rfl
  · next unbound =>
    rcases List.mem_append.mp hname with here | there
    · exact absurd (Option.mem_toList.mp here) unbound
    · exact h name there

/-! ## Longer programs -/

/-- It has a value without a call, where the names have values. -/
def Expr.IsQuiet (bound : List String) : Expr → Prop
  | .text _ | .number _ | .bool _ | .nothing => True
  | .var name => name ∈ bound
  | .item .. | .call .. => False

/-- The second program is the first with bindings added that it does not refer to before it rebinds
them. The names in `bound` have values at first, those in `off` may differ at first, and those in
`left` in the end. -/
inductive AddsBindings : (bound off : List String) → List Statement → List Statement →
    (left : List String) → Prop
  | done {bound off : List String} : AddsBindings bound off [] [] off
  | kept {bound off left : List String} {x y : Statement} {xs ys : List Statement} :
    y.code = x.code → (∀ name ∈ x.expr.names, name ∉ off) →
    AddsBindings (x.binding.toList ++ bound) (off.filter fun name => x.binding != some name)
      xs ys left →
    AddsBindings bound off (x :: xs) (y :: ys) left
  | named {bound off left : List String} {x y : Statement} {xs ys : List Statement}
    {added : String} :
    x.binding = none → y.code = (some added, x.expr) → (∀ name ∈ x.expr.names, name ∉ off) →
    AddsBindings (added :: bound) (added :: off) xs ys left →
    AddsBindings bound off (x :: xs) (y :: ys) left
  | inserted {bound off left : List String} {y : Statement} {xs ys : List Statement}
    {added : String} :
    y.binding = some added → y.expr.IsQuiet bound →
    AddsBindings (added :: bound) (added :: off) xs ys left →
    AddsBindings bound off xs (y :: ys) left

/-- Both ended in the same state, with values that agree off the listed names or for the same
cause. -/
inductive SameEnd (left : List String) :
    Except ActionFailure Bindings × σ → Except ActionFailure Bindings × σ → Prop
  | ok {b b' : Bindings} {state : σ} : AgreeOff left b b' →
    SameEnd left (.ok b, state) (.ok b', state)
  | failed {f f' : ActionFailure} {state : σ} : f'.cause = f.cause →
    SameEnd left (.error f, state) (.error f', state)

namespace Surface

variable {s : Surface σ} {bound off left : List String} {xs ys : List Statement} {b b' : Bindings}

theorem eval_quiet {e : Expr} (quiet : e.IsQuiet bound) (defined : Defines b bound) :
    ∃ value, s.eval b e = pure value := by
  cases e with
  | text | number | bool | nothing =>
    rw [eval]
    exact ⟨_, rfl⟩
  | var name =>
    obtain ⟨value, hvalue⟩ := Option.isSome_iff_exists.mp (defined name quiet)
    rw [eval, hvalue]
    exact ⟨value, rfl⟩
  | item | call => cases quiet

theorem eval_off {e : Expr} (agree : AgreeOff off b b') (apart : ∀ name ∈ e.names, name ∉ off) :
    s.eval b' e = s.eval b e :=
  eval_congr s e fun name hname => agree name (apart name hname)

theorem sameEnd_cons {x y : Statement} (same : s.eval b' y.expr = s.eval b x.expr) (state : σ)
    (more : ∀ value between, SameEnd left ((s.runStatements (x.bind value b) xs).run between)
      ((s.runStatements (y.bind value b') ys).run between)) :
    SameEnd left ((s.runStatements b (x :: xs)).run state)
      ((s.runStatements b' (y :: ys)).run state) := by
  rw [runStatements_cons, runStatements_cons, Run.run_bind, Run.run_bind, Run.run_adapt,
    Run.run_adapt, same]
  rcases (s.eval b x.expr).run state with ⟨cause | value, between⟩
  · exact .failed rfl
  · exact more value between

theorem runStatements_added (h : AddsBindings bound off xs ys left) (agree : AgreeOff off b b')
    (defined : Defines b' bound) (state : σ) :
    SameEnd left ((s.runStatements b xs).run state) ((s.runStatements b' ys).run state) := by
  induction h generalizing b b' state with
  | done => exact .ok agree
  | @kept bound off left x y xs ys code apart _ ih =>
    obtain ⟨binding, expr⟩ := Prod.mk.inj code
    have same : s.eval b' y.expr = s.eval b x.expr := by rw [expr, eval_off agree apart]
    refine sameEnd_cons same state fun value between => ?_
    have bind : y.bind value b' = x.bind value b' := by rw [Statement.bind, binding, Statement.bind]
    rw [bind]
    exact ih (agree.bind x value) (defined.bind x value) between
  | @named bound off left x y xs ys added unbound code apart _ ih =>
    obtain ⟨binding, expr⟩ := Prod.mk.inj code
    have same : s.eval b' y.expr = s.eval b x.expr := by rw [expr, eval_off agree apart]
    refine sameEnd_cons same state fun value between => ?_
    have unchanged : x.bind value b = b := by rw [Statement.bind, unbound]
    have more := defined.bind y value
    rw [binding] at more
    rw [unchanged]
    exact ih (agree.bind_one binding value) more between
  | @inserted bound off left y xs ys added binding quiet _ ih =>
    -- The statement only the longer program has runs without the surface.
    obtain ⟨value, hvalue⟩ := eval_quiet (s := s) quiet defined
    have more := defined.bind y value
    rw [binding] at more
    rw [runStatements_cons, hvalue]
    exact ih (agree.bind_one binding value) more state

end Surface

/-! ## More names at first -/

/-- Every statement that refers to the name stands behind one that binds it. -/
def BindsFirst (xs : List Statement) (name : String) : Prop :=
  ∀ earlier x later, xs = earlier ++ x :: later → name ∈ x.expr.names →
    ∃ y ∈ earlier, y.binding = some name

theorem BindsFirst.head {x : Statement} {xs : List Statement} {name : String}
    (h : BindsFirst (x :: xs) name) : name ∉ x.expr.names := by
  intro referred
  obtain ⟨y, hy, -⟩ := h [] x xs rfl referred
  cases hy

theorem BindsFirst.tail {x : Statement} {xs : List Statement} {name : String}
    (h : BindsFirst (x :: xs) name) (unbound : x.binding ≠ some name) : BindsFirst xs name := by
  rintro earlier y later rfl referred
  obtain ⟨z, hz, binds⟩ := h (x :: earlier) y later rfl referred
  rcases List.mem_cons.mp hz with rfl | hz
  · exact absurd binds unbound
  · exact ⟨z, hz, binds⟩

/-- Both ended the same, where the second has kept the names that the first has no value for. -/
inductive Enlarged (more : Bindings) :
    Except ActionFailure Bindings × σ → Except ActionFailure Bindings × σ → Prop
  | ok {b b' : Bindings} {state : σ} :
    (∀ name, b'.find? name = (b.find? name).or (more.find? name)) →
    Enlarged more (.ok b, state) (.ok b', state)
  | failed {f : ActionFailure} {state : σ} : Enlarged more (.error f, state) (.error f, state)

namespace Surface

variable {s : Surface σ} {b b' : Bindings} {state after : σ} {done : List Evaluated}

theorem eval_of_bindsFirst {x : Statement} {later : List Statement}
    (h : ∀ name, b'.find? name ≠ b.find? name → BindsFirst (x :: later) name) :
    s.eval b' x.expr = s.eval b x.expr := by
  refine eval_congr s x.expr fun name referred => ?_
  by_contra differs
  exact (h name differs).head referred

/-- Names that are bound before they are referred to make no difference to any value. -/
theorem Ran.of_bindsFirst {later : List Statement} (ran : s.Ran b state done after)
    (h : ∀ name, b'.find? name ≠ b.find? name →
      BindsFirst (done.map (·.statement) ++ later) name) :
    s.Ran b' state done after ∧ ∀ name, (b'.after done).find? name ≠ (b.after done).find? name →
      BindsFirst later name := by
  induction ran generalizing b' with
  | nil => exact ⟨.nil, h⟩
  | @cons b state between after x value done hx _ ih =>
    rw [List.map_cons, List.cons_append] at h
    have rest : ∀ name, (x.bind value b').find? name ≠ (x.bind value b).find? name →
        BindsFirst (done.map (·.statement) ++ later) name := by
      intro name differs
      rw [Statement.find?_bind, Statement.find?_bind] at differs
      -- A name that this statement binds stands for one value from here on, so it differs no more.
      by_cases binds : x.binding = some name
      · rw [if_pos binds, if_pos binds] at differs
        exact absurd rfl differs
      · rw [if_neg binds, if_neg binds] at differs
        exact (h name differs).tail binds
    obtain ⟨ran, left⟩ := ih rest
    rw [← eval_of_bindsFirst h] at hx
    exact ⟨.cons hx ran, left⟩

theorem runProgram_enlarged {p : Program} {more : Bindings}
    (h : ∀ name, (more.find? name).isSome → BindsFirst p.statements name) (state : σ) :
    Enlarged more ((s.runProgram p).run state) ((s.runStatements more p.statements).run state) := by
  have differing : ∀ name, more.find? name ≠ Table.find? [] name →
      BindsFirst p.statements name :=
    fun name differs => h name (Option.isSome_iff_ne_none.mpr differs)
  obtain ⟨⟨f | b, after⟩, run⟩ : ∃ result, (s.runProgram p).run state = result := ⟨_, rfl⟩
  · obtain ⟨done, x, later, cause, split, ⟨ran, hx⟩, rfl⟩ := runStatements_error_iff.mp run
    rw [split] at differing
    obtain ⟨ran', rest⟩ := ran.of_bindsFirst differing
    rw [← eval_of_bindsFirst rest] at hx
    have stops : s.Stops more state done x cause after := .mk ran' hx
    rw [run, split, stops.runStatements]
    exact .failed
  · obtain ⟨done, same, ran, rfl⟩ := runStatements_ok_iff.mp run
    have whole := differing
    rw [← same, ← List.append_nil (done.map _)] at whole
    obtain ⟨ran', -⟩ := ran.of_bindsFirst whole
    rw [run, runStatements_ok_iff.mpr ⟨done, same, ran', rfl⟩]
    refine .ok fun name => ?_
    cases found : (Bindings.after [] done).find? name with
    | some value =>
      have last := Bindings.find?_after_nil_eq_some.mp found
      exact Bindings.find?_after_of_lastBinds last _
    | none =>
      have unbound := Bindings.find?_after_nil_eq_none.mp found
      exact Bindings.find?_after_of_unbound unbound _

end Surface

end BrowserAgent
