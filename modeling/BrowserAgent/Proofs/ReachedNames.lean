import BrowserAgent.Proofs.ConductedCalls
import BrowserAgent.Proofs.StatementRuns

/-!
# Names that evaluation reaches

Evaluation takes the arguments of a call from left to right and goes on as long as each has a value
that its parameter accepts. So it reaches some of the references in an expression, and an undefined
name is an error exactly where it is reached.
-/

namespace BrowserAgent

variable {σ : Type}

/-! ## References -/

namespace Expr

/-- The name that the expression is a reference to, plain or to an item. -/
def reference? : Expr → Option String
  | .var name | .item name _ => some name
  | _ => none

mutual

/-- The names referred to, at any depth. -/
def names : Expr → List String
  | .var name | .item name _ => [name]
  | .call _ args => namesOfArgs args
  | _ => []

def namesOfArgs : List (Option Expr) → List String
  | [] => []
  | none :: args => namesOfArgs args
  | some arg :: args => names arg ++ namesOfArgs args

end

theorem names_of_reference? {e : Expr} {name : String} (h : e.reference? = some name) :
    e.names = [name] := by
  cases e with
  | var | item =>
    cases h
    rfl
  | _ => cases h

end Expr

theorem Blaming.ne_undefined {α : Type} {op : Operation} {name : String} {P : α → Prop}
    {x : Except EvalError α} (h : Blaming op P x) : x ≠ .error (.undefined name) := by
  rintro rfl
  cases h.operation

namespace Surface

mutual

/-- Evaluation of the expression from the first state reaches the reference, in the second. -/
inductive Reaches (s : Surface σ) (b : Bindings) : Expr → σ → Expr → σ → Prop
  | here {e : Expr} {name : String} {state : σ} : e.reference? = some name →
    Reaches s b e state e state
  | call {op : Operation} {args : List (Option Expr)} {state there : σ} {r : Expr} :
    ReachesIn s b op.params args state r there → Reaches s b (.call op args) state r there

/-- The same for the arguments that are given for the parameters. -/
inductive ReachesIn (s : Surface σ) (b : Bindings) :
    List Param → List (Option Expr) → σ → Expr → σ → Prop
  | arg {p : Param} {params : List Param} {arg : Expr} {args : List (Option Expr)}
    {state there : σ} {r : Expr} : Reaches s b arg state r there →
    ReachesIn s b (p :: params) (some arg :: args) state r there
  | later {p : Param} {params : List Param} {arg : Expr} {args : List (Option Expr)}
    {value : Value} {state between there : σ} {r : Expr} :
    (s.eval b arg).run state = (.ok value, between) → p.accepts value = true →
    ReachesIn s b params args between r there →
    ReachesIn s b (p :: params) (some arg :: args) state r there
  | absent {p : Param} {params : List Param} {args : List (Option Expr)} {state there : σ}
    {r : Expr} : p.required = false → ReachesIn s b params args state r there →
    ReachesIn s b (p :: params) (none :: args) state r there

end

variable {s : Surface σ} {b : Bindings} {state after there : σ} {r : Expr} {name : String}

mutual

theorem Reaches.mem_names : {e : Expr} → {state : σ} → s.Reaches b e state r there →
    r.reference? = some name → name ∈ e.names
  | _, _, .here _, hr => by
    rw [Expr.names_of_reference? hr]
    exact List.mem_singleton_self name
  | _, _, .call h, hr => by
    rw [Expr.names]
    exact h.mem_names hr

theorem ReachesIn.mem_names : {params : List Param} → {args : List (Option Expr)} → {state : σ} →
    s.ReachesIn b params args state r there → r.reference? = some name →
    name ∈ Expr.namesOfArgs args
  | _, _, _, .arg h, hr => by
    rw [Expr.namesOfArgs]
    exact List.mem_append_left _ (h.mem_names hr)
  | _, _, _, .later _ _ h, hr => by
    rw [Expr.namesOfArgs]
    exact List.mem_append_right _ (h.mem_names hr)
  | _, _, _, .absent _ h, hr => by
    rw [Expr.namesOfArgs]
    exact h.mem_names hr

end

/-! ## Undefined names -/

theorem itemValue_undefined_iff {other : String} {index : Nat} :
    itemValue b other index = .error (.undefined name) ↔ other = name ∧ b.find? name = none := by
  unfold itemValue
  constructor
  · intro h
    split at h
    · next hb =>
      cases h
      exact ⟨rfl, hb⟩
    · split at h <;> cases h
    · cases h
  · rintro ⟨rfl, hb⟩
    rw [hb]

theorem checkedValue_ok_iff {op : Operation} {p : Param} {value checked : Value} :
    checkedValue op p value = .ok checked ↔ p.accepts value = true ∧ checked = value := by
  unfold checkedValue
  split
  · next accepted => simp [accepted, eq_comm]
  · next refused => simp [refused]

theorem absentValue_ok_iff {op : Operation} {p : Param} {value : Value} :
    absentValue op p = .ok value ↔ p.required = false ∧ value = .nothing := by
  unfold absentValue
  split
  · next required => simp [required]
  · next optional => simp [optional, eq_comm]

/-- A call itself never finds a name undefined. -/
theorem carryOut_defined (a : CallArgs) :
    (s.carryOut a).run state ≠ (.error (.undefined name), after) := by
  intro h
  rcases Run.run_bind_error_iff.mp h with h | ⟨command, between, -, h⟩
  · exact (commandOf_isFor a).ne_undefined (Run.run_ofExcept_error_iff.mp h).1
  · rcases Run.run_bind_error_iff.mp h with h | ⟨reply, between, -, h⟩
    · obtain ⟨fault, -, h⟩ := Run.run_adapt_error_iff.mp h
      cases h
    · exact (replyValue_blaming a.op command reply).ne_undefined (Run.run_ofExcept_error_iff.mp h).1

section

variable {op : Operation} {p : Param} {params : List Param} {arg : Expr} {args : List (Option Expr)}

theorem evalArgs_some_undefined_iff :
    (s.evalArgs b op (p :: params) (some arg :: args)).run state =
        (.error (.undefined name), after) ↔
      (s.eval b arg).run state = (.error (.undefined name), after) ∨
        ∃ value between, (s.eval b arg).run state = (.ok value, between) ∧
          p.accepts value = true ∧
          (s.evalArgs b op params args).run between = (.error (.undefined name), after) := by
  rw [evalArgs, Run.run_bind_error_iff]
  refine or_congr_right ?_
  constructor
  · rintro ⟨value, between, hv, h⟩
    rcases Run.run_bind_error_iff.mp h with refused | ⟨checked, _, hc, rest⟩
    · -- What does not fit is reported as that, never as an undefined name.
      have unfit := (Run.run_ofExcept_error_iff.mp refused).1
      exact absurd unfit (checkedValue_blaming op p value).ne_undefined
    · obtain ⟨fits, rfl⟩ := Run.run_ofExcept_ok_iff.mp hc
      obtain ⟨accepted, rfl⟩ := checkedValue_ok_iff.mp fits
      exact ⟨_, _, hv, accepted, Run.run_bind_pure_error_iff.mp rest⟩
  · rintro ⟨value, between, hv, accepted, more⟩
    have fits : checkedValue op p value = .ok value := checkedValue_ok_iff.mpr ⟨accepted, rfl⟩
    have checked : (Run.ofExcept (checkedValue op p value) : Run σ EvalError Value).run between =
        (.ok value, between) := Run.run_ofExcept_ok_iff.mpr ⟨fits, rfl⟩
    refine ⟨value, between, hv, Run.run_bind_error_iff.mpr ?_⟩
    exact .inr ⟨value, between, checked, Run.run_bind_pure_error_iff.mpr more⟩

theorem evalArgs_none_undefined_iff :
    (s.evalArgs b op (p :: params) (none :: args)).run state = (.error (.undefined name), after) ↔
      p.required = false ∧
        (s.evalArgs b op params args).run state = (.error (.undefined name), after) := by
  rw [evalArgs, Run.run_bind_error_iff]
  constructor
  · rintro (refused | ⟨value, _, ha, rest⟩)
    · have missing := (Run.run_ofExcept_error_iff.mp refused).1
      exact absurd missing (absentValue_blaming op p).ne_undefined
    · obtain ⟨left, rfl⟩ := Run.run_ofExcept_ok_iff.mp ha
      obtain ⟨optional, rfl⟩ := absentValue_ok_iff.mp left
      exact ⟨optional, Run.run_bind_pure_error_iff.mp rest⟩
  · rintro ⟨optional, more⟩
    have left : absentValue op p = .ok .nothing := absentValue_ok_iff.mpr ⟨optional, rfl⟩
    have absent : (Run.ofExcept (absentValue op p) : Run σ EvalError Value).run state =
        (.ok .nothing, state) := Run.run_ofExcept_ok_iff.mpr ⟨left, rfl⟩
    exact .inr ⟨.nothing, state, absent, Run.run_bind_pure_error_iff.mpr more⟩

end

mutual

/-- Evaluation finds a name undefined where it reaches a reference to it and the name has no
value. -/
theorem eval_undefined_iff : (e : Expr) → (state : σ) →
    ((s.eval b e).run state = (.error (.undefined name), after) ↔
      ∃ r, s.Reaches b e state r after ∧ r.reference? = some name ∧ b.find? name = none)
  | .text _, _ | .number _, _ | .bool _, _ | .nothing, _ => by
    constructor
    · rintro ⟨⟩
    · rintro ⟨r, ⟨⟨⟩⟩, -⟩
  | .var other, state => by
    rw [eval]
    constructor
    · intro h
      split at h
      · cases h
      · next hb =>
        cases h
        exact ⟨_, .here rfl, rfl, hb⟩
    · rintro ⟨r, ⟨⟨⟩⟩, ⟨⟩, hb⟩
      rw [hb]
      rfl
  | .item other index, state => by
    rw [eval, Run.run_ofExcept_error_iff, itemValue_undefined_iff]
    constructor
    · rintro ⟨⟨rfl, hb⟩, rfl⟩
      exact ⟨_, .here rfl, rfl, hb⟩
    · rintro ⟨r, ⟨⟨⟩⟩, ⟨⟩, hb⟩
      exact ⟨⟨rfl, hb⟩, rfl⟩
  | .call op args, state => by
    rw [eval, Run.run_bind_error_iff, evalArgs_undefined_iff op op.params args state]
    constructor
    · rintro (⟨r, reached, hr, hb⟩ | ⟨values, between, -, h⟩)
      · exact ⟨r, .call reached, hr, hb⟩
      · exact absurd h (carryOut_defined _)
    · rintro ⟨r, reached, hr, hb⟩
      cases reached with
      | here none => cases none
      | call reached => exact .inl ⟨r, reached, hr, hb⟩

theorem evalArgs_undefined_iff (op : Operation) :
    (params : List Param) → (args : List (Option Expr)) → (state : σ) →
    ((s.evalArgs b op params args).run state = (.error (.undefined name), after) ↔
      ∃ r, s.ReachesIn b params args state r after ∧ r.reference? = some name ∧
        b.find? name = none)
  | [], _, _ => by
    rw [evalArgs]
    constructor
    · rintro ⟨⟩
    · rintro ⟨r, ⟨⟩, -⟩
  | p :: params, some arg :: args, state => by
    rw [evalArgs_some_undefined_iff]
    constructor
    · rintro (h | ⟨value, between, hv, accepted, h⟩)
      · obtain ⟨r, reached, hr⟩ := (eval_undefined_iff arg state).mp h
        exact ⟨r, .arg reached, hr⟩
      · obtain ⟨r, reached, hr⟩ := (evalArgs_undefined_iff op params args between).mp h
        exact ⟨r, .later hv accepted reached, hr⟩
    · rintro ⟨r, reached, hr⟩
      cases reached with
      | arg reached => exact .inl ((eval_undefined_iff arg state).mpr ⟨r, reached, hr⟩)
      | @later _ _ _ _ value _ between _ _ hv accepted reached =>
        have more := (evalArgs_undefined_iff op params args between).mpr ⟨r, reached, hr⟩
        exact .inr ⟨value, between, hv, accepted, more⟩
  | p :: params, none :: args, state => by
    rw [evalArgs_none_undefined_iff, evalArgs_undefined_iff op params args state]
    constructor
    · rintro ⟨optional, r, reached, hr⟩
      exact ⟨r, .absent optional reached, hr⟩
    · rintro ⟨r, reached, hr⟩
      cases reached with
      | absent optional reached => exact ⟨optional, r, reached, hr⟩
  | p :: params, [], state => by
    simp only [evalArgs]
    constructor
    · intro h
      have failed := (Run.run_ofExcept_error_iff.mp h).1
      exact absurd failed (absentValues_blaming op (p :: params)).ne_undefined
    · rintro ⟨r, ⟨⟩, -⟩

end

/-! ## Values of references -/

theorem eval_var_ok_iff {value : Value} :
    (s.eval b (.var name)).run state = (.ok value, after) ↔
      b.find? name = some value ∧ after = state := by
  rw [eval]
  cases b.find? name with
  | none =>
    constructor
    · rintro ⟨⟩
    · rintro ⟨⟨⟩, _⟩
  | some found =>
    constructor
    · rintro ⟨⟩
      exact ⟨rfl, rfl⟩
    · rintro ⟨⟨⟩, rfl⟩
      rfl

theorem itemValue_ok_iff {index : Nat} {value : Value} :
    itemValue b name index = .ok value ↔
      ∃ items, b.find? name = some (.elements items) ∧
        ∃ inside : index < items.length, value = .element items[index] := by
  unfold itemValue
  constructor
  · intro h
    split at h
    · cases h
    · next items hb =>
      split at h
      · next found hfound =>
        cases h
        obtain ⟨inside, rfl⟩ := List.getElem?_eq_some_iff.mp hfound
        exact ⟨items, hb, inside, rfl⟩
      · cases h
    · cases h
  · rintro ⟨items, hb, inside, rfl⟩
    simp only [hb, List.getElem?_eq_getElem inside]

theorem eval_item_ok_iff {index : Nat} {value : Value} :
    (s.eval b (.item name index)).run state = (.ok value, after) ↔
      (∃ items, b.find? name = some (.elements items) ∧
        ∃ inside : index < items.length, value = .element items[index]) ∧ after = state := by
  rw [eval, Run.run_ofExcept_ok_iff, itemValue_ok_iff]

/-! ## Names that make no difference -/

mutual

/-- Only the names referred to make a difference to evaluation. -/
theorem eval_congr (s : Surface σ) {b b' : Bindings} : (e : Expr) →
    (∀ name ∈ e.names, b'.find? name = b.find? name) → s.eval b' e = s.eval b e
  | .text _, _ | .number _, _ | .bool _, _ | .nothing, _ => by
    rw [eval, eval]
  | .var name, h => by
    rw [eval, eval, h name (by rw [Expr.names]; exact List.mem_singleton_self name)]
  | .item name index, h => by
    have same := h name (by rw [Expr.names]; exact List.mem_singleton_self name)
    rw [eval, eval, itemValue, itemValue, same]
  | .call op args, h => by
    rw [Expr.names] at h
    rw [eval, eval, evalArgs_congr s op op.params args h]

theorem evalArgs_congr (s : Surface σ) {b b' : Bindings} (op : Operation) :
    (params : List Param) → (args : List (Option Expr)) →
    (∀ name ∈ Expr.namesOfArgs args, b'.find? name = b.find? name) →
    s.evalArgs b' op params args = s.evalArgs b op params args
  | [], _, _ => by
    rw [evalArgs, evalArgs]
  | p :: params, some arg :: args, h => by
    rw [Expr.namesOfArgs] at h
    obtain ⟨here, later⟩ := List.forall_mem_append.mp h
    rw [evalArgs, evalArgs, eval_congr s arg here, evalArgs_congr s op params args later]
  | p :: params, none :: args, h => by
    rw [Expr.namesOfArgs] at h
    rw [evalArgs, evalArgs, evalArgs_congr s op params args h]
  | p :: params, [], _ => by
    simp only [evalArgs]

end

end Surface

end BrowserAgent
