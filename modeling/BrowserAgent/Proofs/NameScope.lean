import BrowserAgent.Proofs.AddedBindings
import BrowserAgent.Proofs.Rehearsed
import BrowserAgent.Proofs.Watching

/-!
# The scope of names

A name stands for the value of the last statement that bound it, and a statement's own binding is
there for the statements behind it only. A program that refers to a name before it has bound it
fails when evaluation reaches the reference, and with that message for no other reason.
-/

namespace BrowserAgent

variable {σ : Type}

/-! ## The message -/

theorem Operation.name_ne_tick (op : Operation) (rest : List Char) (others : List Char) :
    op.name.toList ++ rest ≠ '`' :: others := by
  cases op <;> simp [Operation.name]

namespace EvalError

variable {e : EvalError} {name : String}

theorem message_of_operation? {op : Operation} (h : e.operation? = some op) :
    ∃ rest, e.message.toList = op.name.toList ++ rest := by
  cases e with
  | undefined | outOfRange | notAList => cases h
  | _ =>
    cases h
    exact ⟨_, by simp only [message, String.toList_append, List.append_assoc]; rfl⟩

/-- Only an undefined name is reported so. -/
theorem message_eq_undefined_iff :
    e.message = "`" ++ name ++ "` is not defined" ↔ e = .undefined name := by
  constructor
  · intro h
    have chars := congrArg String.toList h
    have tick : e.message.toList = '`' :: (name.toList ++ "` is not defined".toList) := by
      simpa using chars
    cases about : e.operation? with
    | some op =>
      obtain ⟨rest, starts⟩ := message_of_operation? about
      exact absurd (starts.symm.trans tick) (op.name_ne_tick _ _)
    | none =>
      cases e with
      | undefined other =>
        have same : other.toList = name.toList := by simpa [message] using chars
        rw [String.toList_inj.mp same]
      | outOfRange other index length =>
        simp [message] at tick
      | notAList other got =>
        -- Both start with a backtick, but they end in different letters.
        have list : ", not a list".toList.getLast? = some 't' := by decide
        have defined : "` is not defined".toList.getLast? = some 'd' := by decide
        have last := congrArg List.getLast? chars
        simp only [message, String.toList_append, List.getLast?_append, list, defined] at last
        simp at last
      | _ => cases about
  · rintro rfl
    rfl

end EvalError

/-! ## References in programs -/

namespace Surface

variable {s : Surface σ} {start there after : σ} {p : Program} {earlier : List Statement}
  {x : Statement} {done : List Evaluated} {r : Expr} {name : String} {value : Value}

/-- The statements before `x` run from the state, with the given values, and the evaluation of `x`
reaches the reference. -/
inductive Meets (s : Surface σ) (start : σ) (earlier : List Statement) (x : Statement)
    (done : List Evaluated) (r : Expr) (there : σ) : Prop
  | mk {between : σ} : done.map (·.statement) = earlier → s.Ran [] start done between →
    s.Reaches (Bindings.after [] done) x.expr between r there →
    Meets s start earlier x done r there

theorem failsAt_undefined_iff (stands : earlier ++ [x] <+: p.statements) :
    (∃ f, s.FailsAt start p earlier x f ∧ f.reason = "`" ++ name ++ "` is not defined") ↔
      (∃ done r there, s.Meets start earlier x done r there ∧ r.reference? = some name) ∧
        ∀ y ∈ earlier, y.binding ≠ some name := by
  constructor
  · rintro ⟨f, fails, reason⟩
    obtain ⟨-, done, cause, after, rfl, ⟨ran, hx⟩, rfl⟩ := failsAt_iff.mp fails
    obtain rfl := EvalError.message_eq_undefined_iff.mp reason
    obtain ⟨r, reached, hr, unfound⟩ := (eval_undefined_iff x.expr _).mp hx
    refine ⟨⟨done, r, after, .mk rfl ran reached, hr⟩, ?_⟩
    exact List.forall_mem_map.mpr (Bindings.find?_after_nil_eq_none.mp unfound)
  · rintro ⟨⟨done, r, there, ⟨rfl, ran, reached⟩, hr⟩, unbound⟩
    have unfound := Bindings.find?_after_nil_eq_none.mpr fun d hd =>
      unbound _ (List.mem_map_of_mem hd)
    have hx := (eval_undefined_iff x.expr _).mpr ⟨r, reached, hr, unfound⟩
    exact ⟨x.failure (.undefined name),
      failsAt_iff.mpr ⟨stands, done, _, there, rfl, .mk ran hx, rfl⟩, rfl⟩

theorem var_ok_iff :
    (s.eval (Bindings.after [] done) (.var name)).run there = (.ok value, after) ↔
      LastBinds done name value ∧ after = there := by
  rw [eval_var_ok_iff, Bindings.find?_after_nil_eq_some]

theorem item_ok_iff {index : Nat} :
    (s.eval (Bindings.after [] done) (.item name index)).run there = (.ok value, after) ↔
      (∃ items, LastBinds done name (.elements items) ∧
        ∃ inside : index < items.length, value = .element items[index]) ∧ after = there := by
  simp only [eval_item_ok_iff, Bindings.find?_after_nil_eq_some]

theorem FailsAt.defined {f : ActionFailure} (fails : s.FailsAt start p earlier x f)
    (h : BindsFirst p.statements name) : f.reason ≠ "`" ++ name ++ "` is not defined" := by
  intro reason
  obtain ⟨⟨done, r, there, ⟨-, -, reached⟩, hr⟩, unbound⟩ :=
    (failsAt_undefined_iff fails.stands).mp ⟨f, fails, reason⟩
  obtain ⟨later, split⟩ := fails.stands
  rw [List.append_assoc, List.singleton_append] at split
  obtain ⟨y, hy, binds⟩ := h earlier x later split.symm (reached.mem_names hr)
  exact unbound y hy binds

end Surface

/-- Where a program fails is where a statement fails. It fails for an undefined name exactly if
evaluation of the statement reaches a reference to a name that no statement before it binds. Other
references stand for the value that was bound last, or for an item of it. A program that refers only
to names bound before never fails so. Names that it does not refer to before it binds them make no
difference to its commands, its end and its values: neither names that it starts with nor names that
it binds besides. -/
theorem Surface.names_scoped (s : Surface σ) (p : Program) (start : σ) :
    (∀ f, ((s.runProgram p).run start).1 = .error f ↔
      ∃ earlier x, s.FailsAt start p earlier x f) ∧
    (∀ earlier x name, earlier ++ [x] <+: p.statements →
      ((∃ f, s.FailsAt start p earlier x f ∧ f.reason = "`" ++ name ++ "` is not defined") ↔
        (∃ done r there, s.Meets start earlier x done r there ∧ r.reference? = some name) ∧
          ∀ y ∈ earlier, y.binding ≠ some name)) ∧
    (∀ earlier x done r there, s.Meets start earlier x done r there → ∀ name value after,
      (r = .var name →
        ((s.eval (Bindings.after [] done) r).run there = (.ok value, after) ↔
          LastBinds done name value ∧ after = there)) ∧
      ∀ index, r = .item name index →
        ((s.eval (Bindings.after [] done) r).run there = (.ok value, after) ↔
          (∃ items, LastBinds done name (.elements items) ∧
            ∃ inside : index < items.length, value = .element items[index]) ∧ after = there)) ∧
    ((∀ name, BindsFirst p.statements name) → ∀ name f, ((s.runProgram p).run start).1 = .error f →
      f.reason ≠ "`" ++ name ++ "` is not defined") ∧
    (∀ more : Bindings, (∀ name, (more.find? name).isSome → BindsFirst p.statements name) →
      Enlarged more ((s.watched.runProgram p).run (start, []))
        ((s.watched.runStatements more p.statements).run (start, []))) ∧
    ∀ p' left, AddsBindings [] [] p.statements p'.statements left →
      SameEnd left ((s.watched.runProgram p).run (start, []))
        ((s.watched.runProgram p').run (start, [])) := by
  refine ⟨fun f => runProgram_fails_iff, ?_, ?_, ?_, ?_, ?_⟩
  · intro earlier x name stands
    exact failsAt_undefined_iff stands
  · rintro earlier x done r there - name value after
    refine ⟨?_, ?_⟩
    · rintro rfl
      exact var_ok_iff
    · rintro index rfl
      exact item_ok_iff
  · intro bindsFirst name f failed
    obtain ⟨earlier, x, fails⟩ := runProgram_fails_iff.mp failed
    exact fails.defined (bindsFirst name)
  · intro more bindsFirst
    exact runProgram_enlarged bindsFirst (start, [])
  · intro p' left added
    refine runStatements_added added (fun name _ => rfl) ?_ (start, [])
    simp [Defines]

/-- The text of the page is saved under a name that nothing binds. -/
def unnamedSave : Program where
  statements :=
    [⟨1, "page = page_text()", some "page", .call .pageText [none]⟩,
      ⟨2, "save(page, file)", none, .call .save [some (.var "page"), some (.var "file")]⟩]

/-- The first statement runs and the second fails, even if the page had a name before. -/
theorem unnamedSave_fails :
    (∃ earlier x f, Rehearsal.surface.FailsAt .new unnamedSave earlier x f ∧ x.line = 2 ∧
      f.reason = "`file` is not defined") ∧
    Enlarged [("page", .nothing)]
      ((Rehearsal.surface.watched.runProgram unnamedSave).run (.new, []))
      ((Rehearsal.surface.watched.runStatements [("page", .nothing)] unnamedSave.statements).run
        (.new, [])) := by
  obtain ⟨-, undefined, -, -, enlarged, -⟩ := Rehearsal.surface.names_scoped unnamedSave .new
  refine ⟨?_, enlarged _ ?_⟩
  · have reached : Rehearsal.surface.Reaches [("page", .text "")]
        (.call .save [some (.var "page"), some (.var "file")])
        { Rehearsal.new with calls := [.pageText false] } (.var "file")
        { Rehearsal.new with calls := [.pageText false] } :=
      .call (.later rfl rfl (.arg (.here rfl)))
    obtain ⟨f, fails, reason⟩ := (undefined [_] _ "file" ⟨[], rfl⟩).mpr
      ⟨⟨[⟨_, .text ""⟩], _, _, .mk rfl (.cons rfl .nil) reached, rfl⟩, by simp⟩
    exact ⟨_, _, f, fails, rfl, reason⟩
  · intro name given earlier x later split referred
    obtain rfl : name = "page" := by
      by_contra other
      simp [Table.find?, List.lookup_cons, beq_false_of_ne other] at given
    cases earlier with
    | nil =>
      obtain ⟨rfl, -⟩ := List.cons.inj split
      simp [Expr.names, Expr.namesOfArgs] at referred
    | cons first earlier =>
      obtain ⟨rfl, -⟩ := List.cons.inj split
      exact ⟨_, List.mem_cons_self, rfl⟩

end BrowserAgent
