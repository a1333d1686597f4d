import BrowserAgent.Proofs.JoinedLines
import BrowserAgent.Proofs.RunLaws

/-!
# Lines that hold statements

Reading an action is reading, one after the other, its lines that are not blank, no comment and no
fence. A program has one statement for each of them, and the first that cannot be read is the one
that is reported.
-/

namespace BrowserAgent

/-- The trimmed lines that pass the test. -/
def Text.picked (p : String → Bool) (lines : List String) : List String :=
  (lines.map trim).filter p

namespace Action

variable {text raw source : String} {n : Nat} {more lines : List String}

/-! ## The lines -/

/-- A line that is not blank, no comment and no fence. -/
structure HoldsStatement (raw : String) : Prop where
  notBlank : Text.isBlankText raw = false
  notComment : ¬ "//".toList <+: (Text.trim raw).toList
  notFence : ¬ fence.toList <+: (Text.trim raw).toList

theorem holdsStatement_iff : HoldsStatement raw ↔ isSkipped (Text.trim raw) = false := by
  have blank : (Text.trim raw).isEmpty = Text.isBlankText raw := by
    rw [Bool.eq_iff_iff, String.isEmpty_iff, Text.trim_eq_empty_iff]
  have starts {start : String} : Text.startsWith start (Text.trim raw) = false ↔
      ¬ start.toList <+: (Text.trim raw).toList := by
    rw [Text.startsWith, ← Bool.not_eq_true, List.isPrefixOf_iff_prefix]
  rw [isSkipped, Bool.or_eq_false_iff, Bool.or_eq_false_iff, blank, starts, starts]
  constructor
  · rintro ⟨notBlank, notComment, notFence⟩
    exact ⟨⟨notBlank, notComment⟩, notFence⟩
  · rintro ⟨⟨notBlank, notComment⟩, notFence⟩
    exact ⟨notBlank, notComment, notFence⟩

/-- Of the lines of the text, counted from one, this one holds a statement; trimmed, it is the
source. -/
def StatementAt (text : String) (n : Nat) (source : String) : Prop :=
  ∃ raw, (1 ≤ n ∧ (Text.lines text)[n - 1]? = some raw) ∧ HoldsStatement raw ∧
    source = Text.trim raw

/-- The lines that hold statements, trimmed, with their numbers; the first line has the given
number. -/
def statementLines (first : Nat) (lines : List String) : List (Nat × String) :=
  (lines.zipIdx first).filterMap fun (raw, n) =>
    if isSkipped (Text.trim raw) then none else some (n, Text.trim raw)

theorem statementLines_of_skipped (h : isSkipped (Text.trim raw) = true) :
    statementLines n (raw :: more) = statementLines (n + 1) more := by
  rw [statementLines, List.zipIdx_cons]
  exact List.filterMap_cons_none (if_pos h)

theorem statementLines_of_kept (h : isSkipped (Text.trim raw) = false) :
    statementLines n (raw :: more) = (n, Text.trim raw) :: statementLines (n + 1) more := by
  rw [statementLines, List.zipIdx_cons]
  exact List.filterMap_cons_some (if_neg (by simp [h]))

theorem mem_statementLines :
    (n, source) ∈ statementLines 1 (Text.lines text) ↔ StatementAt text n source := by
  simp only [statementLines, List.mem_filterMap, Prod.exists,
    List.mk_mem_zipIdx_iff_le_and_getElem?_sub]
  constructor
  · rintro ⟨raw, m, stands, kept⟩
    split at kept
    · cases kept
    · next skipped =>
      cases kept
      exact ⟨raw, stands, holdsStatement_iff.mpr (Bool.eq_false_iff.mpr skipped), rfl⟩
  · rintro ⟨raw, stands, holds, rfl⟩
    exact ⟨raw, n, stands, if_neg (by simp [holdsStatement_iff.mp holds])⟩

theorem statementLines_increasing (first : Nat) (lines : List String) :
    (statementLines first lines).Pairwise fun x y => x.1 < y.1 := by
  have numbered : (lines.zipIdx first).Pairwise fun x y => x.2 < y.2 := by
    rw [← List.pairwise_map, List.zipIdx_map_snd]
    exact List.pairwise_lt_range' 1
  refine numbered.filterMap _ ?_
  intro x y less
  simp only [Option.ite_none_left_eq_some]
  rintro _ ⟨-, ⟨⟩⟩ _ ⟨-, ⟨⟩⟩
  exact less

def sources (lines : List String) : List String := Text.picked (!isSkipped ·) lines

theorem map_statementLines (first : Nat) (lines : List String) :
    (statementLines first lines).map (·.2) = sources lines := by
  induction lines generalizing first with
  | nil => rfl
  | cons raw more ih =>
    rw [sources, Text.picked, List.map_cons]
    cases h : isSkipped (Text.trim raw) with
    | true =>
      rw [statementLines_of_skipped h, ih, List.filter_cons_of_neg (by simp [h])]
      rfl
    | false =>
      rw [statementLines_of_kept h, List.map_cons, ih, List.filter_cons_of_pos (by simp [h])]
      rfl

/-! ## Reading them -/

theorem statementsFrom_of_skipped (h : isSkipped (Text.trim raw) = true) :
    statementsFrom n (raw :: more) = statementsFrom (n + 1) more := by
  rw [statementsFrom, readLine]
  simp only [h, if_true]
  cases statementsFrom (n + 1) more <;> rfl

theorem statementsFrom_of_error {cause : SyntaxError} (h : isSkipped (Text.trim raw) = false)
    (hs : readStatement (Text.trim raw) = .error cause) :
    statementsFrom n (raw :: more) = .error ⟨n, Text.trim raw, cause⟩ := by
  rw [statementsFrom, readLine]
  simp only [h, hs]
  rfl

theorem statementsFrom_of_ok {binding : Option String} {expr : Expr}
    (h : isSkipped (Text.trim raw) = false)
    (hs : readStatement (Text.trim raw) = .ok (binding, expr)) :
    statementsFrom n (raw :: more) =
      (statementsFrom (n + 1) more).map (⟨n, Text.trim raw, binding, expr⟩ :: ·) := by
  rw [statementsFrom, readLine]
  simp only [h, hs]
  cases statementsFrom (n + 1) more <;> rfl

end Action

/-- The number and the text of the line on which the statement stands. -/
def Statement.place (x : Statement) : Nat × String := (x.line, x.source)

/-- The statement is what its line says. -/
def Statement.IsRead (x : Statement) : Prop :=
  readStatement x.source = .ok (x.binding, x.expr)

namespace Action

variable {text : String} {n : Nat} {lines : List String} {xs : List Statement}

def isReadable (source : String) : Bool := (readStatement source).isOk

theorem statementsFrom_eq_ok_iff :
    statementsFrom n lines = .ok xs ↔
      xs.map Statement.place = statementLines n lines ∧ ∀ x ∈ xs, x.IsRead := by
  induction lines generalizing n xs with
  | nil =>
    constructor
    · rintro ⟨⟩
      exact ⟨rfl, by simp⟩
    · rintro ⟨same, -⟩
      rw [List.map_eq_nil_iff.mp same]
      rfl
  | cons raw more ih =>
    cases skipped : isSkipped (Text.trim raw) with
    | true => rw [statementsFrom_of_skipped skipped, statementLines_of_skipped skipped, ih]
    | false =>
      rw [statementLines_of_kept skipped]
      cases hs : readStatement (Text.trim raw) with
      | error cause =>
        rw [statementsFrom_of_error skipped hs]
        constructor
        · rintro ⟨⟩
        · rintro ⟨same, read⟩
          obtain ⟨x, later, rfl, here, -⟩ := List.map_eq_cons_iff.mp same
          have := read x List.mem_cons_self
          rw [Statement.IsRead, (Prod.mk.inj here).2, hs] at this
          cases this
      | ok found =>
        rw [statementsFrom_of_ok skipped hs, map_eq_ok_iff]
        constructor
        · rintro ⟨later, hlater, rfl⟩
          obtain ⟨same, read⟩ := ih.mp hlater
          exact ⟨congrArg _ same, List.forall_mem_cons.mpr ⟨hs, read⟩⟩
        · rintro ⟨same, read⟩
          obtain ⟨⟨line, source, binding, expr⟩, later, rfl, here, same⟩ :=
            List.map_eq_cons_iff.mp same
          obtain ⟨rfl, rfl⟩ := Prod.mk.inj here
          obtain ⟨this, read⟩ := List.forall_mem_cons.mp read
          obtain rfl := Except.ok.inj (hs.symm.trans this)
          exact ⟨later, ih.mpr ⟨same, read⟩, rfl⟩

theorem statementsFrom_eq_error_iff {e : ActionSyntaxError} :
    statementsFrom n lines = .error e ↔
      (statementLines n lines).find? (!isReadable ·.2) = some (e.line, e.source) ∧
        readStatement e.source = .error e.cause := by
  -- By induction on the lines. Reading ends at the first one that is no statement.
  induction lines generalizing n with
  | nil => simp [statementsFrom, statementLines]
  | cons raw more ih =>
    cases skipped : isSkipped (Text.trim raw) with
    | true => rw [statementsFrom_of_skipped skipped, statementLines_of_skipped skipped, ih]
    | false =>
      rw [statementLines_of_kept skipped]
      cases hs : readStatement (Text.trim raw) with
      | error cause =>
        have unread : (!isReadable (Text.trim raw)) = true := by
          rw [isReadable, hs]
          rfl
        rw [statementsFrom_of_error skipped hs]
        simp only [List.find?_cons, unread]
        constructor
        · rintro ⟨⟩
          exact ⟨rfl, hs⟩
        · rintro ⟨same, hs'⟩
          obtain ⟨rfl, hsource⟩ := Prod.mk.inj (Option.some.inj same)
          obtain rfl := Except.error.inj (hs.symm.trans (hsource ▸ hs'))
          rw [hsource]
      | ok found =>
        have read : (!isReadable (Text.trim raw)) = false := by
          rw [isReadable, hs]
          rfl
        rw [statementsFrom_of_ok skipped hs, map_eq_error_iff, ih]
        simp only [List.find?_cons, read]

/-! ## Programs and errors -/

/-- The statements are those that the text holds, one for each of its statement lines. -/
structure StatementsOf (text : String) (xs : List Statement) : Prop where
  stands : ∀ x ∈ xs, StatementAt text x.line x.source ∧ x.IsRead
  complete : ∀ n source, StatementAt text n source → ∃ x ∈ xs, x.place = (n, source)
  ordered : xs.Pairwise fun x y => x.line < y.line

theorem eq_of_increasing {xs ys : List (Nat × String)} (hx : xs.Pairwise fun x y => x.1 < y.1)
    (hy : ys.Pairwise fun x y => x.1 < y.1) (h : ∀ x, x ∈ xs ↔ x ∈ ys) : xs = ys := by
  have nodup {zs : List (Nat × String)} (hz : zs.Pairwise fun x y => x.1 < y.1) : zs.Nodup :=
    hz.imp fun less same => absurd (congrArg Prod.fst same) (Nat.ne_of_lt less)
  have perm := (List.perm_ext_iff_of_nodup (nodup hx) (nodup hy)).mpr h
  exact perm.eq_of_pairwise (fun x y _ _ less more => absurd less (Nat.lt_asymm more)) hx hy

theorem map_place_eq_iff :
    xs.map Statement.place = statementLines 1 (Text.lines text) ↔
      (∀ x ∈ xs, StatementAt text x.line x.source) ∧
      (∀ n source, StatementAt text n source → ∃ x ∈ xs, x.place = (n, source)) ∧
      xs.Pairwise fun x y => x.line < y.line := by
  constructor
  · intro same
    refine ⟨?_, ?_, ?_⟩
    · intro x hx
      have : x.place ∈ statementLines 1 (Text.lines text) := same ▸ List.mem_map_of_mem hx
      exact mem_statementLines.mp this
    · intro n source stands
      rw [← mem_statementLines, ← same] at stands
      exact List.mem_map.mp stands
    · have increasing := statementLines_increasing 1 (Text.lines text)
      rw [← same, List.pairwise_map] at increasing
      exact increasing
  · rintro ⟨stands, complete, ordered⟩
    refine eq_of_increasing (List.pairwise_map.mpr ordered) (statementLines_increasing _ _) ?_
    rintro ⟨n, source⟩
    rw [mem_statementLines]
    constructor
    · intro placed
      obtain ⟨x, hx, ⟨⟩⟩ := List.mem_map.mp placed
      exact stands x hx
    · intro stands
      exact List.mem_map.mpr (complete n source stands)

theorem parse_eq_ok_iff {program : Program} :
    parse text = .ok program ↔ StatementsOf text program.statements := by
  have read : parse text = .ok program ↔
      statementsFrom 1 (Text.lines text) = .ok program.statements := by
    rw [parse, map_eq_ok_iff]
    constructor
    · rintro ⟨xs, hxs, rfl⟩
      exact hxs
    · intro h
      exact ⟨_, h, rfl⟩
  rw [read, statementsFrom_eq_ok_iff, map_place_eq_iff]
  constructor
  · rintro ⟨⟨stands, complete, ordered⟩, read⟩
    exact ⟨fun x hx => ⟨stands x hx, read x hx⟩, complete, ordered⟩
  · rintro ⟨stands, complete, ordered⟩
    exact ⟨⟨fun x hx => (stands x hx).1, complete, ordered⟩, fun x hx => (stands x hx).2⟩

theorem statementsOf_nil_iff : StatementsOf text [] ↔ ∀ n source, ¬ StatementAt text n source := by
  constructor
  · intro h n source stands
    obtain ⟨x, hx, -⟩ := h.complete n source stands
    cases hx
  · intro none
    exact ⟨by simp, fun n source stands => absurd stands (none n source), .nil⟩

/-- The error is that of the first statement line of the text that cannot be read. -/
structure FirstUnread (text : String) (e : ActionSyntaxError) : Prop where
  stands : StatementAt text e.line e.source
  unread : readStatement e.source = .error e.cause
  first : ∀ n source, n < e.line → StatementAt text n source → isReadable source = true

theorem parse_eq_error_iff {e : ActionSyntaxError} :
    parse text = .error e ↔ FirstUnread text e := by
  rw [parse, map_eq_error_iff, statementsFrom_eq_error_iff, List.find?_eq_some_iff_append]
  have increasing := statementLines_increasing 1 (Text.lines text)
  constructor
  · rintro ⟨⟨-, before, after, split, passed⟩, unread⟩
    have stands : (e.line, e.source) ∈ statementLines 1 (Text.lines text) := by simp [split]
    refine ⟨mem_statementLines.mp stands, unread, ?_⟩
    intro n source less earlier
    rw [← mem_statementLines, split, List.mem_append, List.mem_cons] at earlier
    rw [split, List.pairwise_append, List.pairwise_cons] at increasing
    rcases earlier with earlier | ⟨⟨⟩⟩ | later
    · simpa using passed _ earlier
    · exact absurd less (Nat.lt_irrefl _)
    · exact absurd less (Nat.lt_asymm (increasing.2.1.1 _ later))
  · rintro ⟨stands, unread, first⟩
    obtain ⟨before, after, split⟩ := List.append_of_mem (mem_statementLines.mpr stands)
    refine ⟨⟨by simp [isReadable, unread, Except.isOk, Except.toBool], before, after, split, ?_⟩,
      unread⟩
    rintro ⟨n, source⟩ earlier
    rw [split, List.pairwise_append] at increasing
    have less := increasing.2.2 _ earlier _ List.mem_cons_self
    have stands : (n, source) ∈ statementLines 1 (Text.lines text) := by simp [split, earlier]
    simp [first n source less (mem_statementLines.mp stands)]

end Action

end BrowserAgent
