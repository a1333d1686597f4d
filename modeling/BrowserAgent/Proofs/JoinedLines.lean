import BrowserAgent.Action.Program
import BrowserAgent.Proofs.TrimmedLines

/-!
# Joined lines

The lines of several texts are the pieces of one text. How a line ends does not matter to the
statement that it holds, and neither does its number, so the statements of the joined text are those
of the texts, one after the other.
-/

namespace BrowserAgent

/-! ## Pieces -/

namespace Text

theorem splitAtChar_eq (sep : Char) (cs : List Char) : splitAtChar sep cs = cs.splitOn sep := by
  induction cs with
  | nil => rfl
  | cons c cs ih =>
    rw [splitAtChar, ih, List.splitOn_cons_eq_if_modifyHead]
    by_cases h : c = sep
    · rw [if_pos h, if_pos (by simp [h])]
    · rw [if_neg h, if_neg (by simp [h])]
      obtain ⟨run, runs, hs⟩ := List.exists_cons_of_ne_nil (List.splitOn_ne_nil sep cs)
      rw [hs, List.modifyHead_cons]

theorem exists_splitAtChar (sep : Char) (cs : List Char) :
    ∃ run runs, splitAtChar sep cs = run :: runs := by
  rw [splitAtChar_eq]
  exact List.exists_cons_of_ne_nil (List.splitOn_ne_nil sep cs)

/-- Where two texts meet, the last run of the one and the first of the other are one. -/
theorem splitAtChar_append (sep : Char) (xs ys : List Char) :
    ∃ init last first more, splitAtChar sep xs = init ++ [last] ∧
      splitAtChar sep ys = first :: more ∧
      splitAtChar sep (xs ++ ys) = init ++ (last ++ first) :: more := by
  obtain ⟨first, more, hys⟩ := exists_splitAtChar sep ys
  induction xs with
  | nil => exact ⟨[], [], first, more, rfl, hys, hys⟩
  | cons x xs ih =>
    obtain ⟨init, last, _, _, hxs, heq, happend⟩ := ih
    obtain ⟨rfl, rfl⟩ := List.cons.inj (hys.symm.trans heq)
    rw [List.cons_append, splitAtChar, splitAtChar, hxs, happend]
    split
    · exact ⟨[] :: init, last, first, more, rfl, hys, rfl⟩
    · cases init with
      | nil => exact ⟨[], x :: last, first, more, rfl, hys, rfl⟩
      | cons run init => exact ⟨(x :: run) :: init, last, first, more, rfl, hys, rfl⟩

theorem notMem_of_mem_splitAtChar {sep : Char} {cs run : List Char} (h : run ∈ splitAtChar sep cs) :
    sep ∉ run := by
  induction cs generalizing run with
  | nil =>
    rw [List.mem_singleton.mp h]
    exact List.not_mem_nil
  | cons c cs ih =>
    rw [splitAtChar] at h
    split at h
    · rcases List.mem_cons.mp h with rfl | h
      · exact List.not_mem_nil
      · exact ih h
    · next hc =>
      cases hs : splitAtChar sep cs with
      | nil =>
        rw [hs] at h
        rw [List.mem_singleton.mp h]
        simpa using Ne.symm hc
      | cons first more =>
        rw [hs] at h ih
        rcases List.mem_cons.mp h with rfl | h
        · exact List.not_mem_cons_of_ne_of_not_mem (Ne.symm hc) (ih List.mem_cons_self)
        · exact ih (List.mem_cons_of_mem _ h)

theorem pieces_ne_nil (s : String) : pieces s ≠ [] := by
  obtain ⟨run, runs, hs⟩ := exists_splitAtChar '\n' s.toList
  rw [pieces, hs]
  exact List.cons_ne_nil _ _

theorem notMem_of_mem_pieces {s line : String} (h : line ∈ pieces s) : '\n' ∉ line.toList := by
  obtain ⟨run, hrun, rfl⟩ := List.mem_map.mp h
  rw [String.toList_ofList]
  exact notMem_of_mem_splitAtChar hrun

theorem notMem_of_mem_lines {s line : String} (h : line ∈ lines s) : '\n' ∉ line.toList := by
  obtain ⟨l, hl, rfl⟩ := List.mem_map.mp h
  obtain ⟨run, hrun, start⟩ := closeLines_prefix l hl
  rw [String.toList_ofList]
  exact fun hc => notMem_of_mem_splitAtChar hrun (start.subset hc)

theorem pieces_unlines {ls : List String} (h : ls ≠ []) (hn : ∀ l ∈ ls, '\n' ∉ l.toList) :
    pieces (unlines ls) = ls := by
  have split : splitAtChar '\n' (unlines ls).toList = ls.map String.toList := by
    rw [unlines, String.toList_intercalate, splitAtChar_eq]
    refine List.splitOn_intercalate '\n' ?_ (by simpa using h)
    simpa using hn
  rw [pieces, split, List.map_map]
  simp [Function.comp_def]

theorem toList_unlines_cons_cons (l next : String) (more : List String) :
    (unlines (l :: next :: more)).toList =
      l.toList ++ '\n' :: (unlines (next :: more)).toList := by
  simp [unlines, String.intercalate_cons_cons]

/-! ## The ends of lines -/

theorem dropEndWhile_concat {p : Char → Bool} {c : Char} (h : p c = true) (cs : List Char) :
    dropEndWhile p (cs ++ [c]) = dropEndWhile p cs := by
  rw [dropEndWhile, List.reverse_concat, List.dropWhile_cons_of_pos h, dropEndWhile]

theorem trim_concat {c : Char} (h : isBlank c = true) (cs : List Char) :
    trim (String.ofList (cs ++ [c])) = trim (String.ofList cs) := by
  rw [← String.toList_inj, toList_trim, toList_trim, String.toList_ofList, String.toList_ofList,
    List.dropWhile_append]
  split
  · next hn =>
    rw [List.isEmpty_iff.mp hn, List.dropWhile_cons_of_pos h]
    rfl
  · rw [dropEndWhile_concat h]

theorem trim_dropReturn (cs : List Char) :
    trim (String.ofList (dropReturn cs)) = trim (String.ofList cs) := by
  unfold dropReturn
  split
  · next h =>
    obtain ⟨init, rfl⟩ := List.getLast?_eq_some_iff.mp h
    rw [List.dropLast_concat, trim_concat (by decide)]
  · rfl

end Text

namespace Action

theorem readLine_congr {raw raw' : String} (h : Text.trim raw = Text.trim raw') (n : Nat) :
    readLine n raw = readLine n raw' := by
  rw [readLine, readLine, h]

theorem statementsFrom_closeLines (n : Nat) (runs : List (List Char)) :
    statementsFrom n ((Text.closeLines runs).map String.ofList) =
      statementsFrom n (runs.map String.ofList) := by
  fun_induction Text.closeLines runs generalizing n with
  | case1 => rfl
  | case2 last hlast =>
    obtain rfl := List.isEmpty_iff.mp hlast
    rfl
  | case3 => rfl
  | case4 line next more ih =>
    rw [List.map_cons, List.map_cons, statementsFrom, statementsFrom, ih,
      readLine_congr (Text.trim_dropReturn line)]

/-- Reading an action may as well leave the carriage returns on its lines. -/
theorem parse_eq_ok {text : String} {program : Program} :
    parse text = .ok program ↔
      statementsFrom 1 (Text.pieces text) = .ok program.statements := by
  rw [parse, Text.lines, statementsFrom_closeLines, Text.pieces]
  cases statementsFrom 1 ((Text.splitAtChar '\n' text.toList).map String.ofList) with
  | error e => simp [Except.map]
  | ok statements =>
    obtain ⟨others⟩ := program
    simp [Except.map]

/-! ## Statements of joined lines -/

theorem statementsFrom_cons_eq_ok {n : Nat} {raw : String} {more : List String}
    {xs : List Statement} :
    statementsFrom n (raw :: more) = .ok xs ↔
      ∃ statement later, readLine n raw = .ok statement ∧
        statementsFrom (n + 1) more = .ok later ∧ xs = statement.toList ++ later := by
  rw [statementsFrom]
  cases readLine n raw with
  | error e => simp [bind, Except.bind]
  | ok statement =>
    cases statementsFrom (n + 1) more with
    | error e => simp [bind, Except.bind]
    | ok later => simp [bind, Except.bind, pure, Except.pure, eq_comm]

theorem statementsFrom_append {n : Nat} {lines more : List String} {xs ys : List Statement}
    (hx : statementsFrom n lines = .ok xs)
    (hy : statementsFrom (n + lines.length) more = .ok ys) :
    statementsFrom n (lines ++ more) = .ok (xs ++ ys) := by
  induction lines generalizing n xs with
  | nil =>
    cases hx
    exact hy
  | cons raw lines ih =>
    obtain ⟨statement, later, hread, hlater, rfl⟩ := statementsFrom_cons_eq_ok.mp hx
    rw [List.length_cons, Nat.add_comm lines.length, ← Nat.add_assoc] at hy
    exact statementsFrom_cons_eq_ok.mpr
      ⟨statement, later ++ ys, hread, ih hlater hy, List.append_assoc ..⟩

end Action

/-- What a statement does, wherever it stands. -/
def Statement.code (s : Statement) : Option String × Expr := (s.binding, s.expr)

theorem Action.readLine_code {n : Nat} {raw : String} {found : Option Statement}
    (h : readLine n raw = .ok found) (m : Nat) :
    ∃ found', readLine m raw = .ok found' ∧
      found'.toList.map (·.code) = found.toList.map (·.code) := by
  simp only [readLine] at h ⊢
  split at h
  · next skipped =>
    cases h
    exact ⟨none, if_pos skipped, rfl⟩
  · next kept =>
    rw [if_neg kept]
    cases hs : readStatement (Text.trim raw) with
    | error cause =>
      rw [hs] at h
      cases h
    | ok statement =>
      rw [hs] at h
      cases h
      exact ⟨_, rfl, rfl⟩

theorem Action.statementsFrom_code {n : Nat} {lines : List String} {xs : List Statement}
    (h : statementsFrom n lines = .ok xs) (m : Nat) :
    ∃ ys, statementsFrom m lines = .ok ys ∧ ys.map (·.code) = xs.map (·.code) := by
  induction lines generalizing n m xs with
  | nil =>
    cases h
    exact ⟨[], rfl, rfl⟩
  | cons raw lines ih =>
    obtain ⟨statement, later, hread, hlater, rfl⟩ := statementsFrom_cons_eq_ok.mp h
    obtain ⟨ys, hys, hcode⟩ := ih hlater (m + 1)
    obtain ⟨statement', hread', hsame⟩ := readLine_code hread m
    refine ⟨_, statementsFrom_cons_eq_ok.mpr ⟨statement', ys, hread', hys, rfl⟩, ?_⟩
    rw [List.map_append, List.map_append, hcode, hsame]

end BrowserAgent
