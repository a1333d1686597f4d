import BrowserAgent.Proofs.Paragraphs
import BrowserAgent.Proofs.StatementLines

/-!
# Cleaned completions

Taking the fence lines and the blanks around it off a completion moves its lines and changes how
they end, but the lines that hold statements stay, in order. So the statements stay, or the error.
-/

namespace BrowserAgent

/-! ## Blanks around a text -/

namespace Text

variable {α : Type} {c sep : Char} {cs : List Char}

theorem apply_dropWhile {p : Char → Bool} {f : List Char → α}
    (h : ∀ c cs, p c = true → f (c :: cs) = f cs) (cs : List Char) :
    f (cs.dropWhile p) = f cs := by
  induction cs with
  | nil => rfl
  | cons c cs ih =>
    cases hc : p c with
    | true => rw [List.dropWhile_cons_of_pos hc, ih, h c cs hc]
    | false => rw [List.dropWhile_cons_of_neg (by simp [hc])]

theorem apply_dropEndWhile {p : Char → Bool} {f : List Char → α}
    (h : ∀ c cs, p c = true → f (cs ++ [c]) = f cs) (cs : List Char) :
    f (dropEndWhile p cs) = f cs := by
  rw [dropEndWhile, apply_dropWhile (f := fun cs => f cs.reverse), List.reverse_reverse]
  intro c cs hc
  rw [List.reverse_cons, h c _ hc]

theorem trimStart_cons (h : isBlank c = true) (cs : List Char) :
    trimStart (String.ofList (c :: cs)) = trimStart (String.ofList cs) := by
  rw [trimStart, trimStart, String.toList_ofList, String.toList_ofList,
    List.dropWhile_cons_of_pos h]

theorem trimStart_dropReturn_cons (h : isBlank c = true) (cs : List Char) :
    trimStart (String.ofList (dropReturn (c :: cs))) =
      trimStart (String.ofList (dropReturn cs)) := by
  unfold dropReturn
  cases cs with
  | nil =>
    split
    · rfl
    · exact trimStart_cons h []
  | cons d cs =>
    rw [List.getLast?_cons_cons, List.dropLast_cons_cons]
    split
    · exact trimStart_cons h _
    · exact trimStart_cons h _

/-- A blank in front of a text is a line of its own or stands at the start of the first line. -/
theorem lines_cons_blank (h : isBlank c = true) (cs : List Char) :
    ∃ first more, lines (String.ofList (c :: cs)) = first :: more ∧
      ((lines (String.ofList cs) = more ∧ trimStart first = "") ∨
        ∃ other, lines (String.ofList cs) = other :: more ∧
          trimStart first = trimStart other) := by
  simp only [lines, String.toList_ofList]
  obtain ⟨run, runs, hs⟩ := exists_splitAtChar '\n' cs
  rw [splitAtChar]
  split
  · rw [hs]
    exact ⟨"", _, rfl, .inl ⟨rfl, rfl⟩⟩
  · simp only [hs]
    -- Only a line that another follows loses its carriage return.
    cases runs with
    | cons next more =>
      exact ⟨_, _, rfl, .inr ⟨_, rfl, trimStart_dropReturn_cons h run⟩⟩
    | nil =>
      refine ⟨String.ofList (c :: run), [], rfl, ?_⟩
      cases run with
      | nil => exact .inl ⟨rfl, trimStart_cons h []⟩
      | cons d run => exact .inr ⟨_, rfl, trimStart_cons h _⟩

theorem dropEndWhile_append {p : Char → Bool} {xs : List Char}
    (h : ∀ c ∈ xs.getLast?, p c = false) (ys : List Char) :
    dropEndWhile p (xs ++ ys) = xs ++ dropEndWhile p ys := by
  rw [dropEndWhile, List.reverse_append, List.dropWhile_append]
  split
  · next none =>
    have blank : dropEndWhile p ys = [] := by rw [dropEndWhile, List.isEmpty_iff.mp none]; rfl
    rw [blank, List.append_nil, ← dropEndWhile, dropEndWhile_of_last h]
  · rw [List.reverse_append, List.reverse_reverse, dropEndWhile]

theorem splitAtChar_concat (h : c ≠ sep) (cs : List Char) :
    ∃ init last, splitAtChar sep cs = init ++ [last] ∧
      splitAtChar sep (cs ++ [c]) = init ++ [last ++ [c]] := by
  have single : splitAtChar sep [c] = [[c]] := by simp [splitAtChar, h]
  obtain ⟨init, last, first, more, before, heq, after⟩ := splitAtChar_append sep cs [c]
  obtain ⟨rfl, rfl⟩ := List.cons.inj (single.symm.trans heq)
  exact ⟨init, last, before, after⟩

/-! ## Picked lines -/

section

variable {p : String → Bool} {s s' : String} {ls : List String}

theorem picked_append (p : String → Bool) (ls more : List String) :
    picked p (ls ++ more) = picked p ls ++ picked p more := by
  rw [picked, List.map_append, List.filter_append, picked, picked]

theorem picked_cons (p : String → Bool) (s : String) (ls : List String) :
    picked p (s :: ls) = picked p [s] ++ picked p ls := picked_append p [s] ls

theorem picked_congr (h : trim s = trim s') (p : String → Bool) : picked p [s] = picked p [s'] := by
  rw [picked, picked, List.map_singleton, List.map_singleton, h]

theorem picked_filter (p q : String → Bool) (ls : List String) :
    picked p (ls.filter fun line => q (trim line)) = picked (fun line => p line && q line) ls := by
  have inner : (ls.map trim).filter q = (ls.filter fun line => q (trim line)).map trim :=
    List.filter_map
  rw [picked, picked, ← List.filter_filter, inner]

variable (hp : p "" = false)
include hp

theorem picked_blank : picked p [""] = [] := by
  have empty : trim "" = "" := trim_eq_empty_iff.mpr rfl
  rw [picked, List.map_singleton, empty, List.filter_cons_of_neg (by simp [hp]), List.filter_nil]

theorem picked_lines (text : String) : picked p (lines text) = picked p (pieces text) := by
  rw [lines, pieces]
  fun_induction closeLines (splitAtChar '\n' text.toList) with
  | case1 => rfl
  | case2 last empty =>
    obtain rfl := List.isEmpty_iff.mp empty
    exact (picked_blank hp).symm
  | case3 => rfl
  | case4 line next more ih =>
    rw [List.map_cons, List.map_cons, picked_cons, ih, picked_congr (trim_dropReturn line),
      ← picked_cons]

theorem picked_trimStart (text : String) :
    picked p (lines (trimStart text)) = picked p (lines text) := by
  rw [trimStart, apply_dropWhile (f := fun cs => picked p (lines (String.ofList cs))),
    String.ofList_toList]
  intro c cs hc
  obtain ⟨first, more, found, ⟨same, blank⟩ | ⟨other, same, alike⟩⟩ := lines_cons_blank hc cs
  · have empty : trim first = trim "" := by rw [trim, blank]; rfl
    rw [found, same, picked_cons, picked_congr empty, picked_blank hp, List.nil_append]
  · have alike : trim first = trim other := by rw [trim, alike, trim]
    rw [found, same, picked_cons, picked_congr alike, ← picked_cons]

theorem picked_trimEnd (text : String) :
    picked p (pieces (trimEnd text)) = picked p (pieces text) := by
  rw [trimEnd, apply_dropEndWhile (f := fun cs => picked p (pieces (String.ofList cs))),
    String.ofList_toList]
  intro c cs hc
  simp only [pieces, String.toList_ofList]
  -- A line feed leaves an empty piece behind it, another blank goes to the last piece.
  by_cases hn : c = '\n'
  · subst hn
    rw [splitAtChar_append_cons, List.map_append, picked_append]
    have none : picked p ((splitAtChar '\n' []).map String.ofList) = [] := picked_blank hp
    rw [none, List.append_nil]
  · obtain ⟨init, last, before, after⟩ := splitAtChar_concat hn cs
    have alike : picked p [String.ofList (last ++ [c])] = picked p [String.ofList last] :=
      picked_congr (trim_concat hc last) p
    rw [before, after, List.map_append, List.map_append, picked_append, picked_append]
    exact congrArg _ alike

theorem picked_trim (text : String) : picked p (lines (trim text)) = picked p (lines text) := by
  rw [trim, picked_lines hp, picked_trimEnd hp, ← picked_lines hp, picked_trimStart hp]

theorem picked_unlines (h : ∀ line ∈ ls, '\n' ∉ line.toList) :
    picked p (lines (unlines ls)) = picked p ls := by
  cases ls with
  | nil => rfl
  | cons line more => rw [picked_lines hp, pieces_unlines (by simp) h]

end

end Text

namespace Action

/-! ## Fence lines -/

theorem toList_fence : fence.toList = ['`', '`', '`'] := by decide

theorem startsWith_fence_trim (raw : String) :
    Text.startsWith fence (Text.trim raw) = Text.startsWith fence (Text.trimStart raw) := by
  have ends : ∀ c ∈ fence.toList.getLast?, Text.isBlank c = false := by
    rw [toList_fence]
    rintro _ ⟨⟩
    decide
  rw [Bool.eq_iff_iff, Text.startsWith, Text.startsWith, List.isPrefixOf_iff_prefix,
    List.isPrefixOf_iff_prefix, Text.trim, Text.trimEnd, String.toList_ofList]
  constructor
  · intro start
    exact start.trans Text.dropEndWhile_prefix
  · rintro ⟨rest, start⟩
    rw [← start, Text.dropEndWhile_append ends]
    exact List.prefix_append _ _

/-- Of the other lines, those stay that are picked by a test which no blank line passes. -/
theorem picked_stripFences {p : String → Bool} (hp : p "" = false) (text : String) :
    Text.picked p (Text.lines (stripFences text)) =
      Text.picked (fun line => p line && !Text.startsWith fence line) (Text.lines text) := by
  simp only [stripFences, ← startsWith_fence_trim]
  rw [Text.picked_trim hp, Text.picked_unlines hp,
    Text.picked_filter p fun line => !Text.startsWith fence line]
  intro line kept
  exact Text.notMem_of_mem_lines (List.mem_filter.mp kept).1

theorem sources_stripFences (text : String) :
    sources (Text.lines (stripFences text)) = sources (Text.lines text) := by
  rw [sources, picked_stripFences rfl, sources]
  refine congrArg (Text.picked · _) (funext fun line => ?_)
  rw [isSkipped]
  cases Text.startsWith fence line <;> simp

theorem no_fence_stripFences (text : String) :
    ∀ line ∈ Text.lines (stripFences text), Text.startsWith fence (Text.trim line) = false := by
  have none : Text.picked (Text.startsWith fence) (Text.lines (stripFences text)) = [] := by
    rw [picked_stripFences rfl]
    simp [Text.picked]
  intro line hline
  rw [← Bool.not_eq_true]
  exact List.filter_eq_nil_iff.mp none _ (List.mem_map_of_mem hline)

end Action

/-! ## What the lines say -/

/-- What a statement says, with the line that says it. -/
def Statement.written (x : Statement) : String × Option String × Expr := (x.source, x.code)

namespace Action

variable {text text' : String}

theorem map_source_of_parse {program : Program} (h : parse text = .ok program) :
    program.statements.map (·.source) = sources (Text.lines text) ∧
      ∀ x ∈ program.statements, x.IsRead := by
  obtain ⟨xs, read, rfl⟩ := map_eq_ok_iff.mp h
  obtain ⟨placed, read⟩ := statementsFrom_eq_ok_iff.mp read
  rw [← map_statementLines 1, ← placed, List.map_map]
  exact ⟨rfl, read⟩

theorem map_written_eq {xs ys : List Statement} (hx : ∀ x ∈ xs, x.IsRead)
    (hy : ∀ y ∈ ys, y.IsRead) (same : xs.map (·.source) = ys.map (·.source)) :
    xs.map Statement.written = ys.map Statement.written := by
  have said {zs : List Statement} (hz : ∀ z ∈ zs, z.IsRead) :
      (zs.map Statement.written).map Except.ok =
        (zs.map (·.source)).map fun source => (readStatement source).map (source, ·) := by
    rw [List.map_map, List.map_map]
    refine List.map_congr_left ?_
    intro z mem
    rw [Function.comp_apply, Function.comp_apply, hz z mem]
    rfl
  have inj (x y : String × Option String × Expr)
      (h : (.ok x : Except SyntaxError _) = .ok y) : x = y := Except.ok.inj h
  -- A line can be read in one way only, so the sources say what was read.
  rw [← List.map_inj_right inj, said hx, said hy, same]

theorem parse_eq_error_iff_sources {source : String} {cause : SyntaxError} :
    (∃ n, parse text = .error ⟨n, source, cause⟩) ↔
      (sources (Text.lines text)).find? (!isReadable ·) = some source ∧
        readStatement source = .error cause := by
  simp only [parse, map_eq_error_iff, statementsFrom_eq_error_iff, ← map_statementLines 1,
    List.find?_map, Option.map_eq_some_iff, Prod.exists]
  constructor
  · rintro ⟨n, first, unread⟩
    exact ⟨⟨n, source, first, rfl⟩, unread⟩
  · rintro ⟨⟨n, _, first, rfl⟩, unread⟩
    exact ⟨n, first, unread⟩

/-- Two texts read alike: as the same statements, each with numbers that increase, or with the same
error at the same line, whatever its number. -/
inductive ReadAlike :
    Except ActionSyntaxError Program → Except ActionSyntaxError Program → Prop
  | ok {p p' : Program} : p.statements.map Statement.written = p'.statements.map Statement.written →
    (p.statements.Pairwise fun x y => x.line < y.line) →
    (p'.statements.Pairwise fun x y => x.line < y.line) → ReadAlike (.ok p) (.ok p')
  | error (n n' : Nat) (source : String) (cause : SyntaxError) :
    ReadAlike (.error ⟨n, source, cause⟩) (.error ⟨n', source, cause⟩)

theorem readAlike_of_sources (same : sources (Text.lines text) = sources (Text.lines text')) :
    ReadAlike (parse text) (parse text') := by
  cases h : parse text with
  | error e =>
    have found := parse_eq_error_iff_sources.mp ⟨e.line, h⟩
    rw [same] at found
    obtain ⟨n, h'⟩ := parse_eq_error_iff_sources.mpr found
    rw [h']
    exact .error e.line n e.source e.cause
  | ok p =>
    cases h' : parse text' with
    | error e =>
      have found := parse_eq_error_iff_sources.mp ⟨e.line, h'⟩
      rw [← same] at found
      obtain ⟨n, other⟩ := parse_eq_error_iff_sources.mpr found
      rw [h] at other
      cases other
    | ok p' =>
      obtain ⟨hp, read⟩ := map_source_of_parse h
      obtain ⟨hp', read'⟩ := map_source_of_parse h'
      exact .ok (map_written_eq read read' (by rw [hp, hp', same]))
        (parse_eq_ok_iff.mp h).ordered (parse_eq_ok_iff.mp h').ordered

/-- Cleaning takes the fence lines off a completion, and does not change what it says, nor the error
if it cannot be read. -/
theorem stripFences_readAlike (text : String) :
    ReadAlike (parse (stripFences text)) (parse text) ∧
      ∀ line ∈ Text.lines (stripFences text), Text.startsWith fence (Text.trim line) = false :=
  ⟨readAlike_of_sources (sources_stripFences text), no_fence_stripFences text⟩

end Action

end BrowserAgent
