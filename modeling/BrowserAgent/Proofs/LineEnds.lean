import BrowserAgent.Proofs.CleanedCompletions
import BrowserAgent.Proofs.ScriptFaults

/-!
# The ends of lines

A script does not depend on the blanks at the ends of its lines, nor on an empty line after the last
one, and apart from its errors not on the numbers of the lines. So it is the pieces of the text that
are read, and a carriage return before a line feed changes nothing.
-/

namespace BrowserAgent

/-! ## Pieces and lines -/

namespace Text

theorem trimEnd_dropReturn (cs : List Char) :
    trimEnd (String.ofList (dropReturn cs)) = trimEnd (String.ofList cs) := by
  unfold dropReturn
  split
  · next h =>
    obtain ⟨init, rfl⟩ := List.getLast?_eq_some_iff.mp h
    rw [List.dropLast_concat, trimEnd, trimEnd, String.toList_ofList, String.toList_ofList,
      dropEndWhile_concat (by decide)]
  · rfl

theorem trimmed_closeLines (runs : List (List Char)) :
    ∃ last, (last = [] ∨ last = [""]) ∧
      runs.map (trimEnd ∘ String.ofList) =
        (closeLines runs).map (trimEnd ∘ String.ofList) ++ last := by
  fun_induction closeLines runs with
  | case1 => exact ⟨[], .inl rfl, rfl⟩
  | case2 last h =>
    obtain rfl := List.isEmpty_iff.mp h
    exact ⟨[""], .inr rfl, rfl⟩
  | case3 last h => exact ⟨[], .inl rfl, rfl⟩
  | case4 line next more ih =>
    obtain ⟨last, hlast, heq⟩ := ih
    refine ⟨last, hlast, ?_⟩
    rw [List.map_cons, heq, List.map_cons, List.cons_append, Function.comp, Function.comp,
      trimEnd_dropReturn]

theorem trimEnd_append_blanks {blanks : String} (h : isBlankText blanks = true) (s : String) :
    trimEnd (s ++ blanks) = trimEnd s := by
  rw [isBlankText, List.all_eq_true] at h
  have blank : blanks.toList.reverse.dropWhile isBlank = [] :=
    List.dropWhile_eq_nil_iff.mpr fun c hc => h c (List.mem_reverse.mp hc)
  rw [trimEnd, trimEnd, String.toList_append, dropEndWhile, List.reverse_append,
    List.dropWhile_append, blank]
  rfl

/-- Lines put together with a carriage return before every line feed. -/
theorem exists_unlines_eq {ls : List String} (hn : ∀ l ∈ ls, '\n' ∉ l.toList) :
    ∃ ended, unlines ended = "\r\n".intercalate ls ∧ ended.map trimEnd = ls.map trimEnd ∧
      ∀ l ∈ ended, '\n' ∉ l.toList := by
  induction ls with
  | nil => exact ⟨[], rfl, rfl, by simp⟩
  | cons l ls ih =>
    obtain ⟨hl, hls⟩ := List.forall_mem_cons.mp hn
    obtain ⟨ended, joined, same, clean⟩ := ih hls
    cases ls with
    | nil =>
      refine ⟨[l], ?_, rfl, hn⟩
      rw [unlines, String.intercalate_singleton, String.intercalate_singleton]
    | cons next more =>
      have some : ended ≠ [] := by
        rintro rfl
        cases same
      have blank : trimEnd (l ++ "\r") = trimEnd l := trimEnd_append_blanks (by decide) l
      refine ⟨(l ++ "\r") :: ended, ?_, by rw [List.map_cons, same, blank]; rfl, ?_⟩
      · have ends : l ++ "\r" ++ "\n" = l ++ "\r\n" := by
          rw [String.append_assoc]
          rfl
        rw [unlines, String.intercalate_cons_of_ne_nil some, ends, String.intercalate_cons_cons,
          ← joined, unlines]
      · exact List.forall_mem_cons.mpr ⟨by simp [hl], clean⟩

end Text

namespace SourceLine

/-- The line under another number, without the blanks at its end. -/
def recast (g : Nat → Nat) (l : SourceLine) : SourceLine := ⟨g l.number, Text.trimEnd l.text⟩

theorem recast_same (g : Nat → Nat) (l : SourceLine) : (l.recast g).Same l :=
  Text.trimEnd_trimEnd l.text

end SourceLine

def ScriptError.renumber (g : Nat → Nat) : ScriptError → ScriptError
  | unknownFunction line name => .unknownFunction (g line) name
  | missingFunctionName line marker => .missingFunctionName (g line) marker
  | unterminatedFunction line name => .unterminatedFunction (g line) name
  | nestedFunction line name => .nestedFunction (g line) name
  | unexpectedEndFunction line => .unexpectedEndFunction (g line)

namespace Script

def OpenSection.renumber (g : Nat → Nat) (sec : OpenSection) : OpenSection :=
  { sec with line := g sec.line }

/-! ## Comments -/

theorem isComment_concat {c : Char} (h : Text.isBlank c = true) (cs : List Char) :
    isComment (String.ofList (cs ++ [c])) = isComment (String.ofList cs) := by
  simp only [isComment, Text.trimStart, Text.trimEnd, String.toList_ofList, List.dropWhile_append]
  split
  · next none =>
    rw [List.isEmpty_iff.mp none, List.dropWhile_cons_of_pos h]
    rfl
  · rw [Text.dropEndWhile_concat h]
    rcases cs.dropWhile Text.isBlank with _ | ⟨d, _ | ⟨e, rest⟩⟩
    · simp [List.isPrefixOf]
    · -- With a space after it a lone number sign starts a comment, but it was one before.
      by_cases hd : d = '#'
      · subst hd
        have lone : String.ofList (Text.dropEndWhile Text.isBlank ['#']) = "#" := by decide
        simp [lone]
      · have hd : ('#' == d) = false := by simpa using Ne.symm hd
        simp [List.isPrefixOf, hd]
    · rfl

theorem isComment_trimEnd (line : String) : isComment (Text.trimEnd line) = isComment line := by
  have := Text.apply_dropEndWhile (f := fun cs => isComment (String.ofList cs))
    (fun c cs h => isComment_concat h cs) line.toList
  rwa [String.ofList_toList] at this

/-! ## Lines under other numbers -/

section

variable {functions : FunctionTable}

theorem isComment_recast (g : Nat → Nat) (l : SourceLine) :
    isComment (l.recast g).text = isComment l.text := isComment_trimEnd l.text

theorem ofLine?_recast (g : Nat → Nat) (l : SourceLine) :
    Marker.ofLine? (l.recast g).text = Marker.ofLine? l.text := Marker.ofLine?_trimEnd l.text

theorem isBlankText_recast (g : Nat → Nat) (l : SourceLine) :
    Text.isBlankText (l.recast g).text = Text.isBlankText l.text :=
  Text.isBlankText_trimEnd_eq l.text

theorem functionName_recast (g : Nat → Nat) (m : Marker) (l : SourceLine) :
    functionName m (l.recast g) = (functionName m l).mapError (·.renumber g) := by
  have h := (l.recast_same g).name?_eq
  rw [SourceLine.name?, SourceLine.name?] at h
  rw [functionName, functionName, h]
  cases (Text.words l.text).tail.getLast? <;> rfl

theorem lookUp_recast (g : Nat → Nat) (m : Marker) (l : SourceLine) :
    lookUp functions m (l.recast g) = (lookUp functions m l).mapError (·.renumber g) := by
  rw [lookUp, lookUp, functionName_recast]
  cases functionName m l with
  | error e => rfl
  | ok name => cases hfind : functions.find? name <;>
      simp [bind, Except.bind, Except.mapError, hfind] <;> rfl

section

variable {l : SourceLine} {more : List SourceLine} (code : ¬isComment l.text = true)
  (start : ¬Marker.ofLine? l.text = some .beginFunction)
  (stop : ¬Marker.ofLine? l.text = some .endFunction)

include code start stop

theorem extract_outer :
    extract none (l :: more) = (extract none more).map fun r => (l :: r.1, r.2) := by
  rw [extract, if_neg code]
  split
  · exact absurd ‹_› start
  · exact absurd ‹_› stop
  · cases extract none more <;> rfl

theorem extract_inner (sec : OpenSection) :
    extract (some sec) (l :: more) =
      extract (some { sec with body := Text.trimEnd l.text :: sec.body }) more := by
  rw [extract, if_neg code]
  split
  · exact absurd ‹_› stop
  · exact absurd ‹_› start
  · rfl

end

theorem extract_recast (g : Nat → Nat) (sec : Option OpenSection) (lines : List SourceLine) :
    extract (sec.map (·.renumber g)) (lines.map (·.recast g)) =
      ((extract sec lines).mapError (·.renumber g)).map fun r => (r.1.map (·.recast g), r.2) := by
  -- One case for each kind of line, outside of a section or in one.
  fun_induction extract sec lines with
  | case1 | case2 => rfl
  | case3 l more hc ih | case7 sec l more hc ih =>
    rw [List.map_cons, Option.map, extract, isComment_recast, if_pos hc]
    exact ih
  | case4 l more hc hm ih =>
    rw [List.map_cons, Option.map_none, extract, isComment_recast, if_neg hc, ofLine?_recast, hm]
    simp only [functionName_recast]
    cases functionName .beginFunction l with
    | error e => rfl
    | ok name => exact ih name
  | case5 l more hc hm =>
    rw [List.map_cons, Option.map_none, extract, isComment_recast, if_neg hc, ofLine?_recast, hm]
    rfl
  | case6 l more hc hstart hend ih =>
    have code := mt (isComment_recast g l).symm.trans hc
    have start := mt (ofLine?_recast g l).symm.trans hstart
    have stop := mt (ofLine?_recast g l).symm.trans hend
    rw [List.map_cons, Option.map_none, extract_outer code start stop,
      show extract none _ = _ from ih]
    cases extract none more <;> rfl
  | case8 sec l more hc hm ih =>
    rw [List.map_cons, Option.map_some, extract, isComment_recast, if_neg hc, ofLine?_recast, hm]
    simp only [show extract none _ = _ from ih]
    cases extract none more <;> rfl
  | case9 sec l more hc hm =>
    rw [List.map_cons, Option.map_some, extract, isComment_recast, if_neg hc, ofLine?_recast, hm]
    rfl
  | case10 sec l more hc hend hstart ih =>
    have code := mt (isComment_recast g l).symm.trans hc
    have start := mt (ofLine?_recast g l).symm.trans hstart
    have stop := mt (ofLine?_recast g l).symm.trans hend
    rw [List.map_cons, Option.map_some, extract_inner code start stop,
      show (l.recast g).text = Text.trimEnd l.text from rfl, Text.trimEnd_trimEnd]
    exact ih

theorem trimEnd_of_mem_bodyLines {body line : String} (h : line ∈ bodyLines body) :
    Text.trimEnd line = line := by
  obtain ⟨piece, -, rfl⟩ := List.mem_map.mp (List.mem_of_mem_filter h)
  exact Text.trimEnd_trimEnd piece

theorem inject_recast (g : Nat → Nat) (lines : List SourceLine) :
    inject functions (lines.map (·.recast g)) =
      ((inject functions lines).mapError (·.renumber g)).map (List.map (·.recast g)) := by
  fun_induction inject functions lines with
  | case1 => rfl
  | case2 l more hm ih =>
    rw [List.map_cons, inject, ofLine?_recast, if_pos hm, lookUp_recast, ih]
    cases lookUp functions .injectFunction l with
    | error e => rfl
    | ok body =>
      have put : (bodyLines body).map (SourceLine.mk (l.recast g).number) =
          ((bodyLines body).map (SourceLine.mk l.number)).map (·.recast g) := by
        rw [List.map_map]
        refine List.map_congr_left fun line hline => ?_
        exact congrArg (SourceLine.mk (g l.number)) (trimEnd_of_mem_bodyLines hline).symm
      cases inject functions more with
      | error e => rfl
      | ok rest => simp [bind, Except.bind, Except.mapError, Except.map, pure, Except.pure, put]
  | case3 l more hm ih =>
    rw [List.map_cons, inject, ofLine?_recast, if_neg hm, ih]
    cases inject functions more <;> rfl

theorem collate_recast (g : Nat → Nat) (block : List String) (lines : List SourceLine) :
    collate functions block (lines.map (·.recast g)) =
      (collate functions block lines).mapError (·.renumber g) := by
  fun_induction collate functions block lines with
  | case1 => rfl
  | case2 block l more hm ih =>
    rw [List.map_cons, collate, ofLine?_recast, if_pos hm, lookUp_recast, ih]
    cases lookUp functions .runFunction l <;> cases collate functions [] more <;> rfl
  | case3 block l more hm hblank ih =>
    rw [List.map_cons, collate, ofLine?_recast, if_neg hm, isBlankText_recast, if_pos hblank, ih]
  | case4 block l more hm hblank ih =>
    rw [List.map_cons, collate, ofLine?_recast, if_neg hm, isBlankText_recast, if_neg hblank, ← ih,
      show (l.recast g).text = Text.trimEnd l.text from rfl, Text.trimEnd_trimEnd]

end

/-! ## Reading lines -/

def parseLines (lines : List SourceLine) : Except ScriptError Script := do
  let (outside, defined) ← extract none lines
  let functions := tableOf defined
  let expanded ← inject functions outside
  let queue ← collate functions [] expanded
  return ⟨queue, functions⟩

theorem parse_eq_parseLines (raw : String) :
    parse raw = parseLines (numbered 1 (Text.lines raw)) := rfl

theorem parseLines_recast (g : Nat → Nat) (lines : List SourceLine) :
    parseLines (lines.map (·.recast g)) = (parseLines lines).mapError (·.renumber g) := by
  have sections := extract_recast g none lines
  rw [Option.map_none] at sections
  rw [parseLines, parseLines, sections]
  cases extract none lines with
  | error e => rfl
  | ok found =>
    obtain ⟨outside, defined⟩ := found
    simp only [Except.mapError, Except.map, bind, Except.bind, inject_recast]
    cases inject (tableOf defined) outside with
    | error e => rfl
    | ok expanded =>
      simp only [collate_recast]
      cases collate (tableOf defined) [] expanded <;> rfl

theorem numbered_map (n : Nat) (f : String → String) (ls : List String) :
    numbered n (ls.map f) = (numbered n ls).map fun l => ⟨l.number, f l.text⟩ := by
  induction ls generalizing n with
  | nil => rfl
  | cons line ls ih => rw [List.map_cons, numbered, ih, numbered, List.map_cons]

theorem parseLines_congr {ls ls' : List String} (h : ls.map Text.trimEnd = ls'.map Text.trimEnd)
    (n : Nat) : parseLines (numbered n ls) = parseLines (numbered n ls') := by
  have trimmed : ∀ ls,
      parseLines (numbered n (ls.map Text.trimEnd)) = parseLines (numbered n ls) := by
    intro ls
    rw [numbered_map]
    have same := parseLines_recast id (numbered n ls)
    cases hp : parseLines (numbered n ls) with
    | error e =>
      rw [hp] at same
      refine same.trans ?_
      cases e <;> rfl
    | ok script =>
      rw [hp] at same
      exact same
  rw [← trimmed, h, trimmed]

/-! ## An empty line at the end -/

section

variable {functions : FunctionTable} {l : SourceLine}

theorem isComment_of_isBlank (h : l.isBlank = true) : isComment l.text = false := by
  have blank : Text.trimStart l.text = "" := by
    rw [← String.toList_inj, Text.trimStart, String.toList_ofList]
    exact List.dropWhile_eq_nil_iff.mpr (List.all_eq_true.mp h)
  rw [isComment, blank]
  rfl

theorem ofLine?_of_isBlank (h : l.isBlank = true) : Marker.ofLine? l.text = none := by
  rw [Marker.ofLine?, Text.words_of_isBlankText h]
  rfl

theorem extract_concat (h : l.isBlank = true) (sec : Option OpenSection) (lines : List SourceLine) :
    extract sec (lines ++ [l]) = (extract sec lines).map fun r => (r.1 ++ [l], r.2) := by
  fun_induction extract sec lines with
  | case1 =>
    simp only [List.nil_append, extract, isComment_of_isBlank h, ofLine?_of_isBlank h]
    rfl
  | case2 sec =>
    simp only [List.nil_append, extract, isComment_of_isBlank h, ofLine?_of_isBlank h]
    rfl
  | case3 l' more hc ih | case7 sec l' more hc ih =>
    rw [List.cons_append, extract, if_pos hc, ih]
  | case4 l' more hc hm ih =>
    rw [List.cons_append, extract, if_neg hc, hm]
    cases functionName .beginFunction l' with
    | error e => rfl
    | ok name => exact ih name
  | case5 l' more hc hm | case9 sec l' more hc hm =>
    rw [List.cons_append, extract, if_neg hc, hm]
    rfl
  | case6 l' more hc hstart hend ih =>
    rw [List.cons_append, extract_outer hc hstart hend, ih]
    cases extract none more <;> rfl
  | case8 sec l' more hc hm ih =>
    rw [List.cons_append, extract, if_neg hc, hm]
    simp only [ih]
    cases extract none more <;> rfl
  | case10 sec l' more hc hend hstart ih =>
    rw [List.cons_append, extract_inner hc hstart hend]
    exact ih

theorem inject_concat (h : l.isBlank = true) (lines : List SourceLine) :
    inject functions (lines ++ [l]) = (inject functions lines).map (· ++ [l]) := by
  fun_induction inject functions lines with
  | case1 =>
    rw [List.nil_append, inject, ofLine?_of_isBlank h]
    rfl
  | case2 l' more hm ih =>
    rw [List.cons_append, inject, if_pos hm, ih]
    cases lookUp functions .injectFunction l' with
    | error e => rfl
    | ok body =>
      cases inject functions more with
      | error e => rfl
      | ok rest =>
        exact congrArg Except.ok (List.append_assoc ..).symm
  | case3 l' more hm ih =>
    rw [List.cons_append, inject, if_neg hm, ih]
    cases inject functions more <;> rfl

theorem collate_concat (h : l.isBlank = true) (block : List String) (lines : List SourceLine) :
    collate functions block (lines ++ [l]) = collate functions block lines := by
  fun_induction collate functions block lines with
  | case1 block =>
    have blank : Text.isBlankText l.text = true := h
    rw [List.nil_append, collate, ofLine?_of_isBlank h, if_neg (by simp), if_pos blank, collate]
  | case2 block l' more hm ih => rw [List.cons_append, collate, if_pos hm, ih]
  | case3 block l' more hm hblank ih =>
    rw [List.cons_append, collate, if_neg hm, if_pos hblank, ih]
  | case4 block l' more hm hblank ih =>
    rw [List.cons_append, collate, if_neg hm, if_neg hblank, ih]

theorem parseLines_concat (h : l.isBlank = true) (lines : List SourceLine) :
    parseLines (lines ++ [l]) = parseLines lines := by
  rw [parseLines, parseLines, extract_concat h]
  cases extract none lines with
  | error e => rfl
  | ok found =>
    obtain ⟨outside, defined⟩ := found
    simp only [Except.map, bind, Except.bind, inject_concat h]
    cases inject (tableOf defined) outside with
    | error e => rfl
    | ok expanded => simp only [collate_concat h]

end

/-! ## Pieces of a text -/

theorem numbered_append (n : Nat) (ls more : List String) :
    numbered n (ls ++ more) = numbered n ls ++ numbered (n + ls.length) more := by
  induction ls generalizing n with
  | nil => rfl
  | cons line ls ih =>
    rw [List.cons_append, numbered, ih, numbered, List.cons_append, List.length_cons,
      Nat.add_right_comm, Nat.add_assoc]

theorem parse_eq_pieces (raw : String) : parse raw = parseLines (numbered 1 (Text.pieces raw)) := by
  obtain ⟨last, hlast, heq⟩ := Text.trimmed_closeLines (Text.splitAtChar '\n' raw.toList)
  have same : (Text.pieces raw).map Text.trimEnd = (Text.lines raw ++ last).map Text.trimEnd := by
    have fixed : last.map Text.trimEnd = last := by
      rcases hlast with rfl | rfl <;> rfl
    rw [Text.pieces, Text.lines, List.map_append, List.map_map, List.map_map, heq, fixed]
  rw [parse_eq_parseLines, parseLines_congr same, numbered_append]
  rcases hlast with rfl | rfl
  · rw [numbered, List.append_nil]
  · exact (parseLines_concat rfl _).symm

theorem parse_congr {raw raw' : String}
    (h : (Text.pieces raw).map Text.trimEnd = (Text.pieces raw').map Text.trimEnd) :
    parse raw = parse raw' := by
  rw [parse_eq_pieces, parse_eq_pieces, parseLines_congr h]

/-- Blanks added at the ends of lines change neither the script nor the error, and carriage returns
there are blanks: a text whose lines differ in nothing else is read alike. -/
theorem line_ends_immaterial (raw : String) (blanks : Nat → String)
    (h : ∀ n, Text.isBlankText (blanks n) = true ∧ '\n' ∉ (blanks n).toList) :
    parse (Text.unlines ((Text.pieces raw).mapIdx fun n line => line ++ blanks n)) = parse raw ∧
      parse ("\r\n".intercalate (Text.pieces raw)) = parse raw ∧
      ∀ raw', (Text.pieces raw').map Text.trimEnd = (Text.pieces raw).map Text.trimEnd →
        parse raw' = parse raw := by
  have clean : ∀ line ∈ Text.pieces raw, '\n' ∉ line.toList := fun _ => Text.notMem_of_mem_pieces
  have some := Text.pieces_ne_nil raw
  refine ⟨parse_congr ?_, parse_congr ?_, fun raw' same => parse_congr same⟩
  · rw [Text.pieces_unlines (by simpa using some)]
    · refine List.ext_getElem (by simp) fun n _ _ => ?_
      simp [Text.trimEnd_append_blanks (h n).1]
    · intro line hline
      obtain ⟨n, hlt, rfl⟩ := List.mem_mapIdx.mp hline
      simp [clean _ (List.getElem_mem hlt), (h n).2]
  · obtain ⟨ended, joined, same, hn⟩ := Text.exists_unlines_eq clean
    have hne : ended ≠ [] := by
      rintro rfl
      exact some (List.map_eq_nil_iff.mp same.symm)
    rw [← joined, Text.pieces_unlines hne hn, same]

theorem line_ends_immaterial_error :
    let raw := "BEGIN_FUNCTION a\nx\n\nEND_FUNCTION\n#\nRUN_FUNCTION b"
    let blanks : Nat → String := fun n => if n = 4 then "\u2003" else "\t\r"
    (∀ n, Text.isBlankText (blanks n) = true ∧ '\n' ∉ (blanks n).toList) ∧
      parse (Text.unlines ((Text.pieces raw).mapIdx fun n line => line ++ blanks n)) =
        .error (.unknownFunction 6 "b") ∧
      parse "BEGIN_FUNCTION a\r\nx\r\n\r\nEND_FUNCTION\r\n#\r\nRUN_FUNCTION b" =
        .error (.unknownFunction 6 "b") := by
  intro raw blanks
  have blank : ∀ n, Text.isBlankText (blanks n) = true ∧ '\n' ∉ (blanks n).toList := by
    intro n
    simp only [blanks]
    split <;> decide
  have parsed : parse raw = .error (.unknownFunction 6 "b") := by decide +kernel
  obtain ⟨added, returns, -⟩ := line_ends_immaterial raw blanks blank
  refine ⟨blank, added.trans parsed, ?_⟩
  rw [← parsed, ← returns]
  decide +kernel

end Script

end BrowserAgent
