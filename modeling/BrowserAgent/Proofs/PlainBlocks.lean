import BrowserAgent.Proofs.Gate
import BrowserAgent.Proofs.MovedSections
import BrowserAgent.Proofs.Rehearsed
import BrowserAgent.Proofs.ReplayAccount

/-!
# Blocks as scripts

A line of a block comes from the script, from a function that is injected or from one that is run.
On all three ways it has lost the blanks at its end, and it is no comment and no end of a section.
So a block that holds no marker is a script of its own, and that script has this block only. Nothing
in the queue of a script is blank.
-/

namespace BrowserAgent

/-! ## Lines of a text -/

namespace Text

variable {run : List Char} {runs : List (List Char)}

theorem unlines_pieces (s : String) : unlines (pieces s) = s := by
  rw [← String.toList_inj, unlines, pieces, String.toList_intercalate, List.map_map, splitAtChar_eq]
  simp [Function.comp_def]

theorem dropReturn_of_trimmed (h : trimEnd (String.ofList run) = String.ofList run) :
    dropReturn run = run := by
  refine if_neg fun last => ?_
  have trimmed : ∀ c ∈ (trimEnd (String.ofList run)).toList.getLast?, isBlank c = false := by
    rw [trimEnd, String.toList_ofList]
    exact getLast?_dropEndWhile
  rw [h, String.toList_ofList] at trimmed
  exact absurd (trimmed '\r' last) (by decide)

theorem closeLines_of_trimmed
    (h : ∀ run ∈ runs, trimEnd (String.ofList run) = String.ofList run ∧ run ≠ []) :
    closeLines runs = runs := by
  fun_induction closeLines runs with
  | case1 => rfl
  | case2 last hempty => exact absurd (List.isEmpty_iff.mp hempty) (h last (by simp)).2
  | case3 => rfl
  | case4 line next more ih =>
    obtain ⟨here, later⟩ := List.forall_mem_cons.mp h
    rw [dropReturn_of_trimmed here.1, ih later]

theorem lines_of_trimmed {s : String}
    (h : ∀ line ∈ pieces s, trimEnd line = line ∧ isBlankText line = false) :
    lines s = pieces s := by
  rw [lines, pieces, closeLines_of_trimmed]
  intro run hrun
  obtain ⟨trimmed, solid⟩ := h _ (List.mem_map_of_mem hrun)
  refine ⟨trimmed, ?_⟩
  rintro rfl
  cases solid

end Text

namespace Script

/-! ## Lines of a block -/

/-- What a block may hold: neither blank nor a comment, without blanks at its end, and no section
begins or ends with it. -/
structure IsBlockLine (line : String) : Prop where
  not_blank : Text.isBlankText line = false
  not_comment : isComment line = false
  trimmed : Text.trimEnd line = line
  not_begin : Marker.ofLine? line ≠ some .beginFunction
  not_end : Marker.ofLine? line ≠ some .endFunction

section

variable {raw : String} {script : Script} {parts : List Part} {lines : List SourceLine}
  {l : SourceLine} {m : Marker}

/-- The line is one outside of the sections, or one in the body of a function. -/
def FromParts (parts : List Part) (l : SourceLine) : Prop :=
  l ∈ outsideOf parts ∨ ∃ f ∈ functionsOf parts, l ∈ f.2

theorem FromParts.of_mem_calledBody {l' : SourceLine} (h : l' ∈ calledBody parts l) :
    FromParts parts l' := by
  have mem := List.mem_of_mem_filter h
  cases hbody : l.name?.bind fun name => (functionsOf parts).reverse.lookup name with
  | none =>
    rw [hbody] at mem
    cases mem
  | some body =>
    rw [hbody] at mem
    obtain ⟨name, -, hlookup⟩ := Option.bind_eq_some_iff.mp hbody
    exact .inr ⟨_, mem_functions_of_lookup hlookup, mem⟩

theorem FromParts.of_mem_replaced (h : l ∈ replaced m parts lines)
    (hl : ∀ l ∈ lines, FromParts parts l) : FromParts parts l := by
  obtain ⟨l', hl', hmem⟩ := List.mem_flatMap.mp h
  split at hmem
  · exact .of_mem_calledBody hmem
  · rw [List.mem_singleton.mp hmem]
    exact hl l' hl'

theorem FromParts.of_mem_linesOf (h : l ∈ linesOf parts) : FromParts parts l :=
  .of_mem_replaced (List.mem_of_mem_filter h) fun _ hl => .of_mem_replaced hl fun _ => .inl

theorem Laid.isInner (h : Laid lines parts) (hl : FromParts parts l) : l.IsInner := by
  obtain hl | ⟨f, hf, hl⟩ := hl
  · exact h.isInner_of_outside hl
  · exact h.isInner_of_function hf hl

theorem Laid.mem (h : Laid lines parts) (hl : FromParts parts l) : l ∈ lines := by
  rw [h.lines_eq]
  obtain hl | ⟨f, hf, hl⟩ := hl
  · exact mem_lines_of_outside hl
  · exact mem_lines_of_function hf hl

theorem isBlockLine_trimEnd (hblank : l.isBlank = false) (hcode : isComment l.text = false)
    (inner : l.IsInner) : IsBlockLine (Text.trimEnd l.text) where
  not_blank := (Text.isBlankText_trimEnd_eq l.text).trans hblank
  not_comment := (isComment_trimEnd l.text).trans hcode
  trimmed := Text.trimEnd_trimEnd l.text
  not_begin := by
    rw [Marker.ofLine?_trimEnd]
    exact inner.1
  not_end := by
    rw [Marker.ofLine?_trimEnd]
    exact inner.2

theorem isBlockLine_of_parse (h : parse raw = .ok script) :
    ∀ block ∈ script.queue, ∀ line ∈ block.lines, IsBlockLine line := by
  obtain ⟨parts, laid, blocks⟩ := blocks_of_parse h
  intro block hblock line hline
  -- The line is what is left of a placed line, and that is one of the parts of the script.
  have mem : block.lines ∈ ((placedLines parts).splitBy PlacedLine.together).map
      (List.map PlacedLine.content) := blocks ▸ List.mem_map_of_mem hblock
  obtain ⟨ps, hps, heq⟩ := List.mem_map.mp mem
  obtain ⟨p, hp, rfl⟩ := List.mem_map.mp (heq ▸ hline)
  have placed : p ∈ placedLines parts := by
    rw [← List.flatten_splitBy PlacedLine.together (placedLines parts)]
    exact List.mem_flatten.mpr ⟨ps, hps, hp⟩
  have said : p.line ∈ linesOf parts := map_line_placedLines parts ▸ List.mem_map_of_mem placed
  have sourced := FromParts.of_mem_linesOf said
  have solid := (List.mem_filter.mp said).2
  have code := (List.mem_filter.mp (laid.mem sourced)).2
  exact isBlockLine_trimEnd (by simpa using solid) (by simpa using code) (laid.isInner sourced)

/-! ## Lines that are only text -/

/-- No line is a comment or starts with a marker. -/
def IsPlain (lines : List SourceLine) : Prop :=
  ∀ l ∈ lines, isComment l.text = false ∧ Marker.ofLine? l.text = none

variable {functions : FunctionTable} {block : List String}

theorem extract_of_isPlain (h : IsPlain lines) : extract none lines = .ok (lines, []) := by
  induction lines with
  | nil => rfl
  | cons l lines ih =>
    obtain ⟨⟨hcode, hm⟩, later⟩ := List.forall_mem_cons.mp h
    simp only [extract, hcode, hm, ih later]
    rfl

theorem inject_of_isPlain (h : IsPlain lines) : inject functions lines = .ok lines := by
  induction lines with
  | nil => rfl
  | cons l lines ih =>
    obtain ⟨⟨-, hm⟩, later⟩ := List.forall_mem_cons.mp h
    simp only [inject, hm, ih later]
    rfl

theorem collate_of_isPlain (h : IsPlain lines) :
    collate functions block lines = .ok (blockOf (block.reverse ++
      (lines.filter (!·.isBlank)).map fun l => Text.trimEnd l.text)) := by
  induction lines generalizing block with
  | nil => simp [collate]
  | cons l lines ih =>
    obtain ⟨⟨-, hm⟩, later⟩ := List.forall_mem_cons.mp h
    rw [collate, hm, if_neg (by simp)]
    split
    · next blank =>
      rw [ih later, List.filter_cons_of_neg]
      simpa [SourceLine.isBlank] using blank
    · next solid =>
      rw [ih later, List.filter_cons_of_pos]
      · simp
      · simpa [SourceLine.isBlank] using solid

theorem parseLines_of_isPlain (h : IsPlain lines) :
    parseLines lines =
      .ok ⟨blockOf ((lines.filter (!·.isBlank)).map fun l => Text.trimEnd l.text), []⟩ := by
  rw [parseLines, extract_of_isPlain h]
  simp only [bind, Except.bind, inject_of_isPlain h, collate_of_isPlain h]
  rfl

theorem map_text_numbered (n : Nat) (ls : List String) :
    (numbered n ls).map SourceLine.text = ls := by
  induction ls generalizing n with
  | nil => rfl
  | cons line ls ih => rw [numbered, List.map_cons, ih]

/-- A text of lines as blocks hold them, of which none starts with a marker, is one block. -/
theorem parse_of_isBlockLine (h : ∀ line ∈ Text.pieces raw, IsBlockLine line)
    (hm : ∀ line ∈ Text.pieces raw, Marker.ofLine? line = none) :
    parse raw = .ok ⟨[⟨raw⟩], []⟩ := by
  have plain : IsPlain (numbered 1 (Text.pieces raw)) :=
    fun l hl => ⟨(h _ (mem_numbered hl)).not_comment, hm _ (mem_numbered hl)⟩
  have solid : (numbered 1 (Text.pieces raw)).filter (!·.isBlank) =
      numbered 1 (Text.pieces raw) := by
    refine List.filter_eq_self.mpr fun l hl => ?_
    simpa [SourceLine.isBlank] using (h _ (mem_numbered hl)).not_blank
  have trimmed : (numbered 1 (Text.pieces raw)).map (fun l => Text.trimEnd l.text) =
      Text.pieces raw := by
    calc (numbered 1 (Text.pieces raw)).map (fun l => Text.trimEnd l.text)
        = (numbered 1 (Text.pieces raw)).map SourceLine.text :=
          List.map_congr_left fun l hl => (h _ (mem_numbered hl)).trimmed
      _ = Text.pieces raw := map_text_numbered 1 _
  have filled : (Text.pieces raw).isEmpty = false := by
    simpa using Text.pieces_ne_nil raw
  rw [parse_eq_pieces, parseLines_of_isPlain plain, solid, trimmed, blockOf, filled,
    Text.unlines_pieces]
  rfl

end

end Script

/-! ## Sessions without blank instructions -/

theorem Instruction.not_isBlank {i : Instruction}
    (h : ∀ line ∈ i.lines, Text.isBlankText line = false) : i.isBlank = false := by
  obtain ⟨line, more, heq⟩ := List.exists_cons_of_ne_nil (Text.pieces_ne_nil i.text)
  have here : line ∈ i.lines := by
    rw [Instruction.lines, heq]
    exact List.mem_cons_self
  rw [← Bool.not_eq_true, isBlank, Text.isBlankText, List.all_eq_true]
  intro blank
  refine Bool.eq_false_iff.mp (h line here) (List.all_eq_true.mpr fun c hc => blank c ?_)
  exact (Text.infix_of_mem_pieces here).subset hc

section

variable {μ σ : Type} {s : Session μ σ}

theorem Session.blanks_eq_zero_iff : s.blanks = 0 ↔
    s.tally.skippedBlank = 0 ∧ ∀ i ∈ s.queue, i.isBlank = false := by
  simp [Session.blanks, Nat.add_eq_zero_iff, List.countP_eq_zero]

namespace Agent

variable (a : Agent μ σ)

theorem replay_blanks {records : List ActionRecord} {explicitSteps : Bool} (h : s.blanks = 0)
    (hr : ∀ r ∈ records, r.instruction.isBlank = false) :
    (a.replay records explicitSteps s).2.blanks = 0 := by
  obtain ⟨model, replayed⟩ := a.replay_eq records explicitSteps s
  rw [replayed]
  cases a.surface.firstFailure? (records.map (·.action)) s.browser with
  | none => exact h
  | some first =>
    obtain ⟨ran, failure⟩ := first
    simp only
    split
    · rw [(a.run_chain _).blanks, Session.blanks_eq_zero_iff]
      refine ⟨(Session.blanks_eq_zero_iff.mp h).1, List.forall_mem_map.mpr fun r hmem => ?_⟩
      exact hr r (List.mem_of_mem_drop hmem)
    · exact h

theorem log_blanks {c : Call} (h : s.blanks = 0) (hc : ∀ records explicitSteps,
    c = .replay records explicitSteps → ∀ r ∈ records, r.instruction.isBlank = false) :
    (a.log c s).after.blanks = 0 := by
  cases c with
  | drive d => exact (a.log_chain d s).blanks.trans h
  | replay records explicitSteps => exact a.replay_blanks h (hc records explicitSteps rfl)

theorem after_blanks (calls : List Call) (h : s.blanks = 0) (hc : ∀ records explicitSteps,
    .replay records explicitSteps ∈ calls → ∀ r ∈ records, r.instruction.isBlank = false) :
    (a.after calls s).blanks = 0 := by
  induction calls generalizing s with
  | nil => exact h
  | cons c calls ih =>
    refine ih ?_ fun records e hmem => hc records e (List.mem_cons_of_mem _ hmem)
    exact a.log_blanks h fun records e heq => hc records e (heq ▸ List.mem_cons_self)

end Agent

end

/-! ## Blocks of a script -/

namespace Script

variable {raw : String} {script : Script}

/-- Every line of a block is plain text, so a block without a marker is a script that has this block
and nothing else. Whatever is called, a session with the queue of a script meets nothing blank. -/
theorem blocks_are_scripts (h : parse raw = .ok script) :
    (∀ block ∈ script.queue,
      Text.lines block.text = block.lines ∧ (∀ line ∈ block.lines, IsBlockLine line) ∧
        ((∀ line ∈ block.lines, Marker.ofLine? line ≠ some .injectFunction ∧
          Marker.ofLine? line ≠ some .runFunction) → parse block.text = .ok ⟨[block], []⟩)) ∧
    ∀ (μ σ : Type) (a : Agent μ σ) (model : μ) (browser : σ) (calls : List Call),
      (∀ records explicitSteps, .replay records explicitSteps ∈ calls →
        ∀ r ∈ records, r.instruction.isBlank = false) →
      (a.after calls (.start script.queue model browser)).tally.skippedBlank = 0 := by
  have lines := isBlockLine_of_parse h
  refine ⟨fun block hblock => ⟨?_, lines block hblock, fun hm => ?_⟩,
    fun μ σ a model browser calls hc => ?_⟩
  · exact Text.lines_of_trimmed fun line hline =>
      ⟨(lines block hblock line hline).trimmed, (lines block hblock line hline).not_blank⟩
  · refine parse_of_isBlockLine (lines block hblock) fun line hline => ?_
    have here := lines block hblock line hline
    cases hl : Marker.ofLine? line with
    | none => rfl
    | some m =>
      cases m with
      | beginFunction => exact absurd hl here.not_begin
      | endFunction => exact absurd hl here.not_end
      | injectFunction => exact absurd hl (hm line hline).1
      | runFunction => exact absurd hl (hm line hline).2
  · refine (Session.blanks_eq_zero_iff.mp (a.after_blanks calls ?_ hc)).1
    refine Session.blanks_eq_zero_iff.mpr ⟨rfl, fun block hblock => ?_⟩
    exact Instruction.not_isBlank fun line hline => (lines block hblock line hline).not_blank

theorem blocks_are_scripts_of_injection :
    let raw := Text.unlines ["BEGIN_FUNCTION f", "  one\t", "# no", "END_FUNCTION", "two \r",
      "INJECT_FUNCTION f", "", "RUN_FUNCTION f"]
    let block : Instruction := ⟨"two\n  one"⟩
    let body : Instruction := ⟨"  one"⟩
    let script : Script := ⟨[block, body], [("f", "  one")]⟩
    let model : ScriptedModel := .ofAnswers []
    let calls : List Call := [.drive .step, .replay [⟨body, "wait(2)"⟩] true, .drive .run]
    parse raw = .ok script ∧ parse block.text = .ok ⟨[block], []⟩ ∧
      (Agent.rehearsed.after calls (.start script.queue model .new)).tally.skippedBlank = 0 := by
  intro raw block body script model calls
  have parsed : parse raw = .ok script := by decide +kernel
  obtain ⟨blocks, sessions⟩ := blocks_are_scripts parsed
  refine ⟨parsed, ?_, ?_⟩
  · obtain ⟨-, -, again⟩ := blocks block List.mem_cons_self
    exact again (by decide +kernel)
  · refine sessions _ _ Agent.rehearsed model .new calls fun records e hmem r hr => ?_
    simp only [calls, List.mem_cons, reduceCtorEq, Call.replay.injEq, List.not_mem_nil, or_false,
      false_or] at hmem
    obtain ⟨rfl, -⟩ := hmem
    rw [List.mem_singleton.mp hr]
    decide

end Script

end BrowserAgent
