import BrowserAgent.Script
import BrowserAgent.Proofs.JoinedLines
import BrowserAgent.Proofs.RunLaws

/-!
# Blocks of a script

Whether its lines come from the script, from an injected function or from a function that is run, no
line of a block is blank.
-/

namespace BrowserAgent

/-- What is left of a line that counts: it has no line feed, and not only blanks. -/
structure Text.IsContent (line : String) : Prop where
  no_newline : '\n' ∉ line.toList
  not_blank : Text.isBlankText line = false

/-- No line of the instruction is blank. -/
def Instruction.IsDense (i : Instruction) : Prop :=
  ∀ line ∈ Text.lines i.text, Text.isBlankText line = false

/-! ## Blank lines -/

namespace Text

variable {p : Char → Bool} {cs : List Char} {line : String} {ls : List String}

theorem all_of_all_dropEndWhile (h : (dropEndWhile p cs).all p = true) : cs.all p = true := by
  rw [dropEndWhile, List.all_reverse] at h
  rw [← List.all_reverse, ← List.takeWhile_append_dropWhile (p := p) (l := cs.reverse),
    List.all_append, h, Bool.and_true, List.all_takeWhile]

theorem isBlankText_trimEnd (h : isBlankText line = false) :
    isBlankText (trimEnd line) = false := by
  rw [← Bool.not_eq_true] at h ⊢
  rw [isBlankText, trimEnd, String.toList_ofList]
  exact fun hb => h (all_of_all_dropEndWhile hb)

theorem trimEnd_subset : (trimEnd line).toList ⊆ line.toList := by
  rw [trimEnd, String.toList_ofList]
  exact dropEndWhile_prefix.subset

theorem isContent_trimEnd (h : IsContent line) : IsContent (trimEnd line) where
  no_newline := fun hc => h.no_newline (trimEnd_subset hc)
  not_blank := isBlankText_trimEnd h.not_blank

theorem all_of_all_dropReturn (h : (dropReturn cs).all isBlank = true) : cs.all isBlank = true := by
  unfold dropReturn at h
  split at h
  · next hr =>
    obtain ⟨init, rfl⟩ := List.getLast?_eq_some_iff.mp hr
    rw [List.dropLast_concat] at h
    rw [List.all_append, h]
    rfl
  · exact h

end Text

theorem Instruction.isDense_of_lines {i : Instruction}
    (h : ∀ line ∈ i.lines, Text.isBlankText line = false) : i.IsDense := by
  intro line hline
  obtain ⟨l, hl, rfl⟩ := List.mem_map.mp hline
  obtain ⟨run, hrun, heq⟩ := Text.exists_run_of_mem_closeLines l hl
  have solid := h _ (List.mem_map_of_mem hrun)
  rw [← Bool.not_eq_true, Text.isBlankText, String.toList_ofList] at solid ⊢
  -- The carriage return that may be taken from a line is blank.
  rcases heq with rfl | rfl
  · exact solid
  · exact fun hb => solid (Text.all_of_all_dropReturn hb)

namespace Script

variable {functions : FunctionTable} {lines expanded outside : List SourceLine}
  {defined : List (String × String)} {block ls : List String} {queue : List Instruction}

theorem isContent_of_mem_bodyLines {body line : String} (h : line ∈ bodyLines body) :
    Text.IsContent line := by
  obtain ⟨hmem, hblank⟩ := List.mem_filter.mp h
  obtain ⟨piece, hpiece, rfl⟩ := List.mem_map.mp hmem
  refine ⟨fun hc => ?_, by simpa using hblank⟩
  exact Text.notMem_of_mem_pieces hpiece (Text.trimEnd_subset hc)

theorem isDense_of_mem_blockOf (h : ∀ l ∈ ls, Text.IsContent l) : ∀ i ∈ blockOf ls, i.IsDense := by
  intro i hi
  unfold blockOf at hi
  split at hi
  · cases hi
  · next hne =>
    rw [List.isEmpty_iff] at hne
    rw [List.mem_singleton.mp hi]
    apply Instruction.isDense_of_lines
    rw [Instruction.lines, Text.pieces_unlines hne fun l hl => (h l hl).no_newline]
    exact fun l hl => (h l hl).not_blank

/-! ## The steps of the parser -/

/-- The lines outside of functions are lines of the script, in their order. -/
theorem extract_sublist {sec : Option OpenSection}
    (h : extract sec lines = .ok (outside, defined)) : outside.Sublist lines := by
  fun_induction extract sec lines generalizing outside defined with
  | case1 =>
    cases h
    exact .refl []
  | case2 | case5 | case9 => cases h
  | case3 _ _ _ ih | case7 _ _ _ _ ih => exact (ih h).cons _
  | case4 line more _ _ ih =>
    obtain ⟨name, -, h⟩ := bind_eq_ok_iff.mp h
    exact (ih name h).cons _
  | case6 line more _ _ _ ih =>
    obtain ⟨found, hfound, h⟩ := bind_eq_ok_iff.mp h
    cases h
    exact (ih hfound).cons_cons _
  | case8 sec line more _ _ ih =>
    obtain ⟨found, hfound, h⟩ := bind_eq_ok_iff.mp h
    cases h
    exact (ih hfound).cons _
  | case10 sec line more _ _ _ ih => exact (ih h).cons _

theorem inject_no_newline (h : inject functions lines = .ok expanded)
    (hn : ∀ l ∈ lines, '\n' ∉ l.text.toList) : ∀ l ∈ expanded, '\n' ∉ l.text.toList := by
  fun_induction inject functions lines generalizing expanded with
  | case1 =>
    cases h
    simp
  | case2 line more _ ih =>
    obtain ⟨body, -, h⟩ := bind_eq_ok_iff.mp h
    obtain ⟨rest, hrest, h⟩ := bind_eq_ok_iff.mp h
    cases h
    intro l hl
    rcases List.mem_append.mp hl with hl | hl
    · obtain ⟨text, htext, rfl⟩ := List.mem_map.mp hl
      exact (isContent_of_mem_bodyLines htext).no_newline
    · exact ih hrest (fun l hl => hn l (List.mem_cons_of_mem _ hl)) l hl
  | case3 line more _ ih =>
    obtain ⟨rest, hrest, h⟩ := bind_eq_ok_iff.mp h
    cases h
    obtain ⟨here, later⟩ := List.forall_mem_cons.mp hn
    exact List.forall_mem_cons.mpr ⟨here, ih hrest later⟩

theorem collate_isDense (h : collate functions block lines = .ok queue)
    (hb : ∀ l ∈ block, Text.IsContent l) (hn : ∀ l ∈ lines, '\n' ∉ l.text.toList) :
    ∀ i ∈ queue, i.IsDense := by
  fun_induction collate functions block lines generalizing queue with
  | case1 block =>
    cases h
    exact isDense_of_mem_blockOf fun l hl => hb l (List.mem_reverse.mp hl)
  | case2 block line more _ ih =>
    obtain ⟨body, -, h⟩ := bind_eq_ok_iff.mp h
    obtain ⟨rest, hrest, h⟩ := bind_eq_ok_iff.mp h
    cases h
    intro i hi
    rcases List.mem_append.mp hi with hi | hi
    · rcases List.mem_append.mp hi with hi | hi
      · exact isDense_of_mem_blockOf (fun l hl => hb l (List.mem_reverse.mp hl)) i hi
      · exact isDense_of_mem_blockOf (fun l hl => isContent_of_mem_bodyLines hl) i hi
    · exact ih hrest (by simp) (fun l hl => hn l (List.mem_cons_of_mem _ hl)) i hi
  | case3 block line more _ _ ih => exact ih h hb fun l hl => hn l (List.mem_cons_of_mem _ hl)
  | case4 block line more _ hblank ih =>
    obtain ⟨here, later⟩ := List.forall_mem_cons.mp hn
    have content : Text.IsContent line.text := ⟨here, by simpa using hblank⟩
    exact ih h (List.forall_mem_cons.mpr ⟨Text.isContent_trimEnd content, hb⟩) later

theorem mem_numbered {n : Nat} {l : SourceLine} (h : l ∈ numbered n ls) : l.text ∈ ls := by
  induction ls generalizing n with
  | nil => cases h
  | cons line more ih =>
    rcases List.mem_cons.mp h with rfl | h
    · exact List.mem_cons_self
    · exact List.mem_cons_of_mem _ (ih h)

/-- What the three stages of reading a script have led to. -/
theorem stages_of_parse {raw : String} {script : Script} (h : parse raw = .ok script) :
    ∃ outside defined expanded,
      extract none (numbered 1 (Text.lines raw)) = .ok (outside, defined) ∧
      inject (tableOf defined) outside = .ok expanded ∧
      collate (tableOf defined) [] expanded = .ok script.queue := by
  obtain ⟨⟨outside, defined⟩, hextract, h⟩ := bind_eq_ok_iff.mp h
  obtain ⟨expanded, hinject, h⟩ := bind_eq_ok_iff.mp h
  obtain ⟨queue, hcollate, h⟩ := bind_eq_ok_iff.mp h
  cases h
  exact ⟨outside, defined, expanded, hextract, hinject, hcollate⟩

theorem isDense_of_parse {raw : String} {script : Script} (h : parse raw = .ok script) :
    ∀ i ∈ script.queue, i.IsDense := by
  obtain ⟨outside, defined, expanded, hextract, hinject, hcollate⟩ := stages_of_parse h
  refine collate_isDense hcollate (by simp) (inject_no_newline hinject fun l hl => ?_)
  exact Text.notMem_of_mem_lines (mem_numbered ((extract_sublist hextract).subset hl))

end Script

end BrowserAgent
