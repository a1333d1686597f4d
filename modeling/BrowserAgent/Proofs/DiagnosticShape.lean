import BrowserAgent.Proofs.DiagnosticLines
import Mathlib.Data.String.Basic

/-!
# The shape of a diagnostic

A diagnostic is the longest start of its full text that fits in the limit. In that text the first
line names the line that failed, and each of the others is a line of the reason without blanks at
its ends, without tabs and with one space for every gap. No line of the text is empty, and the cut
leaves none empty: it ends within a line or behind a line feed.
-/

namespace BrowserAgent

open BrowserAgent.Action (Stops stops_cons)
open String (utf8Len)

/-! ## Cuts -/

namespace Text

variable {cs ds xs ys : List Char} {ls : List String}

/-- The longest start of a text that takes at most so many bytes. -/
structure IsCut (limit : Nat) (s cut : String) : Prop where
  start : cut.toList <+: s.toList
  fits : cut.utf8ByteSize ≤ limit
  longest : ∀ other : String, other.toList <+: s.toList → other.utf8ByteSize ≤ limit →
    other.toList <+: cut.toList

theorem utf8Len_takeBytes (limit : Nat) (cs : List Char) :
    utf8Len (takeBytes limit cs) ≤ limit := by
  fun_induction takeBytes limit cs with
  | case1 => exact Nat.zero_le _
  | case2 limit c cs fits ih =>
    rw [String.utf8Len_cons]
    omega
  | case3 => exact Nat.zero_le _

theorem prefix_takeBytes {limit : Nat} (h : ds <+: cs) (fits : utf8Len ds ≤ limit) :
    ds <+: takeBytes limit cs := by
  induction ds generalizing limit cs with
  | nil => exact List.nil_prefix
  | cons d ds ih =>
    obtain ⟨rest, rfl⟩ := h
    rw [String.utf8Len_cons] at fits
    rw [List.cons_append, takeBytes, if_pos (by omega), List.prefix_cons_inj]
    exact ih (List.prefix_append ds rest) (by omega)

theorem isCut_cutBytes (limit : Nat) (s : String) : IsCut limit s (cutBytes limit s) where
  start := cutBytes_prefix limit s
  fits := by
    rw [cutBytes, String.utf8ByteSize_ofList]
    exact utf8Len_takeBytes limit s.toList
  longest := by
    intro other h fits
    rw [cutBytes, String.toList_ofList]
    rw [← String.utf8Len_toList] at fits
    exact prefix_takeBytes h fits

/-! ## Lines of a cut -/

theorem of_mem_closeLines {init : List (List Char)} {last l : List Char}
    (h : l ∈ closeLines (init ++ [last])) : (∃ run ∈ init, l = dropReturn run) ∨ l ≠ [] := by
  induction init with
  | nil =>
    rw [List.nil_append, closeLines] at h
    split at h
    · cases h
    · next hne =>
      rw [List.mem_singleton.mp h]
      exact .inr fun he => hne (List.isEmpty_iff.mpr he)
  | cons run init ih =>
    obtain ⟨next, more, heq⟩ := List.exists_cons_of_ne_nil (l := init ++ [last]) (by simp)
    rw [List.cons_append, heq, closeLines, ← heq] at h
    rcases List.mem_cons.mp h with rfl | h
    · exact .inl ⟨run, List.mem_cons_self, rfl⟩
    · obtain ⟨found, hmem, hl⟩ | hne := ih h
      · exact .inl ⟨found, List.mem_cons_of_mem _ hmem, hl⟩
      · exact .inr hne

/-- The text begins with a character other than a carriage return. -/
def Begun (cs : List Char) : Prop := ∃ c rest, cs = c :: rest ∧ c ≠ '\r'

theorem Begun.dropReturn_ne_nil (h : Begun cs) : dropReturn cs ≠ [] := by
  obtain ⟨c, rest, rfl, hc⟩ := h
  unfold dropReturn
  split
  · next last =>
    cases rest with
    | nil => exact absurd (Option.some.inj last) hc
    | cons => exact List.cons_ne_nil _ _
  · exact List.cons_ne_nil _ _

/-- Lines that are not empty leave no empty line, wherever the text is cut. -/
theorem filled_of_prefix {s : String} (hne : ls ≠ [])
    (hn : ∀ l ∈ ls, '\n' ∉ l.toList ∧ Begun l.toList) (h : s.toList <+: (unlines ls).toList) :
    "" ∉ lines s := by
  intro empty
  obtain ⟨rest, hrest⟩ := h
  obtain ⟨init, last, first, more, hs, -, happend⟩ := splitAtChar_append '\n' s.toList rest
  -- What ends before the cut is a whole line, so it is not empty.
  have ended : ∀ run ∈ init, Begun run := by
    intro run hrun
    have piece : String.ofList run ∈ pieces (unlines ls) := by
      rw [pieces, ← hrest, happend]
      exact List.mem_map_of_mem (List.mem_append_left _ hrun)
    rw [pieces_unlines hne fun l hl => (hn l hl).1] at piece
    simpa using (hn _ piece).2
  rw [lines, hs] at empty
  obtain ⟨l, hl, he⟩ := List.mem_map.mp empty
  obtain rfl : l = [] := by simpa using he
  obtain ⟨run, hrun, hdrop⟩ | hne := of_mem_closeLines hl
  · exact (ended run hrun).dropReturn_ne_nil hdrop.symm
  · exact hne rfl

end Text

/-! ## Lines of the reason -/

namespace Diagnostic

variable {cs : List Char} {source hostName reason line : String}

theorem notMem_tab (cs : List Char) : '\t' ∉ collapseGaps cs := by
  fun_induction collapseGaps cs with
  | case1 => exact List.not_mem_nil
  | case2 => decide
  | case3 c hc =>
    intro h
    rw [← List.mem_singleton.mp h] at hc
    exact hc rfl
  | case4 c d cs hc hd ih => exact ih
  | case5 c d cs hc hd ih => simp [ih]
  | case6 c d cs hc ih =>
    rw [List.mem_cons, not_or]
    refine ⟨?_, ih⟩
    rintro rfl
    exact hc rfl

theorem head?_collapseGaps (h : Stops Action.isGap cs) : (collapseGaps cs).head? = cs.head? := by
  fun_induction collapseGaps cs with
  | case1 | case3 | case6 => rfl
  | case2 c hc => simp [stops_cons, hc] at h
  | case4 c d cs hc | case5 c d cs hc => simp [stops_cons, hc] at h

theorem getLast?_collapseGaps (h : ∀ c ∈ cs.getLast?, Action.isGap c = false) :
    (collapseGaps cs).getLast? = cs.getLast? := by
  fun_induction collapseGaps cs with
  | case1 | case3 => rfl
  | case2 c hc => simp [hc] at h
  | case4 c d cs hc hd ih =>
    rw [List.getLast?_cons_cons] at h ⊢
    exact ih h
  | case5 c d cs hc hd ih | case6 c d cs hc ih =>
    rw [List.getLast?_cons_cons] at h
    rw [List.getLast?_cons, ih h, List.getLast?_cons_cons, List.getLast?_cons]
    rfl

theorem trimmed_collapseGaps (h : Trimmed Text.isBlank cs) :
    Trimmed Text.isBlank (collapseGaps cs) := by
  refine ⟨fun c hc => h.1 c ?_, fun c hc => h.2 c ?_⟩
  · rwa [head?_collapseGaps h.gaps.1] at hc
  · rwa [getLast?_collapseGaps h.gaps.2] at hc

theorem unspaced_collapseGaps (cs : List Char) : ¬ [' ', ' '] <:+: collapseGaps cs := by
  fun_induction collapseGaps cs with
  | case1 => decide
  | case2 => decide
  | case3 c hc =>
    intro h
    simpa using h.length_le
  | case4 c d cs hc hd ih => exact ih
  | case5 c d cs hc hd ih =>
    rw [List.infix_cons_iff]
    rintro (hstart | hlater)
    · have stops : Stops Action.isGap (d :: cs) := stops_cons.mpr (Bool.eq_false_iff.mpr hd)
      have same := head?_collapseGaps stops
      obtain ⟨rest, hrest⟩ := (List.cons_prefix_cons.mp hstart).2
      rw [← hrest] at same
      cases same
      exact hd rfl
    · exact ih hlater
  | case6 c d cs hc ih =>
    rw [List.infix_cons_iff]
    rintro (hstart | hlater)
    · rw [← (List.cons_prefix_cons.mp hstart).1] at hc
      exact hc rfl
    · exact ih hlater

/-- What a line of the reason looks like: it is not empty and has no line feed, no blanks at its
ends, no tab and no two spaces together. -/
structure IsPlainLine (line : String) : Prop where
  not_empty : line ≠ ""
  one_line : '\n' ∉ line.toList
  trimmed : Text.trim line = line
  no_tab : '\t' ∉ line.toList
  no_gap : ¬ [' ', ' '] <:+: line.toList

theorem isPlainLine_of_mem (h : line ∈ reasonLines hostName reason) : IsPlainLine line := by
  obtain ⟨not_empty, one_line⟩ := of_mem_reasonLines h
  obtain ⟨raw, -, rfl⟩ := List.mem_map.mp (List.mem_filter.mp (List.mem_of_mem_take h)).1
  refine ⟨not_empty, one_line, Text.trim_of_trimmed ?_, ?_, ?_⟩
  · rw [String.toList_ofList]
    exact trimmed_collapseGaps Text.trimmed_trim
  · rw [String.toList_ofList]
    exact notMem_tab _
  · rw [String.toList_ofList]
    exact unspaced_collapseGaps _

theorem collapseGaps_eq_nil_iff : collapseGaps cs = [] ↔ cs = [] := by
  fun_induction collapseGaps cs <;> simp_all

theorem length_reasonLines (hostName reason : String) :
    (reasonLines hostName reason).length = min maxReasonLines
      ((Text.lines (plainReason hostName reason)).countP fun line => !Text.isBlankText line) := by
  have filled : ∀ line : String,
      (String.ofList (collapseGaps (Text.trim line).toList)).isEmpty = Text.isBlankText line := by
    intro line
    rw [Bool.eq_iff_iff, ← Text.trim_eq_empty_iff, String.isEmpty_iff]
    simp [collapseGaps_eq_nil_iff]
  rw [reasonLines, List.length_take, ← List.countP_eq_length_filter, List.countP_map]
  simp only [Function.comp_def, filled]

theorem filled_ofReason (line : Nat) (hs : '\n' ∉ source.toList) (hostName reason : String)
    (limit : Nat) : "" ∉ Text.lines (ofReason line source hostName reason limit) := by
  refine Text.filled_of_prefix (List.cons_ne_nil _ _) ?_ (Text.cutBytes_prefix limit _)
  intro l hl
  rcases List.mem_cons.mp hl with rfl | hl
  · exact ⟨notMem_header line hs, 'F', _, by simp; rfl, by decide⟩
  · obtain ⟨not_empty, one_line, trimmed, -, -⟩ := isPlainLine_of_mem hl
    refine ⟨one_line, ?_⟩
    cases hc : l.toList with
    | nil => exact absurd (String.toList_eq_nil_iff.mp hc) not_empty
    | cons c rest =>
      have first := (Text.trimmed_trim (s := l)).1
      rw [trimmed, hc, stops_cons] at first
      refine ⟨c, rest, rfl, ?_⟩
      rintro rfl
      cases first

end Diagnostic

end BrowserAgent
