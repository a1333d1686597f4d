import BrowserAgent.Proofs.Gate
import BrowserAgent.Proofs.TokenReaders
import Mathlib.Data.List.TakeWhile

/-!
# Trimmed lines

Trimming takes the blanks from both ends of a line and leaves a part of it. A line is a part of the
text that it stands in.
-/

namespace BrowserAgent

open BrowserAgent.Action (Stops stops_cons stops_dropWhile dropWhile_of_stops isGap isGap_iff)

/-- Neither the first nor the last character passes the test. -/
def Trimmed (p : Char → Bool) (cs : List Char) : Prop :=
  Stops p cs ∧ ∀ c ∈ cs.getLast?, p c = false

theorem Trimmed.gaps {cs : List Char} (h : Trimmed Text.isBlank cs) : Trimmed isGap cs := by
  have blank : ∀ c, Text.isBlank c = false → isGap c = false := by
    intro c hc
    rw [Bool.eq_false_iff, ne_eq, isGap_iff]
    rintro (rfl | rfl) <;> cases hc
  exact ⟨fun c hc => blank c (h.1 c hc), fun c hc => blank c (h.2 c hc)⟩

namespace Text

variable {p : Char → Bool} {cs : List Char} {s line : String}

theorem dropEndWhile_prefix : dropEndWhile p cs <+: cs := by
  rw [← List.reverse_suffix, dropEndWhile, List.reverse_reverse]
  exact List.dropWhile_suffix p

theorem getLast?_dropEndWhile : ∀ c ∈ (dropEndWhile p cs).getLast?, p c = false := by
  rw [dropEndWhile, List.getLast?_reverse]
  exact stops_dropWhile

theorem dropEndWhile_of_last (h : ∀ c ∈ cs.getLast?, p c = false) : dropEndWhile p cs = cs := by
  rw [dropEndWhile, dropWhile_of_stops, List.reverse_reverse]
  rwa [Stops, List.head?_reverse]

theorem dropEndWhile_eq_nil_iff :
    dropEndWhile p cs = [] ↔ ∀ c ∈ cs, p c = true := by
  simp [dropEndWhile, List.dropWhile_eq_nil_iff]

theorem toList_trim : (trim s).toList = dropEndWhile isBlank (s.toList.dropWhile isBlank) := by
  rw [trim, trimEnd, trimStart, String.toList_ofList, String.toList_ofList]

theorem trim_eq_empty_iff : trim s = "" ↔ isBlankText s = true := by
  rw [← String.toList_inj, toList_trim, String.toList_empty, dropEndWhile_eq_nil_iff,
    ← List.dropWhile_eq_nil_iff, dropWhile_of_stops stops_dropWhile, List.dropWhile_eq_nil_iff,
    isBlankText, List.all_eq_true]

theorem trim_infix : (trim s).toList <:+: s.toList := by
  rw [toList_trim]
  exact dropEndWhile_prefix.isInfix.trans (List.dropWhile_suffix _).isInfix

theorem trimmed_trim : Trimmed isBlank (trim s).toList := by
  rw [toList_trim]
  refine ⟨fun c hc => ?_, getLast?_dropEndWhile⟩
  obtain ⟨tail, htail⟩ := List.head?_eq_some_iff.mp hc
  have start : dropEndWhile isBlank (s.toList.dropWhile isBlank) <+: _ := dropEndWhile_prefix
  obtain ⟨rest, hrest⟩ := start
  have stops : Stops isBlank (s.toList.dropWhile isBlank) := stops_dropWhile
  rw [← hrest, htail] at stops
  exact stops_cons.mp stops

theorem trim_of_trimmed (h : Trimmed isBlank s.toList) : trim s = s := by
  rw [← String.toList_inj, toList_trim, dropWhile_of_stops h.1, dropEndWhile_of_last h.2]

theorem dropReturn_prefix : dropReturn cs <+: cs := by
  unfold dropReturn
  split
  · exact List.dropLast_prefix cs
  · exact List.prefix_rfl

theorem exists_run_of_mem_closeLines {runs : List (List Char)} :
    ∀ l ∈ closeLines runs, ∃ run ∈ runs, l = run ∨ l = dropReturn run := by
  fun_induction closeLines runs with
  | case1 => simp
  | case2 => simp
  | case3 last => exact fun l hl => ⟨l, hl, .inl rfl⟩
  | case4 run next more ih =>
    intro l hl
    rcases List.mem_cons.mp hl with rfl | hl
    · exact ⟨run, List.mem_cons_self, .inr rfl⟩
    · obtain ⟨found, hfound, heq⟩ := ih l hl
      exact ⟨found, List.mem_cons_of_mem _ hfound, heq⟩

theorem closeLines_prefix {runs : List (List Char)} :
    ∀ l ∈ closeLines runs, ∃ run ∈ runs, l <+: run := by
  intro l hl
  obtain ⟨run, hrun, rfl | rfl⟩ := exists_run_of_mem_closeLines l hl
  · exact ⟨l, hrun, List.prefix_rfl⟩
  · exact ⟨run, hrun, dropReturn_prefix⟩

theorem infix_of_mem_lines (h : line ∈ lines s) : line.toList <:+: s.toList := by
  obtain ⟨l, hl, rfl⟩ := List.mem_map.mp h
  obtain ⟨run, hrun, hprefix⟩ := closeLines_prefix l hl
  have hpiece : (String.ofList run).toList <:+: s.toList :=
    infix_of_mem_pieces (List.mem_map_of_mem hrun)
  rw [String.toList_ofList] at hpiece ⊢
  exact hprefix.isInfix.trans hpiece

end Text

end BrowserAgent
