import BrowserAgent.Diagnostic
import BrowserAgent.Proofs.Paragraphs

/-!
# Lines of a diagnostic

No line of a diagnostic is empty: the first names the line that failed, and the lines of the reason
that are empty are left out. The cut takes only what stands at the end.
-/

namespace BrowserAgent

/-! ## Parts of texts -/

namespace Text

theorem takeBytes_prefix (limit : Nat) (cs : List Char) : takeBytes limit cs <+: cs := by
  fun_induction takeBytes limit cs with
  | case1 => exact List.prefix_rfl
  | case2 _ _ _ _ ih => exact List.cons_prefix_cons.mpr ⟨rfl, ih⟩
  | case3 => exact List.nil_prefix

theorem cutBytes_prefix (limit : Nat) (s : String) : (cutBytes limit s).toList <+: s.toList := by
  rw [cutBytes, String.toList_ofList]
  exact takeBytes_prefix limit s.toList

end Text

namespace Diagnostic

variable {cs : List Char} {c : Char} {source hostName reason l : String}

theorem mem_of_mem_collapseGaps (h : c ∈ collapseGaps cs) : c ∈ cs ∨ c = ' ' := by
  fun_induction collapseGaps cs with
  | case1 => exact .inl h
  | case2 => exact .inr (List.mem_singleton.mp h)
  | case3 => exact .inl h
  | case4 d e cs hd he ih => exact (ih h).imp_left (List.mem_cons_of_mem _)
  | case5 d e cs hd he ih =>
    rcases List.mem_cons.mp h with rfl | h
    · exact .inr rfl
    · exact (ih h).imp_left (List.mem_cons_of_mem _)
  | case6 d e cs hd ih =>
    rcases List.mem_cons.mp h with rfl | h
    · exact .inl List.mem_cons_self
    · exact (ih h).imp_left (List.mem_cons_of_mem _)

theorem of_mem_reasonLines (h : l ∈ reasonLines hostName reason) : l ≠ "" ∧ '\n' ∉ l.toList := by
  obtain ⟨hmem, hne⟩ := List.mem_filter.mp (List.mem_of_mem_take h)
  obtain ⟨raw, hraw, rfl⟩ := List.mem_map.mp hmem
  refine ⟨by rintro he; simp [he] at hne, ?_⟩
  rw [String.toList_ofList]
  intro hc
  rcases mem_of_mem_collapseGaps hc with hc | hc
  · exact Text.notMem_of_mem_lines hraw (Text.trim_infix.subset hc)
  · cases hc

theorem notMem_header (line : Nat) (hs : '\n' ∉ source.toList) :
    '\n' ∉ ("Failed on line " ++ toString line ++ ": " ++ source).toList := by
  have number : '\n' ∉ Nat.toDigits 10 line := by
    intro hc
    have : ('\n').isDigit = true := Nat.isDigit_of_mem_toDigits (by decide) (by decide) hc
    cases this
  simp [number, hs]

theorem unbroken_full (line : Nat) (hs : '\n' ∉ source.toList) (hostName reason : String) :
    ¬ ['\n', '\n'] <:+: (full line source hostName reason).toList := by
  refine Text.unbroken_unlines (List.cons_ne_nil _ _) ?_ ?_
  · rintro l (_ | ⟨_, hl⟩)
    · exact notMem_header line hs
    · exact (of_mem_reasonLines hl).2
  · intro hin
    rcases List.mem_cons.mp hin with header | hl
    · simpa using congrArg String.toList header
    · exact (of_mem_reasonLines hl).1 rfl

theorem unbroken_ofReason (line : Nat) (hs : '\n' ∉ source.toList) (hostName reason : String)
    (limit : Nat) : ¬ ['\n', '\n'] <:+: (ofReason line source hostName reason limit).toList :=
  fun hin => unbroken_full line hs hostName reason (hin.trans (Text.cutBytes_prefix _ _).isInfix)

end Diagnostic

end BrowserAgent
