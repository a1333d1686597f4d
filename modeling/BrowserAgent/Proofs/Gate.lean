import BrowserAgent.Gate
import BrowserAgent.Text.Lines

/-!
# What the gate accepts

The gate accepts an action if none of its tokens stands in the text. So it also accepts every part
of an accepted action, and every line of it.
-/

namespace BrowserAgent

/-! ## Texts in texts -/

namespace Text

theorem occursIn_iff (needle cs : List Char) : occursIn needle cs = true ↔ needle <:+: cs := by
  induction cs with
  | nil => simp [occursIn]
  | cons c cs ih =>
    rw [occursIn, Bool.or_eq_true, List.isPrefixOf_iff_prefix, ih, List.infix_cons_iff]

theorem contains_iff (needle s : String) :
    contains needle s = true ↔ needle.toList <:+: s.toList :=
  occursIn_iff _ _

theorem splitAtChar_infix (sep : Char) (cs : List Char) :
    ∃ run runs, splitAtChar sep cs = run :: runs ∧ run <+: cs ∧ ∀ r ∈ runs, r <:+: cs := by
  induction cs with
  | nil => exact ⟨[], [], rfl, List.nil_prefix, by simp⟩
  | cons c cs ih =>
    obtain ⟨run, runs, hsplit, hrun, hruns⟩ := ih
    by_cases hc : c = sep
    · refine ⟨[], run :: runs, by simp [splitAtChar, hc, hsplit], List.nil_prefix, ?_⟩
      intro r hr
      rcases List.mem_cons.mp hr with rfl | hr
      · exact List.infix_cons hrun.isInfix
      · exact List.infix_cons (hruns r hr)
    · refine ⟨c :: run, runs, by simp [splitAtChar, hc, hsplit], ?_, ?_⟩
      · exact (List.prefix_cons_inj c).mpr hrun
      · exact fun r hr => List.infix_cons (hruns r hr)

theorem infix_of_mem_pieces {s piece : String} (h : piece ∈ pieces s) :
    piece.toList <:+: s.toList := by
  obtain ⟨run, runs, hsplit, hrun, hruns⟩ := splitAtChar_infix '\n' s.toList
  rw [pieces, hsplit] at h
  obtain ⟨r, hr, rfl⟩ := List.mem_map.mp h
  rw [String.toList_ofList]
  rcases List.mem_cons.mp hr with rfl | hr
  · exact hrun.isInfix
  · exact hruns r hr

end Text

/-! ## Accepted texts -/

namespace Gate

theorem isAccepted_iff (action : String) :
    isAccepted action = true ↔
      ∀ token ∈ importToken :: denied, ¬ token.toList <:+: action.toList := by
  simp only [isAccepted, refusedToken?, Option.isNone_iff_eq_none, List.find?_eq_none,
    Text.contains_iff]

theorem isAccepted_of_infix {part action : String} (h : isAccepted action = true)
    (hp : part.toList <:+: action.toList) : isAccepted part = true := by
  rw [isAccepted_iff] at h ⊢
  exact fun token ht hin => h token ht (hin.trans hp)

theorem isAccepted_of_mem_pieces {line action : String} (h : isAccepted action = true)
    (hl : line ∈ Text.pieces action) : isAccepted line = true :=
  isAccepted_of_infix h (Text.infix_of_mem_pieces hl)

end Gate

end BrowserAgent
