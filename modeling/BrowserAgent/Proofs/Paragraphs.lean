import BrowserAgent.Proofs.JoinedLines

/-!
# Paragraphs

A paragraph has no empty line in it. When a text starts with a paragraph and an empty line, its
first empty line is that one, so paragraph and rest can be told from the whole; and so can they when
the text ends with an empty line and a paragraph.
-/

namespace BrowserAgent.Text

variable {xs ys cs label rest more : List Char} {s : String} {ls : List String}

/-- No line feed stands at an end, and no two of them together. -/
structure IsParagraph (cs : List Char) : Prop where
  starts : cs.head? ≠ some '\n'
  ends : cs.getLast? ≠ some '\n'
  unbroken : ¬ ['\n', '\n'] <:+: cs

/-! ## The first and the last empty line -/

theorem IsParagraph.eq_nil_of_append (h : IsParagraph (xs ++ more))
    (later : '\n' :: '\n' :: rest = more ++ '\n' :: ys) : more = [] := by
  -- One more character would be a line feed at the end, two would be an empty line.
  rcases more with _ | ⟨c, _ | ⟨d, more⟩⟩
  · rfl
  · obtain ⟨rfl, -⟩ := List.cons.inj later
    exact absurd List.getLast?_concat h.ends
  · obtain ⟨rfl, tail⟩ := List.cons.inj later
    obtain ⟨rfl, -⟩ := List.cons.inj tail
    exact absurd ⟨xs, more, by simp⟩ h.unbroken

theorem first_paragraph_unique {rest' : List Char} (hx : IsParagraph xs) (hy : IsParagraph ys)
    (h : xs ++ '\n' :: '\n' :: rest = ys ++ '\n' :: '\n' :: rest') : xs = ys ∧ rest = rest' := by
  have same : xs = ys := by
    obtain ⟨more, rfl, later⟩ | ⟨more, rfl, later⟩ := List.append_eq_append_iff.mp h
    · rw [hy.eq_nil_of_append later, List.append_nil]
    · rw [hx.eq_nil_of_append later, List.append_nil]
  subst same
  simpa using h

theorem IsParagraph.reverse (h : IsParagraph cs) : IsParagraph cs.reverse where
  starts := by rw [List.head?_reverse]; exact h.ends
  ends := by rw [List.getLast?_reverse]; exact h.starts
  unbroken := fun hin => h.unbroken (List.reverse_infix.mp hin)

theorem last_paragraph_unique {rest' : List Char} (hx : IsParagraph xs) (hy : IsParagraph ys)
    (h : rest ++ '\n' :: '\n' :: xs = rest' ++ '\n' :: '\n' :: ys) : rest = rest' ∧ xs = ys := by
  have mirrored := congrArg List.reverse h
  simp only [List.reverse_append, List.reverse_cons, List.append_assoc, List.singleton_append]
    at mirrored
  obtain ⟨last, before⟩ := first_paragraph_unique hx.reverse hy.reverse mirrored
  exact ⟨List.reverse_inj.mp before, List.reverse_inj.mp last⟩

/-! ## Parts of paragraphs -/

theorem unbroken_append (hl : '\n' ∉ label) (h : ¬ ['\n', '\n'] <:+: cs) :
    ¬ ['\n', '\n'] <:+: label ++ cs := by
  induction label with
  | nil => exact h
  | cons c label ih =>
    obtain ⟨hc, hl⟩ := List.ne_and_not_mem_of_not_mem_cons hl
    rw [List.cons_append, List.infix_cons_iff]
    rintro (hstart | hlater)
    · exact hc (List.cons_prefix_cons.mp hstart).1
    · exact ih hl hlater

theorem IsParagraph.append (hne : label ≠ []) (hl : '\n' ∉ label) (h : IsParagraph cs) :
    IsParagraph (label ++ cs) where
  starts := by
    obtain ⟨c, label, rfl⟩ := List.exists_cons_of_ne_nil hne
    rintro ⟨⟩
    exact hl List.mem_cons_self
  ends := by
    intro hc
    rw [List.getLast?_append] at hc
    cases hlast : cs.getLast? with
    | some c =>
      rw [hlast] at hc
      exact h.ends (hlast.trans hc)
    | none =>
      rw [hlast] at hc
      exact hl (List.mem_of_getLast? hc)
  unbroken := unbroken_append hl h.unbroken

theorem isParagraph_trim (h : ¬ ['\n', '\n'] <:+: s.toList) : IsParagraph (trim s).toList where
  starts := fun hc => absurd (trimmed_trim.1 '\n' hc) (by decide)
  ends := fun hc => absurd (trimmed_trim.2 '\n' hc) (by decide)
  unbroken := fun hin => h (hin.trans trim_infix)

/-! ## Lines -/

theorem splitAtChar_append_cons (sep : Char) (xs ys : List Char) :
    splitAtChar sep (xs ++ sep :: ys) = splitAtChar sep xs ++ splitAtChar sep ys := by
  simp only [splitAtChar_eq, List.splitOn]
  exact List.splitOnP_append_cons xs ys (by simp)

theorem splitAtChar_gap (xs ys : List Char) :
    splitAtChar '\n' (xs ++ ['\n', '\n'] ++ ys) =
      splitAtChar '\n' xs ++ [] :: splitAtChar '\n' ys := by
  rw [List.append_assoc, List.cons_append, splitAtChar_append_cons]
  rfl

theorem unbroken_unlines (hne : ls ≠ []) (hn : ∀ l ∈ ls, '\n' ∉ l.toList) (he : "" ∉ ls) :
    ¬ ['\n', '\n'] <:+: (unlines ls).toList := by
  rintro ⟨xs, ys, hgap⟩
  have empty : [] ∈ splitAtChar '\n' (unlines ls).toList := by
    rw [← hgap, splitAtChar_gap]
    exact List.mem_append_right _ List.mem_cons_self
  have : "" ∈ pieces (unlines ls) := List.mem_map_of_mem empty
  rw [pieces_unlines hne hn] at this
  exact he this

theorem dropReturn_mem_closeLines (runs : List (List Char)) (line next : List Char)
    (more : List (List Char)) : dropReturn line ∈ closeLines (runs ++ line :: next :: more) := by
  induction runs with
  | nil => exact List.mem_cons_self
  | cons run runs ih =>
    obtain ⟨second, others, hs⟩ :=
      List.exists_cons_of_ne_nil (l := runs ++ line :: next :: more) (by simp)
    rw [hs] at ih
    rw [List.cons_append, hs, closeLines]
    exact List.mem_cons_of_mem _ ih

theorem unbroken_of_lines (h : "" ∉ lines s) : ¬ ['\n', '\n'] <:+: s.toList := by
  rintro ⟨xs, ys, hgap⟩
  obtain ⟨next, more, hs⟩ := exists_splitAtChar '\n' ys
  have empty : [] ∈ closeLines (splitAtChar '\n' s.toList) := by
    rw [← hgap, splitAtChar_gap, hs]
    exact dropReturn_mem_closeLines _ [] next more
  exact h (List.mem_map_of_mem empty)

end BrowserAgent.Text
