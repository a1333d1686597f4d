import BrowserAgent.Completion
import BrowserAgent.Proofs.CleanedCompletions

/-!
# Fenced completions

A model may answer with an action, with an action and a fence behind it, or with a block between
two fences, and write on. The same action is taken from each.
-/

namespace BrowserAgent

namespace Text

variable {s s' : String} {more : List String}

/-! ## Blanks in front of lines -/

theorem trimStart_append (h : trimStart s = trimStart s') (rest : String) :
    trimStart (s ++ rest) = trimStart (s' ++ rest) := by
  have core := congrArg String.toList h
  rw [trimStart, trimStart, String.toList_ofList, String.toList_ofList] at core
  rw [trimStart, trimStart, String.toList_append, String.toList_append, List.dropWhile_append,
    List.dropWhile_append, core]

theorem trim_unlines_congr (h : trimStart s = trimStart s') (more : List String) :
    trim (unlines (s :: more)) = trim (unlines (s' :: more)) := by
  cases more with
  | nil =>
    rw [unlines, unlines, String.intercalate_singleton, String.intercalate_singleton, trim, h, trim]
  | cons line more =>
    rw [unlines, unlines, String.intercalate_cons_cons, String.intercalate_cons_cons,
      String.append_assoc, String.append_assoc, trim, trimStart_append h, trim]

theorem trim_unlines_blank (h : trimStart s = "") (more : List String) :
    trim (unlines (s :: more)) = trim (unlines more) := by
  have empty : trimStart s = trimStart "" := h
  rw [trim_unlines_congr empty]
  cases more with
  | nil => rfl
  | cons line more =>
    have broken : trimStart ("" ++ "\n") = trimStart "" := by decide
    rw [unlines, String.intercalate_cons_cons, trim, trimStart_append broken, String.empty_append,
      trim, unlines]

end Text

namespace Action

theorem stripFences_trimStart (text : String) :
    stripFences (Text.trimStart text) = stripFences text := by
  rw [Text.trimStart, Text.apply_dropWhile (f := fun cs => stripFences (String.ofList cs)),
    String.ofList_toList]
  intro c cs hc
  simp only [stripFences]
  obtain ⟨first, more, found, ⟨same, blank⟩ | ⟨other, same, blank⟩⟩ := Text.lines_cons_blank hc cs
  · have kept : (!Text.startsWith fence (Text.trimStart first)) = true := by rw [blank]; rfl
    rw [found, same, List.filter_cons, if_pos kept, Text.trim_unlines_blank blank]
  · rw [found, same, List.filter_cons, List.filter_cons, blank]
    split
    · exact Text.trim_unlines_congr blank _
    · rfl

theorem stripFences_of_clear {text : String} (clear : ¬ fence.toList <:+: text.toList) :
    stripFences text = Text.trim (Text.unlines (Text.lines text)) := by
  have kept : ∀ line ∈ Text.lines text,
      (!Text.startsWith fence (Text.trimStart line)) = true := by
    intro line hline
    rw [Bool.not_eq_true', ← Bool.not_eq_true, Text.startsWith, List.isPrefixOf_iff_prefix,
      Text.trimStart, String.toList_ofList]
    intro start
    have inside : fence.toList <:+: line.toList :=
      start.isInfix.trans (List.dropWhile_suffix _).isInfix
    exact clear (inside.trans (Text.infix_of_mem_lines hline))
  rw [stripFences, List.filter_eq_self.mpr kept]

end Action

/-! ## Bodies -/

/-- What may stand in a block: no fence is in it, and none would begin in it if one were put behind
it. -/
structure IsBody (cs : List Char) : Prop where
  clear : ¬ fence.toList <:+: cs
  ends : cs.getLast? ≠ some '`'

namespace IsBody

variable {cs ys : List Char}

theorem of_suffix (h : IsBody cs) (hs : ys <:+ cs) : IsBody ys where
  clear := fun hin => h.clear (hin.trans hs.isInfix)
  ends := by
    obtain ⟨xs, rfl⟩ := hs
    intro tick
    exact h.ends (by rw [List.getLast?_append, tick]; rfl)

theorem not_fence (h : IsBody cs) (hne : cs ≠ []) (rest : List Char) :
    ¬ fence.toList <+: cs ++ rest := by
  intro start
  -- A fence at the start would lie within the body or reach across its end.
  rcases List.prefix_or_prefix_of_prefix start (List.prefix_append cs rest) with inside | across
  · exact h.clear inside.isInfix
  · have ticks : ∀ c ∈ fence.toList, c = '`' := by simp [Action.toList_fence]
    have last := ticks _ (across.subset (List.getLast_mem hne))
    exact h.ends (by rw [List.getLast?_eq_some_getLast hne, last])

theorem cutBefore_append (h : IsBody cs) (rest : List Char) :
    Text.cutBefore [fence.toList] (cs ++ rest) = cs ++ Text.cutBefore [fence.toList] rest := by
  induction cs with
  | nil => rfl
  | cons c cs ih =>
    have stays : fence.toList.isPrefixOf (c :: (cs ++ rest)) = false := by
      rw [← Bool.not_eq_true, List.isPrefixOf_iff_prefix]
      exact h.not_fence (List.cons_ne_nil c cs) rest
    rw [List.cons_append, Text.cutBefore, List.any_cons, List.any_nil, stays, Bool.and_false,
      Bool.or_false, if_neg Bool.false_ne_true, ih (h.of_suffix (List.suffix_cons c cs)),
      List.cons_append]

end IsBody

namespace Completion

variable {b w info : String}

theorem cutBefore_fence (rest : List Char) :
    Text.cutBefore [fence.toList] (fence.toList ++ rest) = [] := rfl

theorem body_append (visible : Text.isBlankText b = false) (h : IsBody b.toList) (rest : String) :
    body (b ++ rest) = (Text.trimStart b).toList ++ rest.toList := by
  have some : b.toList.dropWhile Text.isBlank ≠ [] := by
    rw [← Bool.not_eq_true, Text.isBlankText, List.all_eq_true] at visible
    rwa [ne_eq, List.dropWhile_eq_nil_iff]
  -- The first visible character is in the text before, so all of the rest stays.
  have core : (Text.trimStart (b ++ rest)).toList =
      b.toList.dropWhile Text.isBlank ++ rest.toList := by
    rw [Text.trimStart, String.toList_ofList, String.toList_append, List.dropWhile_append,
      if_neg (by simpa using some)]
  have bare :
      ¬ fence.toList.isPrefixOf (b.toList.dropWhile Text.isBlank ++ rest.toList) = true := by
    rw [List.isPrefixOf_iff_prefix]
    exact (h.of_suffix (List.dropWhile_suffix _)).not_fence some _
  rw [body, core]
  simp only [if_neg bare]
  rw [Text.trimStart, String.toList_ofList]

theorem body_fenced (blank : Text.isBlankText w = true) (line : '\n' ∉ info.toList)
    (rest : String) : body (w ++ fence ++ info ++ "\n" ++ rest) = rest.toList := by
  have core : (Text.trimStart (w ++ fence ++ info ++ "\n" ++ rest)).toList =
      fence.toList ++ (info.toList ++ '\n' :: rest.toList) := by
    rw [Text.isBlankText, List.all_eq_true] at blank
    simp only [Text.trimStart, String.toList_ofList, String.toList_append, List.append_assoc]
    rw [List.dropWhile_append_of_pos blank]
    rfl
  have opened :
      fence.toList.isPrefixOf (fence.toList ++ (info.toList ++ '\n' :: rest.toList)) = true := by
    rw [List.isPrefixOf_iff_prefix]
    exact List.prefix_append _ _
  have before : ∀ c ∈ info.toList, (c != '\n') = true := by
    intro c hc
    rw [bne_iff_ne]
    rintro rfl
    exact line hc
  rw [body, core]
  simp only [opened, if_true]
  rw [← String.length_toList, List.drop_left, List.dropWhile_append_of_pos before]
  rfl

/-! ## Actions -/

def action (output : String) : String := Action.stripFences (ofOutput [fence] output)

theorem action_of_body {output : String} {cs : List Char} (h : IsBody cs)
    (found : body output = cs ∨ ∃ rest, body output = cs ++ (fence.toList ++ rest)) :
    action output = Action.stripFences (String.ofList cs) := by
  have cut : Text.cutBefore [fence.toList] (body output) = cs := by
    rcases found with whole | ⟨rest, closed⟩
    · have stays := h.cutBefore_append []
      rw [List.append_nil, Text.cutBefore, List.append_nil] at stays
      rw [whole, stays]
    · rw [closed, h.cutBefore_append, cutBefore_fence, List.append_nil]
  rw [action, ofOutput, List.map_singleton, cut]

/-- The same action is taken from a body as it stands, from one with a fence behind it, and from one
in a block, whatever stands on the line of the opening fence and behind the closing one: the lines
of the body, without the blanks around them. -/
theorem action_fenced (b w info more : String) (visible : Text.isBlankText b = false)
    (clear : ¬ fence.toList <:+: b.toList) (ends : b.toList.getLast? ≠ some '`')
    (blank : Text.isBlankText w = true) (line : '\n' ∉ info.toList) :
    let lines := Text.trim (Text.unlines (Text.lines b))
    action b = lines ∧ action (b ++ fence ++ more) = lines ∧
      action (w ++ fence ++ info ++ "\n" ++ b ++ fence ++ more) = lines := by
  intro lines
  have stripped : Action.stripFences b = lines := Action.stripFences_of_clear clear
  have h : IsBody b.toList := ⟨clear, ends⟩
  have start : IsBody (Text.trimStart b).toList := by
    rw [Text.trimStart, String.toList_ofList]
    exact h.of_suffix (List.dropWhile_suffix _)
  refine ⟨?_, ?_, ?_⟩
  · have found := body_append visible h ""
    rw [String.append_empty, String.toList_empty, List.append_nil] at found
    rw [action_of_body start (.inl found), String.ofList_toList, Action.stripFences_trimStart,
      stripped]
  · have found := body_append visible h (fence ++ more)
    rw [← String.append_assoc, String.toList_append] at found
    rw [action_of_body start (.inr ⟨_, found⟩), String.ofList_toList,
      Action.stripFences_trimStart, stripped]
  · have found := body_fenced blank line (b ++ (fence ++ more))
    rw [String.toList_append, String.toList_append, ← String.append_assoc, ← String.append_assoc]
      at found
    rw [action_of_body h (.inr ⟨_, found⟩), String.ofList_toList, stripped]

theorem action_fenced_click :
    action "click(go)\r\n" = "click(go)" ∧
      action ("click(go)\r\n" ++ fence ++ "\nDone.") = "click(go)" ∧
      action ("\n " ++ fence ++ "text" ++ "\n" ++ "click(go)\r\n" ++ fence ++ "\nDone.") =
        "click(go)" := by
  have chars : "click(go)\r\n".toList =
      ['c', 'l', 'i', 'c', 'k', '(', 'g', 'o', ')', '\r', '\n'] := by decide
  have clear : ¬ fence.toList <:+: "click(go)\r\n".toList := by
    rw [chars, Action.toList_fence]
    decide
  have lines : Text.trim (Text.unlines (Text.lines "click(go)\r\n")) = "click(go)" := by decide
  have same := action_fenced "click(go)\r\n" "\n " "text" "\nDone." (by decide) clear (by decide)
    (by decide) (by decide)
  rwa [lines] at same

end Completion

end BrowserAgent
