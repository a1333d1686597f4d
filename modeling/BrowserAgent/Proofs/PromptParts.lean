import BrowserAgent.Prompt
import BrowserAgent.Proofs.DiagnosticLines
import BrowserAgent.Proofs.ScriptBlocks

/-!
# What a prompt was made from

An instruction without blank lines ends at the first empty line after the preamble. In a prompt for
another attempt the previous action may hold empty lines of its own, but the diagnostic does not, so
it stands behind the last empty line before the closing words. So prompts are equal only if they
were made from equal texts, apart from the blanks around them.
-/

namespace BrowserAgent

/-- The text is the diagnostic of some failure, whose line has no line feed. -/
def Diagnostic.IsOfLine (diagnostic : String) : Prop :=
  ∃ line source hostName reason limit, '\n' ∉ source.toList ∧
    diagnostic = ofReason line source hostName reason limit

theorem Diagnostic.IsOfLine.isParagraph {diagnostic : String} (h : IsOfLine diagnostic) :
    Text.IsParagraph (Text.trim diagnostic).toList := by
  obtain ⟨line, source, hostName, reason, limit, hs, rfl⟩ := h
  exact Text.isParagraph_trim (unbroken_ofReason line hs hostName reason limit)

theorem Instruction.IsDense.isParagraph {i : Instruction} (h : i.IsDense) :
    Text.IsParagraph (Text.trim i.text).toList := by
  refine Text.isParagraph_trim (Text.unbroken_of_lines fun empty => ?_)
  cases h "" empty

namespace Prompt

variable {i i' : Instruction} {previous previous' diagnostic diagnostic' : String}

/-! ## Prompts as characters -/

theorem toList_action (i : Instruction) :
    (action i).toList = (preamble ++ "\n").toList ++
      ((Text.trim i.text).toList ++ '\n' :: '\n' :: answerStart.toList) := by
  simp [action]

theorem toList_retry (i : Instruction) (previous diagnostic : String) :
    (retry i previous diagnostic).toList = (preamble ++ "\n").toList ++
      ((Text.trim i.text).toList ++
        '\n' :: '\n' :: (answerStart ++ "\n" ++ retrySuffix previous diagnostic).toList) := by
  simp [retry, action]

/-- What stands before the diagnostic in its paragraph. -/
def failedLabel : String := "The action above failed. See diagnostic: "

theorem toList_retrySuffix (previous diagnostic : String) :
    (retrySuffix previous diagnostic).toList =
      (Text.trim previous).toList ++
        '\n' :: '\n' :: (failedLabel.toList ++ (Text.trim diagnostic).toList) ++
      ("\n\nPlease try again keeping in mind the above diagnostic. Only write the action.\n\n" ++
        answerStart).toList := by
  simp [retrySuffix, failedLabel]

/-! ## The parts of a prompt -/

theorem action_inj : action i = action i' ↔ Text.trim i.text = Text.trim i'.text := by
  rw [← String.toList_inj, toList_action, toList_action, List.append_cancel_left_eq,
    List.append_cancel_right_eq, String.toList_inj]

theorem retrySuffix_inj (hd : Diagnostic.IsOfLine diagnostic)
    (hd' : Diagnostic.IsOfLine diagnostic')
    (h : retrySuffix previous diagnostic = retrySuffix previous' diagnostic') :
    Text.trim previous = Text.trim previous' ∧ Text.trim diagnostic = Text.trim diagnostic' := by
  rw [← String.toList_inj, toList_retrySuffix, toList_retrySuffix, List.append_cancel_right_eq] at h
  have labelled {text : List Char} (ht : Text.IsParagraph text) :
      Text.IsParagraph (failedLabel.toList ++ text) := ht.append (by decide) (by decide)
  obtain ⟨actions, diagnostics⟩ := Text.last_paragraph_unique (labelled hd.isParagraph)
    (labelled hd'.isParagraph) h
  rw [List.append_cancel_left_eq] at diagnostics
  exact ⟨String.toList_inj.mp actions, String.toList_inj.mp diagnostics⟩

theorem retry_inj (hi : i.IsDense) (hi' : i'.IsDense) (hd : Diagnostic.IsOfLine diagnostic)
    (hd' : Diagnostic.IsOfLine diagnostic')
    (h : retry i previous diagnostic = retry i' previous' diagnostic') :
    Text.trim i.text = Text.trim i'.text ∧ Text.trim previous = Text.trim previous' ∧
      Text.trim diagnostic = Text.trim diagnostic' := by
  rw [← String.toList_inj, toList_retry, toList_retry, List.append_cancel_left_eq] at h
  obtain ⟨instructions, rest⟩ := Text.first_paragraph_unique hi.isParagraph hi'.isParagraph h
  rw [String.toList_inj, String.append_right_inj] at rest
  exact ⟨String.toList_inj.mp instructions, retrySuffix_inj hd hd' rest⟩

theorem retry_ne_any_action (hi : i.IsDense) (hi' : i'.IsDense) (previous diagnostic : String) :
    retry i previous diagnostic ≠ action i' := by
  intro h
  rw [← String.toList_inj, toList_retry, toList_action, List.append_cancel_left_eq] at h
  obtain ⟨-, rest⟩ := Text.first_paragraph_unique hi.isParagraph hi'.isParagraph h
  have := congrArg List.length rest
  simp at this

/-- From a prompt it can be told whether it is for a first attempt, and apart from the blanks around
them, the texts that it was made from, provided the instruction has no blank line, as those of a
script, and the diagnostic is one of a line that failed. -/
theorem parts_of_prompt :
    (∀ raw script, Script.parse raw = .ok script → ∀ i ∈ script.queue, i.IsDense) ∧
    (∀ i i', action i = action i' ↔ Text.trim i.text = Text.trim i'.text) ∧
    (∀ (i i' : Instruction) (previous previous' diagnostic diagnostic' : String),
      i.IsDense → i'.IsDense →
      Diagnostic.IsOfLine diagnostic → Diagnostic.IsOfLine diagnostic' →
        (retry i previous diagnostic = retry i' previous' diagnostic' ↔
          Text.trim i.text = Text.trim i'.text ∧ Text.trim previous = Text.trim previous' ∧
            Text.trim diagnostic = Text.trim diagnostic')) ∧
    ∀ (i i' : Instruction) (previous diagnostic : String), i.IsDense → i'.IsDense →
      retry i previous diagnostic ≠ action i' := by
  refine ⟨fun _ _ => Script.isDense_of_parse, fun i i' => action_inj, ?_, ?_⟩
  · intro i i' previous previous' diagnostic diagnostic' hi hi' hd hd'
    refine ⟨retry_inj hi hi' hd hd', ?_⟩
    rintro ⟨instructions, actions, diagnostics⟩
    rw [retry, retry, retrySuffix, retrySuffix, action_inj.mpr instructions, actions, diagnostics]
  · intro i i' previous diagnostic hi hi'
    exact retry_ne_any_action hi hi' previous diagnostic

/-- The previous action may hold what stands after it in a prompt. -/
theorem parts_of_click_prompt :
    let click : Instruction := ⟨"Click go"⟩
    let diagnostic := Diagnostic.ofReason 1 "click(go)" "Browser" "no such element" 80
    let nested := "click(go)\n\nThe action above failed. See diagnostic: x"
    Script.parse "Click go" = .ok ⟨[click], []⟩ ∧ click.IsDense ∧
      Diagnostic.IsOfLine diagnostic ∧ action click ≠ action ⟨"Click stop"⟩ ∧
      retry click nested diagnostic ≠ retry click "click(go)" diagnostic ∧
      retry click nested diagnostic ≠ action click := by
  intro click diagnostic nested
  obtain ⟨blocks, first, again, apart⟩ := parts_of_prompt
  have parsed : Script.parse "Click go" = .ok ⟨[click], []⟩ := rfl
  have dense : click.IsDense := blocks "Click go" _ parsed click List.mem_cons_self
  have ofLine : Diagnostic.IsOfLine diagnostic := ⟨1, "click(go)", _, _, _, by decide, rfl⟩
  refine ⟨parsed, dense, ofLine, ?_, ?_, apart click click nested diagnostic dense dense⟩
  · exact fun same => absurd ((first _ _).mp same) (by decide)
  · intro same
    have actions := ((again click click _ _ _ _ dense dense ofLine ofLine).mp same).2.1
    have : Text.trim nested ≠ Text.trim "click(go)" := by decide
    exact this actions

end Prompt

end BrowserAgent
