import BrowserAgent.Proofs.Step
import BrowserAgent.Settings.Basic
import BrowserAgent.Surface.Rehearsal

/-!
# A rehearsed agent

The standard rules, a model whose answers are written beforehand, and a browser that carries out
nothing. What such an agent does can be worked out step by step.
-/

namespace BrowserAgent

theorem Prompt.retry_ne_action (i : Instruction) (previous diagnostic : String) :
    Prompt.retry i previous diagnostic ≠ Prompt.action i := by
  intro h
  have := congrArg (fun s => s.toList.length) h
  simp [Prompt.retry] at this

theorem PromptCache.get?_of_ne {prompt other : String} (completion : String) (hits misses : Nat)
    (h : prompt ≠ other) :
    (⟨[(other, completion)], hits, misses⟩ : PromptCache).get? prompt = none := by
  simp [get?, List.lookup_cons, beq_false_of_ne h]

/-! ## Actions of one line -/

theorem Action.parse_of_line {line : String} {expr : Expr} (lines : Text.lines line = [line])
    (trimmed : Text.trim line = line) (kept : isSkipped line = false)
    (statement : readStatement line = .ok (none, expr)) :
    parse line = .ok ⟨[⟨1, line, none, expr⟩]⟩ := by
  rw [parse, lines, statementsFrom, readLine, trimmed]
  simp only [kept, statement]
  rfl

theorem readStatement?_click :
    Action.readStatement? "click(go)" = some (none, .call "click" [(none, .var "go")]) := by
  have chars : "click(go)".toList = ['c', 'l', 'i', 'c', 'k', '(', 'g', 'o', ')'] := by decide
  have binding : Action.readBinding ['c', 'l', 'i', 'c', 'k', '(', 'g', 'o', ')'] = none := by
    decide
  have phrase : Action.readPhrase
      (Action.skipGaps ['c', 'l', 'i', 'c', 'k', '(', 'g', 'o', ')']) =
      some (.call "click" [(none, .var "go")], []) := rfl
  simp only [Action.readStatement?, chars, binding, phrase]
  rfl

theorem readStatement_click :
    readStatement "click(go)" = .ok (none, .call .click [some (.var "go")]) := by
  have expr : (Phrase.call "click" [(none, .var "go")]).toExpr =
      .ok (.call .click [some (.var "go")]) := rfl
  delta readStatement
  rw [readStatement?_click]
  simp only [expr]
  rfl

theorem parse_click :
    Action.parse "click(go)" =
      .ok ⟨[⟨1, "click(go)", none, .call .click [some (.var "go")]⟩]⟩ :=
  Action.parse_of_line (by decide) (by decide) (by decide) readStatement_click

theorem run_click (browser : Rehearsal) :
    (Rehearsal.surface.runWhole "click(go)").run browser =
      (.error ⟨1, "click(go)", .notEvaluated (.undefined "go")⟩, browser) := by
  -- Nothing is called `go`, so there is nothing to click.
  rw [Surface.runWhole, parse_click]
  rfl

theorem readStatement?_pageText :
    Action.readStatement? "page_text()" = some (none, .call "page_text" []) := by
  have chars : "page_text()".toList =
      ['p', 'a', 'g', 'e', '_', 't', 'e', 'x', 't', '(', ')'] := by decide
  have binding : Action.readBinding
      ['p', 'a', 'g', 'e', '_', 't', 'e', 'x', 't', '(', ')'] = none := by decide
  have phrase : Action.readPhrase
      (Action.skipGaps ['p', 'a', 'g', 'e', '_', 't', 'e', 'x', 't', '(', ')']) =
      some (.call "page_text" [], []) := rfl
  simp only [Action.readStatement?, chars, binding, phrase]
  rfl

theorem readStatement_pageText :
    readStatement "page_text()" = .ok (none, .call .pageText [none]) := by
  have expr : (Phrase.call "page_text" []).toExpr = .ok (.call .pageText [none]) := rfl
  delta readStatement
  rw [readStatement?_pageText]
  simp only [expr]
  rfl

theorem parse_pageText :
    Action.parse "page_text()" = .ok ⟨[⟨1, "page_text()", none, .call .pageText [none]⟩]⟩ :=
  Action.parse_of_line (by decide) (by decide) (by decide) readStatement_pageText

theorem run_pageText {browser : Rehearsal} (h : browser.failures = []) :
    (Rehearsal.surface.runWhole "page_text()").run browser =
      (.ok (), { browser with calls := browser.calls ++ [.pageText false] }) := by
  obtain ⟨calls, failures, found, made, elementFrame, currentFrame, text⟩ := browser
  obtain rfl : failures = [] := h
  rw [Surface.runWhole, parse_pageText]
  rfl

/-! ## The agent -/

namespace Agent

def rehearsed : Agent ScriptedModel Rehearsal :=
  let settings := Settings.standard
  .apart ⟨ScriptedModel.model, settings.model.temperature, settings.model.maxTokens, true⟩
    Rehearsal.surface settings.engine

variable (i : Instruction)

theorem rehearsed_synthesize (completion : String) (more : List (Except ModelError String)) :
    ∃ requests, rehearsed.synthesizer.synthesize i
        ⟨.ofAnswers (.ok completion :: more), .empty⟩ =
      (.ok ⟨i, Action.stripFences completion⟩,
        ⟨⟨more, requests⟩, ⟨[(Prompt.action i, completion)], 0, 1⟩⟩) := by
  exact ⟨_, rehearsed.synthesizer.synthesize_of_ok rfl rfl⟩

theorem rehearsed_synthesizeRetry (action diagnostic completion reason : String)
    (more : List (Except ModelError String)) (requests : List CompletionRequest) :
    ∃ w, rehearsed.synthesizer.synthesizeRetry ⟨i, action⟩ diagnostic
        ⟨⟨.error (.fatal reason) :: more, requests⟩,
          ⟨[(Prompt.action i, completion)], 0, 1⟩⟩ = (.error reason, w) := by
  have absent := PromptCache.get?_of_ne completion 0 1
    (Prompt.retry_ne_action i action diagnostic)
  exact ⟨_, rehearsed.synthesizer.synthesizeRetry_of_fatal absent rfl⟩

theorem rehearsed_recovery (action diagnostic completion answer : String)
    (more : List (Except ModelError String)) (requests : List CompletionRequest) :
    ∃ w, rehearsed.synthesizer.synthesizeRetry ⟨i, action⟩ diagnostic
        ⟨⟨.ok answer :: more, requests⟩, ⟨[(Prompt.action i, completion)], 0, 1⟩⟩ =
      (.ok ⟨i, Action.stripFences answer⟩, w) ∧
      w.cache.get? (Prompt.retry i action diagnostic) = some answer := by
  have absent := PromptCache.get?_of_ne completion 0 1
    (Prompt.retry_ne_action i action diagnostic)
  refine ⟨_, rehearsed.synthesizer.synthesizeRetry_of_ok absent rfl, ?_⟩
  simp [PromptCache.get?, PromptCache.insert]

end Agent

end BrowserAgent
