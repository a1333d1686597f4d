import BrowserAgent.Proofs.CachedCompletions
import BrowserAgent.Proofs.Rehearsed
import BrowserAgent.Proofs.SideBySide

/-!
# Sessions with and without a cache

Where the answer of the model depends on the prompt alone, an agent that reuses completions and one
that never does go through the same sessions: they ask with the same prompts, get the same actions
and do the same on the surface. What differs is how often the model is asked.
-/

namespace BrowserAgent

variable {μ σ : Type}

/-- The model answers every request by its prompt alone, with a completion or a fatal error. -/
def LanguageModel.AnswersBy (model : LanguageModel μ) (answer : String → Except String String) :
    Prop :=
  ∀ request m, (model.complete request m).1 = (answer request.prompt).mapError .fatal

def Synthesizer.withoutReuse (s : Synthesizer μ) : Synthesizer μ := { s with reuse := false }

/-- The agent whose cache never finds a completion. -/
def Agent.withoutReuse (a : Agent μ σ) : Agent μ σ :=
  { a with synthesizer := a.synthesizer.withoutReuse }

/-! ## What is seen of a session -/

/-- The session apart from the model and the cache. -/
def Session.seen (s : Session μ σ) : Session Unit σ :=
  ⟨s.queue, s.history, ⟨(), .empty⟩, s.browser, s.phase, s.dispatched, s.tally⟩

def Turn.seen (t : Turn μ σ) : Turn Unit σ := ⟨t.before.seen, t.report, t.after.seen⟩

def RunSummary.seen (r : RunSummary) : RunSummary := ⟨r.tally, 0, 0⟩

def Answer.seen : Answer → Answer
  | .stepped outcome => .stepped outcome
  | .finished summary => .finished summary.seen

def CallLog.seen (l : CallLog μ σ) : CallLog Unit σ :=
  ⟨l.before.seen, l.replayed, l.turns.map Turn.seen, l.answer.map Answer.seen, l.after.seen⟩

/-! ## Answers by the prompt -/

section

variable {answer : String → Except String String} {prompt : String}

theorem LanguageModel.answersBy_ofFunction (answer : String → Except String String) :
    (ofFunction answer).AnswersBy answer := by
  intro request m
  simp only [ofFunction]
  cases answer request.prompt <;> rfl

/-- What is kept is what the model would answer. -/
def PromptCache.Holds (c : PromptCache) (answer : String → Except String String) : Prop :=
  ∀ prompt completion, c.get? prompt = some completion → answer prompt = .ok completion

theorem LanguageModel.ask_of_answersBy {model : LanguageModel μ} (h : model.AnswersBy answer)
    (request : CompletionRequest) (m : μ) :
    (model.ask request m).1 = answer request.prompt := by
  have answered := h request m
  obtain ⟨result, after, hc⟩ : ∃ result after, model.complete request m = (result, after) :=
    ⟨_, _, rfl⟩
  rw [hc] at answered
  cases ha : answer request.prompt with
  | ok completion =>
    rw [ha] at answered
    rw [model.ask_of_ok (hc.trans (congrArg (·, after) answered))]
  | error reason =>
    rw [ha] at answered
    rw [model.ask_of_fatal (hc.trans (congrArg (·, after) answered))]

theorem Synthesizer.holds_keep {c : PromptCache} (h : c.Holds answer) :
    (keep prompt c (answer prompt)).Holds answer := by
  cases ha : answer prompt with
  | error reason => exact h
  | ok completion =>
    intro other found hfound
    rw [keep, PromptCache.get?_insert] at hfound
    split at hfound
    · next heq => rw [heq, ha, ← Option.some.inj hfound]
    · exact h other found hfound

/-- The workbenches of an agent that may reuse completions and of one that does not. -/
structure Workbench.Alike (answer : String → Except String String) (w w' : Workbench μ) : Prop where
  holds : w.cache.Holds answer
  holds' : w'.cache.Holds answer
  lookups : w.cache.lookups = w'.cache.lookups
  unused : w'.cache.hits = 0

end

namespace Synthesizer

variable {s : Synthesizer μ} {answer : String → Except String String} {w w' : Workbench μ}

theorem complete_of_answersBy (h : s.model.AnswersBy answer) (hw : w.cache.Holds answer)
    (prompt : String) :
    (s.complete prompt w).1 = (answer prompt).map Action.stripFences ∧
      (s.complete prompt w).2.cache.Holds answer := by
  obtain ⟨reuse, completion, hc⟩ | missed := s.found_or_missed prompt w.cache
  · rw [complete_of_found s reuse hc, hw prompt completion hc]
    exact ⟨rfl, hw⟩
  · have asked : (s.model.ask (s.request prompt) w.model).1 = answer prompt :=
      LanguageModel.ask_of_answersBy h _ _
    rw [complete_of_missed s missed, asked]
    exact ⟨rfl, holds_keep hw⟩

theorem hits_complete_withoutReuse (prompt : String) :
    (s.withoutReuse.complete prompt w).2.cache.hits = w.cache.hits := by
  rw [complete_of_missed _ (by simp [withoutReuse])]
  cases (s.withoutReuse.model.ask (s.withoutReuse.request prompt) w.model).1 <;> rfl

variable (h : s.model.AnswersBy answer) (hw : w.Alike answer w')
include h hw

theorem complete_alike (prompt : String) :
    ∃ result v v', s.complete prompt w = (result, v) ∧
      s.withoutReuse.complete prompt w' = (result, v') ∧ v.Alike answer v' := by
  obtain ⟨h₁, holds₁⟩ := complete_of_answersBy h hw.holds prompt
  obtain ⟨h₂, holds₂⟩ := complete_of_answersBy (s := s.withoutReuse) h hw.holds' prompt
  refine ⟨_, _, _, Prod.ext h₁ rfl, Prod.ext h₂ rfl, holds₁, holds₂, ?_, ?_⟩
  · rw [lookups_complete, lookups_complete, hw.lookups]
  · rw [hits_complete_withoutReuse, hw.unused]

end Synthesizer

/-! ## Sessions side by side -/

/-- Sessions of both agents: all that is seen of them is the same. -/
inductive Session.Alike (answer : String → Except String String) :
    Session μ σ → Session μ σ → Prop
  | mk {queue : List Instruction} {history : History} {w w' : Workbench μ} {browser : σ}
    {phase : Phase} {dispatched : Nat} {tally : Tally} : w.Alike answer w' →
    Alike answer ⟨queue, history, w, browser, phase, dispatched, tally⟩
      ⟨queue, history, w', browser, phase, dispatched, tally⟩

theorem Session.Alike.seen_eq {answer : String → Except String String} {s s' : Session μ σ}
    (h : s.Alike answer s') : s.seen = s'.seen := by
  cases h
  rfl

theorem Session.Alike.summary {answer : String → Except String String} {s s' : Session μ σ}
    (h : s.Alike answer s') : s.summary.seen = s'.summary.seen := by
  cases h
  rfl

theorem Session.Alike.workbench {answer : String → Except String String} {s s' : Session μ σ}
    (h : s.Alike answer s') : s.workbench.Alike answer s'.workbench := by
  cases h
  assumption

theorem Session.alike_iff {answer : String → Except String String} {s s' : Session μ σ} :
    s.Alike answer s' ↔ s.Beside (Workbench.Alike answer) Eq s' := by
  constructor
  · rintro ⟨h⟩
    exact .mk h rfl
  · rintro ⟨h, rfl⟩
    exact .mk h

theorem CallLog.seen_eq (l : CallLog μ σ) : l.seen = l.map Session.seen RunSummary.seen := by
  have answer : Answer.seen = Answer.map RunSummary.seen := by
    funext found
    cases found <;> rfl
  rw [CallLog.seen, answer]
  rfl

namespace Agent

variable {a : Agent μ σ} {answer : String → Except String String} {s s' : Session μ σ}

section

variable (h : a.synthesizer.model.AnswersBy answer)
include h

theorem simulates_withoutReuse : a.Simulates a.withoutReuse (Workbench.Alike answer) Eq where
  settings := rfl
  hostName := rfl
  complete prompt w w' hw := by
    obtain ⟨result, v, v', hv, hv', alike⟩ := Synthesizer.complete_alike h hw prompt
    have hv' : a.withoutReuse.synthesizer.complete prompt w' = (result, v') := hv'
    rw [hv, hv']
    exact ⟨rfl, alike⟩
  runWhole action := by
    rintro browser _ rfl
    exact ⟨rfl, rfl⟩
  reveal := by
    rintro browser _ after _ w w' rfl rfl hw
    exact ⟨hw.holds, hw.holds', hw.lookups, hw.unused⟩

theorem logs_alike (calls : List Call) (hs : s.Alike answer s') :
    (a.logs calls s).map CallLog.seen = (a.withoutReuse.logs calls s').map CallLog.seen ∧
      (a.after calls s).Alike answer (a.withoutReuse.after calls s') := by
  have view : Views (Workbench.Alike answer) Eq (Session.seen (μ := μ) (σ := σ)) Session.seen
      RunSummary.seen RunSummary.seen :=
    ⟨fun h => (Session.alike_iff.mpr h).seen_eq, fun h => (Session.alike_iff.mpr h).summary⟩
  rw [funext CallLog.seen_eq, Session.alike_iff]
  exact logs_agree (simulates_withoutReuse h) (Session.alike_iff.mp hs) view calls

/-- Whatever is called, from any queue and on any surface: an agent does the same, answers the
same and leaves the same document whether it reuses completions or not. Both make the same number of
requests; without reuse every one is sent to the model. -/
theorem reuse_transparent (queue : List Instruction) (model : μ) (browser : σ)
    (calls : List Call) :
    (a.logs calls (.start queue model browser)).map CallLog.seen =
        (a.withoutReuse.logs calls (.start queue model browser)).map CallLog.seen ∧
      (a.after calls (.start queue model browser)).seen =
        (a.withoutReuse.after calls (.start queue model browser)).seen ∧
      (a.after calls (.start queue model browser)).document =
        (a.withoutReuse.after calls (.start queue model browser)).document ∧
      (a.after calls (.start queue model browser)).requests =
        (a.withoutReuse.after calls (.start queue model browser)).requests ∧
      (a.withoutReuse.after calls (.start queue model browser)).workbench.cache.hits = 0 := by
  have start : Session.Alike answer (.start queue model browser) (.start queue model browser) :=
    .mk ⟨by simp [PromptCache.Holds, PromptCache.get?, PromptCache.empty],
      by simp [PromptCache.Holds, PromptCache.get?, PromptCache.empty], rfl, rfl⟩
  obtain ⟨logs, sessions⟩ := logs_alike h calls start
  exact ⟨logs, sessions.seen_eq, congrArg (fun s : Session Unit σ => s.document) sessions.seen_eq,
    sessions.workbench.lookups, sessions.workbench.unused⟩

end

def clicking : Agent Unit Rehearsal :=
  .apart ⟨.ofFunction fun _ => .ok "click(go)", rehearsed.synthesizer.temperature,
    rehearsed.synthesizer.maxTokens, true⟩ Rehearsal.surface rehearsed.settings

/-- One instruction given twice, so that the second time every prompt was sent before. -/
theorem clicking_reuse_transparent :
    (clicking.logs [.drive .step, .drive .run]
        (.start [⟨"Click go"⟩, ⟨"Click go"⟩] () .new)).map CallLog.seen =
      (clicking.withoutReuse.logs [.drive .step, .drive .run]
        (.start [⟨"Click go"⟩, ⟨"Click go"⟩] () .new)).map CallLog.seen :=
  have answers : clicking.synthesizer.model.AnswersBy fun _ => .ok "click(go)" :=
    LanguageModel.answersBy_ofFunction fun _ => .ok "click(go)"
  (reuse_transparent answers _ _ _ _).1

end Agent

end BrowserAgent
