import BrowserAgent.Proofs.Exchanges

/-!
# One completion for each prompt

With a cache no prompt is completed twice, whatever is asked in which order. The counts of the cache
agree with the exchanges: a hit sends nothing, and a miss sends the prompt until there is an answer
that is no transient error.
-/

namespace BrowserAgent

variable {μ : Type}

/-! ## The books -/

def errors (answered : List (Ask × Except String ActionRecord)) : Nat :=
  answered.countP fun found => !found.2.isOk

/-- The counts after some requests, against the results and the exchanges. -/
structure Balanced (answered : List (Ask × Except String ActionRecord)) (cache : PromptCache)
    (exchanges : List Exchange) : Prop where
  requests : cache.hits + cache.misses = answered.length
  completions : cache.size = exchanges.countP Exchange.isCompletion
  misses : cache.misses = cache.size + errors answered
  sent : exchanges.length = cache.misses + exchanges.countP Exchange.isTransient
  once : ((exchanges.filter Exchange.isCompletion).map Exchange.prompt).Nodup

/-- What is kept for a prompt is its completion, and the action of every request with the prompt
that got one. -/
structure Kept (answered : List (Ask × Except String ActionRecord)) (cache : PromptCache)
    (exchanges : List Exchange) : Prop where
  completed : ∀ e ∈ exchanges, ∀ completion, e.answer = .ok completion →
    cache.get? e.prompt = some completion
  answers : ∀ found ∈ answered, ∀ made, found.2 = .ok made →
    ∃ completion, cache.get? found.1.prompt = some completion ∧
      made.action = Action.stripFences completion
  asked : ∀ prompt completion, cache.get? prompt = some completion →
    ∃ found ∈ answered, found.1.prompt = prompt ∧ found.2.isOk = true

section

variable {answered : List (Ask × Except String ActionRecord)} {cache : PromptCache}
  {exchanges repeats : List Exchange} {ask : Ask} {completion reason : String} {made : ActionRecord}

theorem errors_ok : errors (answered ++ [(ask, .ok made)]) = errors answered := by
  rw [errors, List.countP_append]
  rfl

theorem errors_error : errors (answered ++ [(ask, .error reason)]) = errors answered + 1 := by
  rw [errors, List.countP_append]
  rfl

theorem Balanced.found (h : Balanced answered cache exchanges) :
    Balanced (answered ++ [(ask, .ok made)]) { cache with hits := cache.hits + 1 } exchanges where
  requests := by
    have := h.requests
    simp only [List.length_append, List.length_singleton]
    omega
  completions := h.completions
  misses := by
    rw [errors_ok]
    exact h.misses
  sent := h.sent
  once := h.once

theorem Kept.found (h : Kept answered cache exchanges) (hits : Nat)
    (hc : cache.get? ask.prompt = some completion) :
    Kept (answered ++ [(ask, .ok ⟨ask.instruction, Action.stripFences completion⟩)])
      { cache with hits := hits } exchanges where
  completed := h.completed
  answers := by
    simp only [List.mem_append, List.mem_singleton]
    rintro found (hfound | rfl) made hmade
    · exact h.answers found hfound made hmade
    · exact ⟨completion, hc, by rw [← Except.ok.inj hmade]⟩
  asked := by
    intro prompt completion hkept
    obtain ⟨found, hfound, hprompt⟩ := h.asked prompt completion hkept
    exact ⟨found, List.mem_append_left _ hfound, hprompt⟩

theorem PromptCache.size_insert_of_absent {prompt : String} (c : PromptCache)
    (h : c.get? prompt = none) : (c.insert prompt completion).size = c.size + 1 := by
  have others : (c.entries.filter fun entry => entry.1 != prompt) = c.entries := by
    refine List.filter_eq_self.mpr fun entry hentry => ?_
    exact bne_iff_ne.mpr (Ne.symm (bne_iff_ne.mp (List.lookup_eq_none_iff.mp h entry hentry)))
  rw [size, insert, List.length_cons, others, size]

theorem Balanced.completed {request : CompletionRequest} (h : Balanced answered cache exchanges)
    (kept : Kept answered cache exchanges) (hc : cache.get? ask.prompt = none)
    (hr : request.prompt = ask.prompt) (hrepeats : AllTransient request repeats) :
    Balanced (answered ++ [(ask, .ok made)])
      ({ cache with misses := cache.misses + 1 }.insert ask.prompt completion)
      (exchanges ++ (repeats ++ [⟨request, .ok completion⟩])) := by
  have size : ({ cache with misses := cache.misses + 1 }.insert ask.prompt completion).size =
      cache.size + 1 :=
    PromptCache.size_insert_of_absent { cache with misses := cache.misses + 1 } hc
  -- A prompt with a completion is kept, and this one is not.
  have fresh : ask.prompt ∉ (exchanges.filter Exchange.isCompletion).map Exchange.prompt := by
    intro hmem
    obtain ⟨e, he, hprompt⟩ := List.mem_map.mp hmem
    obtain ⟨hin, hcompletion⟩ := List.mem_filter.mp he
    obtain ⟨earlier, hearlier⟩ := e.isCompletion_iff.mp hcompletion
    have := kept.completed e hin earlier hearlier
    rw [hprompt, hc] at this
    cases this
  constructor
  · have := h.requests
    simp only [PromptCache.insert, List.length_append, List.length_singleton]
    omega
  · rw [size, List.countP_eq_length_filter, hrepeats.completions, List.length_append,
      ← List.countP_eq_length_filter, h.completions]
    rfl
  · have := h.misses
    rw [size, errors_ok]
    simp only [PromptCache.insert]
    omega
  · have := h.sent
    rw [hrepeats.transients rfl]
    simp only [PromptCache.insert, List.length_append, List.length_singleton]
    omega
  · have last : ([⟨request, .ok completion⟩].filter Exchange.isCompletion).map Exchange.prompt =
        [ask.prompt] := by
      rw [← hr]
      rfl
    rw [hrepeats.completions, List.map_append, last, List.nodup_append]
    refine ⟨h.once, by simp, fun prompt hprompt other hother heq => fresh ?_⟩
    rwa [← List.mem_singleton.mp hother, ← heq]

theorem Balanced.refused {request : CompletionRequest} (h : Balanced answered cache exchanges)
    (hrepeats : AllTransient request repeats) :
    Balanced (answered ++ [(ask, .error reason)]) { cache with misses := cache.misses + 1 }
      (exchanges ++ (repeats ++ [⟨request, .error (.fatal reason)⟩])) := by
  constructor
  · have := h.requests
    simp only [List.length_append, List.length_singleton]
    omega
  · rw [List.countP_eq_length_filter, hrepeats.completions, List.length_append,
      ← List.countP_eq_length_filter, ← h.completions]
    rfl
  · have := h.misses
    rw [errors_error]
    simp only [PromptCache.size] at this ⊢
    omega
  · have := h.sent
    rw [hrepeats.transients rfl]
    simp only [List.length_append, List.length_singleton]
    omega
  · rw [hrepeats.completions, List.map_append]
    exact (List.append_nil _).symm ▸ h.once

theorem Kept.completed_on {request : CompletionRequest} (h : Kept answered cache exchanges)
    (hc : cache.get? ask.prompt = none) (hr : request.prompt = ask.prompt)
    (hrepeats : AllTransient request repeats) :
    Kept (answered ++ [(ask, .ok ⟨ask.instruction, Action.stripFences completion⟩)])
      ({ cache with misses := cache.misses + 1 }.insert ask.prompt completion)
      (exchanges ++ (repeats ++ [⟨request, .ok completion⟩])) where
  completed := by
    simp only [List.mem_append, List.mem_singleton]
    rintro e (he | he | rfl) found hfound
    · exact PromptCache.get?_insert_of_kept hc (h.completed e he found hfound)
    · exact absurd hfound (Exchange.answer_ne_ok (hrepeats e he).2)
    · rw [PromptCache.get?_insert, ← Except.ok.inj hfound]
      exact if_pos hr
  answers := by
    simp only [List.mem_append, List.mem_singleton]
    rintro found (hfound | rfl) made hmade
    · obtain ⟨earlier, hearlier, haction⟩ := h.answers found hfound made hmade
      exact ⟨earlier, PromptCache.get?_insert_of_kept hc hearlier, haction⟩
    · rw [PromptCache.get?_insert]
      exact ⟨completion, if_pos rfl, by rw [← Except.ok.inj hmade]⟩
  asked := by
    intro prompt kept hkept
    rw [PromptCache.get?_insert] at hkept
    split at hkept
    · next heq => exact ⟨_, List.mem_append_right _ List.mem_cons_self, heq.symm, rfl⟩
    · obtain ⟨found, hfound, hprompt⟩ := h.asked prompt kept hkept
      exact ⟨found, List.mem_append_left _ hfound, hprompt⟩

theorem Kept.refused {request : CompletionRequest} (h : Kept answered cache exchanges)
    (hrepeats : AllTransient request repeats) :
    Kept (answered ++ [(ask, .error reason)]) { cache with misses := cache.misses + 1 }
      (exchanges ++ (repeats ++ [⟨request, .error (.fatal reason)⟩])) where
  completed := by
    simp only [List.mem_append, List.mem_singleton]
    rintro e (he | he | rfl) found hfound
    · exact h.completed e he found hfound
    · exact absurd hfound (Exchange.answer_ne_ok (hrepeats e he).2)
    · cases hfound
  answers := by
    simp only [List.mem_append, List.mem_singleton]
    rintro found (hfound | rfl) made hmade
    · exact h.answers found hfound made hmade
    · cases hmade
  asked := by
    intro prompt kept hkept
    obtain ⟨found, hfound, hprompt⟩ := h.asked prompt kept hkept
    exact ⟨found, List.mem_append_left _ hfound, hprompt⟩

end

/-! ## Requests in a row -/

section

variable {s : Synthesizer μ} {w : Workbench (μ × List Exchange)} {ask : Ask}

/-- The counts and the contents of the cache agree with what was answered. -/
def Account.InOrder (d : Account (μ × List Exchange)) : Prop :=
  Balanced d.answered d.workbench.cache d.workbench.model.2 ∧
    Kept d.answered d.workbench.cache d.workbench.model.2

theorem perform_of_found {completion : String} (reuse : s.reuse = true)
    (hc : w.cache.get? ask.prompt = some completion) :
    s.watched.perform w ask = (.ok ⟨ask.instruction, Action.stripFences completion⟩,
      { w with cache := { w.cache with hits := w.cache.hits + 1 } }) := by
  rw [Synthesizer.perform_eq, s.watched.complete_of_found reuse hc]
  rfl

/-- A request whose prompt was not completed is sent, as often as there are transient errors. -/
theorem perform_of_missed (hc : w.cache.get? ask.prompt = none) :
    ∃ result repeats m, AllTransient (s.request ask.prompt) repeats ∧
      s.watched.perform w ask =
        (result.map fun completion => ⟨ask.instruction, Action.stripFences completion⟩,
          ⟨(m, w.model.2 ++ (repeats ++ [⟨s.request ask.prompt, result.mapError .fatal⟩])),
            Synthesizer.keep ask.prompt w.cache result⟩) := by
  obtain ⟨repeats, last, hask, hrepeats, rfl⟩ :=
    s.model.ask_watched (s.request ask.prompt) w.model
  rw [Synthesizer.perform_eq, s.watched.complete_of_missed fun _ => hc, s.watched_model,
    s.watched_request, hask]
  generalize s.model.ask (s.request ask.prompt) w.model.1 = asked
  obtain ⟨result, m⟩ := asked
  refine ⟨result, repeats, m, hrepeats, ?_⟩
  cases result <;> simp only [Except.map]

theorem Account.InOrder.next {d : Account (μ × List Exchange)} (h : d.InOrder)
    (reuse : s.reuse = true) (ask : Ask) : (s.watched.next d ask).InOrder := by
  cases hc : d.workbench.cache.get? ask.prompt with
  | some completion =>
    rw [Synthesizer.next, perform_of_found reuse hc]
    exact ⟨h.1.found, h.2.found _ hc⟩
  | none =>
    obtain ⟨result, repeats, m, hrepeats, hperform⟩ := perform_of_missed (s := s) hc
    rw [Synthesizer.next, hperform]
    cases result with
    | ok completion => exact ⟨h.1.completed h.2 hc rfl hrepeats, h.2.completed_on hc rfl hrepeats⟩
    | error reason => exact ⟨h.1.refused hrepeats, h.2.refused hrepeats⟩

theorem Account.InOrder.performAll (reuse : s.reuse = true) (asks : List Ask) (m : μ) :
    (s.watched.performAll asks (m, [])).InOrder := by
  have run : ∀ d : Account (μ × List Exchange), d.InOrder →
      (asks.foldl s.watched.next d).InOrder := by
    induction asks with
    | nil => exact fun d h => h
    | cons ask asks ih => exact fun d h => ih _ (h.next reuse ask)
  refine run _ ⟨⟨rfl, rfl, rfl, rfl, .nil⟩, ⟨by simp, by simp, ?_⟩⟩
  intro prompt completion hkept
  cases hkept

/-! ## Without the list of exchanges -/

def Account.unwatched (d : Account (μ × List Exchange)) : Account μ :=
  ⟨d.answered, d.workbench.unwatched⟩

theorem next_unwatched (d : Account (μ × List Exchange)) (ask : Ask) :
    (s.watched.next d ask).unwatched = s.next d.unwatched ask := by
  obtain ⟨result, sessions⟩ := s.complete_unwatched ask.prompt d.workbench
  simp only [Synthesizer.next, Synthesizer.perform_eq, Account.unwatched, result, sessions]

theorem performAll_unwatched (asks : List Ask) (m : μ) :
    (s.watched.performAll asks (m, [])).unwatched = s.performAll asks m := by
  have run : ∀ d : Account (μ × List Exchange),
      (asks.foldl s.watched.next d).unwatched = asks.foldl s.next d.unwatched := by
    induction asks with
    | nil => exact fun d => rfl
    | cons ask asks ih =>
      intro d
      rw [List.foldl_cons, ih, next_unwatched, List.foldl_cons]
  exact run _

theorem asks_performAll (asks : List Ask) (m : μ) :
    (s.performAll asks m).answered.map Prod.fst = asks := by
  have run : ∀ d : Account μ,
      (asks.foldl s.next d).answered.map Prod.fst = d.answered.map Prod.fst ++ asks := by
    induction asks with
    | nil => exact fun d => (List.append_nil _).symm
    | cons ask asks ih =>
      intro d
      rw [List.foldl_cons, ih, Synthesizer.next, List.map_append, List.append_assoc]
      rfl
  exact run _

/-! ## The next request -/

/-- What one request more comes to. -/
structure Foreseen (s : Synthesizer μ) (d : Account (μ × List Exchange)) (ask : Ask) : Prop where
  /-- After the model completed the prompt, the action of that completion; nothing is sent. -/
  completed : ∀ e ∈ d.workbench.model.2, e.prompt = ask.prompt → ∀ completion,
    e.answer = .ok completion → s.watched.perform d.workbench ask =
      (.ok ⟨ask.instruction, Action.stripFences completion⟩,
        { d.workbench with
          cache := { d.workbench.cache with hits := d.workbench.cache.hits + 1 } })
  /-- After a request with the same prompt that got an action, the same action; nothing is sent. -/
  repeated : ∀ found ∈ d.answered, found.1.prompt = ask.prompt → ∀ made, found.2 = .ok made →
    s.watched.perform d.workbench ask = (.ok ⟨ask.instruction, made.action⟩,
      { d.workbench with
        cache := { d.workbench.cache with hits := d.workbench.cache.hits + 1 } })
  /-- Where every request with the prompt ended in an error, the prompt is sent again. -/
  fresh : (∀ found ∈ d.answered, found.1.prompt = ask.prompt → found.2.isOk = false) →
    ∃ exchanges, exchanges ≠ [] ∧ (∀ e ∈ exchanges, e.request = s.request ask.prompt) ∧
      (s.watched.perform d.workbench ask).2.model.2 = d.workbench.model.2 ++ exchanges
  /-- An error adds nothing to the cache. -/
  refused : ∀ reason, (s.watched.perform d.workbench ask).1 = .error reason →
    (s.watched.perform d.workbench ask).2.cache.entries = d.workbench.cache.entries

theorem Account.InOrder.foreseen {d : Account (μ × List Exchange)} (h : d.InOrder)
    (reuse : s.reuse = true) (ask : Ask) : Foreseen s d ask where
  completed := by
    intro e he hprompt completion hanswer
    exact perform_of_found reuse (hprompt ▸ h.2.completed e he completion hanswer)
  repeated := by
    intro found hfound hprompt made hmade
    obtain ⟨completion, hc, haction⟩ := h.2.answers found hfound made hmade
    rw [perform_of_found reuse (hprompt ▸ hc), haction]
  fresh := by
    intro hnone
    have hc : d.workbench.cache.get? ask.prompt = none := by
      rw [Option.eq_none_iff_forall_ne_some]
      intro completion hkept
      -- What is kept was asked for before, and not in vain.
      obtain ⟨found, hfound, hprompt, hok⟩ := h.2.asked _ _ hkept
      rw [hnone found hfound hprompt] at hok
      cases hok
    obtain ⟨result, repeats, m, hrepeats, hperform⟩ := perform_of_missed (s := s) hc
    refine ⟨repeats ++ [⟨s.request ask.prompt, result.mapError .fatal⟩], by simp, ?_, ?_⟩
    · intro e he
      rcases List.mem_append.mp he with he | he
      · exact (hrepeats e he).1
      · rw [List.mem_singleton.mp he]
    · rw [hperform]
  refused := by
    intro reason herror
    cases hc : d.workbench.cache.get? ask.prompt with
    | some completion =>
      rw [perform_of_found reuse hc] at herror
      cases herror
    | none =>
      obtain ⟨result, repeats, m, -, hperform⟩ := perform_of_missed (s := s) hc
      rw [hperform] at herror ⊢
      cases result with
      | ok completion => cases herror
      | error reason => rfl

end

/-- Whatever is asked, in which order: watching makes no difference, the counts agree with the
exchanges, no prompt is completed twice, and the next request is answered from the cache exactly
if an earlier one with its prompt got an action. -/
theorem completions_accounted (model : LanguageModel μ) (temperature : Number.Binary)
    (maxTokens : Nat) (m : μ) (asks : List Ask) :
    let s : Synthesizer μ := ⟨model, temperature, maxTokens, true⟩
    let d := s.watched.performAll asks (m, [])
    d.unwatched = s.performAll asks m ∧ d.answered.map Prod.fst = asks ∧
      Balanced d.answered d.workbench.cache d.workbench.model.2 ∧ ∀ ask, Foreseen s d ask := by
  intro s d
  have order : d.InOrder := Account.InOrder.performAll rfl asks m
  exact ⟨performAll_unwatched asks m, asks_performAll asks (m, []), order.1, order.foreseen rfl⟩

end BrowserAgent
