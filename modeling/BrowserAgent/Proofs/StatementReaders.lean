import BrowserAgent.Proofs.PhraseReaders
import BrowserAgent.Proofs.TrimmedLines

/-!
# Reading lines

A line without gaps at its ends is read as a binding and an expression exactly if it spells them.
The word that may stand before a binding is a name as well, so a line may also start with it where
nothing is bound.
-/

namespace BrowserAgent.Action

section

variable {cs rest start stop name : List Char} {p : Phrase}

theorem skipLet_cases (cs : List Char) :
    skipLet cs = cs ∨ cs = 'l' :: 'e' :: 't' :: skipLet cs ∧ Stops isNameChar (skipLet cs) := by
  unfold skipLet
  cases h : readName cs with
  | none => exact .inl rfl
  | some found =>
    obtain ⟨name, after⟩ := found
    obtain ⟨rfl, -, stops⟩ := readName_sound h
    by_cases hn : name = ['l', 'e', 't']
    · subst hn
      exact .inr ⟨rfl, stops⟩
    · exact .inl (if_neg hn)

theorem readBinding_sound {binding : String} (trimmed : Stops isGap cs)
    (h : readBinding cs = some (binding, rest)) :
    ∃ used, cs = used ++ rest ∧ ∀ g, IsGap g → SpellsBinding (used ++ g) (some binding) := by
  simp only [readBinding, Option.bind_eq_bind, Option.bind_eq_some_iff] at h
  obtain ⟨⟨name, after⟩, hname, last, hequals, h⟩ := h
  simp only [Option.some.injEq, Prod.mk.injEq] at h
  obtain ⟨rfl, rfl⟩ := h
  obtain ⟨g₁, h₁, rfl⟩ := symbol?_sound hequals
  obtain ⟨hafter, hn, -⟩ := readName_sound hname
  obtain ⟨c, tail, rfl, hc⟩ := hn.head
  obtain hskip | ⟨hlet, stops⟩ := skipLet_cases cs
  · rw [hskip, skipGaps, dropWhile_of_stops trimmed] at hafter
    refine ⟨c :: tail ++ (g₁ ++ ['=']), by rw [hafter]; simp, fun g hg => ?_⟩
    have := SpellsBinding.some .leftOut hn h₁ hg
    simpa using this
  · obtain ⟨g₀, h₀, hgap⟩ := exists_gap (skipLet cs)
    rw [hafter] at hgap
    -- Without a gap the name would go on from the word before it.
    have hne : g₀ ≠ [] := by
      rintro rfl
      rw [hgap, List.nil_append, List.cons_append, stops_cons, isNameChar_of_start hc] at stops
      cases stops
    refine ⟨'l' :: 'e' :: 't' :: g₀ ++ (c :: tail ++ (g₁ ++ ['='])), ?_, fun g hg => ?_⟩
    · rw [hlet, hgap]
      simp
    · have := SpellsBinding.some (.written h₀ hne) hn h₁ hg
      simpa using this

theorem readBinding_append {g₁ g₂ : List Char} (hl : IsLet start) (hn : IsName name)
    (hne : start = [] → name ≠ ['l', 'e', 't']) (h₁ : IsGap g₁) :
    readBinding (start ++ (name ++ (g₁ ++ '=' :: (g₂ ++ rest)))) =
      some (String.ofList name, g₂ ++ rest) := by
  have stops : Stops isNameChar (g₁ ++ '=' :: (g₂ ++ rest)) := h₁.stops (by decide)
  have gap : Stops isGap (name ++ (g₁ ++ '=' :: (g₂ ++ rest))) := by
    obtain ⟨c, tail, rfl, hc⟩ := hn.starts
    exact stops_cons.mpr (isGap_of_startsPhrase hc)
  have hname := readName_append hn stops
  have hskip : skipGaps (skipLet (start ++ (name ++ (g₁ ++ '=' :: (g₂ ++ rest))))) =
      name ++ (g₁ ++ '=' :: (g₂ ++ rest)) := by
    cases hl with
    | leftOut =>
      rw [List.nil_append, skipLet, hname]
      simp only [hne rfl, if_false]
      exact dropWhile_of_stops gap
    | @written g₀ h₀ hgap =>
      have hlet : readName ('l' :: 'e' :: 't' :: (g₀ ++ (name ++ (g₁ ++ '=' :: (g₂ ++ rest))))) =
          some (['l', 'e', 't'], g₀ ++ (name ++ (g₁ ++ '=' :: (g₂ ++ rest)))) := by
        obtain ⟨c, tail, rfl⟩ := List.exists_cons_of_ne_nil hgap
        refine readName_append (show IsName ['l', 'e', 't'] by decide) (stops_cons.mpr ?_)
        rcases isGap_iff.mp (h₀ c List.mem_cons_self) with rfl | rfl <;> decide
      simp only [List.cons_append, skipLet, hlet, if_true]
      exact skipGaps_append h₀ gap
  simp only [readBinding, hskip, hname, symbol?_append (c := '=') h₁ (by decide),
    Option.bind_eq_bind, Option.bind_some]

/-- An expression is not taken for a binding, not even where it starts with the word for one. -/
theorem Begins.no_binding (h : Begins p cs) (trimmed : Stops isGap cs) :
    readBinding cs = none := by
  cases h with
  | sign hs =>
    have hn := readName_eq_none hs
    have hskip : skipGaps (skipLet cs) = cs := by
      rw [skipLet, hn]
      exact dropWhile_of_stops trimmed
    simp [readBinding, hskip, hn]
  | @name name more hn hs he =>
    have hname := readName_append hn hs
    -- The word for a binding may be a name in an expression; then no other name follows it.
    by_cases hlet : name = ['l', 'e', 't']
    · have hskip : skipLet (name ++ more) = more := by rw [skipLet, hname]; exact if_pos hlet
      have none : readName (skipGaps more) = none :=
        readName_eq_none fun c hc => (Bool.or_eq_false_iff.mp (he c hc)).1
      simp [readBinding, hskip, none]
    · have hskip : skipGaps (skipLet (name ++ more)) = name ++ more := by
        rw [skipLet, hname]
        simp only [hlet, if_false]
        exact dropWhile_of_stops trimmed
      have none : symbol? '=' more = none :=
        symbol?_eq_none fun heq => by simpa using he '=' heq
      simp [readBinding, hskip, hname, none]

/-! ## The end of a line -/

theorem IsStop.ends (h : IsStop stop) : Ends stop := by
  cases h with
  | nil => exact ends_nil
  | semicolon hg => exact ends_append hg (by decide)

theorem IsStop.skipped (h : IsStop stop) :
    (skipGaps ((symbol? ';' stop).getD stop)).isEmpty = true := by
  cases h with
  | nil => rfl
  | semicolon hg => rw [symbol?_append hg (by decide)]; rfl

theorem isGap_of_skipGaps (h : skipGaps cs = []) : IsGap cs := by
  obtain ⟨g, hg, hcs⟩ := exists_gap cs
  rw [h, List.append_nil] at hcs
  rwa [hcs]

theorem eq_nil_of_gap (used : List Char) (trimmed : ∀ c ∈ (used ++ cs).getLast?, isGap c = false)
    (hg : IsGap cs) : cs = [] := by
  cases h : cs.getLast? with
  | none => exact List.getLast?_eq_none_iff.mp h
  | some c =>
    have := trimmed c (by rw [List.getLast?_append, h]; rfl)
    rw [hg c (List.mem_of_getLast? h)] at this
    cases this

theorem isStop_of_skipped {used : List Char}
    (trimmed : ∀ c ∈ (used ++ stop).getLast?, isGap c = false)
    (h : (skipGaps ((symbol? ';' stop).getD stop)).isEmpty = true) : IsStop stop := by
  rw [List.isEmpty_iff] at h
  cases hs : symbol? ';' stop with
  | none =>
    rw [hs, Option.getD_none] at h
    rw [eq_nil_of_gap used trimmed (isGap_of_skipGaps h)]
    exact .nil
  | some after =>
    rw [hs, Option.getD_some] at h
    obtain ⟨g, hg, rfl⟩ := symbol?_sound hs
    have : after = [] := by
      apply eq_nil_of_gap (used ++ (g ++ [';'])) _ (isGap_of_skipGaps h)
      simpa using trimmed
    rw [this]
    exact .semicolon hg

/-! ## A whole line -/

/-- The binding, if it has one, and where the expression starts. -/
def bindingAndRest (cs : List Char) : Option String × List Char :=
  match readBinding cs with
  | some (name, rest) => (some name, rest)
  | none => (none, cs)

theorem readStatement?_eq (line : String) :
    readStatement? line = (readPhrase (skipGaps (bindingAndRest line.toList).2)).bind fun found =>
      if (skipGaps ((symbol? ';' found.2).getD found.2)).isEmpty then
        some ((bindingAndRest line.toList).1, found.1)
      else none := by
  simp only [readStatement?, bindingAndRest]
  cases readBinding line.toList <;> rfl

theorem bindingAndRest_sound (trimmed : Stops isGap cs) :
    ∃ start, cs = start ++ skipGaps (bindingAndRest cs).2 ∧
      SpellsBinding start (bindingAndRest cs).1 := by
  unfold bindingAndRest
  split
  · next name rest h =>
    obtain ⟨used, hused, hs⟩ := readBinding_sound trimmed h
    obtain ⟨g, hg, hrest⟩ := exists_gap rest
    exact ⟨used ++ g, by rw [List.append_assoc, ← hrest, hused], hs g hg⟩
  · exact ⟨[], (dropWhile_of_stops trimmed).symm, .none⟩

theorem readStatement?_sound {line : String} {binding : Option String}
    (trimmed : Trimmed isGap line.toList) (h : readStatement? line = some (binding, p)) :
    SpellsLine line.toList (binding, p) := by
  rw [readStatement?_eq, Option.bind_eq_some_iff] at h
  obtain ⟨⟨p', rest⟩, hread, h⟩ := h
  split at h
  · next hskipped =>
    simp only [Option.some.injEq, Prod.mk.injEq] at h
    obtain ⟨rfl, rfl⟩ := h
    obtain ⟨start, hstart, hb⟩ := bindingAndRest_sound trimmed.1
    obtain ⟨used, hused, hs⟩ := readPhrase_sound hread
    rw [hused] at hstart
    have last := trimmed.2
    rw [hstart, ← List.append_assoc] at last
    have := SpellsLine.mk hb hs (isStop_of_skipped last hskipped)
    rwa [← hstart] at this
  · cases h

theorem bindingAndRest_append {binding : Option String} (h : SpellsBinding start binding)
    (hne : ∀ name ∈ binding, name ≠ "let") (hs : Spells cs p) (ends : Ends stop) :
    (bindingAndRest (start ++ (cs ++ stop))).1 = binding ∧
      skipGaps (bindingAndRest (start ++ (cs ++ stop))).2 = cs ++ stop := by
  obtain ⟨c, tail, rfl, hc⟩ := hs.starts
  have gap : Stops isGap (c :: tail ++ stop) := stops_cons.mpr (isGap_of_startsPhrase hc)
  cases h with
  | none =>
    rw [List.nil_append, bindingAndRest, (hs.begins ends).no_binding gap]
    exact ⟨rfl, dropWhile_of_stops gap⟩
  | @some start name g₁ g₂ hl hn h₁ h₂ =>
    have hne : name ≠ ['l', 'e', 't'] := by
      rintro rfl
      exact hne _ rfl rfl
    simp only [List.append_assoc, List.cons_append] at gap ⊢
    rw [bindingAndRest, readBinding_append hl hn (fun _ => hne) h₁]
    exact ⟨rfl, skipGaps_append h₂ gap⟩

theorem readStatement?_of_spells {line : String} {binding : Option String}
    (h : SpellsLine line.toList (binding, p)) (hne : ∀ name ∈ binding, name ≠ "let") :
    readStatement? line = some (binding, p) := by
  rw [readStatement?_eq]
  generalize line.toList = cs at h
  cases h with
  | mk hb hs hstop =>
    obtain ⟨hbinding, hrest⟩ := bindingAndRest_append hb hne hs hstop.ends
    rw [hbinding, hrest, readPhrase_append hs hstop.ends, Option.bind_some,
      if_pos hstop.skipped]

end

end BrowserAgent.Action
