import BrowserAgent.Proofs.RunLaws
import BrowserAgent.Proofs.StatementReaders
import BrowserAgent.Proofs.WritableExpr

/-!
# What a line renders

A line is read as a binding and an expression exactly if it renders them: it spells the binding, of
a name that is not reserved, and a phrase that means the expression. So a line has one reading at
most, and what some line renders are the writable expressions, each with every binding.
-/

namespace BrowserAgent

open BrowserAgent.Action

/-- A line may bind the name: it is neither an operation's nor a reserved word. -/
def IsBindable (name : String) : Prop :=
  IsName name.toList ∧ (∀ op : Operation, name ≠ op.name) ∧ name ∉ reservedWords

/-- The line renders the binding, if any, and the expression. -/
structure Renders (order : ArgOrder) (line : String) (binding : Option String) (e : Expr) :
    Prop where
  bindable : ∀ name ∈ binding, IsBindable name
  spelled : ∃ phrase, SpellsLine line.toList (binding, phrase) ∧ Means order phrase e

section

variable {line name : String} {binding : Option String} {e : Expr} {order : ArgOrder}

theorem isReserved_eq_false_iff :
    isReserved name = false ↔ (∀ op : Operation, name ≠ op.name) ∧ name ∉ reservedWords := by
  simp only [isReserved, Bool.or_eq_false_iff, Option.isSome_eq_false_iff,
    Option.isNone_iff_eq_none, Option.eq_none_iff_forall_ne_some, ne_eq,
    Operation.ofName?_eq_some_iff, List.contains_eq_mem, decide_eq_false_iff_not]

theorem readStatement_eq_ok_iff :
    readStatement line = .ok (binding, e) ↔
      ∃ phrase, readStatement? line = some (binding, phrase) ∧
        (∀ name ∈ binding, isReserved name = false) ∧ phrase.toExpr = .ok e := by
  unfold readStatement
  cases readStatement? line with
  | none => simp
  | some found =>
    obtain ⟨found, phrase⟩ := found
    cases hr : found.filter isReserved with
    | some reserved =>
      obtain ⟨hfound, hreserved⟩ := Option.filter_eq_some_iff.mp hr
      simp only [hr, reduceCtorEq, false_iff]
      rintro ⟨_, ⟨⟩, hfree, -⟩
      exact absurd hreserved (by simp [hfree reserved hfound])
    | none =>
      have hfree : ∀ name ∈ found, isReserved name = false := by
        simpa using Option.filter_eq_none_iff.mp hr
      simp only [hr, map_eq_ok_iff]
      constructor
      · rintro ⟨value, hvalue, ⟨⟩⟩
        exact ⟨phrase, rfl, hfree, hvalue⟩
      · rintro ⟨_, ⟨⟩, -, hvalue⟩
        exact ⟨e, hvalue, rfl⟩

theorem Action.SpellsLine.isName {cs : List Char} {phrase : Phrase}
    (h : SpellsLine cs (some name, phrase)) : IsName name.toList := by
  cases h with
  | mk hb =>
    cases hb with
    | some _ hn => rwa [String.toList_ofList]

/-- Reading a line without blanks at its ends. -/
theorem readStatement_iff_renders (trimmed : Trimmed Text.isBlank line.toList) :
    readStatement line = .ok (binding, e) ↔ Renders .keywordsLast line binding e := by
  rw [readStatement_eq_ok_iff]
  constructor
  · rintro ⟨phrase, hread, hreserved, he⟩
    have hs := readStatement?_sound trimmed.gaps hread
    refine ⟨?_, phrase, hs, toExpr_eq_ok_iff.mp he⟩
    rintro name rfl
    exact ⟨hs.isName, isReserved_eq_false_iff.mp (hreserved name rfl)⟩
  · rintro ⟨hbindable, phrase, hs, hm⟩
    refine ⟨phrase, readStatement?_of_spells hs ?_, ?_, toExpr_eq_ok_iff.mpr hm⟩
    · rintro name hname rfl
      exact (hbindable _ hname).2.2 (by decide)
    · exact fun name hname => isReserved_eq_false_iff.mpr (hbindable name hname).2

theorem isBlank_of_startsPhrase {c : Char} (h : startsPhrase c = true) :
    Text.isBlank c = false := by
  have visible : 33 ≤ c.toNat ∧ c.toNat ≤ 122 := by
    simp only [startsPhrase, Bool.or_eq_true, beq_iff_eq] at h
    obtain (((start | rfl) | rfl) | rfl) | digit := h
    · have := toNat_of_start start
      omega
    · decide
    · decide
    · decide
    · have := toNat_of_isDigit digit
      omega
  simp only [Text.isBlank, Bool.or_eq_false_iff, Bool.and_eq_false_iff, decide_eq_false_iff_not,
    beq_eq_false_iff_ne]
  omega

/-- Every writable expression stands on some line, after any name that may be bound. -/
theorem Expr.Writable.exists_line (h : e.Writable) (hb : ∀ name ∈ binding, IsBindable name) :
    ∃ line, '\n' ∉ line.toList ∧ Trimmed Text.isBlank line.toList ∧
      Renders .keywordsLast line binding e := by
  obtain ⟨cs, phrase, hs, hm, hnewline⟩ := h.isWritten
  -- With or without a name, the line starts with a character of a phrase, so it is trimmed.
  have start : ∃ start, SpellsBinding start binding ∧ '\n' ∉ start ∧
      ∃ c tail, start ++ (cs ++ [';']) = c :: tail ∧ startsPhrase c = true := by
    cases binding with
    | none =>
      obtain ⟨c, tail, rfl, hc⟩ := hs.starts
      exact ⟨[], .none, by simp, c, _, rfl, hc⟩
    | some name =>
      have hn := (hb name rfl).1
      have := SpellsBinding.some .leftOut hn isGap_nil isGap_nil
      rw [String.ofList_toList] at this
      obtain ⟨c, tail, hname, hc⟩ := hn.starts
      refine ⟨_, this, ?_, c, tail ++ ('=' :: (cs ++ [';'])), ?_, hc⟩
      · simp [hn.no_newline]
      · simp [hname]
  obtain ⟨start, hstart, hstartNewline, c, tail, heq, hc⟩ := start
  refine ⟨String.ofList (start ++ (cs ++ [';'])), ?_, ?_, hb, phrase, ?_, hm⟩
  · simp [hstartNewline, hnewline]
  · rw [String.toList_ofList]
    refine ⟨by rw [heq]; exact stops_cons.mpr (isBlank_of_startsPhrase hc), ?_⟩
    simp [Text.isBlank]
  · rw [String.toList_ofList]
    exact .mk hstart hs (.semicolon isGap_nil)

/-- Reading a trimmed line gives the binding and the expression that it renders, of which there is
one at most; and every writable expression is rendered, with each binding there may be. -/
theorem readStatement_exact :
    (∀ (raw : String) (binding : Option String) (e : Expr),
      readStatement (Text.trim raw) = .ok (binding, e) ↔
        Renders .keywordsLast (Text.trim raw) binding e) ∧
    (∀ raw : String, ∃ found : Option (Option String × Expr),
      ∀ (binding : Option String) (e : Expr),
        Renders .keywordsLast (Text.trim raw) binding e ↔ (binding, e) ∈ found) ∧
    ∀ (binding : Option String) (e : Expr),
      (∃ raw : String, '\n' ∉ raw.toList ∧ Renders .keywordsLast (Text.trim raw) binding e) ↔
        (∀ name ∈ binding, IsBindable name) ∧ e.Writable := by
  have reads (raw : String) (binding : Option String) (e : Expr) :
      readStatement (Text.trim raw) = .ok (binding, e) ↔
        Renders .keywordsLast (Text.trim raw) binding e :=
    readStatement_iff_renders Text.trimmed_trim
  refine ⟨reads, ?_, ?_⟩
  · refine fun raw => ⟨(readStatement (Text.trim raw)).toOption, fun binding e => ?_⟩
    rw [← reads]
    cases readStatement (Text.trim raw) <;> simp [Except.toOption]
  · intro binding e
    constructor
    · rintro ⟨raw, -, hbindable, phrase, hline, hm⟩
      obtain ⟨part, hs, -⟩ := hline.part
      exact ⟨hbindable, hs.writable hm⟩
    · rintro ⟨hbindable, he⟩
      obtain ⟨line, hnewline, trimmed, hline⟩ := he.exists_line hbindable
      exact ⟨line, hnewline, by rwa [Text.trim_of_trimmed trimmed]⟩

/-! ## A positional argument after a keyword one -/

def latePosition : Phrase :=
  .call "find_element" [(some "value", .text "//a"), (none, .text "xpath")]

theorem spells_latePosition :
    SpellsLine "find_element(value=\"//a\", \"xpath\")".toList (none, latePosition) := by
  have fits (cs : List Char) (h : ∀ c ∈ cs, c ≠ '"' ∧ c ≠ '\\') :
      ∀ p ∈ cs.map Piece.plain, p.Fits '"' := by
    rintro p hp
    obtain ⟨c, hc, rfl⟩ := List.mem_map.mp hp
    exact h c hc
  have value : SpellsArg Spells "value=\"//a\"".toList (some "value", .text "//a") :=
    @SpellsArg.keyword _ "value".toList [] [] _ _ (by decide) isGap_nil isGap_nil
      (.text (.inl rfl) (fits "//a".toList (by simp)))
  have xpath : SpellsArg Spells "\"xpath\"".toList (none, .text "xpath") :=
    .positional (.text (.inl rfl) (fits "xpath".toList (by simp)))
  have more : SpellsMoreArgs Spells ", \"xpath\"".toList [(none, .text "xpath")] :=
    @SpellsMoreArgs.cons _ [] [' '] _ _ _ _ isGap_nil (by simp [IsGap, isGap]) xpath
      (.nil isGap_nil)
  exact .mk .none (@Spells.call "find_element".toList [] [] _ _ (by decide) .nil isGap_nil
    (.cons isGap_nil value more)) .nil

theorem means_latePosition :
    Means .free latePosition
      (.call .findElement [some (.text "xpath"), some (.text "//a"), none]) := by
  refine .call (.inl rfl) (.inl rfl) (.cons .text (.cons .text .nil)) ⟨?_, ?_⟩
  · refine ⟨[1, 0], ?_, by decide, rfl⟩
    exact @Places.keyword _ _ _ (.needed "value" .text) _ _ rfl (.position (by decide) .nil)
  · exact firstMissing_eq_none_iff.mp rfl

theorem toExpr_latePosition :
    latePosition.toExpr = .error (.positionalAfterKeyword .findElement) := by
  have called : Operation.ofCallee? "find_element" = some .findElement :=
    Operation.ofCallee?_eq_some_iff.mpr (.inl rfl)
  simp only [latePosition, Phrase.toExpr, called, Phrase.fillSlots]
  rfl

/-- Were a positional argument allowed after a keyword one, the line would render a call; reading
rejects it. -/
theorem readStatement_rejects_late_position :
    readStatement (Text.trim "find_element(value=\"//a\", \"xpath\")") =
        .error (.positionalAfterKeyword .findElement) ∧
      ¬ ∀ (binding : Option String) (e : Expr),
        readStatement (Text.trim "find_element(value=\"//a\", \"xpath\")") = .ok (binding, e) ↔
          Renders .free (Text.trim "find_element(value=\"//a\", \"xpath\")") binding e := by
  have trim : Text.trim "find_element(value=\"//a\", \"xpath\")" =
      "find_element(value=\"//a\", \"xpath\")" := by decide
  have rejected : readStatement "find_element(value=\"//a\", \"xpath\")" =
      .error (.positionalAfterKeyword .findElement) := by
    unfold readStatement
    rw [readStatement?_of_spells spells_latePosition (by simp)]
    simp only [toExpr_latePosition, Except.map, Option.filter_none]
  rw [trim]
  refine ⟨rejected, fun reads => ?_⟩
  have := (reads none _).mpr ⟨by simp, _, spells_latePosition, means_latePosition⟩
  rw [rejected] at this
  cases this

end

end BrowserAgent
