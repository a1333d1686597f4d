import BrowserAgent.Proofs.ArgumentPlaces

/-!
# Names that may be bound

A name is bound exactly if it is neither an operation's nor a reserved word, with the word before it
or without. A name that may be bound can be referred to wherever an expression may stand, and is
taken for nothing else there, however it starts.
-/

namespace BrowserAgent

open BrowserAgent.Action

def ExprText (text : String) (e : Expr) : Prop :=
  ∃ phrase, Spells text.toList phrase ∧ Means .keywordsLast phrase e

/-- The text is a reference to the name, plain or to an item. -/
inductive RefersTo (name : String) : String → Expr → Prop
  | plain : RefersTo name name (.var name)
  | item {g₁ g₂ digits g₃ : String} : IsGap g₁.toList → IsGap g₂.toList →
    IsDigits digits.toList → digits ≠ "" → IsGap g₃.toList →
    Number.Decimal.digitsValue digits.toList < indexLimit →
    RefersTo name (name ++ g₁ ++ "[" ++ g₂ ++ digits ++ g₃ ++ "]")
      (.item name (Number.Decimal.digitsValue digits.toList))

/-- The texts around the expression of a line that binds the name, if any. -/
structure Surrounds (start stop : String) (binding : Option String) : Prop where
  bindable : ∀ name ∈ binding, IsBindable name
  begins : SpellsBinding start.toList binding
  ends : IsStop stop.toList

def Readable (line : String) : Prop := ∃ statement, readStatement line = .ok statement

/-! ## Expressions in a line -/

section

variable {start stop text name : String} {binding : Option String} {phrase : Phrase} {e : Expr}

theorem Surrounds.readStatement_eq (h : Surrounds start stop binding)
    (hs : Spells text.toList phrase) :
    readStatement (start ++ text ++ stop) = phrase.toExpr.map fun e => (binding, e) := by
  have spelled : SpellsLine (start ++ text ++ stop).toList (binding, phrase) := by
    have whole := SpellsLine.mk h.begins hs h.ends
    simpa using whole
  have other : ∀ name ∈ binding, name ≠ "let" := by
    rintro name hname rfl
    exact (h.bindable _ hname).2.2 (by decide)
  have free : binding.filter isReserved = none := by
    refine Option.filter_eq_none_iff.mpr fun name hname => ?_
    simp [isReserved_eq_false_iff.mpr (h.bindable name hname).2]
  unfold readStatement
  rw [readStatement?_of_spells spelled other]
  simp only [free]

theorem Surrounds.reads (h : Surrounds start stop binding) (ht : ExprText text e) :
    readStatement (start ++ text ++ stop) = .ok (binding, e) := by
  obtain ⟨phrase, hs, hm⟩ := ht
  rw [h.readStatement_eq hs, toExpr_eq_ok_iff.mpr hm]
  rfl

theorem IsBindable.isVariable (h : IsBindable name) : IsVariable name.toList := by
  refine ⟨h.1, fun literal => h.2.2 ?_⟩
  rw [String.ofList_toList] at literal
  exact List.mem_append_left _ literal

theorem RefersTo.exprText (h : RefersTo name text e) (bindable : IsBindable name) :
    ExprText text e := by
  have hv := bindable.isVariable
  cases h with
  | plain =>
    have spelled := Spells.var hv
    rw [String.ofList_toList] at spelled
    exact ⟨_, spelled, .var⟩
  | @item g₁ g₂ digits g₃ h₁ h₂ hd hne h₃ fits =>
    have spelled := Spells.item hv h₁ h₂ hd (by simpa using hne) h₃
    rw [String.ofList_toList] at spelled
    exact ⟨_, by simpa using spelled, .item fits⟩

end

/-! ## The word before a binding -/

section

variable {line : String} {start name g₁ g₂ rest cs : List Char} {phrase : Phrase} {e : Expr}
  {found : Option String × Expr}

theorem Action.ends_of_skipped (h : (skipGaps ((symbol? ';' rest).getD rest)).isEmpty = true) :
    Ends rest := by
  cases hs : symbol? ';' rest with
  | none =>
    rw [hs, Option.getD_none, List.isEmpty_iff] at h
    simp [Ends, h]
  | some after =>
    obtain ⟨g, hg, rfl⟩ := symbol?_sound hs
    exact ends_append hg (by decide)

/-- The word for a binding is no name of one, and no expression with an equals sign behind it. -/
theorem Action.readStatement?_of_let (hg : IsGap g₁)
    (hline : line.toList = 'l' :: 'e' :: 't' :: (g₁ ++ '=' :: rest)) :
    readStatement? line = none := by
  have stops : Stops isNameChar (g₁ ++ '=' :: rest) := hg.stops (by decide)
  have word : readName line.toList = some (['l', 'e', 't'], g₁ ++ '=' :: rest) := by
    rw [hline]
    exact readName_append (show IsName ['l', 'e', 't'] by decide) stops
  have unbound : readBinding line.toList = none := by
    have skipped : skipGaps (skipLet line.toList) = '=' :: rest := by
      rw [skipLet, word]
      exact skipGaps_append hg (stops_cons.mpr (by decide))
    simp [readBinding, skipped, readName, isNameStart]
  have gap : skipGaps line.toList = line.toList := by
    rw [hline]
    exact dropWhile_of_stops (stops_cons.mpr (by decide))
  rw [readStatement?_eq, Option.bind_eq_none_iff]
  rintro ⟨p, after⟩ hread
  simp only [bindingAndRest, unbound, gap] at hread
  obtain ⟨used, hused, hs⟩ := readPhrase_sound hread
  -- What is left is the word as an expression, behind which the equals sign stands.
  refine if_neg fun skipped => ?_
  have begins : Begins p line.toList := hused ▸ hs.begins (ends_of_skipped skipped)
  have equals := begins.no_equals word
  rw [symbol?_append hg (by decide)] at equals
  cases equals

theorem readStatement_binding (h : bindingAndRest line.toList = (some (String.ofList name), rest))
    (reserved : isReserved (String.ofList name) = true) : readStatement line ≠ .ok found := by
  intro hread
  obtain ⟨binding, e⟩ := found
  obtain ⟨p, hs, free, -⟩ := readStatement_eq_ok_iff.mp hread
  rw [readStatement?_eq, Option.bind_eq_some_iff] at hs
  obtain ⟨⟨p', after⟩, -, hs⟩ := hs
  rw [h] at hs
  split at hs
  · cases hs
    rw [free _ rfl] at reserved
    cases reserved
  · cases hs

/-- A line with a binding can be read exactly if its name may be bound. -/
theorem readStatement_binding_iff (hl : IsLet start) (hn : IsName name) (h₁ : IsGap g₁)
    (h₂ : IsGap g₂) (hs : Spells cs phrase) (hm : Means .keywordsLast phrase e)
    (hline : line.toList = start ++ (name ++ (g₁ ++ '=' :: (g₂ ++ cs)))) :
    readStatement line = .ok found ↔
      IsBindable (String.ofList name) ∧ found = (some (String.ofList name), e) := by
  by_cases hlet : name = ['l', 'e', 't']
  · subst hlet
    have unbindable : ¬IsBindable (String.ofList ['l', 'e', 't']) :=
      fun bindable => bindable.2.2 (by decide)
    refine iff_of_false (fun hread => ?_) fun h => unbindable h.1
    cases hl with
    | leftOut =>
      obtain ⟨binding, e'⟩ := found
      obtain ⟨p, hread, -⟩ := readStatement_eq_ok_iff.mp hread
      rw [readStatement?_of_let h₁ hline] at hread
      cases hread
    | written h₀ hne =>
      have bound : bindingAndRest line.toList =
          (some (String.ofList ['l', 'e', 't']), g₂ ++ cs) := by
        rw [bindingAndRest, hline, readBinding_append (.written h₀ hne) hn (by simp) h₁]
      exact readStatement_binding bound (by decide) hread
  · have spelled : SpellsLine line.toList (some (String.ofList name), phrase) := by
      have whole := SpellsLine.mk (.some hl hn h₁ h₂) hs .nil
      rw [hline]
      simpa using whole
    have other : ∀ found ∈ some (String.ofList name), found ≠ "let" := by
      rintro _ ⟨⟩ heq
      exact hlet (by simpa using congrArg String.toList heq)
    obtain ⟨binding, e'⟩ := found
    rw [readStatement_eq_ok_iff, readStatement?_of_spells spelled other]
    constructor
    · rintro ⟨_, ⟨⟩, free, he⟩
      have bindable := isReserved_eq_false_iff.mp (free _ rfl)
      rw [toExpr_eq_ok_iff.mpr hm] at he
      cases he
      exact ⟨⟨by simpa using hn, bindable⟩, rfl⟩
    · rintro ⟨bindable, ⟨⟩⟩
      refine ⟨phrase, rfl, ?_, toExpr_eq_ok_iff.mpr hm⟩
      rintro _ ⟨⟩
      exact isReserved_eq_false_iff.mpr bindable.2

end

/-! ## References -/

section

variable {start stop before behind text : String} {binding : Option String} {p : Phrase}
  {f : Phrase → Phrase}

theorem Surrounds.readStatement_argument (h : Surrounds start stop binding)
    (place : ArgumentPlace before.toList behind.toList f) (hs : Spells text.toList p) :
    readStatement (start ++ (before ++ text ++ behind) ++ stop) =
      (f p).toExpr.map fun e => (binding, e) := by
  refine h.readStatement_eq ?_
  have spelled := place.spells hs
  simpa using spelled

/-- A line with a place for an argument: none can be read, whatever expression is there, or each is
read with the expression in one slot. -/
theorem Surrounds.reads_argument (h : Surrounds start stop binding)
    (place : ArgumentPlace before.toList behind.toList f) :
    (∀ text e, ExprText text e → ¬Readable (start ++ (before ++ text ++ behind) ++ stop)) ∨
      ∃ put, Expr.IsSlot put ∧ ∀ text e, ExprText text e →
        readStatement (start ++ (before ++ text ++ behind) ++ stop) = .ok (binding, put e) := by
  obtain never | ⟨put, slot, reads⟩ := place.slot
  · refine .inl ?_
    rintro text e ⟨p, hs, -⟩ ⟨found, hread⟩
    rw [h.readStatement_argument place hs] at hread
    obtain ⟨e', he', -⟩ := map_eq_ok_iff.mp hread
    exact never p e' he'
  · refine .inr ⟨put, slot, ?_⟩
    rintro text e ⟨p, hs, hm⟩
    rw [h.readStatement_argument place hs,
      (reads p _).mpr ⟨e, toExpr_eq_ok_iff.mpr hm, rfl⟩]
    rfl

end

/-- A name is bound to an expression exactly if it may be bound. Then every reference to it is read
as that, as the expression of a line and as an argument of every call that can be read with any
other expression there. -/
theorem bindable_names_referred (name : String) (named : IsName name.toList) :
    (∀ text e, ExprText text e → ∀ g₀ g₁ g₂ : String, IsGap g₀.toList → g₀ ≠ "" →
      IsGap g₁.toList → IsGap g₂.toList →
      let plain := name ++ g₁ ++ "=" ++ g₂ ++ text
      let marked := "let" ++ g₀ ++ plain
      (Readable marked ↔ Readable plain) ∧ (Readable plain ↔ IsBindable name) ∧
        (IsBindable name → readStatement marked = .ok (some name, e) ∧
          readStatement plain = .ok (some name, e))) ∧
      (IsBindable name → ∀ text r, RefersTo name text r → ∀ start stop binding,
        Surrounds start stop binding →
        readStatement (start ++ text ++ stop) = .ok (binding, r) ∧
        ∀ before behind f, ArgumentPlace before.toList behind.toList f →
          let line (argument : String) := start ++ (before ++ argument ++ behind) ++ stop
          (∀ other e, ExprText other e → ¬Readable (line other)) ∨
            ∃ put, Expr.IsSlot put ∧ readStatement (line text) = .ok (binding, put r) ∧
              ∀ other e, ExprText other e →
                readStatement (line other) = .ok (binding, put e)) := by
  refine ⟨?_, fun bindable text r refers start stop binding around => ?_⟩
  · rintro text e ⟨phrase, hs, hm⟩ g₀ g₁ g₂ h₀ hne h₁ h₂ plain marked
    have shape : plain.toList =
        name.toList ++ (g₁.toList ++ '=' :: (g₂.toList ++ text.toList)) := by
      simp [plain]
    have readsPlain {found : Option String × Expr} :
        readStatement plain = .ok found ↔ IsBindable name ∧ found = (some name, e) := by
      rw [readStatement_binding_iff .leftOut named h₁ h₂ hs hm shape, String.ofList_toList]
    have readsMarked {found : Option String × Expr} :
        readStatement marked = .ok found ↔ IsBindable name ∧ found = (some name, e) := by
      have word : IsLet ('l' :: 'e' :: 't' :: g₀.toList) := .written h₀ (by simpa using hne)
      have behind : marked.toList = 'l' :: 'e' :: 't' :: g₀.toList ++
          (name.toList ++ (g₁.toList ++ '=' :: (g₂.toList ++ text.toList))) := by
        simp [marked, shape]
      rw [readStatement_binding_iff word named h₁ h₂ hs hm behind, String.ofList_toList]
    refine ⟨?_, ?_, fun bindable => ?_⟩
    · simp only [Readable, readsMarked, readsPlain]
    · simp only [Readable, readsPlain, exists_and_left, exists_eq, and_true]
    · exact ⟨readsMarked.mpr ⟨bindable, rfl⟩, readsPlain.mpr ⟨bindable, rfl⟩⟩
  · have spelled := refers.exprText bindable
    refine ⟨around.reads spelled, fun before behind f place => ?_⟩
    obtain never | ⟨put, slot, reads⟩ := around.reads_argument place
    · exact .inl never
    · exact .inr ⟨put, slot, reads _ _ spelled, reads⟩

/-- A name that starts with an operation's is bound to one that starts with a truth value, and an
item of it is an argument. -/
theorem click_here_referred :
    readStatement "let click_here=true_1" = .ok (some "click_here", .var "true_1") ∧
      ∃ put, Expr.IsSlot put ∧
        readStatement "click(element=click_here[2])" = .ok (none, put (.item "click_here" 2)) ∧
        readStatement "click(element=none)" = .ok (none, put .nothing) := by
  have gap : IsGap "".toList := by simp [IsGap]
  have bindable : IsBindable "click_here" :=
    ⟨by decide, fun op => by cases op <;> decide, by decide⟩
  have value : ExprText "true_1" (.var "true_1") :=
    ⟨.var "true_1", @Spells.var "true_1".toList ⟨by decide, by decide⟩, .var⟩
  have nothing : ExprText "none" .nothing :=
    ⟨.nothing, @Spells.nothing "none" (by decide), .nothing⟩
  have item : RefersTo "click_here" "click_here[2]" (.item "click_here" 2) := by
    have two : Number.Decimal.digitsValue "2".toList = 2 := by decide
    have fits : Number.Decimal.digitsValue "2".toList < indexLimit := by
      show Number.Decimal.digitsValue "2".toList < 2 ^ 64
      decide
    have written := @RefersTo.item "click_here" "" "" "2" "" gap gap (by simp [IsDigits])
      (by decide) gap fits
    simpa only [String.append_empty, String.reduceAppend, two] using written
  have place : ArgumentPlace "click(element=".toList ")".toList
      fun p => .call "click" [(some "element", p)] := by
    have element : SpellsKeyword "element=".toList (some "element") :=
      @SpellsKeyword.some "element".toList [] [] (by decide) isGap_nil isGap_nil
    exact @ArgumentPlace.call "click".toList [] [] [] _ [] _ [] [] (by decide) .nil isGap_nil
      (.nil isGap_nil) element (.nil isGap_nil)
  obtain ⟨bound, referred⟩ := bindable_names_referred "click_here" (by decide)
  constructor
  · obtain ⟨-, -, reads⟩ := bound _ _ value " " "" "" (by simp [IsGap, isGap]) (by decide) gap gap
    simpa only [String.append_empty, String.reduceAppend] using (reads bindable).1
  · have around : Surrounds "" "" none := ⟨by simp, .none, .nil⟩
    obtain ⟨-, reads⟩ := referred bindable _ _ item _ _ _ around
    obtain never | ⟨put, slot, here, others⟩ := reads _ _ _ place
    · have called : (Phrase.call "click" [(some "element", .nothing)]).toExpr =
          .ok (.call .click [some .nothing]) := rfl
      have read := around.readStatement_argument place (@Spells.nothing "none" (by decide))
      rw [called] at read
      exact absurd ⟨_, read⟩ (never "none" _ nothing)
    · have other := others "none" _ nothing
      simp only [String.append_empty, String.empty_append, String.reduceAppend] at here other
      exact ⟨put, slot, here, other⟩

end BrowserAgent
