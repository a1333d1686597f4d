import BrowserAgent.Proofs.TokenReaders

/-!
# Reading values without calls

What may follow an expression in a line is a comma, a closing parenthesis or a semicolon. So a
number or a name that spells an expression is read up to its end, and a name is an item just where
a bracket follows it.
-/

namespace BrowserAgent.Action

open Number

/-- What the reader takes from a line spells what it makes of it. -/
def Sound {α : Type} (read : Reader α) (E : Spelling α) : Prop :=
  ∀ ⦃cs rest : List Char⦄ ⦃a : α⦄, read cs = some (a, rest) → ∃ used, cs = used ++ rest ∧ E used a

/-- What may follow an expression: nothing, or one of three characters after any gap. -/
def Ends (cs : List Char) : Prop := ∀ c ∈ (skipGaps cs).head?, c ∈ [',', ')', ';']

section

variable {g cs rest : List Char}

theorem ends_nil : Ends [] := by simp [Ends, skipGaps]

theorem ends_append {c : Char} (hg : IsGap g) (hc : c ∈ [',', ')', ';']) : Ends (g ++ c :: cs) := by
  have stops : Stops isGap (c :: cs) := by
    obtain rfl | rfl | rfl : c = ',' ∨ c = ')' ∨ c = ';' := by simpa using hc
    all_goals exact stops_cons.mpr rfl
  rw [Ends, skipGaps_append hg stops]
  simpa using hc

theorem Ends.stops (h : Ends cs) {p : Char → Bool}
    (hp : [' ', '\t', ',', ')', ';'].all (fun c => !p c) = true) : Stops p cs := by
  intro c hc
  obtain ⟨more, rfl⟩ : ∃ more, cs = c :: more := by
    cases cs with
    | nil => simp at hc
    | cons d more => exact ⟨more, by rw [Option.mem_some.mp hc]⟩
  have hp : ∀ c ∈ [' ', '\t', ',', ')', ';'], p c = false := by simpa using hp
  apply hp
  by_cases gap : isGap c = true
  · rcases isGap_iff.mp gap with rfl | rfl <;> simp
  · have := h c (by rw [skipGaps, List.dropWhile_cons_of_neg gap]; rfl)
    exact List.mem_cons_of_mem _ (List.mem_cons_of_mem _ this)

theorem Ends.symbol?_eq_none (h : Ends cs) {c : Char} (hc : c ∉ [',', ')', ';']) :
    symbol? c cs = none :=
  Action.symbol?_eq_none fun heq => hc (h c heq)

theorem Ends.name (h : Ends cs) : Stops isNameChar cs := h.stops (by decide)

theorem Ends.callee (h : Ends cs) : StopsCallee cs := h.stops (by decide)

theorem Ends.digit (h : Ends cs) : Stops Char.isDigit cs := h.stops (by decide)

end

/-! ## Numbers -/

/-- A number of the given sign, the minus of which is read already. -/
def readUnsigned (negative : Bool) : Reader Decimal := fun cs =>
  let whole := cs.takeWhile Char.isDigit
  if whole.isEmpty then none
  else match cs.dropWhile Char.isDigit with
    | '.' :: more =>
      some (.ofDigits negative whole (more.takeWhile Char.isDigit) 0, more.dropWhile Char.isDigit)
    | rest => some (.ofDigits negative whole [] 0, rest)

section

variable {cs rest whole fraction : List Char} {negative : Bool}

theorem readNumber_minus (cs : List Char) : readNumber ('-' :: cs) = readUnsigned true cs := rfl

theorem readNumber_of_stops (h : Stops (· == '-') cs) : readNumber cs = readUnsigned false cs := by
  unfold readNumber
  split
  next negative body heq =>
  split at heq
  · have := stops_cons.mp h
    simp at this
  · simp only [Prod.mk.injEq] at heq
    obtain ⟨rfl, rfl⟩ := heq
    rfl

theorem readNumber_signed (hw : IsDigits whole) (hne : whole ≠ []) :
    readNumber (signOf negative ++ (whole ++ rest)) = readUnsigned negative (whole ++ rest) := by
  cases negative with
  | true => exact readNumber_minus _
  | false =>
    apply readNumber_of_stops
    obtain ⟨d, ds, rfl⟩ := List.exists_cons_of_ne_nil hne
    rw [signOf, if_neg (by decide), List.nil_append, List.cons_append, stops_cons,
      beq_eq_false_iff_ne]
    rintro rfl
    exact absurd (hw '-' List.mem_cons_self) (by decide)

theorem readNumber_whole (hw : IsDigits whole) (hne : whole ≠ []) (ends : Ends rest) :
    readNumber (signOf negative ++ (whole ++ rest)) =
      some (.ofDigits negative whole [] 0, rest) := by
  rw [readNumber_signed hw hne, readUnsigned]
  simp only [takeWhile_append hw ends.digit, dropWhile_append hw ends.digit, List.isEmpty_iff, hne,
    if_false]
  split
  · next more =>
    have := ends.callee '.' rfl
    simp at this
  · rfl

theorem readNumber_decimal (hw : IsDigits whole) (hne : whole ≠ []) (hf : IsDigits fraction)
    (ends : Ends rest) :
    readNumber (signOf negative ++ (whole ++ '.' :: (fraction ++ rest))) =
      some (.ofDigits negative whole fraction 0, rest) := by
  have point : Stops Char.isDigit ('.' :: (fraction ++ rest)) := stops_cons.mpr (by decide)
  rw [readNumber_signed hw hne, readUnsigned]
  simp only [takeWhile_append hw point, dropWhile_append hw point, List.isEmpty_iff, hne,
    if_false, takeWhile_append hf ends.digit, dropWhile_append hf ends.digit]

theorem readNumber_eq_none (h : Stops (fun c => c == '-' || c.isDigit) cs) :
    readNumber cs = none := by
  have minus : Stops (· == '-') cs := fun c hc => (Bool.or_eq_false_iff.mp (h c hc)).1
  have digit : Stops Char.isDigit cs := fun c hc => (Bool.or_eq_false_iff.mp (h c hc)).2
  rw [readNumber_of_stops minus, readUnsigned, takeWhile_of_stops digit]
  rfl

theorem readUnsigned_sound {literal : Decimal}
    (h : readUnsigned negative cs = some (literal, rest)) :
    ∃ used, cs = used ++ rest ∧ Spells (signOf negative ++ used) (.number literal) := by
  have hcs : cs = cs.takeWhile Char.isDigit ++ cs.dropWhile Char.isDigit :=
    List.takeWhile_append_dropWhile.symm
  have hw : IsDigits (cs.takeWhile Char.isDigit) := forall_mem_takeWhile
  simp only [readUnsigned] at h
  split at h
  · cases h
  · next hne =>
    have hne : cs.takeWhile Char.isDigit ≠ [] := by simpa using hne
    split at h
    · next more hmore =>
      simp only [Option.some.injEq, Prod.mk.injEq] at h
      obtain ⟨rfl, rfl⟩ := h
      refine ⟨_, ?_, .decimal hw hne forall_mem_takeWhile⟩
      rw [List.append_assoc, List.cons_append, List.takeWhile_append_dropWhile, ← hmore, ← hcs]
    · simp only [Option.some.injEq, Prod.mk.injEq] at h
      obtain ⟨rfl, rfl⟩ := h
      exact ⟨_, hcs, .whole hw hne⟩

theorem readNumber_sound {literal : Decimal} (h : readNumber cs = some (literal, rest)) :
    ∃ used, cs = used ++ rest ∧ Spells used (.number literal) := by
  by_cases minus : Stops (· == '-') cs
  · rw [readNumber_of_stops minus] at h
    exact readUnsigned_sound h
  · obtain ⟨more, rfl⟩ : ∃ more, cs = '-' :: more := by
      cases cs with
      | nil => simp [Stops] at minus
      | cons c more => exact ⟨more, by simpa [Stops] using minus⟩
    rw [readNumber_minus] at h
    obtain ⟨used, rfl, hs⟩ := readUnsigned_sound h
    exact ⟨'-' :: used, rfl, hs⟩

end

/-! ## Words -/

section

variable {cs rest name : List Char}

theorem isName_of_mem {word : String} (h : word ∈ literalWords) : IsName word.toList := by
  have all : ∀ word ∈ literalWords, IsName word.toList := by decide
  exact all word h

theorem readIndex_append {g₁ g₂ digits g₃ : List Char} (h₁ : IsGap g₁) (h₂ : IsGap g₂)
    (hd : IsDigits digits) (hne : digits ≠ []) (h₃ : IsGap g₃) :
    readIndex (g₁ ++ '[' :: (g₂ ++ (digits ++ (g₃ ++ ']' :: rest)))) =
      some (Decimal.digitsValue digits, rest) := by
  have gap : Stops isGap (digits ++ (g₃ ++ ']' :: rest)) := by
    obtain ⟨d, ds, rfl⟩ := List.exists_cons_of_ne_nil hne
    have digit := hd d List.mem_cons_self
    rw [List.cons_append, stops_cons, Bool.eq_false_iff, ne_eq, isGap_iff]
    rintro (rfl | rfl) <;> simp at digit
  have stops : Stops Char.isDigit (g₃ ++ ']' :: rest) := h₃.stops (by decide)
  simp only [readIndex, symbol?_append (c := '[') h₁ (by decide), Option.bind_eq_bind,
    Option.bind_some, skipGaps_append h₂ gap, takeWhile_append hd stops,
    dropWhile_append hd stops, symbol?_append (c := ']') h₃ (by decide), List.isEmpty_iff, hne,
    if_false]

theorem readIndex_sound {index : Nat} (h : readIndex cs = some (index, rest)) :
    ∃ g₁ g₂ digits g₃, IsGap g₁ ∧ IsGap g₂ ∧ IsDigits digits ∧ digits ≠ [] ∧ IsGap g₃ ∧
      index = Decimal.digitsValue digits ∧
      cs = g₁ ++ '[' :: (g₂ ++ (digits ++ (g₃ ++ ']' :: rest))) := by
  simp only [readIndex, Option.bind_eq_bind, Option.bind_eq_some_iff] at h
  obtain ⟨inner, hopen, h⟩ := h
  split at h
  · cases h
  · next hne =>
    rw [Option.bind_eq_some_iff] at h
    obtain ⟨after, hclose, h⟩ := h
    simp only [Option.some.injEq, Prod.mk.injEq] at h
    obtain ⟨rfl, rfl⟩ := h
    obtain ⟨g₁, h₁, rfl⟩ := symbol?_sound hopen
    obtain ⟨g₂, h₂, hinner⟩ := exists_gap inner
    obtain ⟨g₃, h₃, hafter⟩ := symbol?_sound hclose
    refine ⟨g₁, g₂, _, g₃, h₁, h₂, forall_mem_takeWhile, by simpa using hne, h₃, rfl, ?_⟩
    rw [← hafter, List.takeWhile_append_dropWhile, ← hinner]

theorem readWord_variable (hv : IsVariable name) (stops : Stops isNameChar rest) :
    readWord (name ++ rest) = match readIndex rest with
      | some (index, rest) => some (.item (String.ofList name) index, rest)
      | none => some (.var (String.ofList name), rest) := by
  have not := hv.2
  simp only [literalWords, List.mem_append, not_or] at not
  obtain ⟨⟨hy, hn⟩, hz⟩ := not
  rw [readWord, readName_append hv.1 stops, Option.bind_eq_bind, Option.bind_some]
  exact (if_neg hy).trans ((if_neg hn).trans (if_neg hz))

def literalValue (word : String) : Phrase :=
  if word ∈ trueWords then .bool true else if word ∈ falseWords then .bool false else .nothing

theorem literalValue_of_false {word : String} (h : word ∈ falseWords) :
    literalValue word = .bool false := by
  have apart : ∀ word ∈ falseWords, word ∉ trueWords := by decide
  rw [literalValue, if_neg (apart word h), if_pos h]

theorem literalValue_of_none {word : String} (h : word ∈ noneWords) :
    literalValue word = .nothing := by
  have apart : ∀ word ∈ noneWords, word ∉ trueWords ∧ word ∉ falseWords := by decide
  rw [literalValue, if_neg (apart word h).1, if_neg (apart word h).2]

theorem readWord_literal {word : String} (h : word ∈ literalWords) (stops : Stops isNameChar rest) :
    readWord (word.toList ++ rest) = some (literalValue word, rest) := by
  simp only [readWord, readName_append (isName_of_mem h) stops, Option.bind_eq_bind,
    Option.bind_some, String.ofList_toList, literalValue]
  split
  · rfl
  · split
    · rfl
    · next ht hf =>
      have hn : word ∈ noneWords := by simpa [literalWords, ht, hf] using h
      rw [if_pos hn]

theorem readIndex_eq_none (h : symbol? '[' cs = none) : readIndex cs = none := by
  simp [readIndex, h]

theorem readWord_sound {p : Phrase} (h : readWord cs = some (p, rest)) :
    ∃ used, cs = used ++ rest ∧ Spells used p := by
  simp only [readWord, Option.bind_eq_bind, Option.bind_eq_some_iff] at h
  obtain ⟨⟨name, after⟩, hname, h⟩ := h
  obtain ⟨rfl, hn, -⟩ := readName_sound hname
  have word : (String.ofList name).toList = name := String.toList_ofList
  simp only at h
  split at h
  · next hy =>
    cases h
    exact ⟨_, rfl, word ▸ .yes hy⟩
  · next hy =>
    split at h
    · next hf =>
      cases h
      exact ⟨_, rfl, word ▸ .no hf⟩
    · next hf =>
      split at h
      · next hz =>
        cases h
        exact ⟨_, rfl, word ▸ .nothing hz⟩
      · next hz =>
        have hv : IsVariable name := ⟨hn, by simp [literalWords, hy, hf, hz]⟩
        split at h
        · next index more hindex =>
          cases h
          obtain ⟨g₁, g₂, digits, g₃, h₁, h₂, hd, hne, h₃, rfl, rfl⟩ := readIndex_sound hindex
          exact ⟨_, by simp, .item hv h₁ h₂ hd hne h₃⟩
        · cases h
          exact ⟨_, rfl, .var hv⟩

end

/-! ## Any value but that of a call -/

theorem readText_sound {cs rest : List Char} {value : String}
    (h : readText cs = some (value, rest)) :
    ∃ used, cs = used ++ rest ∧ Spells used (.text value) := by
  cases cs with
  | nil => simp [readText] at h
  | cons quote cs =>
    rw [readText] at h
    split at h
    · next hq =>
      obtain ⟨⟨chars, after⟩, hread, h⟩ := Option.map_eq_some_iff.mp h
      simp only [Prod.mk.injEq] at h
      obtain ⟨rfl, rfl⟩ := h
      obtain ⟨pieces, fits, rfl, rfl⟩ := readQuoted_sound hread
      exact ⟨quoted quote pieces, by simp [quoted], .text (by simpa using hq) fits⟩
    · cases h

theorem readText_append {rest : List Char} {quote : Char} {pieces : List Piece}
    (hq : quote = '"' ∨ quote = '\'') (fits : ∀ p ∈ pieces, p.Fits quote) :
    readText (quoted quote pieces ++ rest) =
      some (String.ofList (pieces.map Piece.value), rest) := by
  have hb : quote ≠ '\\' := by rcases hq with rfl | rfl <;> decide
  rw [quoted, List.cons_append, List.append_assoc, readText,
    if_pos (by simpa using hq)]
  simp only [List.cons_append, List.nil_append, readQuoted_append fits hb, Option.map_some]

theorem readText_eq_none {cs : List Char} (h : Stops (fun c => c == '"' || c == '\'') cs) :
    readText cs = none := by
  cases cs with
  | nil => rfl
  | cons c cs =>
    have := stops_cons.mp h
    rw [readText, if_neg (by simpa using this)]

theorem readAtom_eq (cs : List Char) :
    readAtom cs = match readText cs with
      | some (value, rest) => some (.text value, rest)
      | none =>
        match readNumber cs with
        | some (literal, rest) => some (.number literal, rest)
        | none => readWord cs := by
  unfold readAtom
  cases readText cs with
  | some => rfl
  | none => cases readNumber cs <;> rfl

theorem readAtom_sound : Sound readAtom Spells := by
  intro cs rest p h
  rw [readAtom_eq] at h
  split at h
  · next value after ht =>
    simp only [Option.some.injEq, Prod.mk.injEq] at h
    obtain ⟨rfl, rfl⟩ := h
    exact readText_sound ht
  · split at h
    · next literal after hn =>
      simp only [Option.some.injEq, Prod.mk.injEq] at h
      obtain ⟨rfl, rfl⟩ := h
      exact readNumber_sound hn
    · exact readWord_sound h

section

variable {cs rest whole fraction name : List Char} {negative : Bool}

theorem readAtom_text {quote : Char} {pieces : List Piece} (hq : quote = '"' ∨ quote = '\'')
    (fits : ∀ p ∈ pieces, p.Fits quote) :
    readAtom (quoted quote pieces ++ rest) =
      some (.text (String.ofList (pieces.map Piece.value)), rest) := by
  rw [readAtom_eq, readText_append hq fits]

theorem readAtom_number {literal : Decimal} (h : readNumber cs = some (literal, rest)) :
    readAtom cs = some (.number literal, rest) := by
  have text : readText cs = none := by
    cases cs with
    | nil => rfl
    | cons c cs =>
      rw [readText]
      split
      · next hq =>
        have hq : c = '"' ∨ c = '\'' := by simpa using hq
        have : readNumber (c :: cs) = none := by
          apply readNumber_eq_none
          rw [stops_cons]
          rcases hq with rfl | rfl <;> decide
        rw [this] at h
        cases h
      · rfl
  rw [readAtom_eq, text, h]

theorem readAtom_name (h : IsName name) : readAtom (name ++ rest) = readWord (name ++ rest) := by
  obtain ⟨c, more, rfl, hc⟩ := h.head
  -- A text starts with a quote and a number with a sign or a digit, but a name with neither.
  have text : readText (c :: more ++ rest) = none := by
    apply readText_eq_none
    rw [List.cons_append, stops_cons, beq_of_start hc (by decide), beq_of_start hc (by decide)]
    rfl
  have number : readNumber (c :: more ++ rest) = none := by
    apply readNumber_eq_none
    rw [List.cons_append, stops_cons, beq_of_start hc (by decide), isDigit_of_start hc]
    rfl
  rw [readAtom_eq, text, number]

end

end BrowserAgent.Action
