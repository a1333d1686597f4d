import BrowserAgent.Proofs.AtomReaders

/-!
# Reading expressions

The readers of arguments, calls and expressions take what spells them and nothing else. A call is
tried before every other expression and a keyword before a value, and neither choice rejects what
could be read otherwise: the characters that follow a name decide which it is.
-/

namespace BrowserAgent.Action

open Number

/-! ## How an expression begins -/

/-- An expression may start with the character. -/
def startsPhrase (c : Char) : Bool :=
  isNameStart c || c == '"' || c == '\'' || c == '-' || c.isDigit

theorem isGap_of_startsPhrase {c : Char} (h : startsPhrase c = true) : isGap c = false := by
  rw [Bool.eq_false_iff, ne_eq, isGap_iff]
  rintro (rfl | rfl) <;> exact absurd h (by decide)

section

variable {cs rest name more : List Char} {p : Phrase}

theorem IsName.starts (h : IsName name) : ∃ c tail, name = c :: tail ∧ startsPhrase c = true := by
  obtain ⟨c, tail, rfl, hc⟩ := h.head
  exact ⟨c, tail, rfl, by simp [startsPhrase, hc]⟩

theorem starts_number (negative : Bool) {whole : List Char} (hw : IsDigits whole)
    (hne : whole ≠ []) (rest : List Char) :
    ∃ c tail, signOf negative ++ (whole ++ rest) = c :: tail ∧ startsPhrase c = true ∧
      isNameStart c = false := by
  cases negative with
  | true => exact ⟨'-', whole ++ rest, rfl, by decide, by decide⟩
  | false =>
    obtain ⟨d, ds, rfl⟩ := List.exists_cons_of_ne_nil hne
    have hd := hw d List.mem_cons_self
    refine ⟨d, ds ++ rest, rfl, by simp [startsPhrase, hd], ?_⟩
    rw [Bool.eq_false_iff]
    intro start
    rw [isDigit_of_start start] at hd
    cases hd

theorem Spells.starts (h : Spells cs p) : ∃ c tail, cs = c :: tail ∧ startsPhrase c = true := by
  have extend {name : List Char} (hn : IsName name) (more : List Char) :
      ∃ c tail, name ++ more = c :: tail ∧ startsPhrase c = true := by
    obtain ⟨c, tail, rfl, hc⟩ := hn.starts
    exact ⟨c, tail ++ more, rfl, hc⟩
  cases h with
  | @text quote pieces hq =>
    exact ⟨quote, _, rfl, by rcases hq with rfl | rfl <;> decide⟩
  | @whole negative whole hw hne =>
    obtain ⟨c, tail, heq, hc, -⟩ := starts_number negative hw hne []
    exact ⟨c, tail, by rw [← heq, List.append_nil], hc⟩
  | @decimal negative whole fraction hw hne =>
    obtain ⟨c, tail, heq, hc, -⟩ := starts_number negative hw hne ('.' :: fraction)
    exact ⟨c, tail, heq, hc⟩
  | yes hword => exact (isName_of_mem (by simp [literalWords, hword])).starts
  | no hword => exact (isName_of_mem (by simp [literalWords, hword])).starts
  | nothing hword => exact (isName_of_mem (by simp [literalWords, hword])).starts
  | var hv => exact hv.1.starts
  | item hv => exact extend hv.1 _
  | call hn => exact extend hn _

/-- What stands where an expression does begins with no name, or with a name that neither another
name nor an equals sign follows and, unless the expression is a call, nothing that would make it
one. -/
inductive Begins (p : Phrase) : List Char → Prop
  | sign {cs : List Char} : Stops isNameStart cs → Begins p cs
  | name {name more : List Char} : IsName name → Stops isNameChar more →
    Stops (fun c => isNameStart c || c == '=') (skipGaps more) →
    (StopsCallee more ∧ symbol? '(' more = none ∨ ∃ callee args, p = .call callee args) →
    Begins p (name ++ more)

theorem Begins.of_ends (hn : IsName name) (ends : Ends rest) : Begins p (name ++ rest) := by
  have marks : [',', ')', ';'].all (fun c => !(isNameStart c || c == '=')) = true := by decide
  have apart (c : Char) (hc : c ∈ (skipGaps rest).head?) : (isNameStart c || c == '=') = false := by
    simpa using List.all_eq_true.mp marks c (ends c hc)
  exact .name hn ends.name apart
    (.inl ⟨ends.callee, ends.symbol?_eq_none (by decide)⟩)

theorem Begins.number {negative : Bool} {whole : List Char} (hw : IsDigits whole)
    (hne : whole ≠ []) : Begins p (signOf negative ++ (whole ++ rest)) := by
  obtain ⟨c, tail, heq, -, hc⟩ := starts_number negative hw hne rest
  rw [heq]
  exact .sign (stops_cons.mpr hc)

theorem Spells.begins (h : Spells cs p) (ends : Ends rest) : Begins p (cs ++ rest) := by
  cases h with
  | text hq =>
    refine .sign (stops_cons.mpr ?_)
    rcases hq with rfl | rfl <;> decide
  | whole hw hne =>
    rw [List.append_assoc]
    exact .number hw hne
  | decimal hw hne =>
    rw [List.append_assoc, List.append_assoc]
    exact .number hw hne
  | yes hword => exact .of_ends (isName_of_mem (by simp [literalWords, hword])) ends
  | no hword => exact .of_ends (isName_of_mem (by simp [literalWords, hword])) ends
  | nothing hword => exact .of_ends (isName_of_mem (by simp [literalWords, hword])) ends
  | var hv => exact .of_ends hv.1 ends
  | @item name g₁ g₂ digits g₃ hv h₁ =>
    rw [List.append_assoc, List.append_assoc, List.cons_append]
    exact .name hv.1 (h₁.stops (by decide)) (h₁.stops_skipGaps (by decide) (by decide))
      (.inl ⟨h₁.stops (by decide), symbol?_of_ne h₁ (by decide) (by decide)⟩)
  | @call name path g inner args hn hp hg =>
    rw [List.append_assoc, List.append_assoc, List.append_assoc, List.cons_append]
    have stops : StopsCallee (g ++ '(' :: (inner ++ [')'] ++ rest)) := hg.stops (by decide)
    refine .name hn (hp.stops stops) ?_ (.inr ⟨_, _, rfl⟩)
    cases hp with
    | nil => exact hg.stops_skipGaps (by decide) (by decide)
    | cons => exact isGap_nil.stops_skipGaps (by decide) (by decide)

theorem Begins.no_equals (h : Begins p cs) {name more : List Char}
    (hname : readName cs = some (name, more)) : symbol? '=' more = none := by
  cases h with
  | sign hs =>
    rw [readName_eq_none hs] at hname
    cases hname
  | name hn hs he =>
    rw [readName_append hn hs] at hname
    simp only [Option.some.injEq, Prod.mk.injEq] at hname
    rw [← hname.2]
    exact symbol?_eq_none fun heq => by simpa using he '=' heq

theorem Begins.no_call (h : Begins p cs) (hp : ∀ callee args, p ≠ .call callee args)
    {callee : String} {more : List Char} (hcallee : readCallee cs = some (callee, more)) :
    symbol? '(' more = none := by
  cases h with
  | sign hs => simp [readCallee, readName_eq_none hs] at hcallee
  | @name name after hn hs _ hc =>
    obtain ⟨stops, hopen⟩ | ⟨callee, args, rfl⟩ := hc
    · have := readCallee_append hn .nil stops
      rw [List.nil_append] at this
      rw [this] at hcallee
      simp only [Option.some.injEq, Prod.mk.injEq] at hcallee
      rw [← hcallee.2]
      exact hopen
    · exact absurd rfl (hp callee args)

end

/-! ## Arguments -/

/-- Every spelling of at most the given length is read whole, if what follows may follow it. -/
def Complete (read : Reader Phrase) (n : Nat) : Prop :=
  ∀ ⦃cs rest : List Char⦄ ⦃p : Phrase⦄, cs.length ≤ n → Spells cs p → Ends rest →
    read (cs ++ rest) = some (p, rest)

section

variable {expr : Reader Phrase} {cs rest inner : List Char} {n : Nat}

theorem readKeywordArg_eq_none
    (h : ∀ name more, readName cs = some (name, more) → symbol? '=' more = none) :
    readKeywordArg expr cs = none := by
  cases hn : readName cs with
  | none => simp [readKeywordArg, hn]
  | some found => simp [readKeywordArg, hn, h found.1 found.2 hn]

theorem readKeywordArg_sound (he : Sound expr Spells) :
    Sound (readKeywordArg expr) (SpellsArg Spells) := by
  intro cs rest arg h
  simp only [readKeywordArg, Option.bind_eq_bind, Option.bind_eq_some_iff] at h
  obtain ⟨⟨key, after⟩, hkey, value, hequals, ⟨p, last⟩, hp, h⟩ := h
  simp only [Option.some.injEq, Prod.mk.injEq] at h
  obtain ⟨rfl, rfl⟩ := h
  obtain ⟨rfl, hn, -⟩ := readName_sound hkey
  obtain ⟨g₁, h₁, rfl⟩ := symbol?_sound hequals
  obtain ⟨g₂, h₂, hvalue⟩ := exists_gap value
  obtain ⟨used, hused, hs⟩ := he hp
  refine ⟨key ++ (g₁ ++ '=' :: (g₂ ++ used)), ?_, .keyword hn h₁ h₂ hs⟩
  rw [hvalue, hused]
  simp

theorem readArg_eq (cs : List Char) :
    readArg expr cs = match readKeywordArg expr cs with
      | some found => some found
      | none => (expr cs).map fun (p, rest) => ((none, p), rest) := by
  unfold readArg
  cases readKeywordArg expr cs <;> rfl

theorem readArg_sound (he : Sound expr Spells) : Sound (readArg expr) (SpellsArg Spells) := by
  intro cs rest arg h
  rw [readArg_eq] at h
  split at h
  · next found hk =>
    rw [h] at hk
    exact readKeywordArg_sound he hk
  · obtain ⟨⟨p, after⟩, hp, h⟩ := Option.map_eq_some_iff.mp h
    simp only [Prod.mk.injEq] at h
    obtain ⟨rfl, rfl⟩ := h
    obtain ⟨used, rfl, hs⟩ := he hp
    exact ⟨used, rfl, .positional hs⟩

theorem SpellsArg.starts {arg : Option String × Phrase} (h : SpellsArg Spells cs arg) :
    ∃ c tail, cs = c :: tail ∧ startsPhrase c = true := by
  cases h with
  | positional hs => exact hs.starts
  | keyword hn =>
    obtain ⟨c, tail, rfl, hc⟩ := hn.starts
    exact ⟨c, _, rfl, hc⟩

theorem SpellsArg.stops {arg : Option String × Phrase} (h : SpellsArg Spells cs arg) :
    Stops isGap (cs ++ rest) := by
  obtain ⟨c, tail, rfl, hc⟩ := h.starts
  exact stops_cons.mpr (isGap_of_startsPhrase hc)

theorem readArg_eq_none (he : Sound expr Spells) (h : Stops startsPhrase cs) :
    readArg expr cs = none := by
  cases hread : readArg expr cs with
  | none => rfl
  | some found =>
    obtain ⟨used, rfl, ha⟩ := readArg_sound he hread
    obtain ⟨c, tail, rfl, hc⟩ := ha.starts
    rw [List.cons_append, stops_cons, hc] at h
    cases h

theorem readArg_append (he : Complete expr n) {arg : Option String × Phrase}
    (h : SpellsArg Spells cs arg) (hl : cs.length ≤ n) (ends : Ends rest) :
    readArg expr (cs ++ rest) = some (arg, rest) := by
  rw [readArg_eq]
  cases h with
  | positional hs =>
    rw [readKeywordArg_eq_none fun _ _ => (hs.begins ends).no_equals]
    simp only [he hl hs ends, Option.map_some]
  | @keyword key g₁ g₂ used p hn h₁ h₂ hs =>
    obtain ⟨c, tail, rfl, hc⟩ := hs.starts
    have stops : Stops isGap (c :: tail ++ rest) := stops_cons.mpr (isGap_of_startsPhrase hc)
    have name : Stops isNameChar (g₁ ++ '=' :: (g₂ ++ (c :: tail ++ rest))) := h₁.stops (by decide)
    have hl : (c :: tail).length ≤ n := by
      simp only [List.length_append, List.length_cons] at hl ⊢
      omega
    have hk : readKeywordArg expr (key ++ (g₁ ++ '=' :: (g₂ ++ (c :: tail ++ rest)))) =
        some ((some (String.ofList key), p), rest) := by
      simp only [readKeywordArg, readName_append hn name, symbol?_append (c := '=') h₁ (by decide),
        skipGaps_append h₂ stops, he hl hs ends, Option.bind_eq_bind, Option.bind_some]
    rw [List.append_assoc, List.append_assoc, List.cons_append, List.append_assoc, hk]

/-! ### Several arguments -/

theorem readMoreArgs_sound (he : Sound expr Spells) (fuel : Nat) (cs : List Char) :
    ∃ used, cs = used ++ (readMoreArgs expr fuel cs).2 ∧ ∀ g, IsGap g →
      SpellsMoreArgs Spells (used ++ g) (readMoreArgs expr fuel cs).1 := by
  fun_induction readMoreArgs expr fuel cs with
  | case1 cs => exact ⟨[], rfl, fun g hg => .nil hg⟩
  | case2 cs fuel arg rest harg args after hmore ih =>
    obtain ⟨used, hrest, hs⟩ := ih
    rw [hmore] at hrest hs
    obtain ⟨inner, hcomma, ha⟩ := Option.bind_eq_some_iff.mp harg
    obtain ⟨g₁, h₁, rfl⟩ := symbol?_sound hcomma
    obtain ⟨g₂, h₂, hinner⟩ := exists_gap inner
    obtain ⟨spelled, hspelled, ha⟩ := readArg_sound he ha
    refine ⟨g₁ ++ ',' :: (g₂ ++ (spelled ++ used)), ?_, ?_⟩
    · rw [hinner, hspelled, hrest]
      simp
    · intro g hg
      have := SpellsMoreArgs.cons h₁ h₂ ha (hs g hg)
      simpa using this
  | case3 cs fuel hnone => exact ⟨[], rfl, fun g hg => .nil hg⟩

theorem readArgs_sound (he : Sound expr Spells) (cs : List Char) :
    ∃ used, cs = used ++ (readArgs expr cs).2 ∧ ∀ g, IsGap g →
      SpellsArgs Spells (used ++ g) (readArgs expr cs).1 := by
  unfold readArgs
  split
  · next arg rest harg =>
    obtain ⟨g₁, h₁, hcs⟩ := exists_gap cs
    obtain ⟨spelled, hspelled, ha⟩ := readArg_sound he harg
    obtain ⟨used, hused, hs⟩ := readMoreArgs_sound he rest.length rest
    refine ⟨g₁ ++ (spelled ++ used), ?_, ?_⟩
    · rw [hcs, hspelled]
      simp only [List.append_assoc, List.append_cancel_left_eq]
      exact hused
    · intro g hg
      have := SpellsArgs.cons h₁ ha (hs g hg)
      simpa using this
  · exact ⟨[], rfl, fun g hg => .nil hg⟩

theorem SpellsMoreArgs.ends {args : List (Option String × Phrase)}
    (h : SpellsMoreArgs Spells inner args) : Ends (inner ++ ')' :: rest) := by
  cases h with
  | nil hg => exact ends_append hg (by decide)
  | cons h₁ =>
    rw [List.append_assoc, List.cons_append]
    exact ends_append h₁ (by decide)

theorem readMoreArgs_append (he : Complete expr n) {args : List (Option String × Phrase)}
    (h : SpellsMoreArgs Spells inner args) (hl : inner.length ≤ n) {fuel : Nat}
    (bound : inner.length ≤ fuel) (rest : List Char) :
    ∃ g, IsGap g ∧ readMoreArgs expr fuel (inner ++ ')' :: rest) = (args, g ++ ')' :: rest) := by
  induction h generalizing fuel with
  | @nil g hg =>
    have none : symbol? ',' (g ++ ')' :: rest) = none := symbol?_of_ne hg (by decide) (by decide)
    refine ⟨g, hg, ?_⟩
    cases fuel with
    | zero => rfl
    | succ fuel => simp only [readMoreArgs, none, Option.bind_none]
  | @cons g₁ g₂ cs more arg args h₁ h₂ ha hmore ih =>
    simp only [List.length_append, List.length_cons] at hl bound
    obtain ⟨fuel, rfl⟩ : ∃ k, fuel = k + 1 := ⟨fuel - 1, by omega⟩
    obtain ⟨g, hg, hread⟩ := ih (by omega) (show more.length ≤ fuel by omega)
    have ends : Ends (more ++ ')' :: rest) := hmore.ends
    have arg := readArg_append he ha (by omega) ends
    refine ⟨g, hg, ?_⟩
    simp only [List.append_assoc, List.cons_append, readMoreArgs,
      symbol?_append (c := ',') h₁ (by decide), Option.bind_some, skipGaps_append h₂ ha.stops, arg,
      hread]

theorem readArgs_append (hs : Sound expr Spells) (he : Complete expr n)
    {args : List (Option String × Phrase)}
    (h : SpellsArgs Spells inner args) (hl : inner.length ≤ n) (rest : List Char) :
    ∃ g, IsGap g ∧ readArgs expr (inner ++ ')' :: rest) = (args, g ++ ')' :: rest) := by
  cases h with
  | nil hg =>
    have stops : Stops isGap (')' :: rest) := stops_cons.mpr (by decide)
    have none : readArg expr (')' :: rest) = none :=
      readArg_eq_none hs (stops_cons.mpr (by decide))
    exact ⟨_, hg, by simp only [readArgs, skipGaps_append hg stops, none]⟩
  | @cons g₁ cs more arg args h₁ ha hmore =>
    simp only [List.length_append] at hl
    have ends : Ends (more ++ ')' :: rest) := hmore.ends
    have arg := readArg_append he ha (by omega) ends
    obtain ⟨g, hg, hread⟩ := readMoreArgs_append he hmore (by omega)
      (show more.length ≤ (more ++ ')' :: rest).length by simp) rest
    refine ⟨g, hg, ?_⟩
    simp only [List.append_assoc, readArgs, skipGaps_append h₁ ha.stops, arg, hread]

/-! ## Calls -/

theorem readCall_sound (he : Sound expr Spells) : Sound (readCall expr) Spells := by
  intro cs rest p h
  simp only [readCall, Option.bind_eq_bind, Option.bind_eq_some_iff] at h
  obtain ⟨⟨callee, after⟩, hcallee, inner, hopen, last, hclose, h⟩ := h
  simp only [Option.some.injEq, Prod.mk.injEq] at h
  obtain ⟨rfl, rfl⟩ := h
  obtain ⟨name, path, hn, hp, rfl, rfl⟩ := readCallee_sound hcallee
  obtain ⟨g, hg, rfl⟩ := symbol?_sound hopen
  obtain ⟨used, hused, hs⟩ := readArgs_sound he inner
  obtain ⟨g', hg', hlast⟩ := symbol?_sound hclose
  refine ⟨_, ?_, .call hn hp hg (hs g' hg')⟩
  rw [hused, hlast]
  simp

theorem readCall_append (hs : Sound expr Spells) (he : Complete expr n)
    {name path g : List Char} {args : List (Option String × Phrase)} (hn : IsName name)
    (hp : IsPath path) (hg : IsGap g) (ha : SpellsArgs Spells inner args)
    (hl : inner.length ≤ n) :
    readCall expr (name ++ (path ++ (g ++ '(' :: (inner ++ ')' :: rest)))) =
      some (.call (String.ofList (name ++ path)) args, rest) := by
  obtain ⟨g', hg', hread⟩ := readArgs_append hs he ha hl rest
  have stops : StopsCallee (g ++ '(' :: (inner ++ ')' :: rest)) := hg.stops (by decide)
  simp only [readCall, readCallee_append hn hp stops, symbol?_append (c := '(') hg (by decide),
    hread, symbol?_append (c := ')') hg' (by decide), Option.bind_eq_bind, Option.bind_some]

theorem readCall_eq_none
    (h : ∀ callee more, readCallee cs = some (callee, more) → symbol? '(' more = none) :
    readCall expr cs = none := by
  cases hc : readCallee cs with
  | none => simp [readCall, hc]
  | some found => simp [readCall, hc, h found.1 found.2 hc]

/-! ## Expressions -/

theorem readNested_succ (depth : Nat) (cs : List Char) :
    readNested (depth + 1) cs = match readCall (readNested depth) cs with
      | some found => some found
      | none => readAtom cs := by
  show (readCall (readNested depth) cs <|> readAtom cs) = _
  cases readCall (readNested depth) cs <;> rfl

theorem readNested_sound (depth : Nat) : Sound (readNested depth) Spells := by
  induction depth with
  | zero =>
    intro cs rest p h
    cases h
  | succ depth ih =>
    intro cs rest p h
    rw [readNested_succ] at h
    split at h
    · next found hc =>
      rw [h] at hc
      exact readCall_sound ih hc
    · exact readAtom_sound h

theorem readAtom_append {p : Phrase} (h : Spells cs p) (ends : Ends rest)
    (hp : ∀ callee args, p ≠ .call callee args) : readAtom (cs ++ rest) = some (p, rest) := by
  have literal {word : String} (hw : word ∈ literalWords) :
      readAtom (word.toList ++ rest) = some (literalValue word, rest) := by
    rw [readAtom_name (isName_of_mem hw), readWord_literal hw ends.name]
  cases h with
  | text hq fits => exact readAtom_text hq fits
  | whole hw hne =>
    rw [List.append_assoc]
    exact readAtom_number (readNumber_whole hw hne ends)
  | decimal hw hne hf =>
    rw [List.append_assoc, List.append_assoc]
    exact readAtom_number (readNumber_decimal hw hne hf ends)
  | yes hword => rw [literal (by simp [literalWords, hword]), literalValue, if_pos hword]
  | no hword => rw [literal (by simp [literalWords, hword]), literalValue_of_false hword]
  | nothing hword => rw [literal (by simp [literalWords, hword]), literalValue_of_none hword]
  | var hv =>
    rw [readAtom_name hv.1, readWord_variable hv ends.name,
      readIndex_eq_none (ends.symbol?_eq_none (by decide))]
  | @item name g₁ g₂ digits g₃ hv h₁ h₂ hd hne h₃ =>
    have stops : Stops isNameChar (g₁ ++ '[' :: (g₂ ++ (digits ++ (g₃ ++ ']' :: rest)))) :=
      h₁.stops (by decide)
    simp only [List.append_assoc, List.cons_append, List.nil_append]
    rw [readAtom_name hv.1, readWord_variable hv stops, readIndex_append h₁ h₂ hd hne h₃]
  | call => exact absurd rfl (hp _ _)

/-- A spelling is read whole by every reader whose depth exceeds its length. -/
theorem readNested_complete (depth : Nat) : Complete (readNested (depth + 1)) depth := by
  induction depth with
  | zero =>
    intro cs rest p hl hs
    obtain ⟨c, tail, rfl, -⟩ := hs.starts
    simp at hl
  | succ depth ih =>
    intro cs rest p hl hs ends
    rw [readNested_succ]
    by_cases hp : ∃ callee args, p = .call callee args
    · obtain ⟨callee, args, rfl⟩ := hp
      cases hs with
      | @call name path g inner args hn hpath hg ha =>
        have hl : inner.length ≤ depth := by
          simp only [List.length_append, List.length_cons] at hl
          omega
        simp only [List.append_assoc, List.cons_append, List.nil_append,
          readCall_append (readNested_sound _) ih hn hpath hg ha hl]
    · have hp (callee : String) (args : List (Option String × Phrase)) : p ≠ .call callee args :=
        fun heq => hp ⟨callee, args, heq⟩
      rw [readCall_eq_none fun _ _ => (hs.begins ends).no_call hp]
      exact readAtom_append hs ends hp

theorem readPhrase_sound : Sound readPhrase Spells := fun _ _ _ h => readNested_sound _ h

theorem readPhrase_append {p : Phrase} (h : Spells cs p) (ends : Ends rest) :
    readPhrase (cs ++ rest) = some (p, rest) :=
  readNested_complete _ (by simp) h ends

end

end BrowserAgent.Action
