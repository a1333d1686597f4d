import BrowserAgent.Proofs.SlotAssignment

/-!
# Places of arguments

A call, however deep in other calls, with a place for one of its arguments. Either no expression may
be written there, or every expression may: then it is in one slot of that call, and nothing else
depends on it.
-/

namespace BrowserAgent

namespace Action

/-! ## Spellings with a place -/

/-- The arguments before another one, with the comma after each. -/
inductive SpellsEarlierArgs : Spelling (List (Option String × Phrase))
  | nil {g : List Char} : IsGap g → SpellsEarlierArgs g []
  | concat {before cs g₁ g₂ : List Char} {args : List (Option String × Phrase)}
    {arg : Option String × Phrase} : SpellsEarlierArgs before args → SpellsArg Spells cs arg →
    IsGap g₁ → IsGap g₂ →
    SpellsEarlierArgs (before ++ (cs ++ (g₁ ++ ',' :: g₂))) (args ++ [arg])

/-- The keyword of an argument, if it has one, with the equals sign. -/
inductive SpellsKeyword : Spelling (Option String)
  | none : SpellsKeyword [] none
  | some {key g₁ g₂ : List Char} : IsName key → IsGap g₁ → IsGap g₂ →
    SpellsKeyword (key ++ (g₁ ++ '=' :: g₂)) (some (String.ofList key))

/-- What stands before and behind the place of an argument, and the call with a phrase there. -/
inductive ArgumentPlace : List Char → List Char → (Phrase → Phrase) → Prop
  | call {name path g before start behind : List Char} {key : Option String}
    {args more : List (Option String × Phrase)} : IsName name → IsPath path → IsGap g →
    SpellsEarlierArgs before args → SpellsKeyword start key → SpellsMoreArgs Spells behind more →
    ArgumentPlace (name ++ (path ++ (g ++ '(' :: (before ++ start)))) (behind ++ [')'])
      fun p => .call (String.ofList (name ++ path)) (args ++ (key, p) :: more)
  | within {before before' behind behind' : List Char} {outer inner : Phrase → Phrase} :
    ArgumentPlace before behind outer → ArgumentPlace before' behind' inner →
    ArgumentPlace (before ++ before') (behind' ++ behind) (outer ∘ inner)

section

variable {before behind start cs : List Char} {args : List (Option String × Phrase)}
  {key : Option String} {p : Phrase}

theorem SpellsKeyword.arg (h : SpellsKeyword start key) (hs : Spells cs p) :
    SpellsArg Spells (start ++ cs) (key, p) := by
  cases h with
  | none => exact .positional hs
  | some hk h₁ h₂ =>
    rw [List.append_assoc, List.append_assoc, List.cons_append]
    exact .keyword hk h₁ h₂ hs

theorem SpellsEarlierArgs.spells (h : SpellsEarlierArgs before args)
    {arg : Option String × Phrase} {more : List (Option String × Phrase)}
    (ha : SpellsArg Spells cs arg) (hm : SpellsMoreArgs Spells behind more) :
    SpellsArgs Spells (before ++ (cs ++ behind)) (args ++ arg :: more) := by
  induction h generalizing cs arg behind more with
  | nil hg => exact .cons hg ha hm
  | concat _ harg h₁ h₂ ih =>
    have later := ih harg (.cons h₁ h₂ ha hm)
    simpa using later

theorem ArgumentPlace.spells {f : Phrase → Phrase} (h : ArgumentPlace before behind f)
    (hs : Spells cs p) : Spells (before ++ (cs ++ behind)) (f p) := by
  induction h generalizing cs p with
  | call hn hp hg he hk hm =>
    have inner := he.spells (hk.arg hs) hm
    have whole := Spells.call hn hp hg inner
    simpa using whole
  | within _ _ outer inner =>
    have whole := outer (inner hs)
    simpa using whole

end

end Action

open BrowserAgent.Action

/-! ## Slots -/

/-- Puts an expression into a slot of a call, which may be in a slot of another call. -/
inductive Expr.IsSlot : (Expr → Expr) → Prop
  | call {op : Operation} {slots : List (Option Expr)} {slot : Nat} : slot < slots.length →
    IsSlot fun e => .call op (slots.set slot (some e))
  | within {outer inner : Expr → Expr} : IsSlot outer → IsSlot inner → IsSlot (outer ∘ inner)

section

variable {places : List Nat} {values : List Expr} {slot i n : Nat} {e : Expr}
  (nodup : places.Nodup) (hi : i < values.length) (hslot : places[i]? = some slot)

include nodup hi hslot

theorem lookup_zip_set (other : Nat) :
    (places.zip (values.set i e)).lookup other =
      if other = slot then some e else (places.zip values).lookup other := by
  induction places generalizing values i with
  | nil => simp at hslot
  | cons place places ih =>
    obtain ⟨new, nodup⟩ := List.nodup_cons.mp nodup
    cases values with
    | nil => cases hi
    | cons value values =>
      cases i with
      | zero =>
        obtain rfl : place = slot := by simpa using hslot
        rw [List.set_cons_zero, List.zip_cons_cons, List.zip_cons_cons, List.lookup_cons,
          List.lookup_cons]
        by_cases heq : other = place
        · simp [heq]
        · simp [heq, beq_false_of_ne heq]
      | succ i =>
        have apart : place ≠ slot := fun heq => new (heq ▸ List.mem_of_getElem? hslot)
        have later := ih nodup (Nat.lt_of_succ_lt_succ hi) hslot
        rw [List.set_cons_succ, List.zip_cons_cons, List.zip_cons_cons, List.lookup_cons,
          List.lookup_cons, later]
        by_cases heq : other = place
        · simp [heq, apart]
        · simp [beq_false_of_ne heq]

theorem slotsWith_zip_set :
    slotsWith n (places.zip (values.set i e)) =
      (slotsWith n (places.zip values)).set slot (some e) := by
  refine List.ext_getElem? fun other => ?_
  by_cases h : other < n
  · rw [getElem?_slotsWith h, lookup_zip_set nodup hi hslot, List.getElem?_set,
      getElem?_slotsWith h]
    by_cases heq : slot = other
    · simp [heq, slotsWith, h]
    · simp [heq, Ne.symm heq]
  · rw [List.getElem?_eq_none, List.getElem?_eq_none] <;> simpa [slotsWith] using h

end

section

variable {callee : String} {args more : List (Option String × Phrase)} {key : Option String}
  {p : Phrase} {e : Expr} {values : List Expr}

theorem Phrase.Values.set {p' : Phrase} (h : Phrase.Values (args ++ (key, p) :: more) values)
    (he : p'.toExpr = .ok e) :
    Phrase.Values (args ++ (key, p') :: more) (values.set args.length e) := by
  induction args generalizing values with
  | nil =>
    obtain _ | ⟨-, rest⟩ := h
    exact .cons he rest
  | cons arg args ih =>
    obtain _ | ⟨first, rest⟩ := h
    exact .cons first (ih rest)

/-- A call that is read with some argument is read with every other there, in the same slot. -/
theorem Phrase.exists_slot (h : (Phrase.call callee (args ++ (key, p) :: more)).toExpr = .ok e) :
    ∃ put, Expr.IsSlot put ∧ ∀ p' e', p'.toExpr = .ok e' →
      (Phrase.call callee (args ++ (key, p') :: more)).toExpr = .ok (put e') := by
  obtain ⟨op, slots, called, ⟨values, read, order, bound⟩, -⟩ := toExpr_call_eq_ok_iff.mp h
  obtain ⟨places, hp, nodup, hslots⟩ := bound.placed
  have count : (args ++ (key, p) :: more).length = values.length := List.Forall₂.length_eq read
  have inside : args.length < values.length := by
    rw [← count, List.length_append, List.length_cons]
    omega
  have inside' : args.length < places.length := by
    rwa [hp.length_eq, List.length_map, count]
  have hslot : places[args.length]? = some places[args.length] := List.getElem?_eq_getElem inside'
  have room : places[args.length] < slots.length := by
    rw [bound.length_eq]
    exact hp.lt (Nat.zero_le _) _ (List.getElem_mem inside')
  refine ⟨_, @Expr.IsSlot.call op _ _ room, fun p' e' he => ?_⟩
  -- The keys alone decide the places, and they are the same with the other argument.
  have keys : (args ++ (key, p') :: more).map (·.1) = (args ++ (key, p) :: more).map (·.1) := by
    simp
  have read' := Phrase.Values.set read he
  refine toExpr_call_eq_ok_iff.mpr ⟨op, _, called, ⟨_, read', keys ▸ order, ?_⟩, rfl⟩
  refine ⟨⟨places, keys ▸ hp, nodup, ?_⟩, fun slot param hparam required => ?_⟩
  · rw [hslots]
    exact (slotsWith_zip_set nodup inside hslot).symm
  · rw [List.getElem?_set]
    split
    · simp
    · exact bound.filled slot param hparam required

/-- Either nothing is read at the place, or every expression is, in one slot. -/
theorem Action.ArgumentPlace.slot {before behind : List Char} {f : Phrase → Phrase}
    (h : ArgumentPlace before behind f) :
    (∀ p e, (f p).toExpr ≠ .ok e) ∨
      ∃ put, Expr.IsSlot put ∧ ∀ p e,
        (f p).toExpr = .ok e ↔ ∃ value, p.toExpr = .ok value ∧ put value = e := by
  induction h with
  | @call name path _ _ _ _ key args more =>
    by_cases some : ∃ p e,
        (Phrase.call (String.ofList (name ++ path)) (args ++ (key, p) :: more)).toExpr = .ok e
    · obtain ⟨p, e, h⟩ := some
      obtain ⟨put, slot, reads⟩ := Phrase.exists_slot h
      refine .inr ⟨put, slot, fun p' e' => ⟨fun h' => ?_, ?_⟩⟩
      · obtain ⟨_, _, _, ⟨values, read, -⟩, -⟩ := toExpr_call_eq_ok_iff.mp h'
        obtain ⟨value, -, hvalue⟩ := Phrase.Values.of_mem read (key, p') (by simp)
        have same := reads p' value hvalue
        exact ⟨value, hvalue, Except.ok.inj (same.symm.trans h')⟩
      · rintro ⟨value, hvalue, rfl⟩
        exact reads p' value hvalue
    · exact .inl fun p e h => some ⟨p, e, h⟩
  | @within _ _ _ _ outer inner _ _ ihOuter ihInner =>
    obtain never | ⟨put, slot, reads⟩ := ihOuter
    · exact .inl fun p => never (inner p)
    · obtain never | ⟨put', slot', reads'⟩ := ihInner
      · refine .inl fun p e h => ?_
        obtain ⟨value, hvalue, -⟩ := (reads _ _).mp h
        exact never p value hvalue
      · refine .inr ⟨put ∘ put', .within slot slot', fun p e => ?_⟩
        rw [Function.comp_apply, reads]
        constructor
        · rintro ⟨value, hvalue, rfl⟩
          obtain ⟨value', hvalue', rfl⟩ := (reads' _ _).mp hvalue
          exact ⟨value', hvalue', rfl⟩
        · rintro ⟨value, hvalue, rfl⟩
          exact ⟨put' value, (reads' _ _).mpr ⟨value, hvalue, rfl⟩, rfl⟩

end

end BrowserAgent
