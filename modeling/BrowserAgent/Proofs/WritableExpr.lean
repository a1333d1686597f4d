import BrowserAgent.Proofs.ArgumentBinding
import BrowserAgent.Proofs.PhraseReaders

/-!
# Writable expressions

An expression can be written on a line exactly if its names may stand for values, its indices are
in bounds, its numbers are the values of literals, and each of its calls has one slot for each
parameter and nothing missing. Written out, every argument has its keyword.
-/

namespace BrowserAgent

open BrowserAgent.Action Number

/-- Expressions that a line can hold. -/
inductive Expr.Writable : Expr → Prop
  | text {value : String} : Writable (.text value)
  | number {negative : Bool} {whole fraction : List Char} : IsDigits whole → whole ≠ [] →
    IsDigits fraction →
    Writable (.number ((Decimal.ofDigits negative whole fraction 0).toBinary double))
  | bool {value : Bool} : Writable (.bool value)
  | nothing : Writable .nothing
  | var {name : String} : IsVariable name.toList → Writable (.var name)
  | item {name : String} {index : Nat} : IsVariable name.toList → index < indexLimit →
    Writable (.item name index)
  | call {op : Operation} {slots : List (Option Expr)} : slots.length = op.params.length →
    (∀ (slot : Nat) (param : Param), op.params[slot]? = some param → param.required = true →
      slots[slot]? ≠ some none) →
    (∀ arg, some arg ∈ slots → Writable arg) → Writable (.call op slots)

/-- Some characters without a line feed spell the expression. -/
def Expr.IsWritten (e : Expr) : Prop :=
  ∃ cs phrase, Spells cs phrase ∧ Means .keywordsLast phrase e ∧ '\n' ∉ cs

/-! ## Atoms -/

section

variable {name digits : List Char}

theorem Action.IsName.no_newline (h : IsName name) : '\n' ∉ name := fun hmem =>
  absurd (h.forall_isNameChar _ hmem) (by decide)

theorem Action.IsDigits.no_newline (h : IsDigits digits) : '\n' ∉ digits := fun hmem =>
  absurd (h _ hmem) (by decide)

/-- How a character of a text is written between double quotes. -/
def Action.Piece.of (c : Char) : Piece :=
  if c = '\n' then .escaped 'n' else if c = '"' ∨ c = '\\' then .escaped c else .plain c

theorem Action.Piece.value_of (c : Char) : (Piece.of c).value = c := by
  unfold Piece.of
  split
  · next h => exact h.symm
  · split
    · next h => rcases h with rfl | rfl <;> rfl
    · rfl

theorem Action.Piece.fits_of (c : Char) : (Piece.of c).Fits '"' := by
  unfold Piece.of
  split
  · trivial
  · split
    · trivial
    · next h => exact ⟨fun hc => h (.inl hc), fun hc => h (.inr hc)⟩

theorem Action.Piece.no_newline_of (c : Char) : '\n' ∉ (Piece.of c).written := by
  unfold Piece.of
  split
  · decide
  · next hc =>
    split
    · next h => rcases h with rfl | rfl <;> decide
    · simpa [Piece.written] using Ne.symm hc

theorem Expr.isWritten_text (value : String) : (Expr.text value).IsWritten := by
  refine ⟨quoted '"' (value.toList.map Piece.of), .text value, ?_, .text, ?_⟩
  · have fits : ∀ p ∈ value.toList.map Piece.of, p.Fits '"' := by
      rintro p hp
      obtain ⟨c, -, rfl⟩ := List.mem_map.mp hp
      exact Piece.fits_of c
    have := Spells.text (.inl rfl) fits
    rwa [List.map_map, funext Piece.value_of (f := Piece.value ∘ Piece.of) (g := id), List.map_id,
      String.ofList_toList] at this
  · simp [quoted, Piece.no_newline_of]

theorem exists_digits (n : Nat) :
    ∃ digits, IsDigits digits ∧ digits ≠ [] ∧ Decimal.digitsValue digits = n := by
  refine ⟨Nat.toDigits 10 n, fun c hc => ?_, Nat.toDigits_ne_nil, ?_⟩
  · exact Nat.isDigit_of_mem_toDigits (by decide) (by decide) hc
  · have := Nat.ofDigitChars_toDigits (b := 10) (n := n) (by decide) (by decide)
    simpa only [Nat.ofDigitChars, Decimal.digitsValue, Nat.mul_comm] using this

end

/-! ## Calls -/

theorem Operation.isName_name (op : Operation) : IsName op.name.toList := by
  cases op <;> decide

theorem Operation.isName_param {op : Operation} :
    ∀ param ∈ op.params, IsName param.name.toList := by
  cases op <;> decide

def filledSlots (slots : List (Option Expr)) : List (Nat × Expr) :=
  (List.range slots.length).filterMap fun slot => (slots[slot]?.join).map (slot, ·)

section

variable {slots : List (Option Expr)} {placed : List (Nat × Expr)} {slot : Nat} {e : Expr}

theorem mem_filledSlots : (slot, e) ∈ filledSlots slots ↔ slots[slot]? = some (some e) := by
  simp only [filledSlots, List.mem_filterMap, List.mem_range, Option.map_eq_some_iff,
    Option.join_eq_some_iff, Prod.mk.injEq]
  constructor
  · rintro ⟨i, -, value, hvalue, rfl, rfl⟩
    exact hvalue
  · intro h
    exact ⟨slot, (List.getElem?_eq_some_iff.mp h).1, e, h, rfl, rfl⟩

theorem nodup_filledSlots : ((filledSlots slots).map Prod.fst).Nodup := by
  have : (filledSlots slots).map Prod.fst =
      (List.range slots.length).filter fun slot => (slots[slot]?.join).isSome := by
    rw [filledSlots, List.map_filterMap, ← List.filterMap_eq_filter]
    refine List.filterMap_congr fun slot _ => ?_
    cases h : slots[slot]?.join <;> simp [Option.guard, h]
  rw [this]
  exact List.nodup_range.filter _

theorem lookup_eq_some_iff_mem (h : (placed.map Prod.fst).Nodup) :
    placed.lookup slot = some e ↔ (slot, e) ∈ placed := by
  induction placed with
  | nil => simp
  | cons found placed ih =>
    obtain ⟨place, value⟩ := found
    rw [List.map_cons, List.nodup_cons] at h
    rw [List.lookup_cons, List.mem_cons, Prod.mk.injEq]
    by_cases hp : slot = place
    · subst hp
      have : (slot, e) ∉ placed := fun hmem => h.1 (List.mem_map.mpr ⟨_, hmem, rfl⟩)
      simp [this, eq_comm]
    · rw [beq_false_of_ne hp]
      simp [ih h.2, hp]

theorem slotsWith_filledSlots : slotsWith slots.length (filledSlots slots) = slots := by
  refine List.ext_getElem (by simp [slotsWith]) fun slot _ hslot => ?_
  simp only [slotsWith, List.getElem_map, List.getElem_range]
  ext e
  rw [lookup_eq_some_iff_mem nodup_filledSlots, mem_filledSlots, List.getElem?_eq_getElem hslot,
    Option.some.injEq]

end

section

variable {cs : List Char} {args : List (Option String × Phrase)} {op : Operation}

theorem Action.SpellsMoreArgs.spellsArgs {E : Spelling Phrase} (h : SpellsMoreArgs E cs args) :
    ∃ inner, SpellsArgs E inner args ∧ inner <:+ cs := by
  cases h with
  | nil hg => exact ⟨cs, .nil hg, List.suffix_rfl⟩
  | @cons g₁ g₂ cs more arg args h₁ h₂ harg hmore =>
    exact ⟨g₂ ++ (cs ++ more), .cons h₂ harg hmore, g₁ ++ [','], by simp⟩

/-- Values that are written make arguments, each with the keyword of its place. -/
theorem exists_keywordArgs {placed : List (Nat × Expr)}
    (h : ∀ found ∈ placed, found.1 < op.params.length ∧ found.2.IsWritten) :
    ∃ cs args, SpellsMoreArgs Spells cs args ∧ '\n' ∉ cs ∧
      (∀ key ∈ args.map (·.1), key.isSome = true) ∧
      List.Forall₂ (Means .keywordsLast) (args.map (·.2)) (placed.map Prod.snd) ∧
      Places op 0 (args.map (·.1)) (placed.map Prod.fst) := by
  induction placed with
  | nil => exact ⟨[], [], .nil isGap_nil, by simp, by simp, .nil, .nil⟩
  | cons found placed ih =>
    obtain ⟨slot, e⟩ := found
    obtain ⟨⟨hslot, cs, phrase, hs, hm, hcs⟩, hplaced⟩ := List.forall_mem_cons.mp h
    obtain ⟨more, args, hmore, hnewline, hkeys, hvalues, hplaces⟩ := ih hplaced
    have hname := op.isName_param op.params[slot] (List.getElem_mem hslot)
    have harg := SpellsArg.keyword hname isGap_nil isGap_nil hs
    rw [String.ofList_toList] at harg
    refine ⟨_, _, .cons isGap_nil isGap_nil harg hmore, ?_, ?_, hvalues.cons hm,
      .keyword (List.getElem?_eq_getElem hslot) hplaces⟩
    · simp [hname.no_newline, hcs, hnewline]
    · simpa using hkeys

theorem Expr.isWritten_call {slots : List (Option Expr)} (hlen : slots.length = op.params.length)
    (filled : ∀ (slot : Nat) (param : Param), op.params[slot]? = some param →
      param.required = true → slots[slot]? ≠ some none)
    (written : ∀ arg, some arg ∈ slots → arg.IsWritten) : (Expr.call op slots).IsWritten := by
  have each : ∀ found ∈ filledSlots slots, found.1 < op.params.length ∧ found.2.IsWritten := by
    rintro ⟨slot, e⟩ hfound
    obtain ⟨hslot, hget⟩ := List.getElem?_eq_some_iff.mp (mem_filledSlots.mp hfound)
    exact ⟨hlen ▸ hslot, written e (hget ▸ List.getElem_mem hslot)⟩
  obtain ⟨cs, args, hs, hnewline, hkeys, hvalues, hplaces⟩ := exists_keywordArgs each
  obtain ⟨inner, hinner, hsuffix⟩ := hs.spellsArgs
  refine ⟨_, _, .call op.isName_name .nil isGap_nil hinner, .call (.inl ?_) (.inr ?_) hvalues
    ⟨⟨_, hplaces, nodup_filledSlots, ?_⟩, filled⟩, ?_⟩
  · simp
  · exact List.pairwise_of_forall_mem_list fun _ _ key hkey _ => hkeys key hkey
  · rw [← List.zip_of_prod rfl rfl, ← hlen, slotsWith_filledSlots]
  · have : '\n' ∉ inner := fun h => hnewline (hsuffix.subset h)
    simp [op.isName_name.no_newline, this]

theorem Expr.Writable.isWritten {e : Expr} (h : e.Writable) : e.IsWritten := by
  induction h with
  | @text value => exact isWritten_text value
  | @number negative whole fraction hw hne hf =>
    refine ⟨_, _, .decimal hw hne hf, .number, ?_⟩
    cases negative <;> simp [signOf, hw.no_newline, hf.no_newline]
  | @bool value =>
    cases value with
    | true => exact ⟨_, _, @Spells.yes "true" (by decide), .bool, by decide⟩
    | false => exact ⟨_, _, @Spells.no "false" (by decide), .bool, by decide⟩
  | nothing => exact ⟨_, _, @Spells.nothing "none" (by decide), .nothing, by decide⟩
  | var hv => exact ⟨_, _, .var hv, by rw [String.ofList_toList]; exact .var, hv.1.no_newline⟩
  | @item name index hv hindex =>
    obtain ⟨digits, hd, hne, rfl⟩ := exists_digits index
    refine ⟨_, _, .item hv isGap_nil isGap_nil hd hne isGap_nil, ?_, ?_⟩
    · rw [String.ofList_toList]
      exact .item hindex
    · simp [hv.1.no_newline, hd.no_newline]
  | call hlen filled _ ih => exact isWritten_call hlen filled ih

/-- What is written can be written: nothing else comes out of a spelling. -/
theorem Action.Spells.writable {order : ArgOrder} {phrase : Phrase} {e : Expr}
    (hs : Spells cs phrase) (hm : Means order phrase e) : e.Writable := by
  induction phrase using Phrase.induction generalizing cs e with
  | call callee args ih =>
    cases hm with
    | call hop horder hvalues hbound =>
      cases hs with
      | call _ _ _ hargs =>
        refine .call hbound.length_eq hbound.filled fun e he => ?_
        obtain ⟨found, hfound, hmeans⟩ := (Means.call hop horder hvalues hbound).arg he
        obtain ⟨part, hpart, -⟩ := hargs.part found hfound
        exact ih found hfound hpart hmeans
  | other phrase hp =>
    cases hs with
    | text _ _ => cases hm; exact .text
    | whole hw hne => cases hm; exact .number hw hne (by simp [IsDigits])
    | decimal hw hne hf => cases hm; exact .number hw hne hf
    | yes _ => cases hm; exact .bool
    | no _ => cases hm; exact .bool
    | nothing _ => cases hm; exact .nothing
    | var hv => cases hm; exact .var (by rwa [String.toList_ofList])
    | item hv =>
      cases hm with
      | item hindex => exact .item (by rwa [String.toList_ofList]) hindex
    | call _ _ _ _ => exact absurd rfl (hp _ _)

end

end BrowserAgent
