import BrowserAgent.Action.Expr
import Mathlib.Data.List.Forall2
import Mathlib.Data.List.Nodup

/-!
# Arguments and their slots

What an expression as it is written means: a call means one of an operation whose slots hold the
values of the arguments. Said without filling slots one after the other: every argument has a slot,
by its keyword or by its position, no two have the same, and no required slot is empty. Reading
also asks that no positional argument stands after a keyword one.
-/

namespace BrowserAgent

open Number

/-! ## Operations by name -/

namespace Operation

theorem ofName?_eq_some_iff {name : String} {op : Operation} :
    ofName? name = some op ↔ name = op.name := by
  constructor
  · intro h
    rw [ofName?] at h
    have named := List.find?_some h
    exact (beq_iff_eq.mp named).symm
  · rintro rfl
    cases op <;> rfl

/-- The callee names the operation, perhaps after one `env.`. -/
def IsCalled (op : Operation) (callee : String) : Prop :=
  callee = op.name ∨ callee = "env." ++ op.name

theorem ofCallee?_eq_some_iff {callee : String} {op : Operation} :
    ofCallee? callee = some op ↔ op.IsCalled callee := by
  have bare : Text.startsWith "env." op.name = false := by cases op <;> decide
  rw [ofCallee?, ofName?_eq_some_iff, IsCalled, Text.dropStart?]
  by_cases h : Text.startsWith "env." callee = true
  · obtain ⟨rest, hrest⟩ := List.isPrefixOf_iff_prefix.mp h
    have hne : callee ≠ op.name := by
      rintro rfl
      rw [bare] at h
      cases h
    have hcallee : callee = "env." ++ String.ofList rest := by
      rw [← String.toList_inj, ← hrest, String.toList_append, String.toList_ofList (l := rest)]
    rw [if_pos h, Option.getD_some, ← hrest, List.drop_left, or_iff_right hne, hcallee,
      String.append_right_inj]
  · rw [if_neg h, Option.getD_none]
    refine ⟨.inl, ?_⟩
    rintro (rfl | rfl)
    · rfl
    · refine absurd ?_ h
      rw [Text.startsWith, List.isPrefixOf_iff_prefix, String.toList_append]
      exact List.prefix_append _ _

theorem nodup_params (op : Operation) : (op.params.map (·.name)).Nodup := by
  cases op <;> decide

theorem findIdx?_params_eq_some_iff {op : Operation} {key : String} {slot : Nat} :
    (op.params.findIdx? fun param => param.name == key) = some slot ↔
      ∃ param, op.params[slot]? = some param ∧ param.name = key := by
  rw [List.findIdx?_eq_some_iff_getElem]
  constructor
  · rintro ⟨hslot, hname, -⟩
    exact ⟨op.params[slot], List.getElem?_eq_getElem hslot, beq_iff_eq.mp hname⟩
  · rintro ⟨param, hparam, rfl⟩
    obtain ⟨hslot, rfl⟩ := List.getElem?_eq_some_iff.mp hparam
    refine ⟨hslot, beq_self_eq_true _, fun earlier hlt hname => ?_⟩
    -- No two parameters have the same name, so the first of the name is the only one.
    have later : slot < (op.params.map (·.name)).length := by rwa [List.length_map]
    have sooner : earlier < (op.params.map (·.name)).length := Nat.lt_trans hlt later
    have same : (op.params.map (·.name))[earlier] = (op.params.map (·.name))[slot] := by
      simpa using hname
    exact Nat.ne_of_lt hlt ((op.nodup_params.getElem_inj_iff).mp same)

end Operation

/-! ## Slots -/

/-- Whether a positional argument may stand after a keyword argument. -/
inductive ArgOrder where
  | free
  | keywordsLast
deriving DecidableEq, Repr

/-- Arguments with these keywords, or none, may stand in a row. -/
def ArgOrder.Allows (order : ArgOrder) (keys : List (Option String)) : Prop :=
  order = .free ∨ keys.Pairwise fun earlier later => earlier.isSome = true → later.isSome = true

/-- The slots of arguments with the given keywords, where so many positional arguments stand
before them: that of the parameter with the name, or the next position. -/
inductive Places (op : Operation) : Nat → List (Option String) → List Nat → Prop
  | nil {taken : Nat} : Places op taken [] []
  | position {taken : Nat} {keys : List (Option String)} {places : List Nat} :
    taken < op.params.length → Places op (taken + 1) keys places →
    Places op taken (none :: keys) (taken :: places)
  | keyword {taken slot : Nat} {param : Param} {keys : List (Option String)} {places : List Nat} :
    op.params[slot]? = some param → Places op taken keys places →
    Places op taken (some param.name :: keys) (slot :: places)

/-- The values in their slots; every other slot is empty. -/
def slotsWith (n : Nat) (placed : List (Nat × Expr)) : List (Option Expr) :=
  (List.range n).map fun slot => placed.lookup slot

/-- Arguments with the keywords and values fill the slots of the operation. -/
structure Bound (op : Operation) (keys : List (Option String)) (values : List Expr)
    (slots : List (Option Expr)) : Prop where
  /-- None is unknown, in excess or given twice. -/
  placed : ∃ places, Places op 0 keys places ∧ places.Nodup ∧
    slots = slotsWith op.params.length (places.zip values)
  /-- None is missing. -/
  filled : ∀ (slot : Nat) (param : Param), op.params[slot]? = some param → param.required = true →
    slots[slot]? ≠ some none

/-- What a phrase means. -/
inductive Means (order : ArgOrder) : Phrase → Expr → Prop
  | text {value : String} : Means order (.text value) (.text value)
  | number {literal : Decimal} : Means order (.number literal) (.number (literal.toBinary double))
  | bool {value : Bool} : Means order (.bool value) (.bool value)
  | nothing : Means order .nothing .nothing
  | var {name : String} : Means order (.var name) (.var name)
  | item {name : String} {index : Nat} : index < indexLimit →
    Means order (.item name index) (.item name index)
  | call {callee : String} {op : Operation} {args : List (Option String × Phrase)}
    {values : List Expr} {slots : List (Option Expr)} :
    op.IsCalled callee → order.Allows (args.map (·.1)) →
    List.Forall₂ (Means order) (args.map (·.2)) values →
    Bound op (args.map (·.1)) values slots →
    Means order (.call callee args) (.call op slots)

theorem Bound.length_eq {op : Operation} {keys : List (Option String)} {values : List Expr}
    {slots : List (Option Expr)} (h : Bound op keys values slots) :
    slots.length = op.params.length := by
  obtain ⟨places, -, -, rfl⟩ := h.placed
  rw [slotsWith, List.length_map, List.length_range]

theorem Bound.mem_values {op : Operation} {keys : List (Option String)} {values : List Expr}
    {slots : List (Option Expr)} (h : Bound op keys values slots) {e : Expr}
    (he : some e ∈ slots) : e ∈ values := by
  obtain ⟨places, -, -, rfl⟩ := h.placed
  obtain ⟨slot, -, hslot⟩ := List.mem_map.mp he
  obtain ⟨before, later, heq, -⟩ := List.lookup_eq_some_iff.mp hslot
  have : (slot, e) ∈ places.zip values := by rw [heq]; simp
  exact (List.of_mem_zip this).2

theorem Means.arg {order : ArgOrder} {callee : String} {op : Operation}
    {args : List (Option String × Phrase)} {slots : List (Option Expr)}
    (h : Means order (.call callee args) (.call op slots)) {e : Expr} (he : some e ∈ slots) :
    ∃ arg ∈ args, Means order arg.2 e := by
  cases h with
  | @call _ _ _ values _ _ _ hvalues hbound =>
    obtain ⟨i, hi, rfl⟩ := List.getElem_of_mem (hbound.mem_values he)
    have hi' : i < args.length := by rwa [← List.length_map (f := (·.2)), hvalues.length_eq]
    refine ⟨args[i], List.getElem_mem hi', ?_⟩
    simpa using hvalues.get (by rwa [List.length_map]) hi

/-! ## Filling slots one after the other -/

def IsEmptySlot (slots : List (Option Expr)) (slot : Nat) : Prop := (slots[slot]?).bind id = none

def fill (slots : List (Option Expr)) (placed : List (Nat × Expr)) : List (Option Expr) :=
  placed.foldl (fun slots found => slots.set found.1 (some found.2)) slots

section

variable {op : Operation} {slots final : List (Option Expr)} {placed : List (Nat × Expr)}
  {taken slot : Nat} {after : Bool} {keys : List (Option String)} {values : List Expr}
  {args : List (Option String × Phrase)}

theorem getElem?_fill (hp : (placed.map Prod.fst).Nodup) {i : Nat} (hi : i < slots.length) :
    (fill slots placed)[i]? = some ((placed.lookup i).or (slots[i])) := by
  induction placed generalizing slots with
  | nil => simp [fill, hi]
  | cons found placed ih =>
    obtain ⟨place, value⟩ := found
    rw [List.map_cons, List.nodup_cons] at hp
    have hlen : i < (slots.set place (some value)).length := by rwa [List.length_set]
    rw [fill, List.foldl_cons, ← fill, ih hp.2 hlen, List.lookup_cons, List.getElem_set]
    by_cases h : place = i
    · subst h
      have none : placed.lookup place = none := by
        rw [List.lookup_eq_none_iff]
        intro found hfound
        exact bne_iff_ne.mpr fun heq => hp.1 (List.mem_map.mpr ⟨found, hfound, heq.symm⟩)
      simp [none]
    · rw [if_neg h, beq_false_of_ne (Ne.symm h)]

theorem length_fill : (fill slots placed).length = slots.length := by
  induction placed generalizing slots with
  | nil => rfl
  | cons found placed ih => rw [fill, List.foldl_cons, ← fill, ih, List.length_set]

theorem fill_replicate {n : Nat} (hp : (placed.map Prod.fst).Nodup) :
    fill (List.replicate n none) placed = slotsWith n placed := by
  apply List.ext_getElem?
  intro i
  by_cases hi : i < n
  · rw [getElem?_fill hp (by rwa [List.length_replicate])]
    simp [slotsWith, hi]
  · rw [List.getElem?_eq_none (by rw [length_fill, List.length_replicate]; omega),
      List.getElem?_eq_none (by rw [slotsWith, List.length_map, List.length_range]; omega)]

theorem slotFor_keyword {key : String} :
    slotFor op slots taken after (some key) = .ok slot ↔
      (∃ param, op.params[slot]? = some param ∧ param.name = key) ∧ IsEmptySlot slots slot := by
  rw [← Operation.findIdx?_params_eq_some_iff, slotFor]
  cases op.params.findIdx? fun param => param.name == key with
  | none => simp
  | some found =>
    by_cases h : found = slot
    · subst h
      simp [IsEmptySlot]
    · simp only [Option.some.injEq, h, false_and, iff_false]
      split <;> simp [h]

theorem slotFor_position :
    slotFor op slots taken after none = .ok slot ↔
      after = false ∧ taken < op.params.length ∧ slot = taken := by
  cases after with
  | true => simp [slotFor]
  | false =>
    by_cases h : op.params.length ≤ taken
    · simp [slotFor, h, Nat.not_lt.mpr h]
    · simp [slotFor, h, Nat.not_le.mp h, eq_comm]

/-- The arguments with the keywords and values, left to right, take empty slots each. -/
structure Fills (op : Operation) (slots : List (Option Expr)) (taken : Nat) (after : Bool)
    (keys : List (Option String)) (values : List Expr) (final : List (Option Expr)) : Prop where
  order : ArgOrder.keywordsLast.Allows keys
  keyword : after = true → ∀ key ∈ keys, key.isSome = true
  placed : ∃ places, Places op taken keys places ∧ places.Nodup ∧
    (∀ slot ∈ places, IsEmptySlot slots slot) ∧ final = fill slots (places.zip values)

theorem allows_keywordsLast :
    ArgOrder.keywordsLast.Allows keys ↔
      keys.Pairwise fun earlier later => earlier.isSome = true → later.isSome = true := by
  simp [ArgOrder.Allows]

theorem isEmptySlot_set {i : Nat} {value : Expr} (hslot : slot < slots.length) :
    IsEmptySlot (slots.set slot (some value)) i ↔ slot ≠ i ∧ IsEmptySlot slots i := by
  rw [IsEmptySlot, List.getElem?_set]
  by_cases h : slot = i
  · simp [h, h ▸ hslot]
  · simp [h, IsEmptySlot]

theorem Fills.nil_iff :
    Fills op slots taken after [] values final ↔ final = slots := by
  constructor
  · rintro ⟨-, -, places, hp, -, -, rfl⟩
    cases hp
    rfl
  · rintro rfl
    exact ⟨allows_keywordsLast.mpr .nil, by simp, [], .nil, .nil, by simp, rfl⟩

/-- A positional argument takes the next position, unless a keyword was given before. -/
theorem Fills.position_iff {value : Expr} (hlen : slots.length = op.params.length)
    (hfree : after = false → ∀ i, taken ≤ i → IsEmptySlot slots i) :
    Fills op slots taken after (none :: keys) (value :: values) final ↔
      after = false ∧ taken < op.params.length ∧
        Fills op (slots.set taken (some value)) (taken + 1) after keys values final := by
  constructor
  · rintro ⟨horder, hkey, places, hp, hnodup, hempty, rfl⟩
    have hafter : after = false := by
      cases after with
      | false => rfl
      | true => exact absurd (hkey rfl none List.mem_cons_self) (by decide)
    cases hp with
    | @position _ _ places htaken hp =>
      rw [List.nodup_cons] at hnodup
      refine ⟨hafter, htaken, ?_, ?_, places, hp, hnodup.2, ?_, rfl⟩
      · exact allows_keywordsLast.mpr (allows_keywordsLast.mp horder).of_cons
      · simp [hafter]
      · intro slot hslot
        rw [isEmptySlot_set (hlen ▸ htaken)]
        exact ⟨fun h => hnodup.1 (h ▸ hslot), hempty slot (List.mem_cons_of_mem _ hslot)⟩
  · rintro ⟨hafter, htaken, horder, hkey, places, hp, hnodup, hempty, rfl⟩
    simp only [isEmptySlot_set (hlen ▸ htaken)] at hempty
    refine ⟨?_, by simp [hafter], taken :: places, .position htaken hp, ?_, ?_, rfl⟩
    · exact allows_keywordsLast.mpr ((allows_keywordsLast.mp horder).cons (by simp))
    · exact hnodup.cons fun h => (hempty taken h).1 rfl
    · rintro i (_ | ⟨_, hi⟩)
      · exact hfree hafter taken (Nat.le_refl _)
      · exact (hempty i hi).2

/-- A keyword argument takes the slot of its parameter, and only keyword arguments follow it. -/
theorem Fills.keyword_iff {key : String} {value : Expr} (hlen : slots.length = op.params.length) :
    Fills op slots taken after (some key :: keys) (value :: values) final ↔
      ∃ slot, ((∃ param, op.params[slot]? = some param ∧ param.name = key) ∧
          IsEmptySlot slots slot) ∧
        Fills op (slots.set slot (some value)) taken true keys values final := by
  constructor
  · rintro ⟨horder, -, places, hp, hnodup, hempty, rfl⟩
    cases hp with
    | @keyword _ slot param _ places hparam hp =>
      rw [List.nodup_cons] at hnodup
      rw [allows_keywordsLast, List.pairwise_cons] at horder
      have hslot : slot < slots.length := hlen ▸ (List.getElem?_eq_some_iff.mp hparam).1
      refine ⟨slot, ⟨⟨param, hparam, rfl⟩, hempty slot List.mem_cons_self⟩,
        allows_keywordsLast.mpr horder.2, fun _ key hk => horder.1 key hk rfl, places, hp,
        hnodup.2, ?_, rfl⟩
      intro i hi
      rw [isEmptySlot_set hslot]
      exact ⟨fun h => hnodup.1 (h ▸ hi), hempty i (List.mem_cons_of_mem _ hi)⟩
  · rintro ⟨slot, ⟨⟨param, hparam, rfl⟩, hslot⟩, horder, hkey, places, hp, hnodup, hempty, rfl⟩
    have hlt : slot < slots.length := hlen ▸ (List.getElem?_eq_some_iff.mp hparam).1
    simp only [isEmptySlot_set hlt] at hempty
    refine ⟨?_, ?_, slot :: places, .keyword hparam hp, ?_, ?_, rfl⟩
    · exact allows_keywordsLast.mpr
        ((allows_keywordsLast.mp horder).cons fun key hk _ => hkey rfl key hk)
    · simpa using fun _ => hkey rfl
    · exact hnodup.cons fun h => (hempty slot h).1 rfl
    · rintro i (_ | ⟨_, hi⟩)
      · exact hslot
      · exact (hempty i hi).2

theorem Fills.cons_iff {key : Option String} {value : Expr}
    (hlen : slots.length = op.params.length)
    (hfree : after = false → ∀ i, taken ≤ i → IsEmptySlot slots i) :
    Fills op slots taken after (key :: keys) (value :: values) final ↔
      ∃ slot, slotFor op slots taken after key = .ok slot ∧
        Fills op (slots.set slot (some value)) (if key.isSome then taken else taken + 1)
          (after || key.isSome) keys values final := by
  cases key with
  | none =>
    simp only [slotFor_position, Option.isSome_none, Bool.or_false, Fills.position_iff hlen hfree]
    constructor
    · rintro ⟨hafter, htaken, h⟩
      exact ⟨taken, ⟨hafter, htaken, rfl⟩, h⟩
    · rintro ⟨_, ⟨hafter, htaken, rfl⟩, h⟩
      exact ⟨hafter, htaken, h⟩
  | some key =>
    simp only [slotFor_keyword, Option.isSome_some, Bool.or_true, if_true, Fills.keyword_iff hlen]

theorem fillSlots_cons_eq_ok_iff {key : Option String} {phrase : Phrase} :
    Phrase.fillSlots op ((key, phrase) :: args) slots taken after = .ok final ↔
      ∃ slot, slotFor op slots taken after key = .ok slot ∧
        ∃ value, phrase.toExpr = .ok value ∧
          Phrase.fillSlots op args (slots.set slot (some value))
            (if key.isSome then taken else taken + 1) (after || key.isSome) = .ok final := by
  rw [Phrase.fillSlots]
  cases slotFor op slots taken after key with
  | error cause => simp [bind, Except.bind]
  | ok slot =>
    cases phrase.toExpr with
    | error cause => simp [bind, Except.bind]
    | ok value => simp [bind, Except.bind]

theorem empty_of_slotFor {key : Option String} (value : Expr)
    (hlen : slots.length = op.params.length)
    (hfree : after = false → ∀ i, taken ≤ i → IsEmptySlot slots i)
    (h : slotFor op slots taken after key = .ok slot) (hkey : (after || key.isSome) = false) :
    ∀ i, (if key.isSome then taken else taken + 1) ≤ i →
      IsEmptySlot (slots.set slot (some value)) i := by
  cases key with
  | some key => simp at hkey
  | none =>
    obtain ⟨hafter, htaken, rfl⟩ := slotFor_position.mp h
    intro i (hi : slot + 1 ≤ i)
    rw [isEmptySlot_set (hlen ▸ htaken)]
    exact ⟨Nat.ne_of_lt hi, hfree hafter i (Nat.le_of_succ_le hi)⟩

theorem fillSlots_eq_ok_iff (hlen : slots.length = op.params.length)
    (hfree : after = false → ∀ i, taken ≤ i → IsEmptySlot slots i) :
    Phrase.fillSlots op args slots taken after = .ok final ↔
      ∃ values, List.Forall₂ (fun arg value => Phrase.toExpr arg.2 = .ok value) args values ∧
        Fills op slots taken after (args.map (·.1)) values final := by
  induction args generalizing slots taken after with
  | nil => simp [Phrase.fillSlots, Fills.nil_iff, eq_comm]
  | cons arg args ih =>
    obtain ⟨key, phrase⟩ := arg
    rw [fillSlots_cons_eq_ok_iff]
    constructor
    · rintro ⟨slot, hslot, value, hvalue, hmore⟩
      have := ih (List.length_set.trans hlen) (empty_of_slotFor value hlen hfree hslot)
      obtain ⟨values, hvalues, hfills⟩ := this.mp hmore
      exact ⟨value :: values, hvalues.cons hvalue,
        (Fills.cons_iff hlen hfree).mpr ⟨slot, hslot, hfills⟩⟩
    · rintro ⟨values, hvalues, hfills⟩
      obtain ⟨value, values, hvalue, hmore, rfl⟩ := List.forall₂_cons_left_iff.mp hvalues
      obtain ⟨slot, hslot, hfills⟩ := (Fills.cons_iff hlen hfree).mp hfills
      have := ih (List.length_set.trans hlen) (empty_of_slotFor value hlen hfree hslot)
      exact ⟨slot, hslot, value, hvalue, this.mpr ⟨values, hmore, hfills⟩⟩

theorem Places.length_eq {places : List Nat} (h : Places op taken keys places) :
    places.length = keys.length := by
  induction h with
  | nil => rfl
  | position _ _ ih => rw [List.length_cons, List.length_cons, ih]
  | keyword _ _ ih => rw [List.length_cons, List.length_cons, ih]

theorem firstMissing_eq_none_iff {params : List Param} :
    firstMissing params slots = none ↔
      ∀ (slot : Nat) (param : Param), params[slot]? = some param → param.required = true →
        slots[slot]? ≠ some none := by
  induction params generalizing slots with
  | nil => simp [firstMissing]
  | cons param params ih =>
    cases slots with
    | nil => simp [firstMissing]
    | cons found slots =>
      have step : firstMissing (param :: params) (found :: slots) = none ↔
          (param.required = true → found ≠ none) ∧ firstMissing params slots = none := by
        rw [firstMissing]
        cases param.required <;> cases found <;> simp
      rw [step, ih]
      constructor
      · rintro ⟨hhead, htail⟩ (_ | slot)
        · simpa using hhead
        · exact htail slot
      · intro h
        exact ⟨by simpa using h 0, fun slot => h (slot + 1)⟩

theorem isEmptySlot_replicate {n : Nat} : IsEmptySlot (List.replicate n none) slot := by
  rw [IsEmptySlot, List.getElem?_replicate]
  split <;> rfl

/-- Slots filled from the left without one missing are those that the arguments are bound to. -/
theorem fills_iff_bound (hlen : values.length = keys.length) :
    Fills op (List.replicate op.params.length none) 0 false keys values final ∧
        firstMissing op.params final = none ↔
      ArgOrder.keywordsLast.Allows keys ∧ Bound op keys values final := by
  have same {places : List Nat} (hp : Places op 0 keys places) (hnodup : places.Nodup) :
      fill (List.replicate op.params.length none) (places.zip values) =
        slotsWith op.params.length (places.zip values) := by
    refine fill_replicate ?_
    rwa [List.map_fst_zip (Nat.le_of_eq (hp.length_eq.trans hlen.symm))]
  rw [firstMissing_eq_none_iff]
  constructor
  · rintro ⟨⟨horder, -, places, hp, hnodup, -, hfinal⟩, hfilled⟩
    exact ⟨horder, ⟨places, hp, hnodup, hfinal.trans (same hp hnodup)⟩, hfilled⟩
  · rintro ⟨horder, ⟨places, hp, hnodup, hfinal⟩, hfilled⟩
    exact ⟨⟨horder, by simp, places, hp, hnodup, fun _ _ => isEmptySlot_replicate,
      hfinal.trans (same hp hnodup).symm⟩, hfilled⟩

theorem fillSlots_iff_bound :
    Phrase.fillSlots op args (List.replicate op.params.length none) 0 false = .ok slots ∧
        firstMissing op.params slots = none ↔
      ∃ values, List.Forall₂ (fun arg value => Phrase.toExpr arg.2 = .ok value) args values ∧
        ArgOrder.keywordsLast.Allows (args.map (·.1)) ∧ Bound op (args.map (·.1)) values slots := by
  have hlen {values : List Expr}
      (h : List.Forall₂ (fun arg value => Phrase.toExpr arg.2 = .ok value) args values) :
      values.length = (args.map (·.1)).length := by
    rw [List.length_map, h.length_eq]
  rw [fillSlots_eq_ok_iff List.length_replicate fun _ _ _ => isEmptySlot_replicate]
  constructor
  · rintro ⟨⟨values, hvalues, hfills⟩, hmissing⟩
    exact ⟨values, hvalues, (fills_iff_bound (hlen hvalues)).mp ⟨hfills, hmissing⟩⟩
  · rintro ⟨values, hvalues, hbound⟩
    obtain ⟨hfills, hmissing⟩ := (fills_iff_bound (hlen hvalues)).mpr hbound
    exact ⟨⟨values, hvalues, hfills⟩, hmissing⟩

end

/-! ## The expression of a phrase -/

theorem Phrase.induction {P : Phrase → Prop}
    (call : ∀ callee args, (∀ arg ∈ args, P arg.2) → P (.call callee args))
    (other : ∀ phrase, (∀ callee args, phrase ≠ .call callee args) → P phrase) :
    ∀ phrase, P phrase
  | .call callee args => call callee args fun arg _ => Phrase.induction call other arg.2
  | .text value => other _ (by simp)
  | .number literal => other _ (by simp)
  | .bool value => other _ (by simp)
  | .nothing => other _ (by simp)
  | .var name => other _ (by simp)
  | .item name index => other _ (by simp)
termination_by phrase => sizeOf phrase
decreasing_by
  rename_i h
  have := List.sizeOf_lt_of_mem h
  obtain ⟨key, phrase⟩ := arg
  simp at this ⊢
  omega

theorem toExpr_call_eq_ok_iff {callee : String} {args : List (Option String × Phrase)}
    {e : Expr} :
    (Phrase.call callee args).toExpr = .ok e ↔
      ∃ op slots, op.IsCalled callee ∧
        (∃ values, List.Forall₂ (fun arg value => Phrase.toExpr arg.2 = .ok value) args values ∧
          ArgOrder.keywordsLast.Allows (args.map (·.1)) ∧
          Bound op (args.map (·.1)) values slots) ∧ e = .call op slots := by
  simp only [← fillSlots_iff_bound, ← Operation.ofCallee?_eq_some_iff]
  rw [Phrase.toExpr]
  cases Operation.ofCallee? callee with
  | none => simp
  | some op =>
    simp only [Option.some.injEq]
    cases hs : Phrase.fillSlots op args (List.replicate op.params.length none) 0 false with
    | error cause =>
      simp [bind, Except.bind, hs]
    | ok slots =>
      cases hm : firstMissing op.params slots <;> simp [bind, Except.bind, hs, hm, eq_comm]

/-- Reading makes of a phrase what it means. -/
theorem toExpr_eq_ok_iff {phrase : Phrase} {e : Expr} :
    phrase.toExpr = .ok e ↔ Means .keywordsLast phrase e := by
  induction phrase using Phrase.induction generalizing e with
  | call callee args ih =>
    rw [toExpr_call_eq_ok_iff]
    have each {values : List Expr} :
        List.Forall₂ (fun arg value => Phrase.toExpr arg.2 = .ok value) args values ↔
          List.Forall₂ (Means .keywordsLast) (args.map (·.2)) values := by
      rw [List.forall₂_map_left_iff, List.forall₂_iff_zip, List.forall₂_iff_zip]
      refine and_congr_right fun _ => forall₂_congr fun arg value => ?_
      exact imp_congr_right fun h => ih arg (List.of_mem_zip h).1
    constructor
    · rintro ⟨op, slots, hop, ⟨values, hvalues, horder, hbound⟩, rfl⟩
      exact .call hop horder (each.mp hvalues) hbound
    · rintro (_ | _ | _ | _ | _ | _ | ⟨hop, horder, hvalues, hbound⟩)
      exact ⟨_, _, hop, ⟨_, each.mpr hvalues, horder, hbound⟩, rfl⟩
  | other phrase h =>
    cases phrase with
    | call callee args => exact absurd rfl (h callee args)
    | item name index =>
      rw [Phrase.toExpr]
      constructor
      · split
        · rintro ⟨⟩
          exact .item ‹_›
        · simp
      · rintro (_ | _ | _ | _ | _ | hindex | _)
        rw [if_pos hindex]
    | text _ | number _ | bool _ | nothing | var _ =>
      rw [Phrase.toExpr, Except.ok.injEq]
      constructor
      · rintro rfl
        constructor
      · rintro ⟨⟩
        rfl

end BrowserAgent
