import BrowserAgent.Proofs.GateEscapes
import BrowserAgent.Proofs.WritableExpr
import Mathlib.Data.List.Range
import Mathlib.Data.List.ReduceOption

/-!
# The slot of every argument

Which arguments a call takes can be told from their keywords alone, and if it takes them, every
argument is in its slot. How the arguments are arranged makes no difference then.
-/

namespace BrowserAgent

open BrowserAgent.Action

namespace Operation

/-- Arguments with the keywords, or none, may be given to the operation. The first positional
arguments take the first slots. -/
structure Accepts (op : Operation) (keys : List (Option String)) : Prop where
  order : keys.Pairwise fun earlier later => earlier.isSome = true → later.isSome = true
  room : keys.count none ≤ op.params.length
  known : ∀ key, some key ∈ keys → ∃ param ∈ op.params, param.name = key
  once : keys.reduceOption.Nodup
  apart : ∀ (slot : Nat) (param : Param), op.params[slot]? = some param →
    slot < keys.count none → some param.name ∉ keys
  given : ∀ (slot : Nat) (param : Param), op.params[slot]? = some param → param.required = true →
    slot < keys.count none ∨ some param.name ∈ keys

/-- The slots hold the values of arguments with the keywords, or none, and nothing else. -/
structure Holds (op : Operation) (keys : List (Option String)) (values : List Expr)
    (slots : List (Option Expr)) : Prop where
  length : slots.length = op.params.length
  position : ∀ i < keys.count none, ∃ value, values[i]? = some value ∧ slots[i]? = some (some value)
  keyword : ∀ (i slot : Nat) (param : Param), keys[i]? = some (some param.name) →
    op.params[slot]? = some param →
    ∃ value, values[i]? = some value ∧ slots[slot]? = some (some value)
  empty : ∀ (slot : Nat) (param : Param), op.params[slot]? = some param →
    keys.count none ≤ slot → some param.name ∉ keys → slots[slot]? = some none
  kept : slots.reduceOption.Perm values

theorem slot_eq_of_name {op : Operation} {i j : Nat} {param other : Param}
    (hi : op.params[i]? = some param) (hj : op.params[j]? = some other)
    (h : param.name = other.name) : i = j := by
  have first := findIdx?_params_eq_some_iff.mpr ⟨param, hi, h⟩
  have second := findIdx?_params_eq_some_iff.mpr ⟨other, hj, rfl⟩
  rw [first] at second
  exact Option.some.inj second

end Operation

section

variable {op : Operation} {taken slot : Nat} {keys : List (Option String)} {places : List Nat}
  {values : List Expr} {slots : List (Option Expr)}

/-! ## Places -/

theorem exists_places (room : taken + keys.count none ≤ op.params.length)
    (known : ∀ key, some key ∈ keys → ∃ param ∈ op.params, param.name = key) :
    ∃ places, Places op taken keys places := by
  induction keys generalizing taken with
  | nil => exact ⟨[], .nil⟩
  | cons key keys ih =>
    have later : ∀ key, some key ∈ keys → ∃ param ∈ op.params, param.name = key :=
      fun key hk => known key (List.mem_cons_of_mem _ hk)
    cases key with
    | none =>
      rw [List.count_cons_self] at room
      have placed : ∃ places, Places op (taken + 1) keys places := ih (by omega) later
      obtain ⟨places, hp⟩ := placed
      exact ⟨taken :: places, .position (by omega) hp⟩
    | some key =>
      rw [List.count_cons_of_ne (by simp)] at room
      obtain ⟨places, hp⟩ := ih room later
      obtain ⟨param, hparam, rfl⟩ := known key List.mem_cons_self
      obtain ⟨slot, hslot⟩ := List.getElem?_of_mem hparam
      exact ⟨slot :: places, .keyword hslot hp⟩

theorem Places.room (h : Places op taken keys places) (ht : taken ≤ op.params.length) :
    taken + keys.count none ≤ op.params.length := by
  induction h with
  | nil => simpa using ht
  | position hlt _ ih =>
    have := ih hlt
    rw [List.count_cons_self]
    omega
  | keyword _ _ ih =>
    rw [List.count_cons_of_ne (by simp)]
    exact ih ht

theorem Places.known (h : Places op taken keys places) :
    ∀ key, some key ∈ keys → ∃ param ∈ op.params, param.name = key := by
  induction h with
  | nil => simp
  | position _ _ ih => simpa using ih
  | keyword hparam _ ih =>
    intro key hk
    rcases List.mem_cons.mp hk with heq | hk
    · cases heq
      exact ⟨_, List.mem_of_getElem? hparam, rfl⟩
    · exact ih key hk

theorem Places.mem_iff (h : Places op taken keys places) :
    slot ∈ places ↔ (taken ≤ slot ∧ slot < taken + keys.count none) ∨
      ∃ param, op.params[slot]? = some param ∧ some param.name ∈ keys := by
  induction h with
  | nil => simp
  | @position taken keys places _ _ ih =>
    rw [List.mem_cons, ih, List.count_cons_self]
    simp only [List.mem_cons, reduceCtorEq, false_or]
    constructor
    · rintro (rfl | h | h)
      · exact .inl ⟨Nat.le_refl _, by omega⟩
      · exact .inl (by omega)
      · exact .inr h
    · rintro (h | h)
      · by_cases heq : slot = taken
        · exact .inl heq
        · exact .inr (.inl (by omega))
      · exact .inr (.inr h)
  | @keyword taken found param keys places hparam _ ih =>
    rw [List.mem_cons, ih, List.count_cons_of_ne (by simp)]
    simp only [List.mem_cons, Option.some.injEq]
    constructor
    · rintro (rfl | h | ⟨other, hother, hmem⟩)
      · exact .inr ⟨param, hparam, .inl rfl⟩
      · exact .inl h
      · exact .inr ⟨other, hother, .inr hmem⟩
    · rintro (h | ⟨other, hother, hname | hmem⟩)
      · exact .inr (.inl h)
      · exact .inl (Operation.slot_eq_of_name hother hparam hname)
      · exact .inr (.inr ⟨other, hother, hmem⟩)

theorem Places.lt (h : Places op taken keys places) (ht : taken ≤ op.params.length) :
    ∀ slot ∈ places, slot < op.params.length := by
  intro slot hslot
  have := h.room ht
  rcases h.mem_iff.mp hslot with hpos | ⟨param, hparam, -⟩
  · omega
  · exact (List.getElem?_eq_some_iff.mp hparam).1

theorem Places.nodup_iff (h : Places op taken keys places) :
    places.Nodup ↔ keys.reduceOption.Nodup ∧ ∀ (slot : Nat) (param : Param),
      op.params[slot]? = some param → taken ≤ slot → slot < taken + keys.count none →
        some param.name ∉ keys := by
  -- By induction on the arguments: the place that one takes is taken by none behind it.
  induction h with
  | nil => simp
  | @position taken keys places hlt hp ih =>
    rw [List.nodup_cons, ih, hp.mem_iff, List.count_cons_self, List.reduceOption_cons_of_none]
    simp only [List.mem_cons, reduceCtorEq, false_or]
    constructor
    · rintro ⟨new, once, apart⟩
      refine ⟨once, fun slot param hparam hle hslot hmem => ?_⟩
      by_cases heq : slot = taken
      · exact new (.inr ⟨param, heq ▸ hparam, hmem⟩)
      · exact apart slot param hparam (by omega) (by omega) hmem
    · rintro ⟨once, apart⟩
      refine ⟨?_, once, fun slot param hparam hle hslot =>
        apart slot param hparam (by omega) (by omega)⟩
      rintro (⟨hle, -⟩ | ⟨param, hparam, hmem⟩)
      · omega
      · exact apart taken param hparam (Nat.le_refl _) (by omega) hmem
  | @keyword taken found param keys places hparam hp ih =>
    rw [List.nodup_cons, ih, hp.mem_iff, List.count_cons_of_ne (by simp),
      List.reduceOption_cons_of_some, List.nodup_cons, List.reduceOption_mem_iff]
    simp only [List.mem_cons, Option.some.injEq]
    constructor
    · rintro ⟨new, once, apart⟩
      refine ⟨⟨fun hmem => new (.inr ⟨param, hparam, hmem⟩), once⟩, ?_⟩
      rintro slot other hother hle hslot (hname | hmem)
      · exact new (.inl (Operation.slot_eq_of_name hother hparam hname ▸ ⟨hle, hslot⟩))
      · exact apart slot other hother hle hslot hmem
    · rintro ⟨⟨new, once⟩, apart⟩
      refine ⟨?_, once, fun slot other hother hle hslot hmem =>
        apart slot other hother hle hslot (.inr hmem)⟩
      rintro (⟨hle, hslot⟩ | ⟨other, hother, hmem⟩)
      · exact apart found param hparam hle hslot (.inl rfl)
      · rw [hparam] at hother
        cases hother
        exact new hmem

theorem Places.getElem?_keyword (h : Places op taken keys places) {i : Nat} {param : Param}
    (hkey : keys[i]? = some (some param.name)) (hslot : op.params[slot]? = some param) :
    places[i]? = some slot := by
  induction h generalizing i with
  | nil => simp at hkey
  | position _ _ ih =>
    cases i with
    | zero => simp at hkey
    | succ i => exact ih hkey
  | @keyword taken found other keys places hother _ ih =>
    cases i with
    | zero =>
      obtain hname : other.name = param.name := by simpa using hkey
      rw [List.getElem?_cons_zero, Operation.slot_eq_of_name hother hslot hname]
    | succ i => exact ih hkey

/-- Where no positional argument follows a keyword one, the first of all arguments take the next
slots. -/
theorem Places.getElem?_position (h : Places op taken keys places)
    (order : keys.Pairwise fun earlier later => earlier.isSome = true → later.isSome = true)
    {i : Nat} (hi : i < keys.count none) : places[i]? = some (taken + i) := by
  induction h generalizing i with
  | nil => simp at hi
  | @position taken keys places _ _ ih =>
    rw [List.count_cons_self] at hi
    cases i with
    | zero => rfl
    | succ i =>
      have later := ih order.of_cons (i := i) (by omega)
      rw [List.getElem?_cons_succ, later, Nat.add_assoc, Nat.add_comm 1]
  | @keyword taken found param keys places _ _ _ =>
    have none : keys.count none = 0 := by
      refine List.count_eq_zero.mpr fun hmem => ?_
      have := (List.pairwise_cons.mp order).1 none hmem rfl
      simp at this
    rw [List.count_cons_of_ne (by simp), none] at hi
    exact absurd hi (Nat.not_lt_zero _)

theorem places_of_positions {count : Nat} {places : List Nat}
    (h : Places op 0 (List.replicate count none) places) : places = List.range count := by
  refine List.ext_getElem (by rw [h.length_eq]; simp) fun i hi hi' => ?_
  have lt : i < (List.replicate count (none : Option String)).count none := by
    rw [List.count_replicate_self]
    rwa [List.length_range] at hi'
  have found := h.getElem?_position (List.pairwise_replicate.mpr (.inr id)) lt
  rw [List.getElem?_eq_getElem hi, Nat.zero_add] at found
  rw [Option.some.inj found, List.getElem_range]

/-! ## Slots -/

theorem getElem?_slotsWith {n : Nat} {placed : List (Nat × Expr)} (h : slot < n) :
    (slotsWith n placed)[slot]? = some (placed.lookup slot) := by
  simp [slotsWith, h]

section

variable (length : places.length = values.length)
include length

theorem lookup_zip_eq_none_iff : (places.zip values).lookup slot = none ↔ slot ∉ places := by
  have fsts : (places.zip values).map Prod.fst = places := List.map_fst_zip (Nat.le_of_eq length)
  rw [List.lookup_eq_none_iff, ← fsts, List.mem_map, not_exists, fsts]
  exact ⟨fun h found ⟨hmem, heq⟩ => bne_iff_ne.mp (h found hmem) heq.symm,
    fun h found hmem => bne_iff_ne.mpr fun heq => h found ⟨hmem, heq.symm⟩⟩

variable (nodup : places.Nodup)
include nodup

theorem lookup_zip_of_getElem? {i : Nat} (h : places[i]? = some slot) :
    ∃ value, values[i]? = some value ∧ (places.zip values).lookup slot = some value := by
  obtain ⟨hi, rfl⟩ := List.getElem?_eq_some_iff.mp h
  have hi' : i < values.length := length ▸ hi
  have distinct : ((places.zip values).map Prod.fst).Nodup := by
    rwa [List.map_fst_zip (Nat.le_of_eq length)]
  refine ⟨values[i], List.getElem?_eq_getElem hi', ?_⟩
  rw [lookup_eq_some_iff_mem distinct, List.mem_iff_getElem]
  exact ⟨i, by rw [List.length_zip]; omega, List.getElem_zip⟩

theorem reduceOption_slotsWith {n : Nat} (lt : ∀ slot ∈ places, slot < n) :
    (slotsWith n (places.zip values)).reduceOption.Perm values := by
  have looked : places.map (fun slot => (places.zip values).lookup slot) = values.map some := by
    refine List.ext_getElem? fun i => ?_
    rw [List.getElem?_map, List.getElem?_map]
    cases h : places[i]? with
    | none =>
      rw [List.getElem?_eq_none (length ▸ List.getElem?_eq_none_iff.mp h)]
      rfl
    | some slot =>
      obtain ⟨value, hvalue, hlookup⟩ := lookup_zip_of_getElem? length nodup h
      rw [hvalue, Option.map_some, Option.map_some, hlookup]
  have each : places.filterMap (fun slot => (places.zip values).lookup slot) = values := by
    have := congrArg List.reduceOption looked
    simpa [List.reduceOption, List.filterMap_map, Function.comp_def] using this
  -- No slot is taken twice, so the slots that are taken are the places in another order.
  have taken : ((List.range n).filter (· ∈ places)).Perm places := by
    refine (List.perm_ext_iff_of_nodup (List.nodup_range.filter _) nodup).mpr fun slot => ?_
    simpa using lt slot
  have whole : (slotsWith n (places.zip values)).reduceOption =
      ((List.range n).filter (· ∈ places)).filterMap fun slot =>
        (places.zip values).lookup slot := by
    rw [slotsWith, List.reduceOption, List.filterMap_map, List.filterMap_filter]
    refine List.filterMap_congr fun slot _ => ?_
    by_cases h : slot ∈ places
    · simp [h]
    · simp [h, (lookup_zip_eq_none_iff length).mpr h]
  exact (List.Perm.of_eq whole).trans ((taken.filterMap _).trans (.of_eq each))

end

/-! ## Binding -/

theorem Bound.accepts (h : Bound op keys values slots) (order : ArgOrder.keywordsLast.Allows keys)
    (length : values.length = keys.length) : op.Accepts keys := by
  obtain ⟨places, hp, nodup, rfl⟩ := h.placed
  obtain ⟨once, apart⟩ := hp.nodup_iff.mp nodup
  have room := hp.room (Nat.zero_le _)
  rw [Nat.zero_add] at room apart
  refine ⟨allows_keywordsLast.mp order, room, hp.known, once,
    fun slot param hparam hlt => apart slot param hparam (Nat.zero_le _) hlt, ?_⟩
  intro slot param hparam required
  have filled := h.filled slot param hparam required
  rw [getElem?_slotsWith (List.getElem?_eq_some_iff.mp hparam).1, ne_eq, Option.some.injEq,
    lookup_zip_eq_none_iff (hp.length_eq.trans length.symm), not_not, hp.mem_iff,
    Nat.zero_add] at filled
  rcases filled with ⟨-, hlt⟩ | ⟨other, hother, hmem⟩
  · exact .inl hlt
  · rw [hparam] at hother
    cases hother
    exact .inr hmem

theorem Bound.holds (h : Bound op keys values slots) (order : ArgOrder.keywordsLast.Allows keys)
    (length : values.length = keys.length) : op.Holds keys values slots := by
  obtain ⟨places, hp, nodup, hslots⟩ := h.placed
  have same : places.length = values.length := hp.length_eq.trans length.symm
  have lt := hp.lt (Nat.zero_le _)
  have put : ∀ {i slot : Nat}, places[i]? = some slot →
      ∃ value, values[i]? = some value ∧ slots[slot]? = some (some value) := by
    intro i slot hi
    obtain ⟨value, hvalue, hlookup⟩ := lookup_zip_of_getElem? same nodup hi
    refine ⟨value, hvalue, ?_⟩
    rw [hslots, getElem?_slotsWith (lt slot (List.mem_of_getElem? hi)), hlookup]
  refine ⟨h.length_eq, fun i hi => ?_, fun i slot param hkey hslot => ?_, ?_, ?_⟩
  · have := hp.getElem?_position (allows_keywordsLast.mp order) hi
    rw [Nat.zero_add] at this
    exact put this
  · exact put (hp.getElem?_keyword hkey hslot)
  · intro slot param hparam hle hmem
    have unused : slot ∉ places := by
      rw [hp.mem_iff]
      rintro (⟨-, hlt⟩ | ⟨other, hother, hnamed⟩)
      · omega
      · rw [hparam] at hother
        cases hother
        exact hmem hnamed
    rw [hslots, getElem?_slotsWith (List.getElem?_eq_some_iff.mp hparam).1,
      (lookup_zip_eq_none_iff same).mpr unused]
  · rw [hslots]
    exact reduceOption_slotsWith same nodup lt

theorem Operation.Accepts.bound (h : op.Accepts keys) (length : values.length = keys.length) :
    ∃ slots, Bound op keys values slots := by
  have placed : ∃ places, Places op 0 keys places :=
    exists_places (by rw [Nat.zero_add]; exact h.room) h.known
  obtain ⟨places, hp⟩ := placed
  have nodup : places.Nodup := hp.nodup_iff.mpr ⟨h.once, fun slot param hparam _ hlt =>
    h.apart slot param hparam (by rwa [Nat.zero_add] at hlt)⟩
  refine ⟨_, ⟨places, hp, nodup, rfl⟩, fun slot param hparam required => ?_⟩
  have taken : slot ∈ places := by
    rw [hp.mem_iff, Nat.zero_add]
    rcases h.given slot param hparam required with hlt | hmem
    · exact .inl ⟨Nat.zero_le _, hlt⟩
    · exact .inr ⟨param, hparam, hmem⟩
  rw [getElem?_slotsWith (List.getElem?_eq_some_iff.mp hparam).1, ne_eq, Option.some.injEq,
    lookup_zip_eq_none_iff (hp.length_eq.trans length.symm)]
  exact not_not_intro taken

end

/-! ## Calls -/

/-- A phrase has itself in it, and a call has all that its arguments have. -/
inductive Phrase.Has : Phrase → Phrase → Prop
  | here {phrase : Phrase} : Has phrase phrase
  | arg {callee : String} {args : List (Option String × Phrase)} {arg : Option String × Phrase}
    {inner : Phrase} : arg ∈ args → Has arg.2 inner → Has (.call callee args) inner

inductive Expr.Has : Expr → Expr → Prop
  | here {e : Expr} : Has e e
  | slot {op : Operation} {slots : List (Option Expr)} {arg inner : Expr} : some arg ∈ slots →
    Has arg inner → Has (.call op slots) inner

def Phrase.Values (args : List (Option String × Phrase)) (values : List Expr) : Prop :=
  List.Forall₂ (fun arg value => Phrase.toExpr arg.2 = .ok value) args values

/-- How the call of the operation with the arguments is read, where they have the values. -/
structure Phrase.Binds (op : Operation) (callee : String) (args : List (Option String × Phrase))
    (values : List Expr) : Prop where
  accepted : (∃ e, (Phrase.call callee args).toExpr = .ok e) ↔ op.Accepts (args.map (·.1))
  held : ∀ e, (Phrase.call callee args).toExpr = .ok e →
    ∃ slots, e = .call op slots ∧ op.Holds (args.map (·.1)) values slots
  /-- The same phrases for the same slots make the same call. -/
  rearranged : ∀ e, (Phrase.call callee args).toExpr = .ok e →
    ∃ places, Places op 0 (args.map (·.1)) places ∧
      ∀ callee' args' places', op.IsCalled callee' →
        ArgOrder.keywordsLast.Allows (args'.map (·.1)) → Places op 0 (args'.map (·.1)) places' →
        (places'.zip (args'.map (·.2))).Perm (places.zip (args.map (·.2))) →
        (Phrase.call callee' args').toExpr = .ok e

section

variable {op : Operation} {callee : String} {args args' : List (Option String × Phrase)}
  {places places' : List Nat} {values values' : List Expr} {e : Expr}

theorem Phrase.Values.length_eq (h : Phrase.Values args values) :
    values.length = (args.map (·.1)).length := by
  rw [List.length_map, List.Forall₂.length_eq h]

theorem Phrase.Values.eq (h : Phrase.Values args values) (h' : Phrase.Values args values') :
    values = values' := by
  refine List.right_unique_forall₂' (fun arg value value' hv hv' => ?_) h h'
  rw [hv] at hv'
  exact Except.ok.inj hv'

theorem Phrase.exists_values (h : ∀ arg ∈ args, ∃ value, arg.2.toExpr = .ok value) :
    ∃ values, Phrase.Values args values := by
  induction args with
  | nil => exact ⟨[], .nil⟩
  | cons arg args ih =>
    obtain ⟨⟨value, hvalue⟩, later⟩ := List.forall_mem_cons.mp h
    obtain ⟨values, hvalues⟩ := ih later
    exact ⟨value :: values, .cons hvalue hvalues⟩

theorem Phrase.Values.of_mem (h : Phrase.Values args values) :
    ∀ arg ∈ args, ∃ value ∈ values, arg.2.toExpr = .ok value := by
  intro arg harg
  obtain ⟨i, hi, rfl⟩ := List.getElem_of_mem harg
  have hi' : i < values.length := List.Forall₂.length_eq h ▸ hi
  exact ⟨values[i], List.getElem_mem hi', h.get hi hi'⟩

theorem Phrase.Values.filterMap_zip (h : Phrase.Values args values) (places : List Nat) :
    ((places.zip (args.map (·.2))).filterMap fun found =>
      found.2.toExpr.toOption.map (found.1, ·)) = places.zip values := by
  induction h generalizing places with
  | nil => rw [List.map_nil, List.zip_nil_right, List.zip_nil_right, List.filterMap_nil]
  | cons hvalue _ ih =>
    cases places with
    | nil => rfl
    | cons place places =>
      have read : (Except.toOption (Phrase.toExpr _)) = _ := congrArg Except.toOption hvalue
      rw [List.map_cons, List.zip_cons_cons, List.filterMap_cons, read, ih, List.zip_cons_cons]
      rfl

theorem lookup_zip_perm (h : (places'.zip values').Perm (places.zip values))
    (distinct : ((places.zip values).map Prod.fst).Nodup) (slot : Nat) :
    (places'.zip values').lookup slot = (places.zip values).lookup slot := by
  have distinct' := (h.map Prod.fst).nodup_iff.mpr distinct
  refine Option.ext fun value => ?_
  rw [lookup_eq_some_iff_mem distinct, lookup_eq_some_iff_mem distinct', h.mem_iff]

theorem toExpr_call_of_called (called : op.IsCalled callee) (read : Phrase.Values args values) :
    (Phrase.call callee args).toExpr = .ok e ↔
      ∃ slots, ArgOrder.keywordsLast.Allows (args.map (·.1)) ∧
        Bound op (args.map (·.1)) values slots ∧ e = .call op slots := by
  rw [toExpr_call_eq_ok_iff]
  constructor
  · rintro ⟨other, slots, hother, ⟨found, hfound, order, bound⟩, rfl⟩
    have same : other = op := by
      rw [← Operation.ofCallee?_eq_some_iff] at called hother
      exact Option.some.inj (hother.symm.trans called)
    subst same
    obtain rfl := read.eq hfound
    exact ⟨slots, order, bound, rfl⟩
  · rintro ⟨slots, order, bound, rfl⟩
    exact ⟨op, slots, called, ⟨values, read, order, bound⟩, rfl⟩

/-- Another arrangement of the same phrases in the same slots. -/
theorem Bound.rearrange {slots : List (Option Expr)}
    (h : Bound op (args.map (·.1)) values slots) (read : Phrase.Values args values) :
    ∃ places, Places op 0 (args.map (·.1)) places ∧
      ∀ args' places', Places op 0 (args'.map (·.1)) places' →
        (places'.zip (args'.map (·.2))).Perm (places.zip (args.map (·.2))) →
        ∃ values', Phrase.Values args' values' ∧ Bound op (args'.map (·.1)) values' slots := by
  obtain ⟨places, hp, nodup, hslots⟩ := h.placed
  refine ⟨places, hp, fun args' places' hp' same => ?_⟩
  have length : places.length = (args.map (·.2)).length := by simp [hp.length_eq]
  have length' : places'.length = (args'.map (·.2)).length := by simp [hp'.length_eq]
  have phrases := same.map Prod.snd
  rw [List.map_snd_zip (Nat.le_of_eq length.symm),
    List.map_snd_zip (Nat.le_of_eq length'.symm)] at phrases
  have nodup' := same.map Prod.fst
  rw [List.map_fst_zip (Nat.le_of_eq length), List.map_fst_zip (Nat.le_of_eq length')] at nodup'
  obtain ⟨values', read'⟩ : ∃ values', Phrase.Values args' values' := by
    refine Phrase.exists_values fun arg harg => ?_
    obtain ⟨found, hfound, heq⟩ :=
      List.mem_map.mp (phrases.mem_iff.mp (List.mem_map_of_mem harg))
    obtain ⟨value, -, hvalue⟩ := read.of_mem found hfound
    exact ⟨value, heq ▸ hvalue⟩
  have pairs : (places'.zip values').Perm (places.zip values) := by
    rw [← read.filterMap_zip, ← read'.filterMap_zip]
    exact same.filterMap _
  have distinct : ((places.zip values).map Prod.fst).Nodup := by
    rwa [List.map_fst_zip (Nat.le_of_eq (hp.length_eq.trans read.length_eq.symm))]
  refine ⟨values', read', ⟨places', hp', nodup'.nodup_iff.mpr nodup, ?_⟩, h.filled⟩
  rw [hslots, slotsWith, slotsWith]
  exact List.map_congr_left fun slot _ => (lookup_zip_perm pairs distinct slot).symm

theorem Phrase.binds_of_called (called : op.IsCalled callee) (read : Phrase.Values args values) :
    Phrase.Binds op callee args values where
  accepted := by
    constructor
    · rintro ⟨e, he⟩
      obtain ⟨slots, order, bound, -⟩ := (toExpr_call_of_called called read).mp he
      exact bound.accepts order read.length_eq
    · intro accepts
      obtain ⟨slots, bound⟩ := accepts.bound read.length_eq
      exact ⟨_, (toExpr_call_of_called called read).mpr
        ⟨slots, allows_keywordsLast.mpr accepts.order, bound, rfl⟩⟩
  held e he := by
    obtain ⟨slots, order, bound, rfl⟩ := (toExpr_call_of_called called read).mp he
    exact ⟨slots, rfl, bound.holds order read.length_eq⟩
  rearranged e he := by
    obtain ⟨slots, -, bound, rfl⟩ := (toExpr_call_of_called called read).mp he
    obtain ⟨places, hp, others⟩ := bound.rearrange read
    refine ⟨places, hp, fun callee' args' places' called' order' hp' same => ?_⟩
    obtain ⟨values', read', bound'⟩ := others args' places' hp' same
    exact (toExpr_call_of_called called' read').mpr ⟨slots, order', bound', rfl⟩

end

/-! ## Calls in calls -/

/-- The operation takes the arguments of a call that names it, and the slots hold them. -/
structure Phrase.Takes (op : Operation) (callee : String) (args : List (Option String × Phrase))
    (slots : List (Option Expr)) : Prop where
  called : op.IsCalled callee
  accepts : op.Accepts (args.map (·.1))
  holds : ∃ values, Phrase.Values args values ∧ op.Holds (args.map (·.1)) values slots

section

variable {op : Operation} {callee : String} {args : List (Option String × Phrase)}
  {slots : List (Option Expr)} {phrase inner : Phrase} {e : Expr}

theorem Phrase.takes_of_toExpr (h : (Phrase.call callee args).toExpr = .ok e) :
    ∃ op slots, e = .call op slots ∧ Phrase.Takes op callee args slots := by
  obtain ⟨op, slots, called, ⟨values, read, order, bound⟩, rfl⟩ := toExpr_call_eq_ok_iff.mp h
  have length : values.length = (args.map (·.1)).length := Phrase.Values.length_eq read
  exact ⟨op, slots, rfl, called, bound.accepts order length, values, read,
    bound.holds order length⟩

theorem Phrase.Takes.mem_slots (h : Phrase.Takes op callee args slots) :
    ∀ arg ∈ args, ∃ value, some value ∈ slots ∧ arg.2.toExpr = .ok value := by
  intro arg harg
  obtain ⟨values, read, holds⟩ := h.holds
  obtain ⟨value, hmem, hvalue⟩ := read.of_mem arg harg
  exact ⟨value, List.reduceOption_mem_iff.mp (holds.kept.mem_iff.mpr hmem), hvalue⟩

theorem Phrase.Has.takes (h : phrase.Has inner) (he : phrase.toExpr = .ok e)
    (call : inner = .call callee args) :
    ∃ op slots, Phrase.Takes op callee args slots ∧ e.Has (.call op slots) := by
  induction h generalizing e with
  | here =>
    subst call
    obtain ⟨op, slots, rfl, takes⟩ := Phrase.takes_of_toExpr he
    exact ⟨op, slots, takes, .here⟩
  | arg harg _ ih =>
    obtain ⟨outer, slots, rfl, takes⟩ := Phrase.takes_of_toExpr he
    obtain ⟨value, hslot, hvalue⟩ := takes.mem_slots _ harg
    obtain ⟨op, found, hfound, has⟩ := ih hvalue call
    exact ⟨op, found, hfound, .slot hslot has⟩

theorem Expr.Has.takes {found : Expr} (h : e.Has found) (he : phrase.toExpr = .ok e)
    (call : found = .call op slots) :
    ∃ callee args, phrase.Has (.call callee args) ∧ Phrase.Takes op callee args slots := by
  have isCall : ∀ {phrase op slots}, Phrase.toExpr phrase = .ok (.call op slots) →
      ∃ callee args, phrase = .call callee args := by
    intro phrase op slots he
    cases toExpr_eq_ok_iff.mp he with
    | call => exact ⟨_, _, rfl⟩
  induction h generalizing phrase with
  | here =>
    subst call
    obtain ⟨callee, args, rfl⟩ := isCall he
    obtain ⟨_, _, heq, takes⟩ := Phrase.takes_of_toExpr he
    cases heq
    exact ⟨callee, args, .here, takes⟩
  | slot hslot _ ih =>
    obtain ⟨callee, args, rfl⟩ := isCall he
    obtain ⟨arg, harg, means⟩ := (toExpr_eq_ok_iff.mp he).arg hslot
    obtain ⟨callee', args', has, takes⟩ := ih (toExpr_eq_ok_iff.mpr means) call
    exact ⟨callee', args', .arg harg has, takes⟩

end

/-- A call of readable arguments is read exactly if its operation accepts their keywords; then every
argument is in its slot, and every other arrangement for the same slots is the same call. So every
call of a program, however deep, is one that its operation accepts, with every argument in its
slot. -/
theorem arguments_bind :
    (∀ op callee args values, op.IsCalled callee → Phrase.Values args values →
      Phrase.Binds op callee args values) ∧
    ∀ text program, Action.parse text = .ok program → ∀ s ∈ program.statements,
      ∃ part phrase, part <:+: text.toList ∧ Spells part phrase ∧ phrase.toExpr = .ok s.expr ∧
        (∀ callee args, phrase.Has (.call callee args) →
          ∃ op slots, Phrase.Takes op callee args slots ∧ s.expr.Has (.call op slots)) ∧
        ∀ op slots, s.expr.Has (.call op slots) →
          ∃ callee args, phrase.Has (.call callee args) ∧ Phrase.Takes op callee args slots := by
  refine ⟨fun op callee args values called read => Phrase.binds_of_called called read, ?_⟩
  intro text program parsed s hs
  obtain ⟨part, phrase, hin, spelled, means⟩ := Action.spelled_of_parse parsed s hs
  have read : phrase.toExpr = .ok s.expr := toExpr_eq_ok_iff.mpr means
  exact ⟨part, phrase, hin, spelled, read, fun callee args has => has.takes read rfl,
    fun op slots has => has.takes read rfl⟩

/-- The keywords of `save` in the other order, and the one call of a program. -/
theorem arguments_bind_save :
    let args : List (Option String × Phrase) :=
      [(some "filename", .text "f"), (some "text", .text "t")]
    Phrase.Binds .save "save" args [.text "f", .text "t"] ∧
    Operation.save.Accepts [some "filename", some "text"] ∧
    ∀ s ∈ Gate.escapedImportProgram.statements, ∃ part phrase,
      part <:+: Gate.escapedImport.toList ∧ Spells part phrase ∧ phrase.toExpr = .ok s.expr ∧
      ∃ callee args, phrase.Has (.call callee args) ∧
        Phrase.Takes .queryLlm callee args [some (.text "import x")] := by
  intro args
  have read : Phrase.Values args [.text "f", .text "t"] := .cons rfl (.cons rfl .nil)
  have binds := arguments_bind.1 .save "save" args _ (.inl rfl) read
  refine ⟨binds, binds.accepted.mp ⟨_, rfl⟩, fun s hs => ?_⟩
  obtain ⟨part, phrase, hin, spelled, toExpr, -, nested⟩ :=
    arguments_bind.2 _ _ Gate.parse_escapedImport s hs
  obtain rfl := List.mem_singleton.mp hs
  exact ⟨part, phrase, hin, spelled, toExpr, nested _ _ .here⟩

example :
    (Phrase.call "save" [(some "filename", .text "f"), (some "text", .text "t")]).toExpr =
      (Phrase.call "env.save" [(none, .text "t"), (some "filename", .text "f")]).toExpr := rfl

end BrowserAgent
