import BrowserAgent.Proofs.HeldValues
import BrowserAgent.Proofs.PrintedTokens
import BrowserAgent.Yaml.Reader

/-!
# Reading back the tokens of values

The reader takes the tokens of a value off the front and makes of them a node that stands for the
value. What it leaves are the tokens behind; nothing else changes, since no value has a name.
-/

namespace BrowserAgent.Yaml

namespace Reader

variable {α β : Type} {x : Reader α} {f : α → Reader β} {P : α → Prop} {Q : β → Prop}
variable {before between after rest kinds : List TokenKind} {kind first : TokenKind} {fuel : Nat}

/-! ## Taking tokens -/

/-- Where there are tokens of the first kinds, those of the second are left. -/
def Takes (before after : List TokenKind) (x : Reader α) (P : α → Prop) : Prop :=
  ∀ s : ReaderState, s.tokens.map Token.kind = before →
    ∃ a ts, x.run s = (a, { s with tokens := ts }) ∧ ts.map Token.kind = after ∧ P a

theorem takes_pure {a : α} (h : P a) : Takes before before (pure a) P :=
  fun s hs => ⟨a, s.tokens, rfl, hs, h⟩

theorem Takes.bind (h : Takes before between x P)
    (more : ∀ a, P a → Takes between after (f a) Q) : Takes before after (x >>= f) Q := by
  intro s hs
  obtain ⟨a, ts, ran, left, ha⟩ := h s hs
  obtain ⟨b, us, ran', left', hb⟩ := more a ha { s with tokens := ts } left
  refine ⟨b, us, ?_, left', hb⟩
  rw [StateT.run_bind, ran]
  exact ran'

theorem takes_peek : Takes (first :: rest) (first :: rest) peek (·.kind = first) := by
  intro s hs
  obtain ⟨t, ts, tokens, kind, -⟩ := List.map_eq_cons_iff.mp hs
  refine ⟨t, s.tokens, ?_, hs, kind⟩
  have head : s.tokens.headD nothing = t := by rw [tokens, List.headD_cons]
  exact congrArg (·, s) head

theorem takes_drop : Takes (first :: rest) rest drop fun _ => True := by
  intro s hs
  refine ⟨(), s.tokens.tail, rfl, ?_, trivial⟩
  rw [List.map_tail, hs, List.tail_cons]

theorem takes_dropIf (kind : TokenKind) (rest : List TokenKind) :
    Takes (kind :: rest) rest (dropIf kind) (∃ t, · = some t) := by
  refine takes_peek.bind fun t ht => ?_
  rw [ht, if_pos (by simp)]
  exact takes_drop.bind fun _ _ => takes_pure ⟨t, rfl⟩

theorem keeps_dropIf (other : first ≠ kind) :
    Takes (first :: rest) (first :: rest) (dropIf kind) (· = none) := by
  refine takes_peek.bind fun t ht => ?_
  rw [ht, if_neg (by simpa using other)]
  exact takes_pure rfl

theorem keeps_fault (whole : ∀ f, first ≠ .broken f) :
    Takes (first :: rest) (first :: rest) fault? (· = none) := by
  refine takes_peek.bind fun t ht => ?_
  rw [ht]
  cases first <;> first
    | exact takes_pure rfl
    | exact absurd rfl (whole _)

/-! ## Nodes -/

/-- A value starts with a token of the kind. Only as a member of a map it may be a list without a
block of its own. -/
def opensValue (isMember : Bool) : TokenKind → Bool
  | .scalar .. | .openList | .openMap | .blockList | .blockMap => true
  | .item => isMember
  | _ => false

theorem valueKinds_cons {v : JsonValue} (h : IsData v) (isMember : Bool) :
    ∃ first rest, valueKinds isMember v = first :: rest ∧ opensValue isMember first = true := by
  cases h with
  | text s => exact ⟨_, _, rfl, rfl⟩
  | @list items each =>
    cases items with
    | nil => exact ⟨_, _, rfl, rfl⟩
    | cons item more => cases isMember <;> exact ⟨_, _, rfl, rfl⟩
  | @object members names each => cases members <;> exact ⟨_, _, rfl, rfl⟩

theorem takes_node (first : TokenKind) {isMember : Bool} {P : Node → Prop}
    (opens : opensValue isMember first = true)
    (h : ∀ mark, Takes (first :: rest) after (content true isMember ⟨mark, false, none⟩ fuel) P) :
    Takes (first :: rest) after (node true isMember (fuel + 1)) P := by
  rintro ⟨tokens, handles, numbers, count, latest, complete⟩ hs
  obtain ⟨⟨kind, start, stop⟩, ts, rfl, rfl, -⟩ := List.map_eq_cons_iff.mp hs
  obtain ⟨a, us, ran, left, ha⟩ := h start _ hs
  -- The first token is neither a name nor a tag, so the node is its content.
  refine ⟨a, us, ?_, left, ha⟩
  rw [← ran]
  cases kind <;> first
    | rfl
    | cases opens

theorem takes_nodeUnless {isMember : Bool} {ends : List TokenKind} {mark : Option Mark}
    {P : Node → Prop} (opens : opensValue isMember first = true)
    (apart : ends.all (!opensValue isMember ·) = true)
    (h : Takes (first :: rest) after (node true isMember fuel) P) :
    Takes (first :: rest) after (nodeUnless ends mark true isMember (fuel + 1)) P := by
  rw [nodeUnless]
  refine takes_peek.bind fun t ht => ?_
  have goesOn : ends.contains t.kind = false := by
    rw [ht, Bool.eq_false_iff]
    intro found
    have closed := List.all_eq_true.mp apart first (List.contains_iff_mem.mp found)
    rw [opens] at closed
    cases closed
  rw [goesOn]
  exact h

theorem takes_scalar {text : String} {isPlain : Bool} (isMember : Bool) (rest : List TokenKind)
    (fuel : Nat) (clear : isPlain = true → isAmbiguous text = false) :
    Takes (.scalar text isPlain :: rest) rest (node true isMember (fuel + 2))
      (Holds · (.text text)) := by
  refine takes_node _ rfl fun mark => ?_
  rw [content]
  refine takes_peek.bind fun t ht => ?_
  rw [ht]
  exact takes_drop.bind fun _ _ => takes_pure (.text clear)

/-- The reader makes of the tokens of the value a node that stands for it. -/
def TakesValue (isMember : Bool) (v : JsonValue) : Prop :=
  ∀ rest fuel, (isMember = true → rest.head? = some .key ∨ rest.head? = some .blockEnd) →
    4 * (valueKinds isMember v).length ≤ fuel →
      Takes (valueKinds isMember v ++ rest) rest (node true isMember fuel) (Holds · v)

theorem takesValue_text (isMember : Bool) (s : String) : TakesValue isMember (.text s) := by
  intro rest fuel _ enough
  have room : 4 ≤ fuel := enough
  obtain ⟨fuel, rfl⟩ := Nat.exists_eq_add_of_le' (show 2 ≤ fuel by omega)
  exact takes_scalar isMember rest fuel fun plain =>
    (Scan.plain_of_styleOf (of_decide_eq_true plain)).1

theorem TakesValue.nodeUnless {isMember : Bool} {v : JsonValue} {ends : List TokenKind}
    (takes : TakesValue isMember v) (data : IsData v) (mark : Option Mark)
    (apart : ends.all (!opensValue isMember ·) = true)
    (behind : isMember = true → rest.head? = some .key ∨ rest.head? = some .blockEnd)
    (enough : 4 * (valueKinds isMember v).length ≤ fuel) :
    Takes (valueKinds isMember v ++ rest) rest (nodeUnless ends mark true isMember (fuel + 1))
      (Holds · v) := by
  have taken := takes rest fuel behind enough
  obtain ⟨first, more, kinds, opens⟩ := valueKinds_cons data isMember
  rw [kinds] at taken ⊢
  exact takes_nodeUnless opens apart taken

/-! ## Lists -/

section

variable {item : JsonValue} {items more : List JsonValue}

theorem takes_first {ends : List TokenKind} {loop : Reader (List Node)} (mark : Option Mark)
    (data : IsData item) (takes : TakesValue false item)
    (apart : ends.all (!opensValue false ·) = true)
    (enough : 4 * (valueKinds false item).length ≤ fuel)
    (others : Takes between after loop (HoldsItems · more)) :
    Takes (valueKinds false item ++ between) after
      (do
        let first ← nodeUnless ends mark true false (fuel + 1)
        return first :: (← loop))
      (HoldsItems · (item :: more)) :=
  (takes.nodeUnless data mark apart nofun enough).bind fun _ held =>
    others.bind fun _ rest => takes_pure (.cons held rest)

/-- A loop that takes an item off the front and goes on takes them all, if it stops behind them. -/
theorem takes_items (ends : List TokenKind) {loop : Nat → Reader (List Node)}
    {tail : List TokenKind} (apart : ends.all (!opensValue false ·) = true)
    (step : ∀ fuel between (P : List Node → Prop),
      (∀ t : Token, Takes between rest
        (do
          let first ← nodeUnless ends t.stop true false fuel
          return first :: (← loop fuel)) P) →
      Takes (.item :: between) rest (loop (fuel + 1)) P)
    (last : ∀ fuel, Takes tail rest (loop (fuel + 1)) (HoldsItems · []))
    (data : ∀ v ∈ items, IsData v) (each : ∀ v ∈ items, TakesValue false v) (some_ : 0 < fuel)
    (enough : 4 * (itemsKinds items).length ≤ fuel + 2) :
    Takes (itemsKinds items ++ tail) rest (loop fuel) (HoldsItems · items) := by
  induction items generalizing fuel with
  | nil =>
    obtain ⟨fuel, rfl⟩ := Nat.exists_eq_add_of_le' some_
    exact last fuel
  | cons item more ih =>
    simp only [itemsKinds, List.length_cons, List.length_append] at enough
    obtain ⟨fuel, rfl⟩ := Nat.exists_eq_add_of_le' (show 2 ≤ fuel by omega)
    rw [itemsKinds, List.cons_append, List.cons_append, List.append_assoc]
    refine step _ _ _ fun t => ?_
    exact takes_first t.stop (data item List.mem_cons_self) (each item List.mem_cons_self) apart
      (by omega) (ih (fun v hv => data v (List.mem_cons_of_mem item hv))
        (fun v hv => each v (List.mem_cons_of_mem item hv)) (Nat.succ_pos _) (by omega))

theorem takes_blockItems (data : ∀ v ∈ items, IsData v) (each : ∀ v ∈ items, TakesValue false v)
    (start : Mark) (rest : List TokenKind) (some_ : 0 < fuel)
    (enough : 4 * (itemsKinds items).length ≤ fuel + 2) :
    Takes (itemsKinds items ++ .blockEnd :: rest) rest (blockItems start fuel)
      (HoldsItems · items) := by
  refine takes_items [.item, .blockEnd] rfl (fun fuel between P item => ?_) (fun fuel => ?_)
    data each some_ enough
  · rw [blockItems]
    refine (takes_dropIf .item _).bind ?_
    rintro _ ⟨t, rfl⟩
    exact item t
  · rw [blockItems]
    refine (keeps_dropIf (by simp)).bind ?_
    rintro _ rfl
    refine (takes_dropIf .blockEnd rest).bind ?_
    rintro _ ⟨t, rfl⟩
    exact takes_pure .nil

theorem takes_flushItems (data : ∀ v ∈ items, IsData v) (each : ∀ v ∈ items, TakesValue false v)
    (behind : rest.head? = some .key ∨ rest.head? = some .blockEnd) (some_ : 0 < fuel)
    (enough : 4 * (itemsKinds items).length ≤ fuel + 2) :
    Takes (itemsKinds items ++ rest) rest (flushItems fuel) (HoldsItems · items) := by
  refine takes_items [.item, .key, .value, .blockEnd] rfl (fun fuel between P item => ?_)
    (fun fuel => ?_) data each some_ enough
  · rw [flushItems]
    refine (takes_dropIf .item _).bind ?_
    rintro _ ⟨t, rfl⟩
    exact item t
  · obtain ⟨first, rest, rfl⟩ : ∃ first more, rest = first :: more := by
      cases rest with
      | nil => rcases behind with h | h <;> cases h
      | cons first more => exact ⟨first, more, rfl⟩
    have ends : first = .key ∨ first = .blockEnd := behind.imp Option.some.inj Option.some.inj
    have noItem : first ≠ .item := by rcases ends with rfl | rfl <;> simp
    have whole : ∀ f, first ≠ .broken f := by rcases ends with rfl | rfl <;> simp
    rw [flushItems]
    refine (keeps_dropIf noItem).bind ?_
    rintro _ rfl
    refine (keeps_fault whole).bind ?_
    rintro _ rfl
    exact takes_pure .nil

theorem takes_flowItems (start : Mark) (rest : List TokenKind) (fuel : Nat) :
    Takes (.closeList :: rest) rest (flowItems start true (fuel + 1)) (· = []) := by
  rw [flowItems]
  refine (takes_dropIf .closeList rest).bind ?_
  rintro _ ⟨t, rfl⟩
  exact takes_pure rfl

theorem takesValue_list (data : ∀ v ∈ items, IsData v) (each : ∀ v ∈ items, TakesValue false v)
    (isMember : Bool) : TakesValue isMember (.list items) := by
  intro rest fuel behind enough
  cases items with
  | nil =>
    have room : 8 ≤ fuel := enough
    obtain ⟨fuel, rfl⟩ := Nat.exists_eq_add_of_le' (show 3 ≤ fuel by omega)
    refine takes_node .openList rfl fun mark => ?_
    rw [content]
    refine takes_peek.bind fun t ht => ?_
    rw [ht]
    refine takes_drop.bind fun _ _ => (takes_flowItems t.start rest fuel).bind ?_
    rintro _ rfl
    exact takes_pure (.list .nil)
  | cons item more =>
    cases isMember with
    | true =>
      have long : 4 * (itemsKinds (item :: more)).length ≤ fuel := enough
      have some_ : 0 < (itemsKinds (item :: more)).length := Nat.succ_pos _
      obtain ⟨fuel, rfl⟩ := Nat.exists_eq_add_of_le' (show 3 ≤ fuel by omega)
      refine takes_node .item rfl fun mark => ?_
      rw [content]
      refine takes_peek.bind fun t ht => ?_
      rw [ht, if_pos rfl]
      have taken := takes_flushItems data each (behind rfl) (Nat.succ_pos fuel) long
      exact taken.bind fun _ held => takes_pure (.list held)
    | false =>
      rw [valueKinds, if_neg Bool.false_ne_true] at enough ⊢
      simp only [List.length_cons, List.length_append] at enough
      obtain ⟨fuel, rfl⟩ := Nat.exists_eq_add_of_le' (show 3 ≤ fuel by omega)
      refine takes_node .blockList rfl fun mark => ?_
      rw [content]
      refine takes_peek.bind fun t ht => ?_
      rw [ht, if_pos rfl]
      have taken := takes_blockItems data each t.start rest (Nat.succ_pos fuel) (by omega)
      rw [List.append_cons] at taken
      exact takes_drop.bind fun _ _ => taken.bind fun _ held => takes_pure (.list held)

end

/-! ## Maps -/

section

variable {member : String × JsonValue} {members more : List (String × JsonValue)}

theorem takes_blockMembers (names : ∀ m ∈ members, IsPlainName m.1)
    (data : ∀ m ∈ members, IsData m.2) (each : ∀ m ∈ members, TakesValue true m.2)
    (start : Mark) (rest : List TokenKind) (some_ : 0 < fuel)
    (enough : 4 * (membersKinds members).length ≤ fuel + 2) :
    Takes (membersKinds members ++ .blockEnd :: rest) rest (blockMembers start fuel)
      (HoldsMembers · members) := by
  induction members generalizing fuel with
  | nil =>
    obtain ⟨fuel, rfl⟩ := Nat.exists_eq_add_of_le' some_
    rw [blockMembers]
    refine (keeps_dropIf (by simp)).bind ?_
    rintro _ rfl
    refine (takes_dropIf .blockEnd rest).bind ?_
    rintro _ ⟨t, rfl⟩
    exact takes_pure .nil
  | cons member more ih =>
    obtain ⟨name, value⟩ := member
    simp only [membersKinds, List.length_cons, List.length_append] at enough
    obtain ⟨fuel, rfl⟩ := Nat.exists_eq_add_of_le' (show 4 ≤ fuel by omega)
    have others := ih (fun m hm => names m (List.mem_cons_of_mem _ hm))
      (fun m hm => data m (List.mem_cons_of_mem _ hm))
      (fun m hm => each m (List.mem_cons_of_mem _ hm)) (Nat.succ_pos (fuel + 2)) (by omega)
    have behind : (membersKinds more ++ .blockEnd :: rest).head? = some .key ∨
        (membersKinds more ++ .blockEnd :: rest).head? = some .blockEnd := by
      cases more with
      | nil => exact .inr rfl
      | cons next more => exact .inl rfl
    have key := takes_scalar true (.value :: (valueKinds true value ++
      (membersKinds more ++ .blockEnd :: rest))) fuel
      fun (_ : true = true) => (names _ List.mem_cons_self).clear
    rw [membersKinds, List.cons_append, List.cons_append, List.cons_append, List.cons_append,
      List.append_assoc, blockMembers]
    -- The tokens of the member one after the other, then the members behind it.
    refine (takes_dropIf .key _).bind ?_
    rintro _ ⟨t, rfl⟩
    refine (takes_nodeUnless rfl rfl key).bind fun _ name_ => ?_
    refine (takes_dropIf .value _).bind ?_
    rintro _ ⟨t, rfl⟩
    have value_ : TakesValue true value := each _ List.mem_cons_self
    refine (value_.nodeUnless (data _ List.mem_cons_self) t.stop rfl (fun _ => behind)
      (by omega)).bind fun _ held => ?_
    exact others.bind fun _ rest => takes_pure (.cons name_ held rest)

theorem takes_flowMembers (start : Mark) (rest : List TokenKind) (fuel : Nat) :
    Takes (.closeMap :: rest) rest (flowMembers start true (fuel + 1)) (· = []) := by
  rw [flowMembers]
  refine (takes_dropIf .closeMap rest).bind ?_
  rintro _ ⟨t, rfl⟩
  exact takes_pure rfl

theorem takesValue_object (names : ∀ m ∈ members, IsPlainName m.1)
    (data : ∀ m ∈ members, IsData m.2) (each : ∀ m ∈ members, TakesValue true m.2)
    (isMember : Bool) : TakesValue isMember (.object members) := by
  intro rest fuel _ enough
  cases members with
  | nil =>
    have room : 8 ≤ fuel := enough
    obtain ⟨fuel, rfl⟩ := Nat.exists_eq_add_of_le' (show 3 ≤ fuel by omega)
    refine takes_node .openMap rfl fun mark => ?_
    rw [content]
    refine takes_peek.bind fun t ht => ?_
    rw [ht]
    refine takes_drop.bind fun _ _ => (takes_flowMembers t.start rest fuel).bind ?_
    rintro _ rfl
    exact takes_pure (.object .nil)
  | cons member more =>
    simp only [valueKinds, List.length_cons, List.length_append] at enough
    obtain ⟨fuel, rfl⟩ := Nat.exists_eq_add_of_le' (show 3 ≤ fuel by omega)
    refine takes_node .blockMap rfl fun mark => ?_
    rw [content]
    refine takes_peek.bind fun t ht => ?_
    rw [ht, if_pos rfl]
    have taken := takes_blockMembers names data each t.start rest (Nat.succ_pos fuel) (by omega)
    rw [List.append_cons] at taken
    exact takes_drop.bind fun _ _ => taken.bind fun _ held => takes_pure (.object held)

end

end Reader

theorem IsData.taken {v : JsonValue} (h : IsData v) (isMember : Bool) :
    Reader.TakesValue isMember v := by
  induction h generalizing isMember with
  | text s => exact Reader.takesValue_text isMember s
  | list data ih => exact Reader.takesValue_list data (fun v hv => ih v hv false) isMember
  | object names data ih =>
    exact Reader.takesValue_object names data (fun m hm => ih m hm true) isMember

/-! ## Documents -/

end BrowserAgent.Yaml
