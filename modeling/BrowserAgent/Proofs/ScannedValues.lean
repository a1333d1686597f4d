import BrowserAgent.Proofs.BlockKeys

/-!
# Tokens of printed values

A value of texts, lists and objects is scanned as it is printed, wherever it may stand: behind a
colon or behind a dash. It opens what blocks it needs, and they are closed where the text goes on
left of them.
-/

namespace BrowserAgent.Yaml

/-- A value of texts, lists and objects, with names that need no quotes. -/
inductive IsData : JsonValue → Prop
  | text (s : String) : IsData (.text s)
  | list {items : List JsonValue} (each : ∀ v ∈ items, IsData v) : IsData (.list items)
  | object {members : List (String × JsonValue)} (names : ∀ m ∈ members, IsPlainName m.1)
      (values : ∀ m ∈ members, IsData m.2) : IsData (.object members)

/-! ## Lines of values -/

section

variable (column : Nat) (s : String) (item : JsonValue) (items : List JsonValue)
  (member : String × JsonValue) (members : List (String × JsonValue))

theorem afterKey_text : afterKey column (.text s) = ' ' :: scalarLine (column + 2) s := rfl

theorem afterKey_list :
    afterKey column (.list (item :: items)) =
      '\n' :: (spaces column ++ listLines column (item :: items)) := rfl

theorem afterKey_object :
    afterKey column (.object (member :: members)) =
      '\n' :: (spaces (column + 2) ++ mapLines (column + 2) (member :: members)) := rfl

theorem afterDash_text : afterDash column (.text s) = ' ' :: scalarLine (column + 2) s := rfl

theorem afterDash_list :
    afterDash column (.list (item :: items)) =
      ' ' :: listLines (column + 2) (item :: items) := rfl

theorem afterDash_object :
    afterDash column (.object (member :: members)) =
      ' ' :: mapLines (column + 2) (member :: members) := rfl

end

/-! ## Tokens of values -/

mutual

/-- The kinds of a value's tokens. A list that is a member of a map is no block of its own. -/
def valueKinds (isMember : Bool) : JsonValue → List TokenKind
  | .text s => [.scalar s (styleOf s = .plain)]
  | .list [] => [.openList, .closeList]
  | .list (item :: more) =>
    if isMember then itemsKinds (item :: more)
    else .blockList :: itemsKinds (item :: more) ++ [.blockEnd]
  | .object [] => [.openMap, .closeMap]
  | .object (member :: more) => .blockMap :: membersKinds (member :: more) ++ [.blockEnd]
  | .null | .bool _ | .number _ => []

def itemsKinds : List JsonValue → List TokenKind
  | [] => []
  | item :: more => .item :: valueKinds false item ++ itemsKinds more

def membersKinds : List (String × JsonValue) → List TokenKind
  | [] => []
  | (name, value) :: more =>
    .key :: .scalar name true :: .value :: valueKinds true value ++ membersKinds more

end

namespace Layout

variable {column k : Int} {kind : TokenKind} {kinds : List TokenKind} {l : Layout}

def addAll (kinds : List TokenKind) (l : Layout) : Layout := ⟨l.blocks, kinds.reverse ++ l.kinds⟩

theorem addAll_cons (kind : TokenKind) (kinds : List TokenKind) (l : Layout) :
    l.addAll (kind :: kinds) = (l.add kind).addAll kinds := by
  simp [addAll, add]

theorem addAll_append (kinds more : List TokenKind) (l : Layout) :
    l.addAll (kinds ++ more) = (l.addAll kinds).addAll more := by
  simp [addAll]

theorem indent_opened (kind : TokenKind) (h : l.indent ≤ column) :
    (l.opened column kind).indent = column := by
  rw [opened]
  split
  · rfl
  · next right => exact Int.le_antisymm h (Int.not_lt.mp right)

theorem opened_self (h : l.indent = column) : l.opened column kind = l :=
  if_neg (by rw [h]; exact Int.lt_irrefl column)

theorem blocks_ne_nil (l : Layout) {column : Nat} (h : l.indent = column) : l.blocks ≠ [] := by
  intro none
  rw [indent, none] at h
  exact absurd h (by simp)

/-- A block that is opened right of another is closed left of it. -/
theorem close_opened (nonempty : l.blocks ≠ []) (right : l.indent < column) (left : k ≤ l.indent) :
    ((l.opened column kind).addAll kinds).close k =
      (l.addAll (kind :: kinds ++ [.blockEnd])).close k := by
  obtain ⟨blocks, before⟩ := l
  obtain ⟨indent, more, rfl⟩ := List.exists_cons_of_ne_nil nonempty
  rw [opened, if_pos right, addAll, close_cons (Int.lt_of_le_of_lt left right)]
  simp [addAll]

end Layout

namespace Scan

variable {l : Layout} {next : List Char} {column k : Nat}

/-- The view behind a value, where the text goes on at the column. -/
def behind (kinds : List TokenKind) (next : List Char) (k : Nat) (l : Layout) : View :=
  ⟨next, k, true, (l.addAll kinds).close k⟩

/-- Behind the colon of a key at the column the value is scanned. -/
def ScansAfterKey (v : JsonValue) : Prop :=
  ∀ ⦃l : Layout⦄ ⦃column k at_ : Nat⦄ ⦃next : List Char⦄, l.indent = column → column < at_ →
    k ≤ column → AtToken next →
      atGap (afterKey column v ++ (spaces k ++ next)) = true ∧
        ∃ w, Skips ⟨afterKey column v ++ (spaces k ++ next), at_, false, l⟩ w ∧
          Leads w (behind (valueKinds true v) next k l)

/-- Behind a dash at the column the value is scanned. -/
def ScansAfterDash (v : JsonValue) : Prop :=
  ∀ ⦃l : Layout⦄ ⦃column k : Nat⦄ ⦃next : List Char⦄, l.indent = column → k ≤ column →
    AtToken next → ∃ text, afterDash column v = ' ' :: text ∧ AtToken (text ++ (spaces k ++ next)) ∧
      Leads ⟨text ++ (spaces k ++ next), column + 2, true, l⟩ (behind (valueKinds false v) next k l)

/-! ## Lists -/

theorem atToken_listLines {items : List JsonValue} (nonempty : items ≠ []) (column : Nat)
    (rest : List Char) : AtToken (listLines column items ++ rest) := by
  rcases items with _ | ⟨item, _ | ⟨second, more⟩⟩
  · exact absurd rfl nonempty
  · exact atToken_cons.mpr (by decide)
  · exact atToken_cons.mpr (by decide)

theorem leads_items {items : List JsonValue} (nonempty : items ≠ [])
    (each : ∀ v ∈ items, ScansAfterDash v) (left : l.indent ≤ column) (token : AtToken next)
    (inside : k ≤ column) :
    Leads ⟨listLines column items ++ (spaces k ++ next), column, true, l⟩
      (behind (itemsKinds items) next k (l.opened column .blockList)) := by
  induction items generalizing l with
  | nil => exact absurd rfl nonempty
  | cons item more ih =>
    have scans := each item List.mem_cons_self
    have indent := Layout.indent_opened .blockList left
    cases more with
    | nil =>
      obtain ⟨text, after, start, leads⟩ := scans (l := (l.opened column .blockList).add .item)
        indent inside token
      rw [listLines, after, itemsKinds, itemsKinds, List.append_nil, behind, Layout.addAll_cons]
      exact (leads_item left start).trans leads
    | cons second more =>
      have others : second :: more ≠ [] := List.cons_ne_nil second more
      obtain ⟨text, after, start, leads⟩ := scans (l := (l.opened column .blockList).add .item)
        indent (Nat.le_refl column) (atToken_listLines others column (spaces k ++ next))
      have first := (leads_item left start).trans leads
      generalize l.opened column .blockList = opened at first indent ⊢
      -- No block ends before the next item, so it stands in the same list.
      have stays : ((opened.add .item).addAll (valueKinds false item)).indent = column := indent
      rw [behind, Layout.close_of_le (Int.le_of_eq stays)] at first
      have rest := ih others (fun v hv => each v (List.mem_cons_of_mem item hv))
        (Int.le_of_eq stays)
      rw [Layout.opened_self stays] at rest
      rw [listLines, after, itemsKinds, behind, Layout.addAll_append, Layout.addAll_cons]
      simpa [behind] using first.trans rest

/-! ## Maps -/

theorem atToken_mapLines {members : List (String × JsonValue)} (nonempty : members ≠ [])
    (names : ∀ m ∈ members, IsPlainName m.1) (column : Nat) (rest : List Char) :
    AtToken (mapLines column members ++ rest) := by
  obtain ⟨⟨name, value⟩, more, rfl⟩ := List.exists_cons_of_ne_nil nonempty
  have plain := names _ List.mem_cons_self
  obtain ⟨x, cs, same⟩ := List.exists_cons_of_ne_nil plain.nonempty
  have letter := plain.letters x (by rw [same]; exact List.mem_cons_self)
  have opens : opensToken x = true := by
    have solid := (opensPlain_of_isAlpha letter []).solid
    refine opensToken_iff.mpr ⟨solid.1, solid.2, ?_, ?_⟩ <;> rintro rfl <;>
      exact absurd letter (by decide)
  cases more with
  | nil =>
    simp only [mapLines, same]
    exact atToken_cons.mpr opens
  | cons second more =>
    simp only [mapLines, same]
    exact atToken_cons.mpr opens

theorem leads_members {members : List (String × JsonValue)} (nonempty : members ≠ [])
    (names : ∀ m ∈ members, IsPlainName m.1) (each : ∀ m ∈ members, ScansAfterKey m.2)
    (left : l.indent ≤ column) (token : AtToken next) (inside : k ≤ column) :
    Leads ⟨mapLines column members ++ (spaces k ++ next), column, true, l⟩
      (behind (membersKinds members) next k (l.opened column .blockMap)) := by
  induction members generalizing l with
  | nil => exact absurd rfl nonempty
  | cons member more ih =>
    obtain ⟨name, value⟩ := member
    have plain := names _ List.mem_cons_self
    have scans := each _ List.mem_cons_self
    have indent : (l.addKey column name).indent = column := Layout.indent_opened .blockMap left
    have right : column < column + name.toList.length + 1 := by omega
    have split (kinds : List TokenKind) : (l.opened column .blockMap).addAll
        (.key :: .scalar name true :: .value :: kinds) = (l.addKey column name).addAll kinds := by
      rw [Layout.addAll_cons, Layout.addAll_cons, Layout.addAll_cons, Layout.addKey]
    cases more with
    | nil =>
      obtain ⟨gap, w, skips, leads⟩ := scans indent right inside token
      rw [mapLines, membersKinds, membersKinds, List.append_nil, behind, split]
      simpa [behind] using (leads_key plain left gap skips).trans leads
    | cons second more =>
      have others : second :: more ≠ [] := List.cons_ne_nil second more
      have plains : ∀ m ∈ second :: more, IsPlainName m.1 := fun m hm =>
        names m (List.mem_cons_of_mem _ hm)
      obtain ⟨gap, w, skips, leads⟩ := scans indent right (Nat.le_refl column)
        (atToken_mapLines others plains column (spaces k ++ next))
      have first := (leads_key plain left gap skips).trans leads
      -- No block ends before the next member, so it stands in the same map.
      have stays : ((l.addKey column name).addAll (valueKinds true value)).indent = column := indent
      rw [behind, Layout.close_of_le (Int.le_of_eq stays)] at first
      have rest := ih others plains (fun m hm => each m (List.mem_cons_of_mem _ hm))
        (Int.le_of_eq stays)
      rw [Layout.opened_self stays] at rest
      rw [mapLines, membersKinds, behind, List.cons_append, List.cons_append, List.cons_append,
        split, Layout.addAll_append]
      simpa [behind] using first.trans rest

/-! ## Values -/

theorem opensToken_of_fitsPlain {x : Char} {cs : List Char} (fits : fitsPlain (x :: cs) = true) :
    opensToken x = true := by
  obtain ⟨⟨blank, break_⟩, indicator, -⟩ := opensPlain_of_fitsPlain fits []
  refine opensToken_iff.mpr ⟨blank, break_, ?_, ?_⟩
  · rintro rfl
    exact absurd indicator (by decide)
  · rintro rfl
    simp only [fitsPlain, fitsSingle, Bool.and_eq_true, List.all_eq_true] at fits
    exact absurd (fits.1.1.1.1.1.1.1 '\uFEFF' List.mem_cons_self) (by decide)

theorem atToken_scalarLine (indent : Nat) (s : String) (rest : List Char) :
    AtToken (scalarLine indent s ++ rest) := by
  rw [scalarLine]
  cases style : styleOf s with
  | plain =>
    obtain ⟨clear, fits⟩ := plain_of_styleOf style
    obtain ⟨x, cs, same⟩ := List.exists_cons_of_ne_nil (ne_nil_of_clear clear)
    simp only [same]
    exact atToken_cons.mpr (opensToken_of_fitsPlain (same ▸ fits))
  | single => exact atToken_cons.mpr (by decide)
  | double => exact atToken_cons.mpr (by decide)
  | lines => exact atToken_cons.mpr (by decide)

theorem scans_text (s : String) : ScansAfterKey (.text s) ∧ ScansAfterDash (.text s) := by
  constructor
  · intro l column k at_ next indent right inside token
    rw [afterKey_text, List.cons_append]
    refine ⟨rfl, _, skips_space (by omega) (atToken_scalarLine _ _ _), ?_⟩
    exact leads_scalar indent (by omega) token inside
  · intro l column k next indent inside token
    exact ⟨_, afterDash_text column s, atToken_scalarLine _ _ _, leads_scalar indent (by omega) token inside⟩

theorem scans_brackets {x y : Char} {opens closes : TokenKind} {v : JsonValue}
    (h : Brackets x y opens closes) (key : ∀ column, afterKey column v = [' ', x, y, '\n'])
    (dash : ∀ column, afterDash column v = [' ', x, y, '\n'])
    (kinds : ∀ isMember, valueKinds isMember v = [opens, closes]) :
    ScansAfterKey v ∧ ScansAfterDash v := by
  have token (text : List Char) : AtToken (x :: y :: '\n' :: text) := by
    cases h <;> exact atToken_cons.mpr (by decide)
  constructor
  · intro l column k at_ next indent right inside follows
    rw [key, kinds]
    exact ⟨rfl, _, skips_space (by omega) (token _),
      leads_brackets h (Nat.succ_pos _) (by omega) follows⟩
  · intro l column k next indent inside follows
    rw [kinds]
    exact ⟨_, dash column, token _, leads_brackets h (Nat.succ_pos _) (by omega) follows⟩

theorem scans_list {items : List JsonValue} (each : ∀ v ∈ items, ScansAfterDash v) :
    ScansAfterKey (.list items) ∧ ScansAfterDash (.list items) := by
  cases items with
  | nil => exact scans_brackets .list (fun _ => rfl) (fun _ => rfl) (fun _ => rfl)
  | cons item more =>
    have nonempty : item :: more ≠ [] := List.cons_ne_nil item more
    constructor
    · intro l column k at_ next indent right inside token
      have leads := leads_items nonempty each (Int.le_of_eq indent) token inside
      rw [Layout.opened_self indent] at leads
      rw [afterKey_list, List.cons_append, List.append_assoc]
      exact ⟨rfl, _, skips_line (Int.le_of_eq indent) (atToken_listLines nonempty _ _), leads⟩
    · intro l column k next indent inside token
      have right : l.indent < (column + 2 : Nat) := by omega
      have leads := leads_items nonempty each (Int.le_of_lt right) token
        (Nat.le_add_right_of_le inside)
      rw [behind, Layout.close_opened (l.blocks_ne_nil indent) right (by omega)] at leads
      exact ⟨_, afterDash_list column item more, atToken_listLines nonempty _ _, leads⟩

theorem scans_object {members : List (String × JsonValue)}
    (names : ∀ m ∈ members, IsPlainName m.1) (each : ∀ m ∈ members, ScansAfterKey m.2) :
    ScansAfterKey (.object members) ∧ ScansAfterDash (.object members) := by
  cases members with
  | nil => exact scans_brackets .map (fun _ => rfl) (fun _ => rfl) (fun _ => rfl)
  | cons member more =>
    have nonempty : member :: more ≠ [] := List.cons_ne_nil member more
    have block {l : Layout} {column k : Nat} {next : List Char} (indent : l.indent = column)
        (inside : k ≤ column) (token : AtToken next) :
        Leads ⟨mapLines (column + 2) (member :: more) ++ (spaces k ++ next), column + 2, true, l⟩
          (behind (.blockMap :: membersKinds (member :: more) ++ [.blockEnd]) next k l) := by
      have right : l.indent < (column + 2 : Nat) := by omega
      have leads := leads_members nonempty names each (Int.le_of_lt right) token
        (Nat.le_add_right_of_le inside)
      rwa [behind, Layout.close_opened (l.blocks_ne_nil indent) right (by omega)] at leads
    constructor
    · intro l column k at_ next indent right inside token
      rw [afterKey_object, List.cons_append, List.append_assoc]
      exact ⟨rfl, _, skips_line (by omega) (atToken_mapLines nonempty names _ _),
        block indent inside token⟩
    · intro l column k next indent inside token
      exact ⟨_, afterDash_object column member more, atToken_mapLines nonempty names _ _,
        block indent inside token⟩

end Scan

theorem IsData.scans {v : JsonValue} (h : IsData v) :
    Scan.ScansAfterKey v ∧ Scan.ScansAfterDash v := by
  induction h with
  | text s => exact Scan.scans_text s
  | list _ ih => exact Scan.scans_list fun v hv => (ih v hv).2
  | object names _ ih => exact Scan.scans_object names fun m hm => (ih m hm).1

end BrowserAgent.Yaml
