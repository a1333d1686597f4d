import BrowserAgent.Proofs.TokenGaps
import BrowserAgent.Yaml.Token

/-!
# Runs of the scanner

A step of the scanner adds a token or settles one. How many tokens are settled when the next one is
added does not matter to what is scanned: so a run is followed from token to token, and the fuel is
counted by the tokens that are settled in the end.

Between two tokens outside of brackets only a part of a scan counts for what comes next: the text,
the column, whether a key may start, the blocks around the cursor and the kinds of the tokens so
far. The next token closes the blocks that it stands left of.
-/

namespace BrowserAgent.Yaml

namespace Scan

section

variable {P Q R : Scan → Prop} {m n : Nat} {s : Scan}

/-! ## Forgotten places -/

theorem mapM_eq_ok {ε α β : Type} {f : α → Except ε β} {g : α → β} {l : List α}
    (h : ∀ a ∈ l, f a = .ok (g a)) : l.mapM f = .ok (l.map g) := by
  induction l with
  | nil => rfl
  | cons a l ih =>
    rw [List.mapM_cons, h a List.mem_cons_self, ih fun b hb => h b (List.mem_cons_of_mem a hb)]
    rfl

/-- No key has to start at a place that is stale. -/
def Droppable (c : Cursor) (places : List (Option KeyPlace)) : Prop :=
  ∀ p ∈ places, ∀ q ∈ p, isStale c q = true → q.isRequired = false

/-- The places where a key could still start. -/
def fresh (c : Cursor) (places : List (Option KeyPlace)) : List (Option KeyPlace) :=
  places.map fun p => p.filter fun q => !isStale c q

theorem dropStale_eq (h : Droppable s.cursor s.places) :
    s.dropStale = .ok { s with places := fresh s.cursor s.places } := by
  rw [dropStale, mapM_eq_ok (g := fun p => p.filter fun q => !isStale s.cursor q)]
  · rfl
  intro p hp
  cases p with
  | none => rfl
  | some q =>
    cases stale : isStale s.cursor q with
    | true => simp [Option.filter_some, stale, giveUp, h _ hp q rfl stale]
    | false => simp [Option.filter_some, stale]

/-! ## Runs -/

/-- What holds of a scan that goes on, whatever is settled and also once places are forgotten. -/
structure Steady (P : Scan → Prop) : Prop where
  running : ∀ s, P s → s.isEnded = false
  settled_le : ∀ s, P s → s.settled ≤ s.count
  settle : ∀ s n, P s → n ≤ s.count → P { s with settled := n }
  droppable : ∀ s, P s → Droppable s.cursor s.places
  forget : ∀ s, P s → P { s with places := fresh s.cursor s.places }

/-- Each scan of the first kind goes on for so many tokens to one of the second. -/
def Runs (n : Nat) (P Q : Scan → Prop) : Prop :=
  ∀ s, P s → ∃ k t, Q t ∧ k + s.settled = n + t.settled ∧ ∀ fuel, s.run (k + fuel) = t.run fuel

theorem Runs.trans (h : Runs m P Q) (h' : Runs n Q R) : Runs (m + n) P R := by
  intro s hs
  obtain ⟨k, t, ht, count, ran⟩ := h s hs
  obtain ⟨k', u, hu, count', ran'⟩ := h' t ht
  refine ⟨k + k', u, hu, by omega, fun fuel => ?_⟩
  rw [Nat.add_assoc, ran, ran']

/-- One token is added, as soon as those before it are settled that can be. -/
theorem runs_of_advance (steady : Steady P)
    (advance : ∀ s, P s → ∃ t, s.advance = .ok t ∧ Q t ∧ t.settled = s.settled) : Runs 1 P Q := by
  intro s hs
  -- By induction on the tokens that can be settled before another one is looked for.
  induction left : s.count - s.settled generalizing s with
  | zero =>
    have all : s.settled = s.count := by
      have := steady.settled_le s hs
      omega
    obtain ⟨t, next, ht, same⟩ := advance s hs
    refine ⟨1, t, ht, by rw [same], fun fuel => ?_⟩
    have stepped : s.step = .ok t := by
      have unsettled : s.isOpen = true := by rw [isOpen, beq_iff_eq.mpr all, Bool.true_or]
      rw [step, if_pos all]
      simp only [bind, Except.bind, unsettled, if_true, next]
    rw [Nat.add_comm 1, run, steady.running s hs, stepped]
    rfl
  | succ left ih =>
    have some_ : s.settled ≠ s.count := by omega
    have kept := steady.forget s hs
    have stepped : s.step = (if { s with places := fresh s.cursor s.places }.isOpen then
        { s with places := fresh s.cursor s.places }.advance
      else .ok { s with places := fresh s.cursor s.places, settled := s.settled + 1 }) := by
      rw [step, if_neg some_, dropStale_eq (steady.droppable s hs)]
      rfl
    cases unsettled : { s with places := fresh s.cursor s.places }.isOpen with
    | true =>
      obtain ⟨t, next, ht, same⟩ := advance _ kept
      refine ⟨1, t, ht, by rw [same], fun fuel => ?_⟩
      rw [unsettled, if_pos rfl, next] at stepped
      rw [Nat.add_comm 1, run, steady.running s hs, stepped]
      rfl
    | false =>
      have below : s.settled + 1 ≤ s.count := by
        have := steady.settled_le s hs
        omega
      obtain ⟨k, t, ht, count, ran⟩ := ih _ (steady.settle _ _ kept below) (by dsimp only; omega)
      refine ⟨k + 1, t, ht, by dsimp only at count; omega, fun fuel => ?_⟩
      rw [unsettled, if_neg Bool.false_ne_true] at stepped
      rw [Nat.add_right_comm, run, steady.running s hs, stepped]
      exact ran fuel

end

end Scan

/-! ## Blocks -/

/-- The columns of the blocks around the cursor, the innermost first, and the kinds of the tokens so
far, the last one first. -/
structure Layout where
  blocks : List Int
  kinds : List TokenKind

namespace Layout

variable {column outer : Int} {more : List Int} {kinds : List TokenKind} {l : Layout}

/-- The column of the innermost block. -/
def indent (l : Layout) : Int := l.blocks.headD (-1)

def add (kind : TokenKind) (l : Layout) : Layout := ⟨l.blocks, kind :: l.kinds⟩

/-- A block is opened at the column if it is right of the block around it. -/
def opened (column : Int) (kind : TokenKind) (l : Layout) : Layout :=
  if l.indent < column then ⟨column :: l.blocks, kind :: l.kinds⟩ else l

def closeFrom (column : Int) : List Int → List TokenKind → Layout
  | indent :: outer :: more, kinds =>
    if column < indent then closeFrom column (outer :: more) (.blockEnd :: kinds)
    else ⟨indent :: outer :: more, kinds⟩
  | blocks, kinds => ⟨blocks, kinds⟩

/-- The blocks right of the column are closed. -/
def close (column : Int) (l : Layout) : Layout := closeFrom column l.blocks l.kinds

def size (l : Layout) : Nat := l.blocks.length + l.kinds.length

theorem close_of_le (h : l.indent ≤ column) : l.close column = l := by
  rcases l with ⟨_ | ⟨indent, _ | ⟨outer, more⟩⟩, kinds⟩
  · rfl
  · rfl
  · exact if_neg (Int.not_lt.mpr h)

theorem close_cons {indent : Int} (h : column < indent) :
    close column ⟨indent :: outer :: more, kinds⟩ =
      close column ⟨outer :: more, .blockEnd :: kinds⟩ := by
  rw [close, closeFrom, if_pos h, close]

theorem size_close (column : Int) (l : Layout) : (l.close column).size = l.size := by
  obtain ⟨blocks, kinds⟩ := l
  induction blocks generalizing kinds with
  | nil => rfl
  | cons indent more ih =>
    cases more with
    | nil => rfl
    | cons outer more =>
      by_cases left : column < indent
      · rw [close_cons left, ih]
        simp only [size, List.length_cons]
        omega
      · rw [close_of_le (Int.not_lt.mp left)]

theorem size_opened_le (column : Int) (kind : TokenKind) (l : Layout) :
    (l.opened column kind).size ≤ l.size + 2 := by
  rw [opened]
  split
  · simp only [size, List.length_cons]
    omega
  · omega

theorem indent_add (kind : TokenKind) (l : Layout) : (l.add kind).indent = l.indent := rfl

theorem indent_opened_le (kind : TokenKind) (h : l.indent ≤ column) :
    (l.opened column kind).indent ≤ column := by
  rw [opened]
  split
  · exact Int.le_refl column
  · exact h

theorem size_add (kind : TokenKind) (l : Layout) : (l.add kind).size = l.size + 1 := rfl

end Layout

namespace Scan

variable {s : Scan} {column : Int}

def layout (s : Scan) : Layout := ⟨s.indent :: s.indents, s.tokens.map Token.kind⟩

theorem closeBlocks_of_le (h : s.indent ≤ column) (indents : List Int) :
    closeBlocks column indents s = s := by
  cases indents with
  | nil => rfl
  | cons outer more => rw [closeBlocks, if_neg (Int.not_lt.mpr h)]

/-- Closing blocks changes nothing but the layout. -/
structure Closed (column : Int) (s t : Scan) : Prop where
  layout : t.layout = s.layout.close column
  cursor : t.cursor = s.cursor
  places : t.places = s.places
  settled : t.settled = s.settled
  isEnded : t.isEnded = s.isEnded
  count_le : s.count ≤ t.count
  count_eq : s.count = s.tokens.length → t.count = t.tokens.length

theorem closed_closeBlocks (column : Int) (s : Scan) :
    Closed column s (closeBlocks column s.indents s) := by
  induction h : s.indents generalizing s with
  | nil =>
    refine ⟨?_, rfl, rfl, rfl, rfl, Nat.le_refl _, id⟩
    rw [closeBlocks, layout, h]
    rfl
  | cons outer more ih =>
    rw [closeBlocks]
    split
    · next left =>
      have inner := ih ({ s with indent := outer, indents := more }.add .blockEnd) rfl
      refine ⟨?_, inner.cursor, inner.places, inner.settled, inner.isEnded,
        Nat.le_of_succ_le inner.count_le, fun counted => inner.count_eq ?_⟩
      · rw [inner.layout, layout, layout, h, Layout.close_cons left]
        rfl
      · exact congrArg Nat.succ counted
    · next right =>
      refine ⟨?_, rfl, rfl, rfl, rfl, Nat.le_refl _, id⟩
      rw [Layout.close_of_le (Int.not_lt.mp right)]

end Scan

/-! ## Views -/

/-- What counts of a scan for the tokens to come. -/
structure View where
  text : List Char
  column : Nat
  keyAllowed : Bool
  layout : Layout

/-- A bound for the work to come, which every token makes smaller. -/
def View.size (v : View) : Nat := 6 * v.text.length + v.layout.size

namespace Scan

variable {s t : Scan} {v w : View}

/-- Outside of brackets, and no key has to start at a place in mind. -/
structure Calm (s : Scan) : Prop where
  running : s.isEnded = false
  settled_le : s.settled ≤ s.count
  count_eq : s.count = s.tokens.length
  places : ∃ p, s.places = [p] ∧ ∀ q ∈ p, q.isRequired = false

theorem free_none : ∀ q ∈ (none : Option KeyPlace), q.isRequired = false := nofun

/-- The scan has the view. -/
structure Shows (s : Scan) (v : View) : Prop where
  calm : s.Calm
  rest : s.cursor.rest = v.text
  column : s.cursor.column = v.column
  keyAllowed : s.cursor.keyAllowed = v.keyAllowed
  layout : s.layout = v.layout

/-- The scan has the view once it has passed the gap and closed the blocks that end there. -/
structure ComesTo (s : Scan) (v : View) : Prop where
  calm : s.Calm
  cursor : s.cursor.LeadsTo v.text v.column v.keyAllowed
  layout : s.layout.close v.column = v.layout

theorem Calm.inFlow (h : s.Calm) : s.inFlow = false := by
  obtain ⟨p, places, -⟩ := h.places
  rw [Scan.inFlow, places]
  rfl

theorem Calm.droppable (h : s.Calm) (c : Cursor) : Droppable c s.places := by
  obtain ⟨p, places, free⟩ := h.places
  rw [places]
  intro p' hp q hq _
  rw [List.mem_singleton.mp hp] at hq
  exact free q hq

theorem Calm.forget (h : s.Calm) (c : Cursor) : Calm { s with places := fresh c s.places } := by
  obtain ⟨p, places, free⟩ := h.places
  refine ⟨h.running, h.settled_le, h.count_eq, p.filter fun q => !isStale c q, ?_, ?_⟩
  · rw [places]
    rfl
  · intro q hq
    exact free q (Option.mem_filter_iff.mp hq).1

theorem steady_comesTo (v : View) : Steady fun s => s.ComesTo v where
  running _ h := h.calm.running
  settled_le _ h := h.calm.settled_le
  settle _ _ h le := ⟨⟨h.calm.running, le, h.calm.count_eq, h.calm.places⟩, h.cursor, h.layout⟩
  droppable _ h := h.calm.droppable _
  forget _ h := ⟨h.calm.forget _, h.cursor, h.layout⟩

theorem Closed.calm {column : Int} (h : Closed column s t) (calm : s.Calm) : t.Calm where
  running := h.isEnded.trans calm.running
  settled_le := by
    rw [h.settled]
    exact Nat.le_trans calm.settled_le h.count_le
  count_eq := h.count_eq calm.count_eq
  places := by
    rw [h.places]
    exact calm.places

/-- A scan that comes to a view goes on from there, or ends. -/
theorem advance_of_comesTo (h : s.ComesTo v) :
    ∃ r : Scan, r.Shows v ∧ r.settled = s.settled ∧
      s.advance = if v.text.isEmpty then r.finish else r.next := by
  have outside := h.calm.inFlow
  have reached : Calm { s with cursor := s.cursor.toToken false } :=
    ⟨h.calm.running, h.calm.settled_le, h.calm.count_eq, h.calm.places⟩
  have dropped := dropStale_eq (reached.droppable (s.cursor.toToken false))
  have kept := reached.forget (s.cursor.toToken false)
  have closed := closed_closeBlocks v.column
    { s with
      cursor := s.cursor.toToken false
      places := fresh (s.cursor.toToken false) s.places }
  refine ⟨_, ⟨closed.calm kept, ?_, ?_, ?_, closed.layout.trans h.layout⟩, closed.settled, ?_⟩
  · rw [closed.cursor, h.cursor.rest]
  · rw [closed.cursor, h.cursor.column]
  · rw [closed.cursor, h.cursor.keyAllowed]
  · have rest := congrArg Cursor.rest closed.cursor
    rw [advance, outside]
    simp only [dropped, bind, Except.bind, closeTo, kept.inFlow, h.cursor.column]
    rw [if_neg Bool.false_ne_true, rest, h.cursor.rest]

/-- From one view the scan comes to another, and every token makes the view smaller. -/
def Leads (v w : View) : Prop :=
  ∃ n, Runs n (ComesTo · v) (ComesTo · w) ∧ n + w.size ≤ v.size

theorem Leads.trans {u : View} (h : Leads v w) (h' : Leads w u) : Leads v u := by
  obtain ⟨m, ran, size⟩ := h
  obtain ⟨n, ran', size'⟩ := h'
  exact ⟨m + n, ran.trans ran', by omega⟩

/-- What the token at the start of the view does. -/
def Next (v : View) (P : Scan → Prop) : Prop :=
  ∀ r : Scan, r.Shows v → ∃ t, r.next = .ok t ∧ P t ∧ t.settled = r.settled

theorem runs_of_next (nonempty : v.text ≠ []) {P : Scan → Prop} (h : Next v P) :
    Runs 1 (ComesTo · v) P := by
  refine runs_of_advance (steady_comesTo v) fun s hs => ?_
  obtain ⟨r, shows_, same, advance⟩ := advance_of_comesTo hs
  obtain ⟨t, next, ht, settled⟩ := h r shows_
  refine ⟨t, ?_, ht, settled.trans same⟩
  rw [advance, if_neg (by simpa using nonempty), next]

/-! ## Gaps -/

/-- What a view comes to behind the gap at its start. -/
inductive Skips : View → View → Prop
  | spaces {text : List Char} {column : Nat} {keyAllowed : Bool} {l : Layout} (n : Nat)
      (next : AtToken text) :
    Skips ⟨Yaml.spaces n ++ text, column, keyAllowed, l⟩
      ⟨text, column + n, keyAllowed, l.close (column + n : Nat)⟩
  | line {text : List Char} {column : Nat} {keyAllowed : Bool} {l : Layout} (k : Nat)
      (next : AtToken text) :
    Skips ⟨'\n' :: (Yaml.spaces k ++ text), column, keyAllowed, l⟩ ⟨text, k, true, l.close k⟩

theorem skips_space {text : List Char} {column : Nat} {allowed : Bool} {l : Layout}
    (indent : l.indent ≤ (column + 1 : Nat)) (token : AtToken text) :
    Skips ⟨' ' :: text, column, allowed, l⟩ ⟨text, column + 1, allowed, l⟩ := by
  have skips : Skips ⟨spaces 1 ++ text, column, allowed, l⟩
      ⟨text, column + 1, allowed, l.close (column + 1 : Nat)⟩ := .spaces 1 token
  rwa [Layout.close_of_le indent] at skips

theorem skips_line {text : List Char} {column k : Nat} {allowed : Bool} {l : Layout}
    (indent : l.indent ≤ k) (token : AtToken text) :
    Skips ⟨'\n' :: (spaces k ++ text), column, allowed, l⟩ ⟨text, k, true, l⟩ := by
  have skips : Skips ⟨'\n' :: (spaces k ++ text), column, allowed, l⟩
      ⟨text, k, true, l.close k⟩ := .line k token
  rwa [Layout.close_of_le indent] at skips

theorem Skips.comesTo (h : Skips v w) (shows_ : s.Shows v) : s.ComesTo w := by
  cases h with
  | spaces n next =>
    have leads := Cursor.leadsTo_of_spaces shows_.rest next
    rw [shows_.column, shows_.keyAllowed] at leads
    exact ⟨shows_.calm, leads, by rw [shows_.layout]⟩
  | line k next =>
    exact ⟨shows_.calm, Cursor.leadsTo_of_break shows_.rest next, by rw [shows_.layout]⟩

theorem Skips.size_le (h : Skips v w) : w.size ≤ v.size := by
  cases h with
  | spaces n next | line n next =>
    simp only [View.size, Layout.size_close, List.length_append, List.length_cons]
    omega

theorem Next.skips {u : View} (h : Next v (·.Shows u)) (skips : Skips u w) :
    Next v (·.ComesTo w) := fun r shows_ =>
  let ⟨t, next, shows', settled⟩ := h r shows_
  ⟨t, next, skips.comesTo shows', settled⟩

theorem leads_of_next (nonempty : v.text ≠ []) (next : Next v (·.ComesTo w))
    (smaller : w.size < v.size) : Leads v w :=
  ⟨1, runs_of_next nonempty next, by omega⟩

end Scan

end BrowserAgent.Yaml
