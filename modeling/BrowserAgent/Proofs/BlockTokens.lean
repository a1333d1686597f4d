import BrowserAgent.Proofs.LiteralScalars
import BrowserAgent.Proofs.ScanRuns

/-!
# Tokens in blocks

What the scanner makes of what is printed in blocks: a dash, a scalar in each of its styles, empty
brackets and the end of the text.
-/

namespace BrowserAgent.Yaml.Scan

variable {r s t : Scan} {v w : View} {l : Layout} {text tail : List Char} {column : Nat}

/-! ## Changes of a scan -/

theorem Shows.indent_eq (h : s.Shows v) : s.indent = v.layout.indent := by
  rw [← h.layout]
  rfl

theorem Shows.setPlaces {p : Option KeyPlace} (h : s.Shows v)
    (free : ∀ q ∈ p, q.isRequired = false) : Shows { s with places := [p] } v :=
  ⟨⟨h.calm.running, h.calm.settled_le, h.calm.count_eq, p, rfl, free⟩, h.rest, h.column,
    h.keyAllowed, h.layout⟩

theorem Shows.allowKey (h : s.Shows v) (allowed : Bool) :
    (s.allowKey allowed).Shows { v with keyAllowed := allowed } :=
  ⟨⟨h.calm.running, h.calm.settled_le, h.calm.count_eq, h.calm.places⟩, h.rest, h.column, rfl,
    h.layout⟩

theorem Calm.addFrom (h : s.Calm) (start : Mark) (kind : TokenKind) : (s.addFrom start kind).Calm :=
  ⟨h.running, Nat.le_succ_of_le h.settled_le, congrArg Nat.succ h.count_eq, h.places⟩

theorem Shows.addFrom (h : s.Shows v) (start : Mark) (kind : TokenKind) :
    (s.addFrom start kind).Shows { v with layout := v.layout.add kind } :=
  ⟨h.calm.addFrom start kind, h.rest, h.column, h.keyAllowed, congrArg (Layout.add kind) h.layout⟩

theorem Shows.moved (h : s.Shows v) (c : Cursor) :
    Shows { s with cursor := c } ⟨c.rest, c.column, c.keyAllowed, v.layout⟩ :=
  ⟨⟨h.calm.running, h.calm.settled_le, h.calm.count_eq, h.calm.places⟩, rfl, rfl, rfl, h.layout⟩

theorem Shows.take (h : s.Shows v) (n : Nat) (kind : TokenKind) :
    (s.take n kind).Shows ⟨v.text.drop n, v.column + n, v.keyAllowed, v.layout.add kind⟩ := by
  have moved := (h.moved (s.cursor.pass n)).addFrom s.cursor.mark kind
  rw [Cursor.pass_rest, Cursor.pass_column, Cursor.pass_keyAllowed, h.rest, h.column,
    h.keyAllowed] at moved
  exact moved

theorem Shows.openBlock (h : s.Shows v) (column : Nat) (kind : TokenKind) :
    (s.openBlock column add kind).Shows { v with layout := v.layout.opened column kind } := by
  rw [Scan.openBlock, h.calm.inFlow, h.indent_eq, Layout.opened]
  by_cases right : v.layout.indent < column
  · simp only [right, Bool.not_false, decide_true, Bool.and_self, if_true]
    refine ⟨?_, h.rest, h.column, h.keyAllowed, ?_⟩
    · exact Calm.addFrom (s := { s with indent := column, indents := _ :: s.indents })
        ⟨h.calm.running, h.calm.settled_le, h.calm.count_eq, h.calm.places⟩ _ kind
    · rw [← h.layout]
      rfl
  · simp only [right, decide_false, Bool.and_false, Bool.false_eq_true, if_false]
    exact h

theorem openBlock_settled (column : Nat) (kind : TokenKind) (s : Scan) :
    (s.openBlock column add kind).settled = s.settled := by
  rw [Scan.openBlock]
  split <;> rfl

theorem Calm.dropPlace_eq (h : s.Calm) : s.dropPlace = .ok { s with places := [none] } := by
  obtain ⟨p, places, free⟩ := h.places
  rw [dropPlace, places]
  cases p with
  | none =>
    show Except.ok s = _
    rw [← places]
  | some q =>
    simp only [List.head?_cons, Option.join_some, giveUp, free q rfl]
    show Except.ok { s with places := none :: s.places.tail } = _
    rw [places]
    rfl

theorem Shows.keepPlace_eq (h : s.Shows v) (right : v.layout.indent < v.column) :
    ∃ p, (∀ q ∈ p, q.isRequired = false) ∧ s.keepPlace = .ok { s with places := [p] } := by
  rw [keepPlace]
  cases allowed : s.cursor.keyAllowed with
  | false =>
    obtain ⟨p, places, free⟩ := h.calm.places
    exact ⟨p, free, by rw [← places]; rfl⟩
  | true =>
    -- Only at the indentation of the block a key is required.
    have apart : (s.indent == (s.cursor.column : Int)) = false := by
      rw [beq_eq_false_iff_ne, h.indent_eq, h.column]
      omega
    refine ⟨_, ?_, by rw [h.calm.dropPlace_eq]; rfl⟩
    rintro _ ⟨⟩
    rw [apart, Bool.and_false]

/-! ## Items -/

theorem next_item (gap : atGap tail = true) :
    Next ⟨'-' :: tail, column, true, l⟩
      (·.Shows ⟨tail, column + 1, true, (l.opened column .blockList).add .item⟩) := by
  intro r shows_
  have opened := shows_.openBlock column .blockList
  have result := ((opened.setPlaces free_none).allowKey true).take 1 .item
  refine ⟨_, ?_, result, openBlock_settled column .blockList r⟩
  have rest : r.cursor.rest = '-' :: tail := shows_.rest
  have noStart : r.cursor.atDocumentStart = false := by
    rw [Cursor.atDocumentStart, Cursor.atMark, rest]
    cases tail with
    | nil => simp
    | cons x tail =>
      have apart : '-' ≠ x := by
        rintro rfl
        cases gap
      simp [apart]
  have noEnd : r.cursor.atDocumentEnd = false := by
    rw [Cursor.atDocumentEnd, Cursor.atMark, rest]
    simp
  have column_ : r.cursor.column = column := shows_.column
  have dispatch : r.next = r.item := by
    rw [next]
    simp only [rest, noStart, noEnd, List.tail_cons, gap]
    simp
  rw [dispatch, item, shows_.calm.inFlow, shows_.keyAllowed, column_]
  simp only [opened.calm.dropPlace_eq]
  rfl

theorem leads_item (left : l.indent ≤ column) (token : AtToken text) :
    Leads ⟨'-' :: ' ' :: text, column, true, l⟩
      ⟨text, column + 2, true, (l.opened column .blockList).add .item⟩ := by
  have behind : ((l.opened column .blockList).add .item).indent ≤ (column + 1 + 1 : Nat) := by
    have := Layout.indent_opened_le .blockList left
    rw [Layout.indent_add]
    omega
  refine leads_of_next (List.cons_ne_nil _ _)
    ((next_item rfl).skips (skips_space behind token)) ?_
  have := Layout.size_opened_le column .blockList l
  simp only [View.size, Layout.size_add, List.length_cons]
  omega

/-! ## Plain scalars -/

/-- A plain scalar starts with the character. -/
structure OpensPlain (x : Char) (tail : List Char) : Prop where
  solid : isBlank x = false ∧ isBreak x = false
  notIndicator : startIndicators.contains x = false
  noMark : x = '?' ∨ x = ':' ∨ x = '-' → atGap tail = false

theorem OpensPlain.startsPlain {x : Char} (h : OpensPlain x tail) :
    startsPlain false (x :: tail) = true := by
  rw [Yaml.startsPlain]
  by_cases mark : x = '?' ∨ x = ':' ∨ x = '-'
  · have noGap := h.noMark mark
    have noBlank : tail.head?.any isBlank = false := by
      cases tail with
      | nil => rfl
      | cons y more =>
        rw [atGap, Bool.or_eq_false_iff] at noGap
        exact noGap.1
    rcases mark with rfl | rfl | rfl <;> simp [noGap, noBlank]
  · have known : ∀ y ∈ indicators, (startIndicators ++ ['?', ':', '-']).contains y = true :=
      List.all_eq_true.mp rfl
    have other : indicators.contains x = false := by
      rw [Bool.eq_false_iff]
      intro found
      have either := List.contains_iff_mem.mp (known x (List.contains_iff_mem.mp found))
      rcases List.mem_append.mp either with start | same
      · rw [← List.contains_iff_mem, h.notIndicator] at start
        cases start
      · exact mark (by simpa using same)
    rw [h.solid.1, h.solid.2, other]
    rfl

theorem next_plain {x : Char} (opens : OpensPlain x tail) (rest : r.cursor.rest = x :: tail)
    (outside : r.inFlow = false) (noStart : r.cursor.atDocumentStart = false)
    (noEnd : r.cursor.atDocumentEnd = false) :
    r.next = r.leaf (readScalar true
      (readPlain false r.indent r.cursor.mark (r.cursor.rest.length + 1) [])) := by
  have other : ∀ y ∈ startIndicators, x ≠ y := by
    rintro y hy rfl
    rw [← List.contains_iff_mem, opens.notIndicator] at hy
    cases hy
  have noMark {y : Char} (hy : y = '?' ∨ y = ':' ∨ y = '-') : (x == y && atGap tail) = false := by
    by_cases same : x = y
    · rw [opens.noMark (same ▸ hy), Bool.and_false]
    · rw [beq_eq_false_iff_ne.mpr same, Bool.false_and]
  have noBlock : (x == '|' || x == '>') = false := by
    rw [beq_eq_false_iff_ne.mpr (other '|' (by decide)),
      beq_eq_false_iff_ne.mpr (other '>' (by decide)), Bool.or_false]
  have noDirective : (r.cursor.column == 0 && (x :: tail).head? == some '%') = false := by
    rw [List.head?_cons, Bool.and_eq_false_iff, beq_eq_false_iff_ne (b := some '%')]
    exact .inr fun same => other '%' (by decide) (Option.some.inj same)
  rw [next]
  simp only [rest, noStart, noEnd, noDirective, Bool.false_eq_true, if_false]
  split
  all_goals try (next heq => exact absurd (List.cons.inj heq).1 (other _ (by decide)))
  next heq =>
    obtain ⟨rfl, rfl⟩ := List.cons.inj heq
    simp only [List.tail_cons, outside, Bool.false_or, noMark, noBlock, opens.startsPlain,
      Bool.false_and, Bool.false_eq_true, if_false, if_true, true_or, or_true]
  next heq => cases heq

theorem opensPlain_of_fitsPlain {x : Char} {cs : List Char} (fits : fitsPlain (x :: cs) = true)
    (tail : List Char) : OpensPlain x (cs ++ tail) := by
  obtain ⟨y, ys, same, notSpace, -⟩ := (plainFrom_of_fitsPlain fits (List.cons_ne_nil x cs)).starts
  obtain ⟨rfl, rfl⟩ := List.cons.inj same
  obtain ⟨break_, tab⟩ := (plainFrom_of_fitsPlain fits (List.cons_ne_nil x cs)).inline x
    List.mem_cons_self
  rw [fitsPlain] at fits
  simp only [Bool.and_eq_true, Bool.not_eq_true'] at fits
  have start := fits.1.2
  rw [startsLikeMark, Bool.or_eq_false_iff, Bool.or_eq_false_iff, Bool.or_eq_false_iff] at start
  obtain ⟨⟨⟨indicator, gap⟩, -⟩, -⟩ := start
  refine ⟨⟨by simp [isBlank, notSpace, tab], break_⟩, indicator, fun mark => ?_⟩
  have marked : (x == '?' || x == ':' || x == '-') = true := by
    rcases mark with rfl | rfl | rfl <;> rfl
  rw [marked, Bool.true_and] at gap
  cases cs with
  | nil => cases gap
  | cons y cs => exact gap

theorem atMarks_of_inside {c : Cursor} (inside : 0 < c.column) :
    c.atDocumentStart = false ∧ c.atDocumentEnd = false :=
  Bool.or_eq_false_iff.mp (atMark_of_inside inside)

/-! ## Scalars -/

section

variable {value : String} {next : List Char} {allowed : Bool} {k indent : Nat}

/-- A scalar that is read on its own, right of the block around it, and the gap behind it. -/
theorem next_leaf {isPlain : Bool} {read : Cursor → Except FormFault (List Char × Cursor)}
    {c : Cursor} (shows_ : r.Shows v) (right : v.layout.indent < v.column)
    (dispatch : r.next = r.leaf (readScalar isPlain read))
    (reads : read (r.cursor.allowKey false) = .ok (value.toList, c))
    (leads : c.LeadsTo next k true) :
    ∃ t, r.next = .ok t ∧
      t.ComesTo ⟨next, k, true, (v.layout.add (.scalar value isPlain)).close k⟩ ∧
      t.settled = r.settled := by
  obtain ⟨p, free, kept⟩ := shows_.keepPlace_eq right
  have shows' := ((shows_.setPlaces free).moved c).addFrom r.cursor.mark (.scalar value isPlain)
  refine ⟨_, ?_, ⟨shows'.calm, leads, by rw [shows'.layout]⟩, rfl⟩
  rw [dispatch, leaf, kept]
  simp only [bind, Except.bind, readScalar, reads, Except.map, String.ofList_toList]
  rfl

theorem next_plainText (fits : fitsPlain value.toList = true) (nonempty : value.toList ≠ [])
    (inside : 0 < column) (right : l.indent < column) (token : AtToken next)
    (outside : (k : Int) ≤ l.indent) :
    Next ⟨value.toList ++ '\n' :: (spaces k ++ next), column, allowed, l⟩
      (·.ComesTo ⟨next, k, true, (l.add (.scalar value true)).close k⟩) := by
  intro r shows_
  have text : r.cursor.rest = value.toList ++ '\n' :: (spaces k ++ next) := shows_.rest
  have inside : 0 < r.cursor.column := shows_.column ▸ inside
  obtain ⟨noStart, noEnd⟩ := atMarks_of_inside inside
  have enough : value.toList.length < r.cursor.rest.length + 1 := by
    rw [text, List.length_append]
    omega
  have indented : (k : Int) ≤ r.indent := shows_.indent_eq ▸ outside
  obtain ⟨after, read, rest, column_, allowed_⟩ := readPlain_of_plainFrom r.cursor.mark []
    (c := r.cursor.allowKey false) (plainFrom_of_fitsPlain fits nonempty) text inside token indented
    enough
  have leads := Cursor.leadsTo_of_spaces (n := 0) rest token
  rw [column_, allowed_] at leads
  obtain ⟨x, cs, same⟩ := List.exists_cons_of_ne_nil nonempty
  have dispatch := next_plain (opensPlain_of_fitsPlain (same ▸ fits) _)
    (by rw [text, same]; rfl) shows_.calm.inFlow noStart noEnd
  exact next_leaf shows_ right dispatch read leads

/-- A text between quotes, which tell how it is read. -/
theorem next_quotedText {quote : Char} {shown : List Char}
    (read : Mark → Nat → Cursor → Except FormFault (List Char × Cursor))
    (dispatch : ∀ (r : Scan) (tail : List Char), r.cursor.rest = quote :: tail →
      0 < r.cursor.column → r.next = r.leaf (readScalar false fun c =>
        read r.cursor.mark (r.cursor.rest.length + 1) (c.pass 1)))
    (reads : ∀ (start : Mark) (fuel : Nat) (c : Cursor),
      c.rest = shown ++ '\n' :: (spaces k ++ next) → 0 < c.column → value.toList.length < fuel →
      ReadsRest (read start) fuel c value.toList ('\n' :: (spaces k ++ next)))
    (long : value.toList.length ≤ shown.length) (inside : 0 < column) (right : l.indent < column)
    (token : AtToken next) :
    Next ⟨quote :: (shown ++ '\n' :: (spaces k ++ next)), column, allowed, l⟩
      (·.ComesTo ⟨next, k, true, (l.add (.scalar value false)).close k⟩) := by
  intro r shows_
  have text : r.cursor.rest = quote :: (shown ++ '\n' :: (spaces k ++ next)) := shows_.rest
  have inside : 0 < r.cursor.column := shows_.column ▸ inside
  have enough : value.toList.length < r.cursor.rest.length + 1 := by
    rw [text, List.length_cons, List.length_append]
    omega
  have behind : ((r.cursor.allowKey false).pass 1).rest = shown ++ '\n' :: (spaces k ++ next) := by
    rw [Cursor.pass_rest, Cursor.allowKey_rest, text]
    rfl
  obtain ⟨after, read, rest, -⟩ :=
    reads r.cursor.mark _ _ behind (Nat.add_pos_right _ Nat.one_pos) enough
  exact next_leaf shows_ right (dispatch r _ text inside) read (Cursor.leadsTo_of_break rest token)

theorem next_singleText (fits : SingleFrom value.toList) (inside : 0 < column)
    (indented : 0 < indent) (right : l.indent < column) (token : AtToken next) :
    Next ⟨singleQuoted indent value.toList ++ '\n' :: (spaces k ++ next), column, allowed, l⟩
      (·.ComesTo ⟨next, k, true, (l.add (.scalar value false)).close k⟩) := by
  rw [singleQuoted_eq, List.cons_append]
  refine next_quotedText readSingle (fun r tail text inside => ?_)
    (fun start fuel c text inside enough => ?_) (length_le_singleText indent false _) inside right
    token
  · obtain ⟨noStart, noEnd⟩ := atMarks_of_inside inside
    rw [Scan.next]
    simp only [text, noStart, noEnd, Bool.false_eq_true, if_false]
    rw [if_neg (by simp)]
  · exact readSingle_singleText start fits text (by simp) inside indented enough

theorem next_doubleText (inside : 0 < column) (right : l.indent < column) (token : AtToken next) :
    Next ⟨doubleQuoted value.toList ++ '\n' :: (spaces k ++ next), column, allowed, l⟩
      (·.ComesTo ⟨next, k, true, (l.add (.scalar value false)).close k⟩) := by
  have long : value.toList.length ≤ (value.toList.flatMap escapeChar ++ ['"']).length :=
    Nat.le_trans (length_le_escapeChars _) (List.prefix_append _ _).length_le
  rw [doubleQuoted, List.cons_append]
  refine next_quotedText readDouble (fun r tail text inside => ?_)
    (fun start fuel c text inside enough => ?_) long inside right token
  · obtain ⟨noStart, noEnd⟩ := atMarks_of_inside inside
    rw [Scan.next]
    simp only [text, noStart, noEnd, Bool.false_eq_true, if_false]
    rw [if_neg (by simp)]
  · rw [List.append_assoc] at text
    exact readDouble_escaped start text inside enough

theorem next_linesText {n : Nat} (fits : fitsLines value.toList = true) (feed : '\n' ∈ value.toList)
    (inside : 0 < column) (around : l.indent = n) (token : AtToken next) (outside : k ≤ n) :
    Next ⟨'|' :: (lineMarks value.toList ++ '\n' :: (indentLines (n + 2) true value.toList ++
        (lineEnd value.toList ++ (spaces k ++ next)))), column, allowed, l⟩
      (·.ComesTo ⟨next, k, true, (l.add (.scalar value false)).close k⟩) := by
  intro r shows_
  have text := shows_.rest
  obtain ⟨noStart, noEnd⟩ := atMarks_of_inside (c := r.cursor) (shows_.column ▸ inside)
  have dispatch : r.next = r.block true := by
    rw [Scan.next]
    simp only [text, noStart, noEnd, shows_.calm.inFlow, Bool.false_eq_true, if_false]
    simp
  obtain ⟨after, read, rest, column_, allowed_⟩ := readBlock_lines r.cursor.mark n (k := k)
    (c := r.cursor.pass 1) fits feed (by rw [Cursor.pass_rest, text]; rfl) token
    (Nat.lt_add_right 1 (Nat.lt_succ_of_le outside))
  have leads := Cursor.leadsTo_of_spaces (n := 0) rest token
  rw [column_, allowed_] at leads
  have shows' := ((shows_.setPlaces free_none).moved after).addFrom r.cursor.mark
    (.scalar value false)
  refine ⟨_, ?_, ⟨shows'.calm, leads, by rw [shows'.layout]⟩, rfl⟩
  rw [dispatch, block, shows_.calm.dropPlace_eq]
  simp only [bind, Except.bind, shows_.indent_eq, around, read, String.ofList_toList]
  rfl

theorem plain_of_styleOf (h : styleOf value = .plain) :
    isAmbiguous value = false ∧ fitsPlain value.toList = true := by
  rw [styleOf] at h
  repeat' split at h
  all_goals first
    | (exact absurd h (by decide))
    | (next fits => simpa using fits)

theorem ne_nil_of_clear (h : isAmbiguous value = false) : value.toList ≠ [] := by
  intro none
  rw [String.toList_eq_nil_iff.mp none] at h
  exact absurd h (by decide)

theorem fitsSingle_of_styleOf (h : styleOf value = .single) :
    fitsSingle value.toList = true ∧ '\n' ∉ value.toList := by
  rw [styleOf] at h
  repeat' split at h
  all_goals try exact absurd h (by decide)
  next noFeed _ fits => exact ⟨fits, fun feed => noFeed (List.contains_iff_mem.mpr feed)⟩

theorem single_of_styleOf (h : styleOf value = .single) : SingleFrom value.toList := by
  obtain ⟨fits, noFeed⟩ := fitsSingle_of_styleOf h
  rw [fitsSingle] at fits
  simp only [Bool.and_eq_true, Bool.not_eq_true', List.all_eq_true] at fits
  obtain ⟨⟨printable, indented⟩, trailing⟩ := fits
  refine ⟨fun x hx => not_tab_of_isPrintable (printable x hx), fun x hx break_ => ?_, indented,
    trailing⟩
  rcases isLineBreak_of_isPrintable (printable x hx) break_ with rfl | separator
  · exact absurd hx noFeed
  · exact separator

theorem lines_of_styleOf (h : styleOf value = .lines) :
    fitsLines value.toList = true ∧ '\n' ∈ value.toList := by
  rw [styleOf] at h
  repeat' split at h
  all_goals first
    | (exact absurd h (by decide))
    | (next feed fits => exact ⟨fits, List.contains_iff_mem.mp feed⟩)

theorem leads_scalar {n : Nat} (around : l.indent = n) (inside : n < column) (token : AtToken next)
    (outside : k ≤ n) :
    Leads ⟨scalarLine (n + 2) value ++ (spaces k ++ next), column, allowed, l⟩
      ⟨next, k, true, (l.add (.scalar value (styleOf value = .plain))).close k⟩ := by
  have right : l.indent < column := by omega
  have shown : 0 < (scalarLine (n + 2) value).length := by
    rw [scalarLine]
    cases styleOf value <;> simp only [List.length_append, List.length_cons] <;> omega
  refine leads_of_next ?_ ?_ ?_
  · exact List.append_ne_nil_of_left_ne_nil (List.ne_nil_of_length_pos shown) _
  · have positive := Nat.zero_lt_of_lt inside
    have outside' : (k : Int) ≤ l.indent := by omega
    rw [scalarLine]
    cases style : styleOf value with
    | plain =>
      obtain ⟨clear, fits⟩ := plain_of_styleOf style
      simpa using next_plainText fits (ne_nil_of_clear clear) positive right token outside'
    | single =>
      simpa using next_singleText (single_of_styleOf style) positive (Nat.succ_pos _) right token
    | double => simpa using next_doubleText positive right token
    | lines =>
      obtain ⟨fits, feed⟩ := lines_of_styleOf style
      simpa [lineEnd] using next_linesText fits feed positive around token outside
  · simp only [View.size, Layout.size_close, Layout.size_add, List.length_append]
    omega

end

/-! ## Empty brackets -/

inductive Brackets : Char → Char → TokenKind → TokenKind → Prop
  | list : Brackets '[' ']' .openList .closeList
  | map : Brackets '\x7b' '\x7d' .openMap .closeMap

/-- Between brackets, where columns mean nothing. -/
structure InBrackets (rest : List Char) (l : Layout) (s : Scan) : Prop where
  running : s.isEnded = false
  settled_le : s.settled ≤ s.count
  count_eq : s.count = s.tokens.length
  rest : s.cursor.rest = rest
  layout : s.layout = l
  places : ∃ p, s.places = [none, p] ∧ ∀ q ∈ p, q.isRequired = false

theorem InBrackets.forget (h : s.InBrackets tail l) (c : Cursor) :
    InBrackets tail l { s with places := fresh c s.places } := by
  obtain ⟨p, places, free⟩ := h.places
  refine ⟨h.running, h.settled_le, h.count_eq, h.rest, h.layout, p.filter fun q => !isStale c q, ?_,
    fun q hq => free q (Option.mem_filter_iff.mp hq).1⟩
  rw [places]
  rfl

theorem InBrackets.droppable (h : s.InBrackets tail l) (c : Cursor) : Droppable c s.places := by
  obtain ⟨p, places, free⟩ := h.places
  rw [places]
  rintro p' hp q hq _
  rcases List.mem_pair.mp hp with rfl | rfl
  · cases hq
  · exact free q hq

theorem steady_inBrackets (tail : List Char) (l : Layout) : Steady (InBrackets tail l) where
  running _ h := h.running
  settled_le _ h := h.settled_le
  settle _ _ h le := ⟨h.running, le, h.count_eq, h.rest, h.layout, h.places⟩
  droppable _ h := h.droppable _
  forget _ h := h.forget _

theorem next_opens {x y : Char} {opens closes : TokenKind} {allowed : Bool}
    (h : Brackets x y opens closes) (inside : 0 < column) (right : l.indent < column) :
    Next ⟨x :: tail, column, allowed, l⟩ (InBrackets tail (l.add opens)) := by
  intro r shows_
  have rest : r.cursor.rest = x :: tail := shows_.rest
  obtain ⟨noStart, noEnd⟩ := atMarks_of_inside (c := r.cursor) (shows_.column ▸ inside)
  have dispatch : r.next = r.openFlow opens := by
    rw [Scan.next]
    cases h <;> simp only [rest, noStart, noEnd, Bool.false_eq_true, if_false] <;> simp
  obtain ⟨p, free, kept⟩ := shows_.keepPlace_eq right
  refine ⟨({ r with places := [none, p] }.allowKey true).take 1 opens, ?_, ?_, rfl⟩
  · rw [dispatch, openFlow, kept]
    rfl
  · refine ⟨shows_.calm.running, Nat.le_succ_of_le shows_.calm.settled_le,
      congrArg Nat.succ shows_.calm.count_eq, ?_, congrArg (Layout.add opens) shows_.layout, p, rfl,
      free⟩
    show r.cursor.rest.drop 1 = tail
    rw [rest]
    rfl

theorem next_closes {x y : Char} {opens closes : TokenKind} (h : Brackets x y opens closes)
    (inside : r.InBrackets (y :: tail) l) :
    ∃ t, r.next = .ok t ∧ t.Shows ⟨tail, r.cursor.column + 1, false, l.add closes⟩ ∧
      t.settled = r.settled := by
  obtain ⟨p, places, free⟩ := inside.places
  have rest := inside.rest
  have noStart : r.cursor.atDocumentStart = false := by
    rw [Cursor.atDocumentStart, Cursor.atMark, rest]
    cases h <;> simp
  have noEnd : r.cursor.atDocumentEnd = false := by
    rw [Cursor.atDocumentEnd, Cursor.atMark, rest]
    cases h <;> simp
  have dispatch : r.next = r.closeFlow closes := by
    rw [Scan.next]
    cases h <;> simp only [rest, noStart, noEnd, Bool.false_eq_true, if_false] <;> simp
  refine ⟨({ r with places := [p] }.allowKey false).take 1 closes, ?_, ?_, rfl⟩
  · have dropped : r.dropPlace = .ok r := by
      rw [dropPlace, places]
      rfl
    have inFlow : r.inFlow = true := by
      rw [Scan.inFlow, places]
      rfl
    rw [dispatch, closeFlow, dropped]
    simp only [bind, Except.bind, inFlow, if_true, places]
    rfl
  · refine ⟨⟨inside.running, Nat.le_succ_of_le inside.settled_le, congrArg Nat.succ inside.count_eq,
      p, rfl, free⟩, ?_, rfl, rfl, congrArg (Layout.add closes) inside.layout⟩
    show r.cursor.rest.drop 1 = tail
    rw [rest]
    rfl

theorem runs_closes {x y : Char} {opens closes : TokenKind} (h : Brackets x y opens closes)
    {P : Scan → Prop} (shown : ∀ t column', t.Shows ⟨tail, column', false, l.add closes⟩ → P t) :
    Runs 1 (InBrackets (y :: tail) l) P := by
  refine runs_of_advance (steady_inBrackets _ _) fun s hs => ?_
  have token : AtToken s.cursor.rest := by
    rw [hs.rest]
    cases h <;> exact atToken_cons.mpr (by decide)
  have reached : s.cursor.toToken s.inFlow = s.cursor := Cursor.toToken_of_atToken _ token
  have kept := hs.forget s.cursor
  have advance : s.advance = { s with places := fresh s.cursor s.places }.next := by
    have inFlow : { s with places := fresh s.cursor s.places }.inFlow = true := by
      obtain ⟨p, places, -⟩ := kept.places
      rw [Scan.inFlow, places]
      rfl
    have nonempty : s.cursor.rest.isEmpty = false := by
      rw [hs.rest]
      rfl
    rw [Scan.advance, reached]
    simp only [dropStale_eq (hs.droppable s.cursor), bind, Except.bind, closeTo, inFlow, if_true,
      nonempty, Bool.false_eq_true, if_false]
  obtain ⟨t, next, shows_, settled⟩ := next_closes h kept
  exact ⟨t, advance.trans next, shown t _ shows_, settled⟩

theorem leads_brackets {x y : Char} {opens closes : TokenKind} {next : List Char} {allowed : Bool}
    {k : Nat} (h : Brackets x y opens closes) (inside : 0 < column) (right : l.indent < column)
    (token : AtToken next) :
    Leads ⟨x :: y :: '\n' :: (spaces k ++ next), column, allowed, l⟩
      ⟨next, k, true, ((l.add opens).add closes).close k⟩ := by
  refine ⟨2, ?_, ?_⟩
  · exact (runs_of_next (List.cons_ne_nil _ _) (next_opens h inside right)).trans
      (runs_closes h fun t column' shows_ => (Skips.line k token).comesTo shows_)
  · simp only [View.size, Layout.size_close, Layout.size_add, List.length_cons, List.length_append]
    omega

/-! ## The end of the text -/

end BrowserAgent.Yaml.Scan
