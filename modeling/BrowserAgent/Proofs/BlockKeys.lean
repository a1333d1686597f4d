import BrowserAgent.Proofs.BlockTokens

/-!
# Keys of printed maps

A name without quotes is kept in mind until its colon comes. There a key starts after all, and with
it a map if the name stands right of the block around it.
-/

namespace BrowserAgent.Yaml

/-- A name that is written without quotes, and short enough for a key on one line. -/
structure IsPlainName (name : String) : Prop where
  nonempty : name.toList ≠ []
  letters : ∀ x ∈ name.toList, x.isAlpha = true
  short : name.toList.length ≤ 256
  clear : isAmbiguous name = false

/-- A key and its colon, with the map that may start at the key. -/
def Layout.addKey (column : Nat) (name : String) (l : Layout) : Layout :=
  (((l.opened column .blockMap).add .key).add (.scalar name true)).add .value

namespace Scan

variable {r s t : Scan} {l : Layout} {name : String} {text tail : List Char} {column : Nat}

theorem opensPlain_of_isAlpha {x : Char} (h : x.isAlpha = true) (tail : List Char) :
    OpensPlain x tail := by
  have other {y : Char} (hy : y.isAlpha = false) : x ≠ y := by
    rintro rfl
    rw [h] at hy
    cases hy
  refine ⟨⟨?_, ?_⟩, ?_, ?_⟩
  · simp [isBlank, other (y := ' ') (by decide), other (y := '\t') (by decide)]
  · simp [isBreak, other (y := '\n') (by decide), other (y := '\r') (by decide),
      other (y := '\u0085') (by decide), other (y := '\u2028') (by decide),
      other (y := '\u2029') (by decide)]
  · rw [Bool.eq_false_iff]
    intro found
    have none : ∀ y ∈ startIndicators, (!y.isAlpha) = true := List.all_eq_true.mp rfl
    have noLetter := none x (List.contains_iff_mem.mp found)
    rw [h] at noLetter
    cases noLetter
  · rintro (rfl | rfl | rfl) <;> exact absurd h (by decide)

theorem plainWord_name {cs : List Char} (letters : ∀ x ∈ cs, x.isAlpha = true)
    (gap : atGap tail = true) : plainWord false (cs ++ ':' :: tail) = (cs, ':' :: tail) := by
  induction cs with
  | nil => simp [plainWord, gap]
  | cons x cs ih =>
    have opens := opensPlain_of_isAlpha (letters x List.mem_cons_self) []
    have colon : x ≠ ':' := by
      rintro rfl
      exact absurd (letters ':' List.mem_cons_self) (by decide)
    rw [List.cons_append, plainWord, ih fun y hy => letters y (List.mem_cons_of_mem x hy),
      isRefusedColon_outside, opens.solid.1, opens.solid.2]
    simp [colon]

theorem atMarks_of_isAlpha {c : Cursor} {x : Char} (rest : c.rest = x :: tail)
    (letter : x.isAlpha = true) : c.atDocumentStart = false ∧ c.atDocumentEnd = false := by
  have other {y : Char} (hy : y.isAlpha = false) : y ≠ x := by
    rintro rfl
    rw [letter] at hy
    cases hy
  rw [Cursor.atDocumentStart, Cursor.atDocumentEnd, Cursor.atMark, Cursor.atMark, rest]
  simp [other (y := '-') (by decide), other (y := '.') (by decide)]

theorem readPlain_name {c : Cursor} {indent : Int} {fuel : Nat} (start : Mark)
    (plain : IsPlainName name) (rest : c.rest = name.toList ++ ':' :: tail)
    (gap : atGap tail = true) :
    readPlain false indent start (fuel + 1) [] c =
      .ok (name.toList, c.pass name.toList.length) := by
  obtain ⟨x, cs, same⟩ := List.exists_cons_of_ne_nil plain.nonempty
  have letter := plain.letters x (by rw [same]; exact List.mem_cons_self)
  obtain ⟨noStart, noEnd⟩ := atMarks_of_isAlpha (c := c) (by rw [rest, same]; rfl) letter
  have notHash : x ≠ '#' := by
    rintro rfl
    exact absurd letter (by decide)
  have goesOn : (c.isDone || decide (c.rest.head? = some '#')) = false := by
    rw [Cursor.isDone, noStart, noEnd, rest, same]
    simp [notHash]
  have filled : name.toList.isEmpty = false := by
    rw [same]
    rfl
  have stops : (!Option.any (fun x => isBlank x || isBreak x) (':' :: tail).head?) = true := rfl
  rw [readPlain, goesOn, rest, plainWord_name plain.letters gap]
  simp only [isRefusedColon_outside, filled, stops, Bool.false_eq_true, if_false, if_true,
    List.nil_append]

/-! ## Names in mind -/

/-- At the colon behind a name, with the place in mind where it starts. -/
structure Named (name : String) (tail : List Char) (column : Nat) (l : Layout) (s : Scan) : Prop
    where
  running : s.isEnded = false
  settled_le : s.settled ≤ s.count
  count_eq : s.count = s.tokens.length
  rest : s.cursor.rest = ':' :: tail
  reached : s.cursor.column = column + name.toList.length
  layout : s.layout = l.add (.scalar name true)
  place : ∃ q, s.places = [some q] ∧ isStale s.cursor q = false ∧ q.before + 1 = s.count ∧
    q.mark.column = column

theorem steady_named (name : String) (tail : List Char) (column : Nat) (l : Layout) :
    Steady (Named name tail column l) := by
  have same {s : Scan} (h : s.Named name tail column l) : fresh s.cursor s.places = s.places := by
    obtain ⟨q, places, stale, -⟩ := h.place
    rw [places]
    simp [fresh, Option.filter_some, stale]
  refine ⟨fun s h => h.running, fun s h => h.settled_le, fun s n h le => ?_, fun s h => ?_,
    fun s h => ?_⟩
  · exact ⟨h.running, le, h.count_eq, h.rest, h.reached, h.layout, h.place⟩
  · obtain ⟨q, places, stale, -⟩ := h.place
    rw [places]
    intro p hp q' hq stale'
    rw [List.mem_singleton.mp hp] at hq
    obtain rfl := Option.some.inj hq
    rw [stale] at stale'
    cases stale'
  · rw [same h]
    exact h

theorem byteCount_le (cs : List Char) : Cursor.byteCount cs ≤ 4 * cs.length := by
  induction cs with
  | nil => exact Nat.le_refl _
  | cons x cs ih =>
    have one : Cursor.byteCount (x :: cs) = Cursor.byteCount [x] + Cursor.byteCount cs :=
      Cursor.byteCount_append [x] cs
    have size : Cursor.byteCount [x] ≤ 4 := by
      show 0 + x.utf8Size ≤ 4
      have := x.utf8Size_le_four
      omega
    rw [one, List.length_cons]
    omega

theorem next_name (plain : IsPlainName name) (gap : atGap tail = true) :
    Next ⟨name.toList ++ ':' :: tail, column, true, l⟩ (Named name tail column l) := by
  intro r shows_
  have rest : r.cursor.rest = name.toList ++ ':' :: tail := shows_.rest
  obtain ⟨x, cs, same⟩ := List.exists_cons_of_ne_nil plain.nonempty
  have letter := plain.letters x (by rw [same]; exact List.mem_cons_self)
  have starts : r.cursor.rest = x :: (cs ++ ':' :: tail) := by
    rw [rest, same]
    rfl
  obtain ⟨noStart, noEnd⟩ := atMarks_of_isAlpha starts letter
  have dispatch := next_plain (opensPlain_of_isAlpha letter _) starts shows_.calm.inFlow noStart
    noEnd
  obtain ⟨required, kept⟩ : ∃ required, r.keepPlace =
      .ok { r with places := [some ⟨r.count, required, r.cursor.mark⟩] } := by
    refine ⟨!r.inFlow && r.indent == (r.cursor.column : Int), ?_⟩
    rw [keepPlace, shows_.keyAllowed, shows_.calm.dropPlace_eq]
    rfl
  have read : readPlain false r.indent r.cursor.mark (r.cursor.rest.length + 1) []
      (r.cursor.allowKey false) =
        .ok (name.toList, (r.cursor.allowKey false).pass name.toList.length) :=
    readPlain_name r.cursor.mark plain rest gap
  -- The name is short enough for its place not to be given up before the colon.
  have near : isStale ((r.cursor.allowKey false).pass name.toList.length)
      ⟨r.count, required, r.cursor.mark⟩ = false := by
    have bytes := byteCount_le (r.cursor.rest.take name.toList.length)
    have few := List.length_take_le name.toList.length r.cursor.rest
    have short := plain.short
    have index : r.cursor.index + Cursor.byteCount (r.cursor.rest.take name.toList.length) ≤
        r.cursor.index + 1024 := by omega
    rw [isStale, Bool.or_eq_false_iff, decide_eq_false_iff_not, decide_eq_false_iff_not]
    exact ⟨Nat.lt_irrefl _, Nat.not_lt.mpr index⟩
  refine ⟨{ r with
    cursor := (r.cursor.allowKey false).pass name.toList.length
    places := [some ⟨r.count, required, r.cursor.mark⟩] }.addFrom r.cursor.mark (.scalar name true),
    ?_, ?_, rfl⟩
  · rw [dispatch, leaf, kept]
    simp only [bind, Except.bind, readScalar, read, Except.map, String.ofList_toList]
    rfl
  · refine ⟨shows_.calm.running, Nat.le_succ_of_le shows_.calm.settled_le,
      congrArg Nat.succ shows_.calm.count_eq, ?_, ?_, congrArg (Layout.add _) shows_.layout, _, rfl,
      near, rfl, shows_.column⟩
    · show r.cursor.rest.drop name.toList.length = ':' :: tail
      rw [rest, List.drop_left]
    · exact congrArg (· + name.toList.length) shows_.column

/-! ## Colons -/

/-- The key and the map that may start at it are put in front of the name. -/
theorem openBlock_key {q : KeyPlace} (named : r.Named name tail column l)
    (places : r.places = [some q]) (before : q.before + 1 = r.count)
    (marked : q.mark.column = column) :
    ∃ s, (r.insert q .key).openBlock q.mark.column (insert q) .blockMap = s ∧
      s.layout = ((l.opened column .blockMap).add .key).add (.scalar name true) ∧
      s.cursor = r.cursor ∧ s.places = r.places ∧ s.settled = r.settled ∧
      s.isEnded = r.isEnded ∧ s.count = s.tokens.length ∧ r.count ≤ s.count := by
  obtain ⟨tok, toks, tokens, kind, kinds⟩ : ∃ tok toks, r.tokens = tok :: toks ∧
      tok.kind = .scalar name true ∧ toks.map Token.kind = l.kinds :=
    List.map_eq_cons_iff.mp (congrArg Layout.kinds named.layout)
  have blocks : r.indent :: r.indents = l.blocks := congrArg Layout.blocks named.layout
  have indent : r.indent = l.indent := by
    rw [Layout.indent, ← blocks]
    rfl
  have outside : (r.insert q .key).inFlow = false := by
    show decide (1 < r.places.length) = false
    rw [places]
    rfl
  have later : r.count - q.before = 1 := by omega
  have later' : r.count + 1 - q.before = 2 := by omega
  have count := named.count_eq
  rw [tokens, List.length_cons] at count
  refine ⟨_, rfl, ?_⟩
  rw [openBlock, outside, marked, Layout.opened]
  by_cases right : l.indent < column
  · simp only [insert, later, later', tokens, indent, right]
    refine ⟨?_, rfl, rfl, rfl, rfl, ?_, Nat.le_add_right _ 2⟩
    · simp [layout, Layout.add, kind, kinds, ← blocks, indent]
    · simp [count]
  · simp only [insert, later, tokens, indent, right]
    refine ⟨?_, rfl, rfl, rfl, rfl, ?_, Nat.le_add_right _ 1⟩
    · simp [layout, Layout.add, kind, kinds, ← blocks, indent]
    · simp [count]

theorem next_colon (named : r.Named name tail column l) (gap : atGap tail = true) :
    ∃ t, r.next = .ok t ∧
      t.Shows ⟨tail, column + name.toList.length + 1, false, l.addKey column name⟩ ∧
      t.settled = r.settled := by
  obtain ⟨q, places, -, before, marked⟩ := named.place
  have rest := named.rest
  have noStart : r.cursor.atDocumentStart = false := by
    rw [Cursor.atDocumentStart, Cursor.atMark, rest]
    simp
  have noEnd : r.cursor.atDocumentEnd = false := by
    rw [Cursor.atDocumentEnd, Cursor.atMark, rest]
    simp
  have dispatch : r.next = r.value := by
    rw [next]
    simp only [rest, noStart, noEnd, Bool.false_eq_true, if_false, List.tail_cons, gap]
    simp
  obtain ⟨s, opened, layout, cursor, kept, settled, ended, count, grown⟩ :=
    openBlock_key named places before marked
  have valued : r.value = .ok (((s.setPlace none).allowKey false).take 1 .value) := by
    rw [value, places, ← opened]
    rfl
  have calm : ((s.setPlace none).allowKey false).Calm := by
    refine ⟨ended.trans named.running, ?_, count, none, ?_, free_none⟩
    · exact settled ▸ Nat.le_trans named.settled_le grown
    · show none :: s.places.tail = [none]
      rw [kept, places]
      rfl
  have shows_ : ((s.setPlace none).allowKey false).Shows
      ⟨':' :: tail, column + name.toList.length, false,
        ((l.opened column .blockMap).add .key).add (.scalar name true)⟩ :=
    ⟨calm, (congrArg Cursor.rest cursor).trans rest,
      (congrArg Cursor.column cursor).trans named.reached, rfl, layout⟩
  exact ⟨_, dispatch.trans valued, shows_.take 1 .value, settled⟩

theorem runs_colon (left : l.indent ≤ column) (gap : atGap tail = true) :
    Runs 1 (Named name tail column l)
      (·.Shows ⟨tail, column + name.toList.length + 1, false, l.addKey column name⟩) := by
  refine runs_of_advance (steady_named name tail column l) fun s named => ?_
  obtain ⟨t, next, shows_, settled⟩ := next_colon named gap
  refine ⟨t, ?_, shows_, settled⟩
  obtain ⟨q, places, stale, -⟩ := named.place
  have outside : s.inFlow = false := by
    rw [inFlow, places]
    rfl
  have token : AtToken s.cursor.rest := by
    rw [named.rest]
    exact atToken_cons.mpr (by decide)
  have reached : s.cursor.toToken s.inFlow = s.cursor := Cursor.toToken_of_atToken _ token
  have dropped : s.dropStale = .ok s := by
    have same : fresh s.cursor s.places = s.places := by
      rw [places]
      simp [fresh, Option.filter_some, stale]
    rw [dropStale_eq ((steady_named name tail column l).droppable s named), same]
  have indent : s.indent ≤ (s.cursor.column : Int) := by
    have blocks : s.indent :: s.indents = l.blocks := congrArg Layout.blocks named.layout
    rw [Layout.indent, ← blocks] at left
    rw [named.reached]
    exact Int.le_trans left (by omega)
  have nonempty : s.cursor.rest.isEmpty = false := by
    rw [named.rest]
    rfl
  rw [advance, reached]
  simp only [dropped, bind, Except.bind, closeTo, outside, closeBlocks_of_le indent, nonempty,
    Bool.false_eq_true, if_false, next]

theorem leads_key {w : View} (plain : IsPlainName name) (left : l.indent ≤ column)
    (gap : atGap tail = true)
    (skips : Skips ⟨tail, column + name.toList.length + 1, false, l.addKey column name⟩ w) :
    Leads ⟨name.toList ++ ':' :: tail, column, true, l⟩ w := by
  have named : Runs 1 (ComesTo · ⟨name.toList ++ ':' :: tail, column, true, l⟩)
      (Named name tail column l) := runs_of_next (by simp) (next_name plain gap)
  refine ⟨2, fun s hs => ?_, ?_⟩
  · obtain ⟨k, t, ht, facts⟩ := (named.trans (runs_colon left gap)) s hs
    exact ⟨k, t, skips.comesTo ht, facts⟩
  · have smaller := skips.size_le
    have opened := Layout.size_opened_le column .blockMap l
    have long := List.length_pos_iff.mpr plain.nonempty
    simp only [View.size, Layout.addKey, Layout.size_add, List.length_append,
      List.length_cons] at smaller ⊢
    omega

end Scan

end BrowserAgent.Yaml
