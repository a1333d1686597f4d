import BrowserAgent.Proofs.TokenGaps
import BrowserAgent.Yaml.Scalar

/-!
# Reading printed plain scalars

A text that is written without quotes is read back word by word. Nothing in it can be taken for a
mark, and the line after it is not indented far enough to go on with it.
-/

namespace BrowserAgent.Yaml

variable {cs word rest next : List Char} {c : Cursor} {indent : Int} {k : Nat}

/-! ## Words -/

/-- No colon stands before a gap. -/
def noColonGap : List Char → Bool
  | [] => true
  | x :: more => !(x == ':' && atGap more) && noColonGap more

theorem atGap_append (h : atGap rest = true) : atGap (word ++ rest) = atGap word := by
  cases word with
  | nil => exact h
  | cons x word => rfl

theorem noColonGap_append (h : atGap rest = true) :
    noColonGap (word ++ rest) = (noColonGap word && noColonGap rest) := by
  induction word with
  | nil => rfl
  | cons x word ih =>
    rw [List.cons_append, noColonGap, noColonGap, atGap_append h, ih, Bool.and_assoc]

theorem noColonGap_of_suffix (h : noColonGap (word ++ rest) = true) : noColonGap rest = true := by
  induction word with
  | nil => exact h
  | cons x word ih =>
    rw [List.cons_append, noColonGap, Bool.and_eq_true] at h
    exact ih h.2

theorem isRefusedColon_outside (cs : List Char) : isRefusedColon false cs = false := by
  unfold isRefusedColon
  split <;> rfl

theorem plainWord_append (rest : List Char)
    (solid : ∀ x ∈ word, isBlank x = false ∧ isBreak x = false) (colons : noColonGap word = true)
    (gap : atGap rest = true) : plainWord false (word ++ rest) = (word, rest) := by
  induction word with
  | nil =>
    cases rest with
    | nil => rfl
    | cons x more =>
      rw [List.nil_append, plainWord, if_pos]
      rw [atGap] at gap
      simp [gap]
  | cons x word ih =>
    rw [noColonGap, Bool.and_eq_true, Bool.not_eq_true', Bool.and_eq_false_iff] at colons
    obtain ⟨blank, break_⟩ := solid x List.mem_cons_self
    have more := ih (fun y hy => solid y (List.mem_cons_of_mem x hy)) colons.2
    rw [List.cons_append, plainWord, atGap_append gap, isRefusedColon_outside, blank, break_, more,
      if_neg (by simpa [imp_iff_not_or] using colons.1)]

/-! ## Gaps -/

/-- The text goes on with neither a blank nor a break. -/
def Solid (text : List Char) : Prop := ∀ x ∈ text.head?, isBlank x = false ∧ isBreak x = false

theorem AtToken.solid (h : AtToken next) : Solid next := fun x hx =>
  ⟨(opensToken_iff.mp (h x hx)).1, (opensToken_iff.mp (h x hx)).2.1⟩

theorem readGap_solid {fuel : Nat} {gap : Gap} (solid : Solid c.rest) :
    readGap indent (fuel + 1) gap c = (gap, false, c) := by
  rw [readGap.eq_def]
  cases h : c.rest with
  | nil => simp only [h]
  | cons x more =>
    obtain ⟨blank, break_⟩ := solid x (by rw [h]; rfl)
    cases gap <;> simp only [h, blank, break_] <;> rfl

theorem readGap_space {fuel : Nat} {gap : Gap} (h : c.rest = ' ' :: rest) :
    readGap indent (fuel + 1) gap c =
      readGap indent fuel (match gap with
        | .blanks text => .blanks (text ++ [' '])
        | .breaks chars => .breaks chars) (c.pass 1) := by
  rw [readGap.eq_def]
  cases gap with
  | blanks text =>
    simp only [h]
    rw [if_pos (by decide)]
  | breaks chars =>
    simp only [h]
    rw [if_pos (by decide), if_neg (by simp)]

theorem readGap_breakChar {fuel : Nat} {gap : Gap} {x : Char} (h : c.rest = x :: rest)
    (hx : isBreak x = true) :
    readGap indent (fuel + 1) gap c =
      readGap indent fuel (match gap with
        | .blanks _ => .breaks [c.breakChar]
        | .breaks chars => .breaks (chars ++ [c.breakChar])) c.passBreak := by
  have blank := isBlank_of_isBreak hx
  rw [readGap.eq_def]
  cases gap <;> simp only [h, blank, hx] <;> rfl

/-- The gap with so many spaces more: they are kept as long as there is no break. -/
def Gap.addSpaces (k : Nat) : Gap → Gap
  | .blanks text => .blanks (text ++ spaces k)
  | .breaks chars => .breaks chars

theorem readGap_spaces (indent : Int) (gap : Gap) {fuel : Nat} (h : c.rest = spaces k ++ rest)
    (solid : Solid rest) (enough : k < fuel) :
    readGap indent fuel gap c = (gap.addSpaces k, false, c.pass k) := by
  induction k generalizing c gap fuel with
  | zero =>
    obtain ⟨fuel, rfl⟩ := Nat.exists_eq_add_one_of_ne_zero (Nat.ne_zero_of_lt enough)
    rw [readGap_solid (by rw [h]; exact solid), Cursor.pass_zero]
    cases gap <;> simp [Gap.addSpaces, spaces]
  | succ k ih =>
    obtain ⟨fuel, rfl⟩ := Nat.exists_eq_add_one_of_ne_zero (Nat.ne_zero_of_lt enough)
    have behind : (c.pass 1).rest = spaces k ++ rest := by rw [Cursor.pass_rest, h]; rfl
    rw [readGap_space h, ih _ behind (Nat.lt_of_succ_lt_succ enough), Cursor.pass_pass,
      Nat.add_comm 1 k]
    cases gap <;> simp [Gap.addSpaces, spaces_succ]

theorem readGap_blanks (indent : Int) (before : List Char) {fuel : Nat}
    (h : c.rest = spaces k ++ rest) (solid : Solid rest) (enough : k < fuel) :
    readGap indent fuel (.blanks before) c = (.blanks (before ++ spaces k), false, c.pass k) :=
  readGap_spaces indent (.blanks before) h solid enough

theorem readGap_indentation {fuel : Nat} {breaks : List Char} (h : c.rest = spaces k ++ rest)
    (solid : Solid rest) (enough : k < fuel) :
    readGap indent fuel (.breaks breaks) c = (.breaks breaks, false, c.pass k) :=
  readGap_spaces indent (.breaks breaks) h solid enough

theorem readGap_lineEnd (indent : Int) {fuel : Nat} (h : c.rest = '\n' :: (spaces k ++ next))
    (solid : Solid next) (enough : k + 1 < fuel) :
    readGap indent fuel (.blanks []) c = (.breaks ['\n'], false, c.passBreak.pass k) := by
  obtain ⟨fuel, rfl⟩ := Nat.exists_eq_add_one_of_ne_zero (Nat.ne_zero_of_lt enough)
  have feed : c.breakChar = '\n' := by
    rw [Cursor.breakChar, h]
    split <;> simp_all
  rw [readGap_breakChar h (by decide), feed]
  exact readGap_indentation (Cursor.passBreak_rest h (by decide)) solid
    (Nat.lt_of_succ_lt_succ enough)

/-! ## Texts -/

/-- The text, from a word on, holds nothing that could be taken for a mark. -/
structure PlainFrom (cs : List Char) : Prop where
  inline : ∀ x ∈ cs, isBreak x = false ∧ x ≠ '\t'
  starts : ∃ x more, cs = x :: more ∧ x ≠ ' ' ∧ x ≠ '#'
  ends : cs.getLast? ≠ some ' '
  colons : noColonGap cs = true
  comments : hasPair (· == ' ') (· == '#') cs = false

theorem hasPair_of_suffix {p q : Char → Bool} (h : hasPair p q (word ++ rest) = false) :
    hasPair p q rest = false := by
  induction word with
  | nil => exact h
  | cons x word ih =>
    cases hw : word ++ rest with
    | nil => simp_all [hasPair]
    | cons y more =>
      rw [List.cons_append, hw, hasPair, Bool.or_eq_false_iff] at h
      exact ih (hw ▸ h.2)

theorem not_of_hasPair {p q : Char → Bool} {y : Char} (all : ∀ x ∈ word, p x = true)
    (nonempty : word ≠ []) (h : hasPair p q (word ++ y :: rest) = false) : q y = false := by
  induction word with
  | nil => exact absurd rfl nonempty
  | cons x word ih =>
    cases word with
    | nil =>
      rw [List.singleton_append, hasPair, Bool.or_eq_false_iff, all x List.mem_cons_self,
        Bool.true_and] at h
      exact h.1
    | cons z word =>
      rw [List.cons_append, List.cons_append, hasPair, Bool.or_eq_false_iff] at h
      exact ih (fun w hw => all w (List.mem_cons_of_mem x hw)) (List.cons_ne_nil z word) h.2

theorem PlainFrom.solid (h : PlainFrom cs) (rest : List Char) : Solid (cs ++ rest) := by
  obtain ⟨x, more, starts, notSpace, -⟩ := h.starts
  obtain ⟨break_, tab⟩ := h.inline x (by rw [starts]; exact List.mem_cons_self)
  rw [starts]
  rintro _ ⟨⟩
  exact ⟨by simp [isBlank, notSpace, tab], break_⟩

/-- A text is a word, or a word and spaces before the rest of the text. -/
theorem PlainFrom.split (h : PlainFrom cs) :
    (∀ x ∈ cs, isBlank x = false ∧ isBreak x = false) ∨
      ∃ word j rest, cs = word ++ (spaces (j + 1) ++ rest) ∧ word ≠ [] ∧
        (∀ x ∈ word, isBlank x = false ∧ isBreak x = false) ∧ PlainFrom rest := by
  have solid {x : Char} (hx : x ∈ cs) (notSpace : x ≠ ' ') :
      isBlank x = false ∧ isBreak x = false := by
    obtain ⟨break_, tab⟩ := h.inline x hx
    exact ⟨by simp [isBlank, notSpace, tab], break_⟩
  by_cases inner : ' ' ∈ cs
  · right
    obtain ⟨word, behind, rfl, whole⟩ := List.eq_append_cons_of_mem inner
    obtain ⟨j, rest, rfl, stop⟩ := exists_spaces behind
    have parts : word ++ ' ' :: (spaces j ++ rest) = word ++ (spaces (j + 1) ++ rest) := rfl
    rw [parts] at h
    have ends : rest ≠ [] := by
      rintro rfl
      apply h.ends
      rw [List.append_nil, List.getLast?_append, getLast?_spaces, Option.some_or]
    obtain ⟨x, more, rfl⟩ := List.exists_cons_of_ne_nil ends
    have notHash : x ≠ '#' := by
      have after := not_of_hasPair (fun z hz => by simp [mem_spaces hz]) (by simp [spaces_succ])
        (hasPair_of_suffix h.comments)
      simpa using after
    refine ⟨word, j, x :: more, rfl, ?_, fun y hy => solid (by simp [hy]) ?_, ?_⟩
    · rintro rfl
      obtain ⟨y, ys, starts, notSpace, -⟩ := h.starts
      exact notSpace (List.cons.inj starts).1.symm
    · rintro rfl
      exact whole hy
    · refine ⟨fun y hy => h.inline y (by simp [hy]), ⟨x, more, rfl, by simpa using stop, notHash⟩,
        ?_, ?_, ?_⟩
      · have last := h.ends
        rwa [List.getLast?_append_of_ne_nil _ (by simp),
          List.getLast?_append_of_ne_nil _ (by simp)] at last
      · exact noColonGap_of_suffix (noColonGap_of_suffix h.colons)
      · exact hasPair_of_suffix (hasPair_of_suffix h.comments)
  · exact .inl fun x hx => solid hx fun same => inner (same ▸ hx)

theorem goesOn_of_inside {x : Char} (inside : 0 < c.column) (text : c.rest = x :: rest)
    (notHash : x ≠ '#') : (c.isDone || decide (c.rest.head? = some '#')) = false := by
  rw [Cursor.isDone, Cursor.atDocumentStart, Cursor.atDocumentEnd, Cursor.atMark, Cursor.atMark,
    text]
  simp [Nat.pos_iff_ne_zero.mp inside, notHash]

section

variable (start : Mark) (before : List Char) {fuel : Nat}

theorem readPlain_last (goesOn : (c.isDone || decide (c.rest.head? = some '#')) = false)
    (whole : ∀ x ∈ word, isBlank x = false ∧ isBreak x = false) (nonempty : word ≠ [])
    (colons : noColonGap word = true) (text : c.rest = word ++ '\n' :: (spaces k ++ next))
    (token : AtToken next) (outside : (k : Int) ≤ indent) :
    ∃ after, readPlain false indent start (fuel + 1) before c = .ok (before ++ word, after) ∧
      after.rest = next ∧ after.column = k ∧ after.keyAllowed = true := by
  have cut := plainWord_append ('\n' :: (spaces k ++ next)) whole colons rfl
  have reached : (c.pass word.length).rest = '\n' :: (spaces k ++ next) := by
    rw [Cursor.pass_rest, text, List.drop_left]
  have room : k + 1 < ('\n' :: (spaces k ++ next)).length + 1 := by
    rw [List.length_cons, List.length_append, length_spaces]
    omega
  have gap := readGap_lineEnd (indent + 1) reached token.solid room
  have filled : word.isEmpty = false := by simpa using nonempty
  have column : ((c.pass word.length).passBreak.pass k).column = k := by
    rw [Cursor.pass_column, Cursor.passBreak_column, Nat.zero_add]
  -- The next line does not stand right of the block, so it is no part of the text.
  have ends : (!false &&
      decide ((((c.pass word.length).passBreak.pass k).column : Int) ≤ indent)) = true := by
    simpa [column] using outside
  have stops : (!Option.any (fun x => isBlank x || isBreak x)
      ('\n' :: (spaces k ++ next)).head?) = false := rfl
  rw [readPlain, goesOn, text, cut]
  simp only [isRefusedColon_outside, filled, stops, gap, ends, Bool.false_eq_true, if_false,
    if_true]
  refine ⟨_, rfl, ?_, column, rfl⟩
  rw [Cursor.allowKey_rest, Cursor.pass_rest, Cursor.passBreak_rest reached (by decide),
    List.drop_left' (length_spaces k)]

theorem readPlain_word {j : Nat} {more : List Char} {last : Cursor}
    (goesOn : (c.isDone || decide (c.rest.head? = some '#')) = false)
    (whole : ∀ x ∈ word, isBlank x = false ∧ isBreak x = false) (nonempty : word ≠ [])
    (colons : noColonGap word = true) (text : c.rest = word ++ (spaces (j + 1) ++ rest))
    (solid : Solid rest)
    (read : readPlain false indent start fuel (spaces (j + 1))
      (((c.pass word.length).pass (j + 1)).allowKey c.keyAllowed) =
        .ok (spaces (j + 1) ++ more, last)) :
    readPlain false indent start (fuel + 1) before c =
      .ok (before ++ word ++ (spaces (j + 1) ++ more), last) := by
  have cut := plainWord_append (spaces (j + 1) ++ rest) whole colons rfl
  have reached : (c.pass word.length).rest = spaces (j + 1) ++ rest := by
    rw [Cursor.pass_rest, text, List.drop_left]
  have room : j + 1 < (spaces (j + 1) ++ rest).length + 1 := by
    rw [List.length_append, length_spaces]
    omega
  have gap := readGap_blanks (indent + 1) [] reached solid room
  have filled : word.isEmpty = false := by simpa using nonempty
  have stops : (!Option.any (fun x => isBlank x || isBreak x)
      (spaces (j + 1) ++ rest).head?) = false := rfl
  rw [readPlain, goesOn, text, cut]
  simp only [isRefusedColon_outside, filled, stops, gap, Bool.false_eq_true, if_false,
    List.nil_append, Gap.text, read]
  rw [spaces_succ, List.cons_append]

/-- What reading a plain scalar comes to: the whole text, and the next token behind it. -/
theorem readPlain_of_plainFrom (h : PlainFrom cs) (text : c.rest = cs ++ '\n' :: (spaces k ++ next))
    (inside : 0 < c.column) (token : AtToken next) (outside : (k : Int) ≤ indent)
    (enough : cs.length < fuel) :
    ∃ after, readPlain false indent start fuel before c = .ok (before ++ cs, after) ∧
      after.rest = next ∧ after.column = k ∧ after.keyAllowed = true := by
  -- By induction on the fuel. Every word, with the gap behind it, is one call of the reader.
  induction fuel generalizing cs c before with
  | zero => exact absurd enough (Nat.not_lt_zero _)
  | succ fuel ih =>
    obtain ⟨x, more, starts, -, notHash⟩ := h.starts
    have goesOn := goesOn_of_inside (c := c) inside (by rw [text, starts]; rfl) notHash
    rcases h.split with whole | ⟨word, j, rest, rfl, nonempty, whole, others⟩
    · exact readPlain_last start before goesOn whole (by rw [starts]; simp) h.colons text token
        outside
    · rw [List.append_assoc, List.append_assoc] at text
      have colons : noColonGap word = true := by
        have all := h.colons
        rw [noColonGap_append rfl, Bool.and_eq_true] at all
        exact all.1
      have behind : (((c.pass word.length).pass (j + 1)).allowKey c.keyAllowed).rest =
          rest ++ '\n' :: (spaces k ++ next) := by
        rw [Cursor.allowKey_rest, Cursor.pass_rest, Cursor.pass_rest, text, List.drop_left,
          List.drop_left' (length_spaces _)]
      have shorter : rest.length < fuel := by
        rw [List.length_append, List.length_append, length_spaces] at enough
        omega
      obtain ⟨after, read, facts⟩ :=
        ih (spaces (j + 1)) others behind (Nat.add_pos_right _ (Nat.succ_pos j)) shorter
      have word_ := readPlain_word start before goesOn whole nonempty colons text
        (others.solid _) read
      exact ⟨after, by rw [word_, List.append_assoc], facts⟩

end

/-! ## Texts that fit -/

theorem not_tab_of_isPrintable {x : Char} (h : isPrintable x = true) : x ≠ '\t' := by
  rintro rfl
  exact absurd h (by decide)

theorem marks_of_holdsMark {x : Char} (h : holdsMark (x :: cs) = false) :
    noColonGap cs = true ∧ hasPair (· == ' ') (· == '#') (x :: cs) = false := by
  induction cs generalizing x with
  | nil => exact ⟨rfl, rfl⟩
  | cons y more ih =>
    rw [holdsMark, Bool.or_eq_false_iff, Bool.or_eq_false_iff] at h
    obtain ⟨⟨colon, hash⟩, rest⟩ := h
    obtain ⟨colons, comments⟩ := ih rest
    refine ⟨by rw [noColonGap, colon, colons]; rfl, ?_⟩
    rw [hasPair, comments, Bool.or_false]
    by_cases space : x = ' '
    · subst space
      rw [Bool.and_eq_false_iff] at hash ⊢
      exact .inr (hash.resolve_right (by decide))
    · simp [space]

theorem plainFrom_of_fitsPlain (h : fitsPlain cs = true) (nonempty : cs ≠ []) : PlainFrom cs := by
  obtain ⟨x, more, rfl⟩ := List.exists_cons_of_ne_nil nonempty
  rw [fitsPlain, fitsSingle] at h
  simp only [Bool.and_eq_true, Bool.not_eq_true'] at h
  obtain ⟨⟨⟨⟨⟨⟨⟨printable, -⟩, -⟩, breaks⟩, first⟩, last⟩, start⟩, marks⟩ := h
  rw [startsLikeMark, Bool.or_eq_false_iff, Bool.or_eq_false_iff, Bool.or_eq_false_iff] at start
  obtain ⟨⟨⟨indicator, gap⟩, -⟩, -⟩ := start
  obtain ⟨colons, comments⟩ := marks_of_holdsMark marks
  refine ⟨fun y hy => ⟨?_, ?_⟩, ⟨x, more, rfl, ?_, ?_⟩, ?_, ?_, comments⟩
  · exact Bool.eq_false_iff.mpr (List.any_eq_false.mp breaks y hy)
  · exact not_tab_of_isPrintable (List.all_eq_true.mp printable y hy)
  · rintro rfl
    exact Bool.noConfusion first
  · rintro rfl
    exact absurd indicator (by decide)
  · intro same
    rw [same] at last
    exact absurd last (by decide)
  · rw [noColonGap, colons, Bool.and_true]
    by_cases colon : x = ':'
    · subst colon
      simpa using gap
    · simp [colon]

end BrowserAgent.Yaml
