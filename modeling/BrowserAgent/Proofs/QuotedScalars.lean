import BrowserAgent.Proofs.PlainScalars

/-!
# Reading printed quoted scalars

Between single quotes every character stands for itself but the quote, and lines that are broken in
the text are indented. Between double quotes no line is broken: whatever could not stand there is
escaped. Both are read back as they were.
-/

namespace BrowserAgent.Yaml

variable {cs more tail : List Char} {c : Cursor} {x : Char} {start : Mark} {fuel indent k : Nat}

theorem atMark_of_inside (inside : 0 < c.column) :
    (c.atDocumentStart || c.atDocumentEnd) = false := by
  rw [Cursor.atDocumentStart, Cursor.atDocumentEnd, Cursor.atMark, Cursor.atMark]
  simp [Nat.pos_iff_ne_zero.mp inside]

/-! ## Part by part -/

/-- One step of the reading passes the part and goes on behind it. -/
structure ReadsPart (read : Nat → Cursor → Except FormFault (List Char × Cursor))
    (part : List Char) (c next : Cursor) : Prop where
  step : ∀ fuel, read (fuel + 1) c = (read fuel next).map fun (t, c) => (part ++ t, c)
  allowed : next.keyAllowed = c.keyAllowed

/-- What is left of a quoted text is read, and the quote behind it. -/
def ReadsRest (read : Nat → Cursor → Except FormFault (List Char × Cursor)) (fuel : Nat)
    (c : Cursor) (cs tail : List Char) : Prop :=
  ∃ after, read fuel c = .ok (cs, after) ∧ after.rest = tail ∧ after.keyAllowed = c.keyAllowed

/-- A text is read to its end if, as long as some of it is left, it starts with a part that one step
reads. -/
theorem readsRest_of_parts {read : Nat → Cursor → Except FormFault (List Char × Cursor)}
    {P : List Char → Cursor → Prop}
    (close : ∀ c fuel, P [] c → ReadsRest read (fuel + 1) c [] tail)
    (part : ∀ x cs c, P (x :: cs) c → ∃ part others next, x :: cs = part ++ others ∧
      part ≠ [] ∧ ReadsPart read part c next ∧ P others next)
    (stands : P cs c) (enough : cs.length < fuel) : ReadsRest read fuel c cs tail := by
  induction fuel generalizing cs c with
  | zero => exact absurd enough (Nat.not_lt_zero _)
  | succ fuel ih =>
    cases cs with
    | nil => exact close c fuel stands
    | cons x cs =>
      obtain ⟨part, others, next, split, some, reads, behind⟩ := part x cs c stands
      have shorter : others.length < fuel := by
        have positive := List.length_pos_iff.mpr some
        rw [split, List.length_append] at enough
        omega
      obtain ⟨after, read, rest, allowed⟩ := ih behind shorter
      refine ⟨after, ?_, rest, allowed.trans reads.allowed⟩
      rw [reads.step, read, split]
      rfl

/-! ## Single quotes -/

/-- What stands behind an opening single quote, from a character on that may follow a break. -/
def singleText (indent : Nat) : Bool → List Char → List Char
  | afterBreak, [] => (if afterBreak then spaces indent else []) ++ ['\'']
  | afterBreak, x :: cs =>
    if isBreak x then x :: singleText indent true cs
    else (if afterBreak then spaces indent else []) ++
      (if x = '\'' then ['\'', '\''] else [x]) ++ singleText indent false cs

theorem indentLines_doubled (indent : Nat) (afterBreak : Bool) (cs : List Char) :
    indentLines indent afterBreak (cs.flatMap fun x => if x = '\'' then ['\'', '\''] else [x]) ++
        (if (cs.getLast?.map isBreak).getD afterBreak then spaces indent else []) ++ ['\''] =
      singleText indent afterBreak cs := by
  induction cs generalizing afterBreak with
  | nil => rfl
  | cons x cs ih =>
    have last : ((x :: cs).getLast?.map isBreak).getD afterBreak =
        (cs.getLast?.map isBreak).getD (isBreak x) := by
      cases h : cs.getLast? with
      | none =>
        rw [List.getLast?_eq_none_iff.mp h]
        rfl
      | some y => simp [List.getLast?_cons, h]
    rw [last, singleText, List.flatMap_cons]
    by_cases quote : x = '\''
    · subst quote
      have solid : isBreak '\'' = false := by decide
      rw [if_pos rfl, solid, if_neg Bool.false_ne_true, ← ih false]
      simp [indentLines, solid]
    · rw [if_neg quote, List.singleton_append, indentLines]
      cases hb : isBreak x with
      | true => simp [← ih true]
      | false => simp [← ih false]

theorem singleQuoted_eq (indent : Nat) (cs : List Char) :
    singleQuoted indent cs = '\'' :: singleText indent false cs := by
  rw [← indentLines_doubled]
  have last : cs.getLast?.any isBreak = (cs.getLast?.map isBreak).getD false := by
    cases cs.getLast? <;> rfl
  rw [singleQuoted, last]
  rfl

/-- The text, from a character on, can stand between single quotes and has no line feeds. -/
structure SingleFrom (cs : List Char) : Prop where
  inline : ∀ x ∈ cs, x ≠ '\t'
  breaks : ∀ x ∈ cs, isBreak x = true → x = '\u2028' ∨ x = '\u2029'
  indented : hasPair isBreak (· == ' ') cs = false
  trailing : hasPair (· == ' ') isBreak cs = false

theorem SingleFrom.of_suffix (more : List Char) (h : SingleFrom (more ++ cs)) : SingleFrom cs where
  inline x hx := h.inline x (List.mem_append_right _ hx)
  breaks x hx := h.breaks x (List.mem_append_right _ hx)
  indented := hasPair_of_suffix h.indented
  trailing := hasPair_of_suffix h.trailing

theorem SingleFrom.solid_of_spaces (h : SingleFrom (spaces (k + 1) ++ cs))
    (stop : cs.head? ≠ some ' ') : Solid cs := by
  rintro y hy
  obtain ⟨ys, rfl⟩ := List.head?_eq_some_iff.mp hy
  have notBreak := not_of_hasPair (fun z hz => by simp [mem_spaces hz]) (by simp [spaces_succ])
    h.trailing
  have notSpace : y ≠ ' ' := by simpa using stop
  exact ⟨by simp [isBlank, notSpace, h.inline y (by simp)], notBreak⟩

theorem SingleFrom.solid_of_breaks {breaks : List Char} (h : SingleFrom (breaks ++ cs))
    (all : ∀ y ∈ breaks, isBreak y = true) (nonempty : breaks ≠ [])
    (stop : ∀ y ∈ cs.head?, isBreak y = false) : Solid cs := by
  rintro y hy
  obtain ⟨ys, rfl⟩ := List.head?_eq_some_iff.mp hy
  have notSpace := not_of_hasPair all nonempty h.indented
  exact ⟨by simpa [isBlank, h.inline y (by simp)] using notSpace, stop y hy⟩

theorem readSingle_close (text : c.rest = '\'' :: tail) (single : tail.head? ≠ some '\'')
    (inside : 0 < c.column) : readSingle start (fuel + 1) c = .ok ([], c.pass 1) := by
  rw [readSingle.eq_def]
  simp only [atMark_of_inside inside, text, Bool.false_eq_true, if_false]
  split <;> grind

theorem readSingle_quote (text : c.rest = '\'' :: '\'' :: tail) (inside : 0 < c.column) :
    readSingle start (fuel + 1) c =
      (readSingle start fuel (c.pass 2)).map fun (t, c) => ('\'' :: t, c) := by
  rw [readSingle.eq_def]
  simp only [atMark_of_inside inside, text, Bool.false_eq_true, if_false]

theorem readSingle_char (text : c.rest = x :: tail) (quote : x ≠ '\'')
    (solid : isBlank x = false ∧ isBreak x = false) (inside : 0 < c.column) :
    readSingle start (fuel + 1) c =
      (readSingle start fuel (c.pass 1)).map fun (t, c) => (x :: t, c) := by
  rw [readSingle.eq_def]
  simp only [atMark_of_inside inside, text, Bool.false_eq_true, if_false]
  split <;> simp_all

theorem readSingle_gap {gap : Gap} {next : Cursor} (text : c.rest = x :: tail)
    (space : isBlank x = true ∨ isBreak x = true) (inside : 0 < c.column)
    (found : quotedGap (.blanks []) c = (gap, next)) :
    readSingle start (fuel + 1) c =
      (readSingle start fuel next).map fun (t, c) => (gap.text ++ t, c) := by
  have quote : x ≠ '\'' := by
    rintro rfl
    revert space
    decide
  rw [readSingle.eq_def]
  simp only [atMark_of_inside inside, text, Bool.false_eq_true, if_false, found]
  split <;> grind

/-- Breaks that no fold changes. -/
def IsSeparator (x : Char) : Prop := x = '\u2028' ∨ x = '\u2029'

theorem IsSeparator.isBreak (h : IsSeparator x) : isBreak x = true := by
  rcases h with rfl | rfl <;> decide

theorem IsSeparator.passBreak (h : IsSeparator x) (text : c.rest = x :: tail) :
    c.breakChar = x ∧ c.passBreak.rest = tail := by
  rcases h with rfl | rfl
  · exact ⟨by rw [Cursor.breakChar, text]; rfl, Cursor.passBreak_rest text (by decide)⟩
  · exact ⟨by rw [Cursor.breakChar, text]; rfl, Cursor.passBreak_rest text (by decide)⟩

theorem IsSeparator.ne_lineFeed (h : IsSeparator x) : x ≠ '\n' := by
  rcases h with rfl | rfl <;> decide

theorem readGap_separators (at_ : Int) (before : List Char) {breaks : List Char}
    (separators : ∀ x ∈ breaks, IsSeparator x) (text : c.rest = breaks ++ (spaces k ++ tail))
    (atStart : c.column = 0) (solid : Solid tail) (enough : breaks.length + k < fuel) :
    ∃ next, readGap at_ fuel (.breaks before) c = (.breaks (before ++ breaks), false, next) ∧
      next.rest = tail ∧ next.column = k ∧ next.keyAllowed = c.keyAllowed := by
  induction breaks generalizing c before fuel with
  | nil =>
    refine ⟨c.pass k, ?_, ?_, ?_, rfl⟩
    · rw [readGap_indentation text solid (by simpa using enough), List.append_nil]
    · rw [Cursor.pass_rest, text, List.nil_append, List.drop_left' (length_spaces k)]
    · rw [Cursor.pass_column, atStart, Nat.zero_add]
  | cons x breaks ih =>
    obtain ⟨fuel, rfl⟩ := Nat.exists_eq_add_one_of_ne_zero (Nat.ne_zero_of_lt enough)
    have separator := separators x List.mem_cons_self
    obtain ⟨same, behind⟩ := separator.passBreak text
    have room : breaks.length + k < fuel := by
      rw [List.length_cons] at enough
      omega
    obtain ⟨next, read, facts⟩ := ih (before ++ [x])
      (fun y hy => separators y (List.mem_cons_of_mem x hy)) behind rfl room
    refine ⟨next, ?_, facts⟩
    rw [readGap_breakChar text separator.isBreak]
    simp only
    rw [same, read, List.append_assoc, List.singleton_append]

theorem readSingle_spaces (text : c.rest = spaces (k + 1) ++ tail) (solid : Solid tail)
    (inside : 0 < c.column) :
    readSingle start (fuel + 1) c =
      (readSingle start fuel (c.pass (k + 1))).map fun (t, c) => (spaces (k + 1) ++ t, c) := by
  have room : k + 1 < c.rest.length + 1 := by
    rw [text, List.length_append, length_spaces]
    omega
  have gap := readGap_blanks 0 [] text solid room
  rw [readSingle_gap (x := ' ') text (.inl rfl) inside (by rw [quotedGap, gap])]
  rfl

theorem readSingle_separators (start : Mark) {breaks : List Char}
    (separators : ∀ y ∈ x :: breaks, IsSeparator y)
    (text : c.rest = x :: breaks ++ (spaces k ++ tail)) (solid : Solid tail)
    (inside : 0 < c.column) :
    ∃ next, (∀ fuel, readSingle start (fuel + 1) c =
        (readSingle start fuel next).map fun (t, c) => (x :: breaks ++ t, c)) ∧
      next.rest = tail ∧ next.column = k ∧ next.keyAllowed = c.keyAllowed := by
  have separator := separators x List.mem_cons_self
  obtain ⟨same, behind⟩ := separator.passBreak text
  have room : breaks.length + k < c.rest.length := by
    rw [text, List.length_append, List.length_append, List.length_cons, length_spaces]
    omega
  obtain ⟨next, gap, facts⟩ := readGap_separators 0 [x]
    (fun y hy => separators y (List.mem_cons_of_mem x hy)) behind rfl solid room
  have found : quotedGap (.blanks []) c = (.breaks (x :: breaks), next) := by
    rw [quotedGap, readGap_breakChar text separator.isBreak]
    simp only
    rw [same, gap, List.singleton_append]
  refine ⟨next, fun fuel => ?_, facts⟩
  rw [readSingle_gap text (.inr separator.isBreak) inside found]
  simp only [Gap.text, foldBreaks, if_neg separator.ne_lineFeed]

theorem singleText_spaces (indent n : Nat) (cs : List Char) :
    singleText indent false (spaces n ++ cs) = spaces n ++ singleText indent false cs := by
  induction n with
  | zero => rfl
  | succ n ih =>
    rw [spaces_succ, List.cons_append, singleText, ih]
    simp [show isBreak ' ' = false from rfl]

theorem singleText_breaks (indent : Nat) (afterBreak : Bool) {breaks : List Char}
    (h : ∀ y ∈ x :: breaks, isBreak y = true) (cs : List Char) :
    singleText indent afterBreak (x :: breaks ++ cs) =
      x :: breaks ++ singleText indent true cs := by
  induction breaks generalizing x afterBreak with
  | nil => rw [List.singleton_append, singleText, if_pos (h x List.mem_cons_self)]; rfl
  | cons y breaks ih =>
    rw [List.cons_append, singleText, if_pos (h x List.mem_cons_self),
      ih true fun z hz => h z (List.mem_cons_of_mem x hz)]
    rfl

theorem singleText_afterBreak (indent : Nat) (h : ∀ x ∈ cs.head?, isBreak x = false) :
    singleText indent true cs = spaces indent ++ singleText indent false cs := by
  cases cs with
  | nil => rfl
  | cons x cs =>
    rw [singleText, singleText, h x rfl]
    simp

theorem solid_singleText (indent : Nat) (solid : Solid cs) :
    Solid (singleText indent false cs ++ tail) := by
  cases cs with
  | nil =>
    rintro _ ⟨⟩
    decide
  | cons x cs =>
    obtain ⟨blank, break_⟩ := solid x rfl
    rw [singleText, break_]
    by_cases quote : x = '\''
    · subst quote
      rintro _ ⟨⟩
      decide
    · rw [if_neg Bool.false_ne_true, if_neg Bool.false_ne_true, if_neg quote]
      rintro _ ⟨⟩
      exact ⟨blank, break_⟩

theorem length_le_singleText (indent : Nat) (afterBreak : Bool) (cs : List Char) :
    cs.length ≤ (singleText indent afterBreak cs).length := by
  induction cs generalizing afterBreak with
  | nil => exact Nat.zero_le _
  | cons x cs ih =>
    rw [singleText, List.length_cons]
    split
    · exact Nat.succ_le_succ (ih true)
    · have shown : 0 < (if x = '\'' then ['\'', '\''] else [x]).length := by
        split <;> exact Nat.succ_pos _
      have := ih false
      rw [List.length_append, List.length_append]
      omega

theorem exists_breaks (cs : List Char) :
    ∃ breaks rest, cs = breaks ++ rest ∧ (∀ x ∈ breaks, isBreak x = true) ∧
      ∀ x ∈ rest.head?, isBreak x = false := by
  refine ⟨cs.takeWhile isBreak, cs.dropWhile isBreak, List.takeWhile_append_dropWhile.symm,
    fun x hx => List.all_eq_true.mp List.all_takeWhile x hx, fun x hx => ?_⟩
  have stop := List.head?_dropWhile_not isBreak cs
  rw [hx] at stop
  exact stop

/-- The rest of a single-quoted text stands at the cursor. -/
structure StandsSingle (indent : Nat) (tail cs : List Char) (c : Cursor) : Prop where
  fits : SingleFrom cs
  text : c.rest = singleText indent false cs ++ tail
  inside : 0 < c.column

theorem StandsSingle.part (start : Mark) (indented : 0 < indent)
    (h : StandsSingle indent tail (x :: cs) c) :
    ∃ part others next, x :: cs = part ++ others ∧ part ≠ [] ∧
      ReadsPart (readSingle start) part c next ∧ StandsSingle indent tail others next := by
  obtain ⟨fits, text, inside⟩ := h
  -- A quote is read by one step, and so is a character that is neither a blank nor a break. Spaces
  -- in a row are read together, and so are separators with the indentation behind them.
  by_cases quote : x = '\''
  · subst quote
    have behind : (c.pass 2).rest = singleText indent false cs ++ tail := by
      rw [Cursor.pass_rest, text]
      rfl
    exact ⟨['\''], cs, c.pass 2, rfl, List.cons_ne_nil _ _,
      ⟨fun _ => readSingle_quote text inside, rfl⟩,
      fits.of_suffix ['\''], behind, Nat.add_pos_right _ Nat.two_pos⟩
  by_cases space : x = ' '
  · subst space
    obtain ⟨n, others, rfl, stop⟩ := exists_spaces cs
    rw [← List.cons_append, ← spaces_succ] at fits text ⊢
    rw [singleText_spaces, List.append_assoc] at text
    have solid : Solid (singleText indent false others ++ tail) :=
      solid_singleText indent (fits.solid_of_spaces stop)
    have behind : (c.pass (n + 1)).rest = singleText indent false others ++ tail := by
      rw [Cursor.pass_rest, text, List.drop_left' (length_spaces _)]
    exact ⟨spaces (n + 1), others, c.pass (n + 1), rfl, List.cons_ne_nil _ _,
      ⟨fun _ => readSingle_spaces text solid inside, rfl⟩,
      fits.of_suffix _, behind, Nat.add_pos_right _ (Nat.succ_pos n)⟩
  cases hb : isBreak x with
  | true =>
    obtain ⟨breaks, others, rfl, all, stop⟩ := exists_breaks cs
    rw [← List.cons_append] at fits text ⊢
    have every : ∀ y ∈ x :: breaks, isBreak y = true := List.forall_mem_cons.mpr ⟨hb, all⟩
    have separators : ∀ y ∈ x :: breaks, IsSeparator y := fun y hy =>
      fits.breaks y (List.mem_append_left _ hy) (every y hy)
    rw [singleText_breaks indent false every, singleText_afterBreak indent stop,
      List.append_assoc, List.append_assoc] at text
    have solid := fits.solid_of_breaks every (List.cons_ne_nil x breaks) stop
    obtain ⟨next, step, rest, column, allowed⟩ :=
      readSingle_separators start separators text (solid_singleText indent solid) inside
    exact ⟨x :: breaks, others, next, rfl, List.cons_ne_nil _ _, ⟨step, allowed⟩,
      fits.of_suffix _, rest, column ▸ indented⟩
  | false =>
    have solid : isBlank x = false ∧ isBreak x = false :=
      ⟨by simp [isBlank, space, fits.inline x List.mem_cons_self], hb⟩
    have here : c.rest = x :: (singleText indent false cs ++ tail) := by
      rw [text, singleText, hb]
      simp [quote]
    have behind : (c.pass 1).rest = singleText indent false cs ++ tail := by
      rw [Cursor.pass_rest, here]
      rfl
    exact ⟨[x], cs, c.pass 1, rfl, List.cons_ne_nil _ _,
      ⟨fun _ => readSingle_char here quote solid inside, rfl⟩,
      fits.of_suffix [x], behind, Nat.add_pos_right _ Nat.one_pos⟩

/-- What reading a single-quoted text comes to, behind the opening quote. -/
theorem readSingle_singleText (start : Mark) (h : SingleFrom cs)
    (text : c.rest = singleText indent false cs ++ tail) (single : tail.head? ≠ some '\'')
    (inside : 0 < c.column) (indented : 0 < indent) (enough : cs.length < fuel) :
    ReadsRest (readSingle start) fuel c cs tail := by
  refine readsRest_of_parts (P := StandsSingle indent tail) ?_
    (fun _ _ _ stands => stands.part start indented) ⟨h, text, inside⟩ enough
  rintro c fuel ⟨-, text, inside⟩
  have rest : (c.pass 1).rest = tail := by
    rw [Cursor.pass_rest, text]
    rfl
  exact ⟨c.pass 1, readSingle_close text single inside, rest, rfl⟩

/-! ## Double quotes -/

theorem escaped_of_letter {letter : Char} (h : escapeLetter? x = some letter) :
    isBreak letter = false ∧ escaped? letter = some x := by
  have named {n : Nat} (hn : x.toNat = n) : x = Char.ofNat n := by rw [← hn, Char.ofNat_toNat]
  unfold escapeLetter? at h
  split at h
  all_goals first
    | (next hn => obtain rfl := Option.some.inj h; rw [named hn]; decide)
    | cases h

/-- How a character stands between double quotes. -/
inductive Escapes : Char → List Char → Prop
  | plain {x : Char} (shown : isPrintable x = true) (blank : isBlank x = false)
      (break_ : isBreak x = false) (quote : x ≠ '"') (slash : x ≠ '\\') : Escapes x [x]
  | letter {x y : Char} (break_ : isBreak y = false) (stands : escaped? y = some x) :
    Escapes x ['\\', y]
  | number {x y : Char} {digits : List Char} (break_ : isBreak y = false)
      (noLetter : escaped? y = none) (width : escapeWidth? y = some digits.length)
      (value : Text.hexValue? digits = some x.toNat) : Escapes x ('\\' :: y :: digits)

theorem hexValue_capitals {n : Nat} (h : n < 256) :
    (Text.hexCapitals 2 n).length = 2 ∧ Text.hexValue? (Text.hexCapitals 2 n) = some n := by
  have all : ∀ m < 256, (Text.hexCapitals 2 m).length = 2 ∧
      Text.hexValue? (Text.hexCapitals 2 m) = some m := by decide +kernel
  exact all n h

theorem escapes_escapeChar (notSpace : x ≠ ' ') : Escapes x (escapeChar x) := by
  unfold escapeChar
  cases letter : escapeLetter? x with
  | some y =>
    obtain ⟨break_, stands⟩ := escaped_of_letter letter
    exact .letter break_ stands
  | none =>
    have other {y : Char} (has : (escapeLetter? y).isSome = true) : x ≠ y := by
      rintro rfl
      rw [letter] at has
      cases has
    have break_ : isBreak x = false := by
      simp only [isBreak, Bool.or_eq_false_iff, beq_eq_false_iff_ne]
      exact ⟨⟨⟨⟨other rfl, other rfl⟩, other rfl⟩, other rfl⟩, other rfl⟩
    have blank : isBlank x = false := by
      simp only [isBlank, Bool.or_eq_false_iff, beq_eq_false_iff_ne]
      exact ⟨notSpace, other rfl⟩
    simp only
    split
    · next shown => exact .plain shown blank break_ (other rfl) (other rfl)
    · next hidden =>
      split
      · next small =>
        obtain ⟨two, value⟩ := hexValue_capitals (Nat.lt_succ_of_le small)
        exact .number (by decide) (by decide) (by rw [two]; decide) value
      · next large =>
        -- Above `\xFF` only three characters of four digits cannot be shown.
        have few : x.toNat = 0xFEFF ∨ x.toNat = 0xFFFE ∨ x.toNat = 0xFFFF := by
          simp [isPrintable] at hidden
          omega
        rw [if_pos (by omega)]
        rcases few with value | value | value <;> rw [value] <;>
          exact .number (by decide) (by decide) (by decide) (by rw [value]; decide)

theorem readDouble_close (text : c.rest = '"' :: tail) (inside : 0 < c.column) :
    readDouble start (fuel + 1) c = .ok ([], c.pass 1) := by
  rw [readDouble.eq_def]
  simp only [atMark_of_inside inside, text, Bool.false_eq_true, if_false]

theorem readDouble_gap {gap : Gap} {next : Cursor} (text : c.rest = ' ' :: tail)
    (inside : 0 < c.column) (found : quotedGap (.blanks []) c = (gap, next)) :
    readDouble start (fuel + 1) c =
      (readDouble start fuel next).map fun (t, c) => (gap.text ++ t, c) := by
  rw [readDouble.eq_def]
  simp only [atMark_of_inside inside, text, Bool.false_eq_true, if_false, found]
  rfl

theorem readNumbered_eq_ok {digits : List Char} (text : c.rest = digits ++ tail)
    (value : Text.hexValue? digits = some x.toNat) :
    readNumbered digits.length start c = .ok (x, c.pass digits.length) := by
  have valid : x.toNat.isValidChar := x.valid
  rw [readNumbered, text, List.take_left]
  simp only [value, Nat.lt_irrefl, if_false, if_pos valid, Char.ofNat_toNat]

theorem readDouble_escape {spelled : List Char} (h : Escapes x spelled)
    (text : c.rest = spelled ++ tail) (inside : 0 < c.column) :
    readDouble start (fuel + 1) c =
      (readDouble start fuel (c.pass spelled.length)).map fun (t, c) => (x :: t, c) := by
  rw [readDouble.eq_def]
  cases h with
  | plain shown blank break_ quote slash =>
    simp only [atMark_of_inside inside, text, Bool.false_eq_true, if_false, List.singleton_append]
    split
    · next h => cases h
    · next h => exact absurd (List.cons.inj h).1 quote
    · next h => exact absurd (List.cons.inj h).1 slash
    · next h => exact absurd (List.cons.inj h).1 slash
    · next h =>
      obtain ⟨rfl, rfl⟩ := List.cons.inj h
      simp [blank, break_]
  | letter break_ stands =>
    simp only [atMark_of_inside inside, text, Bool.false_eq_true, if_false, List.cons_append,
      List.nil_append, break_, stands]
    rfl
  | number break_ noLetter width value =>
    simp only [atMark_of_inside inside, text, Bool.false_eq_true, if_false, List.cons_append,
      break_, noLetter, width]
    rw [readNumbered_eq_ok (by rw [Cursor.pass_rest, text]; rfl) value, Cursor.pass_pass]
    simp only [bind, Except.bind, List.length_cons, Nat.add_comm 2]

theorem solid_escaped (solid : cs.head? ≠ some ' ') :
    Solid (cs.flatMap escapeChar ++ '"' :: tail) := by
  cases cs with
  | nil =>
    rintro _ ⟨⟩
    decide
  | cons x cs =>
    have spelled := escapes_escapeChar (x := x) (by simpa using solid)
    rw [List.flatMap_cons]
    generalize escapeChar x = shown at spelled
    cases spelled with
    | plain shown blank break_ =>
      rintro _ ⟨⟩
      exact ⟨blank, break_⟩
    | letter | number =>
      rintro _ ⟨⟩
      decide

theorem length_le_escapeChars (cs : List Char) : cs.length ≤ (cs.flatMap escapeChar).length := by
  induction cs with
  | nil => exact Nat.le_refl _
  | cons x cs ih =>
    have shown : 0 < (escapeChar x).length := by
      by_cases space : x = ' '
      · rw [space]
        decide
      · have spelled := escapes_escapeChar space
        generalize escapeChar x = shown at spelled
        cases spelled <;> exact Nat.succ_pos _
    rw [List.flatMap_cons, List.length_append, List.length_cons]
    omega

theorem escaped_spaces (n : Nat) : (spaces n).flatMap escapeChar = spaces n := by
  induction n with
  | zero => rfl
  | succ n ih => rw [spaces_succ, List.flatMap_cons, ih]; rfl

/-- The rest of a double-quoted text stands at the cursor. -/
structure StandsDouble (tail cs : List Char) (c : Cursor) : Prop where
  text : c.rest = cs.flatMap escapeChar ++ '"' :: tail
  inside : 0 < c.column

theorem StandsDouble.part (start : Mark) (h : StandsDouble tail (x :: cs) c) :
    ∃ part others next, x :: cs = part ++ others ∧ part ≠ [] ∧
      ReadsPart (readDouble start) part c next ∧ StandsDouble tail others next := by
  obtain ⟨text, inside⟩ := h
  -- Spaces in a row are read by one step, and so is any other character.
  by_cases space : x = ' '
  · subst space
    obtain ⟨n, others, rfl, stop⟩ := exists_spaces cs
    rw [← List.cons_append, ← spaces_succ] at text ⊢
    have here : c.rest = spaces (n + 1) ++ (others.flatMap escapeChar ++ '"' :: tail) := by
      rw [text, List.flatMap_append, escaped_spaces, List.append_assoc]
    have room : n + 1 < c.rest.length + 1 := by
      rw [here, List.length_append, length_spaces]
      omega
    have gap := readGap_blanks 0 [] here (solid_escaped stop) room
    have behind : (c.pass (n + 1)).rest = others.flatMap escapeChar ++ '"' :: tail := by
      rw [Cursor.pass_rest, here, List.drop_left' (length_spaces _)]
    refine ⟨spaces (n + 1), others, c.pass (n + 1), rfl, List.cons_ne_nil _ _, ⟨fun fuel => ?_, rfl⟩,
      behind, Nat.add_pos_right _ (Nat.succ_pos n)⟩
    rw [readDouble_gap here inside (by rw [quotedGap, gap])]
    rfl
  · have spelled := escapes_escapeChar space
    have here : c.rest = escapeChar x ++ (cs.flatMap escapeChar ++ '"' :: tail) := by
      rw [text, List.flatMap_cons, List.append_assoc]
    have behind : (c.pass (escapeChar x).length).rest = cs.flatMap escapeChar ++ '"' :: tail := by
      rw [Cursor.pass_rest, here, List.drop_left]
    exact ⟨[x], cs, c.pass (escapeChar x).length, rfl, List.cons_ne_nil _ _,
      ⟨fun _ => readDouble_escape spelled here inside, rfl⟩, behind, Nat.add_pos_left inside _⟩

/-- What reading a double-quoted text comes to, behind the opening quote. -/
theorem readDouble_escaped (start : Mark)
    (text : c.rest = cs.flatMap escapeChar ++ '"' :: tail)
    (inside : 0 < c.column) (enough : cs.length < fuel) :
    ReadsRest (readDouble start) fuel c cs tail := by
  refine readsRest_of_parts (P := StandsDouble tail) ?_
    (fun _ _ _ stands => stands.part start) ⟨text, inside⟩ enough
  rintro c fuel ⟨text, inside⟩
  have rest : (c.pass 1).rest = tail := by
    rw [Cursor.pass_rest, text]
    rfl
  exact ⟨c.pass 1, readDouble_close text inside, rest, rfl⟩

end BrowserAgent.Yaml
