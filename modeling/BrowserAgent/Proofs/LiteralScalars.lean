import BrowserAgent.Proofs.QuotedScalars

/-!
# Reading printed lines

A text that is written line by line is read back with all its breaks. Marks at the start say how far
the lines are indented, if the first one does not show it, and how many breaks are at the end.
-/

namespace BrowserAgent.Yaml

variable {cs line breaks rest tail next : List Char} {c : Cursor} {x : Char}
  {fuel indent k : Nat}

/-! ## Breaks and indentation -/

/-- A break that is read as itself. -/
def IsLineBreak (x : Char) : Prop := x = '\n' ∨ IsSeparator x

theorem IsLineBreak.isBreak (h : IsLineBreak x) : isBreak x = true := by
  rcases h with rfl | h
  · decide
  · exact h.isBreak

theorem IsLineBreak.passBreak (h : IsLineBreak x) (text : c.rest = x :: tail) :
    c.breakChar = x ∧ c.passBreak.rest = tail := by
  rcases h with rfl | h
  · refine ⟨?_, Cursor.passBreak_rest text (by decide)⟩
    rw [Cursor.breakChar, text]
    split <;> simp_all
  · exact h.passBreak text

theorem isLineBreak_of_isPrintable (printable : isPrintable x = true) (h : isBreak x = true) :
    IsLineBreak x := by
  simp only [isBreak, Bool.or_eq_true, beq_iff_eq] at h
  rcases h with (((rfl | rfl) | rfl) | rfl) | rfl
  · exact .inl rfl
  · exact absurd printable (by decide)
  · exact absurd printable (by decide)
  · exact .inr (.inl rfl)
  · exact .inr (.inr rfl)

theorem length_le_indentLines (indent : Nat) (afterBreak : Bool) (cs : List Char) :
    cs.length ≤ (indentLines indent afterBreak cs).length := by
  induction cs generalizing afterBreak with
  | nil => exact Nat.zero_le _
  | cons x cs ih =>
    rw [indentLines]
    split
    · exact Nat.succ_le_succ (ih true)
    · rw [List.length_append, List.length_cons, List.length_cons]
      have := ih false
      omega

theorem indentLines_line (h : ∀ x ∈ line, isBreak x = false) (rest : List Char) :
    indentLines indent false (line ++ rest) = line ++ indentLines indent false rest := by
  induction line with
  | nil => rfl
  | cons x line ih =>
    rw [List.cons_append, indentLines, h x List.mem_cons_self,
      ih fun y hy => h y (List.mem_cons_of_mem x hy)]
    rfl

theorem indentLines_breaks (afterBreak : Bool) (h : ∀ y ∈ x :: breaks, isBreak y = true)
    (rest : List Char) :
    indentLines indent afterBreak (x :: breaks ++ rest) =
      x :: breaks ++ indentLines indent true rest := by
  induction breaks generalizing x afterBreak with
  | nil => rw [List.singleton_append, indentLines, if_pos (h x List.mem_cons_self)]; rfl
  | cons y breaks ih =>
    rw [List.cons_append, indentLines, if_pos (h x List.mem_cons_self),
      ih true fun z hz => h z (List.mem_cons_of_mem x hz)]
    rfl

theorem indentLines_afterBreak (nonempty : cs ≠ []) (h : ∀ x ∈ cs.head?, isBreak x = false) :
    indentLines indent true cs = spaces indent ++ indentLines indent false cs := by
  cases cs with
  | nil => exact absurd rfl nonempty
  | cons x cs =>
    rw [indentLines, indentLines, h x rfl]
    simp

/-- Neither a break nor a tab comes next. -/
def Printed (text : List Char) : Prop := ∀ x ∈ text.head?, isBreak x = false ∧ x ≠ '\t'

theorem Printed.stays (h : Printed c.rest) : c.rest.head? ≠ some '\t' ∧ c.atBreak = false := by
  refine ⟨fun tab => absurd rfl (h _ tab).2, ?_⟩
  rw [Cursor.atBreak]
  cases found : c.rest.head? with
  | none => rfl
  | some x => exact (h x found).1

theorem length_indentation {m : Nat} (counts : m = indent ∨ m < indent ∧ rest.head? ≠ some ' ') :
    min ((spaces m ++ rest).takeWhile (· == ' ')).length indent = m := by
  rw [List.takeWhile_append_of_pos (fun y hy => by simp [mem_spaces hy]), List.length_append,
    length_spaces]
  rcases counts with rfl | ⟨less, stop⟩
  · exact Nat.min_eq_right (Nat.le_add_right _ _)
  · have none : rest.takeWhile (· == ' ') = [] := by
      cases rest with
      | nil => rfl
      | cons y more => exact List.takeWhile_cons_of_neg (by simpa using stop)
    rw [none, List.length_nil, Nat.add_zero]
    exact Nat.min_eq_left (Nat.le_of_lt less)

/-- Breaks at the start of a line, and as much of the indentation behind them as counts. -/
theorem blockGap_known (start : Mark) (widest : Nat) (before : List Char) {m : Nat}
    (all : ∀ x ∈ breaks, IsLineBreak x) (text : c.rest = breaks ++ (spaces m ++ rest))
    (atStart : c.column = 0) (printed : Printed rest)
    (counts : m = indent ∨ m < indent ∧ rest.head? ≠ some ' ') (enough : breaks.length < fuel) :
    ∃ widest' after, blockGap (some indent) start fuel widest before c =
        .ok (before ++ breaks, widest', after) ∧
      after.rest = rest ∧ after.column = m := by
  -- By induction on the breaks. Only the indentation behind the last of them is passed.
  induction breaks generalizing c before widest fuel with
  | nil =>
    obtain ⟨fuel, rfl⟩ := Nat.exists_eq_add_one_of_ne_zero (Nat.ne_zero_of_lt enough)
    rw [List.nil_append] at text
    have passed : min (c.rest.takeWhile (· == ' ')).length (indent - c.column) = m := by
      rw [text, atStart, Nat.sub_zero, length_indentation counts]
    have behind : (c.pass m).rest = rest := by
      rw [Cursor.pass_rest, text, List.drop_left' (length_spaces m)]
    have column : (c.pass m).column = m := by rw [Cursor.pass_column, atStart, Nat.zero_add]
    obtain ⟨noTab, noBreak⟩ := Printed.stays (c := c.pass m) (behind ▸ printed)
    refine ⟨max widest m, c.pass m, ?_, behind, column⟩
    rw [blockGap]
    simp only [passed, noTab, noBreak, column]
    simp
  | cons x breaks ih =>
    obtain ⟨fuel, rfl⟩ := Nat.exists_eq_add_one_of_ne_zero (Nat.ne_zero_of_lt enough)
    have feed := all x List.mem_cons_self
    obtain ⟨same, behind⟩ := feed.passBreak text
    obtain ⟨widest', after, read, facts⟩ := ih (max widest 0) (before ++ [x])
      (fun y hy => all y (List.mem_cons_of_mem x hy)) behind rfl (Nat.lt_of_succ_lt_succ enough)
    refine ⟨widest', after, ?_, facts⟩
    have notSpace : x ≠ ' ' := by
      rintro rfl
      exact absurd feed.isBreak (by decide)
    have notTab : x ≠ '\t' := by
      rintro rfl
      exact absurd feed.isBreak (by decide)
    have none : c.rest.takeWhile (· == ' ') = [] := by
      rw [text]
      exact List.takeWhile_cons_of_neg (by simpa using notSpace)
    have atBreak : c.atBreak = true := by
      rw [Cursor.atBreak, text]
      exact feed.isBreak
    rw [blockGap]
    simp only [none, List.length_nil, Nat.zero_min, Cursor.pass_zero, atStart, atBreak, if_true,
      same]
    rw [text, if_neg (by simp [notTab]), read, List.append_assoc, List.singleton_append]

/-! ## Lines -/

def lineEnd (cs : List Char) : List Char := if cs.getLast?.any isBreak then [] else ['\n']

theorem lineEnd_append (breaks : List Char) (nonempty : cs ≠ []) :
    lineEnd (breaks ++ cs) = lineEnd cs := by
  rw [lineEnd, lineEnd, List.getLast?_append_of_ne_nil _ nonempty]

theorem lineEnd_of_breaks (nonempty : breaks ≠ []) (all : ∀ y ∈ breaks, isBreak y = true) :
    lineEnd breaks = [] := by
  rw [lineEnd, List.getLast?_eq_some_getLast nonempty, Option.any_some, all _ (List.getLast_mem _)]
  rfl

theorem lineEnd_of_inline (nonempty : line ≠ []) (inline : ∀ y ∈ line, isBreak y = false) :
    lineEnd line = ['\n'] := by
  rw [lineEnd, List.getLast?_eq_some_getLast nonempty, Option.any_some,
    inline _ (List.getLast_mem _)]
  rfl

/-- One line of a block, with the breaks behind it and the indentation of the next line. -/
theorem blockLines_line (start : Mark) (fuel : Nat) (afterBlank : Bool) (ended before : List Char)
    {m : Nat}
    (inline : ∀ y ∈ line, isBreak y = false) (first : IsLineBreak x)
    (all : ∀ y ∈ breaks, IsLineBreak y)
    (text : c.rest = line ++ (x :: breaks ++ (spaces m ++ rest))) (atLine : c.column = indent)
    (printed : Printed rest) (counts : m = indent ∨ m < indent ∧ rest.head? ≠ some ' ') :
    ∃ startsBlank after, after.rest = rest ∧ after.column = m ∧
      blockLines true indent start (fuel + 1) afterBlank ended before c =
        (blockLines true indent start fuel startsBlank [x] breaks after).map
          fun (more, last, tail, c) => (ended ++ before ++ line ++ more, last, tail, c) := by
  have cut : c.rest.takeWhile (fun y => !isBreak y) = line := by
    rw [text, List.takeWhile_append_of_pos (fun y hy => by simp [inline y hy]), List.cons_append,
      List.takeWhile_cons_of_neg (by simp [first.isBreak]), List.append_nil]
  have behind : (c.pass line.length).rest = x :: (breaks ++ (spaces m ++ rest)) := by
    rw [Cursor.pass_rest, text, List.drop_left, List.cons_append]
  have atBreak : (c.pass line.length).atBreak = true := by
    rw [Cursor.atBreak, behind]
    exact first.isBreak
  obtain ⟨same, below⟩ := first.passBreak behind
  have room : breaks.length < (c.pass line.length).passBreak.rest.length + 1 := by
    rw [below, List.length_append]
    omega
  obtain ⟨widest, after, gap, afterRest, afterColumn⟩ :=
    blockGap_known start 0 [] all below rfl printed counts room
  refine ⟨c.rest.head?.any isBlank, after, afterRest, afterColumn, ?_⟩
  have goesOn : (c.column != indent || c.rest.isEmpty) = false := by
    rw [atLine, text]
    simp
  rw [blockLines]
  simp only [goesOn, Bool.false_eq_true, if_false, cut, atBreak, if_true, same, gap,
    List.nil_append, Bool.not_true, Bool.false_and, joinLines, bind, Except.bind]
  cases blockLines true indent start fuel (c.rest.head?.any isBlank) [x] breaks after <;> rfl

theorem blockLines_outside {start : Mark} {afterBlank : Bool} {ended before : List Char}
    (outside : c.column ≠ indent) :
    blockLines true indent start fuel afterBlank ended before c = .ok ([], ended, before, c) := by
  cases fuel with
  | zero => rfl
  | succ fuel => rw [blockLines, if_pos (by simp [outside])]

theorem AtToken.printed (h : AtToken next) : Printed next := fun x hx => by
  obtain ⟨blank, break_, -⟩ := opensToken_iff.mp (h x hx)
  refine ⟨break_, ?_⟩
  rintro rfl
  exact absurd blank (by decide)

theorem AtToken.head?_ne_space (h : AtToken next) : next.head? ≠ some ' ' := fun space =>
  absurd (opensToken_iff.mp (h _ space)).1 (by decide)

theorem exists_line (starts : ∃ x ∈ cs.head?, isBreak x = false) :
    ∃ line breaks others, cs = line ++ (breaks ++ others) ∧ line ≠ [] ∧
      (∀ x ∈ line, isBreak x = false) ∧ (∀ x ∈ breaks, isBreak x = true) ∧
      (∀ x ∈ others.head?, isBreak x = false) ∧ (breaks = [] → others = []) := by
  obtain ⟨breaks, others, behind, all, solid⟩ := exists_breaks (cs.dropWhile fun x => !isBreak x)
  have stop := List.head?_dropWhile_not (fun x => !isBreak x) cs
  refine ⟨cs.takeWhile fun x => !isBreak x, breaks, others, ?_, ?_, fun x hx => ?_, all, solid, ?_⟩
  · rw [← behind, List.takeWhile_append_dropWhile]
  · obtain ⟨x, hx, break_⟩ := starts
    obtain ⟨more, rfl⟩ := List.head?_eq_some_iff.mp hx
    rw [List.takeWhile_cons_of_pos (by rw [break_]; rfl)]
    exact List.cons_ne_nil _ _
  · simpa using List.all_eq_true.mp List.all_takeWhile x hx
  · rintro rfl
    rw [behind, List.nil_append] at stop
    cases others with
    | nil => rfl
    | cons x others =>
      rw [List.head?_cons] at stop
      have break_ := solid x rfl
      simp [break_] at stop

theorem blockLines_last (start : Mark) (fuel : Nat) (afterBlank : Bool) (ended before : List Char)
    (inline : ∀ y ∈ line, isBreak y = false) (first : IsLineBreak x)
    (all : ∀ y ∈ breaks, IsLineBreak y)
    (text : c.rest = line ++ (x :: breaks ++ (spaces k ++ next))) (atLine : c.column = indent)
    (token : AtToken next) (outside : k < indent) :
    ∃ after, blockLines true indent start (fuel + 1) afterBlank ended before c =
        .ok (ended ++ before ++ line, [x], breaks, after) ∧
      after.rest = next ∧ after.column = k := by
  obtain ⟨startsBlank, after, rest, column, read⟩ := blockLines_line start fuel afterBlank ended
    before inline first all text atLine token.printed (.inr ⟨outside, token.head?_ne_space⟩)
  have ends : after.column ≠ indent := by
    rw [column]
    exact Nat.ne_of_lt outside
  refine ⟨after, ?_, rest, column⟩
  rw [read, blockLines_outside ends]
  simp only [Except.map, List.append_nil]

/-- The lines that are written, the break that ends the last one and the breaks behind it make up
the text. Where it has no break at its end, a line feed ended the last line. -/
structure EndsIn (cs written : List Char) (last : Char) (trailing : List Char) : Prop where
  inline : ∃ y ∈ written.getLast?, isBreak y = false
  whole : cs = written ∧ trailing = [] ∨
    cs = written ++ last :: trailing ∧ ∀ y ∈ last :: trailing, isBreak y = true

theorem EndsIn.prepend {written trailing : List Char} {last : Char} (before : List Char)
    (h : EndsIn cs written last trailing) : EndsIn (before ++ cs) (before ++ written) last trailing
    where
  inline := by
    obtain ⟨y, hy, break_⟩ := h.inline
    exact ⟨y, by rw [List.getLast?_append, hy]; rfl, break_⟩
  whole := by
    rcases h.whole with ⟨rfl, none⟩ | ⟨rfl, breaks⟩
    · exact .inl ⟨rfl, none⟩
    · exact .inr ⟨(List.append_assoc _ _ _).symm, breaks⟩

theorem exists_getLast?_of_inline (nonempty : line ≠ []) (inline : ∀ y ∈ line, isBreak y = false) :
    ∃ y ∈ line.getLast?, isBreak y = false :=
  ⟨line.getLast nonempty, List.getLast?_eq_some_getLast nonempty, inline _ (List.getLast_mem _)⟩

theorem printed_indentLines (indent : Nat) (nonempty : cs ≠ [])
    (solid : ∀ x ∈ cs.head?, isBreak x = false) (printable : ∀ x ∈ cs, isPrintable x = true)
    (rest : List Char) :
    Printed (indentLines indent false cs ++ rest) := by
  obtain ⟨x, more, rfl⟩ := List.exists_cons_of_ne_nil nonempty
  rw [indentLines, solid x rfl]
  rintro _ ⟨⟩
  exact ⟨solid x rfl, not_tab_of_isPrintable (printable x List.mem_cons_self)⟩

/-- What reading the lines of a block comes to, from the first of them on. The breaks at the end
are kept apart. -/
theorem blockLines_text (start : Mark) (afterBlank : Bool) (ended before : List Char)
    (printable : ∀ x ∈ cs, isPrintable x = true) (starts : ∃ x ∈ cs.head?, isBreak x = false)
    (text : c.rest = indentLines indent false cs ++ (lineEnd cs ++ (spaces k ++ next)))
    (atLine : c.column = indent) (token : AtToken next) (outside : k < indent)
    (enough : cs.length < fuel) :
    ∃ written last trailing after, EndsIn cs written last trailing ∧
      blockLines true indent start fuel afterBlank ended before c =
        .ok (ended ++ before ++ written, [last], trailing, after) ∧
      after.rest = next ∧ after.column = k := by
  -- By induction on the fuel. Every line, with the breaks behind it, is one call of the reader.
  induction fuel generalizing cs c afterBlank ended before with
  | zero => exact absurd enough (Nat.not_lt_zero _)
  | succ fuel ih =>
    obtain ⟨line, breaks, others, rfl, nonempty, inline, all, solid, last_⟩ := exists_line starts
    have ends := exists_getLast?_of_inline nonempty inline
    have every : ∀ y ∈ breaks, IsLineBreak y := fun y hy =>
      isLineBreak_of_isPrintable (printable y (by simp [hy])) (all y hy)
    rw [indentLines_line inline, List.append_assoc] at text
    cases breaks with
    | nil =>
      obtain rfl := last_ rfl
      rw [List.append_nil, List.append_nil, lineEnd_of_inline nonempty inline] at text
      obtain ⟨after, read, facts⟩ := blockLines_last start fuel afterBlank ended before inline
        (.inl rfl) (List.forall_mem_nil _) text atLine token outside
      exact ⟨line, '\n', [], after, ⟨ends, .inl ⟨by simp, rfl⟩⟩, read, facts⟩
    | cons b breaks =>
      obtain ⟨first, others_⟩ := List.forall_mem_cons.mp every
      rw [indentLines_breaks false all] at text
      by_cases done : others = []
      · subst done
        rw [List.append_nil, lineEnd_append line (List.cons_ne_nil b breaks),
          lineEnd_of_breaks (List.cons_ne_nil b breaks) all, List.append_assoc] at text
        obtain ⟨after, read, facts⟩ := blockLines_last start fuel afterBlank ended before inline
          first others_ (by simpa [indentLines] using text) atLine token outside
        exact ⟨line, b, breaks, after, ⟨ends, .inr ⟨by simp, all⟩⟩, read, facts⟩
      · -- Another line follows, indented as this one.
        have lineEnds : lineEnd (line ++ (b :: breaks ++ others)) = lineEnd others := by
          rw [lineEnd_append line (by simp), lineEnd_append _ done]
        rw [lineEnds, indentLines_afterBreak done solid, List.append_assoc,
          List.append_assoc] at text
        have shown : ∀ x ∈ others, isPrintable x = true := fun x hx => printable x (by simp [hx])
        obtain ⟨startsBlank, between, rest, column, read⟩ := blockLines_line start fuel afterBlank
          ended before inline first others_ text atLine (printed_indentLines _ done solid shown _)
          (.inl rfl)
        have fewer : others.length < fuel := by
          rw [List.length_append, List.length_append, List.length_cons] at enough
          omega
        have othersStart : ∃ x ∈ others.head?, isBreak x = false := by
          obtain ⟨x, more, rfl⟩ := List.exists_cons_of_ne_nil done
          exact ⟨x, rfl, solid x rfl⟩
        obtain ⟨written, last, trailing, after, parts, read', facts⟩ :=
          ih startsBlank [b] breaks shown othersStart rest column fewer
        refine ⟨line ++ (b :: breaks ++ written), last, trailing, after,
          (parts.prepend (b :: breaks)).prepend line, ?_, facts⟩
        rw [read, read']
        simp [Except.map]

/-! ## Marks -/

/-- What is said of the breaks at the end of a text. -/
def chompOf (cs : List Char) : Chomping :=
  match cs.reverse with
  | last :: before :: _ => if !isBreak last then .strip else if isBreak before then .keep else .clip
  | [last] => if isBreak last then .keep else .strip
  | [] => .strip

def chompText : Chomping → List Char
  | .strip => ['-']
  | .clip => []
  | .keep => ['+']

/-- How far the lines are indented, if the first one does not show it. -/
def incrementOf (cs : List Char) : Option Nat :=
  if cs.head?.any isSpaceOrBreak then some 2 else none

theorem lineMarks_eq (cs : List Char) :
    lineMarks cs = (if (incrementOf cs).isSome then ['2'] else []) ++ chompText (chompOf cs) := by
  have first : (incrementOf cs).isSome = cs.head?.any isSpaceOrBreak := by
    rw [incrementOf]
    split <;> simp_all
  rw [lineMarks, chompOf, first]
  congr 1
  generalize cs.reverse = backwards
  rcases backwards with _ | ⟨last, _ | ⟨before, more⟩⟩
  · rfl
  · cases h : isBreak last <;> simp [h, chompText]
  · cases h : isBreak last <;> cases h' : isBreak before <;> simp [h, h', chompText]

theorem readChomping_chompText (m : Chomping) (text : c.rest = chompText m ++ '\n' :: tail) :
    ∃ said after, readChomping c = (said, after) ∧ said.getD .clip = m ∧
      after.rest = '\n' :: tail := by
  cases m with
  | strip =>
    refine ⟨some .strip, c.pass 1, ?_, rfl, by rw [Cursor.pass_rest, text]; rfl⟩
    rw [readChomping, text]
    rfl
  | clip => exact ⟨none, c, by rw [readChomping, text]; rfl, rfl, text⟩
  | keep =>
    refine ⟨some .keep, c.pass 1, ?_, rfl, by rw [Cursor.pass_rest, text]; rfl⟩
    rw [readChomping, text]
    rfl

theorem readHeader_lineMarks (start : Mark) (text : c.rest = lineMarks cs ++ '\n' :: tail) :
    ∃ after, readHeader true start c = .ok (⟨true, chompOf cs, incrementOf cs⟩, after) ∧
      after.rest = '\n' :: tail := by
  rw [lineMarks_eq, List.append_assoc] at text
  by_cases first : cs.head?.any isSpaceOrBreak
  · have increment : incrementOf cs = some 2 := if_pos first
    rw [increment] at text ⊢
    have here : c.rest = '2' :: (chompText (chompOf cs) ++ '\n' :: tail) := text
    have unsaid : readChomping c = (none, c) := by
      rw [readChomping, here]
      rfl
    have two : readIncrement start c = .ok (some 2, c.pass 1) := by
      rw [readIncrement, here]
      rfl
    obtain ⟨said, after, chomp, same, rest⟩ := readChomping_chompText (c := c.pass 1) (chompOf cs)
      (by rw [Cursor.pass_rest, here]; rfl)
    refine ⟨after, ?_, rest⟩
    rw [readHeader, unsaid]
    simp only [two, bind, Except.bind, Option.isNone_none, Option.isSome_some, Bool.and_self,
      if_true, chomp, Option.none_or, same]
    rfl
  · have increment : incrementOf cs = none := if_neg first
    rw [increment] at text ⊢
    obtain ⟨said, after, chomp, same, rest⟩ := readChomping_chompText (chompOf cs) text
    have unsaid : readIncrement start after = .ok (none, after) := by
      rw [readIncrement, rest]
      rfl
    refine ⟨after, ?_, rest⟩
    rw [readHeader, chomp]
    simp only [unsaid, bind, Except.bind, Option.isSome_none, Bool.and_false, Bool.false_eq_true,
      if_false, Option.or_none, same]
    rfl

theorem chompOf_strip (h : ∃ y ∈ cs.getLast?, isBreak y = false) : chompOf cs = .strip := by
  obtain ⟨y, last, solid⟩ := h
  rw [chompOf]
  rw [← List.head?_reverse] at last
  split
  · next heq =>
    rw [heq] at last
    obtain rfl := Option.some.inj last
    simp [solid]
  · next heq =>
    rw [heq] at last
    obtain rfl := Option.some.inj last
    simp [solid]
  · rfl

theorem chompOf_clip {last : Char} (h : ∃ y ∈ cs.getLast?, isBreak y = false)
    (break_ : isBreak last = true) : chompOf (cs ++ [last]) = .clip := by
  obtain ⟨y, before, solid⟩ := h
  rw [← List.head?_reverse] at before
  obtain ⟨more, heq⟩ := List.head?_eq_some_iff.mp before
  rw [chompOf, List.reverse_append, List.reverse_singleton, List.singleton_append, heq]
  simp [break_, solid]

theorem chompOf_keep (cs : List Char) (all : ∀ y ∈ breaks, isBreak y = true)
    (several : 1 < breaks.length ∨ breaks ≠ [] ∧ cs = []) : chompOf (cs ++ breaks) = .keep := by
  have backwards : ∀ y ∈ breaks.reverse, isBreak y = true := fun y hy =>
    all y (List.mem_reverse.mp hy)
  rw [chompOf, List.reverse_append]
  rw [← List.length_reverse] at several
  rcases h : breaks.reverse with _ | ⟨last, _ | ⟨before, more⟩⟩
  · rw [h] at several
    rcases several with short | ⟨nonempty, -⟩
    · cases short
    · exact absurd (List.reverse_eq_nil_iff.mp h) nonempty
  · rw [h] at several backwards
    obtain ⟨-, rfl⟩ := several.resolve_left (Nat.lt_irrefl 1)
    simp [backwards last List.mem_cons_self]
  · rw [h] at backwards
    simp [backwards last List.mem_cons_self, backwards before (by simp)]

/-! ## Blocks -/

theorem blockGap_unknown (start : Mark) (text : c.rest = spaces k ++ rest) (printed : Printed rest)
    (stop : rest.head? ≠ some ' ') :
    blockGap none start (fuel + 1) 0 [] c = .ok ([], c.column + k, c.pass k) := by
  have counted : (c.rest.takeWhile (· == ' ')).length = k := by
    rw [text, Cursor.takeWhile_spaces (by decide) fun x hx => ?_, length_spaces]
    rw [beq_eq_false_iff_ne]
    rintro rfl
    exact stop hx
  have behind : (c.pass k).rest = rest := by
    rw [Cursor.pass_rest, text, List.drop_left' (length_spaces k)]
  obtain ⟨noTab, noBreak⟩ := Printed.stays (c := c.pass k) (behind ▸ printed)
  rw [blockGap]
  simp only [counted, noTab, noBreak]
  simp

theorem blockGap_start (start : Mark) {increment : Option Nat} {column : Nat}
    (all : ∀ x ∈ breaks, IsLineBreak x) (text : c.rest = breaks ++ (spaces (column + 2) ++ rest))
    (atStart : c.column = 0) (printed : Printed rest)
    (shown : increment = some 2 ∨ increment = none ∧ breaks = [] ∧ rest.head? ≠ some ' ')
    (enough : breaks.length < fuel) :
    let known := increment.map fun n => (max (column : Int) 0).toNat + n
    ∃ widest after, blockGap known start fuel 0 [] c = .ok (breaks, widest, after) ∧
      known.getD (max widest (max 1 ((column : Int) + 1).toNat)) = column + 2 ∧
      after.rest = rest ∧ after.column = column + 2 := by
  rcases shown with rfl | ⟨rfl, rfl, stop⟩
  · have known : (max (column : Int) 0).toNat + 2 = column + 2 := by omega
    obtain ⟨widest, after, gap, facts⟩ := blockGap_known start 0 [] all text atStart printed
      (.inl rfl) enough
    refine ⟨widest, after, ?_, known, facts⟩
    rw [Option.map_some, known, gap, List.nil_append]
  · obtain ⟨fuel, rfl⟩ := Nat.exists_eq_add_one_of_ne_zero (Nat.ne_zero_of_lt enough)
    refine ⟨_, _, blockGap_unknown start text printed stop, ?_, ?_, ?_⟩
    · rw [Option.map_none, Option.getD_none, atStart]
      omega
    · rw [Cursor.pass_rest, text, List.nil_append, List.drop_left' (length_spaces _)]
    · rw [Cursor.pass_column, atStart, Nat.zero_add]

def keptBreaks (m : Chomping) (ended trailing : List Char) : List Char :=
  match m with
  | .strip => []
  | .clip => ended
  | .keep => ended ++ trailing

theorem EndsIn.kept {written trailing : List Char} {last : Char}
    (h : EndsIn cs written last trailing) :
    written ++ keptBreaks (chompOf cs) [last] trailing = cs := by
  rcases h.whole with ⟨rfl, rfl⟩ | ⟨rfl, breaks⟩
  · rw [chompOf_strip h.inline]
    exact List.append_nil _
  · cases trailing with
    | nil =>
      rw [chompOf_clip h.inline (breaks last List.mem_cons_self)]
      rfl
    | cons b trailing =>
      rw [chompOf_keep _ breaks (.inl (by simp))]
      rfl

theorem readBlock_eq_ok (start : Mark) (around : Int)
    (text : c.rest = lineMarks cs ++ '\n' :: tail) :
    let known := (incrementOf cs).map fun n => (max around 0).toNat + n
    ∃ behind : Cursor, behind.rest = tail ∧ behind.column = 0 ∧
      ∀ breaks widest between lines ended trailing after,
        blockGap known start (behind.rest.length + 1) 0 [] behind = .ok (breaks, widest, between) →
        blockLines true (known.getD (max widest (max 1 (around + 1).toNat))) start
          (between.rest.length + 1) false [] breaks between = .ok (lines, ended, trailing, after) →
        readBlock true around start c =
          .ok (lines ++ keptBreaks (chompOf cs) ended trailing, after.allowKey true) := by
  intro known
  obtain ⟨marked, header, rest⟩ := readHeader_lineMarks start text
  have blanks : marked.passWhile isBlank = marked := by
    rw [Cursor.passWhile, rest, List.takeWhile_cons_of_neg (by decide)]
    rfl
  have comment : marked.passComment = marked := Cursor.passComment_of_ne (by simp [rest])
  have atBreak : marked.atBreak = true := by
    rw [Cursor.atBreak, rest]
    rfl
  have behind := Cursor.passBreak_rest rest (by decide)
  refine ⟨marked.passBreak, behind, rfl, ?_⟩
  intro breaks widest between lines ended trailing after gap read
  rw [readBlock, header]
  simp only [bind, Except.bind, blanks, comment, atBreak, Bool.not_true, Bool.and_false,
    Bool.false_eq_true, if_false, if_true]
  rw [gap]
  simp only
  rw [read]
  cases chompOf cs <;> rfl

theorem incrementOf_breaks (nonempty : breaks ≠ []) (all : ∀ x ∈ breaks, IsLineBreak x)
    (rest : List Char) : incrementOf (breaks ++ rest) = some 2 := by
  obtain ⟨x, more, rfl⟩ := List.exists_cons_of_ne_nil nonempty
  refine if_pos ?_
  rw [List.cons_append, List.head?_cons, Option.any_some, isSpaceOrBreak,
    (all x List.mem_cons_self).isBreak, Bool.or_true]

theorem incrementOf_cases {more : List Char} (all : ∀ y ∈ breaks, IsLineBreak y)
    (solid : isBreak x = false) :
    incrementOf (breaks ++ x :: more) = some 2 ∨
      incrementOf (breaks ++ x :: more) = none ∧ breaks = [] ∧ x ≠ ' ' := by
  cases breaks with
  | nil =>
    by_cases space : x = ' '
    · exact .inl (if_pos (by simp [isSpaceOrBreak, space]))
    · exact .inr ⟨if_neg (by simp [isSpaceOrBreak, space, solid]), rfl, space⟩
  | cons b breaks => exact .inl (incrementOf_breaks (List.cons_ne_nil b breaks) all _)

theorem readBlock_breaks (start : Mark) {column : Nat} (nonempty : breaks ≠ [])
    (all : ∀ x ∈ breaks, IsLineBreak x)
    (text : c.rest = lineMarks breaks ++ '\n' :: (breaks ++ (spaces k ++ next)))
    (token : AtToken next) (outside : k < column + 2) :
    ∃ after, readBlock true column start c = .ok (breaks, after) ∧ after.rest = next ∧
      after.column = k ∧ after.keyAllowed = true := by
  obtain ⟨behind, rest, column_, block⟩ := readBlock_eq_ok start column text
  have room : breaks.length < behind.rest.length + 1 := by
    rw [rest, List.length_append]
    omega
  obtain ⟨widest, after, gap, afterRest, afterColumn⟩ := blockGap_known start 0 [] all rest
    column_ token.printed (.inr ⟨outside, token.head?_ne_space⟩) room
  have increment : incrementOf breaks = some 2 := by
    rw [← List.append_nil breaks, incrementOf_breaks nonempty all]
  have keep : chompOf breaks = .keep :=
    chompOf_keep [] (fun y hy => (all y hy).isBreak) (.inr ⟨nonempty, rfl⟩)
  have known : (max (column : Int) 0).toNat + 2 = column + 2 := by omega
  rw [increment, Option.map_some, known] at block
  have ends : after.column ≠ column + 2 := by
    rw [afterColumn]
    exact Nat.ne_of_lt outside
  have read := block _ _ _ _ _ _ _ gap (blockLines_outside ends)
  refine ⟨after.allowKey true, ?_, afterRest, afterColumn, rfl⟩
  rw [read, keep]
  rfl

theorem readBlock_text (start : Mark) {column : Nat} {more : List Char}
    (printable : ∀ y ∈ breaks ++ x :: more, isPrintable y = true)
    (all : ∀ y ∈ breaks, IsLineBreak y) (notBreak : isBreak x = false)
    (text : c.rest = lineMarks (breaks ++ x :: more) ++ '\n' :: (breaks ++ (spaces (column + 2) ++
      (indentLines (column + 2) false (x :: more) ++ (lineEnd (x :: more) ++
        (spaces k ++ next))))))
    (token : AtToken next) (outside : k < column + 2) :
    ∃ after, readBlock true column start c = .ok (breaks ++ x :: more, after) ∧
      after.rest = next ∧ after.column = k ∧ after.keyAllowed = true := by
  obtain ⟨behind, rest, column_, block⟩ := readBlock_eq_ok start column text
  have others : ∀ y ∈ x :: more, isPrintable y = true := fun y hy =>
    printable y (List.mem_append_right _ hy)
  have solid : ∀ y ∈ (x :: more).head?, isBreak y = false := by
    rintro _ ⟨⟩
    exact notBreak
  have printed := printed_indentLines (column + 2) (List.cons_ne_nil x more) solid others
    (lineEnd (x :: more) ++ (spaces k ++ next))
  -- A first line that does not show its own indentation has it said by a mark.
  have shown : incrementOf (breaks ++ x :: more) = some 2 ∨
      incrementOf (breaks ++ x :: more) = none ∧ breaks = [] ∧
        (indentLines (column + 2) false (x :: more) ++
          (lineEnd (x :: more) ++ (spaces k ++ next))).head? ≠ some ' ' := by
    rcases incrementOf_cases all notBreak with two | ⟨increment, noBreaks, notSpace⟩
    · exact .inl two
    · refine .inr ⟨increment, noBreaks, ?_⟩
      rw [indentLines, notBreak]
      simpa using notSpace
  have room : breaks.length < behind.rest.length + 1 := by
    rw [rest, List.length_append]
    omega
  obtain ⟨widest, between, gap, known, betweenRest, betweenColumn⟩ :=
    blockGap_start start all rest column_ printed shown room
  have enough : (x :: more).length < between.rest.length + 1 := by
    have := length_le_indentLines (column + 2) false (x :: more)
    rw [betweenRest, List.length_append]
    omega
  obtain ⟨written, last, trailing, after, parts, read, facts⟩ :=
    blockLines_text start false [] breaks others ⟨x, rfl, notBreak⟩ betweenRest betweenColumn token
      outside enough
  refine ⟨after.allowKey true, ?_, facts.1, facts.2, rfl⟩
  rw [block _ _ _ _ _ _ _ gap (known.symm ▸ read), List.nil_append, (parts.prepend breaks).kept]

/-- What reading a text of several lines comes to, behind the bar. -/
theorem readBlock_lines (start : Mark) (column : Nat) (fits : fitsLines cs = true)
    (feed : '\n' ∈ cs)
    (text : c.rest = lineMarks cs ++ '\n' :: (indentLines (column + 2) true cs ++
      (lineEnd cs ++ (spaces k ++ next))))
    (token : AtToken next) (outside : k < column + 2) :
    ∃ after, readBlock true column start c = .ok (cs, after) ∧ after.rest = next ∧
      after.column = k ∧ after.keyAllowed = true := by
  rw [fitsLines, Bool.and_eq_true, Bool.and_eq_true] at fits
  have printable : ∀ x ∈ cs, isPrintable x = true := List.all_eq_true.mp fits.1.1
  obtain ⟨breaks, others, rfl, all, solid⟩ := exists_breaks cs
  have every : ∀ y ∈ breaks, IsLineBreak y := fun y hy =>
    isLineBreak_of_isPrintable (printable y (List.mem_append_left _ hy)) (all y hy)
  have indented : indentLines (column + 2) true (breaks ++ others) =
      breaks ++ indentLines (column + 2) true others := by
    cases breaks with
    | nil => rfl
    | cons b breaks => rw [indentLines_breaks true all]
  rw [indented] at text
  -- The text is nothing but breaks, or it has a line behind those that it starts with.
  cases others with
  | nil =>
    have nonempty : breaks ≠ [] := by
      rintro rfl
      cases feed
    rw [List.append_nil, lineEnd_of_breaks nonempty all] at text
    rw [List.append_nil]
    refine readBlock_breaks start nonempty every ?_ token outside
    rw [text]
    simp [indentLines]
  | cons x more =>
    have some_ : x :: more ≠ [] := List.cons_ne_nil x more
    rw [lineEnd_append breaks some_, indentLines_afterBreak some_ solid, List.append_assoc,
      List.append_assoc] at text
    exact readBlock_text start printable every (solid x rfl) text token outside

end BrowserAgent.Yaml
