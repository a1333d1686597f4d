import BrowserAgent.Proofs.EvaluationOrder
import BrowserAgent.Proofs.JoinedLines
import BrowserAgent.Proofs.SlotAssignment

/-!
# The calls as they are written

The names before parentheses, outside of texts and of lines that are skipped, are found character by
character, without reading statements. They name the operations that a program calls. A program
lists its operations slot by slot, so in the order of the text only where the arguments of each call
stand in the order of their slots.
-/

namespace BrowserAgent

open BrowserAgent.Action

/-! ## Character by character -/

/-- What the characters so far say about the next: it may belong to a name or stand behind one, it
is in a text, or a backslash in a text is before it. -/
inductive Scan where
  | between
  | word (read : List Char)
  | behind (read : List Char)
  | quoted (quote : Char)
  | escaped (quote : Char)
deriving DecidableEq, Repr

namespace Scan

def isCalleeChar (c : Char) : Bool := isNameChar c || c == '.'

/-- After a character that belongs to no name. -/
def other (c : Char) : Scan := if c = '"' ∨ c = '\'' then .quoted c else .between

def next : Scan → Char → Scan
  | .between, c => if isCalleeChar c then .word [c] else other c
  | .word read, c =>
    if isCalleeChar c then .word (read ++ [c]) else if isGap c then .behind read else other c
  | .behind read, c =>
    if isCalleeChar c then .word [c] else if isGap c then .behind read else other c
  | .quoted quote, c =>
    if c = '\\' then .escaped quote else if c = quote then .between else .quoted quote
  | .escaped quote, _ => .quoted quote

/-- The name that stands before the next character, perhaps with a gap. -/
def word? : Scan → Option (List Char)
  | .word read | .behind read => some read
  | .between | .quoted _ | .escaped _ => none

def isOutside : Scan → Bool
  | .between | .word _ | .behind _ => true
  | .quoted _ | .escaped _ => false

/-- A parenthesis makes the name before it a callee. -/
def callee? (s : Scan) (c : Char) : Option String :=
  if c = '(' then s.word?.map String.ofList else none

def callees : Scan → List Char → List String
  | _, [] => []
  | s, c :: cs => (s.callee? c).toList ++ callees (s.next c) cs

/-- From the one state to the other, with the callees on the way. -/
def Reads (s : Scan) (cs : List Char) (found : List String) (s' : Scan) : Prop :=
  s.callees cs = found ∧ cs.foldl next s = s'

end Scan

def calleesOn (line : String) : List String :=
  if isSkipped (Text.trim line) then [] else Scan.between.callees (Text.trim line).toList

/-- The names before parentheses in the text, outside of quoted texts and skipped lines. -/
def calleesIn (text : String) : List String := (Text.lines text).flatMap calleesOn

namespace Phrase

mutual

/-- The callees, each before those in its arguments, in the order in which they are written. -/
def callees : Phrase → List String
  | .call callee args => callee :: calleesOfArgs args
  | _ => []

def calleesOfArgs : List (Option String × Phrase) → List String
  | [] => []
  | arg :: args => callees arg.2 ++ calleesOfArgs args

end

/-- In every call the arguments that have calls in them stand in the order of their slots. -/
def InSlotOrder (phrase : Phrase) : Prop :=
  ∀ callee args, phrase.Has (.call callee args) → ∀ op places, op.IsCalled callee →
    Places op 0 (args.map (·.1)) places →
    ((places.zip (args.map (·.2))).filter fun found => !found.2.callees.isEmpty).Pairwise
      fun earlier later => earlier.1 < later.1

end Phrase

namespace Scan

variable {s s₁ s₂ : Scan} {xs ys g : List Char} {found more : List String}

theorem Reads.nil (s : Scan) : s.Reads [] [] s := ⟨rfl, rfl⟩

theorem Reads.append (h : s.Reads xs found s₁) (h' : s₁.Reads ys more s₂) :
    s.Reads (xs ++ ys) (found ++ more) s₂ := by
  obtain ⟨rfl, rfl⟩ := h
  obtain ⟨rfl, rfl⟩ := h'
  refine ⟨?_, List.foldl_append⟩
  induction xs generalizing s with
  | nil => rfl
  | cons c xs ih => rw [List.cons_append, callees, callees, ih, List.foldl_cons, List.append_assoc]

theorem callee?_of_ne {c : Char} (h : c ≠ '(') (s : Scan) : s.callee? c = none := if_neg h

theorem callee?_of_unnamed (h : s.word? = none) (c : Char) : s.callee? c = none := by
  rw [callee?, h, Option.map_none, ite_self]

theorem Reads.cons {c : Char} (hc : s.callee? c = none) (h : (s.next c).Reads xs found s₁) :
    s.Reads (c :: xs) found s₁ := by
  obtain ⟨rfl, rfl⟩ := h
  refine ⟨?_, rfl⟩
  rw [callees, hc]
  rfl

theorem Reads.call {read : List Char} (hs : s.word? = some read)
    (h : Reads .between xs found s₁) : s.Reads ('(' :: xs) (String.ofList read :: found) s₁ := by
  obtain ⟨rfl, rfl⟩ := h
  have next : s.next '(' = .between := by
    cases s with
    | word | behind => rfl
    | between | quoted | escaped => cases hs
  refine ⟨?_, by rw [List.foldl_cons, next]⟩
  rw [callees, callee?, if_pos rfl, hs, next]
  rfl

/-! ## Tokens -/

theorem ne_paren {c : Char} (h : isCalleeChar c = true) : c ≠ '(' := by
  rintro rfl
  exact absurd h (by decide)

theorem isOutside_of_word? {read : List Char} (h : s.word? = some read) : s.isOutside = true := by
  cases s with
  | word | behind => rfl
  | between | quoted | escaped => cases h

theorem reads_more {read : List Char} (h : ∀ c ∈ xs, isCalleeChar c = true) :
    (Scan.word read).Reads xs [] (.word (read ++ xs)) := by
  induction xs generalizing read with
  | nil =>
    rw [List.append_nil]
    exact .nil _
  | cons c xs ih =>
    obtain ⟨hc, hxs⟩ := List.forall_mem_cons.mp h
    have same : read ++ c :: xs = read ++ [c] ++ xs := List.append_cons ..
    refine .cons (callee?_of_ne (ne_paren hc) _) ?_
    rw [next, if_pos hc, same]
    exact ih hxs

/-- A name that does not go on from the one before it. -/
theorem reads_word (fresh : ∀ c, isCalleeChar c = true → s.next c = .word [c]) (hne : xs ≠ [])
    (h : ∀ c ∈ xs, isCalleeChar c = true) : s.Reads xs [] (.word xs) := by
  obtain ⟨c, tail, rfl⟩ := List.exists_cons_of_ne_nil hne
  obtain ⟨hc, htail⟩ := List.forall_mem_cons.mp h
  refine .cons (callee?_of_ne (ne_paren hc) _) ?_
  rw [fresh c hc]
  exact reads_more htail

theorem next_between {c : Char} (h : isCalleeChar c = true) : between.next c = .word [c] :=
  if_pos h

theorem next_behind {c : Char} (read : List Char) (h : isCalleeChar c = true) :
    (behind read).next c = .word [c] := if_pos h

theorem next_gap {c : Char} (h : isGap c = true) :
    c ≠ '(' ∧ between.next c = .between ∧
      ∀ read, (word read).next c = .behind read ∧ (behind read).next c = .behind read := by
  rcases isGap_iff.mp h with rfl | rfl
  · exact ⟨by decide, by decide, fun read => ⟨rfl, rfl⟩⟩
  · exact ⟨by decide, by decide, fun read => ⟨rfl, rfl⟩⟩

theorem reads_gap (hg : IsGap g) : between.Reads g [] .between := by
  induction g with
  | nil => exact .nil _
  | cons c g ih =>
    obtain ⟨hc, hmore⟩ := List.forall_mem_cons.mp hg
    obtain ⟨hne, next, -⟩ := next_gap hc
    refine .cons (callee?_of_ne hne _) ?_
    rw [next]
    exact ih hmore

theorem reads_gap_behind {read : List Char} (hg : IsGap g) :
    (behind read).Reads g [] (.behind read) := by
  induction g with
  | nil => exact .nil _
  | cons c g ih =>
    obtain ⟨hc, hmore⟩ := List.forall_mem_cons.mp hg
    obtain ⟨hne, -, next⟩ := next_gap hc
    refine .cons (callee?_of_ne hne _) ?_
    rw [(next read).2]
    exact ih hmore

/-- A gap keeps the name before it. -/
theorem reads_gap_name {read : List Char} (hs : s.word? = some read) (hg : IsGap g) :
    ∃ s', s'.word? = some read ∧ (g ≠ [] → s' = .behind read) ∧ s.Reads g [] s' := by
  cases g with
  | nil => exact ⟨s, hs, absurd rfl, .nil s⟩
  | cons c g =>
    obtain ⟨hc, hmore⟩ := List.forall_mem_cons.mp hg
    obtain ⟨hne, -, next⟩ := next_gap hc
    refine ⟨.behind read, rfl, fun _ => rfl, .cons (callee?_of_ne hne _) ?_⟩
    cases s with
    | word =>
      cases hs
      rw [(next read).1]
      exact reads_gap_behind hmore
    | behind =>
      cases hs
      rw [(next read).2]
      exact reads_gap_behind hmore
    | between | quoted | escaped => cases hs

theorem reads_gap_outside (hs : s.isOutside = true) (hg : IsGap g) :
    ∃ s', s'.isOutside = true ∧ s.Reads g [] s' := by
  cases s with
  | between => exact ⟨.between, rfl, reads_gap hg⟩
  | word read =>
    have hread : (word read).word? = some read := rfl
    obtain ⟨s', hname, -, reads⟩ := reads_gap_name hread hg
    exact ⟨s', isOutside_of_word? hname, reads⟩
  | behind read => exact ⟨.behind read, rfl, reads_gap_behind hg⟩
  | quoted | escaped => cases hs

/-- Characters that end a name and start no text. -/
def isDelimiter (c : Char) : Bool := c ∈ [',', ')', ';', '=', '[', ']', '-']

theorem next_delimiter {c : Char} (hs : s.isOutside = true) (hc : isDelimiter c = true) :
    c ≠ '(' ∧ s.next c = .between := by
  have plain : isCalleeChar c = false ∧ isGap c = false ∧ other c = .between ∧ c ≠ '(' := by
    simp only [isDelimiter, List.mem_cons, List.not_mem_nil, or_false, decide_eq_true_eq] at hc
    obtain rfl | rfl | rfl | rfl | rfl | rfl | rfl := hc <;> decide
  obtain ⟨notName, notGap, next, notParen⟩ := plain
  refine ⟨notParen, ?_⟩
  cases s with
  | between | word | behind => simp [Scan.next, notName, notGap, next]
  | quoted | escaped => cases hs

theorem Reads.delimiter {c : Char} (hs : s.isOutside = true) (hc : isDelimiter c = true)
    (h : Reads .between xs found s₁) : s.Reads (c :: xs) found s₁ := by
  obtain ⟨notParen, next⟩ := next_delimiter hs hc
  refine .cons (callee?_of_ne notParen s) ?_
  rw [next]
  exact h

theorem reads_piece {quote : Char} {p : Piece} (fits : p.Fits quote) :
    (quoted quote).Reads p.written [] (.quoted quote) := by
  cases p with
  | plain c =>
    obtain ⟨notQuote, notBackslash⟩ := fits
    refine .cons (callee?_of_unnamed rfl c) ?_
    rw [next, if_neg notBackslash, if_neg notQuote]
    exact .nil _
  | escaped c =>
    refine .cons (callee?_of_unnamed rfl _) (.cons ?_ (.nil _))
    exact callee?_of_unnamed rfl c

/-- What looks like a call in a text is none. -/
theorem reads_quoted {quote : Char} {pieces : List Piece} (hq : quote = '"' ∨ quote = '\'')
    (fits : ∀ p ∈ pieces, p.Fits quote) :
    between.Reads (Action.quoted quote pieces) [] .between := by
  have opening : between.Reads [quote] [] (.quoted quote) := by
    rcases hq with rfl | rfl <;> exact ⟨rfl, rfl⟩
  have closing : (quoted quote).Reads [quote] [] .between := by
    rcases hq with rfl | rfl <;> exact ⟨rfl, rfl⟩
  have inner : (quoted quote).Reads (pieces.flatMap Piece.written) [] (.quoted quote) := by
    induction pieces with
    | nil => exact .nil _
    | cons p pieces ih =>
      obtain ⟨hp, hpieces⟩ := List.forall_mem_cons.mp fits
      exact (reads_piece hp).append (ih hpieces)
  exact opening.append (inner.append closing)

end Scan

/-! ## Phrases -/

section

variable {E : Spelling Phrase} {s : Scan} {cs : List Char} {p : Phrase}
  {arg : Option String × Phrase} {args : List (Option String × Phrase)}

/-- The characters are read from a fresh start with the callees, and outside of texts again. -/
def Scan.ReadsWhole (cs : List Char) (found : List String) : Prop :=
  ∃ s, s.isOutside = true ∧ Scan.between.Reads cs found s

theorem Action.IsName.calleeChars {name : List Char} (h : IsName name) :
    name ≠ [] ∧ ∀ c ∈ name, Scan.isCalleeChar c = true := by
  refine ⟨?_, fun c hc => ?_⟩
  · rintro rfl
    exact h
  · rw [Scan.isCalleeChar, h.forall_isNameChar c hc, Bool.true_or]

theorem Action.IsPath.calleeChars {path : List Char} (h : IsPath path) :
    ∀ c ∈ path, Scan.isCalleeChar c = true := by
  induction h with
  | nil => simp
  | cons hn _ ih =>
    refine List.forall_mem_cons.mpr ⟨by decide, fun c hc => ?_⟩
    exact (List.mem_append.mp hc).elim (hn.calleeChars.2 c) (ih c)

theorem Action.IsDigits.calleeChars {digits : List Char} (h : IsDigits digits) :
    ∀ c ∈ digits, Scan.isCalleeChar c = true := by
  intro c hc
  have digit := h c hc
  simp [Scan.isCalleeChar, isNameChar, Char.isAlphanum, digit]

theorem Scan.readsWhole_word {word : List Char} (hne : word ≠ [])
    (h : ∀ c ∈ word, Scan.isCalleeChar c = true) : Scan.ReadsWhole word [] :=
  ⟨.word word, rfl, Scan.reads_word (fun _ => Scan.next_between) hne h⟩

theorem Action.SpellsArg.readsWhole (h : SpellsArg E cs arg)
    (he : ∀ cs, E cs arg.2 → Scan.ReadsWhole cs arg.2.callees) :
    Scan.ReadsWhole cs arg.2.callees := by
  cases h with
  | positional hp => exact he _ hp
  | keyword hkey h₁ h₂ hp =>
    obtain ⟨s₁, hs₁, key⟩ := Scan.readsWhole_word hkey.calleeChars.1 hkey.calleeChars.2
    obtain ⟨s₂, hs₂, gap⟩ := Scan.reads_gap_outside hs₁ h₁
    obtain ⟨s₃, hs₃, value⟩ := he _ hp
    have equals := Scan.Reads.delimiter hs₂ (c := '=') (by decide)
      ((Scan.reads_gap h₂).append value)
    exact ⟨s₃, hs₃, key.append (gap.append equals)⟩

theorem Action.SpellsMoreArgs.reads (h : SpellsMoreArgs E cs args)
    (he : ∀ arg ∈ args, ∀ cs, E cs arg.2 → Scan.ReadsWhole cs arg.2.callees)
    (hs : s.isOutside = true) :
    ∃ s', s'.isOutside = true ∧ s.Reads cs (Phrase.calleesOfArgs args) s' := by
  induction h generalizing s with
  | nil hg => exact Scan.reads_gap_outside hs hg
  | cons h₁ h₂ harg _ ih =>
    obtain ⟨hfirst, hmore⟩ := List.forall_mem_cons.mp he
    obtain ⟨s₁, hs₁, gap⟩ := Scan.reads_gap_outside hs h₁
    obtain ⟨s₂, hs₂, first⟩ := harg.readsWhole hfirst
    obtain ⟨s₃, hs₃, more⟩ := ih hmore hs₂
    have comma := Scan.Reads.delimiter hs₁ (c := ',') (by decide)
      ((Scan.reads_gap h₂).append (first.append more))
    exact ⟨s₃, hs₃, gap.append comma⟩

theorem Action.SpellsArgs.readsWhole (h : SpellsArgs E cs args)
    (he : ∀ arg ∈ args, ∀ cs, E cs arg.2 → Scan.ReadsWhole cs arg.2.callees) :
    Scan.ReadsWhole cs (Phrase.calleesOfArgs args) := by
  cases h with
  | nil hg => exact ⟨.between, rfl, Scan.reads_gap hg⟩
  | cons hg harg hmore =>
    obtain ⟨hfirst, hlater⟩ := List.forall_mem_cons.mp he
    obtain ⟨s₁, hs₁, first⟩ := harg.readsWhole hfirst
    obtain ⟨s₂, hs₂, more⟩ := hmore.reads hlater hs₁
    exact ⟨s₂, hs₂, (Scan.reads_gap hg).append (first.append more)⟩

theorem Scan.readsWhole_signed (negative : Bool) {word : List Char} (hne : word ≠ [])
    (h : ∀ c ∈ word, Scan.isCalleeChar c = true) :
    Scan.ReadsWhole (signOf negative ++ word) [] := by
  obtain ⟨s, hs, reads⟩ := Scan.readsWhole_word hne h
  cases negative with
  | false => exact ⟨s, hs, reads⟩
  | true => exact ⟨s, hs, .delimiter rfl (by decide) reads⟩

/-- The scan finds the callees of a phrase, as they are written. -/
theorem Action.Spells.readsWhole (h : Spells cs p) : Scan.ReadsWhole cs p.callees := by
  have literal : ∀ {word : String}, word ∈ literalWords → Scan.ReadsWhole word.toList [] :=
    fun hw => Scan.readsWhole_word (isName_of_mem hw).calleeChars.1 (isName_of_mem hw).calleeChars.2
  induction p using Phrase.induction generalizing cs with
  | call callee args ih =>
    cases h with
    | @call name path g inner _ hn hp hg hargs =>
      have chars : ∀ c ∈ name ++ path, Scan.isCalleeChar c = true := fun c hc =>
        (List.mem_append.mp hc).elim (hn.calleeChars.2 c) (hp.calleeChars c)
      have word := Scan.reads_word (fun _ => Scan.next_between)
        (List.append_ne_nil_of_left_ne_nil hn.calleeChars.1 path) chars
      have named : (Scan.word (name ++ path)).word? = some (name ++ path) := rfl
      obtain ⟨s₁, hs₁, -, gap⟩ := Scan.reads_gap_name named hg
      obtain ⟨s₂, hs₂, inner⟩ := hargs.readsWhole ih
      have closed : s₂.Reads [')'] [] .between := .delimiter hs₂ (by decide) (.nil _)
      have whole := word.append (gap.append (.call hs₁ (inner.append closed)))
      rw [List.append_assoc, List.append_nil] at whole
      rw [Phrase.callees]
      exact ⟨.between, rfl, whole⟩
  | other p hother =>
    cases h with
    | text hq fits => exact ⟨.between, rfl, Scan.reads_quoted hq fits⟩
    | whole hw hne => exact Scan.readsWhole_signed _ hne hw.calleeChars
    | decimal hw hne hf =>
      refine Scan.readsWhole_signed _ (by simp) fun c hc => ?_
      rcases List.mem_append.mp hc with hc | hc
      · exact hw.calleeChars c hc
      · exact List.forall_mem_cons.mpr ⟨by decide, hf.calleeChars⟩ c hc
    | yes hw | no hw | nothing hw => exact literal (by simp [literalWords, hw])
    | var hv => exact Scan.readsWhole_word hv.1.calleeChars.1 hv.1.calleeChars.2
    | item hv h₁ h₂ hd hne h₃ =>
      obtain ⟨s₁, hs₁, word⟩ := Scan.readsWhole_word hv.1.calleeChars.1 hv.1.calleeChars.2
      obtain ⟨s₂, hs₂, gap⟩ := Scan.reads_gap_outside hs₁ h₁
      obtain ⟨s₃, hs₃, digits⟩ := Scan.readsWhole_word hne hd.calleeChars
      obtain ⟨s₄, hs₄, gap'⟩ := Scan.reads_gap_outside hs₃ h₃
      have closed : s₄.Reads [']'] [] .between := .delimiter hs₄ (by decide) (.nil _)
      have index := Scan.Reads.delimiter hs₂ (c := '[') (by decide)
        ((Scan.reads_gap h₂).append (digits.append (gap'.append closed)))
      exact ⟨.between, rfl, word.append (gap.append index)⟩
    | call => exact absurd rfl (hother _ _)

theorem Action.IsLet.reads (h : IsLet cs) :
    ∃ s, (∀ c, Scan.isCalleeChar c = true → s.next c = .word [c]) ∧ Scan.between.Reads cs [] s := by
  cases h with
  | leftOut => exact ⟨.between, fun _ => Scan.next_between, .nil _⟩
  | written hg hne =>
    have name : IsName ['l', 'e', 't'] := by decide
    have word := Scan.reads_word (fun _ => Scan.next_between) name.calleeChars.1 name.calleeChars.2
    have named : (Scan.word ['l', 'e', 't']).word? = some ['l', 'e', 't'] := rfl
    obtain ⟨s, -, behind, gap⟩ := Scan.reads_gap_name named hg
    -- The gap keeps the word from going on in the name.
    exact ⟨s, fun _ => behind hne ▸ Scan.next_behind _, word.append gap⟩

theorem Action.SpellsBinding.reads {binding : Option String} (h : SpellsBinding cs binding) :
    Scan.between.Reads cs [] .between := by
  cases h with
  | none => exact .nil _
  | @some _ name _ _ hl hn h₁ h₂ =>
    obtain ⟨s₁, next, lead⟩ := hl.reads
    have word := Scan.reads_word next hn.calleeChars.1 hn.calleeChars.2
    have outside : (Scan.word name).isOutside = true := rfl
    obtain ⟨s₂, hs₂, gap⟩ := Scan.reads_gap_outside outside h₁
    have equals := Scan.Reads.delimiter hs₂ (c := '=') (by decide) (Scan.reads_gap h₂)
    exact lead.append (word.append (gap.append equals))

theorem Action.IsStop.reads (h : IsStop cs) (hs : s.isOutside = true) : ∃ s', s.Reads cs [] s' := by
  cases h with
  | nil => exact ⟨s, .nil s⟩
  | semicolon hg =>
    obtain ⟨s₁, hs₁, gap⟩ := Scan.reads_gap_outside hs hg
    have stop := Scan.Reads.delimiter hs₁ (c := ';') (by decide) (.nil _)
    exact ⟨_, gap.append stop⟩

/-- On a line the scan finds the callees of its phrase: a binding has none. -/
theorem Action.SpellsLine.callees {binding : Option String} (h : SpellsLine cs (binding, p)) :
    Scan.between.callees cs = p.callees := by
  cases h with
  | mk hb hs hstop =>
    obtain ⟨s₁, hs₁, phrase⟩ := hs.readsWhole
    obtain ⟨s₂, stopped⟩ := hstop.reads hs₁
    have whole := hb.reads.append (phrase.append stopped)
    rw [List.nil_append, List.append_nil] at whole
    exact whole.1

end

/-! ## Operations -/

namespace Phrase

def written (phrase : Phrase) : List Operation := phrase.callees.filterMap Operation.ofCallee?

/-- The calls of the expression are those that are written in the phrase. -/
structure Lists (phrase : Phrase) (e : Expr) : Prop where
  known : ∀ callee ∈ phrase.callees, ∃ op : Operation, op.IsCalled callee
  perm : e.operations.Perm phrase.written
  ordered : phrase.InSlotOrder → e.operations = phrase.written

theorem calleesOfArgs_eq (args : List (Option String × Phrase)) :
    calleesOfArgs args = args.flatMap fun arg => arg.2.callees := by
  induction args with
  | nil => rw [calleesOfArgs, List.flatMap_nil]
  | cons arg args ih => rw [calleesOfArgs, ih, List.flatMap_cons]

end Phrase

theorem Expr.operationsOfArgs_eq (slots : List (Option Expr)) :
    operationsOfArgs slots = slots.reduceOption.flatMap operations := by
  induction slots with
  | nil => rw [operationsOfArgs, List.reduceOption_nil, List.flatMap_nil]
  | cons slot slots ih =>
    cases slot with
    | none => rw [operationsOfArgs, ih, List.reduceOption_cons_of_none]
    | some e => rw [operationsOfArgs, ih, List.reduceOption_cons_of_some, List.flatMap_cons]

/-- Elements of which nothing comes may be left out. -/
theorem flatMap_filter_of_nil {α β : Type} {l : List α} {keep : α → Bool} {g : α → List β}
    (h : ∀ a ∈ l, keep a = false → g a = []) : (l.filter keep).flatMap g = l.flatMap g := by
  induction l with
  | nil => rfl
  | cons a l ih =>
    obtain ⟨ha, hl⟩ := List.forall_mem_cons.mp h
    cases hk : keep a with
    | true => rw [List.filter_cons_of_pos hk, List.flatMap_cons, List.flatMap_cons, ih hl]
    | false =>
      rw [List.filter_cons_of_neg (by simp [hk]), List.flatMap_cons, ih hl, ha hk, List.nil_append]

theorem filter_range_of_sorted {n : Nat} {slots : List Nat} (sorted : slots.Pairwise (· < ·))
    (lt : ∀ slot ∈ slots, slot < n) :
    (List.range n).filter (fun slot => slot ∈ slots) = slots := by
  have antisymm : ∀ i j : Nat, i < j → j < i → i = j := fun i j h h' =>
    absurd h (Nat.lt_asymm h')
  refine List.Perm.eq_of_pairwise (fun i j _ _ => antisymm i j)
    (List.pairwise_lt_range.filter _) sorted ?_
  refine (List.perm_ext_iff_of_nodup (List.nodup_range.filter _)
    (sorted.imp Nat.ne_of_lt)).mpr fun slot => ?_
  simp only [List.mem_filter, List.mem_range, decide_eq_true_eq, and_iff_right_iff_imp]
  exact lt slot

/-- What comes of values in slots, slot by slot, comes of them one by one, if those of which
anything comes stand in the order of their slots. -/
theorem flatMap_slotsWith {n : Nat} {placed : List (Nat × Expr)} {f : Expr → List Operation}
    (distinct : (placed.map Prod.fst).Nodup) (lt : ∀ found ∈ placed, found.1 < n)
    (sorted : ((placed.filter fun found => !(f found.2).isEmpty).map Prod.fst).Pairwise (· < ·)) :
    (slotsWith n placed).reduceOption.flatMap f = placed.flatMap fun found => f found.2 := by
  -- The values of which nothing comes are left out on both sides. The slots of the others are
  -- sorted, so they are met in the range as they stand.
  obtain ⟨kept, hkept⟩ : ∃ kept, placed.filter (fun found => !(f found.2).isEmpty) = kept :=
    ⟨_, rfl⟩
  rw [hkept] at sorted
  have mem : ∀ {found : Nat × Expr}, found ∈ kept ↔ found ∈ placed ∧ f found.2 ≠ [] := by
    intro found
    rw [← hkept, List.mem_filter]
    simp
  have bySlot : (slotsWith n placed).reduceOption.flatMap f =
      (List.range n).flatMap fun slot => (placed.lookup slot).toList.flatMap f := by
    rw [slotsWith, List.reduceOption, List.filterMap_map, List.filterMap_eq_flatMap_toList,
      List.flatMap_assoc]
    rfl
  have slots := filter_range_of_sorted sorted
    (List.forall_mem_map.mpr fun found hfound => lt found (mem.mp hfound).1)
  have others : ∀ slot ∈ List.range n, decide (slot ∈ kept.map Prod.fst) = false →
      (placed.lookup slot).toList.flatMap f = [] := by
    intro slot _ hslot
    cases hl : placed.lookup slot with
    | none => rfl
    | some e =>
      by_contra hne
      have found : (slot, e) ∈ kept := by
        refine mem.mpr ⟨(lookup_eq_some_iff_mem distinct).mp hl, ?_⟩
        simpa using hne
      exact of_decide_eq_false hslot (List.mem_map_of_mem found)
  have each : (kept.map Prod.fst).flatMap (fun slot => (placed.lookup slot).toList.flatMap f) =
      kept.flatMap fun found => f found.2 := by
    rw [List.flatMap_map]
    refine List.flatMap_congr fun found hfound => ?_
    rw [(lookup_eq_some_iff_mem distinct).mpr (mem.mp hfound).1]
    simp
  rw [bySlot, ← flatMap_filter_of_nil others, slots, each, ← hkept]
  exact flatMap_filter_of_nil fun found _ hempty => by simpa using hempty

namespace Phrase

section

variable {callee : String} {args : List (Option String × Phrase)} {values : List Expr}
  {phrase : Phrase} {e : Expr} {op : Operation}

theorem written_call (called : op.IsCalled callee) :
    (Phrase.call callee args).written = op :: args.flatMap fun arg => arg.2.written := by
  rw [written, callees, List.filterMap_cons, Operation.ofCallee?_eq_some_iff.mpr called,
    calleesOfArgs_eq, List.filterMap_flatMap]
  rfl

theorem InSlotOrder.arg (h : (Phrase.call callee args).InSlotOrder) :
    ∀ arg ∈ args, arg.2.InSlotOrder :=
  fun _ harg callee' args' has => h callee' args' (.arg harg has)

theorem Lists.isEmpty_eq (h : phrase.Lists e) :
    e.operations.isEmpty = phrase.callees.isEmpty := by
  have length := h.perm.length_eq
  cases hc : phrase.callees with
  | nil =>
    rw [written, hc] at length
    exact List.isEmpty_iff.mpr (List.eq_nil_of_length_eq_zero length)
  | cons callee callees =>
    obtain ⟨op, called⟩ := h.known callee (by rw [hc]; exact List.mem_cons_self)
    rw [written, hc, List.filterMap_cons, Operation.ofCallee?_eq_some_iff.mpr called,
      List.length_cons] at length
    cases ho : e.operations with
    | nil => simp [ho] at length
    | cons => rfl

theorem lists_args (h : List.Forall₂ (fun arg value => Lists arg.2 value) args values) :
    (∀ callee ∈ args.flatMap fun arg => arg.2.callees, ∃ op : Operation, op.IsCalled callee) ∧
    (values.flatMap Expr.operations).Perm (args.flatMap fun arg => arg.2.written) ∧
    ((∀ arg ∈ args, arg.2.InSlotOrder) →
      values.flatMap Expr.operations = args.flatMap fun arg => arg.2.written) := by
  induction h with
  | nil => exact ⟨by simp, .refl _, fun _ => rfl⟩
  | @cons arg value args values hl _ ih =>
    obtain ⟨known, perm, ordered⟩ := ih
    simp only [List.flatMap_cons]
    refine ⟨fun callee hmem => ?_, hl.perm.append perm, fun inOrder => ?_⟩
    · exact (List.mem_append.mp hmem).elim (hl.known callee) (known callee)
    · obtain ⟨harg, hargs⟩ := List.forall_mem_cons.mp inOrder
      rw [hl.ordered harg, ordered hargs]

/-- The arguments that have calls in them are those whose values have. -/
theorem filter_zip (h : List.Forall₂ (fun arg value => Lists arg.2 value) args values)
    (places : List Nat) :
    ((places.zip values).filter fun found => !found.2.operations.isEmpty).map Prod.fst =
      ((places.zip (args.map (·.2))).filter fun found => !found.2.callees.isEmpty).map
        Prod.fst := by
  induction h generalizing places with
  | nil => simp
  | cons hl _ ih =>
    cases places with
    | nil => rfl
    | cons place places =>
      have same := hl.isEmpty_eq
      rw [List.map_cons, List.zip_cons_cons, List.zip_cons_cons, List.filter_cons,
        List.filter_cons, same]
      split
      · rw [List.map_cons, List.map_cons, ih]
      · exact ih places

theorem lists_of_toExpr (he : phrase.toExpr = .ok e) : phrase.Lists e := by
  induction phrase using Phrase.induction generalizing e with
  | call callee args ih =>
    obtain ⟨op, slots, called, ⟨values, read, order, bound⟩, rfl⟩ := toExpr_call_eq_ok_iff.mp he
    have lists : List.Forall₂ (fun arg value => Lists arg.2 value) args values := by
      rw [List.forall₂_iff_zip] at read ⊢
      exact ⟨read.1, fun hmem => ih _ (List.of_mem_zip hmem).1 (read.2 hmem)⟩
    obtain ⟨known, perm, ordered⟩ := lists_args lists
    have length : values.length = (args.map (·.1)).length := Values.length_eq read
    have operations : (Expr.call op slots).operations =
        op :: slots.reduceOption.flatMap Expr.operations := by
      rw [Expr.operations, Expr.operationsOfArgs_eq]
    refine ⟨?_, ?_, fun inOrder => ?_⟩
    · rw [callees, calleesOfArgs_eq]
      exact List.forall_mem_cons.mpr ⟨⟨op, called⟩, known⟩
    · rw [operations, written_call called]
      exact (((bound.holds order length).kept.flatMap_right _).trans perm).cons op
    -- The slots are read from the first on, the arguments as they stand.
    · obtain ⟨places, placed, nodup, rfl⟩ := bound.placed
      have count : places.length = values.length := placed.length_eq.trans length.symm
      have distinct : ((places.zip values).map Prod.fst).Nodup := by
        rwa [List.map_fst_zip (Nat.le_of_eq count)]
      have lt : ∀ found ∈ places.zip values, found.1 < op.params.length := fun found hmem =>
        placed.lt (Nat.zero_le _) found.1 (List.of_mem_zip hmem).1
      have sorted : (((places.zip values).filter fun found =>
          !found.2.operations.isEmpty).map Prod.fst).Pairwise (· < ·) := by
        rw [filter_zip lists places, List.pairwise_map]
        exact inOrder callee args .here op places called placed
      have all : (places.zip values).map Prod.snd = values :=
        List.map_snd_zip (Nat.le_of_eq count.symm)
      rw [operations, written_call called, flatMap_slotsWith distinct lt sorted,
        ← ordered inOrder.arg, ← all, List.flatMap_map, all]
  | other phrase hother =>
    cases phrase with
    | call callee args => exact absurd rfl (hother callee args)
    | item name index =>
      rw [toExpr] at he
      split at he
      · cases he
        exact ⟨by simp [callees], .refl _, fun _ => rfl⟩
      · cases he
    | text | number | bool | nothing | var =>
      cases he
      exact ⟨by simp [callees], .refl _, fun _ => rfl⟩

end

end Phrase

/-! ## Programs -/

/-- So it is with the phrase that is read of the statement. -/
def Statement.InSlotOrder (s : Statement) : Prop :=
  ∀ binding phrase, readStatement? s.source = some (binding, phrase) → phrase.InSlotOrder

/-- The operations are written on the line of the statement. -/
structure Statement.Writes (s : Statement) (written : List Operation) : Prop where
  perm : s.expr.operations.Perm written
  ordered : s.InSlotOrder → s.expr.operations = written

section

variable {n : Nat} {raw text : String} {lines : List String} {phrase : Phrase} {s : Statement}
  {statements : List Statement} {program : Program} {written : List (List Operation)}

theorem Operation.forall₂_ofCallee? {callees : List String}
    (known : ∀ callee ∈ callees, ∃ op : Operation, op.IsCalled callee) :
    List.Forall₂ IsCalled (callees.filterMap ofCallee?) callees := by
  induction callees with
  | nil => exact .nil
  | cons callee callees ih =>
    obtain ⟨⟨op, called⟩, later⟩ := List.forall_mem_cons.mp known
    rw [List.filterMap_cons, ofCallee?_eq_some_iff.mpr called]
    exact .cons called (ih later)

theorem Action.calleesOn_of_none (h : readLine n raw = .ok none) : calleesOn raw = [] := by
  simp only [readLine] at h
  split at h
  · next skipped => exact if_pos skipped
  · split at h <;> cases h

theorem Action.readLine_source (h : readLine n raw = .ok (some s)) :
    ¬ isSkipped (Text.trim raw) ∧ s.source = Text.trim raw := by
  simp only [readLine] at h
  split at h
  · cases h
  · next kept =>
    split at h
    · cases h
    · cases h
      exact ⟨kept, rfl⟩

theorem Action.calleesOn_of_some (h : readLine n raw = .ok (some s)) :
    ∃ written, List.Forall₂ Operation.IsCalled written (calleesOn raw) ∧ s.Writes written := by
  obtain ⟨kept, source⟩ := readLine_source h
  obtain ⟨phrase, found, -, value⟩ := readStatement_eq_ok_iff.mp (readLine_eq_some h)
  have lists := Phrase.lists_of_toExpr value
  have callees : calleesOn raw = phrase.callees := by
    rw [calleesOn, if_neg kept]
    exact (readStatement?_sound Text.trimmed_trim.gaps found).callees
  rw [← source] at found
  refine ⟨phrase.written, ?_, lists.perm, fun inOrder => lists.ordered (inOrder _ _ found)⟩
  rw [callees]
  exact Operation.forall₂_ofCallee? lists.known

theorem Action.calleesOn_of_readLine {found : Option Statement} (h : readLine n raw = .ok found) :
    ∃ written : List (List Operation),
      List.Forall₂ Operation.IsCalled written.flatten (calleesOn raw) ∧
      List.Forall₂ Statement.Writes found.toList written := by
  cases found with
  | none =>
    rw [calleesOn_of_none h]
    exact ⟨[], .nil, .nil⟩
  | some s =>
    obtain ⟨written, named, writes⟩ := calleesOn_of_some h
    refine ⟨[written], ?_, .cons writes .nil⟩
    rwa [List.flatten_singleton]

theorem Action.calleesOn_of_statementsFrom (h : statementsFrom n lines = .ok statements) :
    ∃ written : List (List Operation),
      List.Forall₂ Operation.IsCalled written.flatten (lines.flatMap calleesOn) ∧
      List.Forall₂ Statement.Writes statements written := by
  induction lines generalizing n statements with
  | nil =>
    cases h
    exact ⟨[], .nil, .nil⟩
  | cons raw lines ih =>
    obtain ⟨found, later, hread, hlater, rfl⟩ := statementsFrom_cons_eq_ok.mp h
    obtain ⟨here, hereNamed, hereWrites⟩ := calleesOn_of_readLine hread
    obtain ⟨more, moreNamed, moreWrites⟩ := ih hlater
    refine ⟨here ++ more, ?_, List.rel_append hereWrites moreWrites⟩
    rw [List.flatten_append, List.flatMap_cons]
    exact List.rel_append hereNamed moreNamed

theorem Statement.Writes.operations (h : List.Forall₂ Writes statements written) :
    (Program.operations ⟨statements⟩).Perm written.flatten ∧
      ((∀ s ∈ statements, s.InSlotOrder) → Program.operations ⟨statements⟩ = written.flatten) := by
  simp only [Program.operations]
  induction h with
  | nil => exact ⟨.refl _, fun _ => rfl⟩
  | cons writes _ ih =>
    obtain ⟨perm, ordered⟩ := ih
    rw [List.flatMap_cons, List.flatten_cons]
    refine ⟨writes.perm.append perm, fun inOrder => ?_⟩
    obtain ⟨first, others⟩ := List.forall_mem_cons.mp inOrder
    rw [writes.ordered first, ordered others]

theorem Phrase.inSlotOrder_of_positional
    (h : ∀ callee args, phrase.Has (.call callee args) → ∀ arg ∈ args, arg.1 = none) :
    phrase.InSlotOrder := by
  intro callee args has op places _ placed
  have keys : args.map (·.1) = List.replicate args.length none := by
    rw [List.eq_replicate_iff]
    exact ⟨List.length_map _, List.forall_mem_map.mpr (h callee args has)⟩
  rw [keys] at placed
  rw [places_of_positions placed]
  have sorted : ((List.range args.length).zip (args.map (·.2))).Pairwise
      fun earlier later => earlier.1 < later.1 := by
    rw [← List.pairwise_map, List.map_fst_zip (by simp)]
    exact List.pairwise_lt_range
  exact sorted.filter _

/-- The operations of a program are those that are written in the text, statement by statement. They
are listed as they are written if the arguments stand in the order of their slots. -/
theorem operations_written (parsed : Action.parse text = .ok program) :
    ∃ written : List (List Operation),
      List.Forall₂ Operation.IsCalled written.flatten (calleesIn text) ∧
      List.Forall₂ Statement.Writes program.statements written ∧
      program.operations.Perm written.flatten ∧
      ((∀ s ∈ program.statements, s.InSlotOrder) → program.operations = written.flatten) := by
  obtain ⟨statements, read, rfl⟩ := map_eq_ok_iff.mp parsed
  obtain ⟨written, named, writes⟩ := calleesOn_of_statementsFrom read
  exact ⟨written, named, writes, Statement.Writes.operations writes⟩

end

/-- Without keywords, the calls are listed as they are written. -/
theorem operations_written_click :
    Action.parse "click(find_element_by_description(\"a\"))" = .ok Rehearsal.clickDescribed ∧
      List.Forall₂ Operation.IsCalled Rehearsal.clickDescribed.operations
        (calleesIn "click(find_element_by_description(\"a\"))") := by
  have text : Spells "\"a\"".toList (.text "a") :=
    @Spells.text '"' [.plain 'a'] (.inl rfl) (by simp [Piece.Fits])
  have clicked :=
    Rehearsal.spells_unary .click (Rehearsal.spells_unary .findElementByDescription text)
  have spelled : SpellsLine "click(find_element_by_description(\"a\"))".toList
      (none, .call "click" [(none, .call "find_element_by_description" [(none, .text "a")])]) :=
    .mk .none clicked .nil
  have parsed := Rehearsal.parse_clickDescribed
  obtain ⟨written, named, -, -, ordered⟩ := operations_written parsed
  have positional : ∀ s ∈ Rehearsal.clickDescribed.statements, s.InSlotOrder := by
    intro s hs binding phrase found
    obtain rfl := List.mem_singleton.mp hs
    cases (readStatement?_of_spells spelled (by simp)).symm.trans found
    refine Phrase.inSlotOrder_of_positional fun callee args has => ?_
    cases has with
    | here => simp
    | arg hmem has =>
      obtain rfl := List.mem_singleton.mp hmem
      cases has with
      | here => simp
      | arg hmem has =>
        obtain rfl := List.mem_singleton.mp hmem
        cases has
  rw [← ordered positional] at named
  exact ⟨parsed, named⟩

/-! ## Keywords in the other order -/

theorem spells_savedText :
    SpellsLine "save(filename=text(a), text=page_text())".toList
      (none, .call "save" [(some "filename", .call "text" [(none, .var "a")]),
        (some "text", .call "page_text" [])]) := by
  have a : Spells "a".toList (.var "a") := @Spells.var "a".toList ⟨by decide, by decide⟩
  have element : Spells "text(a)".toList (.call "text" [(none, .var "a")]) :=
    Rehearsal.spells_unary .text a
  have page : Spells "page_text()".toList (.call "page_text" []) :=
    @Spells.call "page_text".toList [] [] [] [] (by decide) .nil isGap_nil (.nil isGap_nil)
  have filename : SpellsArg Spells "filename=text(a)".toList
      (some "filename", .call "text" [(none, .var "a")]) :=
    @SpellsArg.keyword _ "filename".toList [] [] _ _ (by decide) isGap_nil isGap_nil element
  have text : SpellsArg Spells "text=page_text()".toList (some "text", .call "page_text" []) :=
    @SpellsArg.keyword _ "text".toList [] [] _ _ (by decide) isGap_nil isGap_nil page
  have more : SpellsMoreArgs Spells ", text=page_text()".toList
      [(some "text", .call "page_text" [])] :=
    @SpellsMoreArgs.cons _ [] [' '] _ _ _ _ isGap_nil (by simp [IsGap, isGap]) text
      (.nil isGap_nil)
  exact .mk .none (@Spells.call "save".toList [] [] _ _ (by decide) .nil isGap_nil
    (.cons isGap_nil filename more)) .nil

theorem toExpr_savedText :
    (Phrase.call "save" [(some "filename", .call "text" [(none, .var "a")]),
      (some "text", .call "page_text" [])]).toExpr =
      .ok (.call .save [some (.call .pageText [none]), some (.call .text [some (.var "a")])]) :=
  rfl

def savedText : Program where
  statements := [{
    line := 1
    source := "save(filename=text(a), text=page_text())"
    binding := none
    expr := .call .save [some (.call .pageText [none]), some (.call .text [some (.var "a")])] }]

/-- The text is before the name of the file in the slots, so it is before it in the list. -/
theorem operations_not_as_written :
    Action.parse "save(filename=text(a), text=page_text())" = .ok savedText ∧
    savedText.operations = [.save, .pageText, .text] ∧
    calleesIn "save(filename=text(a), text=page_text())" = ["save", "text", "page_text"] ∧
    ¬ ∀ (text : String) (program : Program), Action.parse text = .ok program →
      List.Forall₂ Operation.IsCalled program.operations (calleesIn text) := by
  have parsed : Action.parse "save(filename=text(a), text=page_text())" = .ok savedText := by
    refine parse_of_line (by decide) (by decide) (by decide) (readStatement_eq_ok_iff.mpr ?_)
    exact ⟨_, readStatement?_of_spells spells_savedText (by simp), by simp, toExpr_savedText⟩
  have callees : calleesIn "save(filename=text(a), text=page_text())" =
      ["save", "text", "page_text"] := by decide
  refine ⟨parsed, rfl, callees, fun inOrder => ?_⟩
  have named := inOrder _ _ parsed
  rw [callees] at named
  cases named with
  | cons _ later => cases later with
    | cons page _ => exact absurd (Operation.ofCallee?_eq_some_iff.mpr page) (by decide)

end BrowserAgent
