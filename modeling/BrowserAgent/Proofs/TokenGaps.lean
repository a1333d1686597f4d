import BrowserAgent.Yaml.Cursor
import BrowserAgent.Yaml.Printer
import Mathlib.Data.List.Basic

/-!
# Gaps between tokens

Between the tokens of a printed text there are spaces, and line feeds with indentation behind them.
A cursor passes them and stops at the next token, or at the end.
-/

namespace BrowserAgent.Yaml

variable {text : List Char} {c : Cursor} {x : Char} {n k : Nat}

/-- A token may start with the character. -/
def opensToken (x : Char) : Bool := !isBlank x && !isBreak x && x != '#' && x != '\uFEFF'

/-- At a token, or at the end of the text. -/
def AtToken (text : List Char) : Prop := ∀ x ∈ text.head?, opensToken x = true

theorem atToken_cons : AtToken (x :: text) ↔ opensToken x = true := by simp [AtToken]

theorem opensToken_iff :
    opensToken x = true ↔ isBlank x = false ∧ isBreak x = false ∧ x ≠ '#' ∧ x ≠ '\uFEFF' := by
  simp [opensToken, and_assoc]

theorem isBlank_of_isBreak (h : isBreak x = true) : isBlank x = false := by
  simp only [isBreak, Bool.or_eq_true, beq_iff_eq] at h
  rcases h with (((rfl | rfl) | rfl) | rfl) | rfl <;> rfl

theorem mem_spaces (h : x ∈ spaces n) : x = ' ' := (List.mem_replicate.mp h).2

theorem length_spaces (n : Nat) : (spaces n).length = n := List.length_replicate

theorem spaces_succ (n : Nat) : spaces (n + 1) = ' ' :: spaces n := rfl

theorem exists_spaces (cs : List Char) :
    ∃ n rest, cs = spaces n ++ rest ∧ rest.head? ≠ some ' ' := by
  induction cs with
  | nil => exact ⟨0, [], rfl, nofun⟩
  | cons x cs ih =>
    by_cases space : x = ' '
    · obtain ⟨n, rest, rfl, stop⟩ := ih
      exact ⟨n + 1, rest, by rw [space]; rfl, stop⟩
    · exact ⟨0, x :: cs, rfl, by simpa using space⟩

theorem getLast?_spaces (n : Nat) : (spaces (n + 1)).getLast? = some ' ' := by
  rw [spaces, List.getLast?_replicate, if_neg (Nat.succ_ne_zero n)]

namespace Cursor

/-! ## Passing characters -/

@[simp] theorem pass_rest (n : Nat) (c : Cursor) : (c.pass n).rest = c.rest.drop n := rfl

@[simp] theorem pass_column (n : Nat) (c : Cursor) : (c.pass n).column = c.column + n := rfl

@[simp] theorem pass_keyAllowed (n : Nat) (c : Cursor) :
    (c.pass n).keyAllowed = c.keyAllowed := rfl

@[simp] theorem allowKey_rest (b : Bool) (c : Cursor) : (c.allowKey b).rest = c.rest := rfl

@[simp] theorem allowKey_column (b : Bool) (c : Cursor) : (c.allowKey b).column = c.column := rfl

@[simp] theorem allowKey_keyAllowed (b : Bool) (c : Cursor) : (c.allowKey b).keyAllowed = b := rfl

theorem pass_zero (c : Cursor) : c.pass 0 = c := rfl

theorem byteCount_append (xs ys : List Char) :
    byteCount (xs ++ ys) = byteCount xs + byteCount ys := by
  have shift (zs : List Char) (m : Nat) :
      zs.foldl (fun n x => n + x.utf8Size) m = m + zs.foldl (fun n x => n + x.utf8Size) 0 := by
    induction zs generalizing m with
    | nil => rfl
    | cons z zs ih => rw [List.foldl_cons, List.foldl_cons, ih, ih (0 + z.utf8Size)]; omega
  rw [byteCount, List.foldl_append, shift ys]
  rfl

theorem pass_pass (m n : Nat) (c : Cursor) : (c.pass m).pass n = c.pass (m + n) := by
  have bytes : byteCount (c.rest.take (m + n)) =
      byteCount (c.rest.take m) + byteCount ((c.rest.drop m).take n) := by
    rw [List.take_add, byteCount_append]
  simp only [pass, List.drop_drop, bytes, Nat.add_assoc]

theorem passBreak_rest (h : c.rest = x :: text) (single : x ≠ '\r') : c.passBreak.rest = text := by
  rw [passBreak, h]
  split
  · next heq => exact absurd (List.cons.inj heq).1 single
  · rfl

@[simp] theorem passBreak_column (c : Cursor) : c.passBreak.column = 0 := rfl

theorem takeWhile_spaces {p : Char → Bool} (space : p ' ' = true)
    (stop : ∀ x ∈ text.head?, p x = false) : (spaces n ++ text).takeWhile p = spaces n := by
  rw [List.takeWhile_append_of_pos (fun x hx => mem_spaces hx ▸ space)]
  cases text with
  | nil => simp
  | cons x more => rw [List.takeWhile_cons_of_neg (by simp [stop x rfl]), List.append_nil]

/-! ## Skipping to a token -/

theorem passOrderMark_of_ne (h : c.rest.head? ≠ some '\uFEFF') : c.passOrderMark = c := by
  rw [passOrderMark, if_neg]
  simp [h]

theorem passComment_of_ne (h : c.rest.head? ≠ some '#') : c.passComment = c := if_neg h

theorem passBlanks_spaces (inFlow : Bool) (h : c.rest = spaces n ++ text)
    (next : ∀ x ∈ text.head?, isBlank x = false) : c.passBlanks inFlow = c.pass n := by
  have found : c.rest.takeWhile (fun x => x == ' ' || (x == '\t' && (inFlow || !c.keyAllowed))) =
      spaces n := by
    rw [h]
    refine takeWhile_spaces (by simp) fun x hx => ?_
    have solid := next x hx
    simp only [isBlank, Bool.or_eq_false_iff] at solid
    rw [solid.1, solid.2]
    rfl
  rw [passBlanks, passWhile, found, length_spaces]

theorem skip_spaces (inFlow : Bool) (fuel : Nat) (h : c.rest = spaces n ++ text)
    (next : AtToken text) : c.skip inFlow (fuel + 1) = c.pass n := by
  have behind : (c.pass n).rest = text := by
    rw [pass_rest, h, List.drop_left' (length_spaces n)]
  have mark : c.passOrderMark = c := by
    refine passOrderMark_of_ne ?_
    rw [h]
    cases n with
    | zero =>
      intro found
      exact absurd rfl (opensToken_iff.mp (next _ found)).2.2.2
    | succ n => simp [spaces_succ]
  have comment : (c.pass n).passComment = c.pass n := by
    refine passComment_of_ne ?_
    rw [behind]
    intro found
    exact absurd rfl (opensToken_iff.mp (next _ found)).2.2.1
  have solid : (c.pass n).atBreak = false := by
    rw [atBreak, behind]
    cases found : text.head? with
    | none => rfl
    | some x => exact (opensToken_iff.mp (next _ found)).2.1
  have blanks : c.passBlanks inFlow = c.pass n :=
    passBlanks_spaces inFlow h fun x hx => (opensToken_iff.mp (next x hx)).1
  rw [skip]
  simp only [mark, blanks, comment, solid, Bool.false_eq_true, if_false]

/-- Behind spaces. -/
theorem toToken_spaces (inFlow : Bool) (h : c.rest = spaces n ++ text) (next : AtToken text) :
    c.toToken inFlow = c.pass n := skip_spaces inFlow _ h next

theorem toToken_of_atToken (inFlow : Bool) (next : AtToken c.rest) : c.toToken inFlow = c :=
  toToken_spaces inFlow (n := 0) rfl next

/-- The next token outside of flow collections is there. -/
structure LeadsTo (c : Cursor) (text : List Char) (column : Nat) (keyAllowed : Bool) : Prop where
  rest : (c.toToken false).rest = text
  column : (c.toToken false).column = column
  keyAllowed : (c.toToken false).keyAllowed = keyAllowed

/-- Behind the end of a line, where a key may start. -/
theorem leadsTo_of_break (h : c.rest = '\n' :: (spaces k ++ text)) (next : AtToken text) :
    c.LeadsTo text k true := by
  have mark : c.passOrderMark = c := passOrderMark_of_ne (by simp [h])
  have blanks : c.passBlanks false = c := passBlanks_spaces (n := 0) false h (by simp; decide)
  have comment : c.passComment = c := passComment_of_ne (by simp [h])
  have atBreak : c.atBreak = true := by
    rw [Cursor.atBreak, h]
    rfl
  have behind : (c.passBreak.allowKey (c.keyAllowed || !false)).rest = spaces k ++ text :=
    passBreak_rest h (by decide)
  have reached : c.toToken false = (c.passBreak.allowKey (c.keyAllowed || !false)).pass k := by
    rw [toToken, skip]
    simp only [mark, blanks, comment, atBreak, if_true]
    rw [h, List.length_cons]
    exact skip_spaces false _ behind next
  refine ⟨?_, ?_, ?_⟩
  · rw [reached, pass_rest, behind, List.drop_left' (length_spaces k)]
  · rw [reached, pass_column, allowKey_column, passBreak_column, Nat.zero_add]
  · rw [reached, pass_keyAllowed, allowKey_keyAllowed, Bool.not_false, Bool.or_true]

theorem leadsTo_of_spaces (h : c.rest = spaces n ++ text) (next : AtToken text) :
    c.LeadsTo text (c.column + n) c.keyAllowed := by
  have reached := toToken_spaces false h next
  refine ⟨?_, ?_, ?_⟩
  · rw [reached, pass_rest, h, List.drop_left' (length_spaces n)]
  · rw [reached, pass_column]
  · rw [reached, pass_keyAllowed]

end Cursor

end BrowserAgent.Yaml
