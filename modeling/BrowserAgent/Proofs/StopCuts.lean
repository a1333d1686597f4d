import BrowserAgent.Completion
import BrowserAgent.Proofs.FencedCompletions
import BrowserAgent.Proofs.SavedDocuments
import Mathlib.Data.String.Basic

/-!
# Cuts at stops

A completion is the body of an output up to the first stop in it, so no stop is left in it and one
stands right behind it, unless it is the whole body. Counted in bytes the cut is the least of the
offsets at which the stops first stand. The bytes of a text stand only where its characters do, so
such an offset never lies within a character.
-/

namespace BrowserAgent

open BrowserAgent.Action (Stops stops_cons)

namespace Text

/-! ## Offsets -/

/-- The offset at which the needle first stands in the bytes. -/
def offset? (needle : List UInt8) : List UInt8 → Option Nat
  | [] => if needle.isEmpty then some 0 else none
  | b :: bs => if needle.isPrefixOf (b :: bs) then some 0 else (offset? needle bs).map (· + 1)

/-- The offsets at which the stops that are not empty first stand in the text. -/
def stopOffsets (stops : List String) (s : String) : List Nat :=
  (stops.filter (· ≠ "")).filterMap fun stop => offset? (toBytes stop) (toBytes s)

/-- The least of them, or the end of the text if no stop stands in it. -/
def cutOffset (stops : List String) (s : String) : Nat :=
  (stopOffsets stops s).min?.getD s.utf8ByteSize

def utf8 (cs : List Char) : List UInt8 := cs.flatMap String.utf8EncodeChar

section

variable {needle bs tail : List UInt8} {c : Char} {cs xs : List Char} {s : String}

theorem toBytes_eq (s : String) : toBytes s = utf8 s.toList := by
  rw [toBytes, ByteArray.toList, toList_loop_eq, List.reverse_nil, List.nil_append, List.drop_zero,
    String.toUTF8_eq_toByteArray, ← String.utf8Encode_toList, List.utf8Encode,
    List.toList_data_toByteArray]
  rfl

theorem utf8_append (cs xs : List Char) : utf8 (cs ++ xs) = utf8 cs ++ utf8 xs :=
  List.flatMap_append

theorem length_utf8 (s : String) : (utf8 s.toList).length = s.utf8ByteSize := by
  rw [← String.size_toByteArray, ← String.utf8Encode_toList, List.utf8Encode,
    List.size_toByteArray]
  rfl

theorem utf8_prefix_iff : utf8 xs <+: utf8 cs ↔ xs <+: cs := by
  constructor
  · rintro ⟨bs, h⟩
    refine List.isPrefix_of_utf8Encode_append_eq_utf8Encode bs.toByteArray ?_
    rw [List.utf8Encode, List.utf8Encode, ← List.toByteArray_append]
    exact congrArg List.toByteArray h
  · rintro ⟨rest, rfl⟩
    rw [utf8_append]
    exact List.prefix_append _ _

theorem utf8_head (hne : xs ≠ []) : ∃ b bs, utf8 xs = b :: bs ∧ b.IsUTF8FirstByte := by
  obtain ⟨c, xs, rfl⟩ := List.exists_cons_of_ne_nil hne
  obtain ⟨b, bs, hbs⟩ := List.exists_cons_of_ne_nil (String.utf8EncodeChar_ne_nil (c := c))
  refine ⟨b, bs ++ utf8 xs, by rw [utf8, List.flatMap_cons, hbs]; rfl, ?_⟩
  have first := UInt8.isUTF8FirstByte_getElem_zero_utf8EncodeChar (c := c)
  simpa only [hbs, List.getElem_cons_zero] using first

theorem utf8_tail (c : Char) : ∃ b tail, String.utf8EncodeChar c = b :: tail ∧
    ∀ d ∈ tail, ¬ d.IsUTF8FirstByte := by
  obtain ⟨b, tail, hbs⟩ := List.exists_cons_of_ne_nil (String.utf8EncodeChar_ne_nil (c := c))
  refine ⟨b, tail, hbs, fun d hd first => ?_⟩
  obtain ⟨i, hi, rfl⟩ := List.getElem_of_mem hd
  have inside : i + 1 < (String.utf8EncodeChar c).length := by
    rw [hbs, List.length_cons]
    omega
  have starts := @UInt8.isUTF8FirstByte_getElem_utf8EncodeChar c (i + 1) inside
  simp only [hbs, List.getElem_cons_succ] at starts
  exact absurd (starts.mp first) (Nat.succ_ne_zero i)

theorem offset?_append (starts : ∃ b bs, needle = b :: bs ∧ b.IsUTF8FirstByte)
    (h : ∀ d ∈ tail, ¬ d.IsUTF8FirstByte) :
    offset? needle (tail ++ bs) = (offset? needle bs).map (· + tail.length) := by
  obtain ⟨b, more, rfl, first⟩ := starts
  induction tail with
  | nil => simp
  | cons d tail ih =>
    obtain ⟨hd, htail⟩ := List.forall_mem_cons.mp h
    have differs : (b == d) = false := by
      rw [beq_eq_false_iff_ne]
      rintro rfl
      exact hd first
    rw [List.cons_append, offset?, List.isPrefixOf, differs, Bool.false_and,
      if_neg Bool.false_ne_true, ih htail, Option.map_map]
    rfl

theorem offset?_utf8_cons (hne : xs ≠ []) :
    offset? (utf8 xs) (utf8 (c :: cs)) =
      if xs <+: c :: cs then some 0 else (offset? (utf8 xs) (utf8 cs)).map (· + c.utf8Size) := by
  -- A text starts with a byte that begins a character, so it stands nowhere within one.
  obtain ⟨b, tail, hc, inner⟩ := utf8_tail c
  have split : utf8 (c :: cs) = b :: (tail ++ utf8 cs) := by
    rw [utf8, List.flatMap_cons, hc]
    rfl
  have here : (utf8 xs).isPrefixOf (b :: (tail ++ utf8 cs)) = true ↔ xs <+: c :: cs := by
    rw [List.isPrefixOf_iff_prefix, ← split, utf8_prefix_iff]
  have size : c.utf8Size = tail.length + 1 := by
    rw [← String.length_utf8EncodeChar, hc, List.length_cons]
  rw [split, offset?, size, offset?_append (utf8_head hne) inner, Option.map_map]
  simp only [here]
  rfl

theorem offset?_utf8_nil (hne : xs ≠ []) : offset? (utf8 xs) (utf8 []) = none := by
  obtain ⟨b, bs, h, -⟩ := utf8_head hne
  rw [h]
  rfl

end

/-! ## The least offset -/

section

variable {stops : List String} {c : Char} {cs : List Char}

/-- A stop that is not empty stands at the start of the characters. -/
def StopsHere (stops : List String) (cs : List Char) : Prop :=
  ∃ stop ∈ stops, stop ≠ "" ∧ stop.toList <+: cs

theorem ne_nil_of_ne_empty {stop : String} (h : stop ≠ "") : stop.toList ≠ [] := fun heq =>
  h (String.toList_eq_nil_iff.mp heq)

theorem any_stop_iff :
    ((stops.map String.toList).any fun stop => !stop.isEmpty && stop.isPrefixOf cs) = true ↔
      StopsHere stops cs := by
  simp [StopsHere]

theorem cutBefore_here (h : StopsHere stops (c :: cs)) :
    cutBefore (stops.map String.toList) (c :: cs) = [] := by
  rw [cutBefore, if_pos (any_stop_iff.mpr h)]

theorem cutBefore_later (h : ¬ StopsHere stops (c :: cs)) :
    cutBefore (stops.map String.toList) (c :: cs) =
      c :: cutBefore (stops.map String.toList) cs := by
  rw [cutBefore, if_neg (mt any_stop_iff.mp h)]

theorem mem_stopOffsets {i : Nat} {s : String} :
    i ∈ stopOffsets stops s ↔
      ∃ stop ∈ stops, stop ≠ "" ∧ offset? (utf8 stop.toList) (utf8 s.toList) = some i := by
  simp only [stopOffsets, List.mem_filterMap, List.mem_filter, toBytes_eq, decide_eq_true_eq,
    and_assoc]

theorem cutOffset_here (h : StopsHere stops (c :: cs)) :
    cutOffset stops (String.ofList (c :: cs)) = 0 := by
  obtain ⟨stop, hstop, hne, start⟩ := h
  have found : 0 ∈ stopOffsets stops (String.ofList (c :: cs)) := by
    refine mem_stopOffsets.mpr ⟨stop, hstop, hne, ?_⟩
    rw [String.toList_ofList, offset?_utf8_cons (ne_nil_of_ne_empty hne), if_pos start]
  have least := List.min?_eq_some_iff.mpr ⟨found, fun i _ => Nat.zero_le i⟩
  rw [cutOffset, least, Option.getD_some]

theorem stopOffsets_later (h : ¬ StopsHere stops (c :: cs)) :
    stopOffsets stops (String.ofList (c :: cs)) =
      (stopOffsets stops (String.ofList cs)).map (· + c.utf8Size) := by
  rw [stopOffsets, stopOffsets, List.map_filterMap]
  refine List.filterMap_congr fun stop hstop => ?_
  obtain ⟨hstop, hne⟩ := List.mem_filter.mp hstop
  have hne : stop ≠ "" := by simpa using hne
  have elsewhere : ¬ stop.toList <+: c :: cs := fun start => h ⟨stop, hstop, hne, start⟩
  rw [toBytes_eq, toBytes_eq, toBytes_eq, String.toList_ofList, String.toList_ofList,
    offset?_utf8_cons (ne_nil_of_ne_empty hne), if_neg elsewhere]

theorem min?_map_add (xs : List Nat) (n : Nat) : (xs.map (· + n)).min? = xs.min?.map (· + n) := by
  cases h : xs.min? with
  | none =>
    rw [List.min?_eq_none_iff.mp h]
    rfl
  | some least =>
    obtain ⟨hmem, hle⟩ := List.min?_eq_some_iff.mp h
    refine List.min?_eq_some_iff.mpr ⟨List.mem_map_of_mem hmem, ?_⟩
    rintro _ hmem
    obtain ⟨i, hi, rfl⟩ := List.mem_map.mp hmem
    exact Nat.add_le_add_right (hle i hi) n

theorem cutOffset_later (h : ¬ StopsHere stops (c :: cs)) :
    cutOffset stops (String.ofList (c :: cs)) =
      cutOffset stops (String.ofList cs) + c.utf8Size := by
  have size : (String.ofList (c :: cs)).utf8ByteSize =
      (String.ofList cs).utf8ByteSize + c.utf8Size := by
    rw [String.utf8ByteSize_ofList, String.utf8ByteSize_ofList, String.utf8Len_cons]
  rw [cutOffset, cutOffset, stopOffsets_later h, min?_map_add, size]
  cases (stopOffsets stops (String.ofList cs)).min? <;> rfl

theorem stopOffsets_nil : stopOffsets stops "" = [] := by
  refine List.eq_nil_iff_forall_not_mem.mpr fun i hi => ?_
  obtain ⟨stop, -, hne, found⟩ := mem_stopOffsets.mp hi
  have none := offset?_utf8_nil (ne_nil_of_ne_empty hne)
  rw [String.toList_empty, none] at found
  cases found

theorem cutOffset_eq (stops : List String) (cs : List Char) :
    cutOffset stops (String.ofList cs) =
      (String.ofList (cutBefore (stops.map String.toList) cs)).utf8ByteSize := by
  induction cs with
  | nil =>
    rw [String.ofList_nil, cutOffset, stopOffsets_nil]
    rfl
  | cons c cs ih =>
    by_cases h : StopsHere stops (c :: cs)
    · rw [cutOffset_here h, cutBefore_here h]
      rfl
    · rw [cutOffset_later h, cutBefore_later h, ih, String.utf8ByteSize_ofList,
        String.utf8ByteSize_ofList, String.utf8Len_cons]

/-! ## No stop is left -/

theorem cutBefore_append (stops : List String) (cs : List Char) :
    ∃ rest, cs = cutBefore (stops.map String.toList) cs ++ rest ∧
      (rest = [] ∨ StopsHere stops rest) := by
  induction cs with
  | nil => exact ⟨[], rfl, .inl rfl⟩
  | cons c cs ih =>
    by_cases h : StopsHere stops (c :: cs)
    · exact ⟨c :: cs, by rw [cutBefore_here h]; rfl, .inr h⟩
    · obtain ⟨rest, hrest, hstops⟩ := ih
      refine ⟨rest, ?_, hstops⟩
      rw [cutBefore_later h, List.cons_append, ← hrest]

theorem not_infix_cutBefore {stop : String} (hstop : stop ∈ stops) (hne : stop ≠ "")
    (cs : List Char) : ¬ stop.toList <:+: cutBefore (stops.map String.toList) cs := by
  have absent : ¬ stop.toList <:+: [] := fun inside =>
    ne_nil_of_ne_empty hne (List.infix_nil.mp inside)
  induction cs with
  | nil => exact absent
  | cons c cs ih =>
    by_cases h : StopsHere stops (c :: cs)
    · rw [cutBefore_here h]
      exact absent
    · rw [cutBefore_later h, List.infix_cons_iff, not_or]
      -- A stop within the cut would have ended it sooner.
      refine ⟨fun start => ?_, ih⟩
      obtain ⟨rest, hrest, -⟩ := cutBefore_append stops cs
      have kept : c :: cutBefore (stops.map String.toList) cs <+: c :: cs :=
        ⟨rest, by rw [List.cons_append, ← hrest]⟩
      exact h ⟨stop, hstop, hne, start.trans kept⟩

end

end Text

/-! ## Completions -/

namespace Completion

/-- The body is the output behind its blanks, unless a block opens there: then it begins behind the
line that opens it, and is empty if there is no other. -/
inductive IsBodyOf : List Char → List Char → Prop
  | bare {blanks text : List Char} : (∀ c ∈ blanks, Text.isBlank c = true) →
    Stops Text.isBlank text → ¬ fence.toList <+: text → IsBodyOf (blanks ++ text) text
  | block {blanks info text : List Char} : (∀ c ∈ blanks, Text.isBlank c = true) →
    '\n' ∉ info → IsBodyOf (blanks ++ (fence.toList ++ (info ++ '\n' :: text))) text
  | opening {blanks info : List Char} : (∀ c ∈ blanks, Text.isBlank c = true) →
    '\n' ∉ info → IsBodyOf (blanks ++ (fence.toList ++ info)) []

theorem isBodyOf_body (output : String) : IsBodyOf output.toList (body output) := by
  have blanks : ∀ c ∈ output.toList.takeWhile Text.isBlank, Text.isBlank c = true :=
    fun _ hc => List.mem_takeWhile_imp hc
  rw [body, Text.trimStart, String.toList_ofList]
  split
  · next opened =>
    obtain ⟨behind, hbehind⟩ := List.isPrefixOf_iff_prefix.mp opened
    have line : '\n' ∉ behind.takeWhile (· != '\n') := fun hmem => by
      simpa using List.mem_takeWhile_imp hmem
    have whole : output.toList = output.toList.takeWhile Text.isBlank ++ (fence.toList ++
        (behind.takeWhile (· != '\n') ++ behind.dropWhile (· != '\n'))) := by
      rw [List.takeWhile_append_dropWhile, hbehind, List.takeWhile_append_dropWhile]
    rw [← hbehind, ← String.length_toList, List.drop_left]
    -- The line with the fence may be all there is; else the body stands behind its end.
    cases h : behind.dropWhile (· != '\n') with
    | nil =>
      rw [h, List.append_nil] at whole
      rw [whole]
      exact .opening blanks line
    | cons c text =>
      obtain rfl : c = '\n' := by
        have := List.head?_dropWhile_not (· != '\n') behind
        simpa [h] using this
      rw [h] at whole
      rw [whole]
      exact .block blanks line
  · next opened =>
    have whole := (List.takeWhile_append_dropWhile (p := Text.isBlank) (l := output.toList)).symm
    have visible : Stops Text.isBlank (output.toList.dropWhile Text.isBlank) :=
      Action.stops_dropWhile
    rw [List.isPrefixOf_iff_prefix] at opened
    generalize output.toList.dropWhile Text.isBlank = text at *
    rw [whole]
    exact .bare blanks visible opened

/-- A completion is a start of the body without a stop in it, and where the body goes on, it goes on
with a stop. Its bytes are those of the body before the least offset of a stop, which lies between
two characters. -/
theorem stops_cut (stops : List String) (output : String) :
    ∃ whole rest : String, IsBodyOf output.toList whole.toList ∧
      whole = ofOutput stops output ++ rest ∧
      (∀ stop ∈ stops, stop ≠ "" → ¬ stop.toList <:+: (ofOutput stops output).toList) ∧
      (rest = "" ∨ ∃ stop ∈ stops, stop ≠ "" ∧ stop.toList <+: rest.toList) ∧
      (String.Pos.Raw.mk (Text.cutOffset stops whole)).IsValid whole ∧
      Text.toBytes (ofOutput stops output) =
        (Text.toBytes whole).take (Text.cutOffset stops whole) := by
  obtain ⟨rest, hrest, hstops⟩ := Text.cutBefore_append stops (body output)
  have whole : String.ofList (body output) = ofOutput stops output ++ String.ofList rest := by
    rw [ofOutput, ← String.ofList_append, ← hrest]
  have cut : Text.cutOffset stops (String.ofList (body output)) =
      (ofOutput stops output).utf8ByteSize := Text.cutOffset_eq stops (body output)
  refine ⟨String.ofList (body output), String.ofList rest, ?_, whole, ?_, ?_, ?_, ?_⟩
  · rw [String.toList_ofList]
    exact isBodyOf_body output
  · intro stop hstop hne
    rw [ofOutput, String.toList_ofList]
    exact Text.not_infix_cutBefore hstop hne _
  · rw [String.toList_ofList, String.ofList_eq_empty_iff]
    exact hstops
  · rw [String.Pos.Raw.isValid_iff_exists_append]
    exact ⟨_, _, whole, by rw [cut]; rfl⟩
  · rw [cut, whole, Text.toBytes_eq, Text.toBytes_eq, String.toList_append, Text.utf8_append,
      ← Text.length_utf8, List.take_left]

end Completion

end BrowserAgent
