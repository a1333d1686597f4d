import BrowserAgent.Proofs.ScriptBlocks

/-!
# The layout of a script

Without its comments a script is a row of parts: lines by themselves, and function sections from the
line that starts one to the line that ends it. A script can be parted in one way at most. Taking the
sections out finds that way, and of it the lines and the functions.
-/

namespace BrowserAgent

/-! ## Words of a line -/

namespace Text

variable {p : Char → Bool} {cs : List Char}

theorem dropEndWhile_append_blanks (p : Char → Bool) (cs : List Char) :
    ∃ blanks, dropEndWhile p cs ++ blanks = cs ∧ ∀ c ∈ blanks, p c = true := by
  refine ⟨(cs.reverse.takeWhile p).reverse, ?_, fun c hc => ?_⟩
  · rw [dropEndWhile, ← List.reverse_append, List.takeWhile_append_dropWhile, List.reverse_reverse]
  · exact Action.forall_mem_takeWhile c (List.mem_reverse.mp hc)

theorem wordsFrom_append_blanks {blanks : List Char} (h : ∀ c ∈ blanks, isBlank c = true) :
    wordsFrom (cs ++ blanks) = wordsFrom cs := by
  induction cs with
  | nil =>
    induction blanks with
    | nil => rfl
    | cons c blanks ih =>
      obtain ⟨hc, hblanks⟩ := List.forall_mem_cons.mp h
      have rest : wordsFrom blanks = ([], []) := ih hblanks
      simp [wordsFrom, rest, hc]
  | cons c cs ih => rw [List.cons_append, wordsFrom, wordsFrom, ih]

theorem words_trimEnd (line : String) : words (trimEnd line) = words line := by
  obtain ⟨blanks, happend, hblanks⟩ := dropEndWhile_append_blanks isBlank line.toList
  rw [words, words, trimEnd, String.toList_ofList, ← wordsFrom_append_blanks hblanks, happend]

theorem words_of_isBlankText {line : String} (h : isBlankText line = true) : words line = [] := by
  rw [isBlankText, List.all_eq_true] at h
  have none : wordsFrom ([] ++ line.toList) = wordsFrom [] := wordsFrom_append_blanks h
  rw [List.nil_append] at none
  rw [words, none]
  rfl

end Text

theorem Marker.ofLine?_trimEnd (line : String) :
    Marker.ofLine? (Text.trimEnd line) = Marker.ofLine? line := by
  rw [ofLine?, Text.words_trimEnd, ofLine?]

namespace SourceLine

/-- The marker is the first word of the line. -/
def Is (l : SourceLine) (m : Marker) : Prop := Marker.ofLine? l.text = some m

instance (l : SourceLine) (m : Marker) : Decidable (l.Is m) :=
  inferInstanceAs (Decidable (Marker.ofLine? l.text = some m))

theorem Is.unique {l : SourceLine} {m m' : Marker} (h : l.Is m) (h' : l.Is m') : m = m' :=
  Option.some.inj (h.symm.trans h')

def IsInner (l : SourceLine) : Prop := ¬ l.Is .beginFunction ∧ ¬ l.Is .endFunction

theorem Is.isInner {l : SourceLine} {m : Marker} (h : l.Is m) (hb : m ≠ .beginFunction)
    (he : m ≠ .endFunction) : l.IsInner :=
  ⟨fun h' => hb (h.unique h'), fun h' => he (h.unique h')⟩

def name? (l : SourceLine) : Option String := (Text.words l.text).tail.getLast?

end SourceLine

namespace Script

theorem functionName_eq_ok_iff {marker : Marker} {l : SourceLine} {name : String} :
    functionName marker l = .ok name ↔ l.name? = some name := by
  rw [functionName, SourceLine.name?]
  cases (Text.words l.text).tail.getLast? <;> simp

def codeLines (lines : List SourceLine) : List SourceLine :=
  lines.filter fun l => !isComment l.text

theorem codeLines_comment {l : SourceLine} (h : isComment l.text = true) (more : List SourceLine) :
    codeLines (l :: more) = codeLines more :=
  List.filter_cons_of_neg (by simp [h])

theorem codeLines_code {l : SourceLine} (h : ¬ isComment l.text = true) (more : List SourceLine) :
    codeLines (l :: more) = l :: codeLines more :=
  List.filter_cons_of_pos (by simp [h])

def Unbroken (lines : List SourceLine) : Prop := ∀ l ∈ lines, '\n' ∉ l.text.toList

def codeOf (raw : String) : List SourceLine := codeLines (numbered 1 (Text.lines raw))

/-! ## Parts -/

inductive Part where
  | line (l : SourceLine)
  /-- A section, with the name on its first line. -/
  | function (name : String) (start : SourceLine) (body : List SourceLine) (stop : SourceLine)

namespace Part

def lines : Part → List SourceLine
  | line l => [l]
  | function _ start body stop => start :: body ++ [stop]

/-- The line is one by itself, or the section one from its start to its end. -/
def IsWhole : Part → Prop
  | line l => l.IsInner
  | function name start body stop =>
    start.Is .beginFunction ∧ start.name? = some name ∧ (∀ l ∈ body, l.IsInner) ∧
      stop.Is .endFunction

def outside? : Part → Option SourceLine
  | line l => some l
  | function .. => none

def function? : Part → Option (String × List SourceLine)
  | line _ => none
  | function name _ body _ => some (name, body)

end Part

def bodyText (body : List SourceLine) : String := Text.unlines (body.map fun l => Text.trimEnd l.text)

/-- The lines are those of the parts, one after the other. -/
structure Laid (lines : List SourceLine) (parts : List Part) : Prop where
  lines_eq : lines = parts.flatMap Part.lines
  whole : ∀ p ∈ parts, p.IsWhole

def outsideOf (parts : List Part) : List SourceLine := parts.filterMap Part.outside?

def functionsOf (parts : List Part) : List (String × List SourceLine) :=
  parts.filterMap Part.function?

def definedIn (parts : List Part) : List (String × String) :=
  (functionsOf parts).map fun f => (f.1, bodyText f.2)

theorem mem_lines_of_outside {l : SourceLine} {parts : List Part} (h : l ∈ outsideOf parts) :
    l ∈ parts.flatMap Part.lines := by
  obtain ⟨part, hpart, hl⟩ := List.mem_filterMap.mp h
  refine List.mem_flatMap.mpr ⟨part, hpart, ?_⟩
  cases part with
  | line l' => exact List.mem_singleton.mpr (Option.some.inj hl).symm
  | function => cases hl

theorem mem_lines_of_function {l : SourceLine} {f : String × List SourceLine} {parts : List Part}
    (hf : f ∈ functionsOf parts) (h : l ∈ f.2) : l ∈ parts.flatMap Part.lines := by
  obtain ⟨part, hpart, heq⟩ := List.mem_filterMap.mp hf
  refine List.mem_flatMap.mpr ⟨part, hpart, ?_⟩
  cases part with
  | line => cases heq
  | function name start body stop =>
    cases heq
    simp [Part.lines, h]

namespace Laid

variable {lines rest body : List SourceLine} {parts parts' : List Part} {l start stop : SourceLine}
  {name : String}

theorem nil : Laid [] [] := ⟨rfl, by simp⟩

theorem append (h : Laid lines parts) (h' : Laid rest parts') :
    Laid (lines ++ rest) (parts ++ parts') :=
  ⟨by rw [h.lines_eq, h'.lines_eq, List.flatMap_append],
    List.forall_mem_append.mpr ⟨h.whole, h'.whole⟩⟩

theorem line (hl : l.IsInner) (h : Laid rest parts) : Laid (l :: rest) (.line l :: parts) :=
  ⟨by rw [h.lines_eq]; rfl, List.forall_mem_cons.mpr ⟨hl, h.whole⟩⟩

theorem function (hs : start.Is .beginFunction) (hname : start.name? = some name)
    (hb : ∀ l ∈ body, l.IsInner) (he : stop.Is .endFunction) (h : Laid rest parts) :
    Laid (start :: (body ++ stop :: rest)) (.function name start body stop :: parts) :=
  ⟨by rw [h.lines_eq]; simp [Part.lines], List.forall_mem_cons.mpr ⟨⟨hs, hname, hb, he⟩, h.whole⟩⟩

theorem isInner_of_outside (h : Laid lines parts) (hl : l ∈ outsideOf parts) : l.IsInner := by
  obtain ⟨part, hpart, heq⟩ := List.mem_filterMap.mp hl
  cases part with
  | line => exact Option.some.inj heq ▸ h.whole _ hpart
  | function => cases heq

theorem isInner_of_function (h : Laid lines parts) {f : String × List SourceLine}
    (hf : f ∈ functionsOf parts) (hl : l ∈ f.2) : l.IsInner := by
  obtain ⟨part, hpart, heq⟩ := List.mem_filterMap.mp hf
  cases part with
  | line => cases heq
  | function =>
    cases heq
    exact (h.whole _ hpart).2.2.1 l hl

section

variable {raw : String}

theorem unbroken (h : Laid (codeOf raw) parts) : Unbroken (parts.flatMap Part.lines) := by
  rw [← h.lines_eq]
  exact fun l hl => Text.notMem_of_mem_lines (mem_numbered (List.mem_filter.mp hl).1)

theorem unbroken_outside (h : Laid (codeOf raw) parts) : Unbroken (outsideOf parts) :=
  fun l hl => h.unbroken l (mem_lines_of_outside hl)

theorem unbroken_functions (h : Laid (codeOf raw) parts) :
    ∀ f ∈ functionsOf parts, Unbroken f.2 :=
  fun _ hf l hl => h.unbroken l (mem_lines_of_function hf hl)

end

end Laid

theorem first_cut_unique {α : Type} {P : α → Prop} {xs ys rest rest' : List α} {a b : α}
    (hx : ∀ x ∈ xs, ¬ P x) (hy : ∀ y ∈ ys, ¬ P y) (ha : P a) (hb : P b)
    (h : xs ++ a :: rest = ys ++ b :: rest') : xs = ys ∧ a = b ∧ rest = rest' := by
  induction xs generalizing ys with
  | nil =>
    cases ys with
    | nil => exact ⟨rfl, List.cons.inj h⟩
    | cons y ys =>
      obtain ⟨rfl, -⟩ := List.cons.inj h
      exact absurd ha (hy a List.mem_cons_self)
  | cons x xs ih =>
    cases ys with
    | nil =>
      obtain ⟨rfl, -⟩ := List.cons.inj h
      exact absurd hb (hx x List.mem_cons_self)
    | cons y ys =>
      obtain ⟨rfl, later⟩ := List.cons.inj h
      obtain ⟨rfl, cut⟩ := ih (fun z hz => hx z (List.mem_cons_of_mem _ hz))
        (fun z hz => hy z (List.mem_cons_of_mem _ hz)) later
      exact ⟨rfl, cut⟩

theorem Laid.unique {lines : List SourceLine} {parts parts' : List Part} (h : Laid lines parts)
    (h' : Laid lines parts') : parts = parts' := by
  obtain ⟨rfl, whole⟩ := h
  obtain ⟨same, whole'⟩ := h'
  -- Both layouts begin with the same line, and its marker says which of the two parts it begins.
  induction parts generalizing parts' with
  | nil =>
    cases parts' with
    | nil => rfl
    | cons p' parts' => cases p' <;> cases same
  | cons p parts ih =>
    obtain ⟨hp, hparts⟩ := List.forall_mem_cons.mp whole
    cases parts' with
    | nil => cases p <;> cases same
    | cons p' parts' =>
      obtain ⟨hp', hparts'⟩ := List.forall_mem_cons.mp whole'
      cases p with
      | line l =>
        cases p' with
        | line l' =>
          obtain ⟨rfl, later⟩ := List.cons.inj same
          rw [ih hparts later hparts']
        | function name' start' body' stop' =>
          obtain ⟨rfl, -⟩ := List.cons.inj same
          exact absurd hp'.1 hp.1
      | function name start body stop =>
        obtain ⟨hs, hname, hb, he⟩ := hp
        cases p' with
        | line l' =>
          obtain ⟨rfl, -⟩ := List.cons.inj same
          exact absurd hs hp'.1
        | function name' start' body' stop' =>
          obtain ⟨hs', hname', hb', he'⟩ := hp'
          simp only [List.flatMap_cons, Part.lines, List.cons_append, List.append_assoc,
            List.nil_append, List.cons.injEq] at same
          obtain ⟨rfl, same⟩ := same
          obtain ⟨rfl, rfl, later⟩ := first_cut_unique (P := (·.Is .endFunction))
            (fun l hl => (hb l hl).2) (fun l hl => (hb' l hl).2) he he' same
          obtain rfl := Option.some.inj (hname.symm.trans hname')
          rw [ih hparts later hparts']

/-! ## Taking the sections out -/

/-- What is left of the script is laid out after the end of the section that is open. -/
def Completes (outside : List SourceLine) (defined : List (String × String)) :
    Option OpenSection → List SourceLine → Prop
  | none, lines => ∃ parts, Laid lines parts ∧ outside = outsideOf parts ∧ defined = definedIn parts
  | some sec, lines => ∃ body stop rest parts, lines = body ++ stop :: rest ∧
    (∀ l ∈ body, l.IsInner) ∧ stop.Is .endFunction ∧ Laid rest parts ∧ outside = outsideOf parts ∧
    defined = (sec.name, Text.unlines (sec.body.reverse ++ body.map fun l => Text.trimEnd l.text)) ::
      definedIn parts

theorem completes_of_extract {sec : Option OpenSection} {lines outside : List SourceLine}
    {defined : List (String × String)} (h : extract sec lines = .ok (outside, defined)) :
    Completes outside defined sec (codeLines lines) := by
  fun_induction extract sec lines generalizing outside defined with
  | case1 =>
    cases h
    exact ⟨[], .nil, rfl, rfl⟩
  | case2 | case5 | case9 => cases h
  | case3 l more hc ih | case7 sec l more hc ih =>
    rw [codeLines_comment hc]
    exact ih h
  | case4 l more hc hm ih =>
    obtain ⟨name, hname, h⟩ := bind_eq_ok_iff.mp h
    obtain ⟨body, stop, rest, parts, heq, hb, he, laid, rfl, rfl⟩ := ih name h
    rw [codeLines_code hc, heq]
    exact ⟨_, .function hm (functionName_eq_ok_iff.mp hname) hb he laid, rfl, rfl⟩
  | case6 l more hc hstart hend ih =>
    obtain ⟨found, hfound, h⟩ := bind_eq_ok_iff.mp h
    obtain ⟨parts, laid, houtside, hdefined⟩ := ih hfound
    cases h
    rw [codeLines_code hc]
    exact ⟨_, .line ⟨hstart, hend⟩ laid, by rw [houtside]; rfl, hdefined⟩
  | case8 sec l more hc hm ih =>
    obtain ⟨found, hfound, h⟩ := bind_eq_ok_iff.mp h
    obtain ⟨parts, laid, houtside, hdefined⟩ := ih hfound
    cases h
    rw [codeLines_code hc]
    exact ⟨[], l, _, parts, rfl, by simp, hm, laid, houtside, by rw [hdefined]; simp⟩
  | case10 sec l more hc hend hstart ih =>
    obtain ⟨body, stop, rest, parts, heq, hb, he, laid, houtside, hdefined⟩ := ih h
    rw [codeLines_code hc, heq]
    exact ⟨l :: body, stop, rest, parts, rfl, List.forall_mem_cons.mpr ⟨⟨hstart, hend⟩, hb⟩, he,
      laid, houtside, by rw [hdefined]; simp⟩

theorem laid_of_parse {raw : String} {script : Script} (h : parse raw = .ok script) :
    ∃ parts expanded, Laid (codeOf raw) parts ∧
      inject (tableOf (definedIn parts)) (outsideOf parts) = .ok expanded ∧
      collate (tableOf (definedIn parts)) [] expanded = .ok script.queue := by
  obtain ⟨outside, defined, expanded, hextract, hinject, hcollate⟩ := stages_of_parse h
  obtain ⟨parts, laid, rfl, rfl⟩ := completes_of_extract hextract
  exact ⟨parts, expanded, laid, hinject, hcollate⟩

end Script

end BrowserAgent
