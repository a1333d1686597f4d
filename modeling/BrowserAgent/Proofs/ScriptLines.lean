import BrowserAgent.Proofs.ScriptLayout
import Mathlib.Data.List.SplitBy

/-!
# The lines of a script and its blocks

The blocks of a script hold the lines outside of its functions, with the lines of the bodies that are
injected and run in place of the marker lines, in order and each once. Blocks end where a body that
is run begins or ends, and where a line that runs a function stood, also if its body is empty.
-/

namespace BrowserAgent

/-! ## Lines without the blanks at their end -/

namespace Text

theorem trimEnd_trimEnd (line : String) : trimEnd (trimEnd line) = trimEnd line := by
  rw [trimEnd, trimEnd, String.toList_ofList, dropEndWhile_of_last getLast?_dropEndWhile]

theorem isBlankText_trimEnd_eq (line : String) :
    isBlankText (trimEnd line) = isBlankText line := by
  cases h : isBlankText line with
  | false => exact isBlankText_trimEnd h
  | true =>
    rw [isBlankText, List.all_eq_true] at h ⊢
    exact fun c hc => h c (trimEnd_subset hc)

end Text

namespace SourceLine

/-- The lines differ in the blanks at their end only. -/
def Same (l l' : SourceLine) : Prop := Text.trimEnd l.text = Text.trimEnd l'.text

def isBlank (l : SourceLine) : Bool := Text.isBlankText l.text

theorem Is.not_isBlank {l : SourceLine} {m : Marker} (h : l.Is m) : l.isBlank = false := by
  rw [← Bool.not_eq_true]
  intro blank
  rw [Is, Marker.ofLine?, Text.words_of_isBlankText blank] at h
  cases h

/-- The line as it is put in for another, whose number it gets. -/
def putFor (l other : SourceLine) : SourceLine := ⟨other.number, Text.trimEnd l.text⟩

theorem putFor_same (l other : SourceLine) : (l.putFor other).Same l := Text.trimEnd_trimEnd l.text

namespace Same

variable {l l' : SourceLine}

theorem is_iff (h : l.Same l') (m : Marker) : l.Is m ↔ l'.Is m := by
  rw [Is, Is, ← Marker.ofLine?_trimEnd, h, Marker.ofLine?_trimEnd]

theorem name?_eq (h : l.Same l') : l.name? = l'.name? := by
  rw [name?, name?, ← Text.words_trimEnd, h, Text.words_trimEnd]

theorem isBlank_eq (h : l.Same l') : l.isBlank = l'.isBlank := by
  rw [isBlank, isBlank, ← Text.isBlankText_trimEnd_eq, h, Text.isBlankText_trimEnd_eq]

end Same

end SourceLine

namespace Script

/-! ## What a script says -/

/-- The body of the last function with the name on the line, without its blank lines. -/
def calledBody (parts : List Part) (l : SourceLine) : List SourceLine :=
  ((l.name?.bind fun name => (functionsOf parts).reverse.lookup name).getD []).filter (!·.isBlank)

/-- Each line with the marker replaced by the body that it calls. -/
def replaced (m : Marker) (parts : List Part) (lines : List SourceLine) : List SourceLine :=
  lines.flatMap fun l => if l.Is m then calledBody parts l else [l]

/-- The lines that a script is to hand on. -/
def linesOf (parts : List Part) : List SourceLine :=
  (replaced .runFunction parts (replaced .injectFunction parts (outsideOf parts))).filter
    (!·.isBlank)

/-- A line and where it stands among the lines that run functions. -/
structure PlacedLine where
  line : SourceLine
  /-- How many such lines stand before it, or before the one that runs it. -/
  runsBefore : Nat
  /-- The number of the one whose body it is of. -/
  expansion : Option Nat

namespace PlacedLine

def content (p : PlacedLine) : String := Text.trimEnd p.line.text

/-- One of the lines is of a body that the other is not of, or a function was run between them. -/
def Apart (p q : PlacedLine) : Prop :=
  (∃ n, p.expansion = some n ∧ q.expansion ≠ some n) ∨
    (∃ n, q.expansion = some n ∧ p.expansion ≠ some n) ∨ p.runsBefore ≠ q.runsBefore

def together (p q : PlacedLine) : Bool :=
  p.expansion == q.expansion && p.runsBefore == q.runsBefore

theorem together_iff {p q : PlacedLine} : p.together q = true ↔ ¬ p.Apart q := by
  rw [together, Bool.and_eq_true, beq_iff_eq, beq_iff_eq, Apart]
  rcases p with ⟨_, n, _ | e⟩ <;> rcases q with ⟨_, m, _ | d⟩ <;> simp
  exact fun h _ => h.symm

theorem together_eq_false_iff {p q : PlacedLine} : p.together q = false ↔ p.Apart q := by
  rw [← Bool.not_eq_true, together_iff, not_not]

end PlacedLine

/-- The lines with the bodies that are run, where so many functions were run before. -/
def place (parts : List Part) : Nat → List SourceLine → List PlacedLine
  | _, [] => []
  | runs, l :: more =>
    if l.Is .runFunction then
      (calledBody parts l).map (⟨·, runs, some runs⟩) ++ place parts (runs + 1) more
    else ⟨l, runs, none⟩ :: place parts runs more

def placedLines (parts : List Part) : List PlacedLine :=
  (place parts 0 (replaced .injectFunction parts (outsideOf parts))).filter (!·.line.isBlank)

theorem map_line_place (parts : List Part) (runs : Nat) (lines : List SourceLine) :
    (place parts runs lines).map (·.line) = replaced .runFunction parts lines := by
  fun_induction place parts runs lines with
  | case1 => rfl
  | case2 runs l more hm ih =>
    rw [List.map_append, ih, replaced, replaced, List.flatMap_cons, if_pos hm, List.map_map]
    exact congrArg (· ++ _) (List.map_id _)
  | case3 runs l more hm ih =>
    rw [List.map_cons, ih, replaced, replaced, List.flatMap_cons, if_neg hm, List.singleton_append]

theorem map_line_placedLines (parts : List Part) :
    (placedLines parts).map (·.line) = linesOf parts := by
  rw [placedLines, linesOf, ← map_line_place parts 0, List.filter_map]
  rfl

/-! ## Bodies -/

section

variable {lines outside expanded : List SourceLine} {parts : List Part} {l l' : SourceLine}
  {marker : Marker} {text : String}

theorem bodyLines_bodyText {body : List SourceLine} (hn : Unbroken body) :
    bodyLines (bodyText body) =
      (body.filter (!·.isBlank)).map fun l => Text.trimEnd l.text := by
  have pieces : ((Text.pieces (bodyText body)).map Text.trimEnd).filter (!Text.isBlankText ·) =
      (body.map fun l => Text.trimEnd l.text).filter (!Text.isBlankText ·) := by
    cases body with
    | nil => decide
    | cons l body =>
      have clean : ∀ line ∈ (l :: body).map fun l => Text.trimEnd l.text, '\n' ∉ line.toList := by
        intro line hline
        obtain ⟨l, hl, rfl⟩ := List.mem_map.mp hline
        exact fun hc => hn l hl (Text.trimEnd_subset hc)
      rw [bodyText, Text.pieces_unlines (by simp) clean, List.map_map]
      simp only [Function.comp_def, Text.trimEnd_trimEnd]
  rw [bodyLines, pieces, List.filter_map]
  simp only [Function.comp_def, Text.isBlankText_trimEnd_eq]
  rfl

theorem lookup_definedIn (parts : List Part) (name : String) :
    (tableOf (definedIn parts)).find? name =
      ((functionsOf parts).reverse.lookup name).map bodyText := by
  rw [tableOf, Table.find?_foldl_insert, Table.find?, List.lookup_nil, Option.or_none, definedIn,
    ← List.map_reverse]
  generalize (functionsOf parts).reverse = functions
  induction functions with
  | nil => rfl
  | cons f functions ih =>
    rw [List.map_cons, List.lookup_cons, List.lookup_cons, ih]
    cases name == f.1 <;> rfl

theorem mem_functions_of_lookup {name : String} {body : List SourceLine}
    (h : (functionsOf parts).reverse.lookup name = some body) :
    (name, body) ∈ functionsOf parts := by
  obtain ⟨before, after, hlist, -⟩ := List.lookup_eq_some_iff.mp h
  rw [← List.mem_reverse, hlist]
  exact List.mem_append_right _ List.mem_cons_self

theorem lookUp_eq_ok_iff {functions : FunctionTable} :
    lookUp functions marker l = .ok text ↔
      ∃ name, l.name? = some name ∧ functions.find? name = some text := by
  rw [lookUp, bind_eq_ok_iff]
  refine exists_congr fun name => and_congr functionName_eq_ok_iff ?_
  cases functions.find? name <;> simp [pure, Except.pure, throw, throwThe, MonadExceptOf.throw]

theorem lookUp_eq_error_iff {functions : FunctionTable} {e : ScriptError} :
    lookUp functions marker l = .error e ↔
      (l.name? = none ∧ e = .missingFunctionName l.number marker) ∨
        ∃ name, l.name? = some name ∧ functions.find? name = none ∧
          e = .unknownFunction l.number name := by
  rw [lookUp, functionName, SourceLine.name?]
  cases (Text.words l.text).tail.getLast? with
  | none => simp [bind, Except.bind, eq_comm]
  | some name =>
    cases hfind : functions.find? name <;>
      simp [bind, Except.bind, pure, Except.pure, throw, throwThe, MonadExceptOf.throw, hfind,
        eq_comm]

theorem bodyLines_lookUp (hn : ∀ f ∈ functionsOf parts, Unbroken f.2)
    (h : lookUp (tableOf (definedIn parts)) marker l = .ok text) :
    bodyLines text = (calledBody parts l).map fun l => Text.trimEnd l.text := by
  obtain ⟨name, hname, hfind⟩ := lookUp_eq_ok_iff.mp h
  rw [lookup_definedIn, Option.map_eq_some_iff] at hfind
  obtain ⟨body, hbody, rfl⟩ := hfind
  rw [bodyLines_bodyText (hn _ (mem_functions_of_lookup hbody)), calledBody, hname,
    Option.bind_some, hbody, Option.getD_some]

theorem not_isBlank_of_mem_calledBody (h : l' ∈ calledBody parts l) : (!l'.isBlank) = true :=
  (List.mem_filter.mp h).2

theorem unbroken_calledBody (hn : ∀ f ∈ functionsOf parts, Unbroken f.2) (l : SourceLine) :
    Unbroken (calledBody parts l) := by
  intro l' h
  have mem := List.mem_of_mem_filter h
  cases hbody : l.name?.bind fun name => (functionsOf parts).reverse.lookup name with
  | none =>
    rw [hbody] at mem
    cases mem
  | some body =>
    rw [hbody] at mem
    obtain ⟨name, -, hlookup⟩ := Option.bind_eq_some_iff.mp hbody
    exact hn _ (mem_functions_of_lookup hlookup) l' mem

theorem calledBody_congr (h : l.Same l') : calledBody parts l = calledBody parts l' := by
  rw [calledBody, h.name?_eq, calledBody]

/-! ## Injections -/

def injectedBody (parts : List Part) (l : SourceLine) : List SourceLine :=
  (calledBody parts l).map (·.putFor l)

theorem inject_eq (hn : ∀ f ∈ functionsOf parts, Unbroken f.2)
    (h : inject (tableOf (definedIn parts)) lines = .ok expanded) :
    expanded = lines.flatMap fun l =>
      if l.Is .injectFunction then injectedBody parts l else [l] := by
  fun_induction inject (tableOf (definedIn parts)) lines generalizing expanded with
  | case1 =>
    cases h
    rfl
  | case2 l more hm ih =>
    obtain ⟨text, htext, h⟩ := bind_eq_ok_iff.mp h
    obtain ⟨rest, hrest, h⟩ := bind_eq_ok_iff.mp h
    cases h
    have inject : l.Is .injectFunction := hm
    rw [List.flatMap_cons, if_pos inject, injectedBody, bodyLines_lookUp hn htext, List.map_map,
      ih hrest]
    rfl
  | case3 l more hm ih =>
    obtain ⟨rest, hrest, h⟩ := bind_eq_ok_iff.mp h
    cases h
    have inject : ¬ l.Is .injectFunction := hm
    rw [List.flatMap_cons, if_neg inject, ih hrest]
    rfl

theorem inject_same (hn : ∀ f ∈ functionsOf parts, Unbroken f.2)
    (h : inject (tableOf (definedIn parts)) lines = .ok expanded) :
    List.Forall₂ SourceLine.Same expanded (replaced .injectFunction parts lines) := by
  rw [inject_eq hn h, replaced]
  refine List.rel_flatMap (R := Eq) (List.forall₂_same.mpr fun _ _ => rfl) ?_
  rintro l _ rfl
  beta_reduce
  split
  · rw [injectedBody, List.forall₂_map_left_iff, List.forall₂_same]
    exact fun l' _ => l'.putFor_same l
  · exact .cons rfl .nil

/-! ## Blocks -/

variable {opened ps qs : List PlacedLine} {lines' : List SourceLine} {block : List String}
  {queue : List Instruction} {runs : Nat}

theorem le_runsBefore_of_mem_place {p : PlacedLine} (h : p ∈ place parts runs lines) :
    runs ≤ p.runsBefore := by
  fun_induction place parts runs lines with
  | case1 => cases h
  | case2 runs l more _ ih =>
    rcases List.mem_append.mp h with h | h
    · obtain ⟨_, _, rfl⟩ := List.mem_map.mp h
      exact Nat.le_refl _
    · exact Nat.le_of_succ_le (ih h)
  | case3 runs l more _ ih =>
    rcases List.mem_cons.mp h with rfl | h
    · exact Nat.le_refl _
    · exact ih h

theorem splitBy_append_of_apart (h : ∀ p ∈ ps, ∀ q ∈ qs, p.Apart q) :
    (ps ++ qs).splitBy PlacedLine.together =
      ps.splitBy PlacedLine.together ++ qs.splitBy PlacedLine.together :=
  List.splitBy_append fun p hp q hq => PlacedLine.together_eq_false_iff.mpr
    (h p (List.mem_of_getLast? hp) q (List.mem_of_head? hq))

/-- Lines of one place, as a block holds them. -/
structure OfPlace (ps : List PlacedLine) (runs : Nat) (expansion : Option Nat) : Prop where
  placed : ∀ p ∈ ps, p.runsBefore = runs ∧ p.expansion = expansion
  unbroken : Unbroken (ps.map (·.line))

namespace OfPlace

variable {expansion : Option Nat}

theorem nil : OfPlace [] runs expansion := ⟨by simp, by simp [Unbroken]⟩

theorem concat (h : OfPlace ps runs none) (hl : '\n' ∉ l.text.toList) :
    OfPlace (ps ++ [⟨l, runs, none⟩]) runs none where
  placed := List.forall_mem_append.mpr ⟨h.placed, List.forall_mem_singleton.mpr ⟨rfl, rfl⟩⟩
  unbroken := by
    rw [List.map_append]
    exact List.forall_mem_append.mpr ⟨h.unbroken, List.forall_mem_singleton.mpr hl⟩

theorem body (hn : ∀ f ∈ functionsOf parts, Unbroken f.2) (l : SourceLine) (runs : Nat) :
    OfPlace ((calledBody parts l).map (⟨·, runs, some runs⟩)) runs (some runs) where
  placed := List.forall_mem_map.mpr fun _ _ => ⟨rfl, rfl⟩
  unbroken := by
    rw [List.map_map]
    exact (List.map_id _).symm ▸ unbroken_calledBody hn l

theorem lines_blockOf (h : OfPlace ps runs expansion) :
    (blockOf (ps.map PlacedLine.content)).map Instruction.lines =
      (ps.splitBy PlacedLine.together).map (List.map PlacedLine.content) := by
  cases ps with
  | nil => rfl
  | cons p ps =>
    have chain : (p :: ps).IsChain fun p q => p.together q = true := by
      refine (List.pairwise_of_forall_mem_list fun q hq r hr => ?_).isChain
      rw [PlacedLine.together, (h.placed q hq).1, (h.placed q hq).2, (h.placed r hr).1,
        (h.placed r hr).2, beq_self_eq_true, beq_self_eq_true, Bool.and_self]
    have clean : ∀ line ∈ (p :: ps).map PlacedLine.content, '\n' ∉ line.toList := by
      intro line hline
      obtain ⟨q, hq, rfl⟩ := List.mem_map.mp hline
      exact fun hc => h.unbroken q.line (List.mem_map_of_mem hq) (Text.trimEnd_subset hc)
    rw [List.splitBy_of_isChain (List.cons_ne_nil _ _) chain]
    exact congrArg (fun ls => [ls]) (Text.pieces_unlines (by simp) clean)

/-- A line that runs a function ends the block before it and the block of the function. -/
theorem splitBy_at_run {body : List PlacedLine} (ho : OfPlace opened runs none)
    (hb : OfPlace body runs (some runs)) (hq : ∀ p ∈ qs, runs < p.runsBefore) :
    (opened ++ (body ++ qs)).splitBy PlacedLine.together =
      opened.splitBy PlacedLine.together ++
        (body.splitBy PlacedLine.together ++ qs.splitBy PlacedLine.together) := by
  have before : ∀ p ∈ opened, ∀ q ∈ body ++ qs, p.Apart q := by
    intro p hp q hmem
    obtain ⟨hruns, hexpansion⟩ := ho.placed p hp
    rcases List.mem_append.mp hmem with hmem | hmem
    · exact .inr (.inl ⟨runs, (hb.placed q hmem).2, by simp [hexpansion]⟩)
    · exact .inr (.inr (hruns.trans_ne (hq q hmem).ne))
  have after : ∀ p ∈ body, ∀ q ∈ qs, p.Apart q :=
    fun p hp q hmem => .inr (.inr ((hb.placed p hp).1.trans_ne (hq q hmem).ne))
  rw [splitBy_append_of_apart before, splitBy_append_of_apart after]

end OfPlace

theorem collate_blocks (hn : ∀ f ∈ functionsOf parts, Unbroken f.2)
    (h : collate (tableOf (definedIn parts)) block lines = .ok queue)
    (same : List.Forall₂ SourceLine.Same lines lines') (hl : Unbroken lines')
    (ho : OfPlace opened runs none) (hblock : block.reverse = opened.map PlacedLine.content) :
    queue.map Instruction.lines =
      ((opened ++ (place parts runs lines').filter (!·.line.isBlank)).splitBy
        PlacedLine.together).map (List.map PlacedLine.content) := by
  -- The open block holds, last line first, the lines placed since the last run.
  fun_induction collate (tableOf (definedIn parts)) block lines generalizing
    queue lines' opened runs with
  | case1 block =>
    cases h
    cases same
    rw [hblock, place, List.filter_nil, List.append_nil, ho.lines_blockOf]
  | case2 block l more hm ih =>
    obtain ⟨text, htext, h⟩ := bind_eq_ok_iff.mp h
    obtain ⟨rest, hrest, h⟩ := bind_eq_ok_iff.mp h
    cases h
    obtain ⟨l', more', hsame, hmore, rfl⟩ := List.forall₂_cons_left_iff.mp same
    obtain ⟨-, later⟩ := List.forall_mem_cons.mp hl
    have run : l'.Is .runFunction := (hsame.is_iff _).mp hm
    let body : List PlacedLine := (calledBody parts l').map (⟨·, runs, some runs⟩)
    have placed : OfPlace body runs (some runs) := .body hn l' runs
    have hbody : blockOf (bodyLines text) = blockOf (body.map PlacedLine.content) := by
      rw [bodyLines_lookUp hn htext, calledBody_congr hsame, List.map_map]
      rfl
    have solid : body.filter (!·.line.isBlank) = body :=
      List.filter_eq_self.mpr (List.forall_mem_map.mpr fun _ => not_isBlank_of_mem_calledBody)
    have after : ∀ p ∈ (place parts (runs + 1) more').filter (!·.line.isBlank),
        runs < p.runsBefore := fun p hp => le_runsBefore_of_mem_place (List.mem_of_mem_filter hp)
    -- The block that is open after the run is a new one.
    have anew : OfPlace [] (runs + 1) none := .nil
    have blocks := ih hrest hmore later anew rfl
    rw [place, if_pos run, List.filter_append, solid, ho.splitBy_at_run placed after, hblock, hbody,
      List.map_append, List.map_append, ho.lines_blockOf, placed.lines_blockOf, blocks,
      List.map_append, List.map_append, List.append_assoc]
    rfl
  | case3 block l more hm hblank ih =>
    obtain ⟨l', more', hsame, hmore, rfl⟩ := List.forall₂_cons_left_iff.mp same
    obtain ⟨-, later⟩ := List.forall_mem_cons.mp hl
    have run : ¬ l'.Is .runFunction := fun h => hm ((hsame.is_iff _).mpr h)
    have blank : l'.isBlank = true := hsame.isBlank_eq.symm.trans hblank
    rw [place, if_neg run, List.filter_cons_of_neg (by simp [blank])]
    exact ih h hmore later ho hblock
  | case4 block l more hm hblank ih =>
    obtain ⟨l', more', hsame, hmore, rfl⟩ := List.forall₂_cons_left_iff.mp same
    obtain ⟨here, later⟩ := List.forall_mem_cons.mp hl
    have run : ¬ l'.Is .runFunction := fun h => hm ((hsame.is_iff _).mpr h)
    have solid : ¬ l'.isBlank = true := hsame.isBlank_eq ▸ hblank
    rw [place, if_neg run, List.filter_cons_of_pos (by simp [solid]), List.append_cons]
    refine ih h hmore later (ho.concat here) ?_
    rw [List.reverse_cons, hblock, List.map_append]
    exact congrArg (_ ++ [·]) hsame

theorem unbroken_replaced (marker : Marker) (hn : ∀ f ∈ functionsOf parts, Unbroken f.2)
    (h : Unbroken lines) : Unbroken (replaced marker parts lines) := by
  intro l' hl'
  obtain ⟨l, hl, hmem⟩ := List.mem_flatMap.mp hl'
  split at hmem
  · exact unbroken_calledBody hn l l' hmem
  · rw [List.mem_singleton.mp hmem]
    exact h l hl

/-- The blocks of a script are its placed lines, split where neighbours are apart. -/
theorem blocks_of_parse {raw : String} {script : Script} (h : parse raw = .ok script) :
    ∃ parts, Laid (codeOf raw) parts ∧ script.queue.map Instruction.lines =
      ((placedLines parts).splitBy PlacedLine.together).map (List.map PlacedLine.content) := by
  obtain ⟨parts, expanded, laid, hinject, hcollate⟩ := laid_of_parse h
  have hn := laid.unbroken_functions
  have clean := unbroken_replaced .injectFunction hn laid.unbroken_outside
  have start : OfPlace [] 0 none := .nil
  exact ⟨parts, laid, collate_blocks hn hcollate (inject_same hn hinject) clean start rfl⟩

/-- The lines are cut into blocks where neighbours are apart, and only there. -/
structure Blocked (placed : List PlacedLine) (blocks : List (List PlacedLine)) : Prop where
  flatten_eq : blocks.flatten = placed
  ne_nil : ∀ b ∈ blocks, b ≠ []
  together : ∀ b ∈ blocks, b.IsChain fun p q => ¬ p.Apart q
  apart : blocks.IsChain fun b c => ∃ hb hc, (b.getLast hb).Apart (c.head hc)

theorem blocked_splitBy (placed : List PlacedLine) :
    Blocked placed (placed.splitBy PlacedLine.together) where
  flatten_eq := List.flatten_splitBy _ _
  ne_nil := fun _ => List.ne_nil_of_mem_splitBy
  together := fun _ hb => (List.isChain_of_mem_splitBy hb).imp fun _ _ => PlacedLine.together_iff.mp
  apart := (List.isChain_getLast_head_splitBy _ _).imp fun _ _ ⟨hb, hc, h⟩ =>
    ⟨hb, hc, PlacedLine.together_eq_false_iff.mp h⟩

/-- No line of a script is lost, doubled or moved, and its blocks end where a run of a function
parts them. -/
theorem script_conserved {raw : String} {script : Script} (h : parse raw = .ok script) :
    ∃ parts blocks,
      (∀ others, Laid (codeOf raw) others ↔ others = parts) ∧
      (placedLines parts).map (·.line) = linesOf parts ∧
      script.queue.flatMap Instruction.lines =
        (linesOf parts).map (fun l => Text.trimEnd l.text) ∧
      script.queue.map Instruction.lines = blocks.map (List.map PlacedLine.content) ∧
      Blocked (placedLines parts) blocks := by
  obtain ⟨parts, laid, blocks⟩ := blocks_of_parse h
  refine ⟨parts, _, fun others => ⟨fun h => h.unique laid, fun h => h ▸ laid⟩,
    map_line_placedLines parts, ?_, blocks, blocked_splitBy _⟩
  rw [List.flatMap_def, blocks, ← List.map_flatten, List.flatten_splitBy,
    ← map_line_placedLines, List.map_map]
  rfl

theorem script_conserved_at_run : ∃ raw script parts blocks, parse raw = .ok script ∧
    script.queue.map Instruction.lines =
      [["c", " b", "INJECT_FUNCTION a"], [" b", "INJECT_FUNCTION a"]] ∧
    (∀ others, Laid (codeOf raw) others ↔ others = parts) ∧
    (placedLines parts).map (·.line) = linesOf parts ∧
    script.queue.flatMap Instruction.lines = (linesOf parts).map (fun l => Text.trimEnd l.text) ∧
    script.queue.map Instruction.lines = blocks.map (List.map PlacedLine.content) ∧
    Blocked (placedLines parts) blocks := by
  have parsed : parse (Text.unlines ["BEGIN_FUNCTION a", " b", "INJECT_FUNCTION a", "END_FUNCTION",
      "c ", "INJECT_FUNCTION a", "RUN_FUNCTION a"]) =
      .ok ⟨[⟨"c\n b\nINJECT_FUNCTION a"⟩, ⟨" b\nINJECT_FUNCTION a"⟩],
        [("a", " b\nINJECT_FUNCTION a")]⟩ := by
    decide +kernel
  obtain ⟨parts, blocks, h⟩ := script_conserved parsed
  exact ⟨_, _, parts, blocks, parsed, by decide, h⟩

end

end Script

end BrowserAgent
