import BrowserAgent.Proofs.ScriptLines
import BrowserAgent.Proofs.ScriptSections

/-!
# Faults of a script

A script is refused for its sections, for a line outside of them that names no function, and for a
line that runs none in a body that such a line injects; for nothing else. The error has the number of
the line, or of the one that injects it.
-/

namespace BrowserAgent.Script

variable {code before after body lines expanded : List SourceLine} {parts : List Part}
  {l l' : SourceLine} {m : Marker} {number : Nat} {e : ScriptError} {functions : FunctionTable}
  {block : List String}

def Names (code : List SourceLine) (l : SourceLine) : Prop :=
  ∃ name, l.name? = some name ∧ Defined code name

structure Accepted (code : List SourceLine) : Prop where
  sections : ∀ before l after, code = before ++ l :: after → l.Is .beginFunction →
    (∃ name, l.name? = some name) ∧ ∃ body stop rest, after = body ++ stop :: rest ∧
      stop.Is .endFunction ∧ ∀ l' ∈ body, ¬ l'.Is .beginFunction
  ends : ∀ before l after, code = before ++ l :: after → l.Is .endFunction → InSection before
  injections : ∀ l, Outside code l → l.Is .injectFunction → Names code l
  runs : ∀ l, Outside code l → l.Is .runFunction → Names code l
  injectedRuns : ∀ l name body r, Outside code l → l.Is .injectFunction → l.name? = some name →
    LastBody code name body → r ∈ body → r.Is .runFunction → Names code r

/-- The error of a line with the marker that names no function. -/
inductive Misnames (code : List SourceLine) (l : SourceLine) (m : Marker) (number : Nat) :
    ScriptError → Prop
  | unnamed (h : l.name? = none) : Misnames code l m number (.missingFunctionName number m)
  | unknown (name : String) (h : l.name? = some name) (hd : ¬ Defined code name) :
    Misnames code l m number (.unknownFunction number name)

/-- What an error says of the lines. -/
inductive Fault (code : List SourceLine) : ScriptError → Prop
  | unnamed (l : SourceLine) (hout : Outside code l) (hm : l.Is .beginFunction)
    (hname : l.name? = none) : Fault code (.missingFunctionName l.number .beginFunction)
  | unterminated (before after : List SourceLine) (l : SourceLine) (name : String)
    (here : code = before ++ l :: after) (hm : l.Is .beginFunction) (hname : l.name? = some name)
    (hinner : ∀ l' ∈ after, l'.IsInner) : Fault code (.unterminatedFunction l.number name)
  | nested (before body after : List SourceLine) (start l : SourceLine) (name : String)
    (here : code = before ++ start :: (body ++ l :: after)) (hs : start.Is .beginFunction)
    (hname : start.name? = some name) (hinner : ∀ l' ∈ body, l'.IsInner)
    (hm : l.Is .beginFunction) : Fault code (.nestedFunction l.number name)
  | unexpectedEnd (before after : List SourceLine) (l : SourceLine)
    (here : code = before ++ l :: after) (hout : ¬ InSection before) (hm : l.Is .endFunction) :
    Fault code (.unexpectedEndFunction l.number)
  | injection (l : SourceLine) (e : ScriptError) (hout : Outside code l)
    (hm : l.Is .injectFunction) (h : Misnames code l .injectFunction l.number e) : Fault code e
  | run (l : SourceLine) (e : ScriptError) (hout : Outside code l) (hm : l.Is .runFunction)
    (h : Misnames code l .runFunction l.number e) : Fault code e
  | injectedRun (l : SourceLine) (name : String) (body : List SourceLine) (r : SourceLine)
    (e : ScriptError) (hout : Outside code l) (hm : l.Is .injectFunction)
    (hname : l.name? = some name) (hbody : LastBody code name body) (hr : r ∈ body)
    (hrun : r.Is .runFunction) (h : Misnames code r .runFunction l.number e) : Fault code e

/-! ## A fault is not accepted -/

theorem Misnames.not_names (h : Misnames code l m number e) : ¬ Names code l := by
  rintro ⟨name, hname, hd⟩
  cases h with
  | unnamed h => cases h.symm.trans hname
  | unknown name' h hd' =>
    obtain rfl := Option.some.inj (h.symm.trans hname)
    exact hd' hd

theorem Misnames.line_eq (h : Misnames code l m number e) : e.line = number := by
  cases h <;> rfl

theorem cuts_cross {α : Type} {xs ys rest rest' : List α} {a b : α}
    (h : xs ++ a :: rest = ys ++ b :: rest') : a = b ∨ b ∈ xs ∨ a ∈ ys := by
  rcases List.append_eq_append_iff.mp h with ⟨more, rfl, later⟩ | ⟨more, rfl, later⟩
  · cases more with
    | nil => exact .inl (List.cons.inj later).1
    | cons c more => exact .inr (.inr (by simp [(List.cons.inj later).1]))
  · cases more with
    | nil => exact .inl (List.cons.inj later).1.symm
    | cons c more => exact .inr (.inl (by simp [(List.cons.inj later).1]))

theorem Fault.not_accepted (h : Fault code e) : ¬ Accepted code := by
  intro accepted
  cases h with
  | unnamed l hout hm hname =>
    obtain ⟨before, after, here, -⟩ := hout
    obtain ⟨⟨name, hname'⟩, -⟩ := accepted.sections before l after here hm
    cases hname.symm.trans hname'
  | unterminated before after l name here hm hname hinner =>
    obtain ⟨-, body, stop, rest, rfl, he, -⟩ := accepted.sections before l after here hm
    exact (hinner stop (by simp)).2 he
  | nested before body after start l name here hs hname hinner hm =>
    obtain ⟨-, body', stop, rest, heq, he, hb⟩ := accepted.sections before start _ here hs
    -- The end that is promised can stand neither at the inner start, nor before it, nor after it.
    rcases cuts_cross heq with rfl | hmem | hmem
    · cases hm.unique he
    · exact (hinner stop hmem).2 he
    · exact hb l hmem hm
  | unexpectedEnd before after l here hout hm => exact hout (accepted.ends before l after here hm)
  | injection l e hout hm h => exact h.not_names (accepted.injections l hout hm)
  | run l e hout hm h => exact h.not_names (accepted.runs l hout hm)
  | injectedRun l name body r e hout hm hname hbody hr hrun h =>
    exact h.not_names (accepted.injectedRuns l name body r hout hm hname hbody hr hrun)

theorem Fault.exists_line (h : Fault code e) :
    ∃ l ∈ code, l.number = e.line ∧ ∃ m, l.Is m := by
  have mem_of_outside : ∀ {l}, Outside code l → l ∈ code := by
    rintro l ⟨before, after, rfl, -⟩
    simp
  cases h with
  | unnamed l hout hm hname => exact ⟨l, mem_of_outside hout, rfl, _, hm⟩
  | unterminated before after l name here hm hname hinner => exact ⟨l, by simp [here], rfl, _, hm⟩
  | nested before body after start l name here hs hname hinner hm =>
    exact ⟨l, by simp [here], rfl, _, hm⟩
  | unexpectedEnd before after l here hout hm => exact ⟨l, by simp [here], rfl, _, hm⟩
  | injection l e hout hm h => exact ⟨l, mem_of_outside hout, h.line_eq.symm, _, hm⟩
  | run l e hout hm h => exact ⟨l, mem_of_outside hout, h.line_eq.symm, _, hm⟩
  | injectedRun l name body r e hout hm hname hbody hr hrun h =>
    exact ⟨l, mem_of_outside hout, h.line_eq.symm, _, hm⟩

/-! ## Names -/

theorem find?_definedIn (h : Laid code parts) (name : String) :
    (tableOf (definedIn parts)).find? name = none ↔ ¬ Defined code name := by
  rw [lookup_definedIn, Option.map_eq_none_iff, h.defined_iff, List.lookup_eq_none_iff]
  simp only [List.mem_reverse, bne_iff_ne, ne_eq, not_exists, not_and]
  exact forall₂_congr fun _ _ => ⟨Ne.symm, Ne.symm⟩

theorem names_of_lookUp {text : String} (h : Laid code parts)
    (hok : lookUp (tableOf (definedIn parts)) m l = .ok text) : Names code l := by
  obtain ⟨name, hname, hfind⟩ := lookUp_eq_ok_iff.mp hok
  refine ⟨name, hname, not_not.mp fun hd => ?_⟩
  cases ((find?_definedIn h name).mpr hd).symm.trans hfind

theorem misnames_of_lookUp (h : Laid code parts)
    (herr : lookUp (tableOf (definedIn parts)) m l = .error e) : Misnames code l m l.number e := by
  rcases lookUp_eq_error_iff.mp herr with ⟨hname, rfl⟩ | ⟨name, hname, hfind, rfl⟩
  · exact .unnamed hname
  · exact .unknown name hname ((find?_definedIn h name).mp hfind)

theorem Names.of_same (hs : l.Same l') (h : Names code l) : Names code l' := by
  obtain ⟨name, hname, hd⟩ := h
  exact ⟨name, hs.name?_eq ▸ hname, hd⟩

theorem Misnames.of_same (hs : l.Same l') (h : Misnames code l m number e) :
    Misnames code l' m number e := by
  cases h with
  | unnamed h => exact .unnamed (hs.name?_eq ▸ h)
  | unknown name h hd => exact .unknown name (hs.name?_eq ▸ h) hd

theorem mem_calledBody_iff (h : Laid code parts) :
    l' ∈ calledBody parts l ↔ l'.isBlank = false ∧
      ∃ name body, l.name? = some name ∧ LastBody code name body ∧ l' ∈ body := by
  simp only [h.lastBody_iff, calledBody, List.mem_filter, Bool.not_eq_true']
  rw [and_comm]
  refine and_congr_right fun _ => ?_
  cases l.name? with
  | none => simp
  | some name =>
    cases hbody : (functionsOf parts).reverse.lookup name <;> simp [hbody]

/-! ## Sections -/

theorem functionName_eq_error_iff :
    functionName m l = .error e ↔ l.name? = none ∧ e = .missingFunctionName l.number m := by
  rw [functionName, SourceLine.name?]
  cases (Text.words l.text).tail.getLast? <;> simp [eq_comm]

/-- The code read so far, up to the section that is open. -/
def Reads (before : List SourceLine) : Option OpenSection → Prop
  | none => ∃ parts, Laid before parts
  | some sec => ∃ first start body parts, before = first ++ start :: body ∧ Laid first parts ∧
    start.Is .beginFunction ∧ start.name? = some sec.name ∧ start.number = sec.line ∧
    ∀ l ∈ body, l.IsInner

theorem fault_of_extract {sec : Option OpenSection} (hread : Reads before sec)
    (h : extract sec lines = .error e) : Fault (before ++ codeLines lines) e := by
  -- Each line that is no comment moves from what is left to what was read.
  fun_induction extract sec lines generalizing before with
  | case1 => cases h
  | case2 sec =>
    cases h
    obtain ⟨first, start, body, parts, rfl, -, hs, hname, hline, hinner⟩ := hread
    rw [← hline]
    exact .unterminated first body start sec.name (by simp [codeLines]) hs hname hinner
  | case3 l more hc ih | case7 sec l more hc ih =>
    rw [codeLines_comment hc]
    exact ih hread h
  | case4 l more hc hm ih =>
    obtain ⟨parts, laid⟩ := hread
    rw [codeLines_code hc]
    rcases bind_eq_error_iff.mp h with h | ⟨name, hname, h⟩
    · obtain ⟨hname, rfl⟩ := functionName_eq_error_iff.mp h
      exact .unnamed l ⟨before, _, rfl, laid.not_inSection⟩ hm hname
    · rw [List.append_cons]
      refine ih name ⟨before, l, [], parts, rfl, laid, hm, ?_, rfl, by simp⟩ h
      exact functionName_eq_ok_iff.mp hname
  | case5 l more hc hm =>
    cases h
    obtain ⟨parts, laid⟩ := hread
    rw [codeLines_code hc]
    exact .unexpectedEnd before _ l rfl laid.not_inSection hm
  | case6 l more hc hstart hend ih =>
    obtain ⟨parts, laid⟩ := hread
    rw [codeLines_code hc, List.append_cons]
    rcases bind_eq_error_iff.mp h with h | ⟨found, -, h⟩
    · exact ih ⟨_, laid.append (.line ⟨hstart, hend⟩ .nil)⟩ h
    · cases h
  | case8 sec l more hc hm ih =>
    obtain ⟨first, start, body, parts, rfl, laid, hs, hname, -, hinner⟩ := hread
    rw [codeLines_code hc, List.append_cons, List.append_assoc first]
    rcases bind_eq_error_iff.mp h with h | ⟨found, -, h⟩
    · exact ih ⟨_, laid.append (.function hs hname hinner hm .nil)⟩ h
    · cases h
  | case9 sec l more hc hm =>
    cases h
    obtain ⟨first, start, body, parts, rfl, -, hs, hname, -, hinner⟩ := hread
    rw [codeLines_code hc, List.append_assoc]
    exact .nested first body _ start l sec.name rfl hs hname hinner hm
  | case10 sec l more hc hend hstart ih =>
    obtain ⟨first, start, body, parts, rfl, laid, hs, hname, hline, hinner⟩ := hread
    rw [codeLines_code hc, List.append_cons, List.append_assoc first]
    refine ih ⟨first, start, body ++ [l], parts, rfl, laid, hs, hname, hline, ?_⟩ h
    exact List.forall_mem_append.mpr ⟨hinner, List.forall_mem_singleton.mpr ⟨hstart, hend⟩⟩

/-! ## Lines that name functions -/

/-- The lines with the marker are looked up: each has a function, or the error is that of one. -/
def LooksUp {α : Type} (functions : FunctionTable) (m : Marker) (lines : List SourceLine) :
    Except ScriptError α → Prop
  | .ok _ => ∀ l ∈ lines, l.Is m → ∃ text, lookUp functions m l = .ok text
  | .error e => ∃ l ∈ lines, l.Is m ∧ lookUp functions m l = .error e

namespace LooksUp

variable {α β : Type} {x : Except ScriptError α}

theorem passed (hm : ¬ l.Is m) (h : LooksUp functions m lines x) :
    LooksUp functions m (l :: lines) x := by
  cases x with
  | ok a => exact List.forall_mem_cons.mpr ⟨fun h => absurd h hm, h⟩
  | error e =>
    obtain ⟨l', hl', found⟩ := h
    exact ⟨l', List.mem_cons_of_mem _ hl', found⟩

theorem marked (g : String → α → β) (hm : l.Is m) (h : LooksUp functions m lines x) :
    LooksUp functions m (l :: lines) do
      let text ← lookUp functions m l
      let rest ← x
      return g text rest := by
  cases htext : lookUp functions m l with
  | error e => exact ⟨l, List.mem_cons_self, hm, htext⟩
  | ok text =>
    cases x with
    | ok a => exact List.forall_mem_cons.mpr ⟨fun _ => ⟨text, htext⟩, h⟩
    | error e =>
      obtain ⟨l', hl', found⟩ := h
      exact ⟨l', List.mem_cons_of_mem _ hl', found⟩

theorem bind_pure (g : α → β) (h : LooksUp functions m lines x) :
    LooksUp functions m lines (do return g (← x)) := by
  cases x <;> exact h

end LooksUp

theorem inject_looksUp (functions : FunctionTable) (lines : List SourceLine) :
    LooksUp functions .injectFunction lines (inject functions lines) := by
  fun_induction inject functions lines with
  | case1 => exact fun _ h => absurd h List.not_mem_nil
  | case2 l more hm ih => exact ih.marked _ hm
  | case3 l more hm ih => exact (ih.bind_pure _).passed hm

theorem collate_looksUp (functions : FunctionTable) (block : List String)
    (lines : List SourceLine) :
    LooksUp functions .runFunction lines (collate functions block lines) := by
  fun_induction collate functions block lines with
  | case1 => exact fun _ h => absurd h List.not_mem_nil
  | case2 block l more hm ih => exact ih.marked _ hm
  | case3 block l more hm _ ih | case4 block l more hm _ ih => exact ih.passed hm

/-! ## Acceptance -/

section

variable {raw : String}

theorem accepted_of_parse {script : Script} (h : parse raw = .ok script) :
    Accepted (codeOf raw) := by
  obtain ⟨parts, expanded, laid, hinject, hcollate⟩ := laid_of_parse h
  -- What a line names has been looked up, by the line that was injected or by the one that was run.
  have injections := inject_looksUp (tableOf (definedIn parts)) (outsideOf parts)
  have runs := collate_looksUp (tableOf (definedIn parts)) [] expanded
  rw [hinject] at injections
  rw [hcollate] at runs
  have heq := inject_eq laid.unbroken_functions hinject
  refine ⟨fun before l after here hm => ?_, fun _ _ _ => laid.inSection_of_end, fun l hout hm => ?_,
    fun l hout hm => ?_, fun l name body r hout hm hname hbody hr hrun => ?_⟩
  · obtain ⟨ps, qs, name, body, stop, -, hafter, -, hname, hb, he⟩ := laid.starts_at here hm
    exact ⟨⟨name, hname⟩, body, stop, _, hafter, he, fun l hl => (hb l hl).1⟩
  · have hl := (laid.outside_iff (hm.isInner (by simp) (by simp))).mp hout
    obtain ⟨text, htext⟩ := injections l hl hm
    exact names_of_lookUp laid htext
  · have hl := (laid.outside_iff (hm.isInner (by simp) (by simp))).mp hout
    have plain : ¬ l.Is .injectFunction := fun h => by cases hm.unique h
    have mem : l ∈ expanded := by
      rw [heq]
      exact List.mem_flatMap.mpr ⟨l, hl, by simp [plain]⟩
    obtain ⟨text, htext⟩ := runs l mem hm
    exact names_of_lookUp laid htext
  · have hl := (laid.outside_iff (hm.isInner (by simp) (by simp))).mp hout
    have called : r ∈ calledBody parts l :=
      (mem_calledBody_iff laid).mpr ⟨hrun.not_isBlank, name, body, hname, hbody, hr⟩
    have mem : r.putFor l ∈ expanded := by
      rw [heq]
      refine List.mem_flatMap.mpr ⟨l, hl, ?_⟩
      rw [if_pos hm]
      exact List.mem_map_of_mem called
    obtain ⟨text, htext⟩ := runs _ mem (((r.putFor_same l).is_iff _).mpr hrun)
    exact (names_of_lookUp laid htext).of_same (r.putFor_same l)

theorem fault_of_parse (h : parse raw = .error e) : Fault (codeOf raw) e := by
  rcases bind_eq_error_iff.mp h with h | ⟨⟨outside, defined⟩, hextract, h⟩
  · have read : Reads [] none := ⟨[], .nil⟩
    exact fault_of_extract read h
  obtain ⟨parts, laid, rfl, rfl⟩ := completes_of_extract hextract
  rcases bind_eq_error_iff.mp h with h | ⟨expanded, hinject, h⟩
  · have found := inject_looksUp (tableOf (definedIn parts)) (outsideOf parts)
    rw [h] at found
    obtain ⟨l, hl, hm, herr⟩ := found
    have hout := (laid.outside_iff (hm.isInner (by simp) (by simp))).mpr hl
    exact .injection l e hout hm (misnames_of_lookUp laid herr)
  rcases bind_eq_error_iff.mp h with h | ⟨queue, -, h⟩
  · have found := collate_looksUp (tableOf (definedIn parts)) [] expanded
    rw [h] at found
    obtain ⟨l, hl, hm, herr⟩ := found
    -- The line stood outside of the sections, or it was put in and has the number of the other.
    rw [inject_eq laid.unbroken_functions hinject] at hl
    obtain ⟨l', hl', hmem⟩ := List.mem_flatMap.mp hl
    split at hmem
    · next inject =>
      have hout := (laid.outside_iff (inject.isInner (by simp) (by simp))).mpr hl'
      obtain ⟨r, hr, rfl⟩ := List.mem_map.mp hmem
      obtain ⟨-, name, body, hname, hbody, hr⟩ := (mem_calledBody_iff laid).mp hr
      have same := r.putFor_same l'
      exact .injectedRun l' name body r e hout inject hname hbody hr ((same.is_iff _).mp hm)
        ((misnames_of_lookUp laid herr).of_same same)
    · rw [List.mem_singleton.mp hmem] at hm herr
      have hout := (laid.outside_iff (hm.isInner (by simp) (by simp))).mpr hl'
      exact .run l' e hout hm (misnames_of_lookUp laid herr)
  · cases h

theorem getElem?_of_mem_numbered {n : Nat} {ls : List String} (h : l ∈ numbered n ls) :
    n ≤ l.number ∧ ls[l.number - n]? = some l.text := by
  induction ls generalizing n with
  | nil => cases h
  | cons line more ih =>
    rcases List.mem_cons.mp h with rfl | h
    · simp
    · obtain ⟨hle, hget⟩ := ih h
      refine ⟨Nat.le_of_succ_le hle, ?_⟩
      rw [show l.number - n = l.number - (n + 1) + 1 by omega, List.getElem?_cons_succ, hget]

/-- Scripts without a fault are accepted, and others are refused for one, at a line of the text that
starts with a marker. -/
theorem parse_accepts_iff (raw : String) :
    ((∃ script, parse raw = .ok script) ↔ Accepted (codeOf raw)) ∧
      ∀ e, parse raw = .error e → Fault (codeOf raw) e ∧ ∃ text m, 1 ≤ e.line ∧
        (Text.lines raw)[e.line - 1]? = some text ∧ Marker.ofLine? text = some m := by
  refine ⟨⟨fun ⟨_, h⟩ => accepted_of_parse h, fun accepted => ?_⟩, fun e h => ?_⟩
  · cases h : parse raw with
    | ok script => exact ⟨script, rfl⟩
    | error e => exact absurd accepted (fault_of_parse h).not_accepted
  · have fault := fault_of_parse h
    obtain ⟨l, hl, hline, m, hm⟩ := fault.exists_line
    obtain ⟨hle, hget⟩ := getElem?_of_mem_numbered (List.mem_filter.mp hl).1
    rw [hline] at hle hget
    exact ⟨fault, l.text, m, hle, hget, hm⟩

theorem parse_accepts_nested :
    parse "a\nBEGIN_FUNCTION b\nRUN_FUNCTION c\n\nBEGIN_FUNCTION d" = .error (.nestedFunction 5 "b") ∧
      ¬ Accepted (codeOf "a\nBEGIN_FUNCTION b\nRUN_FUNCTION c\n\nBEGIN_FUNCTION d") ∧
      Fault (codeOf "a\nBEGIN_FUNCTION b\nRUN_FUNCTION c\n\nBEGIN_FUNCTION d")
        (.nestedFunction 5 "b") := by
  obtain ⟨accepts, faults⟩ :=
    parse_accepts_iff "a\nBEGIN_FUNCTION b\nRUN_FUNCTION c\n\nBEGIN_FUNCTION d"
  refine ⟨rfl, fun accepted => ?_, (faults _ rfl).1⟩
  obtain ⟨script, h⟩ := accepts.mpr accepted
  cases h

end

end BrowserAgent.Script
