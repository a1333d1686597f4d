import BrowserAgent.Proofs.ScriptLayout

/-!
# Sections of a script

Where the sections of a script are is read off its lines: one is open from a line that starts it to
the next line that ends one. A layout has the lines outside of them, the names and the bodies that the
lines say.
-/

namespace BrowserAgent.Script

/-! ## What the lines say -/

/-- A section is open after the lines. -/
def InSection (before : List SourceLine) : Prop :=
  ∃ pre start body, before = pre ++ start :: body ∧ start.Is .beginFunction ∧
    ∀ l ∈ body, ¬ l.Is .endFunction

def Outside (code : List SourceLine) (l : SourceLine) : Prop :=
  ∃ before after, code = before ++ l :: after ∧ ¬ InSection before

def Defined (code : List SourceLine) (name : String) : Prop :=
  ∃ start ∈ code, start.Is .beginFunction ∧ start.name? = some name

/-- The body of the last section with the name. -/
def LastBody (code : List SourceLine) (name : String) (body : List SourceLine) : Prop :=
  ∃ before start stop after, code = before ++ start :: (body ++ stop :: after) ∧
    start.Is .beginFunction ∧ start.name? = some name ∧ (∀ l ∈ body, l.IsInner) ∧
    stop.Is .endFunction ∧ ∀ l ∈ after, l.Is .beginFunction → l.name? ≠ some name

/-! ## Where a line stands in a layout -/

inductive Stands (l : SourceLine) : List SourceLine → List SourceLine → List Part → Prop
  | alone (ps qs : List Part) (whole : (Part.line l).IsWhole) :
    Stands l (ps.flatMap Part.lines) (qs.flatMap Part.lines) (ps ++ .line l :: qs)
  | starts (ps qs : List Part) (name : String) (body : List SourceLine) (stop : SourceLine)
    (whole : (Part.function name l body stop).IsWhole) :
    Stands l (ps.flatMap Part.lines) (body ++ stop :: qs.flatMap Part.lines)
      (ps ++ .function name l body stop :: qs)
  | inside (ps qs : List Part) (name : String) (start : SourceLine) (first last : List SourceLine)
    (stop : SourceLine) (whole : (Part.function name start (first ++ l :: last) stop).IsWhole) :
    Stands l (ps.flatMap Part.lines ++ start :: first) (last ++ stop :: qs.flatMap Part.lines)
      (ps ++ .function name start (first ++ l :: last) stop :: qs)
  | ends (ps qs : List Part) (name : String) (start : SourceLine) (body : List SourceLine)
    (whole : (Part.function name start body l).IsWhole) :
    Stands l (ps.flatMap Part.lines ++ start :: body) (qs.flatMap Part.lines)
      (ps ++ .function name start body l :: qs)

variable {code before after body : List SourceLine} {parts : List Part} {l : SourceLine}
  {name : String}

namespace Stands

theorem cons (p : Part) (h : Stands l before after parts) :
    Stands l (p.lines ++ before) after (p :: parts) := by
  cases h with
  | alone ps qs whole => exact .alone (p :: ps) qs whole
  | starts ps qs name body stop whole => exact .starts (p :: ps) qs name body stop whole
  | inside ps qs name start first last stop whole =>
    rw [← List.append_assoc]
    exact .inside (p :: ps) qs name start first last stop whole
  | ends ps qs name start body whole =>
    rw [← List.append_assoc]
    exact .ends (p :: ps) qs name start body whole

theorem of_part {p : Part} (hp : p.IsWhole) (qs : List Part) (h : p.lines = before ++ l :: after) :
    Stands l before (after ++ qs.flatMap Part.lines) (p :: qs) := by
  cases p with
  | line l' =>
    cases before with
    | nil =>
      obtain ⟨rfl, rfl⟩ := List.cons.inj h
      exact .alone [] qs hp
    | cons b before => cases before <;> cases h
  | function name start body stop =>
    cases before with
    | nil =>
      obtain ⟨rfl, rfl⟩ := List.cons.inj h
      simpa using Stands.starts [] qs name body stop hp
    | cons b before =>
      obtain ⟨rfl, rest⟩ := List.cons.inj h
      have h : body ++ [stop] = before ++ l :: after := rest
      rcases List.eq_nil_or_concat after with rfl | ⟨last, stop', rfl⟩
      · obtain ⟨rfl, heq⟩ := List.append_inj' h rfl
        cases heq
        exact .ends [] qs name start body hp
      · rw [List.concat_eq_append, ← List.cons_append, ← List.append_assoc] at h
        obtain ⟨rfl, heq⟩ := List.append_inj' h rfl
        cases heq
        simpa using Stands.inside [] qs name start before last stop hp

end Stands

theorem Laid.stands (h : Laid code parts) (here : code = before ++ l :: after) :
    Stands l before after parts := by
  obtain ⟨lines_eq, whole⟩ := h
  rw [lines_eq] at here
  clear lines_eq
  induction parts generalizing before with
  | nil => cases before <;> cases here
  | cons p parts ih =>
    obtain ⟨hp, hparts⟩ := List.forall_mem_cons.mp whole
    rw [List.flatMap_cons] at here
    rcases List.append_eq_append_iff.mp here with ⟨later, rfl, heq⟩ | ⟨rest, heq, later⟩
    · exact (ih heq hparts).cons p
    · cases rest with
      | nil =>
        rw [List.append_nil] at heq
        subst heq
        have here : parts.flatMap Part.lines = [] ++ l :: after := later.symm
        exact List.append_nil p.lines ▸ (ih here hparts).cons p
      | cons b rest =>
        obtain ⟨rfl, rfl⟩ := List.cons.inj later
        exact .of_part hp parts heq

/-! ## What a layout says -/

section

variable {p : Part} {f : String × List SourceLine}

theorem Part.IsWhole.exists_start (h : p.IsWhole) (hf : p.function? = some f) :
    ∃ start ∈ p.lines, start.Is .beginFunction ∧ start.name? = some f.1 := by
  cases p with
  | line => cases hf
  | function name start body stop =>
    cases hf
    exact ⟨start, List.mem_cons_self, h.1, h.2.1⟩

theorem Part.IsWhole.starts_function (h : p.IsWhole) (hl : l ∈ p.lines) (hs : l.Is .beginFunction)
    (hname : l.name? = some name) : ∃ body, p.function? = some (name, body) := by
  cases p with
  | line l' =>
    rw [List.mem_singleton.mp hl] at hs
    exact absurd hs h.1
  | function name' start body stop =>
    obtain ⟨-, hname', hb, he⟩ := h
    rcases List.mem_append.mp hl with hl | hl
    · rcases List.mem_cons.mp hl with rfl | hl
      · obtain rfl := Option.some.inj (hname'.symm.trans hname)
        exact ⟨body, rfl⟩
      · exact absurd hs (hb l hl).1
    · rw [List.mem_singleton.mp hl] at hs
      cases hs.unique he

theorem lookup_functionsOf_iff :
    (functionsOf parts).reverse.lookup name = some body ↔
      ∃ ps start stop qs, parts = ps ++ .function name start body stop :: qs ∧
        ∀ q ∈ qs, ∀ f, q.function? = some f → f.1 ≠ name := by
  rw [List.lookup_eq_some_iff]
  constructor
  · rintro ⟨later, earlier, heq, hlast⟩
    rw [List.reverse_eq_iff, List.reverse_append, List.reverse_cons, List.append_assoc,
      functionsOf, List.filterMap_eq_append_iff] at heq
    obtain ⟨ps, rest, rfl, -, hrest⟩ := heq
    rw [List.singleton_append, List.filterMap_eq_cons_iff] at hrest
    obtain ⟨others, p, qs, rfl, -, hp, hqs⟩ := hrest
    cases p with
    | line => cases hp
    | function name' start body' stop =>
      cases hp
      refine ⟨ps ++ others, start, stop, qs, by simp, fun q hq f hf => ?_⟩
      have mem : f ∈ later.reverse := hqs ▸ List.mem_filterMap.mpr ⟨q, hq, hf⟩
      exact (bne_iff_ne.mp (hlast f (List.mem_reverse.mp mem))).symm
  · rintro ⟨ps, start, stop, qs, rfl, hlast⟩
    refine ⟨(functionsOf qs).reverse, (functionsOf ps).reverse,
      by simp [functionsOf, Part.function?], fun f hf => bne_iff_ne.mpr ?_⟩
    obtain ⟨q, hq, hqf⟩ := List.mem_filterMap.mp (List.mem_reverse.mp hf)
    exact (hlast q hq f hqf).symm

end

namespace Laid

theorem starts_at (h : Laid code parts) (here : code = before ++ l :: after)
    (hs : l.Is .beginFunction) :
    ∃ ps qs name body stop, parts = ps ++ .function name l body stop :: qs ∧
      after = body ++ stop :: qs.flatMap Part.lines ∧
      (Part.function name l body stop).IsWhole := by
  cases h.stands here with
  | alone ps qs whole => exact absurd hs whole.1
  | starts ps qs name body stop whole => exact ⟨ps, qs, name, body, stop, rfl, rfl, whole⟩
  | inside ps qs name start first last stop whole => exact absurd hs (whole.2.2.1 l (by simp)).1
  | ends ps qs name start body whole => cases hs.unique whole.2.2.2

theorem inSection_of_end (h : Laid code parts) (here : code = before ++ l :: after)
    (hm : l.Is .endFunction) : InSection before := by
  cases h.stands here with
  | alone ps qs whole => exact absurd hm whole.2
  | starts ps qs name body stop whole => cases hm.unique whole.1
  | inside ps qs name start first last stop whole => exact absurd hm (whole.2.2.1 l (by simp)).2
  | ends ps qs name start body whole =>
    exact ⟨_, start, body, rfl, whole.1, fun l hl => (whole.2.2.1 l hl).2⟩

theorem not_inSection (h : Laid before parts) : ¬ InSection before := by
  rintro ⟨pre, start, body, here, hs, hb⟩
  obtain ⟨ps, qs, name, body', stop, -, rfl, -, -, -, he⟩ := h.starts_at here hs
  exact hb stop (by simp) he

theorem first {others : List Part} (h : Laid code (parts ++ others)) :
    Laid (parts.flatMap Part.lines) parts :=
  ⟨rfl, fun p hp => h.whole p (List.mem_append_left _ hp)⟩

theorem outside_iff (h : Laid code parts) (hl : l.IsInner) :
    Outside code l ↔ l ∈ outsideOf parts := by
  constructor
  · rintro ⟨before, after, here, hout⟩
    cases h.stands here with
    | alone ps qs whole => simp [outsideOf, Part.outside?]
    | starts ps qs name body stop whole => exact absurd whole.1 hl.1
    | inside ps qs name start first last stop whole =>
      refine absurd ⟨_, start, first, rfl, whole.1, fun l' hl' => ?_⟩ hout
      exact (whole.2.2.1 l' (List.mem_append_left _ hl')).2
    | ends ps qs name start body whole => exact absurd whole.2.2.2 hl.2
  · intro hmem
    obtain ⟨part, hpart, heq⟩ := List.mem_filterMap.mp hmem
    cases part with
    | function => cases heq
    | line l' =>
      cases heq
      obtain ⟨ps, qs, rfl⟩ := List.append_of_mem hpart
      refine ⟨ps.flatMap Part.lines, qs.flatMap Part.lines, ?_, h.first.not_inSection⟩
      rw [h.lines_eq, List.flatMap_append]
      rfl

theorem defined_iff (h : Laid code parts) :
    Defined code name ↔ ∃ f ∈ functionsOf parts, f.1 = name := by
  rw [Defined, h.lines_eq]
  constructor
  · rintro ⟨start, hmem, hs, hname⟩
    obtain ⟨p, hp, hstart⟩ := List.mem_flatMap.mp hmem
    obtain ⟨body, hf⟩ := (h.whole p hp).starts_function hstart hs hname
    exact ⟨(name, body), List.mem_filterMap.mpr ⟨p, hp, hf⟩, rfl⟩
  · rintro ⟨f, hf, rfl⟩
    obtain ⟨p, hp, hpf⟩ := List.mem_filterMap.mp hf
    obtain ⟨start, hstart, hs, hname⟩ := (h.whole p hp).exists_start hpf
    exact ⟨start, List.mem_flatMap.mpr ⟨p, hp, hstart⟩, hs, hname⟩

theorem lastBody_iff (h : Laid code parts) :
    LastBody code name body ↔ (functionsOf parts).reverse.lookup name = some body := by
  rw [lookup_functionsOf_iff]
  constructor
  · rintro ⟨before, start, stop, after, here, hs, hname, hb, he, hlast⟩
    obtain ⟨ps, qs, name', body', stop', rfl, hrest, -, hname', hb', he'⟩ := h.starts_at here hs
    obtain rfl := Option.some.inj (hname'.symm.trans hname)
    obtain ⟨rfl, -, rfl⟩ := first_cut_unique (P := (·.Is .endFunction))
      (fun l hl => (hb l hl).2) (fun l hl => (hb' l hl).2) he he' hrest
    refine ⟨ps, start, stop', qs, rfl, fun q hq f hf heq => ?_⟩
    obtain ⟨start', hmem, hs', hname'⟩ := (h.whole q (by simp [hq])).exists_start hf
    exact hlast start' (List.mem_flatMap.mpr ⟨q, hq, hmem⟩) hs' (heq ▸ hname')
  · rintro ⟨ps, start, stop, qs, rfl, hlast⟩
    obtain ⟨hs, hname, hb, he⟩ := h.whole (.function name start body stop) (by simp)
    refine ⟨ps.flatMap Part.lines, start, stop, qs.flatMap Part.lines,
      by simp [h.lines_eq, Part.lines], hs, hname, hb, he, fun l hl hm hname' => ?_⟩
    obtain ⟨q, hq, hmem⟩ := List.mem_flatMap.mp hl
    obtain ⟨body', hf⟩ := (h.whole q (by simp [hq])).starts_function hmem hm hname'
    exact hlast q hq _ hf rfl

end Laid

end BrowserAgent.Script
