import BrowserAgent.Proofs.LineEnds

/-!
# Sections that move

A section may stand anywhere outside of the others: every line that names a function finds the body
of the last section with that name, before it or after it. So a section whose name is defined once
can be put at any other place, and one whose name is defined again later can be left out.
-/

namespace BrowserAgent

/-! ## Comments have no marker -/

namespace Text

theorem words_cons_blank {c : Char} (h : isBlank c = true) (cs : List Char) :
    words (String.ofList (c :: cs)) = words (String.ofList cs) := by
  simp [words, wordsFrom, h]

theorem words_trimStart (line : String) : words (trimStart line) = words line := by
  have := apply_dropWhile (f := fun cs => words (String.ofList cs))
    (fun c cs h => words_cons_blank h cs) line.toList
  rwa [String.ofList_toList] at this

end Text

namespace Script

theorem ofLine?_of_isComment {line : String} (h : isComment line = true) :
    Marker.ofLine? line = none := by
  have first : (Text.words line).head? = some "#" := by
    rw [← Text.words_trimStart]
    rw [isComment, Bool.or_eq_true] at h
    rcases h with h | h
    · obtain ⟨rest, hrest⟩ := List.isPrefixOf_iff_prefix.mp h
      rw [Text.words, ← hrest]
      simp [Text.wordsFrom, Text.isBlank]
    · rw [← Text.words_trimEnd, eq_of_beq h]
      decide
  rw [Marker.ofLine?, first]
  decide

theorem not_isComment_of_is {l : SourceLine} {m : Marker} (h : l.Is m) :
    ¬ isComment l.text = true :=
  fun hc => nomatch h.symm.trans (ofLine?_of_isComment hc)

/-! ## Layouts -/

section

variable {lines outside before after body : List SourceLine} {defined : List (String × String)}
  {parts : List Part} {l start stop : SourceLine} {raw name : String} {script : Script}

theorem Laid.of_cons (h : Laid (l :: lines) parts) :
    (∃ ps, parts = .line l :: ps ∧ l.IsInner ∧ Laid lines ps) ∨
      ∃ name body stop rest ps, parts = .function name l body stop :: ps ∧
        lines = body ++ stop :: rest ∧ (Part.function name l body stop).IsWhole ∧ Laid rest ps := by
  obtain ⟨lines_eq, whole⟩ := h
  cases parts with
  | nil => cases lines_eq
  | cons p ps =>
    obtain ⟨hp, hps⟩ := List.forall_mem_cons.mp whole
    rw [List.flatMap_cons] at lines_eq
    cases p with
    | line l' =>
      obtain ⟨rfl, rfl⟩ := List.cons.inj lines_eq
      exact .inl ⟨ps, rfl, hp, rfl, hps⟩
    | function name start body stop =>
      obtain ⟨rfl, rfl⟩ := List.cons.inj lines_eq
      exact .inr ⟨name, body, stop, _, ps, rfl, by simp, hp, rfl, hps⟩

theorem extract_of_completes {sec : Option OpenSection}
    (h : Completes outside defined sec (codeLines lines)) :
    extract sec lines = .ok (outside, defined) := by
  -- The layout tells which branch is taken, as its next part begins with the next line.
  fun_induction extract sec lines generalizing outside defined with
  | case1 =>
    obtain ⟨parts, laid, rfl, rfl⟩ := h
    obtain rfl := laid.unique .nil
    rfl
  | case2 sec =>
    obtain ⟨body, stop, rest, parts, heq, -⟩ := h
    simp [codeLines] at heq
  | case3 l more hc ih | case7 sec l more hc ih =>
    rw [codeLines_comment hc] at h
    exact ih h
  | case4 l more hc hm ih =>
    obtain ⟨parts, laid, rfl, rfl⟩ := h
    rw [codeLines_code hc] at laid
    obtain ⟨ps, -, inner, -⟩ | ⟨name, body, stop, rest, ps, rfl, heq, whole, laid⟩ := laid.of_cons
    · exact absurd hm inner.1
    · obtain ⟨-, hname, hb, he⟩ := whole
      rw [functionName_eq_ok_iff.mpr hname]
      exact ih name ⟨body, stop, rest, ps, heq, hb, he, laid, rfl, rfl⟩
  | case5 l more hc hm =>
    obtain ⟨parts, laid, -⟩ := h
    rw [codeLines_code hc] at laid
    obtain ⟨ps, -, inner, -⟩ | ⟨name, body, stop, rest, ps, -, -, whole, -⟩ := laid.of_cons
    · exact absurd hm inner.2
    · cases whole.1.unique hm
  | case6 l more hc hstart hend ih =>
    obtain ⟨parts, laid, rfl, rfl⟩ := h
    rw [codeLines_code hc] at laid
    obtain ⟨ps, rfl, -, laid⟩ | ⟨name, body, stop, rest, ps, -, -, whole, -⟩ := laid.of_cons
    · rw [ih ⟨ps, laid, rfl, rfl⟩]
      rfl
    · exact absurd whole.1 hstart
  | case8 sec l more hc hm ih =>
    obtain ⟨body, stop, rest, parts, heq, hb, he, laid, rfl, rfl⟩ := h
    rw [codeLines_code hc] at heq
    cases body with
    | nil =>
      obtain ⟨rfl, rfl⟩ := List.cons.inj heq
      rw [ih ⟨parts, laid, rfl, rfl⟩]
      simp [bind, Except.bind, pure, Except.pure]
    | cons b body =>
      obtain ⟨rfl, -⟩ := List.cons.inj heq
      exact absurd hm (hb l List.mem_cons_self).2
  | case9 sec l more hc hm =>
    obtain ⟨body, stop, rest, parts, heq, hb, he, -⟩ := h
    rw [codeLines_code hc] at heq
    cases body with
    | nil =>
      obtain ⟨rfl, -⟩ := List.cons.inj heq
      cases SourceLine.Is.unique hm he
    | cons b body =>
      obtain ⟨rfl, -⟩ := List.cons.inj heq
      exact absurd hm (hb l List.mem_cons_self).1
  | case10 sec l more hc hend hstart ih =>
    obtain ⟨body, stop, rest, parts, heq, hb, he, laid, rfl, rfl⟩ := h
    rw [codeLines_code hc] at heq
    cases body with
    | nil =>
      obtain ⟨rfl, -⟩ := List.cons.inj heq
      exact absurd he hend
    | cons b body =>
      obtain ⟨rfl, later⟩ := List.cons.inj heq
      exact ih ⟨body, stop, rest, parts, later, fun b hb' => hb b (List.mem_cons_of_mem _ hb'), he,
        laid, rfl, by simp⟩

/-- What the lines outside of the sections say with the functions. -/
def Says (functions : FunctionTable) (outside : List SourceLine) (script : Script) : Prop :=
  ∃ expanded, inject functions outside = .ok expanded ∧
    collate functions [] expanded = .ok script.queue ∧ script.functions = functions

theorem parseLines_eq_ok_iff : parseLines lines = .ok script ↔
    ∃ parts, Laid (codeLines lines) parts ∧
      Says (tableOf (definedIn parts)) (outsideOf parts) script := by
  constructor
  · intro h
    obtain ⟨⟨outside, defined⟩, hextract, h⟩ := bind_eq_ok_iff.mp h
    obtain ⟨expanded, hinject, h⟩ := bind_eq_ok_iff.mp h
    obtain ⟨queue, hcollate, h⟩ := bind_eq_ok_iff.mp h
    cases h
    obtain ⟨parts, laid, rfl, rfl⟩ := completes_of_extract hextract
    exact ⟨parts, laid, expanded, hinject, hcollate, rfl⟩
  · rintro ⟨parts, laid, expanded, hinject, hcollate, hfunctions⟩
    obtain ⟨queue, functions⟩ := script
    cases hfunctions
    have found : extract none lines = .ok (outsideOf parts, definedIn parts) :=
      extract_of_completes ⟨parts, laid, rfl, rfl⟩
    simp only [parseLines, found, hinject, hcollate, bind, Except.bind, pure, Except.pure]
    rfl

theorem parse_eq_ok_iff : parse raw = .ok script ↔
    ∃ parts, Laid (codeOf raw) parts ∧ Says (tableOf (definedIn parts)) (outsideOf parts) script :=
  parseLines_eq_ok_iff

theorem Laid.cut (h : Laid (before ++ after) parts) (hout : ¬ InSection before) :
    ∃ ps qs, parts = ps ++ qs ∧ Laid before ps ∧ Laid after qs := by
  cases after with
  | nil => exact ⟨parts, [], by simp, by simpa using h, .nil⟩
  | cons l after =>
    have here := h.stands rfl
    have whole := h.whole
    generalize before = xs, after = ys at here hout ⊢
    cases here with
    | alone ps qs hl =>
      obtain ⟨first, last⟩ := List.forall_mem_append.mp whole
      exact ⟨ps, _, rfl, ⟨rfl, first⟩, rfl, last⟩
    | starts ps qs name body stop hl =>
      obtain ⟨first, last⟩ := List.forall_mem_append.mp whole
      exact ⟨ps, _, rfl, ⟨rfl, first⟩, by simp [Part.lines], last⟩
    | inside ps qs name start first last stop hl =>
      refine absurd ⟨_, start, first, rfl, hl.1, fun b hb => ?_⟩ hout
      exact (hl.2.2.1 b (List.mem_append_left _ hb)).2
    | ends ps qs name start body hl =>
      exact absurd ⟨_, start, body, rfl, hl.1, fun b hb => (hl.2.2.1 b hb).2⟩ hout

theorem Laid.not_inSection_of_start (h : Laid (before ++ start :: after) parts)
    (hs : start.Is .beginFunction) : ¬ InSection before := by
  have here := h.stands rfl
  have whole := h.whole
  generalize before = xs, after = ys at here ⊢
  cases here with
  | alone ps qs hl => exact absurd hs hl.1
  | starts ps qs name body stop hl =>
    have laid : Laid (ps.flatMap Part.lines) ps := ⟨rfl, (List.forall_mem_append.mp whole).1⟩
    exact laid.not_inSection
  | inside ps qs name start' first last stop hl => exact absurd hs (hl.2.2.1 start (by simp)).1
  | ends ps qs name start' body hl => cases hs.unique hl.2.2.2

theorem Laid.section_at (h : Laid (before ++ start :: (body ++ stop :: after)) parts)
    (hs : start.Is .beginFunction) (hname : start.name? = some name)
    (hb : ∀ l ∈ body, ¬ l.Is .endFunction) (he : stop.Is .endFunction) :
    ∃ ps qs, parts = ps ++ .function name start body stop :: qs ∧ Laid before ps ∧ Laid after qs ∧
      (Part.function name start body stop).IsWhole := by
  obtain ⟨ps, others, rfl, first, here⟩ := h.cut (h.not_inSection_of_start hs)
  obtain ⟨qs, rfl, inner, -⟩ | ⟨name', body', stop', rest, qs, rfl, heq, whole, last⟩ :=
    here.of_cons
  · exact absurd hs inner.1
  · obtain ⟨-, hname', hb', he'⟩ := whole
    obtain ⟨rfl, rfl, rfl⟩ := first_cut_unique (P := (·.Is .endFunction)) hb
      (fun l hl => (hb' l hl).2) he he' heq
    obtain rfl := Option.some.inj (hname'.symm.trans hname)
    exact ⟨ps, qs, rfl, first, last, hs, hname', hb', he'⟩

end

/-! ## Tables of moved sections -/

section

variable {ps qs : List Part} {name : String} {start stop : SourceLine} {body : List SourceLine}

theorem outsideOf_append (ps qs : List Part) :
    outsideOf (ps ++ qs) = outsideOf ps ++ outsideOf qs :=
  List.filterMap_append

theorem definedIn_append (ps qs : List Part) :
    definedIn (ps ++ qs) = definedIn ps ++ definedIn qs := by
  rw [definedIn, functionsOf, List.filterMap_append, List.map_append]
  rfl

theorem outsideOf_insert (ps qs : List Part) :
    outsideOf (ps ++ .function name start body stop :: qs) = outsideOf (ps ++ qs) := by
  rw [outsideOf_append, outsideOf_append]
  rfl

theorem tableOf_definedIn_insert :
    tableOf (definedIn (ps ++ .function name start body stop :: qs)) =
      (definedIn qs).foldl (fun table entry => table.insert entry.1 entry.2)
        ((tableOf (definedIn ps)).insert name (bodyText body)) := by
  rw [definedIn_append, tableOf, List.foldl_append]
  rfl

theorem tableOf_of_unnamed (h : ∀ entry ∈ definedIn qs, entry.1 ≠ name) :
    tableOf (definedIn (ps ++ .function name start body stop :: qs)) =
      (tableOf (definedIn (ps ++ qs))).insert name (bodyText body) := by
  rw [tableOf_definedIn_insert, Table.foldl_insert_of_unnamed h, definedIn_append ps qs, tableOf,
    tableOf, List.foldl_append]

theorem tableOf_of_named (h : ∃ entry ∈ definedIn qs, entry.1 = name) :
    tableOf (definedIn (ps ++ .function name start body stop :: qs)) =
      tableOf (definedIn (ps ++ qs)) := by
  rw [tableOf_definedIn_insert, Table.foldl_insert_of_named h, definedIn_append ps qs, tableOf,
    tableOf, List.foldl_append]

end

/-! ## Whole lines of a text -/

def unplaced (ls : List String) : List SourceLine := ls.map (SourceLine.mk 0)

/-- The line starts a section with the name. -/
def Starts (name line : String) : Prop :=
  Marker.ofLine? line = some .beginFunction ∧ (Text.words line).tail.getLast? = some name

instance (name line : String) : Decidable (Starts name line) :=
  inferInstanceAs (Decidable (_ ∧ _))

/-- The lines are a section with the name, from the line that starts it to the one that ends it. -/
def IsSection (name : String) (ls : List String) : Prop :=
  ∃ start body stop, ls = start :: (body ++ [stop]) ∧ Starts name start ∧
    (∀ line ∈ body, Marker.ofLine? line ≠ some .endFunction) ∧
    Marker.ofLine? stop = some .endFunction

/-- A section is open after the lines. -/
def Opens (ls : List String) : Prop :=
  ∃ before start body, ls = before ++ start :: body ∧ Marker.ofLine? start = some .beginFunction ∧
    ∀ line ∈ body, Marker.ofLine? line ≠ some .endFunction

section

variable {raw name : String} {script : Script} {ls more first sec rest before after : List String}
  {parts : List Part}

theorem parse_eq_ok_iff_unplaced :
    parse raw = .ok script ↔ parseLines (unplaced (Text.pieces raw)) = .ok script := by
  have recast : ∀ n ls, (numbered n ls).map (·.recast fun _ => 0) =
      (unplaced ls).map (·.recast fun _ => 0) := by
    intro n ls
    induction ls generalizing n with
    | nil => rfl
    | cons line ls ih => rw [numbered, List.map_cons, ih]; rfl
  have unnumbered : ∀ lines, parseLines lines = .ok script ↔
      parseLines (lines.map (·.recast fun _ => 0)) = .ok script := by
    intro lines
    rw [parseLines_recast]
    cases parseLines lines <;> simp [Except.mapError]
  rw [parse_eq_pieces, unnumbered, recast, ← unnumbered]

theorem codeLines_unplaced_append (ls more : List String) :
    codeLines (unplaced (ls ++ more)) = codeLines (unplaced ls) ++ codeLines (unplaced more) := by
  rw [unplaced, List.map_append, codeLines, List.filter_append]
  rfl

theorem exists_defined_iff (h : Laid (codeLines (unplaced ls)) parts) :
    (∃ entry ∈ definedIn parts, entry.1 = name) ↔ ∃ line ∈ ls, Starts name line := by
  have named : (∃ entry ∈ definedIn parts, entry.1 = name) ↔
      Defined (codeLines (unplaced ls)) name := by
    rw [h.defined_iff, definedIn]
    simp
  rw [named]
  constructor
  · rintro ⟨l, hl, hm, hname⟩
    obtain ⟨line, hline, rfl⟩ := List.mem_map.mp (List.mem_of_mem_filter hl)
    exact ⟨line, hline, hm, hname⟩
  · rintro ⟨line, hline, hm, hname⟩
    have code := not_isComment_of_is (l := ⟨0, line⟩) hm
    have mem : ⟨0, line⟩ ∈ codeLines (unplaced ls) :=
      List.mem_filter.mpr ⟨List.mem_map_of_mem hline, by simpa using code⟩
    exact ⟨_, mem, hm, hname⟩

theorem not_opens (h : ∀ line ∈ ls, Marker.ofLine? line ≠ some .beginFunction) : ¬ Opens ls := by
  rintro ⟨xs, start, body, rfl, hs, -⟩
  exact h start (by simp) hs

theorem opens_of_inSection (h : InSection (codeLines (unplaced ls))) : Opens ls := by
  obtain ⟨pre, start, body, heq, hs, hb⟩ := h
  obtain ⟨xs, ys, hsplit, -, hys⟩ := List.filter_eq_append_iff.mp heq
  obtain ⟨xs', zs, rfl, -, -, rfl⟩ := List.filter_eq_cons_iff.mp hys
  obtain ⟨before, others, rfl, -, hothers⟩ := List.map_eq_append_iff.mp hsplit
  obtain ⟨skipped, ends, rfl, -, hends⟩ := List.map_eq_append_iff.mp hothers
  obtain ⟨line, body, rfl, rfl, rfl⟩ := List.map_eq_cons_iff.mp hends
  refine ⟨before ++ skipped, line, body, by simp, hs, fun l hl hm => ?_⟩
  have code := not_isComment_of_is (l := ⟨0, l⟩) hm
  exact hb ⟨0, l⟩ (List.mem_filter.mpr ⟨List.mem_map_of_mem hl, by simpa using code⟩) hm

theorem section_in_text (hsec : IsSection name sec)
    (h : Laid (codeLines (unplaced (first ++ sec ++ rest))) parts) :
    ∃ ps p qs body, parts = ps ++ p :: qs ∧ p.function? = some (name, body) ∧
      Laid (codeLines (unplaced first)) ps ∧ Laid (codeLines (unplaced sec)) [p] ∧
      Laid (codeLines (unplaced rest)) qs := by
  obtain ⟨start, body, stop, rfl, ⟨hs, hname⟩, hb, he⟩ := hsec
  have code : codeLines (unplaced (start :: (body ++ [stop]))) =
      ⟨0, start⟩ :: (codeLines (unplaced body) ++ [⟨0, stop⟩]) := by
    have starts := not_isComment_of_is (l := ⟨0, start⟩) hs
    have stops := not_isComment_of_is (l := ⟨0, stop⟩) he
    rw [← List.cons_append, codeLines_unplaced_append]
    exact congrArg₂ (· ++ ·) (codeLines_code starts _) (codeLines_code stops [])
  have inner : ∀ l ∈ codeLines (unplaced body), ¬ l.Is .endFunction := by
    intro l hl hm
    obtain ⟨line, hline, rfl⟩ := List.mem_map.mp (List.mem_of_mem_filter hl)
    exact hb line hline hm
  rw [codeLines_unplaced_append, codeLines_unplaced_append, code, List.append_assoc,
    List.cons_append, List.append_assoc, List.singleton_append] at h
  obtain ⟨ps, qs, rfl, hfirst, hrest, whole⟩ := h.section_at hs hname inner he
  refine ⟨ps, _, qs, _, rfl, rfl, hfirst, ?_, hrest⟩
  rw [code]
  exact .function whole.1 whole.2.1 whole.2.2.1 whole.2.2.2 .nil

theorem parseLines_moved (hsec : IsSection name sec)
    (h : parseLines (unplaced (first ++ sec ++ rest)) = .ok script)
    (once : ∀ line ∈ first ++ rest, ¬ Starts name line) (heq : before ++ after = first ++ rest)
    (hout : ¬ Opens before) : parseLines (unplaced (before ++ sec ++ after)) = .ok script := by
  obtain ⟨parts, laid, said⟩ := parseLines_eq_ok_iff.mp h
  obtain ⟨ps, p, qs, body, rfl, hp, hfirst, hmoved, hrest⟩ := section_in_text hsec laid
  have others : Laid (codeLines (unplaced (before ++ after))) (ps ++ qs) := by
    rw [heq, codeLines_unplaced_append]
    exact hfirst.append hrest
  have unnamed : ∀ entry ∈ definedIn (ps ++ qs), entry.1 ≠ name := by
    intro entry hentry hname
    obtain ⟨line, hline, starts⟩ := (exists_defined_iff others).mp ⟨entry, hentry, hname⟩
    exact once line (heq ▸ hline) starts
  rw [codeLines_unplaced_append] at others
  obtain ⟨ps', qs', hparts, hbefore, hafter⟩ :=
    others.cut fun opened => hout (opens_of_inSection opened)
  -- No other part has the name, so it does not matter which of them come after the section.
  have later : ∀ qs'' ⊆ ps ++ qs, ∀ entry ∈ definedIn qs'', entry.1 ≠ name := by
    intro qs'' hsub entry hentry
    obtain ⟨f, hf, rfl⟩ := List.mem_map.mp hentry
    obtain ⟨q, hq, hqf⟩ := List.mem_filterMap.mp hf
    exact unnamed _ (List.mem_map.mpr ⟨f, List.mem_filterMap.mpr ⟨q, hsub hq, hqf⟩, rfl⟩)
  refine parseLines_eq_ok_iff.mpr ⟨ps' ++ p :: qs', ?_, ?_⟩
  · rw [codeLines_unplaced_append, codeLines_unplaced_append, List.append_assoc]
    exact hbefore.append (hmoved.append hafter)
  · cases p with
    | line => cases hp
    | function name' start body' stop =>
      cases hp
      rw [outsideOf_insert, tableOf_of_unnamed (later qs (List.subset_append_right ..))] at said
      rwa [outsideOf_insert, tableOf_of_unnamed (later qs' (hparts ▸ List.subset_append_right ..)),
        ← hparts]

theorem parseLines_without (hsec : IsSection name sec)
    (h : parseLines (unplaced (first ++ sec ++ rest)) = .ok script)
    (again : ∃ line ∈ rest, Starts name line) :
    parseLines (unplaced (first ++ rest)) = .ok script := by
  obtain ⟨parts, laid, said⟩ := parseLines_eq_ok_iff.mp h
  obtain ⟨ps, p, qs, body, rfl, hp, hfirst, -, hrest⟩ := section_in_text hsec laid
  refine parseLines_eq_ok_iff.mpr ⟨ps ++ qs, ?_, ?_⟩
  · rw [codeLines_unplaced_append]
    exact hfirst.append hrest
  · cases p with
    | line => cases hp
    | function name' start body' stop =>
      cases hp
      rwa [outsideOf_insert, tableOf_of_named ((exists_defined_iff hrest).mpr again)] at said

theorem parse_unlines_eq_ok_iff (hne : ls ≠ []) (hn : ∀ line ∈ ls, '\n' ∉ line.toList) :
    parse (Text.unlines ls) = .ok script ↔ parseLines (unplaced ls) = .ok script := by
  rw [parse_eq_ok_iff_unplaced, Text.pieces_unlines hne hn]

theorem outsideOf_sublist (parts : List Part) :
    (outsideOf parts).Sublist (parts.flatMap Part.lines) := by
  induction parts with
  | nil => exact .slnil
  | cons p parts ih =>
    cases p with
    | line l => exact ih.cons_cons l
    | function => exact ih.trans (List.sublist_append_right ..)

theorem said_with_lastBodies (h : parse raw = .ok script) :
    ∃ outside, outside.Sublist (codeOf raw) ∧
      (∀ l : SourceLine, l ∈ outside ↔ l.IsInner ∧ Outside (codeOf raw) l) ∧
      Says script.functions outside script ∧
      ∀ marker (l : SourceLine) text, lookUp script.functions marker l = .ok text ↔
        ∃ name body, l.name? = some name ∧ LastBody (codeOf raw) name body ∧
          bodyText body = text := by
  obtain ⟨parts, laid, said⟩ := parse_eq_ok_iff.mp h
  have functions : script.functions = tableOf (definedIn parts) := by
    obtain ⟨-, -, -, functions⟩ := said
    exact functions
  refine ⟨outsideOf parts, laid.lines_eq ▸ outsideOf_sublist parts, fun l => ?_,
    functions ▸ said, fun marker l text => ?_⟩
  · constructor
    · intro hl
      have inner := laid.isInner_of_outside hl
      exact ⟨inner, (laid.outside_iff inner).mpr hl⟩
    · rintro ⟨inner, hout⟩
      exact (laid.outside_iff inner).mp hout
  · rw [functions, lookUp_eq_ok_iff]
    simp only [lookup_definedIn, Option.map_eq_some_iff, laid.lastBody_iff, exists_and_left]

/-- What a script says does not depend on where its sections stand: one whose name is defined once
may stand at any place outside of the others, and one whose name is defined again later may as well
not be there. Every line that names a function finds the last body of the name. -/
theorem sections_stand_anywhere (h : parse raw = .ok script) :
    (∀ name first sec rest, Text.pieces raw = first ++ sec ++ rest → IsSection name sec →
      (∀ line ∈ first ++ rest, ¬ Starts name line) →
        ∀ before after, before ++ after = first ++ rest → ¬ Opens before →
          parse (Text.unlines (before ++ sec ++ after)) = .ok script) ∧
    (∀ name first sec rest, Text.pieces raw = first ++ sec ++ rest → IsSection name sec →
      (∃ line ∈ rest, Starts name line) →
        parse (Text.unlines (first ++ rest)) = .ok script) ∧
    ∃ outside, outside.Sublist (codeOf raw) ∧
      (∀ l : SourceLine, l ∈ outside ↔ l.IsInner ∧ Outside (codeOf raw) l) ∧
      Says script.functions outside script ∧
      ∀ marker (l : SourceLine) text, lookUp script.functions marker l = .ok text ↔
        ∃ name body, l.name? = some name ∧ LastBody (codeOf raw) name body ∧
          bodyText body = text := by
  have parsed := parse_eq_ok_iff_unplaced.mp h
  have clean : ∀ line ∈ Text.pieces raw, '\n' ∉ line.toList := fun _ => Text.notMem_of_mem_pieces
  refine ⟨fun name first sec rest heq hsec once before after hothers hout => ?_,
    fun name first sec rest heq hsec again => ?_, said_with_lastBodies h⟩
  · rw [heq] at parsed clean
    have same : (before ++ sec ++ after).Perm (first ++ sec ++ rest) := by
      calc (before ++ sec ++ after).Perm (sec ++ (before ++ after)) := by
            rw [← List.append_assoc]
            exact List.perm_append_comm.append_right after
        _ = sec ++ (first ++ rest) := by rw [hothers]
        _ |>.Perm (first ++ sec ++ rest) := by
            rw [← List.append_assoc]
            exact List.perm_append_comm.append_right rest
    refine (parse_unlines_eq_ok_iff ?_ fun line hline => clean line (same.mem_iff.mp hline)).mpr
      (parseLines_moved hsec parsed once hothers hout)
    obtain ⟨start, body, stop, rfl, -⟩ := hsec
    simp
  · rw [heq] at parsed clean
    refine (parse_unlines_eq_ok_iff ?_ fun line hline => clean line ?_).mpr
      (parseLines_without hsec parsed again)
    · obtain ⟨line, hline, -⟩ := again
      exact List.ne_nil_of_mem (List.mem_append_right _ hline)
    · exact ((List.sublist_append_left first sec).append_right rest).subset hline

theorem sections_stand_anywhere_moved :
    let raw := Text.unlines ["RUN_FUNCTION g", "BEGIN_FUNCTION f", "one", "END_FUNCTION",
      "INJECT_FUNCTION f", "two", "BEGIN_FUNCTION g", "old", "END_FUNCTION", "BEGIN_FUNCTION g",
      "new", "END_FUNCTION"]
    let script : Script := ⟨[⟨"new"⟩, ⟨"one\ntwo"⟩], [("f", "one"), ("g", "new")]⟩
    parse raw = .ok script ∧
      parse (Text.unlines ["RUN_FUNCTION g", "INJECT_FUNCTION f", "BEGIN_FUNCTION f", "one",
        "END_FUNCTION", "two", "BEGIN_FUNCTION g", "old", "END_FUNCTION", "BEGIN_FUNCTION g", "new",
        "END_FUNCTION"]) = .ok script ∧
      parse (Text.unlines ["RUN_FUNCTION g", "BEGIN_FUNCTION f", "one", "END_FUNCTION",
        "INJECT_FUNCTION f", "two", "BEGIN_FUNCTION g", "new", "END_FUNCTION"]) = .ok script := by
  intro raw script
  have pieces : Text.pieces raw = ["RUN_FUNCTION g", "BEGIN_FUNCTION f", "one", "END_FUNCTION",
      "INJECT_FUNCTION f", "two", "BEGIN_FUNCTION g", "old", "END_FUNCTION", "BEGIN_FUNCTION g",
      "new", "END_FUNCTION"] :=
    Text.pieces_unlines (by simp) (by decide +kernel)
  have parsed : parse raw = .ok script := by
    rw [parse_eq_ok_iff_unplaced, pieces]
    decide +kernel
  obtain ⟨moves, leaves, -⟩ := sections_stand_anywhere parsed
  refine ⟨parsed, ?_, ?_⟩
  · exact moves "f" ["RUN_FUNCTION g"] ["BEGIN_FUNCTION f", "one", "END_FUNCTION"]
      ["INJECT_FUNCTION f", "two", "BEGIN_FUNCTION g", "old", "END_FUNCTION", "BEGIN_FUNCTION g",
        "new", "END_FUNCTION"]
      pieces
      ⟨"BEGIN_FUNCTION f", ["one"], "END_FUNCTION", rfl, by decide +kernel, by decide +kernel,
        by decide +kernel⟩
      (by decide +kernel) ["RUN_FUNCTION g", "INJECT_FUNCTION f"]
      ["two", "BEGIN_FUNCTION g", "old", "END_FUNCTION", "BEGIN_FUNCTION g", "new", "END_FUNCTION"]
      rfl (not_opens (by decide +kernel))
  · exact leaves "g" ["RUN_FUNCTION g", "BEGIN_FUNCTION f", "one", "END_FUNCTION",
        "INJECT_FUNCTION f", "two"] ["BEGIN_FUNCTION g", "old", "END_FUNCTION"]
      ["BEGIN_FUNCTION g", "new", "END_FUNCTION"] pieces
      ⟨"BEGIN_FUNCTION g", ["old"], "END_FUNCTION", rfl, by decide +kernel, by decide +kernel,
        by decide +kernel⟩
      ⟨"BEGIN_FUNCTION g", by decide, by decide +kernel⟩

end

end Script

end BrowserAgent
