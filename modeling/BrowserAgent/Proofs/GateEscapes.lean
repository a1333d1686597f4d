import BrowserAgent.Action.Program
import BrowserAgent.Proofs.StatementGrammar

/-!
# Tokens of the gate in texts

The gate scans an action as it is written, and a text of the program holds what the escapes in it
stand for. So a text of an accepted program may hold a token of the gate, but only where a
character of the token is written with a backslash before it.
-/

namespace BrowserAgent

open BrowserAgent.Action

/-- The text stands in the expression, at any depth. -/
inductive Expr.HasText (value : String) : Expr → Prop
  | here : HasText value (.text value)
  | slot {op : Operation} {slots : List (Option Expr)} {arg : Expr} : some arg ∈ slots →
    HasText value arg → HasText value (.call op slots)

/-! ## Texts as they are written -/

section

variable {cs : List Char} {phrase : Phrase} {e : Expr} {value : String} {order : ArgOrder}

theorem Action.Spells.quoted_part (hs : Spells cs phrase) (hm : Means order phrase e)
    (h : e.HasText value) :
    ∃ quote pieces, quoted quote pieces <:+: cs ∧ (∀ p ∈ pieces, p.Fits quote) ∧
      value = String.ofList (pieces.map Piece.value) := by
  induction h generalizing cs phrase with
  | here =>
    cases hm
    cases hs with
    | @text quote pieces _ fits => exact ⟨quote, pieces, List.infix_rfl, fits, rfl⟩
  | slot harg _ ih =>
    cases hm with
    | call hop horder hvalues hbound =>
      obtain ⟨found, hfound, hmeans⟩ := (Means.call hop horder hvalues hbound).arg harg
      cases hs with
      | @call name path g inner args _ _ _ hargs =>
        obtain ⟨part, hpart, hin⟩ := hargs.part found hfound
        obtain ⟨quote, pieces, hquoted, fits, hvalue⟩ := ih hpart hmeans
        have : inner <:+: name ++ (path ++ (g ++ '(' :: (inner ++ [')']))) :=
          ⟨name ++ (path ++ (g ++ ['('])), [')'], by simp⟩
        exact ⟨quote, pieces, hquoted.trans (hin.trans this), fits, hvalue⟩

theorem written_of_plain {pieces : List Piece} (h : ∀ p ∈ pieces, ∃ c, p = .plain c) :
    pieces.flatMap Piece.written = pieces.map Piece.value := by
  induction pieces with
  | nil => rfl
  | cons p pieces ih =>
    obtain ⟨⟨c, rfl⟩, hpieces⟩ := List.forall_mem_cons.mp h
    rw [List.flatMap_cons, List.map_cons, ih hpieces]
    rfl

theorem unescape_of_value {c d : Char} (h : unescape c = d) (hd : d ∉ ['\n', '\t']) : c = d := by
  unfold unescape at h
  split at h
  · exact absurd (by simp [← h]) hd
  · split at h
    · exact absurd (by simp [← h]) hd
    · exact h

theorem exists_escaped {pieces : List Piece} {token : List Char}
    (hvalue : pieces.map Piece.value = token) (htoken : ∀ c ∈ token, c ∉ ['\n', '\t'])
    (h : pieces.flatMap Piece.written ≠ token) : ∃ c ∈ token, Piece.escaped c ∈ pieces := by
  by_contra hnone
  refine h (hvalue ▸ written_of_plain fun p hp => ?_)
  cases p with
  | plain c => exact ⟨c, rfl⟩
  | escaped c =>
    have hmem : unescape c ∈ token := hvalue ▸ List.mem_map_of_mem hp
    have : c = unescape c := unescape_of_value rfl (htoken _ hmem)
    exact absurd ⟨c, this ▸ hmem, hp⟩ hnone

end

/-! ## The statements of a program -/

section

variable {n : Nat} {raw action : String} {ls : List String} {statements : List Statement}
  {program : Program}

theorem Action.readLine_eq_some {s : Statement} (h : readLine n raw = .ok (some s)) :
    readStatement (Text.trim raw) = .ok (s.binding, s.expr) := by
  simp only [readLine] at h
  split at h
  · cases h
  · split at h
    · cases h
    · next hread =>
      cases h
      exact hread

theorem Action.mem_statementsFrom (h : statementsFrom n ls = .ok statements) :
    ∀ s ∈ statements, ∃ raw ∈ ls, readStatement (Text.trim raw) = .ok (s.binding, s.expr) := by
  induction ls generalizing n statements with
  | nil =>
    cases h
    simp
  | cons raw more ih =>
    rw [statementsFrom] at h
    cases hline : readLine n raw with
    | error cause => simp [hline, bind, Except.bind] at h
    | ok found =>
      cases hmore : statementsFrom (n + 1) more with
      | error cause => simp [hline, hmore, bind, Except.bind] at h
      | ok later =>
        simp only [hline, hmore, bind, Except.bind, pure, Except.pure, Except.ok.injEq] at h
        subst h
        intro s hs
        rcases List.mem_append.mp hs with hs | hs
        · rw [Option.mem_toList] at hs
          exact ⟨raw, List.mem_cons_self, readLine_eq_some (hline.trans (congrArg _ hs))⟩
        · obtain ⟨found, hfound, hread⟩ := ih hmore s hs
          exact ⟨found, List.mem_cons_of_mem _ hfound, hread⟩

/-- Every statement of a program is spelled on some line of the action. -/
theorem Action.spelled_of_parse (h : parse action = .ok program) :
    ∀ s ∈ program.statements, ∃ part phrase, part <:+: action.toList ∧ Spells part phrase ∧
      Means .keywordsLast phrase s.expr := by
  intro s hs
  obtain ⟨statements, hstatements, rfl⟩ := map_eq_ok_iff.mp h
  obtain ⟨raw, hraw, hread⟩ := mem_statementsFrom hstatements s hs
  obtain ⟨phrase, hline, hm⟩ := ((readStatement_iff_renders Text.trimmed_trim).mp hread).spelled
  obtain ⟨part, hpart, hin⟩ := hline.part
  have : (Text.trim raw).toList <:+: action.toList :=
    Text.trim_infix.trans (Text.infix_of_mem_lines hraw)
  exact ⟨part, phrase, hin.trans this, hpart, hm⟩

/-- Every text of a program stands between quotes in the action. -/
theorem Action.quoted_of_parse (h : parse action = .ok program) :
    ∀ s ∈ program.statements, ∀ value, s.expr.HasText value →
      ∃ quote pieces, quoted quote pieces <:+: action.toList ∧ (∀ p ∈ pieces, p.Fits quote) ∧
        value = String.ofList (pieces.map Piece.value) := by
  intro s hs value hvalue
  obtain ⟨part, phrase, hin, hpart, hm⟩ := spelled_of_parse h s hs
  obtain ⟨quote, pieces, hquoted, fits, heq⟩ := hpart.quoted_part hm hvalue
  exact ⟨quote, pieces, hquoted.trans hin, fits, heq⟩

end

namespace Gate

/-! ## An escaped import -/

/-- A question that the gate accepts and that asks for an import. -/
def escapedImport : String := "query_llm(\"im\\port x\")"

def escapedImportProgram : Program :=
  ⟨[⟨1, escapedImport, none, .call .queryLlm [some (.text "import x")]⟩]⟩

theorem renders_escapedImport :
    Renders .keywordsLast escapedImport none (.call .queryLlm [some (.text "import x")]) := by
  have text : Spells "\"im\\port x\"".toList (.text "import x") :=
    @Spells.text '"' ("im".toList.map Piece.plain ++ Piece.escaped 'p' ::
      "ort x".toList.map Piece.plain) (.inl rfl) (by simp [Piece.Fits])
  have spelled : SpellsLine escapedImport.toList
      (none, .call "query_llm" [(none, .text "import x")]) :=
    .mk .none (@Spells.call "query_llm".toList [] [] _ _ (by decide) .nil isGap_nil
      (.cons isGap_nil (.positional text) (.nil isGap_nil))) .nil
  refine ⟨by simp, _, spelled, ?_⟩
  refine .call (.inl rfl) (.inr (by simp)) (.cons .text .nil) ⟨⟨[0], ?_, by decide, rfl⟩, ?_⟩
  · exact .position (by decide) .nil
  · exact firstMissing_eq_none_iff.mp rfl

theorem parse_escapedImport : Action.parse escapedImport = .ok escapedImportProgram := by
  have trim : Text.trim escapedImport = escapedImport := by decide
  have lines : Text.lines escapedImport = [escapedImport] := by decide
  have read : readStatement escapedImport =
      .ok (none, .call .queryLlm [some (.text "import x")]) := by
    have := (readStatement_iff_renders Text.trimmed_trim).mpr (trim.symm ▸ renders_escapedImport)
    rwa [trim] at this
  have skipped : isSkipped escapedImport = false := by decide
  have line : readLine 1 escapedImport = .ok (some
      ⟨1, escapedImport, none, .call .queryLlm [some (.text "import x")]⟩) := by
    simp only [readLine, trim, skipped, read]
    rfl
  rw [parse, lines, statementsFrom, line, statementsFrom]
  rfl

/-- The gate does not see the import that the text of the program asks for. -/
theorem passes_escaped_import :
    isAccepted escapedImport = true ∧ Action.parse escapedImport = .ok escapedImportProgram ∧
      ∃ s ∈ escapedImportProgram.statements,
        s.expr.HasText "import x" ∧ isAccepted "import x" = false :=
  ⟨by decide, parse_escapedImport, _, List.mem_singleton_self _,
    .slot (List.mem_singleton_self _) .here, by decide⟩

/-! ## Accepted actions -/

/-- In every text of an accepted program, each token of the gate has a character that is written
with a backslash before it. -/
theorem accepted_token_escaped {action : String} {program : Program}
    (accepted : isAccepted action = true) (parsed : Action.parse action = .ok program) :
    ∀ s ∈ program.statements, ∀ value, s.expr.HasText value →
      ∃ quote pieces, quoted quote pieces <:+: action.toList ∧ (∀ p ∈ pieces, p.Fits quote) ∧
        value = String.ofList (pieces.map Piece.value) ∧
        ∀ token ∈ importToken :: denied, ∀ before found after, pieces = before ++ found ++ after →
          found.map Piece.value = token.toList → ∃ c ∈ token.toList, Piece.escaped c ∈ found := by
  intro s hs value hvalue
  obtain ⟨quote, pieces, hquoted, fits, heq⟩ := quoted_of_parse parsed s hs value hvalue
  refine ⟨quote, pieces, hquoted, fits, heq, ?_⟩
  rintro token htoken before found after rfl hfound
  have visible : ∀ token ∈ importToken :: denied,
      token.toList.all (fun c => c != '\n' && c != '\t') = true := by decide
  have inToken (c : Char) (hc : c ∈ token.toList) : c ∉ ['\n', '\t'] := by
    simpa using List.all_eq_true.mp (visible token htoken) c hc
  refine exists_escaped hfound inToken fun hwritten => ?_
  have : found.flatMap Piece.written <:+: quoted quote (before ++ found ++ after) :=
    ⟨quote :: before.flatMap Piece.written, after.flatMap Piece.written ++ [quote],
      by simp [quoted]⟩
  rw [hwritten] at this
  exact (isAccepted_iff action).mp accepted token htoken (this.trans hquoted)

theorem escapedImport_token_escaped :
    ∃ quote pieces, quoted quote pieces <:+: escapedImport.toList ∧
      (∀ p ∈ pieces, p.Fits quote) ∧ "import x" = String.ofList (pieces.map Piece.value) ∧
      ∀ token ∈ importToken :: denied, ∀ before found after, pieces = before ++ found ++ after →
        found.map Piece.value = token.toList → ∃ c ∈ token.toList, Piece.escaped c ∈ found :=
  accepted_token_escaped (by decide) parse_escapedImport _ (List.mem_singleton_self _) "import x"
    (.slot (List.mem_singleton_self _) .here)

end Gate

end BrowserAgent
