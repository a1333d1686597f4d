import BrowserAgent.Proofs.CallBlocks
import BrowserAgent.Surface.Transcript

/-!
# The addresses in a transcript

Every entry of a transcript holds the page it was made on: the address that was opened last before
it. An address is entered with a scheme if it begins with one or does not begin like one, so the
only entries without a scheme come from an address that begins with the letters of a scheme and no
more.
-/

namespace BrowserAgent

/-- The address that the command opens. -/
def Command.url? : Command → Option String
  | .navigate url => some url
  | _ => none

def HasScheme (url : String) : Prop :=
  "http://".toList <+: url.toList ∨ "https://".toList <+: url.toList

instance (url : String) : Decidable (HasScheme url) := inferInstanceAs (Decidable (_ ∨ _))

namespace TranscriptEntry

/-- The members of the line, names in ascending order. -/
def members (e : TranscriptEntry) : List (String × JsonValue) :=
  [("args", .object (args e.command)), ("frame", textOrNull e.frame),
    ("op", .text e.command.name), ("url", textOrNull e.url)]

theorem line_eq (e : TranscriptEntry) : e.line = (JsonValue.object e.members).compact := rfl

/-- The line has the address, as an argument of its command or as the page it was given on. -/
def Shows (e : TranscriptEntry) (url : String) : Prop :=
  ("url", JsonValue.text url) ∈ args e.command ∨ ("url", JsonValue.text url) ∈ e.members

/-- The address opened last among the entries. -/
def lastUrl? (entries : List TranscriptEntry) : Option String :=
  (entries.filterMap fun e => e.command.url?).getLast?

section

variable {e : TranscriptEntry} {entries : List TranscriptEntry} {url : String}

theorem shows_iff : e.Shows url ↔ e.command.url? = some url ∨ e.url = some url := by
  have page : ("url", JsonValue.text url) ∈ e.members ↔ e.url = some url := by
    cases h : e.url <;> simp [members, textOrNull, h, eq_comm]
  have argument : ("url", JsonValue.text url) ∈ args e.command ↔ e.command.url? = some url := by
    cases e.command <;> simp [args, Command.url?, eq_comm]
  rw [Shows, page, argument]

theorem lastUrl?_concat : lastUrl? (entries ++ [e]) = e.command.url?.or (lastUrl? entries) := by
  rw [lastUrl?, lastUrl?, List.filterMap_append, List.getLast?_append]
  cases h : e.command.url? <;> simp [h]

end

end TranscriptEntry

namespace Transcript

open TranscriptEntry

variable {t : Transcript} {c : Command} {given url : String}

/-! ## Schemes -/

theorem withScheme_eq (given : String) :
    withScheme given = given ∧ "http".toList <+: given.toList ∨
      withScheme given = "http://" ++ given ∧ ¬ "http".toList <+: given.toList := by
  rw [withScheme, Text.startsWith]
  by_cases h : "http".toList.isPrefixOf given.toList = true
  · rw [if_pos h]
    exact .inl ⟨rfl, List.isPrefixOf_iff_prefix.mp h⟩
  · rw [if_neg h]
    exact .inr ⟨rfl, mt List.isPrefixOf_iff_prefix.mpr h⟩

/-- An address that begins like a scheme is left as it is. -/
theorem hasScheme_withScheme_iff :
    HasScheme (withScheme given) ↔ ("http".toList <+: given.toList → HasScheme given) := by
  rcases withScheme_eq given with ⟨same, begins⟩ | ⟨added, other⟩
  · rw [same]
    exact ⟨fun h _ => h, fun h => h begins⟩
  · have scheme : HasScheme (withScheme given) := by
      rw [added, HasScheme, String.toList_append]
      exact .inl (List.prefix_append _ _)
    exact ⟨fun _ begins => absurd begins other, fun _ => scheme⟩

/-! ## Commands -/

def noted (t : Transcript) (c : Command) : List TranscriptEntry :=
  if c.switchesFrame then [] else [⟨entered c, t.currentFrame, t.currentUrl⟩]

theorem performed (c : Command) (t : Transcript) :
    let after := ((surface.perform c).run t).2
    after.entries = t.entries ++ t.noted c ∧
      after.currentUrl = (entered c).url?.or t.currentUrl := by
  cases c with
  | enterFrame | exitFrame => exact ⟨(List.append_nil _).symm, rfl⟩
  | _ => exact ⟨rfl, rfl⟩

/-- Every entry holds the address opened last before it, and so does the browser. -/
structure Traced (t : Transcript) : Prop where
  current : t.currentUrl = lastUrl? t.entries
  earlier : ∀ before e later, t.entries = before ++ e :: later → e.url = lastUrl? before

theorem new_traced : new.Traced where
  current := rfl
  earlier before e later h := by simp [new] at h

theorem Traced.perform (h : t.Traced) (c : Command) : ((surface.perform c).run t).2.Traced := by
  obtain ⟨entries, current⟩ := performed c t
  cases hc : c.switchesFrame with
  | true =>
    have same : (entered c).url? = none := by
      cases c with
      | enterFrame | exitFrame => rfl
      | _ => cases hc
    rw [noted, hc, if_pos rfl, List.append_nil] at entries
    rw [same, Option.none_or] at current
    exact ⟨by rw [current, entries, h.current], by rw [entries]; exact h.earlier⟩
  | false =>
    rw [noted, hc, if_neg Bool.false_ne_true] at entries
    refine ⟨by rw [current, entries, lastUrl?_concat, h.current], ?_⟩
    intro before e later split
    rw [entries] at split
    -- The entry is the one that was made now, or an earlier one.
    rcases List.eq_nil_or_concat later with rfl | ⟨later, last, rfl⟩
    · obtain ⟨rfl, same⟩ := List.append_inj' split rfl
      rw [← List.head_eq_of_cons_eq same]
      exact h.current
    · rw [List.concat_eq_append, ← List.cons_append, ← List.append_assoc] at split
      exact h.earlier before e later (List.append_inj' split rfl).1

theorem given_traced (commands : List Command) (h : t.Traced) :
    (surface.given commands t).Traced := by
  induction commands generalizing t with
  | nil => exact h
  | cons c commands ih => exact ih (h.perform c)

/-- Commands that switch no frame are entered, one after the other. -/
theorem given_commands (commands : List Command) (t : Transcript) :
    (surface.given commands t).entries.map (·.command) = t.entries.map (·.command) ++
      (commands.filter fun c => !c.switchesFrame).map entered := by
  induction commands generalizing t with
  | nil => exact (List.append_nil _).symm
  | cons c commands ih =>
    have step : (t.noted c).map (·.command) ++
        (commands.filter fun c => !c.switchesFrame).map entered =
          ((c :: commands).filter fun c => !c.switchesFrame).map entered := by
      cases hc : c.switchesFrame <;> simp [noted, hc]
    rw [show surface.given (c :: commands) t = surface.given commands _ from rfl, ih,
      (performed c t).1, List.map_append, List.append_assoc, step]

/-! ## Addresses -/

theorem url?_entered_iff : (entered c).url? = some url ↔
    ∃ given, c = .navigate given ∧ url = withScheme given := by
  cases c <;> simp [entered, Command.url?, eq_comm]

/-- An entry is for one of the commands. -/
theorem exists_entry_iff {commands : List Command} {P : Command → Prop} :
    (∃ e ∈ (surface.given commands new).entries, P e.command) ↔
      ∃ c ∈ commands, c.switchesFrame = false ∧ P (entered c) := by
  have made := given_commands commands new
  have mem (d : Command) : d ∈ (surface.given commands new).entries.map (·.command) ↔
      ∃ c ∈ commands, c.switchesFrame = false ∧ entered c = d := by
    rw [made]
    simp [new, and_assoc]
  constructor
  · rintro ⟨e, he, hP⟩
    obtain ⟨c, hc, switches, same⟩ := (mem e.command).mp (List.mem_map_of_mem he)
    exact ⟨c, hc, switches, same ▸ hP⟩
  · rintro ⟨c, hc, switches, hP⟩
    obtain ⟨e, he, same⟩ := List.mem_map.mp ((mem (entered c)).mpr ⟨c, hc, switches, rfl⟩)
    exact ⟨e, he, same ▸ hP⟩

theorem exists_opened_iff {commands : List Command} :
    (∃ e ∈ (surface.given commands new).entries, e.command.url? = some url) ↔
      ∃ given, .navigate given ∈ commands ∧ url = withScheme given := by
  rw [exists_entry_iff (P := fun c => c.url? = some url)]
  simp only [url?_entered_iff]
  constructor
  · rintro ⟨_, hc, -, given, rfl, rfl⟩
    exact ⟨given, hc, rfl⟩
  · rintro ⟨given, hc, rfl⟩
    exact ⟨_, hc, rfl, given, rfl, rfl⟩

/-- The addresses that lines have are those that were given to be opened, with their schemes. -/
theorem exists_shown_iff {commands : List Command} :
    (∃ e ∈ (surface.given commands new).entries, e.Shows url) ↔
      ∃ given, .navigate given ∈ commands ∧ url = withScheme given := by
  rw [← exists_opened_iff]
  constructor
  · rintro ⟨e, he, shows⟩
    rcases shows_iff.mp shows with opened | page
    · exact ⟨e, he, opened⟩
    · obtain ⟨before, later, split⟩ := List.append_of_mem he
      rw [(given_traced commands new_traced).earlier before e later split] at page
      obtain ⟨found, hfound, opened⟩ := List.mem_filterMap.mp (List.mem_of_getLast? page)
      exact ⟨found, by rw [split]; exact List.mem_append_left _ hfound, opened⟩
  · rintro ⟨e, he, opened⟩
    exact ⟨e, he, shows_iff.mpr (.inl opened)⟩

/-- A line has the page that the last line before it opened. What is opened is the address as it is
given if that begins with the letters of a scheme, and has one in front if not. So every address in
the lines has a scheme exactly if no address is given that only begins with the letters of one. -/
theorem urls_traced (commands : List Command) :
    let entries := (surface.given commands new).entries
    entries.map (·.command) = (commands.filter fun c => !c.switchesFrame).map entered ∧
      (∀ before e later, entries = before ++ e :: later →
        e.url = (before.filterMap fun e => e.command.url?).getLast?) ∧
      (∀ url, (∃ e ∈ entries, e.Shows url) ↔
        ∃ given, .navigate given ∈ commands ∧ url = withScheme given) ∧
      ((∀ e ∈ entries, ∀ url, e.Shows url → HasScheme url) ↔
        ∀ given, .navigate given ∈ commands → "http".toList <+: given.toList →
          HasScheme given) := by
  intro entries
  refine ⟨given_commands commands new, (given_traced commands new_traced).earlier,
    fun url => exists_shown_iff, ?_⟩
  constructor
  · intro all given hgiven
    obtain ⟨e, he, shows⟩ := exists_shown_iff.mpr ⟨given, hgiven, rfl⟩
    exact hasScheme_withScheme_iff.mp (all e he _ shows)
  · intro all e he url shows
    obtain ⟨given, hgiven, rfl⟩ := exists_shown_iff.mp ⟨e, he, shows⟩
    exact hasScheme_withScheme_iff.mpr (all given hgiven)

/-- An address that begins with the letters of a scheme is taken for one that has it. -/
theorem url_without_scheme :
    ¬ ∀ commands : List Command, ∀ e ∈ (surface.given commands new).entries, ∀ url,
      e.Shows url → HasScheme url := by
  intro all
  have shows : TranscriptEntry.Shows ⟨.navigate "httpbin.org", none, none⟩ "httpbin.org" :=
    shows_iff.mpr (.inl rfl)
  have entry : ⟨.navigate "httpbin.org", none, none⟩ ∈
      (surface.given [.navigate "httpbin.org"] new).entries := by decide
  exact absurd (all _ _ entry _ shows) (by decide)

end Transcript

end BrowserAgent
