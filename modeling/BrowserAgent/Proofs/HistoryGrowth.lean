import BrowserAgent.History

/-!
# Growth of a history

A history may be changed in any order, also in ways that no session changes it. It gets one record
for each start and loses none. Only the last record changes, and only while it is in flight: a
replacement gives it another action and counts, but never another instruction.
-/

namespace BrowserAgent

/-- What is done to a history. -/
inductive HistoryChange where
  | start (r : ActionRecord)
  | replace (r : ActionRecord)
  | confirm
  | fail
deriving DecidableEq, Repr

namespace HistoryChange

/-- The history behind the change. -/
def apply (h : History) : HistoryChange → History
  | start r => h.start r
  | replace r => (h.replaceCurrent r).2
  | confirm => h.confirmCurrent
  | fail => h.failCurrent

/-- The record that is given back. -/
def answer? (h : History) : HistoryChange → Option AttemptRecord
  | start r => (h.start r).records.getLast?
  | replace r => (h.replaceCurrent r).1
  | confirm | fail => none

def started? : HistoryChange → Option ActionRecord
  | start r => some r
  | replace _ | confirm | fail => none

def isReplacement : HistoryChange → Bool
  | replace _ => true
  | start _ | confirm | fail => false

/-- How the record in flight ends. -/
def ending? : HistoryChange → Option AttemptState
  | confirm => some .confirmed
  | fail => some .failed
  | start _ | replace _ => none

theorem of_ending {c : HistoryChange} {state : AttemptState} (h : c.ending? = some state) :
    c.started? = none ∧ c.isReplacement = false := by
  cases c with
  | start | replace => cases h
  | confirm | fail => exact ⟨rfl, rfl⟩

end HistoryChange

namespace History

open HistoryChange

def afterAll (h : History) (changes : List HistoryChange) : History := changes.foldl apply h

/-- The change replaces the action of the record with this number, which is the last one and in
flight. -/
def replacesAt (n : Nat) (h : History) (c : HistoryChange) : Bool :=
  c.isReplacement && h.current?.isSome && h.records.length == n + 1

/-- How many of the changes replace the action of the record with this number. -/
def replacements (n : Nat) : History → List HistoryChange → Nat
  | _, [] => 0
  | h, c :: more => (replacesAt n h c).toNat + replacements n (c.apply h) more

variable {h h' h'' : History} {c : HistoryChange}

/-! ## One change -/

/-- All that a change can do. -/
inductive Changed : History → HistoryChange → History → Prop
  | started (records : List AttemptRecord) (r : ActionRecord) :
    Changed ⟨records⟩ (.start r) ⟨records ++ [⟨r.instruction, r.action, .attempted, 1⟩]⟩
  | replaced (past : List AttemptRecord) (i : Instruction) (action : String) (n : Nat)
      (r : ActionRecord) :
    Changed ⟨past ++ [⟨i, action, .attempted, n⟩]⟩ (.replace r)
      ⟨past ++ [⟨i, r.action, .attempted, n + 1⟩]⟩
  | ended (past : List AttemptRecord) (i : Instruction) (action : String) (n : Nat)
      (state : AttemptState) (c : HistoryChange) (ends : c.ending? = some state) :
    Changed ⟨past ++ [⟨i, action, .attempted, n⟩]⟩ c ⟨past ++ [⟨i, action, state, n⟩]⟩
  | idle (h : History) (c : HistoryChange) (hs : c.started? = none) (none : h.current? = none) :
    Changed h c h

theorem modifyCurrent_of_none (f : AttemptRecord → AttemptRecord) (none : h.current? = none) :
    h.modifyCurrent f = h := by
  rw [modifyCurrent, none]

theorem changed (h : History) (c : HistoryChange) : Changed h c (c.apply h) := by
  cases hc : h.current? with
  | none =>
    cases c with
    | start r => exact .started h.records r
    | replace | confirm | fail =>
      simp only [apply, replaceCurrent_of_none hc, confirmCurrent, failCurrent,
        modifyCurrent_of_none _ hc]
      exact .idle h _ rfl hc
  | some r =>
    obtain ⟨last, flying⟩ := current?_eq_some_iff.mp hc
    obtain ⟨past, hp⟩ := List.getLast?_eq_some_iff.mp last
    obtain ⟨i, action, state, n⟩ := r
    obtain rfl : state = .attempted := flying
    obtain rfl : h = ⟨past ++ [⟨i, action, .attempted, n⟩]⟩ := by rw [← hp]
    cases c with
    | start r => exact .started _ r
    | replace r =>
      rw [apply, replaceCurrent_append]
      exact .replaced past i action n r
    | confirm =>
      rw [apply, confirmCurrent_append]
      exact .ended past i action n .confirmed _ rfl
    | fail =>
      rw [apply, failCurrent_append]
      exact .ended past i action n .failed _ rfl

theorem Changed.instructions (hc : Changed h c h') :
    h'.records.map (·.instruction) =
      h.records.map (·.instruction) ++ (c.started?.map (·.instruction)).toList := by
  cases hc with
  | started records r => simp [started?]
  | replaced => simp [started?]
  | ended past i action n state c ends => simp [(of_ending ends).1]
  | idle h c hs => simp [hs]

/-- How many actions were made for the record with this number; a record that is to come starts
with one. -/
def attemptsAt (h : History) (n : Nat) : Nat := (h.records[n]?.map (·.attempts)).getD 1

theorem Changed.attemptsAt (hc : Changed h c h') (n : Nat) :
    h'.attemptsAt n = h.attemptsAt n + (replacesAt n h c).toNat := by
  cases hc with
  | started records r =>
    have counts : replacesAt n ⟨records⟩ (.start r) = false := rfl
    rw [counts, History.attemptsAt, History.attemptsAt, List.getElem?_append]
    split
    · rfl
    · next hn =>
      rw [List.getElem?_eq_none (Nat.le_of_not_lt hn)]
      cases hm : n - records.length <;> simp
  | replaced past i action m r =>
    rw [replacesAt, current?_append, History.attemptsAt, History.attemptsAt]
    -- The record in flight is the last one, and only its attempts are counted up.
    rcases Nat.lt_trichotomy n past.length with hn | rfl | hn
    · have : past.length ≠ n := by omega
      simp [isReplacement, List.getElem?_append_left hn, this]
    · simp [isReplacement]
    · have none (x : AttemptRecord) : (past ++ [x])[n]? = none :=
        List.getElem?_eq_none (by rw [List.length_append]; exact hn)
      have : past.length ≠ n := by omega
      rw [none, none]
      simp [isReplacement, this]
  | ended past i action m state c ends =>
    rw [replacesAt, (of_ending ends).2, History.attemptsAt, History.attemptsAt, List.getElem?_append,
      List.getElem?_append]
    split
    · rfl
    · cases n - past.length <;> simp
  | idle h c hs none =>
    rw [replacesAt, none]
    simp

/-- The second history goes on from the first: it keeps every record but the last one, and that too
if it has come to an end. -/
structure Grown (h h' : History) : Prop where
  length_le : h.records.length ≤ h'.records.length
  earlier : h.records.dropLast <+: h'.records
  ended : ∀ (n : Nat) (r : AttemptRecord), h.records[n]? = some r → r.state ≠ .attempted →
    h'.records[n]? = some r

theorem Grown.refl (h : History) : Grown h h :=
  ⟨Nat.le_refl _, List.dropLast_prefix _, fun _ _ hr _ => hr⟩

theorem Grown.trans (first : Grown h h') (second : Grown h' h'') : Grown h h'' where
  length_le := Nat.le_trans first.length_le second.length_le
  earlier := by
    have within : h.records.dropLast <+: h'.records.dropLast := by
      refine List.prefix_of_prefix_length_le first.earlier (List.dropLast_prefix _) ?_
      rw [List.length_dropLast, List.length_dropLast]
      exact Nat.sub_le_sub_right first.length_le 1
    exact within.trans second.earlier
  ended := fun n r hr hs => second.ended n r (first.ended n r hr hs) hs

theorem Changed.grown (hc : Changed h c h') : Grown h h' := by
  -- a last record that is in flight may change, since it has not ended
  have last : ∀ past i action n other, Grown ⟨past ++ [⟨i, action, .attempted, n⟩]⟩
      ⟨past ++ [other]⟩ := by
    intro past i action n other
    refine ⟨by simp, by simp, fun m r hr hs => ?_⟩
    rw [List.getElem?_append] at hr ⊢
    split at hr
    · next hm => rwa [if_pos hm]
    · cases hd : m - past.length with
      | zero =>
        rw [hd] at hr
        cases hr
        exact absurd rfl hs
      | succ d =>
        rw [hd] at hr
        cases hr
  cases hc with
  | started records r =>
    refine ⟨by simp, (List.dropLast_prefix _).trans (List.prefix_append _ _), fun n r hr _ => ?_⟩
    exact List.getElem?_append_left (List.getElem?_eq_some_iff.mp hr).1 ▸ hr
  | replaced past i action n => exact last past i action n _
  | ended past i action n => exact last past i action n _
  | idle => exact .refl _

/-! ## Any changes -/

theorem grown_afterAll (h : History) (changes : List HistoryChange) :
    Grown h (h.afterAll changes) := by
  induction changes generalizing h with
  | nil => exact .refl h
  | cons c changes ih => exact (changed h c).grown.trans (ih (c.apply h))

theorem instructions_afterAll (h : History) (changes : List HistoryChange) :
    (h.afterAll changes).records.map (·.instruction) =
      h.records.map (·.instruction) ++ (changes.filterMap started?).map (·.instruction) := by
  induction changes generalizing h with
  | nil => simp [afterAll]
  | cons c changes ih =>
    have step := (changed h c).instructions
    rw [afterAll, List.foldl_cons, ← afterAll, ih, step, List.append_assoc]
    cases hs : c.started? with
    | none => simp [List.filterMap_cons_none hs]
    | some r => simp [List.filterMap_cons_some hs]

theorem attemptsAt_afterAll (h : History) (changes : List HistoryChange) (n : Nat) :
    (h.afterAll changes).attemptsAt n = h.attemptsAt n + replacements n h changes := by
  induction changes generalizing h with
  | nil => rfl
  | cons c changes ih =>
    rw [afterAll, List.foldl_cons, ← afterAll, ih, (changed h c).attemptsAt, replacements,
      Nat.add_assoc]

theorem finishedInstructions_eq (h : History) :
    h.finishedInstructions = h.records.filterMap
      (fun r => if r.state = .failed then none else some r.instruction) := by
  rw [finishedInstructions, finished]
  induction h.records with
  | nil => rfl
  | cons r records ih =>
    by_cases hs : r.state = .failed
    · simp [hs, ih]
    · simp [hs, ih]

theorem answer?_replace_of_none (none : h.current? = none) (other : ActionRecord) :
    answer? h (.replace other) = .none := by
  rw [answer?, replaceCurrent_of_none none]

/-- A new history has one record for each start, with the instruction that it was started with and
one attempt more than it was replaced while it was the last one and in flight. A record is current
if it is the last one and in flight; otherwise a replacement gives back nothing. Whatever is done to
the history then, the records before the last one stay as they are, and so does a record that has
come to an end. -/
theorem append_only (changes : List HistoryChange) :
    let h := empty.afterAll changes
    let begun := changes.filterMap started?
    h.records.length = begun.length ∧
    h.records.map (·.instruction) = begun.map (·.instruction) ∧
    (∀ (n : Nat) (r : AttemptRecord), h.records[n]? = some r →
      r.attempts = 1 + replacements n empty changes) ∧
    (∀ r, h.current? = some r ↔ h.records.getLast? = some r ∧ r.state = .attempted) ∧
    h.finishedInstructions = h.records.filterMap
      (fun r => if r.state = .failed then none else some r.instruction) ∧
    (∀ r, h.records.getLast? = some r → r.state ≠ .attempted →
      ∀ other, answer? h (.replace other) = none) ∧
    ∀ later,
      h.records.dropLast <+: (h.afterAll later).records ∧
      ∀ (n : Nat) (r : AttemptRecord), h.records[n]? = some r → r.state ≠ .attempted →
        (h.afterAll later).records[n]? = some r := by
  intro h begun
  have instructions : h.records.map (·.instruction) = begun.map (·.instruction) :=
    instructions_afterAll empty changes
  refine ⟨?_, instructions, ?_, fun r => current?_eq_some_iff, finishedInstructions_eq h, ?_, ?_⟩
  · simpa using congrArg List.length instructions
  · intro n r hr
    have attempts := attemptsAt_afterAll empty changes n
    rw [attemptsAt, attemptsAt, hr] at attempts
    exact attempts
  · intro r last ended other
    refine answer?_replace_of_none (Option.eq_none_iff_forall_ne_some.mpr fun r' hr' => ?_) other
    obtain ⟨last', flying⟩ := current?_eq_some_iff.mp hr'
    obtain rfl := Option.some.inj (last.symm.trans last')
    exact ended flying
  · intro later
    exact ⟨(grown_afterAll h later).earlier, (grown_afterAll h later).ended⟩

/-- The second start comes while the first record is in flight, which then stays so; the last record
is confirmed twice and failed. -/
theorem append_only_of_early_start :
    let changes := [.start ⟨⟨"a"⟩, "x"⟩, .replace ⟨⟨"other"⟩, "y"⟩, .start ⟨⟨"b"⟩, "z"⟩, .confirm]
    let h := empty.afterAll changes
    h.records = [⟨⟨"a"⟩, "y", .attempted, 2⟩, ⟨⟨"b"⟩, "z", .confirmed, 1⟩] ∧
      h.records.length = (changes.filterMap started?).length ∧
      answer? h (.replace ⟨⟨"b"⟩, "w"⟩) = none ∧
      (h.afterAll [.confirm, .fail, .replace ⟨⟨"b"⟩, "w"⟩]).records[1]? =
        some ⟨⟨"b"⟩, "z", .confirmed, 1⟩ := by
  intro changes h
  have records : h.records = [⟨⟨"a"⟩, "y", .attempted, 2⟩, ⟨⟨"b"⟩, "z", .confirmed, 1⟩] := by
    decide +kernel
  obtain ⟨length, -, -, -, -, refused, later⟩ := append_only changes
  refine ⟨records, length, refused ⟨⟨"b"⟩, "z", .confirmed, 1⟩ ?_ (by decide) _, ?_⟩
  · exact congrArg List.getLast? records
  · exact (later _).2 1 _ (congrArg (·[1]?) records) (by decide)

end History

end BrowserAgent
