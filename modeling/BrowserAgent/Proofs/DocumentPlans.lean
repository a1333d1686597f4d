import BrowserAgent.Proofs.CleanRun
import BrowserAgent.Proofs.JoinedActions
import BrowserAgent.Proofs.PlainBlocks

/-!
# Plans for the document of a history

The steps of a document give back the records that it was made of. Its flat parts are the lines of
all the instructions and of all the actions, each joined to one text: of them the joined texts can be
told, and nothing else.
-/

namespace BrowserAgent

namespace Text

theorem pieces_unlines_flatMap {ts : List String} (h : ts ≠ []) :
    pieces (unlines ts) = ts.flatMap pieces := by
  induction ts with
  | nil => exact absurd rfl h
  | cons t ts ih =>
    cases ts with
    | nil => simp [unlines]
    | cons next more =>
      rw [List.flatMap_cons, ← ih (List.cons_ne_nil _ _), pieces, toList_unlines_cons_cons,
        splitAtChar_append_cons, List.map_append, pieces, pieces]

theorem pieces_injective : Function.Injective pieces := fun s t h => by
  rw [← unlines_pieces s, h, unlines_pieces]

theorem unlines_flatMap_pieces (ts : List String) : unlines (ts.flatMap pieces) = unlines ts := by
  cases ts with
  | nil => rfl
  | cons t ts => rw [← pieces_unlines_flatMap (List.cons_ne_nil t ts), unlines_pieces]

end Text

/-- The texts of all records, joined to one instruction and one action. -/
def ActionRecord.ofAll (records : List ActionRecord) : ActionRecord :=
  ⟨⟨Text.unlines (records.map (·.instruction.text))⟩, Text.unlines (records.map (·.action))⟩

namespace ActionRecord

variable {records : List ActionRecord}

theorem joined_eq (records : List ActionRecord) : joined records = ofAll records := by
  rw [joined, ofAll, Document.flatten, ← Text.unlines_flatMap_pieces (records.map _),
    ← Text.unlines_flatMap_pieces (records.map (·.action)), List.flatMap_map, List.flatMap_map]
  rfl

theorem flatten_eq (h : records ≠ []) :
    Document.flatten records =
      ((ofAll records).instruction.lines, Text.pieces (ofAll records).action) := by
  have hne : ∀ f : ActionRecord → String, records.map f ≠ [] := fun f => by simpa using h
  rw [Document.flatten, ofAll, Instruction.lines, Text.pieces_unlines_flatMap (hne _),
    Text.pieces_unlines_flatMap (hne _), List.flatMap_map, List.flatMap_map]
  rfl

end ActionRecord

namespace Document

variable {records records' : List ActionRecord}

theorem plan_queue (h : records ≠ []) :
    (ofRecords records).plan false =
      .ok (.stepThrough ⟨(records.map (·.instruction)).filter fun i => !i.isBlank, []⟩) := by
  obtain ⟨r, more, rfl⟩ := List.exists_cons_of_ne_nil h
  rfl

theorem withoutSteps_eq (h : records ≠ []) :
    (ofRecords records).withoutSteps = ⟨(ActionRecord.ofAll records).instruction.lines,
      some (Text.pieces (ActionRecord.ofAll records).action), none⟩ := by
  rw [withoutSteps, ofRecords, ActionRecord.flatten_eq h]

/-- The flat parts say as much as the joined texts do. -/
theorem withoutSteps_inj (h : records ≠ []) (h' : records' ≠ []) :
    (ofRecords records).withoutSteps = (ofRecords records').withoutSteps ↔
      ActionRecord.ofAll records = ActionRecord.ofAll records' := by
  rw [withoutSteps_eq h, withoutSteps_eq h']
  constructor
  · intro heq
    -- Both parts are cut at every line end, so the joined texts can be told from them.
    obtain ⟨instructions, actions, -⟩ := Document.mk.inj heq
    rw [ActionRecord.ofAll, ActionRecord.ofAll, ActionRecord.mk.injEq, Instruction.mk.injEq]
    exact ⟨Text.pieces_injective instructions, Text.pieces_injective (Option.some.inj actions)⟩
  · intro heq
    rw [heq]

/-- Of a history in which something did not fail: its document is planned to be replayed as just the
records that did not fail, or to be stepped through with those of their instructions that are not
blank. Without its steps it is planned to be replayed as one record, of the joined instructions and
the joined actions, and a history with other joined texts has other flat parts. -/
theorem ofHistory_plans (h : History) (kept : ∃ r ∈ h.records, r.state ≠ .failed) :
    let records := (h.records.filter (·.state != .failed)).map (·.toActionRecord)
    (ofHistory h).plan true = .ok (.replay records true) ∧
    (ofHistory h).plan false =
      .ok (.stepThrough ⟨(records.map (·.instruction)).filter fun i => !i.isBlank, []⟩) ∧
    (ofHistory h).withoutSteps.plan true = .ok (.replay [.ofAll records] false) ∧
    ∀ records' ≠ [], (ofRecords records').withoutSteps = (ofHistory h).withoutSteps ↔
      ActionRecord.ofAll records' = .ofAll records := by
  intro records
  have document : ofHistory h = ofRecords records := rfl
  have filled : records ≠ [] := by
    obtain ⟨r, hr, hs⟩ := kept
    refine List.ne_nil_of_mem (List.mem_map_of_mem (List.mem_filter.mpr ⟨hr, ?_⟩))
    simpa using hs
  rw [document]
  refine ⟨Agent.plan_ofRecords filled, plan_queue filled, ?_, fun records' filled' =>
    withoutSteps_inj filled' filled⟩
  rw [plan_withoutSteps filled, ActionRecord.joined_eq]

/-- The texts end in line feeds or are empty, and one record failed. -/
theorem ofHistory_plans_of_empty_texts :
    let h : History := ⟨[⟨⟨"Go\n"⟩, "", .confirmed, 1⟩, ⟨⟨"Click"⟩, "click(x)", .failed, 3⟩,
      ⟨⟨""⟩, "wait(1)\n\n", .attempted, 2⟩]⟩
    (∃ r ∈ h.records, r.state ≠ .failed) ∧
      (ofHistory h).plan true =
        .ok (.replay [⟨⟨"Go\n"⟩, ""⟩, ⟨⟨""⟩, "wait(1)\n\n"⟩] true) ∧
      (ofHistory h).plan false = .ok (.stepThrough ⟨[⟨"Go\n"⟩], []⟩) ∧
      (ofHistory h).withoutSteps.plan true =
        .ok (.replay [⟨⟨"Go\n\n"⟩, "\nwait(1)\n\n"⟩] false) := by
  intro h
  have kept : ∃ r ∈ h.records, r.state ≠ .failed := ⟨_, List.mem_cons_self, by decide⟩
  obtain ⟨replay, queue, joined, -⟩ := ofHistory_plans h kept
  have spoken : ([⟨"Go\n"⟩, ⟨""⟩] : List Instruction).filter (fun i => !i.isBlank) = [⟨"Go\n"⟩] := by
    decide +kernel
  have texts : ActionRecord.ofAll [⟨⟨"Go\n"⟩, ""⟩, ⟨⟨""⟩, "wait(1)\n\n"⟩] =
      ⟨⟨"Go\n\n"⟩, "\nwait(1)\n\n"⟩ := by decide +kernel
  refine ⟨kept, replay, queue.trans ?_, joined.trans ?_⟩
  · exact congrArg (fun queue => Except.ok (Plan.stepThrough ⟨queue, []⟩)) spoken
  · exact congrArg (fun r => Except.ok (Plan.replay [r] false)) texts

end Document

end BrowserAgent
