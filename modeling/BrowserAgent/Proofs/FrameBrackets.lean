import BrowserAgent.Proofs.ConductedCalls
import BrowserAgent.Surface.Rehearsal
import Mathlib.Data.List.Sublists

/-!
# Frames around commands

A browser for rehearsals logs every command that it is given, and fails one only for a failure that
it was told of. What a program gives it is made of blocks, so frames are entered and left around one
command at a time. After a program no frame is current, unless one could not be entered: the browser
then stays in it.
-/

namespace BrowserAgent

/-! ## The log of a rehearsal -/

theorem takeFirst?_eq_some {name value : String} {entries rest : List (String × String)}
    (h : takeFirst? name entries = some (value, rest)) :
    (name, value) ∈ entries ∧ rest.Sublist entries := by
  induction entries generalizing rest with
  | nil => cases h
  | cons entry more ih =>
    obtain ⟨other, found⟩ := entry
    rw [takeFirst?] at h
    split at h
    · next hname =>
      cases h
      exact ⟨by simp [hname], List.sublist_cons_self _ _⟩
    · obtain ⟨⟨v, left⟩, htake, heq⟩ := Option.map_eq_some_iff.mp h
      obtain ⟨rfl, rfl⟩ := Prod.mk.inj heq
      obtain ⟨hmem, hsub⟩ := ih htake
      exact ⟨List.mem_cons_of_mem _ hmem, hsub.cons_cons _⟩

namespace Rehearsal

variable {r : Rehearsal} {c : Command} {fault : Fault}

theorem exists_made_reply (r : Rehearsal) (c : Command) :
    ∃ made, (r.reply c).2 = { r with made := made } := by
  cases c with
  | findByDescription description =>
    unfold reply
    split
    · exact ⟨r.made, rfl⟩
    · exact ⟨_, rfl⟩
  | findElements | findNearest => exact ⟨_, rfl⟩
  | _ => exact ⟨r.made, rfl⟩

theorem performed (c : Command) (r : Rehearsal) :
    let after := ((surface.perform c).run r).2
    after.calls = r.calls ++ [c] ∧ after.currentFrame = r.frameAfter c ∧
      after.failures.Sublist r.failures := by
  simp only [surface, perform, ExceptT.run_mk]
  cases htake : takeFirst? c.name r.failures with
  | some found => exact ⟨rfl, rfl, (takeFirst?_eq_some htake).2⟩
  | none =>
    obtain ⟨made, hreply⟩ := exists_made_reply
      { r with calls := r.calls ++ [c], currentFrame := r.frameAfter c } c
    simp only [hreply]
    exact ⟨trivial, trivial, .refl _⟩

theorem fault_told (h : surface.fault? c r = some fault) :
    ∃ reason, fault = .refused reason ∧ (c.name, reason) ∈ r.failures := by
  simp only [Surface.fault?, surface, perform, ExceptT.run_mk] at h
  cases htake : takeFirst? c.name r.failures with
  | some found =>
    rw [htake] at h
    cases h
    exact ⟨found.1, rfl, (takeFirst?_eq_some htake).1⟩
  | none =>
    rw [htake] at h
    cases h

theorem given_calls (commands : List Command) (r : Rehearsal) :
    (surface.given commands r).calls = r.calls ++ commands := by
  induction commands generalizing r with
  | nil => rw [List.append_nil]; rfl
  | cons c commands ih =>
    rw [show surface.given (c :: commands) r = surface.given commands _ from rfl, ih,
      (performed c r).1, List.append_assoc]
    rfl

theorem given_failures (commands : List Command) (r : Rehearsal) :
    (surface.given commands r).failures.Sublist r.failures := by
  induction commands generalizing r with
  | nil => exact .refl _
  | cons c commands ih => exact (ih _).trans (performed c r).2.2

end Rehearsal

/-! ## Blocks -/

namespace Block

variable {blocks blocks' : List Block} {calls : List Command}

theorem flatMap_calls_ne_exitFrame (fits : ∀ b ∈ blocks, b.Fits) :
    blocks.flatMap Block.calls ≠ .exitFrame :: calls := by
  intro h
  cases blocks with
  | nil => cases h
  | cons b blocks =>
    rw [List.flatMap_cons] at h
    cases fits b List.mem_cons_self with
    | bare hc =>
      obtain ⟨rfl, -⟩ := List.cons.inj h
      cases hc
    | framed | unentered => cases h

/-- Calls that start with a command that switches no frame start with the block of the command. -/
theorem eq_bare_of_calls {c : Command} (hc : c.switchesFrame = false)
    (fits : ∀ b ∈ blocks, b.Fits) (h : blocks.flatMap Block.calls = c :: calls) :
    ∃ rest, blocks = .bare c :: rest ∧ rest.flatMap Block.calls = calls := by
  cases blocks with
  | nil => cases h
  | cons b rest =>
    rw [List.flatMap_cons] at h
    cases fits b List.mem_cons_self with
    | bare =>
      obtain ⟨rfl, more⟩ := List.cons.inj h
      exact ⟨rest, rfl, more⟩
    | framed | unentered =>
      obtain ⟨rfl, -⟩ := List.cons.inj h
      cases hc

/-- Calls that start with the entering of a frame start with a block in it, or with the frame that
was not entered. -/
theorem cases_of_enterFrame {frame : String} (fits : ∀ b ∈ blocks, b.Fits)
    (h : blocks.flatMap Block.calls = .enterFrame frame :: calls) :
    (∃ c rest, blocks = .framed frame c :: rest ∧ c.switchesFrame = false ∧
      calls = c :: .exitFrame :: rest.flatMap Block.calls) ∨
    ∃ rest, blocks = .unentered frame :: rest ∧ calls = rest.flatMap Block.calls := by
  cases blocks with
  | nil => cases h
  | cons b rest =>
    rw [List.flatMap_cons] at h
    cases fits b List.mem_cons_self with
    | bare hc =>
      obtain ⟨rfl, -⟩ := List.cons.inj h
      cases hc
    | framed hc =>
      cases h
      exact .inl ⟨_, rest, rfl, hc, rfl⟩
    | unentered =>
      cases h
      exact .inr ⟨rest, rfl, rfl⟩

/-- A frame that was entered for a command is left behind it, and no block starts so. -/
theorem flatMap_calls_ne_left {c : Command} (hc : c.switchesFrame = false)
    (fits : ∀ b ∈ blocks, b.Fits) : blocks.flatMap Block.calls ≠ c :: .exitFrame :: calls := by
  intro h
  obtain ⟨rest, rfl, more⟩ := eq_bare_of_calls hc fits h
  exact flatMap_calls_ne_exitFrame (List.forall_mem_cons.mp fits).2 more

/-- Calls are made of blocks in one way. -/
theorem eq_of_flatMap_calls (fits : ∀ b ∈ blocks, b.Fits) (fits' : ∀ b ∈ blocks', b.Fits)
    (h : blocks.flatMap Block.calls = blocks'.flatMap Block.calls) : blocks = blocks' := by
  induction blocks generalizing blocks' with
  | nil =>
    cases blocks' with
    | nil => rfl
    | cons b' => cases b' <;> cases h
  | cons b blocks ih =>
    obtain ⟨fit, more⟩ := List.forall_mem_cons.mp fits
    cases fit with
    | bare hc =>
      obtain ⟨rest, rfl, same⟩ := eq_bare_of_calls hc fits' h.symm
      rw [ih more (List.forall_mem_cons.mp fits').2 same.symm]
    | framed hc =>
      rcases cases_of_enterFrame fits' h.symm with ⟨c', rest, rfl, -, same⟩ | ⟨rest, rfl, same⟩
      · obtain ⟨rfl, left⟩ := List.cons.inj same
        rw [ih more (List.forall_mem_cons.mp fits').2 (List.cons.inj left).2]
      · exact absurd same.symm (flatMap_calls_ne_left hc (List.forall_mem_cons.mp fits').2)
    | unentered =>
      rcases cases_of_enterFrame fits' h.symm with ⟨c', rest, rfl, hc, same⟩ | ⟨rest, rfl, same⟩
      · exact absurd same (flatMap_calls_ne_left hc more)
      · rw [ih more (List.forall_mem_cons.mp fits').2 same]

end Block

/-! ## Frames left open -/

def Block.leftOpen : Block → Option String
  | .unentered frame => some frame
  | _ => none

/-- The frame that could not be entered, if that was the end. -/
def Fault.unentered? : Fault → Option String
  | .entering frame _ => some frame
  | _ => none

def TrailEnd.unentered? : TrailEnd → Option String
  | .failed fault => fault.unentered?
  | _ => none

def ActionFailure.unentered? (f : ActionFailure) : Option String :=
  f.fault?.bind Fault.unentered?

namespace Rehearsal

variable {r after : Rehearsal} {op : Operation} {ops : List Operation} {b : Block}
  {blocks : List Block} {ending : TrailEnd} {fault : Option Fault}

/-! ## The current frame -/

theorem frameAfter_of_not_switches {c : Command} (h : c.switchesFrame = false) :
    r.frameAfter c = r.currentFrame := by
  cases c with
  | enterFrame | exitFrame => cases h
  | _ => rfl

theorem currentFrame_given (hb : b.Fits) (outside : r.currentFrame = none) :
    (surface.given b.calls r).currentFrame = b.leftOpen := by
  cases hb with
  | bare hc hf =>
    have stays := (performed _ r).2.1.trans (frameAfter_of_not_switches hc)
    exact stays.trans outside
  | framed => exact (performed .exitFrame _).2.1
  | unentered => exact (performed (.enterFrame _) r).2.1

/-- A fault says that a frame could not be entered exactly if the block ends there. -/
theorem unentered?_of_serves (h : surface.Serves op r b fault) :
    fault.bind Fault.unentered? = b.leftOpen := by
  have refused (c : Command) (state : Rehearsal) :
      (surface.fault? c state).bind Fault.unentered? = none := by
    cases hf : surface.fault? c state with
    | none => rfl
    | some fault =>
      obtain ⟨reason, rfl, -⟩ := fault_told hf
      rfl
  cases h with
  | bare => exact refused _ _
  | unentered => rfl
  | @framed c frame _ _ _ =>
    have inside := refused c (surface.given [.enterFrame frame] r)
    cases hf : surface.fault? c (surface.given [.enterFrame frame] r) with
    | some fault => rwa [hf] at inside
    | none =>
      cases surface.fault? .exitFrame (surface.given [.enterFrame frame, c] r) with
      | none => rfl
      | some fault => rfl

theorem currentFrame_of_trail (h : surface.Trail ops r blocks after ending)
    (outside : r.currentFrame = none) : after.currentFrame = ending.unentered? := by
  induction h with
  | done | halted => exact outside
  | failed serves =>
    rw [currentFrame_given serves.fits outside, ← unentered?_of_serves serves]
    rfl
  | passed serves _ ih =>
    -- A block without a fault has left its frame, so the next one starts outside again.
    apply ih
    rw [currentFrame_given serves.fits outside, ← unentered?_of_serves serves]
    rfl

theorem unentered?_of {α : Type} (result : Except ActionFailure α) :
    (TrailEnd.of ActionFailure.fault? result).unentered? =
      (failure? result).bind ActionFailure.unentered? := by
  cases result with
  | ok => rfl
  | error f =>
    simp only [TrailEnd.of, failure?, Option.bind_some, ActionFailure.unentered?]
    cases f.fault? <;> rfl

/-- A frame cannot be entered only for a failure to do so that was told. -/
theorem enterFrame_told (h : surface.Trail ops r blocks after ending) {frame : String}
    (he : ending.unentered? = some frame) : ∃ reason, ("enter_frame", reason) ∈ r.failures := by
  induction h with
  | done | halted => cases he
  | @failed _ _ _ b fault serves =>
    have stopped : (some fault).bind Fault.unentered? = some frame := he
    rw [unentered?_of_serves serves] at stopped
    cases b with
    | bare | framed => cases stopped
    | unentered =>
      cases serves with
      | unentered hfault =>
        obtain ⟨reason, -, told⟩ := fault_told hfault
        exact ⟨reason, told⟩
  | @passed _ _ state _ b _ _ _ _ ih =>
    obtain ⟨reason, told⟩ := ih he
    exact ⟨reason, (given_failures b.calls state).subset told⟩

theorem calls_of_trail (h : surface.Trail ops r blocks after ending) :
    after.calls = r.calls ++ blocks.flatMap Block.calls := by
  rw [h.after_eq, given_calls]

/-! ## Programs -/

/-- Started outside of frames, a program ends in a frame exactly if that frame could not be entered,
which is then what it failed for; and it cannot if no failure to enter a frame was told. -/
theorem frame_after_program (p : Program) {r : Rehearsal} (outside : r.currentFrame = none) :
    let result := ((surface.runProgram p).run r).1
    let after := ((surface.runProgram p).run r).2
    after.currentFrame = (failure? result).bind ActionFailure.unentered? ∧
      ((∀ reason, ("enter_frame", reason) ∉ r.failures) → after.currentFrame = none) := by
  intro result after
  obtain ⟨ops, conducts, -⟩ := Surface.runProgram_conducts (s := surface) p
  obtain ⟨blocks, trail⟩ := conducts r
  have current := currentFrame_of_trail trail outside
  refine ⟨current.trans (unentered?_of result), fun untold => ?_⟩
  cases he : (TrailEnd.of ActionFailure.fault? result).unentered? with
  | none => exact current.trans he
  | some frame =>
    obtain ⟨reason, told⟩ := enterFrame_told trail he
    exact absurd told (untold reason)

/-- The program `click(find_element_by_description("a"))`. -/
def clickDescribed : Program where
  statements := [{
    line := 1
    source := "click(find_element_by_description(\"a\"))"
    binding := none
    expr := .call .click [some (.call .findElementByDescription [some (.text "a")])] }]

/-- The click fails, but the frame of the element is left all the same. -/
theorem frame_left_after_click :
    let r := { Rehearsal.new with failures := [("click", "boom")], elementFrame := some "f" }
    r.currentFrame = none ∧ (∀ reason, ("enter_frame", reason) ∉ r.failures) ∧
      ((surface.runProgram clickDescribed).run r).2.currentFrame = none := by
  intro r
  have outside : r.currentFrame = none := rfl
  have untold : ∀ reason, ("enter_frame", reason) ∉ r.failures := by simp [r]
  exact ⟨outside, untold, (frame_after_program clickDescribed outside).2 untold⟩

/-- The frame of the element cannot be entered, and the browser stays in it. -/
theorem frame_not_always_left :
    ¬ ∀ (p : Program) (r : Rehearsal), r.currentFrame = none →
      ((surface.runProgram p).run r).2.currentFrame = none := by
  intro h
  have left := h clickDescribed
    { Rehearsal.new with failures := [("enter_frame", "boom")], elementFrame := some "f" } rfl
  have stays : ((surface.runProgram clickDescribed).run
      { Rehearsal.new with
        failures := [("enter_frame", "boom")], elementFrame := some "f" }).2.currentFrame =
      some "f" := by
    rfl
  rw [stays] at left
  cases left

/-- The calls of a program are those of blocks, in each of which a command stands in the frame of
its element; a frame that was not entered ends the last of them, and the program. -/
theorem calls_bracketed (p : Program) (r : Rehearsal) :
    let result := ((surface.runProgram p).run r).1
    let after := ((surface.runProgram p).run r).2
    ∃ blocks : List Block,
      after.calls = r.calls ++ blocks.flatMap Block.calls ∧ (∀ b ∈ blocks, b.Fits) ∧
        ∀ earlier frame later, blocks = earlier ++ .unentered frame :: later →
          later = [] ∧ ∃ reason failure,
            surface.fault? (.enterFrame frame)
                (surface.given (earlier.flatMap Block.calls) r) = some (.refused reason) ∧
              result = .error failure ∧
              failure.fault? = some (.entering frame (.refused reason)) := by
  intro result after
  obtain ⟨ops, conducts, -⟩ := Surface.runProgram_conducts (s := surface) p
  obtain ⟨blocks, trail⟩ := conducts r
  refine ⟨blocks, calls_of_trail trail, trail.fits, ?_⟩
  rintro earlier frame later rfl
  obtain ⟨hlater, fault, hfault, hend⟩ := trail.unentered
  obtain ⟨reason, rfl, -⟩ := fault_told hfault
  obtain ⟨failure, hresult, hcause⟩ := TrailEnd.of_eq_failed hend
  exact ⟨hlater, reason, failure, hfault, hresult, hcause⟩

/-- The click stands in the frame of its element; and it is not given if that cannot be entered. -/
theorem click_bracketed_or_unentered :
    let framed := { Rehearsal.new with elementFrame := some "f" }
    let refused := { framed with failures := [("enter_frame", "boom")] }
    (∃ blocks : List Block,
      ((surface.runProgram clickDescribed).run framed).2.calls = blocks.flatMap Block.calls ∧
        (∀ b ∈ blocks, b.Fits) ∧ .framed "f" (.click ⟨"e1", some "f"⟩) ∈ blocks) ∧
      ∃ (blocks : List Block) (failure : ActionFailure),
        ((surface.runProgram clickDescribed).run refused).2.calls = blocks.flatMap Block.calls ∧
          (∀ b ∈ blocks, b.Fits) ∧ .unentered "f" ∈ blocks ∧
          ((surface.runProgram clickDescribed).run refused).1 = .error failure ∧
          failure.fault? = some (.entering "f" (.refused "boom")) := by
  intro framed refused
  have look : Block.Fits (.bare (.findByDescription "a")) := .bare rfl rfl
  obtain ⟨blocks, calls, fits, -⟩ := calls_bracketed clickDescribed framed
  obtain ⟨blocks', calls', fits', stopped⟩ := calls_bracketed clickDescribed refused
  constructor
  · have ran : ((surface.runProgram clickDescribed).run framed).2.calls =
        [Block.bare (.findByDescription "a"), .framed "f" (.click ⟨"e1", some "f"⟩)].flatMap
          Block.calls := by
      decide +kernel
    refine ⟨blocks, calls, fits, ?_⟩
    have click : Block.Fits (.framed "f" (.click ⟨"e1", some "f"⟩)) := .framed rfl rfl
    rw [Block.eq_of_flatMap_calls fits (by simp [look, click]) (calls.symm.trans ran)]
    simp
  · have ran : ((surface.runProgram clickDescribed).run refused).2.calls =
        [Block.bare (.findByDescription "a"), .unentered "f"].flatMap Block.calls := by
      decide +kernel
    obtain rfl := Block.eq_of_flatMap_calls fits' (by simp [look, Block.Fits.unentered])
      (calls'.symm.trans ran)
    obtain ⟨-, reason, failure, told, failed, entering⟩ := stopped [_] "f" [] rfl
    obtain rfl : "boom" = reason := by
      cases told
      rfl
    exact ⟨_, failure, calls', fits', by simp, failed, entering⟩

end Rehearsal

end BrowserAgent
