import BrowserAgent.Proofs.FrameBrackets
import BrowserAgent.Proofs.GateEscapes
import BrowserAgent.Proofs.Rehearsed

/-!
# The order of evaluation

Apart from the frames, a program gives a browser one command for each call that is written in it, in
the order of evaluation: statement by statement, and the arguments of a call before the call. A
failure on the way leaves out the rest.
-/

namespace BrowserAgent

open BrowserAgent.Action

variable {σ : Type}

/-- The names of the commands that are given for calls, so of those that switch no frame. -/
def callNames (commands : List Command) : List String :=
  (commands.filter fun c => !c.switchesFrame).map Command.name

section

variable {c : Command} {op : Operation} {commands : List Command}

theorem callNames_append (commands more : List Command) :
    callNames (commands ++ more) = callNames commands ++ callNames more := by
  rw [callNames, List.filter_append, List.map_append]
  rfl

@[simp]
theorem callNames_nil : callNames [] = [] := rfl

theorem callNames_switch (h : c.switchesFrame = true) :
    callNames (c :: commands) = callNames commands := by
  simp [callNames, h]

theorem callNames_call (h : c.IsFor op) :
    callNames (c :: commands) = op.commandName :: callNames commands := by
  simp [callNames, h.switchesFrame, h.name]

theorem callNames_framed (h : c.IsFor op) (frame : String) :
    callNames (Block.framed frame c).calls = [op.commandName] := by
  rw [Block.calls, callNames_switch rfl, callNames_call h, callNames_switch rfl, callNames_nil]

end

namespace Surface

variable {s : Surface σ} {op : Operation} {ops : List Operation} {state after : σ} {b : Block}
  {blocks : List Block} {ending : TrailEnd} {fault : Option Fault}

/-! ## Names -/

theorem Serves.callNames_prefix (h : s.Serves op state b fault) :
    callNames b.calls <+: [op.commandName] := by
  cases h with
  | bare hc => simp [Block.calls, callNames_call hc]
  | framed hc => simp [callNames_framed hc]
  | unentered =>
    rw [Block.calls, callNames_switch rfl]
    exact List.nil_prefix

theorem Serves.callNames_eq (h : s.Serves op state b none) :
    callNames b.calls = [op.commandName] := by
  generalize hf : (none : Option Fault) = fault at h
  cases h with
  | bare hc => rw [Block.calls, callNames_call hc, callNames_nil]
  | framed hc => exact callNames_framed hc _
  | unentered => cases hf

theorem Trail.callNames_prefix (h : s.Trail ops state blocks after ending) :
    callNames (blocks.flatMap Block.calls) <+: ops.map Operation.commandName := by
  induction h with
  | done | halted => exact List.nil_prefix
  | failed serves =>
    rw [List.flatMap_singleton, List.map_cons]
    exact serves.callNames_prefix.trans (List.prefix_append [_] _)
  | passed serves _ ih =>
    rw [List.flatMap_cons, callNames_append, serves.callNames_eq, List.map_cons]
    exact (List.prefix_append_right_inj [_]).mpr ih

theorem Trail.callNames_eq (h : s.Trail ops state blocks after .done) :
    callNames (blocks.flatMap Block.calls) = ops.map Operation.commandName := by
  generalize he : TrailEnd.done = ending at h
  induction h with
  | done => rfl
  | halted | failed => cases he
  | passed serves _ ih =>
    rw [List.flatMap_cons, callNames_append, serves.callNames_eq, ih he]
    rfl

/-! ## Failures -/

theorem Serves.stopsAtFault (h : s.Serves op state b fault) : s.StopsAtFault b.calls state := by
  have alone (c : Command) (state : σ) : s.StopsAtFault [c] state :=
    s.stopsAtFault_cons (by simp) (s.stopsAtFault_nil _)
  cases h with
  | bare | unentered => exact alone _ _
  | framed _ _ entered =>
    refine s.stopsAtFault_cons (absurd entered) ?_
    exact s.stopsAtFault_cons (by simp) (alone _ _)

/-- After a block without a fault the surface goes on as if it had been the first. -/
theorem Serves.stopsAtFault_append {commands : List Command} (h : s.Serves op state b none)
    (more : s.StopsAtFault commands (s.given b.calls state)) :
    s.StopsAtFault (b.calls ++ commands) state := by
  generalize hf : (none : Option Fault) = fault at h
  cases h with
  | bare => exact s.stopsAtFault_cons (absurd hf.symm) more
  | framed _ _ entered =>
    obtain ⟨performed, left⟩ := Option.or_eq_none_iff.mp hf.symm
    refine s.stopsAtFault_cons (absurd entered) ?_
    refine s.stopsAtFault_cons (absurd performed) ?_
    exact s.stopsAtFault_cons (absurd (Option.map_eq_none_iff.mp left)) more
  | unentered => cases hf

theorem Trail.stopsAtFault (h : s.Trail ops state blocks after ending) :
    s.StopsAtFault (blocks.flatMap Block.calls) state := by
  induction h with
  | done | halted => exact s.stopsAtFault_nil _
  | failed serves =>
    rw [List.flatMap_singleton]
    exact serves.stopsAtFault
  | passed serves _ ih =>
    rw [List.flatMap_cons]
    exact serves.stopsAtFault_append ih

end Surface

/-! ## Programs -/

theorem Action.writable_of_parse {text : String} {p : Program} (h : parse text = .ok p) :
    ∀ s ∈ p.statements, s.expr.Writable := by
  intro s hs
  obtain ⟨part, phrase, -, hpart, hm⟩ := spelled_of_parse h s hs
  exact hpart.writable hm

theorem Program.postorder_perm_operations (p : Program) : p.postorder.Perm p.operations :=
  List.Perm.flatMap_left _ fun s _ => Expr.postorder_perm s.expr

namespace Rehearsal

/-- The calls that a program makes are the first of those that are written in it, in the order of
evaluation, and all of them if it succeeds; with a failure they end. -/
theorem calls_in_order {text : String} {p : Program} (parsed : parse text = .ok p)
    (r : Rehearsal) :
    let result := ((surface.runProgram p).run r).1
    let after := ((surface.runProgram p).run r).2
    p.postorder.Perm p.operations ∧ ∃ made,
      after.calls = r.calls ++ made ∧
        callNames made <+: p.postorder.map Operation.commandName ∧
        (∀ bindings, result = .ok bindings →
          callNames made = p.postorder.map Operation.commandName) ∧
        surface.StopsAtFault made r := by
  intro result after
  obtain ⟨ops, conducts, complete⟩ := Surface.runProgram_conducts (s := surface) p
  obtain rfl := complete (writable_of_parse parsed)
  obtain ⟨blocks, trail⟩ := conducts r
  refine ⟨p.postorder_perm_operations, _, calls_of_trail trail, trail.callNames_prefix, ?_,
    trail.stopsAtFault⟩
  intro bindings succeeded
  have done : TrailEnd.of ActionFailure.fault? result = .done := by
    rw [succeeded]
    rfl
  rw [show TrailEnd.of ActionFailure.fault? ((surface.runProgram p).run r).1 = _ from done] at trail
  exact trail.callNames_eq

/-! ## A call in a call -/

theorem spells_unary (op : Operation) {cs : List Char} {phrase : Phrase} (h : Spells cs phrase) :
    Spells (op.name.toList ++ '(' :: (cs ++ [')'])) (.call op.name [(none, phrase)]) := by
  have whole := Spells.call op.isName_name .nil isGap_nil
    (.cons isGap_nil (.positional h) (.nil isGap_nil))
  simpa using whole

theorem means_unary (op : Operation) {phrase : Phrase} {e : Expr} {order : ArgOrder}
    (one : op.params.length = 1) (h : Means order phrase e) :
    Means order (.call op.name [(none, phrase)]) (.call op [some e]) := by
  have placed : Places op 0 [none] [0] := .position (by omega) .nil
  refine .call (.inl rfl) (.inr (by simp)) (.cons h .nil) ⟨⟨[0], placed, by simp, ?_⟩, ?_⟩
  · rw [one]
    rfl
  · intro slot param _ _
    cases slot <;> simp

theorem renders_clickDescribed :
    Renders .keywordsLast "click(find_element_by_description(\"a\"))" none
      (.call .click [some (.call .findElementByDescription [some (.text "a")])]) := by
  have text : Spells "\"a\"".toList (.text "a") :=
    @Spells.text '"' [.plain 'a'] (.inl rfl) (by simp [Piece.Fits])
  have clicked := spells_unary .click (spells_unary .findElementByDescription text)
  refine ⟨by simp, _, .mk .none clicked .nil, ?_⟩
  exact means_unary .click rfl (means_unary .findElementByDescription rfl .text)

theorem parse_clickDescribed :
    parse "click(find_element_by_description(\"a\"))" = .ok clickDescribed := by
  refine parse_of_line (by decide) (by decide) (by decide) ?_
  have trim : Text.trim "click(find_element_by_description(\"a\"))" =
      "click(find_element_by_description(\"a\"))" := by decide
  have trimmed := Text.trimmed_trim (s := "click(find_element_by_description(\"a\"))")
  rw [trim] at trimmed
  exact (readStatement_iff_renders trimmed).mpr renders_clickDescribed

/-- The element is found before it is clicked. -/
theorem found_before_click :
    parse "click(find_element_by_description(\"a\"))" = .ok clickDescribed ∧
      callNames ((surface.runProgram clickDescribed).run Rehearsal.new).2.calls =
        ["find_element_by_description", "click"] := by
  obtain ⟨-, made, logged, -, whole, -⟩ := calls_in_order parse_clickDescribed Rehearsal.new
  refine ⟨parse_clickDescribed, ?_⟩
  rw [logged, callNames_append, whole [] rfl]
  rfl

end Rehearsal

end BrowserAgent
