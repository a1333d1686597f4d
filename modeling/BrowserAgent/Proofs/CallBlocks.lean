import BrowserAgent.Interpreter
import BrowserAgent.Proofs.RunLaws

/-!
# Blocks of commands

A command to an element in a frame stands between one that enters the frame and one that leaves it,
and any other command stands alone: these are the blocks. A run conducts operations if it gives the
surface one block for each of them, in their order, up to the first in which a command fails.
-/

namespace BrowserAgent

variable {σ : Type}

def failure? {ε α : Type} : Except ε α → Option ε
  | .ok _ => none
  | .error e => some e

/-! ## Commands one after the other -/

namespace Command

def frame? (c : Command) : Option String := c.element?.bind (·.frame)

def switchesFrame : Command → Bool
  | enterFrame _ | exitFrame => true
  | _ => false

end Command

namespace Surface

variable (s : Surface σ)

def fault? (c : Command) (state : σ) : Option Fault := failure? ((s.perform c).run state).1

/-- The state after the commands, also where they fail. -/
def given (commands : List Command) (state : σ) : σ :=
  commands.foldl (fun state c => ((s.perform c).run state).2) state

theorem given_append (commands more : List Command) (state : σ) :
    s.given (commands ++ more) state = s.given more (s.given commands state) :=
  List.foldl_append

/-- Once a command has failed, all that may follow is a command that leaves the frame. -/
def StopsAtFault (commands : List Command) (state : σ) : Prop :=
  ∀ earlier c later, commands = earlier ++ c :: later →
    s.fault? c (s.given earlier state) ≠ none → ∀ d ∈ later, d = .exitFrame

theorem stopsAtFault_nil (state : σ) : s.StopsAtFault [] state := by
  intro earlier c later h
  simp at h

theorem stopsAtFault_cons {c : Command} {commands : List Command} {state : σ}
    (first : s.fault? c state ≠ none → ∀ d ∈ commands, d = .exitFrame)
    (others : s.StopsAtFault commands (s.given [c] state)) :
    s.StopsAtFault (c :: commands) state := by
  intro earlier d later h hd
  cases earlier with
  | nil =>
    obtain ⟨rfl, rfl⟩ := List.cons.inj h
    exact first hd
  | cons c' earlier =>
    obtain ⟨rfl, rest⟩ := List.cons.inj h
    exact others earlier d later rest hd

end Surface

/-! ## Blocks -/

inductive Block where
  | bare (c : Command)
  | framed (frame : String) (c : Command)
  /-- The frame could not be entered, so the command was not given. -/
  | unentered (frame : String)
deriving DecidableEq, Repr

namespace Block

def calls : Block → List Command
  | bare c => [c]
  | framed frame c => [.enterFrame frame, c, .exitFrame]
  | unentered frame => [.enterFrame frame]

/-- The command stands in the frame of its element, and alone if it has none. -/
inductive Fits : Block → Prop
  | bare {c : Command} : c.switchesFrame = false → c.frame? = none → Fits (.bare c)
  | framed {c : Command} {frame : String} : c.switchesFrame = false → c.frame? = some frame →
    Fits (.framed frame c)
  | unentered {frame : String} : Fits (.unentered frame)

end Block

def Operation.commandName : Operation → String
  | .findElement => Operation.findElements.name
  | op => op.name

structure Command.IsFor (c : Command) (op : Operation) : Prop where
  switchesFrame : c.switchesFrame = false
  name : c.name = op.commandName

namespace Surface

variable (s : Surface σ)

/-- In the state a call of the operation gives the block, which ends in the fault, if any. -/
inductive Serves (op : Operation) (state : σ) : Block → Option Fault → Prop
  | bare {c : Command} : c.IsFor op → c.frame? = none →
    Serves op state (.bare c) (s.fault? c state)
  -- A fault of the command wins over one of leaving the frame.
  | framed {c : Command} {frame : String} : c.IsFor op → c.frame? = some frame →
    s.fault? (.enterFrame frame) state = none →
    Serves op state (.framed frame c)
      ((s.fault? c (s.given [.enterFrame frame] state)).or
        ((s.fault? .exitFrame (s.given [.enterFrame frame, c] state)).map .leaving))
  | unentered {frame : String} {fault : Fault} :
    s.fault? (.enterFrame frame) state = some fault →
    Serves op state (.unentered frame) (some (.entering frame fault))

theorem Serves.fits {s : Surface σ} {op : Operation} {state : σ} {b : Block} {fault : Option Fault}
    (h : s.Serves op state b fault) : b.Fits := by
  cases h with
  | bare hc hf => exact .bare hc.switchesFrame hf
  | framed hc hf => exact .framed hc.switchesFrame hf
  | unentered => exact .unentered

theorem inFrame_serves {c : Command} {op : Operation} {frame : String} (hc : c.IsFor op)
    (hf : c.frame? = some frame) (state : σ) :
    ∃ b, s.Serves op state b (failure? ((s.inFrame frame (s.perform c)).run state).1) ∧
      ((s.inFrame frame (s.perform c)).run state).2 = s.given b.calls state := by
  obtain ⟨⟨entered, inside⟩, hentered⟩ : ∃ x, (s.perform (.enterFrame frame)).run state = x :=
    ⟨_, rfl⟩
  simp only [inFrame, ExceptT.run_mk, hentered]
  cases entered with
  | error fault =>
    refine ⟨.unentered frame, .unentered ?_, ?_⟩
    · rw [fault?, hentered]
      rfl
    · simp [Block.calls, given, hentered]
  | ok =>
    obtain ⟨⟨result, before⟩, hc'⟩ : ∃ x, (s.perform c).run inside = x := ⟨_, rfl⟩
    obtain ⟨⟨left, after⟩, hleft⟩ : ∃ x, (s.perform .exitFrame).run before = x := ⟨_, rfl⟩
    -- The frame is left whether or not the command fails, so all three commands are given.
    have passed : s.fault? (.enterFrame frame) state = none := by
      rw [fault?, hentered]
      rfl
    have serves := Serves.framed hc hf passed
    have start : s.given [.enterFrame frame] state = inside := by
      simp [given, hentered]
    have middle : s.given [.enterFrame frame, c] state = before := by
      simp [given, hentered, hc']
    have finish : s.given (Block.framed frame c).calls state = after := by
      simp [Block.calls, given, hentered, hc', hleft]
    rw [start, middle, fault?, fault?, hc', hleft] at serves
    simp only [hc', hleft]
    cases result with
    | error fault => exact ⟨_, serves, finish.symm⟩
    | ok reply =>
      cases left with
      | error fault => exact ⟨_, serves, finish.symm⟩
      | ok => exact ⟨_, serves, finish.symm⟩

theorem address_serves {c : Command} {op : Operation} (hc : c.IsFor op) (state : σ) :
    ∃ b, s.Serves op state b (failure? ((s.address c).run state).1) ∧
      ((s.address c).run state).2 = s.given b.calls state := by
  have alone (hf : c.frame? = none) :
      ∃ b, s.Serves op state b (failure? ((s.perform c).run state).1) ∧
        ((s.perform c).run state).2 = s.given b.calls state :=
    ⟨.bare c, .bare hc hf, rfl⟩
  cases he : c.element? with
  | none =>
    simp only [address, he]
    exact alone (by rw [Command.frame?, he]; rfl)
  | some element =>
    simp only [address, he, inFrameOf]
    have hf : c.frame? = element.frame := by rw [Command.frame?, he]; rfl
    cases hframe : element.frame with
    | none => exact alone (hf.trans hframe)
    | some frame => exact s.inFrame_serves hc (hf.trans hframe) state

end Surface

/-! ## Trails -/

/-- How a run ended. -/
inductive TrailEnd where
  | done
  /-- An error that no command was the cause of. -/
  | halted
  | failed (fault : Fault)
deriving DecidableEq, Repr

def TrailEnd.of {ε α : Type} (view : ε → Option Fault) : Except ε α → TrailEnd
  | .ok _ => done
  | .error e =>
    match view e with
    | some fault => failed fault
    | none => halted

theorem TrailEnd.of_eq_failed {ε α : Type} {view : ε → Option Fault} {result : Except ε α}
    {fault : Fault} (h : TrailEnd.of view result = .failed fault) :
    ∃ e, result = .error e ∧ view e = some fault := by
  cases result with
  | ok => cases h
  | error e =>
    refine ⟨e, rfl, ?_⟩
    rw [TrailEnd.of] at h
    split at h
    · next hview =>
      cases h
      exact hview
    · cases h

/-- From a state to another, the blocks given for the operations, in their order, and how that
ended: only the last block may fail, and operations may be left only if it was not done. -/
inductive Surface.Trail (s : Surface σ) : List Operation → σ → List Block → σ → TrailEnd → Prop
  | done {state : σ} : Trail s [] state [] state .done
  | halted {ops : List Operation} {state : σ} : Trail s ops state [] state .halted
  | failed {op : Operation} {ops : List Operation} {state : σ} {b : Block} {fault : Fault} :
    s.Serves op state b (some fault) →
    Trail s (op :: ops) state [b] (s.given b.calls state) (.failed fault)
  | passed {op : Operation} {ops : List Operation} {state after : σ} {b : Block}
    {blocks : List Block} {ending : TrailEnd} :
    s.Serves op state b none → Trail s ops (s.given b.calls state) blocks after ending →
    Trail s (op :: ops) state (b :: blocks) after ending

namespace Surface.Trail

variable {s : Surface σ} {ops more : List Operation} {state between after : σ}
  {blocks others : List Block} {ending : TrailEnd}

theorem append (h : s.Trail ops state blocks between .done)
    (h' : s.Trail more between others after ending) :
    s.Trail (ops ++ more) state (blocks ++ others) after ending := by
  generalize he : TrailEnd.done = e at h
  induction h with
  | done => exact h'
  | halted => cases he
  | failed => cases he
  | passed serves _ ih => exact .passed serves (ih h' he)

theorem extend (h : s.Trail ops state blocks after ending) (he : ending ≠ .done)
    (more : List Operation) : s.Trail (ops ++ more) state blocks after ending := by
  induction h with
  | done => exact absurd rfl he
  | halted => exact .halted
  | failed serves => exact .failed serves
  | passed serves _ ih => exact .passed serves (ih he)

theorem after_eq (h : s.Trail ops state blocks after ending) :
    after = s.given (blocks.flatMap Block.calls) state := by
  induction h with
  | done | halted => rfl
  | failed => rw [List.flatMap_singleton]
  | passed _ _ ih => rw [List.flatMap_cons, given_append, ih]

theorem fits (h : s.Trail ops state blocks after ending) : ∀ b ∈ blocks, b.Fits := by
  induction h with
  | done | halted => simp
  | failed serves => simpa using serves.fits
  | passed serves _ ih => exact List.forall_mem_cons.mpr ⟨serves.fits, ih⟩

theorem unentered {earlier later : List Block} {frame : String}
    (h : s.Trail ops state (earlier ++ .unentered frame :: later) after ending) :
    later = [] ∧ ∃ fault,
      s.fault? (.enterFrame frame) (s.given (earlier.flatMap Block.calls) state) = some fault ∧
        ending = .failed (.entering frame fault) := by
  generalize hb : earlier ++ .unentered frame :: later = blocks at h
  induction h generalizing earlier with
  | done | halted => simp at hb
  | failed serves =>
    obtain ⟨rfl, hlast⟩ | ⟨_, -, hnil⟩ := List.append_eq_cons_iff.mp hb
    · obtain ⟨rfl, rfl⟩ := List.cons.inj hlast
      cases serves with
      | unentered hfault => exact ⟨rfl, _, hfault, rfl⟩
    · simp at hnil
  | passed serves _ ih =>
    obtain ⟨rfl, hfirst⟩ | ⟨rest, rfl, hrest⟩ := List.append_eq_cons_iff.mp hb
    · obtain ⟨rfl, -⟩ := List.cons.inj hfirst
      cases serves
    · obtain ⟨hlater, fault, hfault, hend⟩ := ih hrest.symm
      refine ⟨hlater, fault, ?_, hend⟩
      rw [List.flatMap_cons, given_append]
      exact hfault

end Surface.Trail

/-! ## Runs that conduct operations -/

namespace Run

variable {ε ε' α β : Type} {s : Surface σ} {ops more : List Operation}

/-- From every state the run gives the surface the blocks of a trail and ends as the trail does,
where an error is seen as the fault that it comes from, if it comes from one. -/
def Conducts (s : Surface σ) (view : ε → Option Fault) (ops : List Operation) (x : Run σ ε α) :
    Prop :=
  ∀ state, ∃ blocks, s.Trail ops state blocks (x.run state).2 (.of view (x.run state).1)

variable {view : ε → Option Fault}

theorem Conducts.pure (value : α) : (Pure.pure value : Run σ ε α).Conducts s view [] :=
  fun _ => ⟨[], .done⟩

theorem Conducts.ofError {e : ε} (h : view e = none) (ops : List Operation) :
    (Run.ofExcept (.error e) : Run σ ε α).Conducts s view ops := by
  intro state
  refine ⟨[], ?_⟩
  show s.Trail ops state [] state (.of view (.error e : Except ε α))
  rw [TrailEnd.of, h]
  exact .halted

theorem Conducts.adapt {view' : ε' → Option Fault} {f : ε → ε'} {x : Run σ ε α}
    (h : x.Conducts s view ops) (hf : ∀ e, view' (f e) = view e) :
    Conducts s view' ops (x.adapt f) := by
  intro state
  obtain ⟨blocks, trail⟩ := h state
  refine ⟨blocks, ?_⟩
  rw [run_adapt]
  have same : TrailEnd.of view' ((x.run state).1.mapError f) = .of view (x.run state).1 := by
    cases (x.run state).1 with
    | error e =>
      show TrailEnd.of view' (.error (f e) : Except ε' α) = .of view (.error e : Except ε α)
      rw [TrailEnd.of, TrailEnd.of, hf]
    | ok => rfl
  rw [same]
  exact trail

theorem Conducts.bind {x : Run σ ε α} {f : α → Run σ ε β} (h : x.Conducts s view ops)
    (hf : ∀ value, (f value).Conducts s view more) : (x >>= f).Conducts s view (ops ++ more) := by
  intro state
  obtain ⟨blocks, trail⟩ := h state
  rw [run_bind]
  rcases hx : x.run state with ⟨e | value, between⟩
  · rw [hx] at trail
    have halted : TrailEnd.of view (.error e : Except ε α) ≠ .done := by
      rw [TrailEnd.of]
      split <;> simp
    exact ⟨blocks, trail.extend halted more⟩
  · rw [hx] at trail
    obtain ⟨others, trail'⟩ := hf value between
    exact ⟨blocks ++ others, trail.append trail'⟩

theorem Conducts.bind_pure {x : Run σ ε α} (h : x.Conducts s view ops) {f : α → β} :
    Conducts s view ops (x >>= fun value => Pure.pure (f value)) := by
  have whole : Conducts s view (ops ++ []) (x >>= fun value => Pure.pure (f value)) :=
    h.bind fun value => Conducts.pure (f value)
  rwa [List.append_nil] at whole

end Run

end BrowserAgent
