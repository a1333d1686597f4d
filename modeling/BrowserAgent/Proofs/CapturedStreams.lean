import BrowserAgent.CommandModel

/-!
# Captured streams

A stream comes to its reader in chunks, cut anywhere. What is captured of it does not depend on the
cuts: it is the start of the stream up to the limit, with the rest counted. So the answer of a
command rests on no more bytes of its outputs than the limit allows.
-/

namespace BrowserAgent

namespace Capture

variable {ε : Type} {limit fuel : Nat} {bytes : List UInt8}
  {reads : List (Except ε (List UInt8))} {fault : Option ε}

/-! ## Chunks -/

/-- The capture of the bytes that have come so far, whatever chunks they came in. -/
def upTo (limit : Nat) (seen : List UInt8) : Capture := ⟨seen.take limit, seen.length - limit⟩

theorem upTo_nil (limit : Nat) : upTo limit [] = ⟨[], 0⟩ := by
  rw [upTo, List.take_nil, List.length_nil, Nat.zero_sub]

theorem upTo_kept (limit : Nat) (seen : List UInt8) :
    (upTo limit seen).kept = seen.take (min limit seen.length) :=
  List.take_eq_take_min

theorem upTo_dropped (limit : Nat) (seen : List UInt8) :
    (upTo limit seen).dropped = seen.length - (upTo limit seen).kept.length := by
  have kept : (upTo limit seen).kept.length = min limit seen.length := List.length_take
  have dropped : (upTo limit seen).dropped = seen.length - limit := rfl
  omega

theorem add_upTo (limit : Nat) (seen chunk : List UInt8) :
    (upTo limit seen).add limit chunk = upTo limit (seen ++ chunk) := by
  -- The limit may lie before the chunk, within it or behind it.
  have room : limit - (seen.take limit).length = limit - seen.length := by
    rw [List.length_take]
    omega
  have dropped : seen.length - limit + (chunk.length - (limit - seen.length)) =
      (seen ++ chunk).length - limit := by
    rw [List.length_append]
    omega
  rw [add, upTo, upTo, room, dropped, ← List.take_append]

/-! ## Streams -/

/-- How a stream comes to its reader, to its end or to a failure. Each read brings some bytes, at
most as many as fit, until one brings none or fails. No reads are made behind that one. -/
inductive Delivers {ε : Type} : List (Except ε (List UInt8)) → List UInt8 → Option ε → Prop
  | exhausted : Delivers [] [] none
  | ended (more : List (Except ε (List UInt8))) : Delivers (.ok [] :: more) [] none
  | failed (e : ε) (more : List (Except ε (List UInt8))) : Delivers (.error e :: more) [] (some e)
  | chunk {chunk bytes : List UInt8} {reads : List (Except ε (List UInt8))} {fault : Option ε} :
    chunk ≠ [] → chunk.length ≤ chunkSize → Delivers reads bytes fault →
      Delivers (.ok chunk :: reads) (chunk ++ bytes) fault

theorem delivers_readsOf (h : bytes.length ≤ fuel) :
    Delivers (readsOf fuel bytes : List (Except ε (List UInt8))) bytes none := by
  induction fuel generalizing bytes with
  | zero =>
    obtain rfl := List.length_eq_zero_iff.mp (Nat.le_zero.mp h)
    exact .exhausted
  | succ fuel ih =>
    cases bytes with
    | nil => exact .exhausted
    | cons b bytes =>
      -- The chunks are as long as can be, so only the last may be shorter.
      have shorter : ((b :: bytes).drop chunkSize).length ≤ fuel := by
        rw [List.length_cons] at h
        rw [List.length_drop, List.length_cons, chunkSize]
        omega
      have nonempty : (b :: bytes).take chunkSize ≠ [] := List.cons_ne_nil _ _
      have delivered := Delivers.chunk nonempty (List.length_take_le _ _) (ih shorter)
      rw [List.take_append_drop] at delivered
      exact delivered

theorem Delivers.readOn_eq (h : Delivers reads bytes fault) (limit : Nat) (seen : List UInt8) :
    readOn limit (upTo limit seen) reads =
      fault.elim (.ok (upTo limit (seen ++ bytes))) .error := by
  -- What has come before stays general: each chunk adds to it.
  induction h generalizing seen with
  | exhausted | ended =>
    rw [List.append_nil]
    rfl
  | failed => rfl
  | chunk hne _ _ ih =>
    rw [readOn, if_neg (mt List.isEmpty_iff.mp hne), add_upTo, ih, List.append_assoc]

theorem Delivers.read_eq (h : Delivers reads bytes fault) (limit : Nat) :
    read limit reads = fault.elim (.ok (upTo limit bytes)) .error := by
  have captured := h.readOn_eq limit []
  rw [upTo_nil, List.nil_append] at captured
  exact captured

theorem ofBytes_eq (limit : Nat) (bytes : List UInt8) :
    ofBytes limit bytes = upTo limit bytes := by
  rw [ofBytes, (delivers_readsOf (Nat.le_refl _)).read_eq]
  rfl

/-- However a stream is cut into chunks, its bytes up to the limit are kept and all others counted.
If a read fails there is the failure and no capture, also where the limit was reached before. -/
theorem chunking_immaterial (limit : Nat) (bytes : List UInt8) :
    let c : Capture := ofBytes limit bytes
    c.kept = bytes.take (min limit bytes.length) ∧ c.dropped = bytes.length - c.kept.length ∧
      (∀ reads : List (Except ε (List UInt8)), Delivers reads bytes none →
        read limit reads = .ok c) ∧
      ∀ (reads : List (Except ε (List UInt8))) (e : ε), Delivers reads bytes (some e) →
        read limit reads = .error e := by
  intro c
  have same : c = upTo limit bytes := ofBytes_eq limit bytes
  rw [same]
  refine ⟨upTo_kept limit bytes, upTo_dropped limit bytes, ?_, ?_⟩
  · intro reads h
    exact h.read_eq limit
  · intro reads e h
    exact h.read_eq limit

/-- The limit is reached within the second chunk, and before the read that fails. -/
theorem chunking_immaterial_within_chunk :
    let bytes : List UInt8 := [1, 2, 3, 4, 5]
    let whole : List (Except String (List UInt8)) := [.ok [1, 2], .ok [3, 4, 5], .ok []]
    let broken : List (Except String (List UInt8)) := [.ok [1, 2, 3, 4], .ok [5], .error "broken"]
    Delivers whole bytes none ∧ read 3 whole = .ok ⟨[1, 2, 3], 2⟩ ∧
      Delivers broken bytes (some "broken") ∧ read 3 broken = .error "broken" := by
  intro bytes whole broken
  have ends : Delivers whole bytes none :=
    .chunk (by decide) (by decide) (.chunk (by decide) (by decide) (.ended []))
  have fails : Delivers broken bytes (some "broken") :=
    .chunk (by decide) (by decide) (.chunk (by decide) (by decide) (.failed "broken" []))
  obtain ⟨-, -, captured, failed⟩ := chunking_immaterial (ε := String) 3 bytes
  exact ⟨ends, captured whole ends, fails, failed broken "broken" fails⟩

end Capture

/-! ## Answers of commands -/

/-- What a command writes beyond the limit is of no account. -/
theorem CommandModel.answer_take (m : CommandModel) (stops : List String) (run : ChildRun) :
    m.answer stops { run with
      stdout := run.stdout.take m.outputLimit
      stderr := run.stderr.take m.outputLimit } = m.answer stops run := by
  have kept (bytes : List UInt8) : (Capture.ofBytes m.outputLimit (bytes.take m.outputLimit)).kept =
      (Capture.ofBytes m.outputLimit bytes).kept := by
    rw [Capture.ofBytes_eq, Capture.ofBytes_eq, Capture.upTo, Capture.upTo, List.take_take,
      Nat.min_self]
  simp only [answer, kept]

end BrowserAgent
