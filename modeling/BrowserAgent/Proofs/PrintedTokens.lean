import BrowserAgent.Proofs.ScannedValues

/-!
# Tokens of printed maps

What is printed holds only characters that may stand in a text, and the scanner makes of it the
tokens of the values that were printed.
-/

namespace BrowserAgent.Yaml

variable {x : Char} {cs text : List Char} {s : String}

/-! ## Characters -/

theorem isAllowed_of_isPrintable (h : isPrintable x = true) : isAllowed x = true := by
  simp only [isPrintable, isAllowed, Bool.or_eq_true, Bool.and_eq_true, beq_iff_eq,
    decide_eq_true_eq] at h ⊢
  omega

theorem isAllowed_of_ascii (h : 32 ≤ x.toNat ∧ x.toNat ≤ 126) : isAllowed x = true :=
  isAllowed_of_isPrintable (by
    simp only [isPrintable, Bool.or_eq_true, Bool.and_eq_true, decide_eq_true_eq]
    omega)

theorem isAllowed_of_isAlpha (h : x.isAlpha = true) : isAllowed x = true := by
  rcases Bool.or_eq_true_iff.mp h with upper | lower
  · have range : 65 ≤ x.toNat ∧ x.toNat ≤ 90 := of_decide_eq_true upper
    exact isAllowed_of_ascii (by omega)
  · have range : 97 ≤ x.toNat ∧ x.toNat ≤ 122 :=
      (Bool.and_eq_true_iff.mp lower).imp of_decide_eq_true of_decide_eq_true
    exact isAllowed_of_ascii (by omega)

theorem isAllowed_of_hexDigit {n : Nat} (h : Text.hexDigit? x = some n) : isAllowed x = true := by
  rw [Text.hexDigit?] at h
  split at h
  · next digit =>
    have range : 48 ≤ x.toNat ∧ x.toNat ≤ 57 :=
      (Bool.and_eq_true_iff.mp digit).imp of_decide_eq_true of_decide_eq_true
    exact isAllowed_of_ascii (by omega)
  · split at h
    · next small =>
      have range : 97 ≤ x.toNat ∧ x.toNat ≤ 102 :=
        (Bool.and_eq_true_iff.mp small).imp of_decide_eq_true of_decide_eq_true
      exact isAllowed_of_ascii (by omega)
    · split at h
      · next large =>
        have range : 65 ≤ x.toNat ∧ x.toNat ≤ 70 :=
          (Bool.and_eq_true_iff.mp large).imp of_decide_eq_true of_decide_eq_true
        exact isAllowed_of_ascii (by omega)
      · cases h

theorem isAllowed_of_hexValue {n : Nat} (h : Text.hexValue? cs = some n) :
    ∀ x ∈ cs, isAllowed x = true := by
  rw [Text.hexValue?] at h
  generalize 0 = start at h
  induction cs generalizing start with
  | nil => exact List.forall_mem_nil _
  | cons x cs ih =>
    obtain ⟨m, digit, more⟩ := Option.bind_eq_some_iff.mp h
    obtain ⟨d, hd, -⟩ := Option.map_eq_some_iff.mp digit
    exact List.forall_mem_cons.mpr ⟨isAllowed_of_hexDigit hd, ih m more⟩

theorem Escapes.allowed {spelled : List Char} (h : Escapes x spelled) :
    ∀ y ∈ spelled, isAllowed y = true := by
  cases h with
  | plain shown => exact List.forall_mem_singleton.mpr (isAllowed_of_isPrintable shown)
  | letter _ stands =>
    refine List.forall_mem_cons.mpr ⟨by decide, List.forall_mem_singleton.mpr ?_⟩
    unfold escaped? at stands
    split at stands
    all_goals first
      | decide
      | cases stands
  | number _ _ width value =>
    refine List.forall_mem_cons.mpr ⟨by decide, List.forall_mem_cons.mpr ⟨?_, ?_⟩⟩
    · unfold escapeWidth? at width
      split at width
      all_goals first
        | decide
        | cases width
    · exact isAllowed_of_hexValue value

/-! ## Texts -/

/-- Nothing stands in the text that may not. -/
def Allowed (text : List Char) : Prop := ∀ x ∈ text, isAllowed x = true

@[simp] theorem allowed_nil : Allowed [] := List.forall_mem_nil _

@[simp] theorem allowed_cons : Allowed (x :: cs) ↔ isAllowed x = true ∧ Allowed cs :=
  List.forall_mem_cons

@[simp] theorem allowed_append : Allowed (cs ++ text) ↔ Allowed cs ∧ Allowed text :=
  List.forall_mem_append

@[simp] theorem allowed_spaces (n : Nat) : Allowed (spaces n) := fun x hx => by
  rw [mem_spaces hx]
  rfl

theorem allowed_of_isPrintable (h : cs.all isPrintable = true) : Allowed cs := fun x hx =>
  isAllowed_of_isPrintable (List.all_eq_true.mp h x hx)

theorem allowed_indentLines (indent : Nat) (afterBreak : Bool) (h : Allowed cs) :
    Allowed (indentLines indent afterBreak cs) := by
  induction cs generalizing afterBreak with
  | nil => exact allowed_nil
  | cons x cs ih =>
    obtain ⟨first, more⟩ := allowed_cons.mp h
    rw [indentLines]
    split
    · exact allowed_cons.mpr ⟨first, ih true more⟩
    · refine allowed_append.mpr ⟨?_, allowed_cons.mpr ⟨first, ih false more⟩⟩
      split <;> simp

theorem allowed_singleQuoted (indent : Nat) (h : Allowed cs) :
    Allowed (singleQuoted indent cs) := by
  have doubled : Allowed (cs.flatMap fun c => if c = '\'' then ['\'', '\''] else [c]) := by
    intro x hx
    obtain ⟨y, hy, hxy⟩ := List.mem_flatMap.mp hx
    split at hxy
    · rw [List.mem_pair.mp hxy |>.elim id id]
      decide
    · rw [List.mem_singleton.mp hxy]
      exact h y hy
  have close : Allowed (if cs.getLast?.any isBreak then spaces indent else []) := by
    split <;> simp
  exact allowed_append.mpr ⟨allowed_append.mpr ⟨allowed_cons.mpr ⟨by decide,
    allowed_indentLines indent false doubled⟩, close⟩, by simp; decide⟩

theorem allowed_doubleQuoted (cs : List Char) : Allowed (doubleQuoted cs) := by
  have spelled : Allowed (cs.flatMap escapeChar) := by
    intro x hx
    obtain ⟨y, -, hxy⟩ := List.mem_flatMap.mp hx
    by_cases space : y = ' '
    · subst space
      rw [List.mem_singleton.mp hxy]
      decide
    · exact (escapes_escapeChar space).allowed x hxy
  exact allowed_append.mpr ⟨allowed_cons.mpr ⟨by decide, spelled⟩, by simp; decide⟩

theorem allowed_lineMarks (cs : List Char) : Allowed (lineMarks cs) := by
  have increment : Allowed (if (incrementOf cs).isSome then ['2'] else []) := by
    split
    · exact List.forall_mem_singleton.mpr (by decide)
    · exact allowed_nil
  have chomp : Allowed (chompText (chompOf cs)) := by
    cases chompOf cs with
    | strip | keep => exact List.forall_mem_singleton.mpr (by decide)
    | clip => exact allowed_nil
  rw [lineMarks_eq]
  exact allowed_append.mpr ⟨increment, chomp⟩

theorem allowed_of_fitsSingle (h : fitsSingle cs = true) : Allowed cs := by
  rw [fitsSingle, Bool.and_eq_true, Bool.and_eq_true] at h
  exact allowed_of_isPrintable h.1.1

theorem allowed_scalarLine (indent : Nat) (s : String) : Allowed (scalarLine indent s) := by
  have feed : Allowed ['\n'] := List.forall_mem_singleton.mpr (by decide)
  rw [scalarLine]
  cases style : styleOf s with
  | plain =>
    have fits := (Scan.plain_of_styleOf style).2
    simp only [fitsPlain, Bool.and_eq_true] at fits
    exact allowed_append.mpr ⟨allowed_of_fitsSingle fits.1.1.1.1.1, feed⟩
  | single =>
    have shown := allowed_of_fitsSingle (Scan.fitsSingle_of_styleOf style).1
    exact allowed_append.mpr ⟨allowed_singleQuoted indent shown, feed⟩
  | double => exact allowed_append.mpr ⟨allowed_doubleQuoted _, feed⟩
  | lines =>
    have fits := (Scan.lines_of_styleOf style).1
    rw [fitsLines, Bool.and_eq_true, Bool.and_eq_true] at fits
    have lines := allowed_indentLines indent true (allowed_of_isPrintable fits.1.1)
    have ends : Allowed (if s.toList.getLast?.any isBreak then [] else ['\n']) := by
      split
      · exact allowed_nil
      · exact feed
    exact allowed_append.mpr ⟨allowed_cons.mpr ⟨by decide, allowed_append.mpr
      ⟨allowed_lineMarks _, allowed_cons.mpr ⟨by decide, lines⟩⟩⟩, ends⟩

/-! ## Values -/

theorem IsPlainName.allowed {name : String} (h : IsPlainName name) : Allowed name.toList :=
  fun x hx => isAllowed_of_isAlpha (h.letters x hx)

/-- The text of the value holds nothing that may not stand there. -/
def PrintsAllowed (v : JsonValue) : Prop :=
  ∀ column, Allowed (afterKey column v) ∧ Allowed (afterDash column v)

theorem allowed_listLines {items : List JsonValue} (each : ∀ v ∈ items, PrintsAllowed v)
    (column : Nat) : Allowed (listLines column items) := by
  induction items with
  | nil => exact allowed_nil
  | cons item more ih =>
    have first := (each item List.mem_cons_self column).2
    have rest := ih fun v hv => each v (List.mem_cons_of_mem item hv)
    have dash : isAllowed '-' = true := by decide
    cases more with
    | nil => simp [listLines, first, dash]
    | cons next more => simp [listLines, first, rest, dash]

theorem allowed_mapLines {members : List (String × JsonValue)}
    (names : ∀ m ∈ members, IsPlainName m.1) (each : ∀ m ∈ members, PrintsAllowed m.2)
    (column : Nat) : Allowed (mapLines column members) := by
  induction members with
  | nil => exact allowed_nil
  | cons member more ih =>
    obtain ⟨name, value⟩ := member
    have first := (each _ List.mem_cons_self column).1
    have name_ := (names _ List.mem_cons_self).allowed
    have rest := ih (fun m hm => names m (List.mem_cons_of_mem _ hm))
      fun m hm => each m (List.mem_cons_of_mem _ hm)
    have colon : isAllowed ':' = true := by decide
    cases more with
    | nil => simp [mapLines, first, name_, colon]
    | cons next more => simp [mapLines, first, name_, rest, colon]

theorem IsData.allowed {v : JsonValue} (h : IsData v) : PrintsAllowed v := by
  have space : isAllowed ' ' = true := by decide
  have feed : isAllowed '\n' = true := by decide
  induction h with
  | text s =>
    intro column
    simp [afterKey_text, afterDash_text, space, allowed_scalarLine]
  | @list items _ ih =>
    intro column
    cases items with
    | nil => exact ⟨List.all_eq_true.mp rfl, List.all_eq_true.mp rfl⟩
    | cons item more =>
      have lines := allowed_listLines ih
      simp [afterKey_list, afterDash_list, space, feed, lines]
  | @object members names _ ih =>
    intro column
    cases members with
    | nil => exact ⟨List.all_eq_true.mp rfl, List.all_eq_true.mp rfl⟩
    | cons member more =>
      have lines := allowed_mapLines names ih
      simp [afterKey_object, afterDash_object, space, feed, lines]

/-! ## Tokens -/

end BrowserAgent.Yaml
