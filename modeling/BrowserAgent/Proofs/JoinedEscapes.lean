import BrowserAgent.Proofs.DiagnosticShape

/-!
# Escapes that removal joins

Terminal escapes are taken out of a reason in one pass. What stands around an escape that is taken
out may be one itself: an escape that begins, is interrupted by a whole one and then goes on. Nor is
the text read again after the alias has taken the place of a name, and its first letter ends an
escape that lacks only that. In these two ways an escape gets into a diagnostic, and in no other.
-/

namespace BrowserAgent

/-! ## Parts of joined texts -/

namespace Text

variable {c : Char} {e xs ys : List Char} {ls : List String}

theorem prefix_of_prefix_append_cons (hc : c ∉ e) (h : e <+: xs ++ c :: ys) : e <+: xs := by
  rcases List.prefix_or_prefix_of_prefix h (List.prefix_append xs (c :: ys)) with h | ⟨t, rfl⟩
  · exact h
  · rw [List.prefix_append_right_inj] at h
    cases t with
    | nil => simp
    | cons d t =>
      obtain rfl := (List.cons_prefix_cons.mp h).1
      exact absurd (List.mem_append_right _ List.mem_cons_self) hc

theorem infix_of_infix_append_cons (hc : c ∉ e) (h : e <:+: xs ++ c :: ys) :
    e <:+: xs ∨ e <:+: ys := by
  induction xs with
  | nil =>
    rcases List.infix_cons_iff.mp h with h | h
    · have none : e <+: [] := prefix_of_prefix_append_cons hc h
      exact .inl none.isInfix
    · exact .inr h
  | cons x xs ih =>
    rcases List.infix_cons_iff.mp h with h | h
    · exact .inl (prefix_of_prefix_append_cons hc h).isInfix
    · exact (ih h).imp_left List.infix_cons

theorem exists_of_infix_unlines (hne : e ≠ []) (hc : '\n' ∉ e) (h : e <:+: (unlines ls).toList) :
    ∃ l ∈ ls, e <:+: l.toList := by
  induction ls with
  | nil => exact absurd (List.infix_nil.mp h) hne
  | cons l ls ih =>
    cases ls with
    | nil => exact ⟨l, List.mem_cons_self, by simpa [unlines] using h⟩
    | cons next more =>
      rw [toList_unlines_cons_cons] at h
      rcases infix_of_infix_append_cons hc h with h | h
      · exact ⟨l, List.mem_cons_self, h⟩
      · obtain ⟨found, hmem, hin⟩ := ih h
        exact ⟨found, List.mem_cons_of_mem _ hmem, hin⟩

end Text

namespace Diagnostic

/-! ## Escapes -/

/-- An escape character, a bracket, any number of digits, semicolons and question marks, and a
letter. -/
def IsEscape (e : List Char) : Prop :=
  ∃ params letter, e = '\x1b' :: '[' :: (params ++ [letter]) ∧
    (∀ c ∈ params, isEscapeParam c = true) ∧ letter.isAlpha = true

def HasEscape (cs : List Char) : Prop := ∃ e, IsEscape e ∧ e <:+: cs


variable {c letter : Char} {e cs ds params name : List Char} {before : Option Char}

theorem HasEscape.mono (h : HasEscape cs) (hin : cs <:+: ds) : HasEscape ds := by
  obtain ⟨e, he, hpart⟩ := h
  exact ⟨e, he, hpart.trans hin⟩

theorem isEscape_cons (hp : ∀ c ∈ params, isEscapeParam c = true) (hl : letter.isAlpha = true) :
    IsEscape ('\x1b' :: '[' :: (params ++ [letter])) := ⟨params, letter, rfl, hp, hl⟩

theorem alpha_range (h : letter.isAlpha = true) :
    letter.isDigit = false ∧ 0x40 < letter.toNat ∧ letter.toNat < 0x7F := by
  have bounds : 65 ≤ letter.toNat ∧ letter.toNat ≤ 122 := by
    rcases Bool.or_eq_true_iff.mp h with upper | lower
    · have upper : 65 ≤ letter.toNat ∧ letter.toNat ≤ 90 := of_decide_eq_true upper
      omega
    · have lower : 97 ≤ letter.toNat ∧ letter.toNat ≤ 122 :=
        (Bool.and_eq_true_iff.mp lower).imp of_decide_eq_true of_decide_eq_true
      omega
  refine ⟨Bool.eq_false_iff.mpr fun digit => ?_, by omega, by omega⟩
  have digit : 48 ≤ letter.toNat ∧ letter.toNat ≤ 57 :=
    (Bool.and_eq_true_iff.mp digit).imp of_decide_eq_true of_decide_eq_true
  omega

theorem param_range (h : isEscapeParam c = true) : 0x20 < c.toNat ∧ c.toNat < 0x40 := by
  simp only [isEscapeParam, Char.isDigit, Bool.or_eq_true, Bool.and_eq_true, decide_eq_true_eq,
    ge_iff_le, UInt32.le_iff_toNat_le, beq_iff_eq] at h
  rcases h with (h | rfl) | rfl
  · simp at h
    omega
  · decide
  · decide

theorem not_param_of_isAlpha (h : letter.isAlpha = true) : isEscapeParam letter = false := by
  refine Bool.eq_false_iff.mpr fun hp => ?_
  have := (alpha_range h).2.1
  have := (param_range hp).2
  omega

theorem IsEscape.tail_range (h : IsEscape e) :
    ∃ t, e = '\x1b' :: t ∧ ∀ c ∈ t, 0x20 < c.toNat ∧ c.toNat < 0x7F := by
  obtain ⟨params, letter, rfl, hp, hl⟩ := h
  refine ⟨_, rfl, fun c hc => ?_⟩
  rcases List.mem_cons.mp hc with rfl | hc
  · decide
  rcases List.mem_append.mp hc with hc | hc
  · have := param_range (hp c hc)
    omega
  · have := alpha_range hl
    rw [List.mem_singleton.mp hc]
    omega

theorem escapeLength?_of_isEscape (h : IsEscape e) (rest : List Char) :
    escapeLength? (e ++ rest) = some e.length := by
  obtain ⟨params, letter, rfl, hp, hl⟩ := h
  have stop := not_param_of_isAlpha hl
  have drop : (params ++ [letter] ++ rest).dropWhile isEscapeParam = letter :: rest := by
    rw [List.append_assoc, List.dropWhile_append_of_pos hp]
    exact List.dropWhile_cons_of_neg (by simp [stop])
  have take : (params ++ [letter] ++ rest).takeWhile isEscapeParam = params := by
    rw [List.append_assoc, List.takeWhile_append_of_pos hp, List.singleton_append,
      List.takeWhile_cons_of_neg (by simp [stop]), List.append_nil]
  rw [List.cons_append, List.cons_append, escapeLength?, drop, take]
  simp [hl]

theorem exists_of_escapeLength? {n : Nat} (h : escapeLength? cs = some n) :
    ∃ e rest, cs = e ++ rest ∧ IsEscape e ∧ e.length = n := by
  unfold escapeLength? at h
  split at h
  · next cs =>
    split at h
    · next letter rest hd =>
      split at h
      · next hl =>
        refine ⟨'\x1b' :: '[' :: (cs.takeWhile isEscapeParam ++ [letter]), rest, ?_, ?_, ?_⟩
        · rw [List.cons_append, List.cons_append, List.append_assoc, List.singleton_append, ← hd,
            List.takeWhile_append_dropWhile]
        · exact isEscape_cons (fun c hc => List.mem_takeWhile_imp hc) hl
        · simpa using h
      · cases h
    · cases h
  · cases h

/-! ## Removal -/

theorem IsEscape.notMem_tail (h : IsEscape (c :: cs)) : '\x1b' ∉ cs := by
  obtain ⟨t, heq, range⟩ := h.tail_range
  obtain ⟨-, rfl⟩ := List.cons.inj heq
  intro hmem
  exact absurd (range _ hmem).1 (by decide)

theorem IsEscape.eq_of_prefix {e' : List Char} (h : IsEscape e) (h' : IsEscape e') (hp : e' <+: e) :
    e' = e := by
  obtain ⟨rest, rfl⟩ := hp
  have whole := escapeLength?_of_isEscape h []
  rw [List.append_nil, escapeLength?_of_isEscape h' rest, Option.some.injEq, List.length_append]
    at whole
  rw [List.eq_nil_of_length_eq_zero (by omega : rest.length = 0), List.append_nil]

/-- An escape does not reach into the next one. -/
theorem IsEscape.prefix_of_prefix (h : IsEscape e) (hp : e <+: c :: cs ++ '\x1b' :: ds) :
    e <+: c :: cs := by
  cases e with
  | nil => exact List.nil_prefix
  | cons d e =>
    obtain ⟨rfl, tail⟩ := List.cons_prefix_cons.mp hp
    exact List.cons_prefix_cons.mpr ⟨rfl, Text.prefix_of_prefix_append_cons h.notMem_tail tail⟩

/-- The text and what is left of it without its escapes. -/
inductive Strips : List Char → List Char → Prop
  | nil : Strips [] []
  | escape {e cs ds : List Char} (he : IsEscape e) (h : Strips cs ds) : Strips (e ++ cs) ds
  | kept {c : Char} {cs ds : List Char} (hc : escapeLength? (c :: cs) = none) (h : Strips cs ds) :
    Strips (c :: cs) (c :: ds)

theorem dropEscapes_skip (cs rest : List Char) :
    dropEscapes cs.length (cs ++ rest) = dropEscapes 0 rest := by
  induction cs with
  | nil => rfl
  | cons c cs ih => exact ih

theorem dropEscapes_escape (h : IsEscape e) (rest : List Char) :
    dropEscapes 0 (e ++ rest) = dropEscapes 0 rest := by
  have length := escapeLength?_of_isEscape h rest
  obtain ⟨t, rfl, -⟩ := h.tail_range
  rw [List.cons_append] at length ⊢
  rw [dropEscapes, length]
  exact dropEscapes_skip t rest

theorem dropEscapes_kept (h : escapeLength? (c :: cs) = none) :
    dropEscapes 0 (c :: cs) = c :: dropEscapes 0 cs := by
  rw [dropEscapes, h]

theorem dropEscapes_of_ne (h : c ≠ '\x1b') : dropEscapes 0 (c :: cs) = c :: dropEscapes 0 cs := by
  refine dropEscapes_kept (Option.eq_none_iff_forall_ne_some.mpr fun n hn => ?_)
  obtain ⟨e, rest, heq, he, -⟩ := exists_of_escapeLength? hn
  obtain ⟨t, rfl, -⟩ := he.tail_range
  exact h (List.cons.inj heq).1

theorem strips_dropEscapes (cs : List Char) : Strips cs (dropEscapes 0 cs) := by
  induction hn : cs.length using Nat.strong_induction_on generalizing cs with
  | _ n ih =>
    subst hn
    cases cs with
    | nil => exact .nil
    | cons c cs =>
      cases hlen : escapeLength? (c :: cs) with
      | none =>
        rw [dropEscapes_kept hlen]
        exact .kept hlen (ih _ (Nat.lt_succ_self _) cs rfl)
      | some n =>
        obtain ⟨e, rest, heq, he, -⟩ := exists_of_escapeLength? hlen
        rw [heq, dropEscapes_escape he]
        refine .escape he (ih _ ?_ rest rfl)
        obtain ⟨t, rfl, -⟩ := he.tail_range
        rw [heq, List.length_append, List.length_cons]
        omega

theorem dropEscapes_append (cs ds : List Char) :
    dropEscapes 0 (cs ++ '\x1b' :: ds) = dropEscapes 0 cs ++ dropEscapes 0 ('\x1b' :: ds) := by
  have strips := strips_dropEscapes cs
  generalize dropEscapes 0 cs = out at strips ⊢
  induction strips with
  | nil => rfl
  | escape he h ih => rw [List.append_assoc, dropEscapes_escape he, ih]
  | @kept c cs out hc h ih =>
    have kept : escapeLength? (c :: (cs ++ '\x1b' :: ds)) = none := by
      refine Option.eq_none_iff_forall_ne_some.mpr fun n hn => ?_
      obtain ⟨e, rest, heq, he, -⟩ := exists_of_escapeLength? hn
      obtain ⟨rest', heq'⟩ := he.prefix_of_prefix (heq ▸ List.prefix_append e rest)
      rw [← heq', escapeLength?_of_isEscape he] at hc
      cases hc
    rw [List.cons_append, dropEscapes_kept kept, ih, List.cons_append]

/-! ## Broken escapes -/

/-- The characters with whole escapes between them. -/
inductive Strewn : List Char → List Char → Prop
  | nil : Strewn [] []
  | char {cs ds : List Char} (c : Char) (h : Strewn cs ds) : Strewn (c :: cs) (c :: ds)
  | escape {e cs ds : List Char} (he : IsEscape e) (h : Strewn cs ds) : Strewn cs (e ++ ds)

/-- An escape that begins, is interrupted by a whole one and then goes on to its end, perhaps
interrupted again. -/
def IsBroken (cs : List Char) : Prop :=
  ∃ begun other later strewn, begun ≠ [] ∧ later ≠ [] ∧ IsEscape (begun ++ later) ∧
    IsEscape other ∧ Strewn later strewn ∧ cs = begun ++ other ++ strewn

theorem Strips.strewn (h : Strips cs ds) {t : List Char} (ht : t <+: ds) :
    ∃ part, part <+: cs ∧ Strewn t part := by
  induction h generalizing t with
  | nil =>
    obtain rfl := List.prefix_nil.mp ht
    exact ⟨[], List.nil_prefix, .nil⟩
  | @escape e cs ds he h ih =>
    obtain ⟨part, hpart, strewn⟩ := ih ht
    exact ⟨e ++ part, (List.prefix_append_right_inj e).mpr hpart, .escape he strewn⟩
  | @kept c cs ds hc h ih =>
    cases t with
    | nil => exact ⟨[], List.nil_prefix, .nil⟩
    | cons d t =>
      obtain ⟨rfl, later⟩ := List.cons_prefix_cons.mp ht
      obtain ⟨part, hpart, strewn⟩ := ih later
      exact ⟨d :: part, List.cons_prefix_cons.mpr ⟨rfl, hpart⟩, .char d strewn⟩

/-- What is left starts as the text does, up to the first escape that was taken out. -/
theorem Strips.prefix_cases (h : Strips cs ds) {t : List Char} (ht : t <+: ds) :
    t <+: cs ∨ ∃ begun other later strewn, t = begun ++ later ∧ later ≠ [] ∧ IsEscape other ∧
      Strewn later strewn ∧ begun ++ other ++ strewn <+: cs := by
  induction h generalizing t with
  | nil => exact .inl ht
  | @escape e cs ds he h ih =>
    cases t with
    | nil => exact .inl List.nil_prefix
    | cons d t =>
      obtain ⟨part, hpart, strewn⟩ := h.strewn ht
      exact .inr ⟨[], e, d :: t, part, rfl, List.cons_ne_nil _ _, he, strewn,
        (List.prefix_append_right_inj e).mpr hpart⟩
  | @kept c cs ds hc h ih =>
    cases t with
    | nil => exact .inl List.nil_prefix
    | cons d t =>
      obtain ⟨rfl, more⟩ := List.cons_prefix_cons.mp ht
      refine (ih more).imp (fun hp => List.cons_prefix_cons.mpr ⟨rfl, hp⟩) ?_
      rintro ⟨begun, other, later, strewn, rfl, hne, ho, hs, hp⟩
      exact ⟨d :: begun, other, later, strewn, rfl, hne, ho, hs,
        List.cons_prefix_cons.mpr ⟨rfl, hp⟩⟩

theorem Strips.broken (h : Strips cs ds) (he : IsEscape e) (hin : e <:+: ds) :
    ∃ part, IsBroken part ∧ part <:+: cs := by
  induction h with
  | nil =>
    obtain ⟨t, rfl, -⟩ := he.tail_range
    cases List.infix_nil.mp hin
  | escape _ _ ih =>
    obtain ⟨part, hb, hp⟩ := ih hin
    exact ⟨part, hb, hp.trans (List.suffix_append _ _).isInfix⟩
  | @kept c cs ds hc h ih =>
    rcases List.infix_cons_iff.mp hin with hin | hin
    · obtain ⟨t, rfl, -⟩ := he.tail_range
      obtain ⟨rfl, ht⟩ := List.cons_prefix_cons.mp hin
      obtain ⟨rest, hp⟩ | ⟨begun, other, later, strewn, rfl, hne, ho, hs, hp⟩ := h.prefix_cases ht
      · -- an escape that stands there whole would not have been kept
        rw [← hp, ← List.cons_append, escapeLength?_of_isEscape he] at hc
        cases hc
      · exact ⟨_, ⟨'\x1b' :: begun, other, later, strewn, List.cons_ne_nil _ _, hne, he, ho, hs,
          rfl⟩, (List.cons_prefix_cons.mpr ⟨rfl, hp⟩).isInfix⟩
    · obtain ⟨part, hb, hp⟩ := ih hin
      exact ⟨part, hb, List.infix_cons hp⟩

theorem Strewn.dropEscapes (h : Strewn cs ds) (hc : '\x1b' ∉ cs) (rest : List Char) :
    dropEscapes 0 (ds ++ rest) = cs ++ dropEscapes 0 rest := by
  induction h with
  | nil => rfl
  | char c h ih =>
    rw [List.mem_cons, not_or] at hc
    rw [List.cons_append, dropEscapes_of_ne (Ne.symm hc.1), ih hc.2, List.cons_append]
  | escape he h ih => rw [List.append_assoc, dropEscapes_escape he, ih hc]

theorem dropEscapes_of_notMem (hc : '\x1b' ∉ cs) (rest : List Char) :
    dropEscapes 0 (cs ++ rest) = cs ++ dropEscapes 0 rest := by
  induction cs with
  | nil => rfl
  | cons c cs ih =>
    rw [List.mem_cons, not_or] at hc
    rw [List.cons_append, dropEscapes_of_ne (Ne.symm hc.1), ih hc.2, List.cons_append]

theorem IsBroken.hasEscape {part : List Char} (h : IsBroken part) (hin : part <:+: cs) :
    HasEscape (dropEscapes 0 cs) := by
  obtain ⟨begun, other, later, strewn, hbegun, hlater, he, ho, hs, rfl⟩ := h
  obtain ⟨before, rest, rfl⟩ := hin
  obtain ⟨b, begun, rfl⟩ := List.exists_cons_of_ne_nil hbegun
  obtain ⟨t, ht, -⟩ := he.tail_range
  obtain ⟨rfl, -⟩ := List.cons.inj ht
  obtain ⟨u, rfl, -⟩ := ho.tail_range
  have plain : '\x1b' ∉ begun ∧ '\x1b' ∉ later := by
    have : '\x1b' ∉ begun ++ later := he.notMem_tail
    rwa [List.mem_append, not_or] at this
  have kept : escapeLength? ('\x1b' :: begun ++ '\x1b' :: (u ++ (strewn ++ rest))) = none := by
    refine Option.eq_none_iff_forall_ne_some.mpr fun n hn => ?_
    obtain ⟨e, after, heq, he', -⟩ := exists_of_escapeLength? hn
    have hp := he'.prefix_of_prefix (heq ▸ List.prefix_append e after)
    have whole := he.eq_of_prefix he' (hp.trans (List.prefix_append _ later))
    rw [whole] at hp
    have := hp.length_le
    rw [List.length_append] at this
    exact hlater (List.eq_nil_of_length_eq_zero (by omega))
  refine ⟨_, he, dropEscapes 0 before, dropEscapes 0 rest, ?_⟩
  have split : before ++ ('\x1b' :: begun ++ '\x1b' :: u ++ strewn) ++ rest =
      before ++ '\x1b' :: (begun ++ ('\x1b' :: u ++ (strewn ++ rest))) := by simp
  rw [split, dropEscapes_append, dropEscapes_kept (by simpa using kept),
    dropEscapes_of_notMem plain.1, dropEscapes_escape ho, hs.dropEscapes plain.2]
  simp

/-- What is left without the escapes has one exactly if an escape was broken before. -/
theorem hasEscape_dropEscapes_iff :
    HasEscape (dropEscapes 0 cs) ↔ ∃ part, IsBroken part ∧ part <:+: cs := by
  constructor
  · rintro ⟨e, he, hin⟩
    exact (strips_dropEscapes cs).broken he hin
  · rintro ⟨part, hb, hin⟩
    exact hb.hasEscape hin

/-! ## The alias -/

/-- The name stands, where it is replaced, behind an escape that lacks only its letter. -/
def NameCloses (name cs : List Char) : Prop :=
  ∃ before params rest, cs = before ++ '\x1b' :: '[' :: (params ++ rest) ∧
    (∀ c ∈ params, isEscapeParam c = true) ∧
      nameStarts name (('[' :: params).getLast?) rest = true

section

variable {shown t : List Char} {skip : Nat}

theorem toList_surfaceAlias : surfaceAlias.toList = ['e', 'n', 'v'] := rfl

theorem prefix_of_nameStarts (h : nameStarts name before cs = true) : name <+: cs := by
  rw [nameStarts, Bool.and_eq_true, Bool.and_eq_true, List.isPrefixOf_iff_prefix] at h
  exact h.1.2

theorem getLast?_cons_or (c : Char) (cs : List Char) (before : Option Char) :
    (c :: cs).getLast?.or before = cs.getLast?.or (some c) := by
  rw [List.getLast?_cons]
  cases cs.getLast? <;> rfl

theorem replaceName_of_starts (h : nameStarts name before (c :: cs) = true) :
    replaceName name shown before 0 (c :: cs) =
      shown ++ replaceName name shown (some c) (name.length - 1) cs := by
  rw [replaceName, if_pos h]

theorem replaceName_of_not_starts (h : nameStarts name before (c :: cs) = false) :
    replaceName name shown before 0 (c :: cs) = c :: replaceName name shown (some c) 0 cs := by
  rw [replaceName, if_neg (by simp [h])]

/-- What has the alias in it starts as the text does, up to the first name that was replaced. -/
theorem prefix_replaceName (h : t <+: replaceName name shown before 0 cs) :
    t <+: cs ∨ ∃ begun later rest, t = begun ++ later ∧ later ≠ [] ∧ cs = begun ++ rest ∧
      nameStarts name (begun.getLast?.or before) rest = true ∧
        ∃ more, later <+: shown ++ more := by
  induction cs generalizing t before with
  | nil => exact .inl h
  | cons c cs ih =>
    cases t with
    | nil => exact .inl List.nil_prefix
    | cons d t =>
      cases hstart : nameStarts name before (c :: cs) with
      | true =>
        rw [replaceName_of_starts hstart] at h
        exact .inr ⟨[], d :: t, c :: cs, rfl, List.cons_ne_nil _ _, rfl, hstart, _, h⟩
      | false =>
        rw [replaceName_of_not_starts hstart] at h
        obtain ⟨rfl, more⟩ := List.cons_prefix_cons.mp h
        refine (ih more).imp (fun hp => List.cons_prefix_cons.mpr ⟨rfl, hp⟩) ?_
        rintro ⟨begun, later, rest, rfl, hne, rfl, hs, hp⟩
        exact ⟨d :: begun, later, rest, rfl, hne, rfl, getLast?_cons_or d begun before ▸ hs, hp⟩

/-- An escape behind the alias was one before, or the alias ends it. -/
theorem escape_infix_replaceName (he : IsEscape e)
    (h : e <:+: replaceName name surfaceAlias.toList before skip cs) :
    e <:+: cs ∨ NameCloses name cs := by
  -- What holds of a rest holds of the whole, so only what starts here is left to look at.
  have later : ∀ c cs, e <:+: cs ∨ NameCloses name cs →
      e <:+: c :: cs ∨ NameCloses name (c :: cs) := by
    rintro c cs (h | ⟨past, params, rest, rfl, hp, hs⟩)
    · exact .inl (List.infix_cons h)
    · exact .inr ⟨c :: past, params, rest, rfl, hp, hs⟩
  induction cs generalizing before skip with
  | nil =>
    rw [replaceName] at h
    exact .inl h
  | cons c cs ih =>
    cases skip with
    | succ skip => exact later c cs (ih h)
    | zero =>
      obtain ⟨params, letter, rfl, hp, hl⟩ := he
      cases hstart : nameStarts name before (c :: cs) with
      | true =>
        rw [replaceName_of_starts hstart] at h
        have behind : ∀ more : List Char,
            '\x1b' :: '[' :: (params ++ [letter]) <:+: surfaceAlias.toList ++ more →
              '\x1b' :: '[' :: (params ++ [letter]) <:+: more := by
          intro more h
          simpa [surfaceAlias, List.infix_cons_iff, List.cons_prefix_cons] using h
        exact later c cs (ih (behind _ h))
      | false =>
        rw [replaceName_of_not_starts hstart] at h
        rcases List.infix_cons_iff.mp h with h | h
        · obtain ⟨rfl, h⟩ := List.cons_prefix_cons.mp h
          obtain h | ⟨begun, tail, rest, heq, hne, rfl, hs, more, hm⟩ := prefix_replaceName h
          · exact .inl (List.cons_prefix_cons.mpr ⟨rfl, h⟩).isInfix
          · obtain ⟨rest', rfl⟩ : ∃ rest', tail = 'e' :: rest' := by
              obtain ⟨x, rest', rfl⟩ := List.exists_cons_of_ne_nil hne
              rw [toList_surfaceAlias] at hm
              exact ⟨rest', by rw [(List.cons_prefix_cons.mp hm).1]⟩
            cases begun with
            | nil => cases (List.cons.inj heq).1
            | cons b begun =>
              obtain ⟨rfl, htail⟩ := List.cons.inj heq
              have within : begun <+: params := by
                refine List.prefix_of_prefix_length_le ⟨_, htail.symm⟩ (List.prefix_append _ _) ?_
                have length : (params ++ [letter]).length = (begun ++ 'e' :: rest').length :=
                  congrArg List.length htail
                simp only [List.length_append, List.length_cons, List.length_nil] at length
                omega
              refine .inr ⟨[], begun, rest, rfl, fun c hc => hp c (within.subset hc), ?_⟩
              rwa [List.getLast?_cons, Option.some_or, ← List.getLast?_cons] at hs
        · exact later c cs (ih h)

theorem closed_replaceName {rest : List Char} (hname : name ≠ [])
    (hp : ∀ c ∈ params, isEscapeParam c = true)
    (hrest : (∃ letter ∈ rest.head?, letter.isAlpha = true) ∨
      nameStarts name (params.getLast?.or before) rest = true) :
    ∃ begun letter, (∀ c ∈ begun, isEscapeParam c = true) ∧ letter.isAlpha = true ∧
      begun ++ [letter] <+:
        replaceName name surfaceAlias.toList before 0 (params ++ rest) := by
  have starts : ∀ before c cs, nameStarts name before (c :: cs) = true →
      [] ++ ['e'] <+: replaceName name surfaceAlias.toList before 0 (c :: cs) := by
    intro before c cs hs
    rw [replaceName_of_starts hs, toList_surfaceAlias]
    exact List.cons_prefix_cons.mpr ⟨rfl, List.nil_prefix⟩
  -- Where the name starts the alias is put, and its first letter ends the escape.
  induction params generalizing before with
  | nil =>
    rw [List.nil_append]
    cases rest with
    | nil =>
      rcases hrest with ⟨letter, hl, -⟩ | hs
      · cases hl
      · exact absurd (List.prefix_nil.mp (prefix_of_nameStarts hs)) hname
    | cons c cs =>
      cases hs : nameStarts name before (c :: cs) with
      | true => exact ⟨[], 'e', by simp, rfl, starts before c cs hs⟩
      | false =>
        obtain ⟨letter, hl, halpha⟩ | hs' := hrest
        · obtain rfl := Option.some.inj hl
          rw [replaceName_of_not_starts hs]
          exact ⟨[], c, by simp, halpha, List.cons_prefix_cons.mpr ⟨rfl, List.nil_prefix⟩⟩
        · rw [List.getLast?_nil, Option.none_or, hs] at hs'
          cases hs'
  | cons c params ih =>
    rw [List.cons_append]
    cases hs : nameStarts name before (c :: (params ++ rest)) with
    | true => exact ⟨[], 'e', by simp, rfl, starts before c _ hs⟩
    | false =>
      rw [replaceName_of_not_starts hs]
      have closes : (∃ letter ∈ rest.head?, letter.isAlpha = true) ∨
          nameStarts name (params.getLast?.or (some c)) rest = true :=
        hrest.imp_right fun hs => getLast?_cons_or c params before ▸ hs
      obtain ⟨begun, letter, hb, hl, hprefix⟩ :=
        ih (fun d hd => hp d (List.mem_cons_of_mem _ hd)) closes
      refine ⟨c :: begun, letter, ?_, hl, List.cons_prefix_cons.mpr ⟨rfl, hprefix⟩⟩
      rintro d (_ | ⟨_, hd⟩)
      · exact hp c List.mem_cons_self
      · exact hb d hd

/-- An escape whose letter follows, or the name in its place, is one behind the alias, unless the
name itself has an escape character. -/
theorem hasEscape_replaceName {past rest : List Char} (hname : name ≠ []) (hesc : '\x1b' ∉ name)
    (hp : ∀ c ∈ params, isEscapeParam c = true)
    (hrest : (∃ letter ∈ rest.head?, letter.isAlpha = true) ∨
      nameStarts name (('[' :: params).getLast?) rest = true) (hskip : skip ≤ past.length) :
    HasEscape (replaceName name surfaceAlias.toList before skip
      (past ++ '\x1b' :: '[' :: (params ++ rest))) := by
  -- By induction on what stands before the escape. No name goes on into it.
  induction past generalizing before skip with
  | nil =>
    obtain rfl := Nat.le_zero.mp hskip
    have kept : nameStarts name before ('\x1b' :: '[' :: (params ++ rest)) = false := by
      refine Bool.eq_false_iff.mpr fun hs => hname ?_
      exact List.prefix_nil.mp
        (Text.prefix_of_prefix_append_cons hesc (prefix_of_nameStarts hs))
    have bracket : nameStarts name (some '\x1b') ('[' :: (params ++ rest)) = false := by
      have apart : isBoundary (some '\x1b') (some '[') = false := by decide +kernel
      rw [nameStarts, List.head?_cons, apart, Bool.false_and, Bool.false_and]
    rw [← Option.or_none (o := ('[' :: params).getLast?), getLast?_cons_or] at hrest
    obtain ⟨begun, letter, hb, hl, hprefix⟩ := closed_replaceName hname hp hrest
    rw [List.nil_append, replaceName_of_not_starts kept, replaceName_of_not_starts bracket]
    refine ⟨_, isEscape_cons hb hl, List.IsPrefix.isInfix ?_⟩
    exact List.cons_prefix_cons.mpr ⟨rfl, List.cons_prefix_cons.mpr ⟨rfl, hprefix⟩⟩
  | cons c past ih =>
    rw [List.cons_append]
    cases skip with
    | succ skip => exact ih (Nat.le_of_succ_le_succ hskip)
    | zero =>
      cases hs : nameStarts name before (c :: (past ++ '\x1b' :: '[' :: (params ++ rest))) with
      | false =>
        rw [replaceName_of_not_starts hs]
        exact (ih (Nat.zero_le _)).mono (List.suffix_cons _ _).isInfix
      | true =>
        rw [replaceName_of_starts hs]
        refine (ih ?_).mono (List.suffix_append _ _).isInfix
        -- The name ends before the escape character, which it does not have.
        have within : name <+: c :: past :=
          Text.prefix_of_prefix_append_cons hesc (prefix_of_nameStarts hs)
        have length := within.length_le
        rw [List.length_cons] at length
        omega

end

/-! ## Diagnostics -/

section

variable {source hostName reason : String} {limit line : Nat}

theorem prefix_of_prefix_collapseGaps (he : ∀ c ∈ e, Action.isGap c = false)
    (h : e <+: collapseGaps cs) : e <+: cs := by
  cases e with
  | nil => exact List.nil_prefix
  | cons x e =>
    have hx := he x List.mem_cons_self
    fun_induction collapseGaps cs generalizing x e with
    | case1 | case3 => exact h
    | case2 | case5 =>
      rw [(List.cons_prefix_cons.mp h).1] at hx
      cases hx
    | case4 c d cs hc hd ih =>
      rw [(List.cons_prefix_cons.mp (ih x e he h hx)).1, hd] at hx
      cases hx
    | case6 c d cs hc ih =>
      obtain ⟨rfl, more⟩ := List.cons_prefix_cons.mp h
      refine List.cons_prefix_cons.mpr ⟨rfl, ?_⟩
      cases e with
      | nil => exact List.nil_prefix
      | cons y e =>
        exact ih y e (fun c hc => he c (List.mem_cons_of_mem _ hc)) more
          (he y (List.mem_cons_of_mem _ List.mem_cons_self))

theorem infix_of_infix_collapseGaps (he : ∀ c ∈ e, Action.isGap c = false)
    (h : e <:+: collapseGaps cs) : e <:+: cs := by
  fun_induction collapseGaps cs with
  | case1 | case3 => exact h
  | case2 c hc =>
    rcases List.infix_cons_iff.mp h with h | h
    · exact (prefix_of_prefix_collapseGaps he (by simpa [collapseGaps, hc] using h)).isInfix
    · rw [List.infix_nil.mp h]
      exact List.nil_infix
  | case4 c d cs hc hd ih => exact List.infix_cons (ih h)
  | case5 c d cs hc hd ih =>
    rcases List.infix_cons_iff.mp h with h | h
    · refine (prefix_of_prefix_collapseGaps he ?_).isInfix
      rwa [collapseGaps, if_pos hc, if_neg hd]
    · exact List.infix_cons (ih h)
  | case6 c d cs hc ih =>
    rcases List.infix_cons_iff.mp h with h | h
    · refine (prefix_of_prefix_collapseGaps he ?_).isInfix
      rwa [collapseGaps, if_neg hc]
    · exact List.infix_cons (ih h)

/-- What a diagnostic has behind the line that failed. -/
def behindHeader (line : Nat) (source hostName reason : String) (limit : Nat) : List Char :=
  (ofReason line source hostName reason limit).toList.drop
    ("Failed on line " ++ toString line ++ ": " ++ source).length

theorem behindHeader_infix :
    behindHeader line source hostName reason limit <:+:
      '\n' :: (Text.unlines (reasonLines hostName reason)).toList := by
  obtain ⟨rest, hcut⟩ := Text.cutBytes_prefix limit (full line source hostName reason)
  have start : behindHeader line source hostName reason limit <+:
      (full line source hostName reason).toList.drop
        ("Failed on line " ++ toString line ++ ": " ++ source).length := by
    rw [← hcut, List.drop_append]
    exact List.prefix_append _ _
  refine start.isInfix.trans ?_
  rw [full, ← String.length_toList]
  cases reasonLines hostName reason with
  | nil => simp [Text.unlines]
  | cons first more =>
    simp only [Text.toList_unlines_cons_cons, List.drop_left, List.infix_rfl]

theorem infix_of_mem_reasonLines {l : String} (he : ∀ c ∈ e, Action.isGap c = false)
    (hl : l ∈ reasonLines hostName reason) (h : e <:+: l.toList) :
    e <:+: (plainReason hostName reason).toList := by
  obtain ⟨raw, hraw, rfl⟩ := List.mem_map.mp (List.mem_filter.mp (List.mem_of_mem_take hl)).1
  rw [String.toList_ofList] at h
  have trimmed := (infix_of_infix_collapseGaps he h).trans Text.trim_infix
  exact trimmed.trans (Text.infix_of_mem_lines hraw)

theorem hasEscape_plainReason (h : HasEscape (behindHeader line source hostName reason limit)) :
    HasEscape (plainReason hostName reason).toList := by
  obtain ⟨e, he, hin⟩ := h.mono behindHeader_infix
  obtain ⟨t, rfl, range⟩ := he.tail_range
  have plain : ∀ c ∈ '\x1b' :: t, c ≠ '\n' ∧ Action.isGap c = false := by
    rintro c (_ | ⟨_, hc⟩)
    · decide
    · have visible := (range c hc).1
      refine ⟨?_, Bool.eq_false_iff.mpr fun gap => ?_⟩
      · rintro rfl
        exact absurd visible (by decide)
      · rw [Action.isGap, Bool.or_eq_true, beq_iff_eq, beq_iff_eq] at gap
        rcases gap with rfl | rfl <;> exact absurd visible (by decide)
  have hn : '\n' ∉ '\x1b' :: t := fun hmem => (plain _ hmem).1 rfl
  have within : '\x1b' :: t <:+: (Text.unlines (reasonLines hostName reason)).toList := by
    rcases List.infix_cons_iff.mp hin with hin | hin
    · cases (List.cons_prefix_cons.mp hin).1
    · exact hin
  obtain ⟨l, hl, hin⟩ := Text.exists_of_infix_unlines (List.cons_ne_nil _ _) hn within
  exact ⟨_, he, infix_of_mem_reasonLines (fun c hc => (plain c hc).2) hl hin⟩

/-- The lines of the reason in a diagnostic have an escape only if the plain reason has one. That
has one only where an escape of the reason was broken by another, or where the name was replaced
behind an escape that lacked its letter; and there it does, unless the name itself has an escape
character. -/
theorem escapes_only_joined (line : Nat) (source hostName reason : String) (limit : Nat) :
    let joined := (∃ part, IsBroken part ∧ part <:+: reason.toList) ∨
      hostName ≠ "" ∧ NameCloses hostName.toList (dropEscapes 0 reason.toList)
    (HasEscape (behindHeader line source hostName reason limit) →
      HasEscape (plainReason hostName reason).toList) ∧
    (HasEscape (plainReason hostName reason).toList → joined) ∧
    ('\x1b' ∉ hostName.toList → joined → HasEscape (plainReason hostName reason).toList) := by
  have name_ne_nil : ∀ s : String, s ≠ "" → s.toList ≠ [] := by
    intro s h hn
    exact h (String.toList_eq_nil_iff.mp hn)
  refine ⟨hasEscape_plainReason, ?_, ?_⟩
  · rw [plainReason, String.toList_ofList]
    split
    · exact fun h => .inl (hasEscape_dropEscapes_iff.mp h)
    · next hne =>
      rw [String.isEmpty_iff] at hne
      rintro ⟨e, he, hin⟩
      obtain hin | hcloses := escape_infix_replaceName he hin
      · exact .inl (hasEscape_dropEscapes_iff.mp ⟨e, he, hin⟩)
      · exact .inr ⟨hne, hcloses⟩
  · intro hesc joined
    rw [plainReason, String.toList_ofList]
    split
    · next he =>
      rw [String.isEmpty_iff] at he
      obtain hb | ⟨hne, -⟩ := joined
      · exact hasEscape_dropEscapes_iff.mpr hb
      · exact absurd he hne
    · next hne =>
      rw [String.isEmpty_iff] at hne
      obtain hb | ⟨-, past, params, rest, heq, hp, hs⟩ := joined
      · obtain ⟨_, ⟨params, letter, rfl, hp, hl⟩, past, rest, heq⟩ :=
          hasEscape_dropEscapes_iff.mpr hb
        rw [← heq, List.append_assoc, List.cons_append, List.cons_append, List.append_assoc]
        exact hasEscape_replaceName (name_ne_nil _ hne) hesc hp
          (.inl ⟨letter, rfl, hl⟩) (Nat.zero_le _)
      · rw [heq]
        exact hasEscape_replaceName (name_ne_nil _ hne) hesc hp (.inr hs) (Nat.zero_le _)

/-- An escape that is interrupted by another is left whole, and red stays red. -/
theorem escape_survives :
    let reason := "\x1b\x1b[0m[31mred"
    ofReason 1 "click(a)" "" reason 2000 = "Failed on line 1: click(a)\n\x1b[31mred" ∧
      HasEscape (behindHeader 1 "click(a)" "" reason 2000) := by
  intro reason
  have shown : ofReason 1 "click(a)" "" reason 2000 =
      "Failed on line 1: click(a)\n\x1b[31mred" := by decide +kernel
  have red : IsEscape ('\x1b' :: '[' :: (['3', '1'] ++ ['m'])) :=
    isEscape_cons (List.all_eq_true.mp rfl) rfl
  refine ⟨shown, _, red, ['\n'], ['r', 'e', 'd'], ?_⟩
  rw [behindHeader, shown]
  decide +kernel

/-- An escape that lacks only its letter gets the first one of the alias. -/
theorem escapes_only_joined_of_name :
    let reason := "\x1b[1;_Host"
    '\x1b' ∉ "_Host".toList ∧ NameCloses "_Host".toList (dropEscapes 0 reason.toList) ∧
      plainReason "_Host" reason = "\x1b[1;env" ∧
      HasEscape (plainReason "_Host" reason).toList := by
  intro reason
  have plain : '\x1b' ∉ "_Host".toList := by decide
  have closes : NameCloses "_Host".toList (dropEscapes 0 reason.toList) :=
    ⟨[], ['1', ';'], "_Host".toList, by decide +kernel, List.all_eq_true.mp rfl, by decide +kernel⟩
  exact ⟨plain, closes, by decide +kernel, (escapes_only_joined 1 "click(a)" "_Host" reason
    2000).2.2 plain (.inr ⟨by decide, closes⟩)⟩

end

end Diagnostic

end BrowserAgent
