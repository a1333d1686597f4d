import BrowserAgent.Proofs.Spelling

/-!
# Reading tokens

Each reader of a token takes a spelling of it from the front of the line. Conversely it takes the
whole of a spelling, if what follows could not go on with it.
-/

namespace BrowserAgent.Action

/-- The characters do not start with one that passes the test. -/
def Stops (p : Char → Bool) (cs : List Char) : Prop := ∀ c ∈ cs.head?, p c = false

section

variable {p : Char → Bool} {cs rest : List Char}

theorem stops_cons {c : Char} : Stops p (c :: cs) ↔ p c = false := by
  simp [Stops]

theorem stops_dropWhile : Stops p (cs.dropWhile p) := by
  induction cs with
  | nil => simp [Stops]
  | cons c cs ih =>
    cases hc : p c with
    | true => rwa [List.dropWhile_cons_of_pos hc]
    | false => rwa [List.dropWhile_cons_of_neg (by simp [hc]), stops_cons]

theorem takeWhile_of_stops (h : Stops p rest) : rest.takeWhile p = [] := by
  cases rest with
  | nil => rfl
  | cons c cs => rw [List.takeWhile_cons_of_neg (by simp [stops_cons.mp h])]

theorem dropWhile_of_stops (h : Stops p rest) : rest.dropWhile p = rest := by
  cases rest with
  | nil => rfl
  | cons c cs => rw [List.dropWhile_cons_of_neg (by simp [stops_cons.mp h])]

theorem takeWhile_append (hcs : ∀ c ∈ cs, p c = true) (h : Stops p rest) :
    (cs ++ rest).takeWhile p = cs := by
  rw [List.takeWhile_append_of_pos hcs, takeWhile_of_stops h, List.append_nil]

theorem dropWhile_append (hcs : ∀ c ∈ cs, p c = true) (h : Stops p rest) :
    (cs ++ rest).dropWhile p = rest := by
  rw [List.dropWhile_append_of_pos hcs, dropWhile_of_stops h]

theorem forall_mem_takeWhile : ∀ c ∈ cs.takeWhile p, p c = true :=
  List.all_eq_true.mp List.all_takeWhile

end

/-! ## Gaps -/

section

variable {g cs rest : List Char}

theorem isGap_iff {c : Char} : isGap c = true ↔ c = ' ' ∨ c = '\t' := by
  simp [isGap]

theorem isGap_nil : IsGap [] := by simp [IsGap]

/-- What only a gap or the given character starts does not go on with anything else. -/
theorem IsGap.stops (hg : IsGap g) {p : Char → Bool} {c : Char}
    (hp : p ' ' = false ∧ p '\t' = false ∧ p c = false) : Stops p (g ++ c :: rest) := by
  cases g with
  | nil => exact stops_cons.mpr hp.2.2
  | cons d g =>
    rw [List.cons_append, stops_cons]
    rcases isGap_iff.mp (hg d List.mem_cons_self) with rfl | rfl
    · exact hp.1
    · exact hp.2.1

theorem exists_gap (cs : List Char) : ∃ g, IsGap g ∧ cs = g ++ skipGaps cs :=
  ⟨cs.takeWhile isGap, forall_mem_takeWhile, List.takeWhile_append_dropWhile.symm⟩

theorem stops_skipGaps : Stops isGap (skipGaps cs) := stops_dropWhile

theorem skipGaps_append (hg : IsGap g) (h : Stops isGap rest) : skipGaps (g ++ rest) = rest :=
  dropWhile_append hg h

/-- A character that a gap cannot hold follows it. -/
theorem symbol?_append {c : Char} (hg : IsGap g) (hc : isGap c = false) :
    symbol? c (g ++ c :: rest) = some rest := by
  rw [symbol?, skipGaps_append hg (stops_cons.mpr hc)]
  exact if_pos rfl

theorem symbol?_eq_none {c : Char} (h : (skipGaps cs).head? ≠ some c) : symbol? c cs = none := by
  unfold symbol?
  split
  · next d rest hs => exact if_neg (by simpa [hs] using h)
  · rfl

theorem IsGap.stops_skipGaps (hg : IsGap g) {p : Char → Bool} {c : Char} (hc : isGap c = false)
    (hp : p c = false) : Stops p (skipGaps (g ++ c :: rest)) := by
  rw [skipGaps_append hg (stops_cons.mpr hc)]
  exact stops_cons.mpr hp

theorem symbol?_of_ne {c d : Char} (hg : IsGap g) (hd : isGap d = false) (hne : d ≠ c) :
    symbol? c (g ++ d :: rest) = none := by
  apply symbol?_eq_none
  rw [skipGaps_append hg (stops_cons.mpr hd)]
  simpa using hne

theorem symbol?_sound {c : Char} (h : symbol? c cs = some rest) :
    ∃ g, IsGap g ∧ cs = g ++ c :: rest := by
  obtain ⟨g, hg, hcs⟩ := exists_gap cs
  unfold symbol? at h
  split at h
  · next d r hs =>
    split at h
    · next hd =>
      simp only [Option.some.injEq] at h
      exact ⟨g, hg, by rw [hcs, hs, hd, h]⟩
    · cases h
  · cases h

end

/-! ## Names -/

section

variable {cs name rest : List Char}

theorem isNameChar_of_start {c : Char} (h : isNameStart c = true) : isNameChar c = true := by
  simp only [isNameStart, isNameChar, Char.isAlphanum, Bool.or_eq_true] at h ⊢
  exact h.imp_left .inl

theorem toNat_of_start {c : Char} (h : isNameStart c = true) : 65 ≤ c.toNat ∧ c.toNat ≤ 122 := by
  have kinds : (c.isUpper || c.isLower || c == '_') = true := h
  obtain (upper | lower) | rfl : (c.isUpper = true ∨ c.isLower = true) ∨ c = '_' := by
    simpa using kinds
  · have bounds : 65 ≤ c.toNat ∧ c.toNat ≤ 90 := of_decide_eq_true upper
    omega
  · have bounds : 97 ≤ c.toNat ∧ c.toNat ≤ 122 :=
      (Bool.and_eq_true_iff.mp lower).imp of_decide_eq_true of_decide_eq_true
    omega
  · decide

theorem toNat_of_isDigit {c : Char} (h : c.isDigit = true) : 48 ≤ c.toNat ∧ c.toNat ≤ 57 :=
  (Bool.and_eq_true_iff.mp h).imp of_decide_eq_true of_decide_eq_true

theorem isDigit_of_start {c : Char} (h : isNameStart c = true) : c.isDigit = false := by
  rw [Bool.eq_false_iff]
  intro digit
  have := toNat_of_start h
  have := toNat_of_isDigit digit
  omega

theorem beq_of_start {c d : Char} (h : isNameStart c = true) (hd : isNameStart d = false) :
    (c == d) = false := by
  rw [beq_eq_false_iff_ne]
  rintro rfl
  rw [h] at hd
  cases hd

theorem IsName.forall_isNameChar (h : IsName cs) : ∀ c ∈ cs, isNameChar c = true := by
  cases cs with
  | nil => simp
  | cons c cs => exact List.forall_mem_cons.mpr ⟨isNameChar_of_start h.1, h.2⟩

theorem IsName.head (h : IsName cs) : ∃ c more, cs = c :: more ∧ isNameStart c = true := by
  cases cs with
  | nil => exact h.elim
  | cons c cs => exact ⟨c, cs, rfl, h.1⟩

theorem readName_append (h : IsName name) (stops : Stops isNameChar rest) :
    readName (name ++ rest) = some (name, rest) := by
  cases name with
  | nil => exact h.elim
  | cons c cs =>
    rw [List.cons_append, readName, if_pos h.1, takeWhile_append h.2 stops,
      dropWhile_append h.2 stops]

theorem readName_eq_none (h : Stops isNameStart cs) : readName cs = none := by
  cases cs with
  | nil => rfl
  | cons c cs => rw [readName, if_neg (by simp [stops_cons.mp h])]

theorem readName_sound (h : readName cs = some (name, rest)) :
    cs = name ++ rest ∧ IsName name ∧ Stops isNameChar rest := by
  cases cs with
  | nil => simp [readName] at h
  | cons c cs =>
    rw [readName] at h
    split at h
    · next hc =>
      simp only [Option.some.injEq, Prod.mk.injEq] at h
      obtain ⟨rfl, rfl⟩ := h
      refine ⟨by rw [List.cons_append, List.takeWhile_append_dropWhile], ?_, stops_dropWhile⟩
      exact ⟨hc, forall_mem_takeWhile⟩
    · cases h

/-! ### Names joined by points -/

/-- What follows a callee could go on neither with its last name nor with a further one. -/
def StopsCallee (cs : List Char) : Prop := Stops (fun c => isNameChar c || c == '.') cs

theorem StopsCallee.stops (h : StopsCallee cs) : Stops isNameChar cs :=
  fun c hc => (Bool.or_eq_false_iff.mp (h c hc)).1

theorem IsPath.stops {path : List Char} (h : IsPath path) (stops : StopsCallee rest) :
    Stops isNameChar (path ++ rest) := by
  cases h with
  | nil => exact stops.stops
  | cons => exact stops_cons.mpr (by decide)

theorem readPath_append {path : List Char} (h : IsPath path) (stops : StopsCallee rest)
    {fuel : Nat} (bound : path.length ≤ fuel) : readPath fuel (path ++ rest) = (path, rest) := by
  induction h generalizing fuel with
  | nil =>
    cases fuel with
    | zero => rfl
    | succ fuel =>
      unfold readPath
      split
      · next cs heq =>
        rw [List.nil_append] at heq
        have := stops '.' (by simp [heq])
        simp at this
      · rfl
  | @cons name path hn hp ih =>
    cases fuel with
    | zero => simp at bound
    | succ fuel =>
      simp only [List.length_cons, List.length_append] at bound
      rw [List.cons_append, List.append_assoc, readPath, readName_append hn (hp.stops stops)]
      simp only [ih (show path.length ≤ fuel by omega), List.cons_append]

theorem readPath_sound (fuel : Nat) (cs : List Char) :
    cs = (readPath fuel cs).1 ++ (readPath fuel cs).2 ∧ IsPath (readPath fuel cs).1 := by
  fun_induction readPath fuel cs with
  | case1 fuel cs name rest hname more after hlater ih =>
    obtain ⟨rfl, hn, -⟩ := readName_sound hname
    rw [hlater] at ih
    obtain ⟨rfl, hp⟩ := ih
    exact ⟨by simp, .cons hn hp⟩
  | case2 | case3 => exact ⟨rfl, .nil⟩

theorem readCallee_append {path : List Char} (hn : IsName name) (hp : IsPath path)
    (stops : StopsCallee rest) :
    readCallee (name ++ (path ++ rest)) = some (String.ofList (name ++ path), rest) := by
  have hpath := readPath_append hp stops (show path.length ≤ (path ++ rest).length by simp)
  simp only [readCallee, readName_append hn (hp.stops stops), Option.bind_eq_bind,
    Option.bind_some, hpath]

theorem readCallee_sound {callee : String} (h : readCallee cs = some (callee, rest)) :
    ∃ name path, IsName name ∧ IsPath path ∧ callee = String.ofList (name ++ path) ∧
      cs = name ++ (path ++ rest) := by
  simp only [readCallee, Option.bind_eq_bind, Option.bind_eq_some_iff] at h
  obtain ⟨⟨name, after⟩, hname, h⟩ := h
  simp only [Option.some.injEq, Prod.mk.injEq] at h
  obtain ⟨rfl, rfl⟩ := h
  obtain ⟨rfl, hn, -⟩ := readName_sound hname
  obtain ⟨hafter, hp⟩ := readPath_sound after.length after
  exact ⟨name, _, hn, hp, rfl, by rw [← hafter]⟩

end

/-! ## Quoted texts -/

section

variable {cs rest : List Char} {quote : Char}

theorem readQuoted_append {pieces : List Piece} (fits : ∀ p ∈ pieces, p.Fits quote)
    (hq : quote ≠ '\\') :
    readQuoted quote (pieces.flatMap Piece.written ++ quote :: rest) =
      some (pieces.map Piece.value, rest) := by
  -- By induction on the pieces, none of which is the quote that ends the text.
  induction pieces with
  | nil =>
    rw [List.flatMap_nil, List.nil_append]
    unfold readQuoted
    split
    · next heq => cases heq
    · next heq => exact absurd (List.cons.inj heq).1 hq
    · next heq =>
      obtain ⟨rfl, rfl⟩ := List.cons.inj heq
      simp
  | cons p pieces ih =>
    obtain ⟨hp, hps⟩ := List.forall_mem_cons.mp fits
    rw [List.flatMap_cons, List.append_assoc]
    cases p with
    | plain c =>
      obtain ⟨hne, hb⟩ := hp
      rw [Piece.written, List.cons_append, List.nil_append]
      unfold readQuoted
      split
      · next heq => cases heq
      · next heq => exact absurd (List.cons.inj heq).1 hb
      · next heq =>
        obtain ⟨rfl, rfl⟩ := List.cons.inj heq
        simp [hne, hb, ih hps, Piece.value]
    | escaped c =>
      rw [Piece.written, List.cons_append, List.cons_append, List.nil_append, readQuoted, ih hps]
      simp [Piece.value]

theorem readQuoted_sound {value : List Char} (h : readQuoted quote cs = some (value, rest)) :
    ∃ pieces : List Piece, (∀ p ∈ pieces, p.Fits quote) ∧ value = pieces.map Piece.value ∧
      cs = pieces.flatMap Piece.written ++ quote :: rest := by
  fun_induction readQuoted quote cs generalizing value with
  | case1 => cases h
  | case2 c cs ih =>
    obtain ⟨⟨later, after⟩, hlater, h⟩ := Option.map_eq_some_iff.mp h
    simp only [Prod.mk.injEq] at h
    obtain ⟨rfl, rfl⟩ := h
    obtain ⟨pieces, fits, rfl, rfl⟩ := ih hlater
    exact ⟨.escaped c :: pieces, List.forall_mem_cons.mpr ⟨trivial, fits⟩, rfl, rfl⟩
  | case3 cs =>
    simp only [Option.some.injEq, Prod.mk.injEq] at h
    obtain ⟨rfl, rfl⟩ := h
    exact ⟨[], by simp, rfl, rfl⟩
  | case4 => cases h
  | case5 c cs _ hne hb ih =>
    obtain ⟨⟨later, after⟩, hlater, h⟩ := Option.map_eq_some_iff.mp h
    simp only [Prod.mk.injEq] at h
    obtain ⟨rfl, rfl⟩ := h
    obtain ⟨pieces, fits, rfl, rfl⟩ := ih hlater
    exact ⟨.plain c :: pieces, List.forall_mem_cons.mpr ⟨⟨hne, hb⟩, fits⟩, rfl, rfl⟩

end

end BrowserAgent.Action
