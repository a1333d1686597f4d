import BrowserAgent.Proofs.DiskEntries
import Mathlib.Tactic.ByContra

/-!
# What a replacement leaves as it was

Each step of a replacement changes the disk at few places: directories are made where nothing was,
the file is written at the temporary place, and it is moved from there to its own. So wherever the
replacement stops, everything else is as it was before, as long as the file at the temporary place
has no other name.
-/

namespace BrowserAgent

namespace Disk

variable {d d' d'' : Disk} {place other goal : Place} {p : Path} {bytes : List UInt8} {number : Nat}

/-! ## Places where nothing is lost -/

/-- At the place there is what was there before, and a file holds the same. -/
structure SameAt (d d' : Disk) (place : Place) : Prop where
  entry : d'.entryAt? place = d.entryAt? place
  bytes : ∀ number, d.entryAt? place = some (.file number) → d'.bytesOf number = d.bytesOf number

namespace SameAt

theorem refl (d : Disk) (place : Place) : d.SameAt d place := ⟨rfl, fun _ _ => rfl⟩

theorem trans (first : d.SameAt d' place) (second : d'.SameAt d'' place) :
    d.SameAt d'' place where
  entry := second.entry.trans first.entry
  bytes number there := by
    rw [second.bytes number (first.entry.trans there), first.bytes number there]

end SameAt

/-- Some of the names, from the first on, lead to the place. -/
def LiesAlong (d : Disk) (start : Place) (names : List String) (place : Place) : Prop :=
  ∃ front, front <+: names ∧ d.walk false mostLinks start front = .ok place

/-- At the place there is what was there before, or where nothing was, a directory is on the way
along the names. -/
def KeptAlong (start : Place) (names : List String) (d d' : Disk) (place : Place) : Prop :=
  d.SameAt d' place ∨
    d.entryAt? place = none ∧ d'.entryAt? place = some .directory ∧
      d'.LiesAlong start names place

/-! ## Making directories -/

section

variable {start : Place} {names more : List String}

theorem LiesAlong.keep (h : d.LiesAlong start names place) (ways : KeepsWays d d') :
    d'.LiesAlong start names place := by
  obtain ⟨front, inside, reached⟩ := h
  exact ⟨front, inside, walk_eq_ok_iff.mpr (ways.way (walk_eq_ok_iff.mp reached))⟩

/-- Nothing is lost anywhere, and all that is new is directories along the names. -/
def Widened (start : Place) (names : List String) (d d' : Disk) : Prop :=
  ∀ place, KeptAlong start names d d' place

namespace Widened

theorem refl (d : Disk) : Widened start names d d := fun place => .inl (.refl d place)

theorem keepsWays (h : Widened start names d d') : KeepsWays d d' := by
  refine .of_changes fun q => ?_
  rcases h q with same | ⟨free, directory, -⟩
  · exact .inl same.entry
  · exact .inr ⟨isEnd_of_free free, linkAt?_of_entry directory nofun⟩

theorem trans (first : Widened start names d d') (second : Widened start names d' d'') :
    Widened start names d d'' := by
  intro place
  rcases first place with same | ⟨free, directory, along⟩
  · rcases second place with same' | ⟨free, made⟩
    · exact .inl (same.trans same')
    · exact .inr ⟨same.entry ▸ free, made⟩
  · rcases second place with same' | ⟨free', -⟩
    · exact .inr ⟨free, same'.entry.trans directory, along.keep second.keepsWays⟩
    · rw [directory] at free'
      cases free'

theorem mono (h : Widened start names d d') (longer : names <+: more) :
    Widened start more d d' := by
  intro place
  rcases h place with same | ⟨free, directory, front, inside, reached⟩
  · exact .inl same
  · exact .inr ⟨free, directory, front, inside.trans longer, reached⟩

theorem bind {ε α β : Type} {x : Run Disk ε α} {f : α → Run Disk ε β}
    (first : Widened start names d (x.run d).2)
    (second : ∀ value (d' : Disk), Widened start names d' ((f value).run d').2) :
    Widened start names d ((x >>= f).run d).2 := by
  rw [Run.run_bind]
  split
  · next value after heq =>
    rw [heq] at first
    exact first.trans (second value after)
  · next after heq =>
    rw [heq] at first
    exact first

/-- A directory is new where the names lead, and everywhere else is what was there before. -/
theorem of_made (reached : d.walk false mostLinks start names = .ok place)
    (free : d.entryAt? place = none) (made : d'.entryAt? place = some .directory)
    (others : ∀ q, q ≠ place → d.SameAt d' q) : Widened start names d d' := by
  have ways : KeepsWays d d' := by
    refine .of_changes fun q => ?_
    by_cases here : q = place
    · subst here
      exact .inr ⟨isEnd_of_free free, linkAt?_of_entry made nofun⟩
    · exact .inl (others q here).entry
  have along : d.LiesAlong start names place := ⟨names, List.prefix_rfl, reached⟩
  intro q
  by_cases here : q = place
  · subst here
    exact .inr ⟨free, made, along.keep ways⟩
  · exact .inl (others q here)

end Widened

theorem makeDirectory_widened (start : Place) (names : List String) (d : Disk) :
    Widened start names d ((makeDirectory start names).run d).2 := by
  dsimp only [makeDirectory, ExceptT.mk, ExceptT.run, StateT.run]
  split
  · exact .refl d
  · next place reached =>
    split
    · exact .refl d
    · exact .refl d
    · next free _ =>
      have standing : place.standing? = none := (Option.or_eq_none_iff.mp free).1
      exact .of_made reached free (entryAt?_put_self standing)
        fun q apart => ⟨entryAt?_put_of_ne apart, fun _ _ => rfl⟩

theorem makeDirectories_widened (start : Place) (names : List String) (d : Disk) :
    Widened start names.reverse d ((makeDirectories start names).run d).2 := by
  induction names generalizing d with
  | nil => exact .refl d
  | cons name before ih =>
    rw [makeDirectories, Run.run_get_bind]
    dsimp only
    have longer : before.reverse <+: (name :: before).reverse := by
      rw [List.reverse_cons]
      exact List.prefix_append _ _
    split
    · exact .bind ((ih d).mono longer) fun _ d' => makeDirectory_widened start _ d'
    · exact makeDirectory_widened start _ d

theorem createDirectories_widened (p : Path) (d : Disk) :
    Widened (p.startFrom []) p.steps d ((createDirectories p).run d).2 := by
  unfold createDirectories
  split
  · exact .refl d
  · have made := makeDirectories_widened (p.startFrom []) p.steps.reverse d
    rwa [List.reverse_reverse] at made

end

/-! ## The directory of a path -/

/-- The disk once the directory of the path is made, if it can be. -/
def prepared (d : Disk) (p : Path) : Disk := ((createParent p).run d).2

/-- The place lies on the way to the directory of the path. -/
def LiesBefore (d : Disk) (p : Path) (place : Place) : Prop :=
  ∃ parent, p.parent? = some parent ∧ d.LiesAlong (parent.startFrom []) parent.steps place

/-- At the place there is what was there before a save to the path, or where nothing was, a
directory that was made on the way there. -/
def Spares (d : Disk) (p : Path) (after : Disk) (place : Place) : Prop :=
  d.SameAt after place ∨
    d.entryAt? place = none ∧ after.entryAt? place = some .directory ∧
      (d.prepared p).LiesBefore p place

theorem prepared_cases (p : Path) (d : Disk) :
    (∃ parent, p.parent? = some parent ∧
      Widened (parent.startFrom []) parent.steps d (d.prepared p)) ∨ d.prepared p = d := by
  unfold prepared createParent
  split
  · next parent found => exact .inl ⟨parent, found, createDirectories_widened parent d⟩
  · exact .inr rfl

theorem prepared_keepsWays (p : Path) (d : Disk) : KeepsWays d (d.prepared p) := by
  rcases prepared_cases p d with ⟨parent, -, widened⟩ | same
  · exact widened.keepsWays
  · rw [same]
    exact .refl d

namespace Spares

variable {after : Disk}

theorem prepared (p : Path) (d : Disk) (place : Place) : d.Spares p (d.prepared p) place := by
  rcases prepared_cases p d with ⟨parent, found, widened⟩ | same
  · rcases widened place with same | ⟨free, directory, along⟩
    · exact .inl same
    · exact .inr ⟨free, directory, parent, found, along⟩
  · rw [same]
    exact .inl (.refl d place)

theorem trans (first : d.Spares p d' place) (second : d'.SameAt after place) :
    d.Spares p after place := by
  rcases first with same | ⟨free, directory, before⟩
  · exact .inl (same.trans second)
  · exact .inr ⟨free, second.entry.trans directory, before⟩

end Spares

/-! ## Writing -/

/-- No symbolic link stands at the place, and a file there has no other name. -/
structure IsLone (d : Disk) (place : Place) : Prop where
  plain : d.linkAt? place = none
  only : ∀ number, d.entryAt? place = some (.file number) →
    ∀ other, d.entryAt? other = some (.file number) → other = place

theorem locateFile_eq_ok (h : d.locateFile p = .ok place) :
    d.reach p true = .ok place ∧ d.entryAt? place ≠ some .directory := by
  obtain ⟨found, reached, h⟩ := bind_eq_ok_iff.mp h
  split at h
  · cases h
  · split at h
    · cases h
    · next there =>
      split at h <;> cases h
      exact ⟨reached, by rw [there]; nofun⟩
    · next other _ there =>
      cases h
      exact ⟨reached, fun directory => other (Option.some.inj (there.symm.trans directory))⟩
    · next free =>
      split at h <;> cases h
      exact ⟨reached, by rw [free]; nofun⟩

/-- A file is written at the place that its path leads to, as a whole unless there is an error. -/
theorem write_cases {result : Except DiskError Unit} (h : (write p bytes).run d = (result, d')) :
    ((∃ e, result = .error e) ∧ d' = d) ∨
      ∃ place written, d.reach p true = .ok place ∧ d.entryAt? place ≠ some .directory ∧
        d' = d.setBytes place written ∧ (result = .ok () → written = bytes) := by
  rw [write, Run.run_get_bind, Run.run_liftM_bind] at h
  split at h
  · next place located =>
    obtain ⟨reached, file⟩ := locateFile_eq_ok located
    dsimp only [writeAt, ExceptT.mk, ExceptT.run, StateT.run] at h
    split at h
    · obtain ⟨rfl, rfl⟩ := Prod.mk.inj h
      exact .inr ⟨place, bytes, reached, file, rfl, fun _ => rfl⟩
    · obtain ⟨rfl, rfl⟩ := Prod.mk.inj h
      exact .inl ⟨⟨_, rfl⟩, rfl⟩
    · next n _ =>
      obtain ⟨rfl, rfl⟩ := Prod.mk.inj h
      refine .inr ⟨place, bytes.take n, reached, file, rfl, ?_⟩
      split
      · next fits => exact fun _ => List.take_of_length_le fits
      · nofun
  · obtain ⟨rfl, rfl⟩ := Prod.mk.inj h
    exact .inl ⟨⟨_, rfl⟩, rfl⟩

/-- What a file that is written at a place changes. -/
theorem setBytes_cases (place : Place) (bytes : List UInt8) (d : Disk) :
    (∃ number, d.entryAt? place = some (.file number) ∧
      d.setBytes place bytes = d.setContents number bytes) ∨
    (d.entryAt? place = none ∧ d.setBytes place bytes = d.putNew place bytes) ∨
    (∀ number, d.entryAt? place ≠ some (.file number)) ∧ d.setBytes place bytes = d := by
  unfold setBytes
  split
  · next number there => exact .inl ⟨number, there, rfl⟩
  · next other file there =>
    refine .inr (.inr ⟨fun number same => ?_, rfl⟩)
    exact file number (Option.some.inj (there.symm.trans same))
  · next free => exact .inr (.inl ⟨free, rfl⟩)

theorem entryAt?_putNew_self (free : d.entryAt? place = none) :
    (d.putNew place bytes).entryAt? place = some (.file d.newNumber) :=
  entryAt?_put_self (Option.or_eq_none_iff.mp free).1

theorem entryAt?_putNew_of_ne (h : other ≠ place) :
    (d.putNew place bytes).entryAt? other = d.entryAt? other :=
  entryAt?_put_of_ne h

theorem setBytes_same (lone : d.IsLone place) (written : List UInt8) (apart : other ≠ place) :
    d.SameAt (d.setBytes place written) other := by
  rcases setBytes_cases place written d with ⟨number, there, same⟩ | ⟨free, same⟩ | ⟨-, same⟩
  · refine ⟨by rw [same, entryAt?_setContents], fun m file => ?_⟩
    rw [same]
    refine bytesOf_setContents_of_ne written ?_
    rintro rfl
    exact apart (lone.only m there other file)
  · refine ⟨by rw [same, entryAt?_putNew_of_ne apart], fun m file => ?_⟩
    rw [same]
    exact bytesOf_setContents_of_ne written (ne_newNumber file)
  · rw [same]
    exact .refl d other

theorem bytesOf_setBytes (there : (d.setBytes place bytes).entryAt? place = some (.file number)) :
    (d.setBytes place bytes).bytesOf number = bytes := by
  rcases setBytes_cases place bytes d with ⟨m, before, same⟩ | ⟨free, same⟩ | ⟨file, same⟩
  · rw [same, entryAt?_setContents, before] at there
    cases there
    rw [same]
    exact bytesOf_setContents_self bytes
  · rw [same, entryAt?_putNew_self free] at there
    cases there
    rw [same]
    exact bytesOf_setContents_self bytes
  · rw [same] at there
    exact absurd there (file number)

/-- Where a file was written the ways are as they were, and it has no other name than before. -/
theorem setBytes_lone (lone : d.IsLone place) (file : d.entryAt? place ≠ some .directory)
    (written : List UInt8) :
    KeepsWays d (d.setBytes place written) ∧ KeepsWays (d.setBytes place written) d ∧
      (d.setBytes place written).IsLone place := by
  rcases setBytes_cases place written d with ⟨number, there, same⟩ | ⟨free, same⟩ | ⟨-, same⟩
  · rw [same]
    exact ⟨.of_changes fun _ => .inl rfl, .of_changes fun _ => .inl rfl, lone.plain, lone.only⟩
  · have new : (d.putNew place written).entryAt? place = some (.file d.newNumber) :=
      entryAt?_putNew_self free
    rw [same]
    refine ⟨.of_changes fun q => ?_, .of_changes fun q => ?_, ?_, ?_⟩
    · by_cases here : q = place
      · subst here
        exact .inr ⟨⟨file, lone.plain⟩, (isEnd_of_file new).2⟩
      · exact .inl (entryAt?_putNew_of_ne here)
    · by_cases here : q = place
      · subst here
        exact .inr ⟨isEnd_of_file new, lone.plain⟩
      · exact .inl (entryAt?_putNew_of_ne here).symm
    · exact (isEnd_of_file new).2
    · intro number there other same
      rw [new] at there
      cases there
      by_contra apart
      rw [entryAt?_putNew_of_ne apart] at same
      exact ne_newNumber same rfl
  · rw [same]
    exact ⟨.of_changes fun _ => .inl rfl, .of_changes fun _ => .inl rfl, lone⟩

/-- Only the place of the path has changed, and no way. A file that was written holds the bytes. -/
theorem write_lone {result : Except DiskError Unit}
    (lone : ∀ place, d.reach p false = .ok place → d.IsLone place)
    (h : (write p bytes).run d = (result, d')) :
    (KeepsWays d d' ∧ KeepsWays d' d) ∧
      (∀ q, d.reach p false ≠ .ok q → d.SameAt d' q) ∧
      (result = .ok () → ∃ place, d.reach p false = .ok place ∧ d'.IsLone place ∧
        ∀ number, d'.entryAt? place = some (.file number) → d'.bytesOf number = bytes) := by
  rcases write_cases h with ⟨⟨e, rfl⟩, rfl⟩ | ⟨place, written, reached, file, rfl, whole⟩
  · exact ⟨⟨.refl d', .refl d'⟩, fun q _ => .refl d' q, nofun⟩
  · have short := reach_short reached fun stop stops => (lone stop stops).plain
    have alone := lone place short
    obtain ⟨forth, back, still⟩ := setBytes_lone alone file written
    refine ⟨⟨forth, back⟩, fun q apart => ?_, fun done => ⟨place, short, still, ?_⟩⟩
    · refine setBytes_same alone written ?_
      rintro rfl
      exact apart short
    · rw [← whole done]
      exact fun _ => bytesOf_setBytes

/-! ## Moving -/

theorem run_rename (source target : Path) (d : Disk) :
    (rename source target).run d =
      match d.reach source false with
      | .error e => (.error e, d)
      | .ok place =>
        match d.entryAt? place with
        | none => (.error .missing, d)
        | some .directory | some .nullDevice => (.error .isDirectory, d)
        | some entry =>
          match d.locateTarget target with
          | .error e => (.error e, d)
          | .ok goal =>
            if !d.limits.canRename then (.error .denied, d)
            else if (numberOf? entry).isSome && d.entryAt? goal == some entry then (.ok (), d)
            else (.ok (), d.move place goal entry) := by
  rw [rename, Run.run_get_bind, Run.run_liftM_bind]
  cases d.reach source false with
  | error e => rfl
  | ok place =>
    dsimp only
    cases h : d.entryAt? place with
    | none => rfl
    | some entry =>
      cases entry with
      | directory | nullDevice => rfl
      | file | link =>
        rw [Run.run_liftM_bind]
        cases d.locateTarget target with
        | error e => rfl
        | ok goal =>
          dsimp only
          split
          · rfl
          · split <;> rfl

theorem rename_error {source target : Path} {e : DiskError}
    (h : (rename source target).run d = (.error e, d')) : d' = d := by
  rw [run_rename] at h
  repeat' split at h
  all_goals cases h
  all_goals rfl

theorem entryAt?_moved (there : d.entryAt? place = some (.file number)) (apart : place ≠ goal)
    (free : goal.standing? = none) :
    let after := d.move place goal (.file number)
    after.entryAt? place = none ∧ after.entryAt? goal = some (.file number) ∧
      ∀ q, q ≠ place → q ≠ goal → after.entryAt? q = d.entryAt? q := by
  refine ⟨?_, entryAt?_put_self free, fun q notPlace notGoal => ?_⟩
  · rw [move, entryAt?_put_of_ne apart, entryAt?_remove_self (standing?_of_file there)]
  · rw [move, entryAt?_put_of_ne notGoal, entryAt?_remove_of_ne notPlace]

/-- The ways that are left when what stands at the goal is taken away are those behind the move. -/
theorem moved_keepsWays (there : d.entryAt? place = some (.file number)) (apart : place ≠ goal)
    (free : goal.standing? = none) :
    KeepsWays (d.remove goal) (d.move place goal (.file number)) := by
  obtain ⟨gone, moved, others⟩ := entryAt?_moved there apart free
  refine .of_changes fun q => ?_
  by_cases atGoal : q = goal
  · subst atGoal
    exact .inr ⟨isEnd_of_free (entryAt?_remove_self free), (isEnd_of_file moved).2⟩
  · rw [IsEnd, linkAt?, entryAt?_remove_of_ne atGoal]
    by_cases atPlace : q = place
    · subst atPlace
      exact .inr ⟨isEnd_of_file there, linkAt?_of_free gone⟩
    · exact .inl (others q atPlace atGoal)

end Disk

end BrowserAgent
