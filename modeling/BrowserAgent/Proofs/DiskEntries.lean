import BrowserAgent.Disk.Replacement
import BrowserAgent.Proofs.RunLaws

/-!
# Entries of a disk

What the operations on a disk do is said of the places where they change something. A path leads to
a place through directories and links, so it leads there as long as these stay, whatever happens to
the files.
-/

namespace BrowserAgent

namespace Disk

variable {d d' d'' : Disk} {place other goal : Place} {entry : DiskEntry} {names : List String}
  {number : Nat} {follow : Bool}

/-! ## Single entries -/

section

variable {α β : Type} [BEq α] [LawfulBEq α] {a b : α}

theorem lookup_filter_ne (entries : List (α × β)) (h : b ≠ a) :
    (entries.filter fun e => e.1 != a).lookup b = entries.lookup b := by
  induction entries with
  | nil => rfl
  | cons e entries ih =>
    obtain ⟨key, entry⟩ := e
    by_cases hp : key = a
    · subst hp
      rw [List.filter_cons_of_neg (by simp), List.lookup_cons, beq_eq_false_iff_ne.mpr h]
      exact ih
    · rw [List.filter_cons_of_pos (by simp [hp]), List.lookup_cons, List.lookup_cons, ih]

theorem lookup_filter_self (entries : List (α × β)) :
    (entries.filter fun e => e.1 != a).lookup a = none := by
  rw [List.lookup_eq_none_iff]
  intro e he
  have kept := (List.mem_filter.mp he).2
  rw [bne_iff_ne] at kept
  exact bne_iff_ne.mpr (Ne.symm kept)

end

theorem entryAt?_remove_of_ne (h : other ≠ place) :
    (d.remove place).entryAt? other = d.entryAt? other := by
  rw [entryAt?, remove, lookup_filter_ne _ h, entryAt?]

theorem entryAt?_remove_self (h : place.standing? = none) :
    (d.remove place).entryAt? place = none := by
  rw [entryAt?, h, remove, lookup_filter_self]
  rfl

theorem entryAt?_put_of_ne (h : other ≠ place) :
    (d.put place entry).entryAt? other = d.entryAt? other := by
  rw [entryAt?, put, List.lookup_cons, beq_eq_false_iff_ne.mpr h,
    ← entryAt?_remove_of_ne h (d := d), entryAt?]

theorem entryAt?_put_self (h : place.standing? = none) :
    (d.put place entry).entryAt? place = some entry := by
  rw [entryAt?, h, put, List.lookup_cons, beq_self_eq_true]
  rfl

theorem standing?_of_file (h : d.entryAt? place = some (.file number)) :
    place.standing? = none := by
  cases hs : place.standing? with
  | none => rfl
  | some e =>
    rw [entryAt?, hs, Option.some_or] at h
    obtain rfl := Option.some.inj h
    -- What always stands at a place is never a file.
    unfold Place.standing? at hs
    split at hs
    · cases hs
    · split at hs <;> cases hs

theorem linkAt?_eq_some_iff {target : Path} :
    d.linkAt? place = some target ↔ d.entryAt? place = some (.link target) := by
  rw [linkAt?]
  split
  · next found h => simp [h]
  · next h => simpa using h target

theorem linkAt?_of_entry (h : d.entryAt? place = some entry)
    (plain : ∀ target, entry ≠ .link target) :
    d.linkAt? place = none := by
  rw [Option.eq_none_iff_forall_ne_some]
  intro target link
  rw [linkAt?_eq_some_iff, h] at link
  exact plain target (Option.some.inj link)

theorem linkAt?_of_free (h : d.entryAt? place = none) : d.linkAt? place = none := by
  rw [linkAt?, h]

/-! ## Contents -/

theorem entryAt?_setContents (bytes : List UInt8) :
    (d.setContents number bytes).entryAt? place = d.entryAt? place := rfl

theorem bytesOf_setContents_self (bytes : List UInt8) :
    (d.setContents number bytes).bytesOf number = bytes := by
  rw [bytesOf, setContents, List.lookup_cons, beq_self_eq_true]
  rfl

theorem bytesOf_setContents_of_ne {m : Nat} (bytes : List UInt8) (h : m ≠ number) :
    (d.setContents number bytes).bytesOf m = d.bytesOf m := by
  rw [bytesOf, setContents, List.lookup_cons, beq_eq_false_iff_ne.mpr h]
  show (List.lookup m (d.contents.filter fun c => c.1 != number)).getD [] = _
  rw [lookup_filter_ne _ h, bytesOf]

theorem mem_entries_of_file (h : d.entryAt? place = some (.file number)) :
    (place, DiskEntry.file number) ∈ d.entries := by
  rw [entryAt?, standing?_of_file h, Option.none_or] at h
  obtain ⟨before, after, heq, -⟩ := List.lookup_eq_some_iff.mp h
  rw [heq]
  exact List.mem_append_right _ List.mem_cons_self

theorem ne_newNumber (h : d.entryAt? place = some (.file number)) : number ≠ d.newNumber := by
  have counted : number ∈ d.entries.filterMap (fun e => numberOf? e.2) ++ d.contents.map (·.1) :=
    List.mem_append_left _ (List.mem_filterMap.mpr ⟨_, mem_entries_of_file h, rfl⟩)
  exact Nat.ne_of_lt (Nat.lt_succ_of_le (List.le_max?_getD_of_mem counted))

/-! ## Ways -/

theorem descend_eq_ok_iff {name : String} {next : Place} :
    d.descend place name = .ok next ↔
      d.entryAt? place = some .directory ∧ ¬ longestName < name.utf8ByteSize ∧
        next = place.next name := by
  unfold descend
  split
  · next h => simp [h]
  · next h =>
    split
    · next long => simp [long]
    · next short => simp [h, short, eq_comm]
  · next found h heq =>
    constructor
    · rintro ⟨⟩
    · rintro ⟨directory, -⟩
      rw [directory] at heq
      exact absurd (Option.some.inj heq).symm h

/-- The names lead from the first place to the second, through so many links at most. -/
inductive Way (d : Disk) (follow : Bool) : Nat → Place → List String → Place → Prop
  | arrived (links : Nat) (place : Place) : Way d follow links place [] place
  | on {links : Nat} {place next goal : Place} {name : String} {more : List String} :
    d.descend place name = .ok next → d.linkAt? next = none → Way d follow links next more goal →
      Way d follow links place (name :: more) goal
  | stop {links : Nat} {place next : Place} {name : String} {target : Path} :
    d.descend place name = .ok next → d.linkAt? next = some target → follow = false →
      Way d follow links place [name] next
  | link {links : Nat} {place next goal : Place} {name : String} {more : List String}
      {target : Path} :
    d.descend place name = .ok next → d.linkAt? next = some target → (more = [] → follow = true) →
      Way d follow links (target.startFrom place) (target.stepsThrough ++ more) goal →
      Way d follow (links + 1) place (name :: more) goal

theorem walk_nil (links : Nat) : d.walk follow links place [] = .ok place := by
  cases links <;> rfl

theorem walk_cons (links : Nat) (name : String) :
    d.walk follow links place (name :: names) = (do
      let next ← d.descend place name
      match d.linkAt? next with
      | some target =>
        if names.isEmpty && !follow then return next
        else match links with
          | 0 => .error .tooManyLinks
          | links + 1 =>
            d.walk follow links (target.startFrom place) (target.stepsThrough ++ names)
      | none => d.walk follow links next names) := by
  cases links <;> rfl

theorem way_of_walkBy {links : Nat} {onLink : Place → List String → Except DiskError Place}
    (along : ∀ place names goal, onLink place names = .ok goal →
      ∃ fewer, links = fewer + 1 ∧ d.Way follow fewer place names goal)
    (h : d.walkBy follow onLink place names = .ok goal) :
    d.Way follow links place names goal := by
  induction names generalizing place with
  | nil =>
    cases h
    exact .arrived links _
  | cons name more ih =>
    obtain ⟨next, down, h⟩ := bind_eq_ok_iff.mp h
    cases hl : d.linkAt? next with
    | none =>
      rw [hl] at h
      exact .on down hl (ih h)
    | some target =>
      rw [hl] at h
      dsimp only at h
      split at h
      · next last =>
        cases h
        obtain ⟨rfl, stays⟩ : more = [] ∧ follow = false := by simpa using last
        exact .stop down hl stays
      · next last =>
        obtain ⟨fewer, rfl, way⟩ := along _ _ _ h
        exact .link down hl (by simpa using last) way

theorem way_of_walk {links : Nat} (h : d.walk follow links place names = .ok goal) :
    d.Way follow links place names goal := by
  induction links generalizing place names goal with
  | zero => exact way_of_walkBy (fun _ _ _ more => by cases more) h
  | succ links ih => exact way_of_walkBy (fun _ _ _ more => ⟨links, rfl, ih more⟩) h

theorem walk_of_way {links : Nat} (h : d.Way follow links place names goal) :
    d.walk follow links place names = .ok goal := by
  induction h with
  | arrived => exact walk_nil _
  | on down free _ ih =>
    simp only [walk_cons, down, free, bind, Except.bind]
    exact ih
  | stop down link stays =>
    simp [walk_cons, down, link, stays, bind, Except.bind, pure, Except.pure]
  | link down link last _ ih =>
    simp only [walk_cons, down, link, bind, Except.bind]
    rw [if_neg (by simpa using last)]
    exact ih

theorem walk_eq_ok_iff {links : Nat} :
    d.walk follow links place names = .ok goal ↔ d.Way follow links place names goal :=
  ⟨way_of_walk, walk_of_way⟩

theorem reach_eq_ok_iff {p : Path} :
    d.reach p follow = .ok goal ↔
      pathFault? p = none ∧ p.text ≠ "" ∧
        d.Way (follow || p.namesDirectory) mostLinks (p.startFrom []) p.steps goal := by
  rw [reach]
  cases pathFault? p with
  | some e => simp
  | none => by_cases empty : p.text = "" <;> simp [empty, walk_eq_ok_iff]

namespace Way

variable {links : Nat} {around : Place} {name : String}

/-- Only the last name is left where a link at the end is not followed. -/
theorem concat_iff :
    d.Way false links place (names ++ [name]) goal ↔
      ∃ around, d.Way true links place names around ∧ d.descend around name = .ok goal := by
  constructor
  · intro way
    generalize written : names ++ [name] = all at way
    induction way generalizing names with
    | arrived => cases names <;> cases written
    | @on links place next goal first more down free way ih =>
      cases names with
      | nil =>
        cases written
        cases way
        exact ⟨place, .arrived links place, down⟩
      | cons first names =>
        cases written
        obtain ⟨around, way, last⟩ := ih rfl
        exact ⟨around, .on down free way, last⟩
    | @stop links place next first target down link stays =>
      obtain ⟨rfl, rfl⟩ : names = [] ∧ name = first := by
        cases names with
        | nil => exact ⟨rfl, (List.cons.inj written).1⟩
        | cons => simp at written
      exact ⟨place, .arrived links place, down⟩
    | @link links place next goal first more target down link last way ih =>
      cases names with
      | nil =>
        cases written
        exact absurd (last rfl) Bool.false_ne_true
      | cons first names =>
        cases written
        obtain ⟨around, way, final⟩ := ih (List.append_assoc _ _ _)
        exact ⟨around, .link down link (fun _ => rfl) way, final⟩
  · rintro ⟨around, way, last⟩
    induction way with
    | arrived links place =>
      cases hl : d.linkAt? goal with
      | none => exact .on last hl (.arrived links goal)
      | some target => exact .stop last hl rfl
    | on down free _ ih => exact .on down free (ih last)
    | stop _ _ stays => cases stays
    | link down link _ _ ih =>
      have on := ih last
      rw [List.append_assoc] at on
      exact .link down link (fun none => absurd none (by simp)) on

/-- A way to a place where no link stands is the same with links followed. -/
theorem through (way : d.Way false links place names goal) (free : d.linkAt? goal = none) :
    d.Way true links place names goal := by
  induction way with
  | arrived links place => exact .arrived links place
  | on down plain _ ih => exact .on down plain (ih free)
  | stop _ link =>
    rw [free] at link
    cases link
  | link down link _ _ ih => exact .link down link (fun _ => rfl) (ih free)

theorem exists_short (way : d.Way true links place names goal) :
    ∃ stop, d.Way false links place names stop := by
  induction way with
  | arrived links place => exact ⟨place, .arrived links place⟩
  | on down plain _ ih =>
    obtain ⟨stop, way⟩ := ih
    exact ⟨stop, .on down plain way⟩
  | stop _ _ stays => cases stays
  | @link links place next goal name more target down link _ _ ih =>
    obtain ⟨stop, way⟩ := ih
    cases more with
    | nil => exact ⟨next, .stop down link rfl⟩
    | cons => exact ⟨stop, .link down link nofun way⟩

theorem start_directory (way : d.Way true links place names goal)
    (directory : d.entryAt? goal = some .directory) : d.entryAt? place = some .directory := by
  cases way with
  | arrived => exact directory
  | on down | stop down | link down => exact (descend_eq_ok_iff.mp down).1

/-- A way to a directory leads only through directories and links, so it is there as long as these
are. -/
theorem to_directory
    (kept : ∀ q, d.entryAt? q = some .directory ∨ (d.linkAt? q).isSome →
      d'.entryAt? q = d.entryAt? q)
    (way : d.Way true links place names goal) (directory : d.entryAt? goal = some .directory) :
    d'.Way true links place names goal := by
  have descends {place next : Place} {name : String} (down : d.descend place name = .ok next) :
      d'.descend place name = .ok next := by
    obtain ⟨there, rest⟩ := descend_eq_ok_iff.mp down
    exact descend_eq_ok_iff.mpr ⟨(kept _ (.inl there)).trans there, rest⟩
  induction way with
  | arrived links place => exact .arrived links place
  | @on links place next goal name more down plain way ih =>
    have there := way.start_directory directory
    have still : d'.linkAt? next = none :=
      linkAt?_of_entry ((kept _ (.inl there)).trans there) nofun
    exact .on (descends down) still (ih directory)
  | stop _ _ stays => cases stays
  | @link links place next goal name more target down link last _ ih =>
    have still : d'.linkAt? next = some target := by
      rw [linkAt?_eq_some_iff, kept next (.inr (by rw [link]; rfl)), ← linkAt?_eq_some_iff, link]
    exact .link (descends down) still last (ih directory)

theorem unique {goal' : Place} (way : d.Way follow links place names goal)
    (way' : d.Way follow links place names goal') : goal = goal' :=
  Except.ok.inj ((walk_of_way way).symm.trans (walk_of_way way'))

end Way

/-- A path on which no link is left to be followed leads to one place, however it is read. -/
theorem reach_short {p : Path} (reached : d.reach p true = .ok place)
    (plain : ∀ stop, d.reach p false = .ok stop → d.linkAt? stop = none) :
    d.reach p false = .ok place := by
  obtain ⟨sound, written, way⟩ := reach_eq_ok_iff.mp reached
  cases asks : p.namesDirectory with
  | true => exact reach_eq_ok_iff.mpr ⟨sound, written, by rwa [asks]⟩
  | false =>
    obtain ⟨stop, short⟩ := Way.exists_short way
    have stops : d.reach p false = .ok stop :=
      reach_eq_ok_iff.mpr ⟨sound, written, by rwa [asks]⟩
    obtain rfl := (short.through (plain stop stops)).unique way
    exact stops

theorem reach_through {p : Path} (reached : d.reach p false = .ok place)
    (plain : d.linkAt? place = none) : d.reach p true = .ok place := by
  obtain ⟨sound, written, way⟩ := reach_eq_ok_iff.mp reached
  refine reach_eq_ok_iff.mpr ⟨sound, written, ?_⟩
  cases asks : p.namesDirectory with
  | true => rwa [asks] at way
  | false =>
    rw [asks] at way
    exact way.through plain

/-! ## Changes that leave the ways as they are -/

/-- All ways of the first disk are there in the second. -/
structure KeepsWays (d d' : Disk) : Prop where
  directories : ∀ q, d.entryAt? q = some .directory → d'.entryAt? q = some .directory
  links : ∀ q, d'.linkAt? q = d.linkAt? q

/-- No way leads on from the place: there is a file, or nothing. -/
def IsEnd (d : Disk) (place : Place) : Prop :=
  d.entryAt? place ≠ some .directory ∧ d.linkAt? place = none

theorem isEnd_of_file (h : d.entryAt? place = some (.file number)) : d.IsEnd place :=
  ⟨by rw [h]; nofun, linkAt?_of_entry h nofun⟩

theorem isEnd_of_free (h : d.entryAt? place = none) : d.IsEnd place :=
  ⟨by rw [h]; nofun, linkAt?_of_free h⟩

namespace KeepsWays

/-- Wherever something changes, no way has led on from there, and no link is there now. -/
theorem of_changes (h : ∀ q, d'.entryAt? q = d.entryAt? q ∨ d.IsEnd q ∧ d'.linkAt? q = none) :
    KeepsWays d d' where
  directories q directory := by
    rcases h q with same | ⟨⟨file, -⟩, -⟩
    · rw [same, directory]
    · exact absurd directory file
  links q := by
    rcases h q with same | ⟨⟨-, before⟩, after⟩
    · rw [linkAt?, linkAt?, same]
    · rw [before, after]

theorem refl (d : Disk) : KeepsWays d d := ⟨fun _ => id, fun _ => rfl⟩

theorem trans (first : KeepsWays d d') (second : KeepsWays d' d'') : KeepsWays d d'' where
  directories q directory := second.directories q (first.directories q directory)
  links q := (second.links q).trans (first.links q)

theorem descend (h : KeepsWays d d') {name : String} (down : d.descend place name = .ok goal) :
    d'.descend place name = .ok goal := by
  obtain ⟨directory, short, rfl⟩ := descend_eq_ok_iff.mp down
  exact descend_eq_ok_iff.mpr ⟨h.directories _ directory, short, rfl⟩

theorem way (h : KeepsWays d d') {links : Nat} (way : d.Way follow links place names goal) :
    d'.Way follow links place names goal := by
  induction way with
  | arrived links place => exact .arrived links place
  | on down free _ ih => exact .on (h.descend down) ((h.links _).trans free) ih
  | stop down link stays => exact .stop (h.descend down) ((h.links _).trans link) stays
  | link down link last _ ih => exact .link (h.descend down) ((h.links _).trans link) last ih

/-- Taking away what stands at a place leaves the ways that do not lead through it. -/
theorem remove (h : KeepsWays d d') (free : goal.standing? = none) :
    KeepsWays (d.remove goal) (d'.remove goal) where
  directories q directory := by
    by_cases here : q = goal
    · subst here
      rw [entryAt?_remove_self free] at directory
      cases directory
    · rw [entryAt?_remove_of_ne here] at directory ⊢
      exact h.directories q directory
  links q := by
    by_cases here : q = goal
    · subst here
      rw [linkAt?_of_free (entryAt?_remove_self free), linkAt?_of_free (entryAt?_remove_self free)]
    · have same := h.links q
      rwa [linkAt?, linkAt?, ← entryAt?_remove_of_ne here (d := d'),
        ← entryAt?_remove_of_ne here (d := d)] at same

theorem reach (h : KeepsWays d d') {p : Path} (reached : d.reach p follow = .ok goal) :
    d'.reach p follow = .ok goal := by
  obtain ⟨sound, written, way⟩ := reach_eq_ok_iff.mp reached
  exact reach_eq_ok_iff.mpr ⟨sound, written, h.way way⟩

end KeepsWays

end Disk

end BrowserAgent
