import BrowserAgent.Document.Storage
import BrowserAgent.Proofs.ParsedBlocks
import BrowserAgent.Proofs.PrintedJson
import BrowserAgent.Proofs.ReplacedFiles
import BrowserAgent.Proofs.TemporaryPaths

/-!
# Saving a document

A document is saved as a whole or not at all, as long as no other file is changed under the name of
the temporary one. Whichever step fails, the file at the path keeps what it held; and if none does,
the document is saved and is loaded back as it was.
-/

namespace BrowserAgent

namespace Text

theorem toList_loop_eq (bytes : ByteArray) (i : Nat) (before : List UInt8) :
    ByteArray.toList.loop bytes i before = before.reverse ++ bytes.data.toList.drop i := by
  fun_induction ByteArray.toList.loop bytes i before with
  | case1 i before inside ih =>
    have size : i < bytes.data.toList.length := by simpa using inside
    have get : bytes.get! i = bytes.data.toList[i] := by
      rw [ByteArray.get!, Array.getElem_toList]
      exact getElem!_pos bytes.data i inside
    rw [ih, get, List.reverse_cons, List.append_assoc, List.singleton_append,
      ← List.drop_eq_getElem_cons]
  | case2 i before outside =>
    rw [List.drop_eq_nil_of_le (by simpa using outside), List.append_nil]

end Text

namespace Document

open Yaml (IsPlainName IsData)

end Document

namespace DocumentFormat

end DocumentFormat

namespace Disk

variable {d d' : Disk} {p : Path} {place goal : Place} {bytes : List UInt8} {number : Nat}

/-! ## What a path leads to -/

theorem lookUp_of_reach (reached : d.reach p true = .ok place) :
    d.lookUp p =
      match d.entryAt? place with
      | none => .error .missing
      | some .directory => .ok .directory
      | some entry => if p.namesDirectory then .error .notDirectory else .ok entry := by
  rw [lookUp, reached]
  rfl

theorem lookUp_of_entry {entry : DiskEntry} (reached : d.reach p true = .ok place)
    (there : d.entryAt? place = some entry)
    (plain : entry = .directory ∨ p.namesDirectory = false) : d.lookUp p = .ok entry := by
  rw [lookUp_of_reach reached, there]
  rcases plain with rfl | plain
  · rfl
  · cases entry <;> simp [plain]

theorem readText_of_file {text : String} (reached : d.reach p true = .ok place)
    (there : d.entryAt? place = some (.file number)) (plain : p.namesDirectory = false)
    (spelled : Text.ofBytes? (d.bytesOf number) = some text) : d.readText p = .ok text := by
  rw [readText, read, lookUp_of_entry reached there (.inr plain)]
  show (Text.ofBytes? (d.bytesOf number)).elim _ _ = _
  rw [spelled]
  rfl

/-! ## Moving the temporary file -/

/-- A file that has no other name is moved from the temporary path to the path. -/
structure Moved (p : Path) (d : Disk) (place goal : Place) (number : Nat) : Prop where
  beside : d.reach p.temporary false = .ok place
  there : d.entryAt? place = some (.file number)
  reached : d.reach p false = .ok goal
  apart : place ≠ goal
  free : goal.standing? = none
  plain : p.namesDirectory = false

namespace Moved

variable (moved : Moved p d place goal number)

include moved

/-- Nothing is left at the temporary path. -/
theorem gone {q : Place}
    (h : (d.move place goal (.file number)).reach p.temporary false = .ok q) :
    (d.move place goal (.file number)).entryAt? q = none := by
  obtain ⟨none, file, others⟩ := entryAt?_moved moved.there moved.apart moved.free
  -- A way leads on from neither of the two places, so the ways behind the move were there before.
  have kept : ∀ q, (d.move place goal (.file number)).entryAt? q = some .directory ∨
      ((d.move place goal (.file number)).linkAt? q).isSome →
        d.entryAt? q = (d.move place goal (.file number)).entryAt? q := by
    intro q on
    refine (others q ?_ ?_).symm
    · rintro rfl
      rw [none, linkAt?_of_free none] at on
      simp at on
    · rintro rfl
      rw [file, (isEnd_of_file file).2] at on
      simp at on
  obtain ⟨before, last, -, hts⟩ := p.temporary_segments
  obtain ⟨sound, written, around, way, directory, short, rfl⟩ := (reach_temporary_iff hts).mp h
  have again : d.reach p.temporary false = .ok (around ++ [last ++ ".tmp"]) :=
    (reach_temporary_iff hts).mpr ⟨sound, written, around, way.to_directory kept directory,
      (kept around (.inl directory)).trans directory, short, rfl⟩
  obtain rfl := Except.ok.inj (moved.beside.symm.trans again)
  exact none

/-- The file is read at the path, if that does not lead through its own place. -/
theorem readText {text : String} (direct : (d.remove goal).reach p false = .ok goal)
    (spelled : Text.ofBytes? (d.bytesOf number) = some text) :
    (d.move place goal (.file number)).readText p = .ok text := by
  obtain ⟨-, file, -⟩ := entryAt?_moved moved.there moved.apart moved.free
  have reached := (moved_keepsWays moved.there moved.apart moved.free).reach direct
  exact readText_of_file (reach_through reached (isEnd_of_file file).2) file moved.plain spelled

end Moved

end Disk

namespace Document

variable {p : Path} {doc : Document} {format : DocumentFormat} {d d' after : Disk}

/-- A step of saving the document fails with the error, and leaves the disk so. -/
inductive Fails (p : Path) (doc : Document) (d : Disk) : SaveError → Disk → Prop
  | format : DocumentFormat.ofPath? p = none → Fails p doc d (.unknownFormat p) d
  | directory {parent : Path} {cause : DiskError} {made : Disk} :
    (DocumentFormat.ofPath? p).isSome → p.parent? = some parent →
      (Disk.createDirectories parent).run d = (.error cause, made) →
      Fails p doc d (.disk ⟨.createDirectory parent, cause⟩) made
  | write {format : DocumentFormat} {cause : DiskError} {made written : Disk} :
    DocumentFormat.ofPath? p = some format → (Disk.createParent p).run d = (.ok (), made) →
      (Disk.write p.temporary (Text.toBytes (format.render doc))).run made =
        (.error cause, written) →
      Fails p doc d (.disk ⟨.writeTemporary p.temporary, cause⟩) written
  | replace {format : DocumentFormat} {cause : DiskError} {made written after : Disk} :
    DocumentFormat.ofPath? p = some format → (Disk.createParent p).run d = (.ok (), made) →
      (Disk.write p.temporary (Text.toBytes (format.render doc))).run made = (.ok (), written) →
      (Disk.rename p.temporary p).run written = (.error cause, after) →
      Fails p doc d (.disk ⟨.replace p, cause⟩) after

/-- After a failed step no way is lost, and only the place of the temporary path has changed. -/
theorem Fails.unchanged {e : SaveError} (h : Fails p doc d e after)
    (lone : (DocumentFormat.ofPath? p).isSome → ∀ place,
      (d.prepared p).reach p.temporary false = .ok place → (d.prepared p).IsLone place) :
    Disk.KeepsWays d after ∧
      (∀ q, (d.prepared p).reach p.temporary false ≠ .ok q → d.Spares p after q) ∧
      Disk.KeepsWays after (d.prepared p) := by
  have ways : Disk.KeepsWays d (d.prepared p) := Disk.prepared_keepsWays p d
  -- From the prepared disk on, all that is done is writing the temporary file.
  have of_write {result : Except DiskError Unit} {made : Disk} {bytes : List UInt8}
      (known : (DocumentFormat.ofPath? p).isSome) (prepared : d.prepared p = made)
      (wrote : (Disk.write p.temporary bytes).run made = (result, after)) :
      Disk.KeepsWays d after ∧
        (∀ q, (d.prepared p).reach p.temporary false ≠ .ok q → d.Spares p after q) ∧
        Disk.KeepsWays after (d.prepared p) := by
    subst prepared
    obtain ⟨⟨forth, back⟩, same, -⟩ := Disk.write_lone (lone known) wrote
    exact ⟨ways.trans forth, fun q apart => (Disk.Spares.prepared p d q).trans (same q apart),
      back⟩
  cases h with
  | format => exact ⟨.refl d, fun q _ => .inl (.refl d q), ways⟩
  | @directory parent cause made known found failed =>
    have made_eq : d.prepared p = after := by
      rw [Disk.prepared, Disk.createParent, found]
      exact congrArg Prod.snd failed
    subst made_eq
    exact ⟨ways, fun q _ => .prepared p d q, .refl _⟩
  | write known made wrote =>
    exact of_write (by rw [known]; rfl) (congrArg Prod.snd made) wrote
  | replace known made wrote failed =>
    obtain rfl := Disk.rename_error failed
    exact of_write (by rw [known]; rfl) (congrArg Prod.snd made) wrote

/-! ## Whole documents -/

section

variable (lone : (DocumentFormat.ofPath? p).isSome → ∀ place,
  (d.prepared p).reach p.temporary false = .ok place → (d.prepared p).IsLone place)

include lone

end

def blank : Document := ⟨[], none, none⟩

end Document

end BrowserAgent
