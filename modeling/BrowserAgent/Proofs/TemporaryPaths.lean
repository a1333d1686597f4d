import BrowserAgent.Proofs.DiskEntries
import BrowserAgent.Proofs.JoinedLines

/-!
# The path beside a file

A path with `.tmp` after it leads into the directory of the file, or into the directory that the
path itself leads to, and never to the place of the file.
-/

namespace BrowserAgent

namespace Path

/-! ## The names of a path -/

theorem temporary_segments (p : Path) :
    ∃ before last, p.segments = before ++ [last] ∧
      p.temporary.segments = before ++ [last ++ ".tmp"] := by
  obtain ⟨before, last, first, more, hp, htmp, hboth⟩ :=
    Text.splitAtChar_append '/' p.text.toList ".tmp".toList
  obtain ⟨rfl, rfl⟩ : first = ".tmp".toList ∧ more = [] := by
    have whole : Text.splitAtChar '/' ".tmp".toList = [".tmp".toList] := by decide
    rw [whole] at htmp
    exact ⟨(List.cons.inj htmp).1.symm, (List.cons.inj htmp).2.symm⟩
  refine ⟨before.map String.ofList, String.ofList last, ?_, ?_⟩
  · rw [segments, hp, List.map_append, List.map_singleton]
  · rw [segments, temporary, String.toList_append, hboth, List.map_append, List.map_singleton,
      String.ofList_append, String.ofList_toList]

theorem temporary_startFrom (p : Path) (base : Place) :
    p.temporary.startFrom base = p.startFrom base := by
  have same : p.temporary.isAbsolute = p.isAbsolute := by
    rw [isAbsolute, isAbsolute, temporary, String.toList_append]
    cases p.text.toList with
    | nil => decide
    | cons c cs => rfl
  rw [startFrom, startFrom, same]

theorem steps_concat {p : Path} {before : List String} {last : String}
    (hs : p.segments = before ++ [last]) :
    p.steps =
      (before.filter fun s => !saysNothing s) ++ if saysNothing last then [] else [last] := by
  rw [steps, hs, List.filter_append]
  cases h : saysNothing last with
  | true => rw [List.filter_cons_of_neg (by simp [h]), List.filter_nil, if_pos rfl]
  | false =>
    rw [List.filter_cons_of_pos (by simp [h]), List.filter_nil, if_neg (by decide)]

theorem ne_dot_of_says {s : String} (h : saysNothing s = false) : s ≠ "." := by
  rintro rfl
  exact absurd h (by decide)

theorem namesDirectory_eq_false {p : Path} {before : List String} {last : String}
    (hs : p.segments = before ++ [last]) (solid : saysNothing last = false) :
    p.namesDirectory = false := by
  rw [namesDirectory, hs, List.getLast?_concat, Option.any_some, solid, Bool.and_false]

theorem appended_says (last : String) :
    saysNothing (last ++ ".tmp") = false ∧ last ++ ".tmp" ≠ ".." := by
  -- No text, one dot and two dots are all shorter than the extension alone.
  have size : 4 ≤ (last ++ ".tmp").length := by
    rw [String.length_append]
    exact Nat.le_add_left 4 _
  refine ⟨?_, ?_⟩
  · rw [saysNothing, Bool.or_eq_false_iff, beq_eq_false_iff_ne, beq_eq_false_iff_ne]
    constructor <;> (intro h; rw [h] at size; exact absurd size (by decide))
  · intro h
    rw [h] at size
    exact absurd size (by decide)

/-! ## The file name -/

end Path

namespace Place

theorem next_of_ne {place : Place} {name : String} (up : name ≠ "..") (stay : name ≠ ".") :
    place.next name = place ++ [name] := by
  rw [next, if_neg up, if_neg stay]

end Place

namespace Disk

variable {d : Disk} {p : Path} {q t : Place}

section

variable {before : List String} {last : String}

/-- Where the last segment is a name, the path leads one step on from the directory around it. -/
theorem reach_concat_iff (hs : p.segments = before ++ [last])
    (solid : Path.saysNothing last = false) :
    d.reach p false = .ok q ↔
      pathFault? p = none ∧ p.text ≠ "" ∧
        ∃ around, d.Way true mostLinks (p.startFrom []) (before.filter fun s => !Path.saysNothing s)
          around ∧ d.descend around last = .ok q := by
  rw [reach_eq_ok_iff, Path.namesDirectory_eq_false hs solid, Path.steps_concat hs, solid,
    if_neg Bool.false_ne_true, Bool.or_false, Way.concat_iff]

/-- The temporary file lies in the directory around the path, or in the one that it asks for. -/
theorem reach_temporary_iff (hts : p.temporary.segments = before ++ [last ++ ".tmp"]) :
    d.reach p.temporary false = .ok t ↔
      pathFault? p.temporary = none ∧ p.temporary.text ≠ "" ∧
        ∃ around, d.Way true mostLinks (p.startFrom []) (before.filter fun s => !Path.saysNothing s)
            around ∧
          d.entryAt? around = some .directory ∧ ¬ longestName < (last ++ ".tmp").utf8ByteSize ∧
            t = around ++ [last ++ ".tmp"] := by
  obtain ⟨solid, up⟩ := Path.appended_says last
  rw [reach_concat_iff hts solid, Path.temporary_startFrom]
  simp only [descend_eq_ok_iff, Place.next_of_ne up (Path.ne_dot_of_says solid)]

end

end Disk

end BrowserAgent
