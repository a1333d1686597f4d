/-!
# Tables by name

A table holds one entry for each name, in ascending order of the names. An entry that is added is
found under its name, and every other name finds what it found before. So of entries added one after
the other the last with a name is found, and entries with different names may as well be added in
another order.
-/

namespace BrowserAgent

abbrev Table (α : Type) := List (String × α)

namespace Table

/-- Adds an entry, in place of one with the same name. -/
def insert {α : Type} (name : String) (value : α) : Table α → Table α
  | [] => [(name, value)]
  | (other, kept) :: more =>
    if name < other then (name, value) :: (other, kept) :: more
    else if name = other then (name, value) :: more
    else (other, kept) :: insert name value more

def find? {α : Type} (table : Table α) (name : String) : Option α := table.lookup name

/-! ## Added entries -/

variable {α : Type}

theorem find?_insert (table : Table α) (name other : String) (value : α) :
    (table.insert name value).find? other =
      if other = name then some value else table.find? other := by
  fun_induction insert name value table with
  | case1 | case2 | case3 =>
    by_cases h : other = name
    · simp [find?, h]
    · simp [find?, List.lookup_cons, beq_false_of_ne h, h]
  | case4 key kept more _ hne ih =>
    rw [find?, find?, List.lookup_cons, List.lookup_cons]
    by_cases h : other = key
    · rw [h, beq_self_eq_true, if_neg (Ne.symm hne)]
    · rw [beq_false_of_ne h]
      exact ih

theorem find?_foldl_insert (table : Table α) (entries : List (String × α)) (name : String) :
    (entries.foldl (fun table entry => table.insert entry.1 entry.2) table).find? name =
      (entries.reverse.lookup name).or (table.find? name) := by
  induction entries generalizing table with
  | nil => rfl
  | cons entry more ih =>
    rw [List.foldl_cons, ih, find?_insert, List.reverse_cons, List.lookup_append, Option.or_assoc,
      List.lookup_cons]
    by_cases h : name = entry.1
    · rw [if_pos h, h, beq_self_eq_true, Option.some_or]
    · rw [if_neg h, beq_false_of_ne h, List.lookup_nil, Option.none_or]

theorem insert_insert (table : Table α) (name : String) (value value' : α) :
    (table.insert name value).insert name value' = table.insert name value' := by
  fun_induction insert name value table with
  | case1 => simp [insert]
  | case2 key kept more h => simp [insert, h]
  | case3 key more h => simp [insert]
  | case4 key kept more h hne ih =>
    rw [insert, if_neg h, if_neg hne, ih, insert, if_neg h, if_neg hne]

theorem insert_comm (table : Table α) {name other : String} (h : name ≠ other) (value value' : α) :
    (table.insert name value).insert other value' =
      (table.insert other value').insert name value := by
  induction table with
  | nil => grind [insert]
  | cons entry more ih => grind [insert]

variable {entries : List (String × α)} {name : String}

theorem foldl_insert_of_unnamed (h : ∀ entry ∈ entries, entry.1 ≠ name) (table : Table α)
    (value : α) :
    entries.foldl (fun table entry => table.insert entry.1 entry.2) (table.insert name value) =
      (entries.foldl (fun table entry => table.insert entry.1 entry.2) table).insert name
        value := by
  induction entries generalizing table with
  | nil => rfl
  | cons entry more ih =>
    obtain ⟨here, later⟩ := List.forall_mem_cons.mp h
    rw [List.foldl_cons, List.foldl_cons, insert_comm table here.symm, ih later]

theorem foldl_insert_of_named (h : ∃ entry ∈ entries, entry.1 = name) (table : Table α)
    (value : α) :
    entries.foldl (fun table entry => table.insert entry.1 entry.2) (table.insert name value) =
      entries.foldl (fun table entry => table.insert entry.1 entry.2) table := by
  induction entries generalizing table with
  | nil => simp at h
  | cons entry more ih =>
    rw [List.foldl_cons, List.foldl_cons]
    by_cases here : entry.1 = name
    · rw [here, insert_insert]
    · have later : ∃ entry ∈ more, entry.1 = name := by simpa [here] using h
      rw [insert_comm table (Ne.symm here), ih later]

end Table

end BrowserAgent
