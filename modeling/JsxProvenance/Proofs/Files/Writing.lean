import JsxProvenance.Files.Tree

/-! Writing to a file that is there. All other places keep what stands at them, and no path leads
anywhere else than before, so what was written is read back and nothing else is.
-/

namespace JsxProvenance.FileTree

variable {t u : FileTree} {p : Path} {place : List String} {old new : List UInt8}

-----------------------------------------------------------------------------------------
-- What stands at a place
-----------------------------------------------------------------------------------------

/-- Entries of other places do not count for a place, by induction over the entries. -/
theorem lookup_filter_ne {place other : List String} (apart : other ≠ place)
    (entries : List (List String × FileEntry))
    : (entries.filter (·.1 != place)).lookup other = entries.lookup other := by
  induction entries with
  | nil => rfl
  | cons first rest ih =>
      obtain ⟨key, entry⟩ := first
      by_cases here : key = place
      · have elsewhere : (other == key) = false := beq_false_of_ne (here ▸ apart)
        rw [List.filter_cons_of_neg (by simp [here]), List.lookup_cons, elsewhere, ih]
      · rw [List.filter_cons_of_pos (by simpa using here), List.lookup_cons, List.lookup_cons, ih]

/-- A file is one of the entries, since what no entry stands for is a folder at most. -/
theorem mem_entries_of_file (there : t.entry? place = some (.file old))
    : (place, .file old) ∈ t.entries := by
  unfold entry? at there
  split at there
  · next found =>
      rw [there] at found
      obtain ⟨before, after, same, _⟩ := List.lookup_eq_some_iff.mp found
      rw [same]
      exact List.mem_append_right _ List.mem_cons_self
  · split at there <;> cases there

/-- A file leads as far as the one that was put in its place. -/
theorem any_put (there : (place, .file old) ∈ t.entries) (new : List UInt8)
    (leads : List String → Bool)
    : (t.put place (.file new)).entries.any (leads ·.1) = t.entries.any (leads ·.1) := by
  rw [put, Bool.eq_iff_iff, List.any_cons, Bool.or_eq_true, List.any_eq_true, List.any_eq_true]
  constructor
  · rintro (here | ⟨entry, member, led⟩)
    · exact ⟨_, there, here⟩
    · exact ⟨entry, (List.mem_filter.mp member).1, led⟩
  · rintro ⟨entry, member, led⟩
    by_cases here : entry.1 = place
    · exact Or.inl (here ▸ led)
    · exact Or.inr ⟨entry, List.mem_filter.mpr ⟨member, by simpa using here⟩, led⟩

/-- Where a file was put there is the file, and all other places are as they were. -/
theorem entry?_put (there : t.entry? place = some (.file old)) (new : List UInt8)
    (other : List String)
    : entry? (t.put place (.file new)) other
      = if other = place then some (.file new) else t.entry? other := by
  by_cases here : other = place
  · rw [if_pos here, here, entry?, put, List.lookup_cons_self]
  · have kept : (t.put place (.file new)).entries.lookup other = t.entries.lookup other := by
      rw [put, List.lookup_cons, beq_false_of_ne here]
      exact lookup_filter_ne here t.entries
    rw [if_neg here, entry?, entry?, kept, any_put (mem_entries_of_file there)]
    rfl

-----------------------------------------------------------------------------------------
-- Where paths lead
-----------------------------------------------------------------------------------------

/-- A tree has the folders of another, and its files where the other has files. -/
def SameWays (t u : FileTree) : Prop :=
  ∀ place,
    u.entry? place = t.entry? place
    ∨ ∃ old new, t.entry? place = some (.file old) ∧ u.entry? place = some (.file new)

/-- Names lead on as they do in a tree of the same folders, by induction over them. -/
theorem SameWays.follow_eq (same : t.SameWays u) (place names : List String)
    : u.follow place names = t.follow place names := by
  induction names generalizing place with
  | nil => rfl
  | cons name rest ih =>
      rw [follow, follow]
      rcases same place with equal | ⟨old, new, file, file'⟩
      · simp only [equal, ih]
      · rw [file, file']

theorem SameWays.locate_eq (same : t.SameWays u) (folder : u.workingFolder = t.workingFolder)
    (p : Path)
    : u.locate p = t.locate p := by
  rw [locate, locate, same.follow_eq, start, start, folder]

theorem sameWays_put (there : t.entry? place = some (.file old)) (new : List UInt8)
    : t.SameWays (t.put place (.file new)) := by
  intro other
  rw [entry?_put there]
  by_cases here : other = place
  · rw [if_pos here, here]
    exact Or.inr ⟨old, new, there, rfl⟩
  · rw [if_neg here]
    exact Or.inl rfl

-----------------------------------------------------------------------------------------
-- Reading after writing
-----------------------------------------------------------------------------------------

/-- What is read at a place. -/
def contentAt (t : FileTree) (place : List String) : Except FileFault (List UInt8) :=
  match t.entry? place with
  | some (.file bytes) => .ok bytes
  | some .folder => .error .isFolder
  | some (.blocked fault) => .error fault
  | none => .error .missing

theorem read_of_locate (located : t.locate p = .ok place) : t.read p = t.contentAt place := by
  rw [read, located]
  rfl

theorem contentAt_eq_ok : t.contentAt place = .ok old ↔ t.entry? place = some (.file old) := by
  rw [contentAt]
  split <;> simp_all

/-- A file that is read stands at the place that its path leads to. -/
theorem exists_place_of_read (given : t.read p = .ok old)
    : ∃ place, t.locate p = .ok place ∧ t.entry? place = some (.file old) := by
  cases located : t.locate p with
  | error fault =>
      rw [read, located] at given
      cases given
  | ok place =>
      rw [read_of_locate located] at given
      exact ⟨place, rfl, contentAt_eq_ok.mp given⟩

/-- What is written to a file that is there is read back, and all other places are as they were. -/
theorem read_write (given : t.read p = .ok old) (new : List UInt8)
    : (t.write p new).read p = .ok new
      ∧ ∃ place,
          t.locate p = .ok place
          ∧ ∀ other, other ≠ place → entry? (t.write p new) other = t.entry? other := by
  obtain ⟨place, located, there⟩ := exists_place_of_read given
  have written : t.write p new = t.put place (.file new) := by
    rw [write, located]
  have again : (t.put place (.file new)).locate p = .ok place :=
    ((sameWays_put there new).locate_eq rfl p).trans located
  rw [written]
  refine ⟨?_, place, located, fun other apart => ?_⟩
  · rw [read_of_locate again, contentAt_eq_ok, entry?_put there, if_pos rfl]
  · rw [entry?_put there, if_neg apart]

end JsxProvenance.FileTree
