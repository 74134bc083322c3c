import Mathlib.Data.List.Basic
import MessageWire.Command.Machine
/-!
# Files that were created

A path that a file can be created at leads to the file afterwards (`Machine.Creatable.locate_put`), whatever is
written to it. So what is written to a new file is what it holds (`Machine.Creatable.write_put`), and what is read from
it (`Machine.Creatable.read_put`). Directories are not touched, and it is only through directories that a path goes.
-/

namespace MessageWire.Machine

variable {m : Machine} {l l' : Location} {node : FileNode} {path : String}

def printing (m : Machine) (data : Bytes) : Machine := { m with output := m.output.appendList data }

@[simp] theorem printing_nil (m : Machine) : m.printing [] = m := rfl

theorem printing_printing (m : Machine) (data more : Bytes) :
    (m.printing data).printing more = m.printing (data ++ more) := by
  have houtput : (m.output.appendList data).appendList more = m.output.appendList (data ++ more) := by
    apply Array.toList_inj.mp
    simp only [Array.appendList_eq_append, Array.toList_appendList, List.append_assoc]
  rw [printing, printing, printing, houtput]

/-! ### Files put in place -/

theorem put_put (m : Machine) (l : Location) (node node' : FileNode) : (m.put l node).put l node' = m.put l node' := by
  simp [put, List.filter_filter]

theorem node?_put_self (m : Machine) (l : Location) (node : FileNode) : (m.put l node).node? l = some node := by
  simp [node?, put]

theorem lookup_put_of_ne (m : Machine) (node : FileNode) (hne : l' ≠ l) :
    (m.put l node).files.lookup l' = m.files.lookup l' := by
  have hother : (l' == l) = false := beq_eq_false_iff_ne.mpr hne
  have hkept (files : List (Location × FileNode)) : (files.filter (·.1 ≠ l)).lookup l' = files.lookup l' := by
    induction files with
    | nil => rfl
    | cons entry files ih =>
      obtain ⟨at', found⟩ := entry
      by_cases heq : at' = l
      · subst heq
        rw [List.filter_cons_of_neg (by simp), ih, List.lookup_cons, hother]
      · have hkeep : decide ((at', found).1 ≠ l) = true := decide_eq_true heq
        rw [List.filter_cons, if_pos hkeep, List.lookup_cons, List.lookup_cons, ih]
  rw [put, List.lookup_cons, hother]
  exact hkept m.files

theorem mem_put (m : Machine) (l : Location) (node : FileNode) {at' : Location}
    (h : at' ∈ m.workingDirectory :: m.files.map (·.1)) :
    at' ∈ (m.put l node).workingDirectory :: (m.put l node).files.map (·.1) := by
  obtain rfl | hfiles := List.mem_cons.mp h
  · exact List.mem_cons_self
  · refine List.mem_cons_of_mem _ ?_
    by_cases heq : at' = l
    · subst heq
      exact List.mem_cons_self
    · obtain ⟨entry, hentry, rfl⟩ := List.mem_map.mp hfiles
      have hkept : entry ∈ m.files.filter (·.1 ≠ l) := List.mem_filter.mpr ⟨hentry, decide_eq_true heq⟩
      exact List.mem_cons_of_mem _ (List.mem_map_of_mem hkept)

theorem directory_put (hne : l' ≠ l) (h : m.node? l' = some .directory) :
    (m.put l node).node? l' = some .directory := by
  unfold node? at h ⊢
  rw [lookup_put_of_ne m node hne]
  cases hlookup : m.files.lookup l' with
  | some found => rwa [hlookup] at h
  | none =>
    rw [hlookup] at h
    have hbeneath : (m.workingDirectory :: m.files.map (·.1)).any l'.isPrefixOf = true := by
      cases hany : (m.workingDirectory :: m.files.map (·.1)).any l'.isPrefixOf with
      | true => rfl
      | false => simp [hany] at h
    obtain ⟨at', hat, hprefix⟩ := List.any_eq_true.mp hbeneath
    exact if_pos (List.any_eq_true.mpr ⟨at', mem_put m l node hat, hprefix⟩)

/-! ### Paths -/

theorem directory_of_enter {name : String} (h : m.enter l name = .ok l') : m.node? l = some .directory := by
  unfold enter at h
  split at h
  · cases h
  · assumption
  · cases h

theorem eq_of_enter_empty (h : m.enter l "" = .ok l') : l' = l := by
  rw [enter, directory_of_enter h] at h
  cases h
  rfl

theorem follow_concat {front : List String} {last : String} (hlast : last ≠ "") (hfront : m.follow front = .ok l) :
    m.follow (front ++ [last]) = m.enter l last := by
  have hstart : (if (front ++ [last]).head? = some "" then [] else m.workingDirectory)
      = if front.head? = some "" then [] else m.workingDirectory := by
    cases front with
    | nil => simp [hlast]
    | cons first front => rfl
  rw [follow] at hfront ⊢
  rw [hstart, List.foldlM_append, hfront]
  exact bind_pure (m.enter l last)

/-- What has to be for a file to be created: all names but the last lead to a directory, and the last one is no mark
for a directory. -/
theorem locateNew_eq_ok (h : m.locateNew path = .ok l) :
    ∃ given parent, names path = .ok given ∧
      let body := (given.reverse.dropWhile (· = "")).reverse
      m.follow body.dropLast = .ok parent ∧ ¬ body.length < given.length
        ∧ m.enter parent (body.getLastD "") = .ok l := by
  unfold locateNew at h
  cases hnames : names path with
  | error e =>
    rw [hnames] at h
    cases h
  | ok given =>
    simp only [hnames, bind, Except.bind] at h
    cases hfollow : m.follow (given.reverse.dropWhile (· = "")).reverse.dropLast with
    | error e =>
      rw [hfollow] at h
      cases h
    | ok found =>
      simp only [hfollow] at h
      cases hparent : m.enter found "" with
      | error e =>
        rw [hparent] at h
        cases h
      | ok parent =>
        simp only [hparent] at h
        split at h
        case isTrue => cases h
        case isFalse hplain =>
          rw [eq_of_enter_empty hparent] at h
          exact ⟨given, found, rfl, hfollow, fun hlt => hplain (.inl hlt), h⟩

/-- Names keep their number if no empty ones are taken from the end, and then they are kept. -/
theorem trimmed_concat {front : List String} {last : String}
    (h : ¬ ((front ++ [last]).reverse.dropWhile (· = "")).reverse.length < (front ++ [last]).length) :
    last ≠ "" ∧ ((front ++ [last]).reverse.dropWhile (· = "")).reverse = front ++ [last] := by
  have hshort := (List.dropWhile_suffix (fun name => decide (name = "")) (l := front.reverse)).length_le
  rw [List.reverse_concat, List.dropWhile_cons] at h ⊢
  by_cases hlast : last = ""
  · rw [if_pos (decide_eq_true hlast)] at h
    simp only [List.length_reverse, List.length_append, List.length_singleton] at h hshort
    omega
  · have hkeep : ¬ decide (last = "") = true := fun hempty => hlast (of_decide_eq_true hempty)
    rw [if_neg hkeep, List.reverse_cons, List.reverse_reverse]
    exact ⟨hlast, rfl⟩

theorem locate_of_locateNew (h : m.locateNew path = .ok l) : m.locate path = .ok l := by
  obtain ⟨given, parent, hnames, hfollow, hplain, henter⟩ := locateNew_eq_ok h
  have hlocate : m.locate path = m.follow given := by
    rw [locate, hnames]
    rfl
  rw [hlocate]
  -- The new file is looked for by the last name alone, and the path by all of them.
  obtain rfl | ⟨front, last, rfl⟩ := List.eq_nil_or_concat' given
  · obtain rfl := eq_of_enter_empty henter
    exact hfollow
  · obtain ⟨hlast, hbody⟩ := trimmed_concat hplain
    rw [hbody, List.dropLast_concat] at hfollow
    rw [hbody, List.getLastD_concat] at henter
    exact (follow_concat hlast hfollow).trans henter

variable (hfile : m.node? l ≠ some .directory)

include hfile

theorem enter_put {at' : Location} {name : String} (h : m.enter at' name = .ok l') :
    (m.put l node).enter at' name = .ok l' := by
  have hdirectory := directory_of_enter h
  have hne : at' ≠ l := fun heq => hfile (heq ▸ hdirectory)
  rw [enter, directory_put hne hdirectory]
  rwa [enter, hdirectory] at h

theorem follow_put {names : List String} (h : m.follow names = .ok l') : (m.put l node).follow names = .ok l' := by
  have hall (names : List String) (start : Location) (h : names.foldlM m.enter start = .ok l') :
      names.foldlM (m.put l node).enter start = .ok l' := by
    induction names generalizing start with
    | nil => exact h
    | cons name names ih =>
      rw [List.foldlM_cons] at h ⊢
      cases hfirst : m.enter start name with
      | error e =>
        rw [hfirst] at h
        cases h
      | ok next =>
        -- The name was looked up in a directory, which is not what was put in place.
        rw [hfirst] at h
        rw [enter_put hfile hfirst]
        exact ih next h
  exact hall names _ h

omit hfile

/-! ### New files -/

/-- A file can be created at a path: there is nothing yet, or a file whose place it takes. -/
structure Creatable (m : Machine) (path : String) (l : Location) : Prop where
  locates : m.locateNew path = .ok l
  vacant : m.node? l = none ∨ ∃ contents, m.node? l = some (.file contents)

namespace Creatable

variable (h : m.Creatable path l)

include h

theorem locate_put (node : FileNode) : (m.put l node).locate path = .ok l := by
  have hfile : m.node? l ≠ some .directory := by
    obtain hnone | ⟨contents, hcontents⟩ := h.vacant
    · simp [hnone]
    · simp [hcontents]
  have hlocate := locate_of_locateNew h.locates
  rw [locate] at hlocate ⊢
  cases hnames : names path with
  | error e =>
    rw [hnames] at hlocate
    cases hlocate
  | ok given =>
    rw [hnames] at hlocate
    exact follow_put hfile hlocate

theorem create_eq : m.create path = (none, m.put l (.file #[])) := by
  rw [create, h.locates]
  obtain hnone | ⟨contents, hcontents⟩ := h.vacant
  · simp only [hnone]
  · simp only [hcontents]

/-- What is written to a new file is put behind what it holds. -/
theorem write_put (contents : Array UInt8) (data : Bytes) :
    (m.put l (.file contents)).write (.file path) data = (none, m.put l (.file (contents.appendList data))) := by
  unfold write
  simp only [h.locate_put, node?_put_self, put_put]

theorem read_put (contents : Array UInt8) :
    (m.put l (.file contents)).read (.file path) = .ok contents.toList := by
  simp only [read, h.locate_put, bind, Except.bind, node?_put_self]

end Creatable

end MessageWire.Machine
