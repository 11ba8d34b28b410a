import LayerTiming.Proofs.Files.Writes
import LayerTiming.Proofs.Text.Cutting

/-!
# Reach of outputs

Writing an output reaches two kinds of places: the file at the destination of its path, and missing
directories on the way there. Everything else stays as it is, whether the output can be written or
not.
-/
namespace LayerTiming
open Text

/-- A location is on the way to what a path names: some of its segments lead there, and a name is
still to come. -/
def Path.LeadsThrough (home : Location) (path : Path) (location : Location) : Prop :=
  ∃ front back, path.segments = front ++ back ∧ (∃ part ∈ back, Path.isIdle part = false) ∧
    front.foldlM FileSystem.follow (if path.isAbsolute then [] else home) = .ok location

namespace Path

theorem dropIdleEnd_split (parts : List (List Char)) :
    ∃ idle, parts = dropIdleEnd parts ++ idle ∧
      ∀ last ∈ (dropIdleEnd parts).getLast?, isIdle last = false := by
  induction parts with
  | nil => exact ⟨[], rfl, by simp [dropIdleEnd]⟩
  | cons part rest ih =>
    obtain ⟨idle, split, last⟩ := ih
    simp only [dropIdleEnd]
    cases kept : dropIdleEnd rest with
    | nil =>
      rw [kept] at split
      cases meaning : isIdle part with
      | true => exact ⟨part :: rest, by simp, by simp⟩
      | false => exact ⟨rest, by simp, by simp [meaning]⟩
    | cons first others =>
      rw [kept] at split last
      refine ⟨idle, by simpa using congrArg (part :: ·) split, ?_⟩
      rw [List.getLast?_cons_cons]
      exact last

/-- A path begins at the root if a slash stands in front of everything else. -/
theorem isAbsolute_iff (path : Path) :
    path.isAbsolute = true ↔ ∃ second rest, path.segments = [] :: second :: rest := by
  obtain ⟨text⟩ := path
  cases text with
  | nil => simp [isAbsolute, segments, pieces]
  | cons c text =>
    obtain ⟨piece, others, shape⟩ := List.exists_cons_of_ne_nil (pieces_ne_nil '/' text)
    by_cases slash : c = '/' <;> simp [isAbsolute, segments, pieces, shape, slash]

/-- The directory of a path takes up the segments in front of the last name. The root alone has
two segments as a text. -/
theorem segments_parent {path : Path} (above : path.parent.isEmpty = false) :
    ∃ front back, path.segments = front ++ back ∧ (∃ part ∈ back, isIdle part = false) ∧
      path.parent.isAbsolute = path.isAbsolute ∧
      (path.parent.segments = front ∨ front = [[]] ∧ path.parent.segments = [[], []]) := by
  obtain ⟨first, rest, shape⟩ := List.exists_cons_of_ne_nil (pieces_ne_nil '/' path.text)
  change path.segments = first :: rest at shape
  obtain ⟨idle, rest_split, last_named⟩ := dropIdleEnd_split rest
  rcases List.eq_nil_or_concat' (dropIdleEnd rest) with nothing | ⟨front, last, kept⟩
  · simp [parent, shape, dropIdleAfterFirst, nothing, ofSegments, isEmpty, joinPieces] at above
  rw [kept] at rest_split last_named
  obtain ⟨more_idle, front_split, -⟩ := dropIdleEnd_split front
  have parent_eq : path.parent = ofSegments (first :: dropIdleEnd front) := by
    rw [parent, shape, dropIdleAfterFirst, kept, ← List.cons_append, List.dropLast_concat,
      dropIdleAfterFirst]
  generalize dropIdleEnd front = kept_front at parent_eq front_split
  have split : path.segments = (first :: kept_front) ++ (more_idle ++ (last :: idle)) := by
    rw [shape, rest_split, front_split]
    simp
  have named : ∃ part ∈ more_idle ++ (last :: idle), isIdle part = false :=
    ⟨last, by simp, last_named last (by simp)⟩
  refine ⟨first :: kept_front, more_idle ++ (last :: idle), split, named, ?_⟩
  rw [Bool.eq_iff_iff, isAbsolute_iff, isAbsolute_iff, parent_eq, ofSegments]
  split
  next root =>
    have parts : segments ⟨['/']⟩ = [[], []] := by decide
    rw [parts, split, root]
    refine ⟨?_, .inr ⟨rfl, rfl⟩⟩
    cases more_idle <;> simp
  next other =>
    have parts : segments ⟨joinPieces '/' (first :: kept_front)⟩ = first :: kept_front := by
      refine pieces_joinPieces '/' (List.cons_ne_nil _ _) ?_
      intro part member
      have of_path : part ∈ path.segments := split ▸ List.mem_append_left _ member
      exact not_mem_of_mem_pieces of_path
    rw [parts, split]
    refine ⟨?_, .inl rfl⟩
    -- Only a first segment that is empty makes the path begin at the root, and it is the same one.
    cases kept_front with
    | nil =>
      have relative : first ≠ [] := by simpa using other
      simp [relative]
    | cons second others => simp

theorem isIdle_of_mem_root {part : List Char} (member : part ∈ [[], []]) : isIdle part = true := by
  simp_all [isIdle]

/-- The directory of a path, and what is on the way to it, is on the way to the path. -/
theorem leadsThrough_of_parent {home location : Location} {path : Path}
    (above : path.parent.isEmpty = false)
    (there : path.parent.destination? home = some location ∨
      path.parent.LeadsThrough home location) : path.LeadsThrough home location := by
  obtain ⟨front, back, split, named, absolute, parts⟩ := segments_parent above
  -- Either the directory itself is meant, or what is on the way to it.
  rcases there with leads | ⟨early, late, early_split, ⟨part, member, meaning⟩, followed⟩
  · refine ⟨front, back, split, named, ?_⟩
    rw [destination?, absolute] at leads
    have followed : path.parent.segments.foldlM FileSystem.follow
        (if path.isAbsolute then [] else home) = .ok location := by
      cases found : path.parent.segments.foldlM FileSystem.follow
          (if path.isAbsolute then [] else home) with
      | error fault => rw [found] at leads; cases leads
      | ok target =>
        rw [found] at leads
        rw [Option.some.inj leads]
    rcases parts with same | ⟨rfl, root⟩
    · rwa [same] at followed
    · rw [root] at followed
      exact followed
  · rcases parts with same | ⟨rfl, root⟩
    · refine ⟨early, late ++ back, ?_, ?_, absolute ▸ followed⟩
      · rw [split, ← same, early_split, List.append_assoc]
      · exact ⟨part, List.mem_append_left back member, meaning⟩
    · -- Nothing with a name is on the way to the root.
      have idle := isIdle_of_mem_root (root ▸ early_split ▸ List.mem_append_right early member)
      rw [idle] at meaning
      cases meaning
end Path

namespace FileSystem

/-- Two states differ at most in files at `targets` and in directories at `ways`, and a directory is
new only where nothing was. -/
structure ChangesOnly (targets ways : Location → Prop) (before after : FileSystem) : Prop where
  home : after.home = before.home
  changes : ∀ location, after.lookup location = before.lookup location ∨
    (targets location ∧ before.lookup location ≠ some .directory ∧
      ∃ bytes, after.lookup location = some (.file bytes)) ∨
    (ways location ∧ before.lookup location = none ∧ after.lookup location = some .directory)

variable {targets ways : Location → Prop}

theorem ChangesOnly.refl (files : FileSystem) : ChangesOnly targets ways files files :=
  ⟨rfl, fun _ => .inl rfl⟩

theorem ChangesOnly.trans {first second third : FileSystem}
    (left : ChangesOnly targets ways first second)
    (right : ChangesOnly targets ways second third) : ChangesOnly targets ways first third := by
  refine ⟨right.home.trans left.home, fun location => ?_⟩
  rcases right.changes location with same | ⟨target, free, bytes, written⟩ | ⟨way, vacant, made⟩
  · rw [same]
    exact left.changes location
  · refine .inr (.inl ⟨target, ?_, bytes, written⟩)
    -- A directory of the first state is one of the second, where no file can be written.
    rcases left.changes location with same | ⟨_, free_first, _⟩ | ⟨_, vacant_first, _⟩
    · rwa [← same]
    · exact free_first
    · simp [vacant_first]
  · refine .inr (.inr ⟨way, ?_, made⟩)
    rcases left.changes location with same | ⟨_, _, bytes, written⟩ | ⟨_, _, made_first⟩
    · rwa [← same]
    · simp [written] at vacant
    · simp [made_first] at vacant

theorem ChangesOnly.mono {targets' ways' : Location → Prop} {before after : FileSystem}
    (changed : ChangesOnly targets ways before after)
    (more_targets : ∀ location, targets location → targets' location)
    (more_ways : ∀ location, ways location → ways' location) :
    ChangesOnly targets' ways' before after := by
  refine ⟨changed.home, fun location => ?_⟩
  rcases changed.changes location with same | ⟨target, written⟩ | ⟨way, made⟩
  · exact .inl same
  · exact .inr (.inl ⟨more_targets location target, written⟩)
  · exact .inr (.inr ⟨more_ways location way, made⟩)

theorem changesOnly_write {files after : FileSystem} {path : Path} {bytes : List UInt8}
    (target : ∀ location, path.destination? files.home = some location → targets location)
    (written : files.write path bytes = .ok after) : ChangesOnly targets ways files after := by
  obtain ⟨location, leads, free, rfl⟩ := write_eq_ok written
  refine ⟨home_put files location _, fun other => ?_⟩
  have put := lookup_put files location other (.file bytes) (ne_root_of_vacant free)
  by_cases here : other = location
  · subst here
    rw [if_pos rfl] at put
    exact .inr (.inl ⟨target other leads, free, bytes, put⟩)
  · rw [if_neg here] at put
    exact .inl put

theorem changesOnly_makeDirectory {files after : FileSystem} {path : Path}
    (way : ∀ location, path.destination? files.home = some location → ways location)
    (made : files.makeDirectory path = .ok after) : ChangesOnly targets ways files after := by
  obtain ⟨location, leads, vacant, rfl⟩ := makeDirectory_eq_ok made
  refine ⟨home_put files location _, fun other => ?_⟩
  have free : files.lookup location ≠ some .directory := by simp [vacant]
  have put := lookup_put files location other .directory (ne_root_of_vacant free)
  by_cases here : other = location
  · subst here
    rw [if_pos rfl] at put
    exact .inr (.inr ⟨way other leads, vacant, put⟩)
  · rw [if_neg here] at put
    exact .inl put

theorem changesOnly_ensureDirectory {files after : FileSystem} {path : Path}
    (way : ∀ location, path.destination? files.home = some location → ways location)
    (ensured : files.ensureDirectory path = .ok after) : ChangesOnly targets ways files after := by
  unfold ensureDirectory at ensured
  split at ensured
  next made =>
    cases ensured
    exact changesOnly_makeDirectory way made
  · split at ensured
    · cases ensured
      exact .refl files
    · cases ensured

/-- Making a directory with those above it reaches only the directory and what is on the way. -/
theorem changesOnly_makeDirectories (files : FileSystem) (depth : Nat) (path : Path)
    (way : ∀ location, path.destination? files.home = some location ∨
      path.LeadsThrough files.home location → ways location) :
    ChangesOnly targets ways files (files.makeDirectories depth path).2 := by
  induction depth generalizing files path with
  | zero =>
    unfold makeDirectories
    split
    · exact .refl files
    · split
      next ensured => exact changesOnly_ensureDirectory (fun _ leads => way _ (.inl leads)) ensured
      · exact .refl files
      · exact .refl files
  | succ depth ih =>
    unfold makeDirectories
    split
    · exact .refl files
    · split
      next ensured => exact changesOnly_ensureDirectory (fun _ leads => way _ (.inl leads)) ensured
      · -- The directory above is made first, unless the path has none.
        have above : ChangesOnly targets ways files
            (files.makeDirectories depth path.parent).2 := by
          cases top : path.parent.isEmpty with
          | true =>
            unfold makeDirectories
            rw [if_pos top]
            exact .refl files
          | false =>
            exact ih files path.parent fun location there =>
              way location (.inr (Path.leadsThrough_of_parent top there))
        dsimp only
        split
        next made =>
          rw [made] at above
          exact above
        next ready made =>
          rw [made] at above
          split
          next ensured =>
            refine above.trans (changesOnly_ensureDirectory (fun location leads => ?_) ensured)
            rw [above.home] at leads
            exact way location (.inl leads)
          · exact above
      · exact .refl files

theorem changesOnly_prepareOutput (files : FileSystem) (path : Path) :
    ChangesOnly targets (path.LeadsThrough files.home) files (files.prepareOutput path).2 := by
  unfold prepareOutput
  split
  · exact .refl files
  · split
    · exact .refl files
    · split
      · exact .refl files
      next missing =>
        have top : path.parent.isEmpty = false := by
          simp only [Bool.or_eq_true, not_or, Bool.not_eq_true] at missing
          exact missing.1
        have made := @changesOnly_makeDirectories targets _ files
          path.parent.segments.length path.parent fun _ => Path.leadsThrough_of_parent top
        rw [makePath]
        split
        next found =>
          rw [found] at made
          exact made
        next found =>
          rw [found] at made
          exact made

/-- Writing an output reaches its destination and the directories on the way there. -/
theorem changesOnly_writeOutput (files : FileSystem) (path : Path) (text : List Char) :
    ChangesOnly (fun location => path.destination? files.home = some location)
      (path.LeadsThrough files.home) files (files.writeOutput path text).2 := by
  have prepared := @changesOnly_prepareOutput
    (fun location => path.destination? files.home = some location) files path
  unfold writeOutput
  rcases found : files.prepareOutput path with ⟨_ | fault, ready⟩
  · rw [found] at prepared
    dsimp only at prepared ⊢
    split
    next written =>
      refine prepared.trans (changesOnly_write (fun location leads => ?_) written)
      rwa [prepared.home] at leads
    · exact prepared
  · rw [found] at prepared
    exact prepared

/-- Writing outputs one after the other reaches what each of them reaches. -/
theorem changesOnly_writeOutputs (files : FileSystem) (outputs : List Output) (paths : List Path)
    (asked : ∀ output ∈ outputs, output.path ∈ paths) :
    ChangesOnly (fun location => ∃ path ∈ paths, path.destination? files.home = some location)
      (fun location => ∃ path ∈ paths, path.LeadsThrough files.home location)
      files (files.writeOutputs outputs).2 := by
  induction outputs generalizing files with
  | nil => exact .refl files
  | cons output rest ih =>
    have member : output.path ∈ paths := asked output List.mem_cons_self
    have first : ChangesOnly
        (fun location => ∃ path ∈ paths, path.destination? files.home = some location)
        (fun location => ∃ path ∈ paths, path.LeadsThrough files.home location)
        files (files.writeOutput output.path output.text).2 :=
      (changesOnly_writeOutput files output.path output.text).mono
        (fun _ leads => ⟨output.path, member, leads⟩)
        (fun _ through => ⟨output.path, member, through⟩)
    unfold writeOutputs
    split
    next failed =>
      rw [failed] at first
      exact first
    next after written =>
      rw [written] at first
      have later := ih after fun other member => asked other (List.mem_cons_of_mem output member)
      -- Where paths lead does not change on the way, since home does not.
      rw [first.home] at later
      exact first.trans later

end FileSystem
end LayerTiming
