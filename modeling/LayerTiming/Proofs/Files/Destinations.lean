import LayerTiming.Files.System

/-!
# Destinations

Where a path leads follows from its spelling alone, since every name leads one step down and two dots
lead one step up. A file system decides only whether the way can be gone. Whatever is read, made or
written under a path is read, made or written at its destination.
-/
namespace LayerTiming

/-- Where a path leads if its way can be gone. Different spellings may have one destination. -/
def Path.destination? (home : Location) (path : Path) : Option Location :=
  (path.segments.foldlM FileSystem.follow (if path.isAbsolute then [] else home)).toOption

namespace FileSystem

private theorem bind_eq_ok_iff {ε α β : Type} (first : Except ε α) (next : α → Except ε β)
    (value : β) : first >>= next = .ok value ↔ ∃ result, first = .ok result ∧ next result = .ok value := by
  cases first <;> simp [bind, Except.bind]

/-- A walk that can be gone follows its segments. -/
theorem foldlM_follow_of_walk (files : FileSystem) (location target : Location)
    (parts : List (List Char)) (walked : files.walk location parts = .ok target) :
    parts.foldlM follow location = .ok target := by
  induction parts generalizing location with
  | nil => exact walked
  | cons part rest ih =>
    simp only [walk, bind_eq_ok_iff] at walked
    obtain ⟨_, _, next, followed, rest_walked⟩ := walked
    rw [List.foldlM_cons, bind_eq_ok_iff]
    exact ⟨next, followed, ih next rest_walked⟩

theorem follow_nil (location : Location) : follow location [] = .ok location := rfl

/-- Empty segments lead nowhere. -/
theorem foldlM_follow_filter (location : Location) (parts : List (List Char)) :
    (parts.filter (!·.isEmpty)).foldlM follow location = parts.foldlM follow location := by
  induction parts generalizing location with
  | nil => rfl
  | cons part rest ih =>
    cases part with
    | nil =>
      rw [List.filter_cons_of_neg (by decide), List.foldlM_cons, follow_nil, ih]
      rfl
    | cons c part =>
      rw [List.filter_cons_of_pos (by rfl), List.foldlM_cons, List.foldlM_cons]
      exact congrArg (follow location (c :: part) >>= ·) (funext ih)

/-- The name that is left after the walk leads to the destination of the path. -/
theorem destination?_of_enter {files : FileSystem} {path : Path} {directory location : Location}
    {name : List Char} (entered : files.enter path = .ok (directory, name))
    (followed : follow directory name = .ok location) :
    path.destination? files.home = some location := by
  simp only [enter, bind_eq_ok_iff] at entered
  obtain ⟨_, _, walked_to, walked, _, _, last⟩ := entered
  obtain ⟨rfl, rfl⟩ : walked_to = directory ∧
      (path.segments.filter (!·.isEmpty)).getLast?.getD ['.'] = name := by
    simpa [pure, Except.pure] using last
  have fold : (path.segments.filter (!·.isEmpty)).foldlM follow (files.start path) = .ok location := by
    have front := foldlM_follow_of_walk files _ _ _ walked
    -- The walk has gone through all names but the last, if there is one.
    cases shape : (path.segments.filter (!·.isEmpty)).getLast? with
    | none =>
      rw [shape] at followed
      rw [List.getLast?_eq_none_iff.mp shape] at front ⊢
      rw [List.dropLast_nil] at front
      cases front
      exact followed
    | some final =>
      rw [shape] at followed
      obtain ⟨initial, split⟩ := List.getLast?_eq_some_iff.mp shape
      rw [split, List.dropLast_concat] at front
      rw [split, List.foldlM_append, front]
      change List.foldlM follow walked_to [final] = _
      rw [List.foldlM_cons, show follow walked_to final = .ok location from followed]
      rfl
  rw [foldlM_follow_filter] at fold
  rw [Path.destination?]
  change (path.segments.foldlM follow (files.start path)).toOption = _
  rw [fold]
  rfl

theorem destination?_of_locate {files : FileSystem} {path : Path} {location : Location}
    (located : files.locate path = .ok location) :
    path.destination? files.home = some location := by
  simp only [locate, bind_eq_ok_iff] at located
  obtain ⟨⟨directory, name⟩, entered, target, followed, rest⟩ := located
  have same : target = location := by
    split at rest
    · obtain ⟨_, _, last⟩ := (bind_eq_ok_iff _ _ _).mp rest
      exact Except.ok.inj last
    · exact Except.ok.inj rest
  exact destination?_of_enter entered (same ▸ followed)

/-- A file is read where its path leads. -/
theorem read_eq_ok_iff {files : FileSystem} {path : Path} {bytes : List UInt8} :
    files.read path = .ok bytes ↔
      ∃ location, files.locate path = .ok location ∧
        files.lookup location = some (.file bytes) := by
  rw [read, bind_eq_ok_iff]
  refine exists_congr fun location => and_congr_right fun _ => ?_
  cases files.lookup location with
  | none => simp
  | some entry => cases entry <;> simp

/-- A file is written at the destination of its path, which no directory holds. -/
theorem write_eq_ok {files after : FileSystem} {path : Path} {bytes : List UInt8}
    (written : files.write path bytes = .ok after) :
    ∃ location, path.destination? files.home = some location ∧
      files.lookup location ≠ some .directory ∧ after = files.put location (.file bytes) := by
  simp only [write, bind_eq_ok_iff] at written
  obtain ⟨⟨directory, name⟩, entered, rest⟩ := written
  split at rest
  · cases rest
  · obtain ⟨location, followed, last⟩ := (bind_eq_ok_iff _ _ _).mp rest
    split at last
    · cases last
    next vacant =>
      refine ⟨location, destination?_of_enter entered followed, ?_, (Except.ok.inj last).symm⟩
      simpa using vacant

/-- A directory is made at the destination of its path, where nothing is yet. -/
theorem makeDirectory_eq_ok {files after : FileSystem} {path : Path}
    (made : files.makeDirectory path = .ok after) :
    ∃ location, path.destination? files.home = some location ∧
      files.lookup location = none ∧ after = files.put location .directory := by
  simp only [makeDirectory, bind_eq_ok_iff] at made
  obtain ⟨⟨directory, name⟩, entered, location, followed, rest⟩ := made
  split at rest
  · cases rest
  next vacant =>
    refine ⟨location, destination?_of_enter entered followed, ?_, (Except.ok.inj rest).symm⟩
    simpa using vacant

/-! ### Ways that stay open -/

/-- The directories of one state are directories of another. -/
structure KeepsDirectories (before after : FileSystem) : Prop where
  home : after.home = before.home
  directories : ∀ location, before.lookup location = some .directory →
    after.lookup location = some .directory

theorem KeepsDirectories.refl (files : FileSystem) : KeepsDirectories files files :=
  ⟨rfl, fun _ found => found⟩

theorem KeepsDirectories.trans {first second third : FileSystem}
    (left : KeepsDirectories first second) (right : KeepsDirectories second third) :
    KeepsDirectories first third :=
  ⟨right.home.trans left.home,
    fun location found => right.directories location (left.directories location found)⟩

theorem requireDirectory_eq_ok_iff (files : FileSystem) (location : Location) (nothing : Unit) :
    files.requireDirectory location = .ok nothing ↔ files.lookup location = some .directory := by
  unfold requireDirectory
  split
  next found => simp [found]
  next bytes found => simp [found]
  next found => simp [found]

theorem KeepsDirectories.walk {before after : FileSystem} (kept : KeepsDirectories before after)
    {location target : Location} {parts : List (List Char)}
    (walked : before.walk location parts = .ok target) :
    after.walk location parts = .ok target := by
  induction parts generalizing location with
  | nil => exact walked
  | cons part rest ih =>
    simp only [FileSystem.walk, bind_eq_ok_iff, requireDirectory_eq_ok_iff] at walked ⊢
    obtain ⟨_, here, next, followed, rest_walked⟩ := walked
    exact ⟨(), kept.directories location here, next, followed, ih rest_walked⟩

theorem KeepsDirectories.enter {before after : FileSystem} (kept : KeepsDirectories before after)
    {path : Path} {directory : Location} {name : List Char}
    (entered : before.enter path = .ok (directory, name)) :
    after.enter path = .ok (directory, name) := by
  simp only [FileSystem.enter, bind_eq_ok_iff, requireDirectory_eq_ok_iff, start, kept.home]
    at entered ⊢
  obtain ⟨_, usable, walked_to, walked, _, here, last⟩ := entered
  exact ⟨(), usable, walked_to, kept.walk walked, (), kept.directories walked_to here, last⟩

/-- A path that leads somewhere leads there as long as the directories stay. -/
theorem KeepsDirectories.locate {before after : FileSystem} (kept : KeepsDirectories before after)
    {path : Path} {location : Location} (located : before.locate path = .ok location) :
    after.locate path = .ok location := by
  simp only [FileSystem.locate, bind_eq_ok_iff] at located ⊢
  obtain ⟨⟨directory, name⟩, entered, target, followed, rest⟩ := located
  refine ⟨(directory, name), kept.enter entered, target, followed, ?_⟩
  cases slash : path.endsInSlash with
  | false => simpa only [slash, Bool.false_eq_true, if_false] using rest
  | true =>
    simp only [slash, if_true, bind_eq_ok_iff, requireDirectory_eq_ok_iff] at rest ⊢
    obtain ⟨_, here, last⟩ := rest
    exact ⟨(), kept.directories target here, last⟩

end FileSystem
end LayerTiming
