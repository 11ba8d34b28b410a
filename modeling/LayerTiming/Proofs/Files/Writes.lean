import LayerTiming.Files.Output
import LayerTiming.Proofs.Files.Destinations

/-!
# Effects of writing outputs

Writing outputs changes the files at their destinations and makes directories where nothing was.
What a file holds in the end is the last output that was written to it, or what it held before.
-/
namespace LayerTiming
open Text

/-- Something to write: a text, and the path of the file that is to hold it. -/
structure Output where
  path : Path
  text : List Char
  deriving DecidableEq

/-- The bytes that a file with the text of an output holds. -/
def Output.bytes (output : Output) : List UInt8 := Utf8.encode output.text

/-- The outputs among some that go to one file, however their paths are spelled. -/
def Output.goingTo (home location : Location) (outputs : List Output) : List Output :=
  outputs.filter fun output => output.path.destination? home = some location

/-- What a file holds after outputs have been written. -/
def Output.finalBytes (home location : Location) (bytes : List UInt8) (outputs : List Output) :
    List UInt8 :=
  match (Output.goingTo home location outputs).getLast? with
  | some output => output.bytes
  | none => bytes

theorem Output.finalBytes_cons (home location target : Location) (bytes : List UInt8)
    (output : Output) (outputs : List Output) (leads : output.path.destination? home = some target) :
    Output.finalBytes home location bytes (output :: outputs) =
      Output.finalBytes home location (if location = target then output.bytes else bytes)
        outputs := by
  unfold Output.finalBytes Output.goingTo
  by_cases same : location = target
  · rw [if_pos same, List.filter_cons_of_pos (by simp [leads, same]), List.getLast?_cons]
    cases (outputs.filter _).getLast? <;> rfl
  · rw [if_neg same, List.filter_cons_of_neg (by simpa [leads] using Ne.symm same)]

/-- A file holds what it held if no output went to it, and else one that did. -/
theorem Output.finalBytes_cases (home location : Location) (bytes : List UInt8)
    (outputs : List Output) :
    ((∀ output ∈ outputs, output.path.destination? home ≠ some location) ∧
        Output.finalBytes home location bytes outputs = bytes) ∨
      ∃ output ∈ outputs, output.path.destination? home = some location ∧
        Output.finalBytes home location bytes outputs = output.bytes := by
  unfold Output.finalBytes
  cases last : (Output.goingTo home location outputs).getLast? with
  | none =>
    have nothing := List.getLast?_eq_none_iff.mp last
    refine .inl ⟨?_, rfl⟩
    intro output member leads
    exact List.filter_eq_nil_iff.mp nothing output member (decide_eq_true leads)
  | some output =>
    obtain ⟨member, leads⟩ := List.mem_filter.mp (List.mem_of_getLast? last)
    exact .inr ⟨output, member, of_decide_eq_true leads, rfl⟩

namespace FileSystem

theorem lookup_map_replace (entries : List (Location × Entry)) (location other : Location)
    (entry : Entry) :
    (entries.map fun known => if known.1 = location then (location, entry) else known).lookup other =
      if other = location then (entries.lookup location).map fun _ => entry
      else entries.lookup other := by
  induction entries with
  | nil => simp
  | cons known rest ih =>
    rw [List.map_cons, List.lookup_cons, List.lookup_cons, List.lookup_cons, ih]
    -- What is asked for is at the replaced location, at this other one, or further on.
    by_cases replaced : known.1 = location
    · by_cases asked : other = location
      · simp [replaced, asked]
      · have apart : (other == location) = false := by simpa using asked
        simp [replaced, asked, apart]
    · have unchanged : (location == known.1) = false := by simpa using Ne.symm replaced
      by_cases asked : other = location
      · simp [replaced, asked, unchanged]
      · simp [replaced, asked]

/-- What is put at a location is there, and all else stays where it was. -/
theorem lookup_put (files : FileSystem) (location other : Location) (entry : Entry)
    (below : location ≠ []) :
    (files.put location entry).lookup other =
      if other = location then some entry else files.lookup other := by
  by_cases root : other = []
  · simp [lookup, root, Ne.symm below]
  · unfold lookup put
    rw [if_neg root, if_neg root]
    split
    next known =>
      obtain ⟨old, found⟩ := Option.isSome_iff_exists.mp known
      simp only [lookup_map_replace, found, Option.map_some]
    next unknown =>
      have absent : files.entries.lookup location = none :=
        Option.not_isSome_iff_eq_none.mp unknown
      simp only [List.lookup_append, List.lookup_cons, List.lookup_nil]
      by_cases asked : other = location
      · simp [asked, absent]
      · have apart : (other == location) = false := by simpa using asked
        simp [asked, apart]

@[simp] theorem home_put (files : FileSystem) (location : Location) (entry : Entry) :
    (files.put location entry).home = files.home := by
  unfold put
  split <;> rfl

/-- How one state comes from another when outputs are written, in this order. Directories are made
only where nothing was, and files written only where no directory is. -/
inductive Writes : FileSystem → List Output → FileSystem → Prop
  | done (files : FileSystem) : Writes files [] files
  | make {files after : FileSystem} {outputs : List Output} (location : Location)
      (vacant : files.lookup location = none)
      (rest : Writes (files.put location .directory) outputs after) : Writes files outputs after
  | write {files after : FileSystem} {outputs : List Output} (output : Output)
      (location : Location) (leads : output.path.destination? files.home = some location)
      (free : files.lookup location ≠ some .directory)
      (rest : Writes (files.put location (.file output.bytes)) outputs after) :
      Writes files (output :: outputs) after

theorem Writes.trans {first second third : FileSystem} {early late : List Output}
    (left : Writes first early second) (right : Writes second late third) :
    Writes first (early ++ late) third := by
  induction left with
  | done => exact right
  | make location vacant _ ih => exact .make location vacant (ih right)
  | write output location leads free _ ih => exact .write output location leads free (ih right)

theorem ne_root_of_vacant {files : FileSystem} {location : Location}
    (free : files.lookup location ≠ some .directory) : location ≠ [] := by
  rintro rfl
  exact free (by simp [lookup])

theorem keepsDirectories_put {files : FileSystem} {location : Location} {entry : Entry}
    (free : files.lookup location ≠ some .directory) :
    KeepsDirectories files (files.put location entry) := by
  refine ⟨home_put files location entry, ?_⟩
  intro other found
  rw [lookup_put files location other entry (ne_root_of_vacant free), if_neg]
  · exact found
  · rintro rfl
    exact free found

theorem Writes.keepsDirectories {before after : FileSystem} {outputs : List Output}
    (writes : Writes before outputs after) : KeepsDirectories before after := by
  induction writes with
  | done files => exact .refl files
  | make location vacant _ ih => exact (keepsDirectories_put (by simp [vacant])).trans ih
  | write output location _ free _ ih => exact (keepsDirectories_put free).trans ih

theorem Writes.exists_destination {before after : FileSystem} {outputs : List Output}
    (writes : Writes before outputs after) :
    ∀ output ∈ outputs, ∃ location, output.path.destination? before.home = some location := by
  induction writes with
  | done => exact List.forall_mem_nil _
  | make location _ _ ih => simpa using ih
  | write output location leads _ _ ih =>
    rw [List.forall_mem_cons]
    exact ⟨⟨location, leads⟩, by simpa using ih⟩

/-- A file that is there holds the last output that went to it, or else what it held. -/
theorem Writes.lookup_file {before after : FileSystem} {outputs : List Output}
    (writes : Writes before outputs after) {location : Location} {bytes : List UInt8}
    (found : before.lookup location = some (.file bytes)) :
    after.lookup location =
      some (.file (Output.finalBytes before.home location bytes outputs)) := by
  induction writes generalizing bytes with
  | done => exact found
  | @make files _ _ made vacant _ ih =>
    -- A directory is made only where nothing was, so not where the file is.
    have apart : location ≠ made := by
      rintro rfl
      simp [vacant] at found
    have free : files.lookup made ≠ some .directory := by simp [vacant]
    have stays := lookup_put files made location .directory (ne_root_of_vacant free)
    rw [if_neg apart, found] at stays
    simpa using ih stays
  | @write files _ outputs output target leads free _ ih =>
    have put := lookup_put files target location (.file output.bytes) (ne_root_of_vacant free)
    rw [Output.finalBytes_cons files.home location target bytes output outputs leads]
    by_cases same : location = target
    · rw [if_pos same] at put ⊢
      simpa using ih put
    · rw [if_neg same] at put ⊢
      simpa using ih (put.trans found)

/-! ### What the operations write -/

theorem makeDirectory_writes {files after : FileSystem} {path : Path}
    (made : files.makeDirectory path = .ok after) : Writes files [] after := by
  obtain ⟨location, _, vacant, rfl⟩ := makeDirectory_eq_ok made
  exact .make location vacant (.done _)

theorem ensureDirectory_writes {files after : FileSystem} {path : Path}
    (ensured : files.ensureDirectory path = .ok after) : Writes files [] after := by
  unfold ensureDirectory at ensured
  split at ensured
  next made =>
    cases ensured
    exact makeDirectory_writes made
  · split at ensured
    · cases ensured
      exact .done files
    · cases ensured

/-- Making directories writes no file, even if not all of them can be made. -/
theorem makeDirectories_writes (files : FileSystem) (depth : Nat) (path : Path) :
    Writes files [] (files.makeDirectories depth path).2 := by
  induction depth generalizing files path with
  | zero =>
    unfold makeDirectories
    split
    · exact .done files
    · split
      next ensured => exact ensureDirectory_writes ensured
      · exact .done files
      · exact .done files
  | succ depth ih =>
    have above := ih files path.parent
    unfold makeDirectories
    split
    · exact .done files
    · split
      next ensured => exact ensureDirectory_writes ensured
      · -- What is missing above is made first, and then the directory is tried again.
        dsimp only
        split
        next made =>
          rw [made] at above
          exact above
        next made =>
          rw [made] at above
          split
          next ensured => exact above.trans (ensureDirectory_writes ensured)
          · exact above
      · exact .done files

theorem prepareOutput_writes (files : FileSystem) (path : Path) :
    Writes files [] (files.prepareOutput path).2 := by
  unfold prepareOutput
  split
  · exact .done files
  · split
    · exact .done files
    · split
      · exact .done files
      · have made := makeDirectories_writes files path.parent.segments.length path.parent
        rw [makePath]
        split
        next found =>
          rw [found] at made
          exact made
        next found =>
          rw [found] at made
          exact made

/-- Writing an output writes it if no fault is told, and else no file. -/
theorem writeOutput_cases (files : FileSystem) (path : Path) (text : List Char) :
    (∃ after, files.writeOutput path text = (none, after) ∧ Writes files [⟨path, text⟩] after) ∨
      ∃ fault after, files.writeOutput path text = (some fault, after) ∧
        Writes files [] after := by
  have prepared := prepareOutput_writes files path
  unfold writeOutput
  rcases found : files.prepareOutput path with ⟨fault | _, ready⟩
  · rw [found] at prepared
    dsimp only at prepared ⊢
    cases written : ready.write path (Utf8.encode text) with
    | error fault => exact .inr ⟨_, _, rfl, prepared⟩
    | ok after =>
      obtain ⟨location, leads, free, rfl⟩ := write_eq_ok written
      have entry : Writes ready [⟨path, text⟩] (ready.put location (.file (Utf8.encode text))) :=
        .write ⟨path, text⟩ location leads free (.done _)
      exact .inl ⟨_, rfl, prepared.trans entry⟩
  · rw [found] at prepared
    exact .inr ⟨_, _, rfl, prepared⟩

/-- What has been written under a path is read under it. -/
theorem read_of_write {files after : FileSystem} {path : Path} {bytes : List UInt8}
    (written : files.write path bytes = .ok after) : after.read path = .ok bytes := by
  unfold write at written
  cases entered : files.enter path with
  | error fault => rw [entered] at written; cases written
  | ok found =>
    obtain ⟨directory, name⟩ := found
    rw [entered] at written
    change (if path.endsInSlash = true then _ else _) = _ at written
    cases slash : path.endsInSlash with
    | true => rw [slash] at written; cases written
    | false =>
      rw [slash, if_neg Bool.false_ne_true] at written
      cases followed : follow directory name with
      | error fault => rw [followed] at written; cases written
      | ok location =>
        rw [followed] at written
        change (if _ then _ else _) = _ at written
        split at written
        · cases written
        next vacant =>
          have free : files.lookup location ≠ some .directory := by simpa using vacant
          cases written
          -- The way is still open, and what was put there is found.
          have still := (@keepsDirectories_put _ _ (.file bytes) free).enter entered
          have there := lookup_put files location location (.file bytes) (ne_root_of_vacant free)
          rw [if_pos rfl] at there
          simp only [read, locate, still, followed, slash, bind, Except.bind, pure, Except.pure,
            Bool.false_eq_true, if_false, there]

/-- An output that was written is found under its path. -/
theorem read_of_writeOutput {files after : FileSystem} {path : Path} {text : List Char}
    (written : files.writeOutput path text = (none, after)) :
    after.read path = .ok (Utf8.encode text) := by
  unfold writeOutput at written
  split at written
  · cases written
  next ready _ =>
    split at written
    next found =>
      cases written
      exact read_of_write found
    · cases written

/-- Write outputs one after the other, up to the first that cannot be written. Gives those that were
written, and the files after that. -/
def writeOutputs (files : FileSystem) : List Output → List Output × FileSystem
  | [] => ([], files)
  | output :: rest =>
    match files.writeOutput output.path output.text with
    | (some _, after) => ([], after)
    | (none, after) =>
      let (written, last) := after.writeOutputs rest
      (output :: written, last)

theorem writeOutputs_writes (files : FileSystem) (outputs : List Output) :
    Writes files (files.writeOutputs outputs).1 (files.writeOutputs outputs).2 := by
  induction outputs generalizing files with
  | nil => exact .done files
  | cons output rest ih =>
    unfold writeOutputs
    rcases writeOutput_cases files output.path output.text with
      ⟨after, written, writes⟩ | ⟨fault, after, failed, writes⟩
    · rw [written]
      exact writes.trans (ih after)
    · rw [failed]
      exact writes

theorem exists_destination_of_written {files after : FileSystem} {outputs : List Output}
    (written : files.writeOutputs outputs = (outputs, after)) :
    ∀ output ∈ outputs, ∃ location, output.path.destination? files.home = some location := by
  have writes := files.writeOutputs_writes outputs
  rw [written] at writes
  exact writes.exists_destination

/-- The outputs that are written are the first ones of those that were to be written. -/
theorem written_isPrefix (files : FileSystem) (outputs : List Output) :
    (files.writeOutputs outputs).1 <+: outputs := by
  induction outputs generalizing files with
  | nil => exact List.prefix_refl []
  | cons output rest ih =>
    unfold writeOutputs
    split
    · exact List.nil_prefix
    next after _ =>
      rw [List.prefix_cons_inj]
      exact ih after

/-- What comes after outputs is written if all of them are. -/
theorem writeOutputs_append (files : FileSystem) (early late : List Output) :
    files.writeOutputs (early ++ late) =
      if (files.writeOutputs early).1 = early then
        (early ++ ((files.writeOutputs early).2.writeOutputs late).1,
          ((files.writeOutputs early).2.writeOutputs late).2)
      else files.writeOutputs early := by
  induction early generalizing files with
  | nil => rfl
  | cons output rest ih =>
    rw [List.cons_append, writeOutputs, writeOutputs]
    split
    · rw [if_neg (List.cons_ne_nil output rest).symm]
    next after _ =>
      dsimp only
      rw [ih after]
      by_cases all : (after.writeOutputs rest).1 = rest
      · rw [if_pos all, if_pos (by rw [all])]
        rfl
      · rw [if_neg all, if_neg (by simpa using all)]

/-- What the first of some outputs is read as, once all of them have been written. -/
theorem read_first_of_writeOutputs {files after : FileSystem} {late : List Output} {output : Output}
    (written : files.writeOutputs (output :: late) = (output :: late, after)) :
    ((∀ later ∈ late, later.path.destination? files.home ≠ output.path.destination? files.home) ∧
        after.read output.path = .ok output.bytes) ∨
      ∃ later ∈ late, later.path.destination? files.home = output.path.destination? files.home ∧
        after.read output.path = .ok later.bytes := by
  rw [writeOutputs] at written
  rcases writeOutput_cases files output.path output.text with
    ⟨ready, put, front⟩ | ⟨fault, ready, failed, _⟩
  case inr =>
    rw [failed] at written
    cases written
  rw [put] at written
  obtain ⟨all, rfl⟩ : (ready.writeOutputs late).1 = late ∧ (ready.writeOutputs late).2 = after := by
    simpa using written
  have back := ready.writeOutputs_writes late
  rw [all] at back
  obtain ⟨location, located, found⟩ := read_eq_ok_iff.mp (read_of_writeOutput put)
  -- The way to the first output is still open, and its file holds what was put there last.
  have final : (ready.writeOutputs late).2.read output.path =
      .ok (Output.finalBytes ready.home location output.bytes late) :=
    read_eq_ok_iff.mpr ⟨location, back.keepsDirectories.locate located, back.lookup_file found⟩
  rw [← front.keepsDirectories.home, destination?_of_locate located, final]
  rcases Output.finalBytes_cases ready.home location output.bytes late with
    ⟨apart, same⟩ | ⟨later, member, there, same⟩
  · exact .inl ⟨apart, by rw [same]⟩
  · exact .inr ⟨later, member, there, by rw [same]⟩

/-- An output that was written along with others is read under its path if none of the later ones
went to its file, under whatever spelling. Else one of those is read. -/
theorem read_of_writeOutputs {files after : FileSystem} {early late : List Output} {output : Output}
    (written : files.writeOutputs (early ++ output :: late) = (early ++ output :: late, after)) :
    ((∀ later ∈ late, later.path.destination? files.home ≠ output.path.destination? files.home) ∧
        after.read output.path = .ok output.bytes) ∨
      ∃ later ∈ late, later.path.destination? files.home = output.path.destination? files.home ∧
        after.read output.path = .ok later.bytes := by
  rw [writeOutputs_append] at written
  split at written
  case isTrue all =>
    obtain ⟨both, last⟩ := Prod.mk.inj written
    have home := (files.writeOutputs_writes early).keepsDirectories.home
    rw [← home]
    exact read_first_of_writeOutputs (Prod.ext (List.append_cancel_left both) last)
  case isFalse some_left =>
    -- Then the earlier ones were not all written, let alone the later ones.
    have short := (files.written_isPrefix early).length_le
    rw [written, List.length_append, List.length_cons] at short
    omega

end FileSystem
end LayerTiming
