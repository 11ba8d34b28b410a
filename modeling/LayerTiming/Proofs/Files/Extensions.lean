import LayerTiming.Files.System
import LayerTiming.Proofs.Files.Destinations
import LayerTiming.Proofs.Text.Cutting

/-!
# Paths that differ in their extension

What is put behind a text without a slash joins its last segment. So paths that are one text with
different extensions lead to different files, wherever the text leads.
-/
namespace LayerTiming
open Text

theorem Text.exists_last_piece (separator : Char) (text : List Char) :
    ∃ front last, ∀ tail, separator ∉ tail →
      pieces separator (text ++ tail) = front ++ [last ++ tail] := by
  induction text with
  | nil => exact ⟨[], [], fun tail free => pieces_eq_singleton separator tail free⟩
  | cons c rest ih =>
    obtain ⟨front, last, cut⟩ := ih
    by_cases same : c = separator
    · refine ⟨[] :: front, last, fun tail free => ?_⟩
      rw [List.cons_append, pieces, if_pos same, cut tail free]
      rfl
    · -- Without a slash the character joins the first piece, which may be the last one.
      cases front with
      | nil =>
        refine ⟨[], c :: last, fun tail free => ?_⟩
        rw [List.cons_append, pieces, if_neg same, cut tail free]
        rfl
      | cons piece front =>
        refine ⟨(c :: piece) :: front, last, fun tail free => ?_⟩
        rw [List.cons_append, pieces, if_neg same, cut tail free]
        rfl

namespace Path

/-- A text with an extension. -/
def extended (text extension : List Char) : Path := ⟨text ++ '.' :: extension⟩

theorem withExtension_of_stem {path : Path} {stem : List Char}
    (found : path.dropExtension.upToStem? = some stem) (extension : String) :
    path.withExtension extension = extended stem extension.toList := by
  rw [withExtension, found]
  rfl

/-- An extension that may be told from two dots. -/
structure IsExtension (extension : List Char) : Prop where
  free : '/' ∉ extension
  long : 2 ≤ extension.length

/-- A name of three characters leads down, unless it is too long. -/
theorem follow_of_long {location target : Location} {name : List Char} (long : 3 ≤ name.length)
    (followed : FileSystem.follow location name = .ok target) :
    target = location ++ [String.ofList name] := by
  have some_name : ¬ isIdle name = true := by
    unfold isIdle
    rw [Bool.or_eq_true, beq_iff_eq, beq_iff_eq]
    rintro (rfl | rfl)
    · cases long
    · exact absurd long (by decide)
  have down : name ≠ upward := by
    rintro rfl
    exact absurd long (by decide)
  rw [FileSystem.follow, if_neg some_name, if_neg down] at followed
  split at followed
  · cases followed
  · cases followed
    rfl

/-- Where a text leads with an extension: to a name that ends in the extension. -/
theorem exists_destination_extended (home : Location) (text : List Char) :
    ∃ last : List Char, ∀ extension, IsExtension extension →
      ∀ location, (extended text extension).destination? home = some location →
        ∃ directory, location = directory ++ [String.ofList (last ++ '.' :: extension)] := by
  obtain ⟨front, last, cut⟩ := exists_last_piece '/' text
  refine ⟨last, ?_⟩
  intro extension proper location leads
  have free : '/' ∉ '.' :: extension := by
    rw [List.mem_cons, not_or]
    exact ⟨by decide, proper.free⟩
  have segments_eq : (extended text extension).segments = front ++ [last ++ '.' :: extension] :=
    cut _ free
  rw [destination?, segments_eq, List.foldlM_append] at leads
  -- Where the walk begins does not matter, since only its last step tells the extension.
  generalize (if (extended text extension).isAbsolute then [] else home) = start at leads
  cases walked : front.foldlM FileSystem.follow start with
  | error fault =>
    rw [walked] at leads
    cases leads
  | ok directory =>
    rw [walked] at leads
    change (FileSystem.follow directory (last ++ '.' :: extension) >>= pure).toOption = _ at leads
    cases followed : FileSystem.follow directory (last ++ '.' :: extension) with
    | error fault =>
      rw [followed] at leads
      cases leads
    | ok target =>
      rw [followed] at leads
      cases leads
      refine ⟨directory, follow_of_long ?_ followed⟩
      have long := proper.long
      rw [List.length_append, List.length_cons]
      omega

/-- Different extensions lead to different files. -/
theorem destination?_extended_ne {home location : Location} {text first second : List Char}
    (proper : IsExtension first) (other : IsExtension second) (different : first ≠ second)
    (leads : (extended text first).destination? home = some location) :
    (extended text second).destination? home ≠ (extended text first).destination? home := by
  obtain ⟨last, down⟩ := exists_destination_extended home text
  intro same
  obtain ⟨directory, shape⟩ := down first proper location leads
  obtain ⟨directory', shape'⟩ := down second other location (same.trans leads)
  -- The same file has the same name, and one name has one extension.
  have names := (List.append_inj' (shape.symm.trans shape') rfl).2
  have texts := String.ofList_injective (List.head_eq_of_cons_eq names)
  exact different (List.tail_eq_of_cons_eq (List.append_cancel_left texts))

end Path
end LayerTiming
