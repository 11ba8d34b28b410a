/-!
# Columns

Text padded with blanks to the width of a column. Text that is wider than its column stays as it is.
Width is counted in characters.
-/
namespace LayerTiming.Text

def filler (width : Nat) (text : List Char) : List Char :=
  List.replicate (width - text.length) ' '

/-- Text at the right edge of a column. -/
def alignRight (width : Nat) (text : List Char) : List Char := filler width text ++ text

/-- Text at the left edge of a column. -/
def alignLeft (width : Nat) (text : List Char) : List Char := text ++ filler width text

theorem length_alignRight (width : Nat) (text : List Char) :
    (alignRight width text).length = max width text.length := by
  simp only [alignRight, filler, List.length_append, List.length_replicate]
  omega

theorem length_alignLeft (width : Nat) (text : List Char) :
    (alignLeft width text).length = max width text.length := by
  simp only [alignLeft, filler, List.length_append, List.length_replicate]
  omega

end LayerTiming.Text
