import EltSummer.Framework.Terminal

/-!
# The text editor: opening and saving

`plugin_calc_and_simple_text_editor_5July/text_editor`: `main` prints the file on the screen,
character by character, `edit_text` runs until the user saves, and `main` writes the screen
back, row by row without trailing blanks (`len`).  There is no other buffer than the screen.

The screen library is a parameter (`Screen.Terminal`).  Pressing `s` makes `edit_text` return
at once; before that only the cursor is moved and the screen refreshed, which changes no cell.
`line` is left out: it counts the newlines for a check of the number of lines that is commented
out.  Saving reads the character of a cell, and `mvinch` moves a cursor that nothing reads any
more.
-/

namespace EltSummer
namespace TextEditor

open Screen Wrapping

variable {lines cols : ℕ}

/-- `while ((c = getc(fd_file)) != EOF) addch(c);` -/
def load (T : Terminal lines cols) (file : List UInt8) : T.Window :=
  file.foldl T.addch T.initscr

/-- The loop of `len`; the argument is `linelen + 1`. -/
def lenFrom (T : Terminal lines cols) (w : T.Window) (lineno : ℕ) : ℕ → ℕ
  | 0 => 0
  | linelen + 1 =>
      if T.mvinch w lineno linelen = blank then lenFrom T w lineno linelen else linelen + 1

def len (T : Terminal lines cols) (w : T.Window) (lineno : ℕ) : ℕ := lenFrom T w lineno cols

/-- What is written for row `l`. -/
def saveRow (T : Terminal lines cols) (w : T.Window) (l : ℕ) : List UInt8 :=
  (List.range (len T w l)).map (T.mvinch w l) ++ [newline]

/-- `for (l = 0; l < LINES - 1; l++)`. -/
def save (T : Terminal lines cols) (w : T.Window) : List UInt8 :=
  (List.range (lines - 1)).flatMap (saveRow T w)

/-- The same lines, up to trailing blanks of a line and trailing empty lines. -/
def SameLines (file file' : List UInt8) : Prop :=
  tidy blank (file.splitOn newline) = tidy blank (file'.splitOn newline)

variable {T : Terminal lines cols} {w : T.Window} {file : List UInt8}

/-! ## What is saved -/

/-- `len` is the length of the row without its trailing blanks. -/
lemma lenFrom_eq (l n : ℕ) :
    lenFrom T w l n = (trim blank ((List.range n).map (T.mvinch w l))).length := by
  induction n with
  | zero => rfl
  | succ n ih =>
      rw [lenFrom, List.range_succ, List.map_append, trim, List.map_singleton]
      split
      · rename_i hblank
        rw [ih, List.rdropWhile_concat_pos _ _ _ (by simpa using hblank)]
        rfl
      · rename_i hblank
        rw [List.rdropWhile_concat_neg _ _ _ (by simpa using hblank)]
        simp

lemma len_eq (l : ℕ) : len T w l = (trim blank (T.row w l)).length := lenFrom_eq l cols

/-- A row is written without its trailing blanks. -/
lemma saveRow_eq (l : ℕ) : saveRow T w l = trim blank (T.row w l) ++ [newline] := by
  have hpre : trim blank (T.row w l) <+: T.row w l := trim_isPrefix _
  have hlen : len T w l ≤ cols := by
    rw [len_eq]
    simpa [Terminal.row] using hpre.length_le
  rw [saveRow, List.append_left_inj, List.prefix_iff_eq_take.mp hpre, ← len_eq, Terminal.row,
    ← List.map_take, List.take_range, min_eq_left hlen]

/-- The rows that are saved. -/
def savedRows (T : Terminal lines cols) (w : T.Window) : List (List UInt8) :=
  (List.range (lines - 1)).map (T.row w)

lemma mem_savedRows {row : List UInt8} :
    row ∈ savedRows T w ↔ ∃ r, r + 1 < lines ∧ T.row w r = row := by
  simp only [savedRows, List.mem_map, List.mem_range]
  exact exists_congr fun r => and_congr_left fun _ => by omega

/-- Lines written one after the other are read back, and an empty line behind the last
newline. -/
lemma splitOn_flatMap {ls : List (List UInt8)} (h : ∀ l ∈ ls, newline ∉ l) :
    (ls.flatMap (· ++ [newline])).splitOn newline = ls ++ [[]] := by
  induction ls with
  | nil => exact List.splitOn_nil _
  | cons l ls ih =>
      obtain ⟨hl, hls⟩ := List.forall_mem_cons.mp h
      rw [List.flatMap_cons, List.append_assoc, List.singleton_append,
        List.splitOn_append_cons_self_of_not_mem hl, ih hls, List.cons_append]

/-- The cells above the bottom row hold printable characters. -/
def Printable (T : Terminal lines cols) (w : T.Window) : Prop :=
  ∀ r c, r + 1 < lines → c < cols → isPrint (T.mvinch w r c) = true

lemma Printable.isPrint_of_mem (hw : Printable T w) {row : List UInt8} (hrow : row ∈ savedRows T w)
    {a : UInt8} (ha : a ∈ row) : isPrint a = true := by
  obtain ⟨r, hr, rfl⟩ := mem_savedRows.mp hrow
  obtain ⟨c, hc, rfl⟩ := List.mem_map.mp ha
  exact hw r c hr (List.mem_range.mp hc)

lemma Printable.newline_not_mem (hw : Printable T w) {row : List UInt8}
    (hrow : row ∈ savedRows T w) : newline ∉ row := fun hin => by
  have := hw.isPrint_of_mem hrow hin
  simp [newline_not_isPrint] at this

lemma save_eq : save T w = ((savedRows T w).map (trim blank)).flatMap (· ++ [newline]) := by
  rw [save, savedRows, List.map_map, List.flatMap_map]
  exact List.flatMap_congr fun l _ => saveRow_eq l

/-- What has been saved reads as the saved rows and an empty line. -/
lemma splitOn_save (hw : Printable T w) :
    (save T w).splitOn newline = (savedRows T w).map (trim blank) ++ [[]] := by
  rw [save_eq]
  refine splitOn_flatMap fun l hl => ?_
  obtain ⟨row, hrow, rfl⟩ := List.mem_map.mp hl
  exact fun hin => hw.newline_not_mem hrow ((trim_isPrefix row).subset hin)

/-- What a saved file says is what the saved rows say. -/
lemma tidy_save (hw : Printable T w) :
    tidy blank ((save T w).splitOn newline) = tidy blank (savedRows T w) := by
  rw [splitOn_save hw, tidy_append_of_nil (by simp [tidy_cons]), tidy_map_trim]

/-- What a screen holds can be written and read again. -/
lemma Printable.plain_save (hw : Printable T w) : Plain (save T w) := by
  intro a ha
  rw [save_eq] at ha
  obtain ⟨l, hl, hal⟩ := List.mem_flatMap.mp ha
  obtain ⟨row, hrow, rfl⟩ := List.mem_map.mp hl
  rcases List.mem_append.mp hal with hal | hal
  · exact Or.inl (hw.isPrint_of_mem hrow ((trim_isPrefix row).subset hal))
  · exact Or.inr (List.mem_singleton.mp hal)

lemma printable_load (hfile : Plain file) : Printable T (load T file) :=
  fun r c hr hc => isPrint_print_initscr T hfile r c (by omega) hc

/-- The saved rows of a loaded file say what the first rows of the file say. -/
lemma tidy_savedRows_load (hfile : Plain file) : tidy blank (savedRows T (load T file)) =
    tidy blank ((rowsOf cols file).take (lines - 1)) := by
  have hrows : (savedRows T (load T file)).map (trim blank) =
      ((List.range (lines - 1)).map fun r => (rowsOf cols file)[r]?.getD []).map (trim blank) := by
    rw [savedRows, List.map_map, List.map_map]
    refine List.map_congr_left fun r hr => ?_
    have hr' := List.mem_range.mp hr
    exact trim_row_print T hfile (by omega)
  rw [← tidy_map_trim, hrows, tidy_map_trim, map_getD_range, tidy_append_empty]
  intro l hl
  rw [List.eq_of_mem_replicate hl, trim_nil]

end TextEditor
end EltSummer
