import EltSummer.TextEditor.Editor

/-!
# Opening and saving again

The screen is the editor's only buffer, so what is opened has to fit it.  `sameLines_iff_fits`
says when a file that is opened and saved keeps its lines: they are no more than the rows that
are saved, and wrapping leaves them in place.

The other way round, a screen that is saved and opened again should be the same screen.  It is
not when a row reaches the last column: printing it takes the cursor to the next row, and the
newline that was saved behind it goes one row further, so what follows moves down by one
(`full_row_moves_the_next`).  `load_save_iff` says that this is the only way to fail.
-/

namespace EltSummer
namespace TextEditor

open Screen Wrapping

variable {lines cols : ℕ} {T : Terminal lines cols} {w : T.Window} {file : List UInt8}

lemma cols_pos (T : Terminal lines cols) : 0 < cols :=
  (T.cursor_lt T.initscr).2.trans_le' (Nat.zero_le _)

/-! ## Open, then save -/

lemma sameLines_iff_fits (T : Terminal lines cols) (hfile : Plain file) :
    SameLines (save T (load T file)) file ↔
      Fits blank cols (lines - 1) (file.splitOn newline) := by
  rw [SameLines, tidy_save (printable_load hfile), tidy_savedRows_load hfile, rowsOf]
  exact tidy_take_wrap_iff (cols_pos T) _ _

/-- **Opening and saving without an edit** keeps the lines of a text that fits the screen, and
loses some of a text with too many lines or a line that is too long. -/
theorem sameLines_save_load (T : Terminal lines cols) (hfile : Plain file) :
    (Fits blank cols (lines - 1) (file.splitOn newline) →
      SameLines (save T (load T file)) file) ∧
    (lines - 1 < (tidy blank (file.splitOn newline)).length ∨
      (∃ l ∈ tidy blank (file.splitOn newline), cols < l.length) →
      ¬ SameLines (save T (load T file)) file) := by
  rw [sameLines_iff_fits T hfile]
  refine ⟨id, ?_⟩
  rintro (hlines | ⟨l, hl, hlong⟩) hfits
  · exact absurd hfits.lines (not_le.mpr hlines)
  · exact absurd (hfits.narrow l hl) (not_le.mpr hlong)

/-- Two short lines. -/
theorem sameLines_save_load_two_lines :
    let T : Terminal 3 4 := grid (by decide) (by decide)
    SameLines (save T (load T [97, 98, 32, 10, 99, 10])) [97, 98, 32, 10, 99, 10] :=
  (sameLines_save_load _ (by simp [Plain, isPrint, newline])).1 ⟨by decide, by decide, by decide⟩

/-- Two lines on a screen of two rows: the second one is lost. -/
theorem second_line_lost :
    ∃ T : Terminal 2 4, ¬ SameLines (save T (load T [97, 98, 10, 99, 10])) [97, 98, 10, 99, 10] :=
  ⟨grid (by decide) (by decide), by unfold SameLines; decide⟩

/-! ## Save, then open -/

lemma savedRows_eq_iff {w' : T.Window} : savedRows T w' = savedRows T w ↔
    ∀ r c, r + 1 < lines → c < cols → T.mvinch w' r c = T.mvinch w r c := by
  simp only [savedRows, List.map_inj_left, List.mem_range, Terminal.row]
  exact ⟨fun h r c hr => h r (by omega) c, fun h r hr c => h r c (by omega)⟩

/-- Two screens are the same above the bottom row if what they save has the same lines. -/
lemma savedRows_eq_of_sameLines {w' : T.Window} (hw : Printable T w) (hw' : Printable T w')
    (h : SameLines (save T w') (save T w)) : savedRows T w' = savedRows T w := by
  have hwidth : ∀ u : T.Window, ∀ row ∈ savedRows T u, row.length = cols := by
    intro u row hrow
    obtain ⟨r, -, rfl⟩ := mem_savedRows.mp hrow
    simp [Terminal.row]
  rw [SameLines, tidy_save hw, tidy_save hw'] at h
  exact eq_of_tidy_eq (by simp [savedRows]) (hwidth w') (hwidth w) h

/-- What stands behind the first `k` of the values at `0, …, n - 1`. -/
lemma mem_drop_map_range {α : Type*} (f : ℕ → α) (n k : ℕ) (a : α) :
    a ∈ ((List.range n).map f).drop k ↔ ∃ i, k ≤ i ∧ i < n ∧ f i = a := by
  rw [← List.map_drop, List.mem_map]
  refine exists_congr fun i => ?_
  rw [← and_assoc]
  refine and_congr_left fun _ => ?_
  rw [List.range_eq_range', List.drop_range', List.mem_range'_1]
  omega

/-- A row is full if its last column is not blank. -/
lemma length_trim_row_lt_iff (T : Terminal lines cols) (w : T.Window) (r : ℕ) :
    (trim blank (T.row w r)).length < cols ↔ T.mvinch w r (cols - 1) = blank := by
  have hcols := cols_pos T
  have hle : (trim blank (T.row w r)).length < cols ↔
      (trim blank (T.row w r)).length ≤ cols - 1 := by omega
  rw [hle, length_trim_le_iff]
  constructor
  · exact fun h => h _ ((mem_drop_map_range _ _ _ _).mpr ⟨cols - 1, le_rfl, by omega, rfl⟩)
  · intro h a ha
    obtain ⟨c, hc, hlt, rfl⟩ := (mem_drop_map_range _ _ _ _).mp ha
    obtain rfl : c = cols - 1 := by omega
    exact h

/-- The text on the screen ends where the rows are blank. -/
lemma length_tidy_savedRows_le_iff (r : ℕ) : (tidy blank (savedRows T w)).length ≤ r ↔
    ∀ r', r ≤ r' → r' + 1 < lines → ∀ c < cols, T.mvinch w r' c = blank := by
  rw [length_tidy_le_iff, ink_eq_zero_iff]
  constructor
  · intro h r' hr hr' c hc
    refine h (T.row w r') ((mem_drop_map_range _ _ _ _).mpr ⟨r', hr, by omega, rfl⟩) _ ?_
    exact List.mem_map_of_mem (List.mem_range.mpr hc)
  · intro h row hrow a ha
    obtain ⟨r', hr, hlt, rfl⟩ := (mem_drop_map_range _ _ _ _).mp hrow
    obtain ⟨c, hc, rfl⟩ := List.mem_map.mp ha
    exact h r' hr (by omega) c (List.mem_range.mp hc)

lemma mem_take_saved {k : ℕ} (hk : k ≤ lines - 1) {l : List UInt8} :
    l ∈ ((savedRows T w).map (trim blank) ++ [[]]).take k ↔
      ∃ r < k, trim blank (T.row w r) = l := by
  rw [List.take_append_of_le_length (by simpa [savedRows] using hk), savedRows, List.map_map,
    ← List.map_take, List.take_range, min_eq_left hk]
  simp

/-- A saved screen fits the screen unless a full row stands above one that is not blank. -/
lemma fits_save_iff (hw : Printable T w) :
    Fits blank cols (lines - 1) ((save T w).splitOn newline) ↔
      ∀ r r', r < r' → r' + 1 < lines → T.mvinch w r (cols - 1) ≠ blank →
        ∀ c < cols, T.mvinch w r' c = blank := by
  have hlines : (tidy blank (savedRows T w)).length ≤ lines - 1 :=
    (length_tidy_le _).trans (by simp [savedRows])
  have hinner : ∀ l, l ∈ ((save T w).splitOn newline).take
      ((tidy blank ((save T w).splitOn newline)).length - 1) ↔
        ∃ r, ¬ (tidy blank (savedRows T w)).length ≤ r + 1 ∧ trim blank (T.row w r) = l := by
    intro l
    rw [tidy_save hw, splitOn_save hw, mem_take_saved (by omega)]
    exact exists_congr fun r => and_congr_left fun _ => by omega
  constructor
  · intro h r r' hrr' hr' hfull
    refine (length_tidy_savedRows_le_iff (r + 1)).mp ?_ r' hrr' hr'
    by_contra hlt
    exact hfull ((length_trim_row_lt_iff T w r).mp (h.inner _ ((hinner _).mpr ⟨r, hlt, rfl⟩)))
  · intro h
    refine ⟨by rwa [tidy_save hw], fun l hl => ?_, fun l hl => ?_⟩
    · obtain ⟨r, hlt, rfl⟩ := (hinner l).mp hl
      rw [length_trim_row_lt_iff]
      by_contra hfull
      exact hlt ((length_tidy_savedRows_le_iff (r + 1)).mpr fun r' hrr' hr' =>
        h r r' hrr' hr' hfull)
    · rw [tidy_save hw] at hl
      obtain ⟨row, hrow, rfl⟩ := List.mem_map.mp ((List.rdropWhile_prefix _ _).subset hl)
      obtain ⟨r, -, rfl⟩ := mem_savedRows.mp hrow
      exact (length_trim_le blank _).trans (by simp [Terminal.row])

/-- **Saving and opening again** gives the same screen exactly if no row that reaches the last
column stands above a row that is not blank. -/
theorem load_save_iff (T : Terminal lines cols) {w : T.Window} (hw : Printable T w) :
    (∀ r c, r + 1 < lines → c < cols → T.mvinch (load T (save T w)) r c = T.mvinch w r c) ↔
      ∀ r r', r < r' → r' + 1 < lines → T.mvinch w r (cols - 1) ≠ blank →
        ∀ c < cols, T.mvinch w r' c = blank := by
  rw [← fits_save_iff hw, ← sameLines_iff_fits T hw.plain_save, ← savedRows_eq_iff]
  constructor
  · intro h
    rw [SameLines, tidy_save hw, tidy_save (printable_load hw.plain_save), h]
  · exact savedRows_eq_of_sameLines hw (printable_load hw.plain_save)

/-- A short row above a full one. -/
theorem load_save_iff_short_row :
    let T : Terminal 3 2 := grid (by decide) (by decide)
    let w := load T [97, 10, 98, 99]
    ∀ r c, r + 1 < 3 → c < 2 → T.mvinch (load T (save T w)) r c = T.mvinch w r c := by
  refine (load_save_iff _ (printable_load (by simp [Plain, isPrint, newline]))).mpr
    fun r r' hrr' hr' hfull => ?_
  obtain rfl : r = 0 := by omega
  exact absurd (by decide) hfull

/-- A full row above another row, which moves down. -/
theorem full_row_moves_the_next : ∃ (T : Terminal 3 2) (w : T.Window), Printable T w ∧
    ¬ ∀ r c, r + 1 < 3 → c < 2 → T.mvinch (load T (save T w)) r c = T.mvinch w r c :=
  ⟨grid (by decide) (by decide), load _ [97, 98, 99],
    printable_load (by simp [Plain, isPrint, newline]),
    fun h => absurd (h 1 0 (by decide) (by decide)) (by decide)⟩

end TextEditor
end EltSummer
