import EltSummer.Framework.Wrapping

/-!
# A terminal screen

What a program that prints plain text relies on of a screen library: `addch` at the cursor,
which wraps behind the last column; a newline, which clears the rest of its row; the bottom
row, from which nothing scrolls and the cursor does not leave; `mvinch`, which reads a cell.
`Terminal` has the operations and these laws for printable characters and newlines, and says
nothing about others.  `Grid` is a screen that obeys them.

A text printed on the blank screen stands there line by line, wrapped, down to the row above
the bottom (`mvinch_print`).
-/

namespace Screen

open Wrapping

def blank : UInt8 := 32

def newline : UInt8 := 10

/-- The printable characters of ASCII. -/
def isPrint (c : UInt8) : Bool := 32 ≤ c && c ≤ 126

lemma newline_not_isPrint : isPrint newline = false := rfl

/-- A screen of `lines` rows and `cols` columns. -/
structure Terminal (lines cols : ℕ) where
  Window : Type
  initscr : Window
  addch : Window → UInt8 → Window
  mvinch : Window → ℕ → ℕ → UInt8
  cursor : Window → ℕ × ℕ
  cursor_lt : ∀ w, (cursor w).1 < lines ∧ (cursor w).2 < cols
  cursor_initscr : cursor initscr = (0, 0)
  mvinch_initscr : ∀ r c, r < lines → c < cols → mvinch initscr r c = blank
  /-- A printable character changes the cell at the cursor. -/
  mvinch_addch : ∀ w a, isPrint a = true → ∀ r c, r < lines → c < cols →
    mvinch (addch w a) r c = if cursor w = (r, c) then a else mvinch w r c
  /-- A newline clears its row from the cursor on. -/
  mvinch_newline : ∀ w r c, r < lines → c < cols → mvinch (addch w newline) r c =
    if r = (cursor w).1 ∧ (cursor w).2 ≤ c then blank else mvinch w r c
  /-- Behind a printable character the cursor moves right. -/
  cursor_addch : ∀ w a, isPrint a = true → (cursor w).2 + 1 < cols →
    cursor (addch w a) = ((cursor w).1, (cursor w).2 + 1)
  /-- Behind the last column it goes to the next row. -/
  cursor_wrap : ∀ w a, isPrint a = true → (cursor w).2 + 1 = cols → (cursor w).1 + 1 < lines →
    cursor (addch w a) = ((cursor w).1 + 1, 0)
  /-- Behind a newline too. -/
  cursor_newline : ∀ w, (cursor w).1 + 1 < lines →
    cursor (addch w newline) = ((cursor w).1 + 1, 0)
  /-- It does not leave the bottom row. -/
  cursor_bottom : ∀ w a, isPrint a = true ∨ a = newline → (cursor w).1 + 1 = lines →
    (cursor (addch w a)).1 = (cursor w).1

variable {lines cols : ℕ}

/-- The characters of a text, one after the other. -/
def Terminal.print (T : Terminal lines cols) (w : T.Window) (text : List UInt8) : T.Window :=
  text.foldl T.addch w

/-- A row of the screen. -/
def Terminal.row (T : Terminal lines cols) (w : T.Window) (r : ℕ) : List UInt8 :=
  (List.range cols).map (T.mvinch w r)

/-- A text whose characters are printable or newlines. -/
abbrev Plain (text : List UInt8) : Prop := ∀ a ∈ text, isPrint a = true ∨ a = newline

/-! ## Printing a text -/

/-- The rows of a text, from a row that has `row` in it on. -/
def typeset (width : ℕ) (row : List UInt8) : List UInt8 → List (List UInt8)
  | [] => [row]
  | a :: text =>
      if a = newline then row :: typeset width [] text
      else if row.length + 1 = width then (row ++ [a]) :: typeset width [] text
      else typeset width (row ++ [a]) text

/-- The rows of a text are its lines, wrapped. -/
lemma typeset_eq (width : ℕ) (row text : List UInt8) : ∃ l ls,
    text.splitOn newline = l :: ls ∧
      typeset width row text = wrapFrom width row l ++ ls.flatMap (wrap width) := by
  induction text generalizing row with
  | nil => exact ⟨[], [], List.splitOn_nil _, by simp [typeset, wrapFrom]⟩
  | cons a text ih =>
      rw [List.splitOn_cons_eq_if_modifyHead, typeset]
      by_cases ha : a = newline
      · obtain ⟨l, ls, hsplit, hrows⟩ := ih []
        refine ⟨[], l :: ls, by simp [ha, hsplit], ?_⟩
        rw [if_pos ha, hrows]
        simp [wrapFrom, wrap]
      · by_cases hlast : row.length + 1 = width
        · obtain ⟨l, ls, hsplit, hrows⟩ := ih []
          refine ⟨a :: l, ls, by simp [ha, hsplit], ?_⟩
          rw [if_neg ha, if_pos hlast, hrows, wrapFrom, if_pos hlast, List.cons_append]
        · obtain ⟨l, ls, hsplit, hrows⟩ := ih (row ++ [a])
          refine ⟨a :: l, ls, by simp [ha, hsplit], ?_⟩
          rw [if_neg ha, if_neg hlast, hrows, wrapFrom, if_neg hlast]

/-- What a row of a list of rows has in a column. -/
def cellOf (rows : List (List UInt8)) (r c : ℕ) : UInt8 := ((rows[r]?.getD [])[c]?).getD blank

/-- The screen shows `done`, and below it `row`, in which the cursor stands; what does not
fit above the bottom row is out of sight. -/
structure Shows (T : Terminal lines cols) (w : T.Window) (done : List (List UInt8))
    (row : List UInt8) : Prop where
  short : row.length < cols
  cells : ∀ r c, r + 1 < lines → c < cols → T.mvinch w r c = cellOf (done ++ [row]) r c
  cursor : done.length + 1 < lines → T.cursor w = (done.length, row.length)
  bottom : lines ≤ done.length + 1 → (T.cursor w).1 + 1 = lines

variable {T : Terminal lines cols} {w : T.Window} {done : List (List UInt8)} {row : List UInt8}

lemma cellOf_append_of_lt {rows rows' : List (List UInt8)} {r c : ℕ} (h : r < rows.length) :
    cellOf (rows ++ rows') r c = cellOf rows r c := by
  simp [cellOf, List.getElem?_append_left h]

lemma cellOf_of_length_le {rows : List (List UInt8)} {r c : ℕ} (h : rows.length ≤ r) :
    cellOf rows r c = blank := by
  simp [cellOf, List.getElem?_eq_none h]

/-- An empty row below changes no cell. -/
lemma cellOf_concat_nil (rows : List (List UInt8)) (r c : ℕ) :
    cellOf (rows ++ [[]]) r c = cellOf rows r c := by
  rcases Nat.lt_trichotomy r rows.length with hr | rfl | hr
  · exact cellOf_append_of_lt hr
  · simp [cellOf]
  · rw [cellOf_of_length_le (by simp; omega), cellOf_of_length_le hr.le]

lemma cellOf_last (rows : List (List UInt8)) (row : List UInt8) (c : ℕ) :
    cellOf (rows ++ [row]) rows.length c = row[c]?.getD blank := by
  simp [cellOf]

lemma shows_initscr (T : Terminal lines cols) : Shows T T.initscr [] [] where
  short := (T.cursor_lt T.initscr).2.trans_le' (Nat.zero_le _)
  cells r c hr hc := by
    rw [T.mvinch_initscr r c (by omega) hc, cellOf_concat_nil]
    simp [cellOf]
  cursor _ := T.cursor_initscr
  bottom h := by
    have hpos := (T.cursor_lt T.initscr).1
    rw [T.cursor_initscr] at hpos ⊢
    simp at h hpos ⊢
    omega

/-- Out of sight a character changes nothing in sight. -/
lemma Shows.unseen (h : Shows T w done row) {a : UInt8} (ha : isPrint a = true ∨ a = newline)
    (hdone : lines ≤ done.length + 1) (rows : List (List UInt8)) {row' : List UInt8}
    (hshort : row'.length < cols) :
    Shows T (T.addch w a) (done ++ rows) row' := by
  have hbottom := h.bottom hdone
  refine ⟨hshort, fun r c hr hc => ?_, fun hlt => ?_, fun _ => ?_⟩
  · have hcell : T.mvinch (T.addch w a) r c = T.mvinch w r c := by
      rcases ha with ha | rfl
      · rw [T.mvinch_addch w a ha r c (by omega) hc, if_neg]
        intro heq
        rw [heq] at hbottom
        omega
      · rw [T.mvinch_newline w r c (by omega) hc, if_neg]
        rintro ⟨rfl, -⟩
        omega
    rw [hcell, h.cells r c hr hc, cellOf_append_of_lt (by omega), List.append_assoc,
      cellOf_append_of_lt (by omega)]
  · simp at hlt
    omega
  · rw [T.cursor_bottom w a ha hbottom]
    exact hbottom

lemma Shows.feeds (h : Shows T w done row) (hdone : done.length + 1 < lines) :
    Shows T (T.addch w newline) (done ++ [row]) [] := by
  have hcursor := h.cursor hdone
  refine ⟨by simpa using (Nat.zero_le _).trans_lt h.short, fun r c hr hc => ?_, fun hlt => ?_,
    fun hle => ?_⟩
  · rw [T.mvinch_newline w r c (by omega) hc, h.cells r c hr hc, cellOf_concat_nil, hcursor]
    split
    · -- the cleared cells were blank
      rename_i hclear
      rw [hclear.1, cellOf_last, List.getElem?_eq_none hclear.2]
      rfl
    · rfl
  · rw [T.cursor_newline w (by rw [hcursor]; exact hdone), hcursor]
    simp
  · rw [T.cursor_newline w (by rw [hcursor]; exact hdone), hcursor]
    simp at hle ⊢
    omega

/-- A character in sight goes to the end of the row. -/
lemma Shows.mvinch_addch (h : Shows T w done row) {a : UInt8} (ha : isPrint a = true)
    (hdone : done.length + 1 < lines) {r c : ℕ} (hr : r + 1 < lines) (hc : c < cols) :
    T.mvinch (T.addch w a) r c = cellOf (done ++ [row ++ [a]]) r c := by
  rw [T.mvinch_addch w a ha r c (by omega) hc, h.cells r c hr hc, h.cursor hdone]
  rcases Nat.lt_trichotomy r done.length with hlt | rfl | hlt
  · rw [if_neg (by simp; omega), cellOf_append_of_lt hlt, cellOf_append_of_lt hlt]
  · rw [cellOf_last, cellOf_last]
    rcases Nat.lt_trichotomy c row.length with hlt | rfl | hlt
    · rw [if_neg (by simp; omega), List.getElem?_append_left hlt]
    · simp
    · rw [if_neg (by simp; omega), List.getElem?_eq_none hlt.le,
        List.getElem?_eq_none (by simp; omega)]
  · rw [if_neg (by simp; omega), cellOf_of_length_le (by simp; omega),
      cellOf_of_length_le (by simp; omega)]

lemma Shows.addch (h : Shows T w done row) {a : UInt8} (ha : isPrint a = true)
    (hdone : done.length + 1 < lines) (hrow : row.length + 1 < cols) :
    Shows T (T.addch w a) done (row ++ [a]) := by
  have hcursor := h.cursor hdone
  refine ⟨by simpa using hrow, fun r c hr hc => h.mvinch_addch ha hdone hr hc, fun _ => ?_,
    fun hle => by omega⟩
  rw [T.cursor_addch w a ha (by rw [hcursor]; exact hrow), hcursor]
  simp

lemma Shows.wraps (h : Shows T w done row) {a : UInt8} (ha : isPrint a = true)
    (hdone : done.length + 1 < lines) (hrow : row.length + 1 = cols) :
    Shows T (T.addch w a) (done ++ [row ++ [a]]) [] := by
  have hcursor := h.cursor hdone
  have hnext : T.cursor (T.addch w a) = (done.length + 1, 0) := by
    rw [T.cursor_wrap w a ha (by rw [hcursor]; exact hrow) (by rw [hcursor]; exact hdone), hcursor]
  refine ⟨by simp; omega, fun r c hr hc => ?_, fun _ => ?_, fun hle => ?_⟩
  · rw [cellOf_concat_nil]
    exact h.mvinch_addch ha hdone hr hc
  · rw [hnext]
    simp
  · rw [hnext]
    simp at hle ⊢
    omega

/-- A text printed on from a screen shows its rows. -/
lemma Shows.print (h : Shows T w done row) {text : List UInt8} (htext : Plain text) {r c : ℕ}
    (hr : r + 1 < lines) (hc : c < cols) :
    T.mvinch (T.print w text) r c = cellOf (done ++ typeset cols row text) r c := by
  induction text generalizing w done row with
  | nil => exact h.cells r c hr hc
  | cons a text ih =>
      obtain ⟨ha, hrest⟩ := List.forall_mem_cons.mp htext
      rw [Terminal.print, List.foldl_cons, ← Terminal.print, typeset]
      have hshort := h.short
      have hsight := Nat.lt_or_ge (done.length + 1) lines
      by_cases hnewline : a = newline
      · subst hnewline
        have hnext : Shows T (T.addch w newline) (done ++ [row]) [] :=
          hsight.elim h.feeds fun hout => h.unseen ha hout _ (by simp; omega)
        rw [if_pos rfl, List.append_cons]
        exact ih hnext hrest
      · have hprint := ha.resolve_right hnewline
        rw [if_neg hnewline]
        by_cases hlast : row.length + 1 = cols
        · have hnext : Shows T (T.addch w a) (done ++ [row ++ [a]]) [] :=
            hsight.elim (fun hin => h.wraps hprint hin hlast)
              fun hout => h.unseen ha hout _ (by simp; omega)
          rw [if_pos hlast, List.append_cons]
          exact ih hnext hrest
        · have hnext : Shows T (T.addch w a) done (row ++ [a]) :=
            hsight.elim (fun hin => h.addch hprint hin (by omega)) fun hout =>
              List.append_nil done ▸ h.unseen ha hout [] (by simp; omega)
          rw [if_neg hlast]
          exact ih hnext hrest

/-- The rows of a text on a screen of a given width. -/
def rowsOf (width : ℕ) (text : List UInt8) : List (List UInt8) :=
  (text.splitOn newline).flatMap (wrap width)

/-- **A text printed on the blank screen** stands there wrapped, above the bottom row. -/
theorem mvinch_print (T : Terminal lines cols) {text : List UInt8} (htext : Plain text) {r c : ℕ}
    (hr : r + 1 < lines) (hc : c < cols) :
    T.mvinch (T.print T.initscr text) r c = cellOf (rowsOf cols text) r c := by
  obtain ⟨l, ls, hsplit, hrows⟩ := typeset_eq cols [] text
  rw [(shows_initscr T).print htext hr hc, hrows, rowsOf, hsplit]
  rfl

/-- What the rows of the screen say is what the rows of the text say. -/
lemma trim_row_print (T : Terminal lines cols) {text : List UInt8} (htext : Plain text) {r : ℕ}
    (hr : r + 1 < lines) :
    trim blank (T.row (T.print T.initscr text) r) =
      trim blank ((rowsOf cols text)[r]?.getD []) := by
  have hcols : 0 < cols := (T.cursor_lt T.initscr).2.trans_le' (Nat.zero_le _)
  have hlen : ((rowsOf cols text)[r]?.getD []).length ≤ cols := by
    cases hrow : (rowsOf cols text)[r]? with
    | none => simp
    | some row =>
        obtain ⟨l, -, hl⟩ := List.mem_flatMap.mp (List.mem_of_getElem? hrow)
        exact length_le_of_mem_wrapFrom (by simpa using hcols) row hl
  have hcells : T.row (T.print T.initscr text) r =
      (List.range cols).map (cellOf (rowsOf cols text) r) :=
    List.map_congr_left fun c hc => mvinch_print T htext hr (List.mem_range.mp hc)
  rw [hcells]
  exact trim_cells hlen

/-- Printing leaves printable characters in the cells. -/
lemma isPrint_print (T : Terminal lines cols) {text : List UInt8} (htext : Plain text)
    {w : T.Window} (hw : ∀ r c, r < lines → c < cols → isPrint (T.mvinch w r c) = true) :
    ∀ r c, r < lines → c < cols → isPrint (T.mvinch (T.print w text) r c) = true := by
  induction text generalizing w with
  | nil => exact hw
  | cons a text ih =>
      obtain ⟨ha, hrest⟩ := List.forall_mem_cons.mp htext
      refine ih hrest fun r c hr hc => ?_
      rcases ha with ha | rfl
      · rw [T.mvinch_addch w a ha r c hr hc]
        split
        · exact ha
        · exact hw r c hr hc
      · rw [T.mvinch_newline w r c hr hc]
        split
        · rfl
        · exact hw r c hr hc

lemma isPrint_print_initscr (T : Terminal lines cols) {text : List UInt8} (htext : Plain text) :
    ∀ r c, r < lines → c < cols → isPrint (T.mvinch (T.print T.initscr text) r c) = true :=
  isPrint_print T htext fun r c hr hc => by rw [T.mvinch_initscr r c hr hc]; rfl

/-! ## A screen that obeys the laws -/

structure Grid (lines cols : ℕ) where
  cell : ℕ → ℕ → UInt8
  row : ℕ
  col : ℕ
  row_lt : row < lines
  col_lt : col < cols

/-- The cursor goes to the next row, if there is one. -/
def Grid.down (g : Grid lines cols) (cell : ℕ → ℕ → UInt8) : Grid lines cols :=
  if h : g.row + 1 < lines then ⟨cell, g.row + 1, 0, h, g.col_lt.trans_le' (Nat.zero_le _)⟩
  else { g with cell := cell }

def Grid.addch (g : Grid lines cols) (a : UInt8) : Grid lines cols :=
  let cell r c := if (g.row, g.col) = (r, c) then a else g.cell r c
  if a = newline then
    g.down fun r c => if r = g.row ∧ g.col ≤ c then blank else g.cell r c
  else if h : g.col + 1 < cols then { g with cell := cell, col := g.col + 1, col_lt := h }
  else g.down cell

lemma Grid.down_cell (g : Grid lines cols) (cell : ℕ → ℕ → UInt8) : (g.down cell).cell = cell := by
  unfold Grid.down
  split <;> rfl

/-- The blank screen, with the cursor at its upper left corner. -/
def grid (hlines : 0 < lines) (hcols : 0 < cols) : Terminal lines cols where
  Window := Grid lines cols
  initscr := ⟨fun _ _ => blank, 0, 0, hlines, hcols⟩
  addch := Grid.addch
  mvinch g := g.cell
  cursor g := (g.row, g.col)
  cursor_lt g := ⟨g.row_lt, g.col_lt⟩
  cursor_initscr := rfl
  mvinch_initscr _ _ _ _ := rfl
  mvinch_addch g a ha r c _ _ := by
    have hne : a ≠ newline := fun heq => by simp [heq, newline_not_isPrint] at ha
    simp only [Grid.addch, if_neg hne]
    split
    · rfl
    · rw [Grid.down_cell]
  mvinch_newline g r c _ _ := by
    simp only [Grid.addch, if_pos, Grid.down_cell]
  cursor_addch g a ha hcol := by
    have hne : a ≠ newline := fun heq => by simp [heq, newline_not_isPrint] at ha
    simp only [Grid.addch, if_neg hne, dif_pos hcol]
  cursor_wrap g a ha hcol hrow := by
    have hne : a ≠ newline := fun heq => by simp [heq, newline_not_isPrint] at ha
    simp only [Grid.addch, if_neg hne, dif_neg (not_lt.mpr hcol.ge), Grid.down, dif_pos hrow]
  cursor_newline g hrow := by
    simp only [Grid.addch, if_pos, Grid.down, dif_pos hrow]
  cursor_bottom g a _ hrow := by
    have hbottom : ¬ g.row + 1 < lines := not_lt.mpr hrow.ge
    simp only [Grid.addch, Grid.down, dif_neg hbottom]
    split
    · rfl
    · split <;> rfl

end Screen
