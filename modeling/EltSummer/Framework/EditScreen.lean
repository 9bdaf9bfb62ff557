import EltSummer.Framework.Terminal

/-!
# A terminal screen that is edited

What an editor relies on besides printing: a character is inserted or deleted at the cursor and
the rest of its row moves, a line is inserted or deleted at the cursor and the rows below move.
What is pushed over the border of the screen is lost, and what comes in from there is blank.

On a list of lines the same is done by inserting and erasing elements (`insertChar`,
`deleteChar`, `insertLine`, `deleteLine`), and nothing is lost.  The lemmas `cellOf_…` say cell by
cell what becomes of the lines, which is how the two are compared.
-/

namespace Screen

open Wrapping

/-! ## Lines -/

/-- At least `n` elements. -/
def padTo {α : Type*} (n : ℕ) (b : α) (l : List α) : List α := l ++ List.replicate (n - l.length) b

/-- Line `r` becomes what `f` makes of it; a line that is not there is empty. -/
def editLine (r : ℕ) (f : List UInt8 → List UInt8) (ls : List (List UInt8)) : List (List UInt8) :=
  (padTo (r + 1) [] ls).modify r f

/-- A character at column `c` of line `r`. -/
def insertChar (r c : ℕ) (a : UInt8) (ls : List (List UInt8)) : List (List UInt8) :=
  editLine r (fun l => (padTo c blank l).insertIdx c a) ls

def deleteChar (r c : ℕ) (ls : List (List UInt8)) : List (List UInt8) :=
  editLine r (fun l => l.eraseIdx c) ls

/-- An empty line above line `r`. -/
def insertLine (r : ℕ) (ls : List (List UInt8)) : List (List UInt8) := ls.insertIdx r []

def deleteLine (r : ℕ) (ls : List (List UInt8)) : List (List UInt8) := ls.eraseIdx r

variable {ls : List (List UInt8)} {r c r' c' : ℕ} {a : UInt8}

lemma getElem?_padTo {α : Type*} (n : ℕ) (b : α) (l : List α) (i : ℕ) :
    (padTo n b l)[i]? = if i < l.length then l[i]? else if i < n then some b else none := by
  unfold padTo
  by_cases hi : i < l.length
  · rw [if_pos hi, List.getElem?_append_left hi]
  · rw [if_neg hi, List.getElem?_append_right (not_lt.mp hi), List.getElem?_replicate]
    congr 1
    apply propext
    omega

lemma length_padTo {α : Type*} (n : ℕ) (b : α) (l : List α) :
    (padTo n b l).length = max n l.length := by
  rw [padTo, List.length_append, List.length_replicate]
  omega

/-- What is added changes nothing if what is not there is read as what is added. -/
lemma getD_padTo {α : Type*} (n : ℕ) (b : α) (l : List α) (i : ℕ) :
    (padTo n b l)[i]?.getD b = l[i]?.getD b := by
  rw [getElem?_padTo]
  by_cases hi : i < l.length
  · rw [if_pos hi]
  · rw [if_neg hi, List.getElem?_eq_none (not_lt.mp hi)]
    split <;> rfl

/-- An edited line, and the others. -/
lemma cellOf_editLine (f : List UInt8 → List UInt8) : cellOf (editLine r f ls) r' c' =
    if r' = r then ((f (ls[r]?.getD []))[c']?).getD blank else cellOf ls r' c' := by
  unfold cellOf editLine
  rw [List.getElem?_modify, getElem?_padTo]
  by_cases hr : r' = r
  · subst hr
    by_cases hlt : r' < ls.length
    · simp [hlt]
    · simp [hlt]
  · by_cases hlt : r' < ls.length
    · simp [hr, Ne.symm hr, hlt]
    · by_cases hpad : r' < r + 1
      · simp [hr, Ne.symm hr, hlt, hpad]
      · simp [hr, Ne.symm hr, hlt, hpad]

lemma cellOf_insertChar : cellOf (insertChar r c a ls) r' c' =
    if r' = r then
      if c' < c then cellOf ls r c' else if c' = c then a else cellOf ls r (c' - 1)
    else cellOf ls r' c' := by
  rw [insertChar, cellOf_editLine]
  by_cases hr : r' = r
  · rw [if_pos hr, if_pos hr, List.getElem?_insertIdx, length_padTo]
    by_cases hlt : c' < c
    · rw [if_pos hlt, if_pos hlt, getD_padTo, cellOf]
    rw [if_neg hlt, if_neg hlt]
    by_cases heq : c' = c
    · rw [if_pos heq, if_pos heq, if_pos (by omega)]
      rfl
    · rw [if_neg heq, if_neg heq, getD_padTo, cellOf]
  · rw [if_neg hr, if_neg hr]

lemma cellOf_deleteChar : cellOf (deleteChar r c ls) r' c' =
    if r' = r ∧ c ≤ c' then cellOf ls r (c' + 1) else cellOf ls r' c' := by
  rw [deleteChar, cellOf_editLine]
  by_cases hr : r' = r
  · subst hr
    rw [if_pos rfl, List.getElem?_eraseIdx]
    by_cases hc : c' < c
    · rw [if_pos hc, if_neg (by omega), cellOf]
    · rw [if_neg hc, if_pos ⟨rfl, not_lt.mp hc⟩, cellOf]
  · rw [if_neg hr, if_neg (fun h => hr h.1)]

lemma cellOf_insertLine : cellOf (insertLine r ls) r' c' =
    if r' < r then cellOf ls r' c' else if r' = r then blank else cellOf ls (r' - 1) c' := by
  unfold cellOf insertLine
  rw [List.getElem?_insertIdx]
  by_cases hlt : r' < r
  · rw [if_pos hlt, if_pos hlt]
  rw [if_neg hlt, if_neg hlt]
  by_cases heq : r' = r
  · rw [if_pos heq, if_pos heq]
    split <;> rfl
  · rw [if_neg heq, if_neg heq]

lemma cellOf_deleteLine : cellOf (deleteLine r ls) r' c' =
    if r' < r then cellOf ls r' c' else cellOf ls (r' + 1) c' := by
  unfold cellOf deleteLine
  rw [List.getElem?_eraseIdx]
  split <;> rfl

/-! ## What lines say -/

lemma getD_trim (l : List UInt8) (c : ℕ) : (trim blank l)[c]?.getD blank = l[c]?.getD blank := by
  induction l using List.reverseRecOn with
  | nil => rfl
  | append_singleton l a ih =>
      by_cases ha : a = blank
      · subst ha
        rw [← List.replicate_one, trim_append_replicate, ih, List.getElem?_append]
        split
        · rfl
        · rename_i hlen
          rw [List.getElem?_eq_none (not_lt.mp hlen), List.getElem?_replicate]
          split <;> rfl
      · rw [trim, List.rdropWhile_concat_neg _ _ _ (by simpa using ha)]

/-- Blanks at the ends of lines and empty lines at the end are not seen. -/
lemma cellOf_tidy (ls : List (List UInt8)) (r c : ℕ) :
    cellOf (tidy blank ls) r c = cellOf ls r c := by
  induction ls generalizing r with
  | nil => rfl
  | cons l ls ih =>
      rw [tidy_cons]
      split
      · rename_i hnil
        cases r with
        | zero =>
            have hline := getD_trim l c
            rw [hnil.2] at hline
            exact hline
        | succ r =>
            have hline := ih r
            rw [hnil.1] at hline
            exact hline
      · cases r with
        | zero => exact getD_trim l c
        | succ r => exact ih r

/-- Lines that look the same say the same. -/
lemma tidy_eq_of_cellOf {ls' : List (List UInt8)} (h : ∀ r c, cellOf ls r c = cellOf ls' r c) :
    tidy blank ls = tidy blank ls' := by
  have hrows : ∀ (ks : List (List UInt8)) (n : ℕ), ks.length ≤ n →
      tidy blank ks = tidy blank ((List.range n).map fun r : ℕ => trim blank (ks[r]?.getD [])) := by
    intro ks n hn
    have hmap : ((List.range n).map fun r : ℕ => trim blank (ks[r]?.getD [])) =
        ((List.range n).map fun r : ℕ => ks[r]?.getD []).map (trim blank) := by
      rw [List.map_map]
      rfl
    rw [hmap, tidy_map_trim, map_getD_range, List.take_of_length_le hn, tidy_append_empty]
    intro l hl
    rw [List.eq_of_mem_replicate hl, trim_nil]
  have hline : ∀ r : ℕ, trim blank (ls[r]?.getD []) = trim blank (ls'[r]?.getD []) := by
    intro r
    have hlen := le_max_left (ls[r]?.getD []).length (ls'[r]?.getD []).length
    have hlen' := le_max_right (ls[r]?.getD []).length (ls'[r]?.getD []).length
    rw [← trim_cells hlen, ← trim_cells hlen']
    congr 1
    apply List.map_congr_left
    intro c _
    exact h r c
  rw [hrows ls _ (le_max_left ls.length ls'.length),
    hrows ls' _ (le_max_right ls.length ls'.length)]
  simp only [hline]

/-! ## The bottom row

A text that is printed leaves the bottom row blank if only blanks of it are out of sight. -/

section Bottom

variable {lines cols : ℕ} {T : Terminal lines cols} {w : T.Window} {done : List (List UInt8)}
  {row text : List UInt8}

/-- What the next character does to the rows in sight, and that it takes no row away. -/
lemma Shows.next (h : Shows T w done row) (ha : isPrint a = true ∨ a = newline)
    (text : List UInt8) :
    ∃ done' row', Shows T (T.addch w a) done' row' ∧
      done' ++ typeset cols row' text = done ++ typeset cols row (a :: text) := by
  have hshort := h.short
  have hsight := Nat.lt_or_ge (done.length + 1) lines
  rw [typeset]
  by_cases hnewline : a = newline
  · subst hnewline
    refine ⟨done ++ [row], [], ?_, by simp⟩
    exact hsight.elim h.feeds fun hout => h.unseen ha hout _ (by simp; omega)
  have hprint := ha.resolve_right hnewline
  rw [if_neg hnewline]
  by_cases hlast : row.length + 1 = cols
  · refine ⟨done ++ [row ++ [a]], [], ?_, by simp [hlast]⟩
    exact hsight.elim (fun hin => h.wraps hprint hin hlast)
      fun hout => h.unseen ha hout _ (by simp; omega)
  · refine ⟨done, row ++ [a], ?_, by rw [if_neg hlast]⟩
    exact hsight.elim (fun hin => h.addch hprint hin (by omega)) fun hout =>
      List.append_nil done ▸ h.unseen ha hout [] (by simp; omega)

/-- The first row begins with what stands there already. -/
lemma exists_typeset_eq (width : ℕ) (row text : List UInt8) :
    ∃ l ls, typeset width row text = (row ++ l) :: ls := by
  induction text generalizing row with
  | nil => exact ⟨[], [], by rw [typeset, List.append_nil]⟩
  | cons a text ih =>
      rw [typeset]
      split
      · exact ⟨[], _, by rw [List.append_nil]⟩
      split
      · exact ⟨[a], _, rfl⟩
      · obtain ⟨l, ls, hrows⟩ := ih (row ++ [a])
        exact ⟨a :: l, ls, by rw [hrows, List.append_assoc, List.singleton_append]⟩

lemma Shows.bottom_blank (h : Shows T w done row) (htext : Plain text)
    (hbottom : ∀ c < cols, T.mvinch w (lines - 1) c = blank)
    (hunseen : ∀ l ∈ (done ++ typeset cols row text).drop (lines - 1), ∀ b ∈ l, b = blank) :
    ∀ c < cols, T.mvinch (T.print w text) (lines - 1) c = blank := by
  induction text generalizing w done row with
  | nil => exact hbottom
  | cons a text ih =>
      obtain ⟨ha, hrest⟩ := List.forall_mem_cons.mp htext
      obtain ⟨done', row', hnext, hrows⟩ := h.next ha text
      refine ih hnext hrest (fun c hc => ?_) (by rwa [hrows])
      have hlines := (T.cursor_lt w).1
      rcases ha with ha | rfl
      · rw [T.mvinch_addch w a ha _ c (by omega) hc]
        split
        · -- the cursor is in the bottom row, so the character is out of sight
          rename_i hcursor
          have hdone : lines - 1 ≤ done.length := by
            by_contra hlt
            have hplace := h.cursor (by omega)
            rw [hcursor, Prod.mk.injEq] at hplace
            omega
          have hne : a ≠ newline := by
            rintro rfl
            cases ha
          obtain ⟨l, ls, hhead⟩ : ∃ l ls, typeset cols row (a :: text) = (row ++ a :: l) :: ls := by
            rw [typeset, if_neg hne]
            split
            · exact ⟨[], _, rfl⟩
            · obtain ⟨l, ls, hls⟩ := exists_typeset_eq cols (row ++ [a]) text
              exact ⟨l, ls, by rw [hls, List.append_assoc, List.singleton_append]⟩
          apply hunseen (row ++ a :: l)
          · rw [hhead, List.drop_append, List.mem_append]
            right
            rw [Nat.sub_eq_zero_of_le hdone, List.drop_zero]
            exact List.mem_cons_self
          · exact List.mem_append_right _ List.mem_cons_self
        · exact hbottom c hc
      · rw [T.mvinch_newline w _ c (by omega) hc]
        split
        · rfl
        · exact hbottom c hc

end Bottom

/-! ## A screen -/

variable {lines cols : ℕ}

/-- A screen that is edited. -/
structure Editable (lines cols : ℕ) extends Terminal lines cols where
  move : Window → ℤ → ℤ → Window
  insch : Window → ℤ → Window
  delch : Window → Window
  insertln : Window → Window
  deleteln : Window → Window
  clrtoeol : Window → Window
  mvaddstr : Window → ℤ → ℤ → List UInt8 → Window
  mvinch_move : ∀ w y x r c, mvinch (move w y x) r c = mvinch w r c
  cursor_move : ∀ w (r c : ℕ), r < lines → c < cols → cursor (move w r c) = (r, c)
  /-- There is no way off the screen. -/
  cursor_move_off : ∀ w (y x : ℤ), ¬ (0 ≤ y ∧ y < lines ∧ 0 ≤ x ∧ x < cols) →
    cursor (move w y x) = cursor w
  /-- The rest of the row moves right, and its last character is lost. -/
  mvinch_insch : ∀ w (a : UInt8), isPrint a = true → ∀ r c, r < lines → c < cols →
    mvinch (insch w a.toNat) r c =
      if r = (cursor w).1 then
        if c < (cursor w).2 then mvinch w r c else if c = (cursor w).2 then a
        else mvinch w r (c - 1)
      else mvinch w r c
  /-- The rest of the row moves left. -/
  mvinch_delch : ∀ w r c, r < lines → c < cols → mvinch (delch w) r c =
    if r = (cursor w).1 ∧ (cursor w).2 ≤ c then
      if c + 1 < cols then mvinch w r (c + 1) else blank
    else mvinch w r c
  /-- The rows from the cursor on move down, and the bottom row is lost. -/
  mvinch_insertln : ∀ w r c, r < lines → c < cols → mvinch (insertln w) r c =
    if r < (cursor w).1 then mvinch w r c else if r = (cursor w).1 then blank
    else mvinch w (r - 1) c
  /-- The rows below the cursor move up. -/
  mvinch_deleteln : ∀ w r c, r < lines → c < cols → mvinch (deleteln w) r c =
    if r < (cursor w).1 then mvinch w r c else if r + 1 < lines then mvinch w (r + 1) c
    else blank
  mvinch_clrtoeol : ∀ w r c, r < lines → c < cols → mvinch (clrtoeol w) r c =
    if r = (cursor w).1 ∧ (cursor w).2 ≤ c then blank else mvinch w r c
  /-- A text changes nothing before the place where it begins. -/
  mvinch_mvaddstr : ∀ w (r₀ c₀ : ℕ) text r c, r₀ < lines → c₀ < cols → c < cols →
    r < r₀ ∨ r = r₀ ∧ c < c₀ → mvinch (mvaddstr w r₀ c₀ text) r c = mvinch w r c
  /-- Off the screen it changes nothing. -/
  mvinch_mvaddstr_off : ∀ w (y x : ℤ) text r c, ¬ (0 ≤ y ∧ y < lines ∧ 0 ≤ x ∧ x < cols) →
    mvinch (mvaddstr w y x text) r c = mvinch w r c
  cursor_mvaddstr_off : ∀ w (y x : ℤ) text, ¬ (0 ≤ y ∧ y < lines ∧ 0 ≤ x ∧ x < cols) →
    cursor (mvaddstr w y x text) = cursor w

/-- Who is where a `move` has led stays there with the same `move`, on the screen or off it. -/
lemma Editable.cursor_move_again (T : Editable lines cols) {w w' : T.Window}
    {y x : ℤ} (h : T.cursor w' = T.cursor (T.move w y x)) :
    T.cursor (T.move w' y x) = T.cursor (T.move w y x) := by
  by_cases hon : 0 ≤ y ∧ y < lines ∧ 0 ≤ x ∧ x < cols
  · obtain ⟨r, rfl⟩ := Int.eq_ofNat_of_zero_le hon.1
    obtain ⟨c, rfl⟩ := Int.eq_ofNat_of_zero_le hon.2.2.1
    rw [T.cursor_move w' r c (by omega) (by omega), T.cursor_move w r c (by omega) (by omega)]
  · rw [T.cursor_move_off w' y x hon, h]

/-! ## A screen that obeys the laws -/

def Grid.move (g : Grid lines cols) (y x : ℤ) : Grid lines cols :=
  if h : (0 ≤ y ∧ y < lines) ∧ 0 ≤ x ∧ x < cols then
    ⟨g.cell, y.toNat, x.toNat, by omega, by omega⟩
  else g

def Grid.insch (g : Grid lines cols) (a : ℤ) : Grid lines cols :=
  { g with cell := fun r c =>
      if r = g.row then
        if c < g.col then g.cell r c else if c = g.col then UInt8.ofNat a.toNat
        else g.cell r (c - 1)
      else g.cell r c }

def Grid.delch (g : Grid lines cols) : Grid lines cols :=
  { g with cell := fun r c =>
      if r = g.row ∧ g.col ≤ c then if c + 1 < cols then g.cell r (c + 1) else blank
      else g.cell r c }

def Grid.insertln (g : Grid lines cols) : Grid lines cols :=
  { g with cell := fun r c =>
      if r < g.row then g.cell r c else if r = g.row then blank else g.cell (r - 1) c }

def Grid.deleteln (g : Grid lines cols) : Grid lines cols :=
  { g with cell := fun r c =>
      if r < g.row then g.cell r c else if r + 1 < lines then g.cell (r + 1) c else blank }

def Grid.clrtoeol (g : Grid lines cols) : Grid lines cols :=
  { g with cell := fun r c => if r = g.row ∧ g.col ≤ c then blank else g.cell r c }

def Grid.mvaddstr (g : Grid lines cols) (y x : ℤ) (text : List UInt8) : Grid lines cols :=
  if 0 ≤ y ∧ y < lines ∧ 0 ≤ x ∧ x < cols then text.foldl Grid.addch (g.move y x) else g

lemma Grid.move_cell (g : Grid lines cols) (y x : ℤ) : (g.move y x).cell = g.cell := by
  unfold Grid.move
  split <;> rfl

lemma Grid.move_eq (g : Grid lines cols) {r c : ℕ} (hr : r < lines) (hc : c < cols) :
    g.move r c = ⟨g.cell, r, c, hr, hc⟩ := by
  unfold Grid.move
  rw [dif_pos (by omega)]
  simp

lemma Grid.move_off (g : Grid lines cols) {y x : ℤ}
    (h : ¬ (0 ≤ y ∧ y < lines ∧ 0 ≤ x ∧ x < cols)) : g.move y x = g := by
  unfold Grid.move
  rw [dif_neg (by omega)]

/-- A character changes nothing before the cursor, and does not move it back. -/
lemma Grid.addch_before (g : Grid lines cols) (a : UInt8) {r c : ℕ}
    (h : r < g.row ∨ r = g.row ∧ c < g.col) :
    (g.addch a).cell r c = g.cell r c ∧
      (r < (g.addch a).row ∨ r = (g.addch a).row ∧ c < (g.addch a).col) := by
  have hdown : ∀ cell, r < (g.down cell).row ∨ r = (g.down cell).row ∧ c < (g.down cell).col := by
    intro cell
    unfold Grid.down
    split
    · exact Or.inl (by dsimp only; omega)
    · exact h
  unfold Grid.addch
  dsimp only
  split
  · refine ⟨?_, hdown _⟩
    rw [Grid.down_cell, if_neg (by omega)]
  have hcell : (if (g.row, g.col) = (r, c) then a else g.cell r c) = g.cell r c := by
    rw [if_neg]
    intro heq
    rw [Prod.mk.injEq] at heq
    omega
  split
  · exact ⟨hcell, by dsimp only; omega⟩
  · refine ⟨?_, hdown _⟩
    rw [Grid.down_cell]
    exact hcell

lemma Grid.foldl_addch_before (text : List UInt8) (g : Grid lines cols) {r c : ℕ}
    (h : r < g.row ∨ r = g.row ∧ c < g.col) : (text.foldl Grid.addch g).cell r c = g.cell r c := by
  induction text generalizing g with
  | nil => rfl
  | cons a text ih =>
      obtain ⟨hcell, hbefore⟩ := g.addch_before a h
      rw [List.foldl_cons, ih _ hbefore, hcell]

lemma Grid.mvaddstr_off (g : Grid lines cols) {y x : ℤ} (text : List UInt8)
    (h : ¬ (0 ≤ y ∧ y < lines ∧ 0 ≤ x ∧ x < cols)) : g.mvaddstr y x text = g := by
  rw [Grid.mvaddstr, if_neg h]

lemma Grid.mvaddstr_before (g : Grid lines cols) (text : List UInt8) {r₀ c₀ r c : ℕ}
    (hr₀ : r₀ < lines) (hc₀ : c₀ < cols) (h : r < r₀ ∨ r = r₀ ∧ c < c₀) :
    (g.mvaddstr r₀ c₀ text).cell r c = g.cell r c := by
  have hin : 0 ≤ (r₀ : ℤ) ∧ (r₀ : ℤ) < lines ∧ 0 ≤ (c₀ : ℤ) ∧ (c₀ : ℤ) < cols := by omega
  rw [Grid.mvaddstr, if_pos hin, Grid.move_eq g hr₀ hc₀, Grid.foldl_addch_before text _ h]

/-- The blank screen. -/
def editGrid (hlines : 0 < lines) (hcols : 0 < cols) : Editable lines cols where
  toTerminal := grid hlines hcols
  move := Grid.move
  insch := Grid.insch
  delch := Grid.delch
  insertln := Grid.insertln
  deleteln := Grid.deleteln
  clrtoeol := Grid.clrtoeol
  mvaddstr := Grid.mvaddstr
  mvinch_move g y x r c := congrFun (congrFun (Grid.move_cell g y x) r) c
  cursor_move g r c hr hc := by
    rw [Grid.move_eq g hr hc]
    rfl
  cursor_move_off g y x h := by rw [Grid.move_off g h]
  mvinch_insch g a _ r c _ _ := by
    have ha : UInt8.ofNat (a.toNat : ℤ).toNat = a := by
      rw [Int.toNat_natCast, UInt8.ofNat_toNat]
    simp only [Grid.insch, grid, ha]
    rfl
  mvinch_delch g r c _ _ := rfl
  mvinch_insertln g r c _ _ := rfl
  mvinch_deleteln g r c _ _ := rfl
  mvinch_clrtoeol g r c _ _ := rfl
  mvinch_mvaddstr g r₀ c₀ text r c hr₀ hc₀ _ h := g.mvaddstr_before text hr₀ hc₀ h
  mvinch_mvaddstr_off g y x text r c h :=
    congrFun (congrFun (congrArg Grid.cell (g.mvaddstr_off text h)) r) c
  cursor_mvaddstr_off g y x text h :=
    congrArg (fun u : Grid lines cols => (u.row, u.col)) (g.mvaddstr_off text h)

end Screen
