import EltSummer.Framework.EditScreen
import EltSummer.Framework.Simulation
import EltSummer.TextEditor.Cursor
import EltSummer.TextEditor.RoundTrip

/-!
# The text editor: what is edited

`edit_text` and `input_symb` with what they draw: `insch`, `delch`, `insertln` and `deleteln` at
the cursor, and the word in the bottom row that says that characters are taken as text.  `main`
loads the file before and writes the screen back behind, unless the editor is left with `q`.
Together with the cursor (`Cursor.press`) this is the whole program.

What it is for is said by `Draft`: a list of lines without a border, in which the same keys insert
and erase.  As long as the lines stay above the bottom row and left of the border, the program
shows the lines of the draft and saves them (`editor_refines`).

The screen has to have 20 columns at least.  On a narrower one the word is not written, `move` to
its place fails, and behind it `clrtoeol` clears the row of the cursor (`narrow_screen_erases`).
-/

namespace EltSummer
namespace TextEditor

open Screen Wrapping Interleaving

variable {lines cols : ℕ}

/-- `LINES` and `COLS` of a screen. -/
def sizeOf (T : Editable lines cols) : Size where
  lines := lines
  cols := cols
  lines_pos := by
    have hrow := (T.cursor_lt T.initscr).1
    omega
  cols_pos := by
    have hcol := (T.cursor_lt T.initscr).2
    omega

/-! ## The program -/

/-- The word in the bottom row. -/
def statusText : List UInt8 := "Режим ввода".toUTF8.toList

/-- What a key draws, up to the `move (row, col)` behind it. -/
def draw (T : Editable lines cols) (s : Cursor) (w : T.Window) (c : ℤ) : T.Window :=
  match s.mode with
  | .command =>
      if c = keyIc ∨ c = key 'i' then T.mvaddstr w (lines - 1) (cols - 20) statusText
      else if c = keyDc ∨ c = key 'x' then T.delch w
      else if c = keyIl ∨ c = key 'o' then
        T.mvaddstr (T.insertln (T.move w (s.row + 1) 0)) (lines - 1) (cols - 20) statusText
      else if c = keyDl ∨ c = key 'd' then T.deleteln w
      else w
  | .input =>
      if c = ctrl 'D' ∨ c = keyEic then
        T.move (T.clrtoeol (T.move w (lines - 1) (cols - 20))) s.row s.col
      else T.insch w c
  | .left => w

/-- The editor at work on a file. -/
structure Session (T : Editable lines cols) where
  cursor : Cursor
  window : T.Window
  file : List UInt8

/-- Up to the first `getch`. -/
def Session.start (T : Editable lines cols) (file : List UInt8) : Session T where
  cursor := TextEditor.start
  window := T.move (T.move (load T.toTerminal file) 0 0) 0 0
  file := file

/-- A key is pressed.  Behind `s` the file is written, behind `q` it is not. -/
def Session.press {T : Editable lines cols} (s : Session T) (c : ℤ) : Session T :=
  let cursor := s.cursor.press (sizeOf T) c
  let window := draw T s.cursor s.window c
  if cursor.mode = .left then
    { cursor := cursor
      window := window
      file := if s.cursor.mode = .command ∧ c = key 's' then save T.toTerminal window else s.file }
  else { s with cursor := cursor, window := T.move window cursor.row cursor.col }

/-- The program with these keys. -/
def textEd (T : Editable lines cols) (file : List UInt8) (keys : List ℤ) : Session T :=
  keys.foldl Session.press (.start T file)

/-! ## What it is for -/

/-- Lines that are edited, and what has been saved of them. -/
structure Draft where
  cursor : Cursor
  lines : List (List UInt8)
  saved : Option (List (List UInt8))

/-- What a key does to the lines. -/
def revise (s : Cursor) (ls : List (List UInt8)) (c : ℤ) : List (List UInt8) :=
  match s.mode with
  | .command =>
      if c = keyDc ∨ c = key 'x' then deleteChar s.row.toNat s.col.toNat ls
      else if c = keyIl ∨ c = key 'o' then insertLine (s.row.toNat + 1) ls
      else if c = keyDl ∨ c = key 'd' then deleteLine s.row.toNat ls
      else ls
  | .input =>
      if c = ctrl 'D' ∨ c = keyEic then ls
      else insertChar s.row.toNat s.col.toNat (UInt8.ofNat c.toNat) ls
  | .left => ls

def Draft.start (file : List UInt8) : Draft := ⟨TextEditor.start, file.splitOn newline, none⟩

def Draft.press (size : Size) (d : Draft) (c : ℤ) : Draft where
  cursor := d.cursor.press size c
  lines := revise d.cursor d.lines c
  saved := if d.cursor.mode = .command ∧ c = key 's' then some d.lines else d.saved

def Draft.step (size : Size) (d : Draft) (c : ℤ) : Option Draft := some (d.press size c)

/-- Nothing but blanks stands in the bottom row, or out of sight. -/
def Within (lines cols : ℕ) (ls : List (List UInt8)) : Prop :=
  ∀ r c, cellOf ls r c ≠ blank → r + 1 < lines ∧ c < cols

/-- A key that the screen has room for: the cursor stays on it, a character that is typed is
printable and not typed in the bottom row, and nothing is pushed over the border. -/
structure Draft.Room (T : Editable lines cols) (d : Draft) (c : ℤ) : Prop where
  fits : KeyFits (sizeOf T) d.cursor c
  typed : d.cursor.mode = .input → ¬ (c = ctrl 'D' ∨ c = keyEic) →
    d.cursor.row < lines - 1 ∧ ∃ a : UInt8, isPrint a = true ∧ c = a.toNat
  within : Within lines cols (revise d.cursor d.lines c)

/-! ## Keys -/

lemma command_opens {c : ℤ} (size : Size) (s : Cursor)
    (hc : (c = keyIc ∨ c = key 'i') ∨ (c = keyIl ∨ c = key 'o')) :
    (s.command size c).mode = .input := by
  rcases hc with (rfl | rfl) | (rfl | rfl)
  all_goals rfl

lemma command_saves (size : Size) (s : Cursor) : (s.command size (key 's')).mode = .left := rfl

lemma revise_save {s : Cursor} (hs : s.mode = .command) (ls : List (List UInt8)) :
    revise s ls (key 's') = ls := by
  simp only [revise, hs]
  rfl

lemma not_deletes_of_inserts {c : ℤ} (hc : c = keyIc ∨ c = key 'i') :
    ¬ (c = keyDc ∨ c = key 'x') ∧ ¬ (c = keyIl ∨ c = key 'o') ∧ ¬ (c = keyDl ∨ c = key 'd') := by
  rcases hc with rfl | rfl
  all_goals decide

/-! ## The screen shows the lines -/

/-- What is on the screen.  While characters are typed, the word stands at the end of the bottom
row. -/
def Shown (T : Editable lines cols) (mode : Mode) (w : T.Window) (ls : List (List UInt8)) : Prop :=
  ∀ r c, r < lines → c < cols → (mode = .input → r + 1 < lines ∨ c + 20 < cols) →
    T.mvinch w r c = cellOf ls r c

variable {T : Editable lines cols} {w : T.Window} {s : Cursor} {ls : List (List UInt8)} {c : ℤ}

lemma Within.blank (h : Within lines cols ls) {r c : ℕ} (hout : ¬ (r + 1 < lines ∧ c < cols)) :
    cellOf ls r c = Screen.blank := by
  by_contra hne
  exact hout (h r c hne)

/-- The word is written behind the cells that are looked at. -/
lemma mvinch_status (hcols : 20 ≤ cols) (w : T.Window) {r c : ℕ} (hr : r < lines) (hc : c < cols)
    (hsight : r + 1 < lines ∨ c + 20 < cols) :
    T.mvinch (T.mvaddstr w (lines - 1) (cols - 20) statusText) r c = T.mvinch w r c := by
  have hrow : (lines : ℤ) - 1 = ((lines - 1 : ℕ) : ℤ) := by omega
  have hcol : (cols : ℤ) - 20 = ((cols - 20 : ℕ) : ℤ) := by omega
  rw [hrow, hcol]
  apply T.mvinch_mvaddstr
  all_goals omega

/-- The command `i`, and those that draw nothing. -/
lemma shown_status (hcols : 20 ≤ cols) (h : Shown T .command w ls) :
    Shown T .input (T.mvaddstr w (lines - 1) (cols - 20) statusText) ls := by
  intro r c hr hc hsight
  rw [mvinch_status hcols w hr hc (hsight rfl)]
  exact h r c hr hc (by simp)

lemma shown_delch (h : Shown T .command w ls) (hwithin : Within lines cols ls) (mode : Mode) :
    Shown T mode (T.delch w) (deleteChar (T.cursor w).1 (T.cursor w).2 ls) := by
  intro r c hr hc _
  rw [T.mvinch_delch w r c hr hc, cellOf_deleteChar]
  split
  · rename_i hrest
    obtain ⟨rfl, -⟩ := hrest
    split
    · rename_i hnext
      exact h _ _ hr hnext nofun
    · rename_i hlast
      exact (hwithin.blank (fun hin => hlast hin.2)).symm
  · exact h r c hr hc (by simp)

lemma shown_insertln (h : Shown T .command w ls) (mode : Mode) :
    Shown T mode (T.insertln w) (insertLine (T.cursor w).1 ls) := by
  intro r c hr hc _
  rw [T.mvinch_insertln w r c hr hc, cellOf_insertLine]
  split
  · exact h r c hr hc (by simp)
  split
  · rfl
  · exact h (r - 1) c (by omega) hc nofun

lemma shown_deleteln (h : Shown T .command w ls) (hwithin : Within lines cols ls) (mode : Mode) :
    Shown T mode (T.deleteln w) (deleteLine (T.cursor w).1 ls) := by
  intro r c hr hc _
  rw [T.mvinch_deleteln w r c hr hc, cellOf_deleteLine]
  split
  · exact h r c hr hc (by simp)
  split
  · rename_i hnext
    exact h (r + 1) c hnext hc nofun
  · exact (hwithin.blank (by omega)).symm

lemma shown_insch (h : Shown T .input w ls) {a : UInt8} (ha : isPrint a = true)
    (hrow : (T.cursor w).1 + 1 < lines) :
    Shown T .input (T.insch w a.toNat) (insertChar (T.cursor w).1 (T.cursor w).2 a ls) := by
  intro r c hr hc hsight
  rw [T.mvinch_insch w a ha r c hr hc, cellOf_insertChar]
  split
  · rename_i heq
    subst heq
    have hcell : ∀ c' < cols, T.mvinch w (T.cursor w).1 c' = cellOf ls (T.cursor w).1 c' :=
      fun c' hc' => h _ c' hr hc' fun _ => Or.inl hrow
    split
    · exact hcell c hc
    split
    · rfl
    · exact hcell (c - 1) (by omega)
  · exact h r c hr hc hsight

/-- The word is erased, and the bottom row is blank. -/
lemma shown_clrtoeol (hcols : 20 ≤ cols) (h : Shown T .input w ls) (hwithin : Within lines cols ls)
    (mode : Mode) :
    Shown T mode (T.clrtoeol (T.move w (lines - 1) (cols - 20))) ls := by
  intro r c hr hc _
  have hrow : (lines : ℤ) - 1 = ((lines - 1 : ℕ) : ℤ) := by omega
  have hcol : (cols : ℤ) - 20 = ((cols - 20 : ℕ) : ℤ) := by omega
  rw [T.mvinch_clrtoeol _ r c hr hc, hrow, hcol, T.cursor_move w _ _ (by omega) (by omega),
    T.mvinch_move]
  split
  · rename_i hword
    exact (hwithin.blank (by omega)).symm
  · rename_i hword
    exact h r c hr hc fun _ => by omega

lemma Shown.move (h : Shown T s.mode w ls) (y x : ℤ) : Shown T s.mode (T.move w y x) ls :=
  fun r c hr hc hsight => by rw [T.mvinch_move, h r c hr hc hsight]

/-- The cursor of the window stands where `row` and `col` say. -/
def InPlace (T : Editable lines cols) (s : Cursor) (w : T.Window) : Prop :=
  T.cursor w = (s.row.toNat, s.col.toNat)

lemma inPlace_move (hs : Inv (sizeOf T) s) (w : T.Window) : InPlace T s (T.move w s.row s.col) := by
  obtain ⟨hrow, hlines, hcol, hcols⟩ := hs.here
  dsimp only [sizeOf] at hrow hlines hcol hcols
  have hcursor := T.cursor_move w s.row.toNat s.col.toNat (by omega) (by omega)
  rwa [Int.toNat_of_nonneg hrow, Int.toNat_of_nonneg hcol] at hcursor

/-- What a command draws is what it does to the lines. -/
lemma shown_command (hcols : 20 ≤ cols) (hmode : s.mode = .command) (h : Shown T .command w ls)
    (hwithin : Within lines cols ls) (hs : Inv (sizeOf T) s) (hplace : InPlace T s w)
    (hfits : KeyFits (sizeOf T) s c) :
    Shown T (s.command (sizeOf T) c).mode (draw T s w c) (revise s ls c) := by
  simp only [draw, revise, hmode]
  by_cases hi : c = keyIc ∨ c = key 'i'
  · obtain ⟨hx, ho, hd⟩ := not_deletes_of_inserts hi
    rw [if_pos hi, if_neg hx, if_neg ho, if_neg hd, command_opens _ s (Or.inl hi)]
    exact shown_status hcols h
  rw [if_neg hi]
  by_cases hx : c = keyDc ∨ c = key 'x'
  · rw [if_pos hx, if_pos hx]
    have hdelch := shown_delch h hwithin (s.command (sizeOf T) c).mode
    rwa [hplace] at hdelch
  rw [if_neg hx, if_neg hx]
  by_cases ho : c = keyIl ∨ c = key 'o'
  · rw [if_pos ho, if_pos ho, command_opens _ s (Or.inr ho)]
    have hrow := hs.here.1
    have hbelow : s.row < (lines : ℤ) - 1 := by
      simp only [KeyFits, hmode, sizeOf] at hfits
      exact hfits ho
    have hat : T.cursor (T.move w (s.row + 1) 0) = (s.row.toNat + 1, 0) := by
      dsimp only at hrow
      have hcast : ((s.row.toNat + 1 : ℕ) : ℤ) = s.row + 1 := by omega
      have hcursor := T.cursor_move w (s.row.toNat + 1) 0 (by omega) (by omega)
      rwa [hcast] at hcursor
    have hmoved : Shown T .command (T.move w (s.row + 1) 0) ls := fun r c hr hc hsight => by
      rw [T.mvinch_move, h r c hr hc hsight]
    have hinsert := shown_insertln hmoved .command
    rw [hat] at hinsert
    exact shown_status hcols hinsert
  rw [if_neg ho, if_neg ho]
  by_cases hd : c = keyDl ∨ c = key 'd'
  · rw [if_pos hd, if_pos hd]
    have hdeleteln := shown_deleteln h hwithin (s.command (sizeOf T) c).mode
    rwa [hplace] at hdeleteln
  · rw [if_neg hd, if_neg hd]
    exact fun r c hr hc _ => h r c hr hc (by simp)

/-- What is typed is inserted in the lines. -/
lemma shown_input (hcols : 20 ≤ cols) (hmode : s.mode = .input) (h : Shown T .input w ls)
    (hwithin : Within lines cols ls) (hs : Inv (sizeOf T) s) (hplace : InPlace T s w)
    (htyped : ¬ (c = ctrl 'D' ∨ c = keyEic) →
      s.row < lines - 1 ∧ ∃ a : UInt8, isPrint a = true ∧ c = a.toNat) :
    Shown T (s.input c).mode (draw T s w c) (revise s ls c) := by
  simp only [draw, revise, hmode, Cursor.input]
  by_cases hend : c = ctrl 'D' ∨ c = keyEic
  · rw [if_pos hend, if_pos hend, if_pos hend]
    have hclear := shown_clrtoeol hcols h hwithin .command
    exact fun r c hr hc hsight => by rw [T.mvinch_move, hclear r c hr hc hsight]
  · rw [if_neg hend, if_neg hend, if_neg hend]
    obtain ⟨hrow, a, ha, rfl⟩ := htyped hend
    have hpos := hs.here.1
    dsimp only at hpos
    have hinsch := shown_insch h ha (by rw [hplace]; dsimp only; omega)
    rw [hplace] at hinsch
    rw [Int.toNat_natCast, UInt8.ofNat_toNat]
    exact hinsch

/-! ## A key -/

/-- The characters of the lines can be printed. -/
def Legible (ls : List (List UInt8)) : Prop := ∀ r c, isPrint (cellOf ls r c) = true

/-- No key brings in a character that cannot be printed. -/
lemma Legible.revise (h : Legible ls) (s : Cursor)
    (htyped : s.mode = .input → ¬ (c = ctrl 'D' ∨ c = keyEic) →
      ∃ a : UInt8, isPrint a = true ∧ c = a.toNat) : Legible (revise s ls c) := by
  have hblank : isPrint Screen.blank = true := rfl
  intro r' c'
  unfold TextEditor.revise
  split
  · split
    · rw [cellOf_deleteChar]
      split
      · exact h _ _
      · exact h _ _
    split
    · rw [cellOf_insertLine]
      split
      · exact h _ _
      split
      · exact hblank
      · exact h _ _
    split
    · rw [cellOf_deleteLine]
      split
      · exact h _ _
      · exact h _ _
    · exact h _ _
  · rename_i hmode
    split
    · exact h _ _
    · rename_i hend
      obtain ⟨a, ha, rfl⟩ := htyped hmode hend
      rw [cellOf_insertChar, Int.toNat_natCast, UInt8.ofNat_toNat]
      split
      · split
        · exact h _ _
        split
        · exact ha
        · exact h _ _
      · exact h _ _
  · exact h _ _

/-- What has been saved of a file: the lines, or nothing. -/
def Saved (file : List UInt8) : Option (List (List UInt8)) → List UInt8 → Prop
  | none => fun file' => file' = file
  | some ls => fun file' => tidy Screen.blank (file'.splitOn newline) = tidy Screen.blank ls

/-- The program is where the draft is. -/
structure Sim (T : Editable lines cols) (file : List UInt8) (s : Session T) (d : Draft) :
    Prop where
  cursor : s.cursor = d.cursor
  inv : Inv (sizeOf T) d.cursor
  within : Within lines cols d.lines
  legible : Legible d.lines
  shown : Shown T d.cursor.mode s.window d.lines
  place : d.cursor.mode ≠ .left → InPlace T d.cursor s.window
  saved : Saved file d.saved s.file

/-- Lines within the screen that are shown on it are saved. -/
lemma tidy_save_of_shown (h : Shown T .left w ls) (hwithin : Within lines cols ls)
    (hlegible : Legible ls) :
    tidy Screen.blank ((save T.toTerminal w).splitOn newline) = tidy Screen.blank ls := by
  have hcell : ∀ r c, r < lines → c < cols → T.mvinch w r c = cellOf ls r c :=
    fun r c hr hc => h r c hr hc (by simp)
  have hprint : Printable T.toTerminal w := fun r c hr hc => by
    rw [hcell r c (by omega) hc]
    exact hlegible r c
  rw [tidy_save hprint]
  apply tidy_eq_of_cellOf
  intro r c
  by_cases hrow : r + 1 < lines
  · have hsaved : (savedRows T.toTerminal w)[r]? = some (T.row w r) := by
      rw [savedRows, List.getElem?_map, List.getElem?_range (by omega)]
      rfl
    rw [cellOf, hsaved, Option.getD_some, Terminal.row, List.getElem?_map]
    by_cases hcol : c < cols
    · rw [List.getElem?_range hcol]
      exact hcell r c (by omega) hcol
    · rw [List.getElem?_eq_none (by simpa using hcol)]
      exact (hwithin.blank (fun hin => hcol hin.2)).symm
  · rw [cellOf_of_length_le (by simp [savedRows]; omega)]
    exact (hwithin.blank (fun hin => hrow hin.1)).symm

/-- What a key draws is what it does to the lines. -/
lemma shown_draw (hcols : 20 ≤ cols) {d : Draft} (hs : Inv (sizeOf T) d.cursor)
    (hwithin : Within lines cols d.lines) (h : Shown T d.cursor.mode w d.lines)
    (hplace : d.cursor.mode ≠ .left → InPlace T d.cursor w) (hroom : d.Room T c) :
    Shown T (d.cursor.press (sizeOf T) c).mode (draw T d.cursor w c)
      (revise d.cursor d.lines c) := by
  unfold Cursor.press
  split
  · rename_i hmode
    rw [hmode] at h hplace
    exact shown_command hcols hmode h hwithin hs (hplace nofun) hroom.fits
  · rename_i hmode
    rw [hmode] at h hplace
    exact shown_input hcols hmode h hwithin hs (hplace nofun) (hroom.typed hmode)
  · rename_i hmode
    simp only [draw, revise, hmode]
    rwa [hmode] at h

/-- **A key.** -/
lemma Sim.press (hcols : 20 ≤ cols) {file : List UInt8} {d : Draft} {s : Session T}
    (h : Sim T file s d) (hroom : d.Room T c) :
    Sim T file (s.press c) (d.press (sizeOf T) c) := by
  have hinv := h.inv.press hroom.fits
  have hlegible := h.legible.revise d.cursor fun hmode hend => (hroom.typed hmode hend).2
  have hshown := shown_draw hcols h.inv h.within h.shown h.place hroom
  unfold Session.press
  dsimp only
  rw [h.cursor]
  split
  · rename_i hleft
    rw [hleft] at hshown
    refine ⟨rfl, hinv, hroom.within, hlegible, ?_, fun hno => absurd hleft hno, ?_⟩
    · rw [Draft.press, hleft]
      exact hshown
    · unfold Draft.press
      dsimp only
      split
      · rename_i hsave
        rw [hsave.2, revise_save hsave.1] at hshown
        rw [hsave.2]
        exact tidy_save_of_shown hshown h.within h.legible
      · exact h.saved
  · rename_i hstays
    refine ⟨rfl, hinv, hroom.within, hlegible, hshown.move _ _, fun _ => inPlace_move hinv _, ?_⟩
    have hno : ¬ (d.cursor.mode = .command ∧ c = key 's') := by
      rintro ⟨hmode, rfl⟩
      apply hstays
      rw [Cursor.press, hmode]
      exact command_saves (sizeOf T) d.cursor
    rw [Draft.press, if_neg hno]
    exact h.saved

/-! ## The file that is opened -/

lemma within_of_le (hlines : ls.length ≤ lines - 1) (hcols : ∀ l ∈ ls, l.length ≤ cols) :
    Within lines cols ls := by
  intro r c hcell
  by_cases hrow : r < ls.length
  · refine ⟨by omega, ?_⟩
    by_contra hcol
    apply hcell
    have hlen := hcols ls[r] (List.getElem_mem hrow)
    rw [cellOf, List.getElem?_eq_getElem hrow, Option.getD_some,
      List.getElem?_eq_none (by omega)]
    rfl
  · exact absurd (cellOf_of_length_le (not_lt.mp hrow)) hcell

/-- Blanks at the ends do not count. -/
lemma within_of_tidy (hlines : (tidy Screen.blank ls).length ≤ lines - 1)
    (hcols : ∀ l ∈ tidy Screen.blank ls, l.length ≤ cols) : Within lines cols ls := by
  intro r c hcell
  rw [← cellOf_tidy] at hcell
  exact within_of_le hlines hcols r c hcell

lemma within_of_fits (h : Fits Screen.blank cols (lines - 1) ls) : Within lines cols ls :=
  within_of_tidy h.lines h.narrow

lemma isPrint_of_mem_splitOn {text : List UInt8} (htext : Plain text) :
    ∀ l ∈ text.splitOn newline, ∀ a ∈ l, isPrint a = true := by
  induction text with
  | nil =>
      intro l hl a ha
      rw [List.splitOn_nil, List.mem_singleton] at hl
      rw [hl] at ha
      exact absurd ha List.not_mem_nil
  | cons b text ih =>
      obtain ⟨hb, hrest⟩ := List.forall_mem_cons.mp htext
      specialize ih hrest
      rw [List.splitOn_cons_eq_if_modifyHead]
      by_cases hnewline : b = newline
      · rw [if_pos (by simpa using hnewline)]
        exact List.forall_mem_cons.mpr ⟨fun a ha => absurd ha List.not_mem_nil, ih⟩
      · rw [if_neg (by simpa using hnewline)]
        obtain ⟨l, ls, hsplit⟩ := List.exists_cons_of_ne_nil (List.splitOn_ne_nil newline text)
        rw [hsplit] at ih ⊢
        obtain ⟨hl, hls⟩ := List.forall_mem_cons.mp ih
        exact List.forall_mem_cons.mpr
          ⟨List.forall_mem_cons.mpr ⟨hb.resolve_right hnewline, hl⟩, hls⟩

lemma legible_splitOn {file : List UInt8} (hfile : Plain file) :
    Legible (file.splitOn newline) := by
  intro r c
  unfold cellOf
  cases hline : (file.splitOn newline)[r]? with
  | none => rfl
  | some l =>
      rw [Option.getD_some]
      cases hcell : l[c]? with
      | none => rfl
      | some a =>
          apply isPrint_of_mem_splitOn hfile l (List.mem_of_getElem? hline)
          exact List.mem_of_getElem? hcell

/-- The rows out of sight are blank. -/
lemma drop_rows_blank {file : List UInt8} (T : Editable lines cols)
    (hfits : Fits Screen.blank cols (lines - 1) (file.splitOn newline)) :
    ∀ l ∈ (rowsOf cols file).drop (lines - 1), ∀ b ∈ l, b = Screen.blank := by
  have htake := (tidy_take_wrap_iff (cols_pos T.toTerminal) _ _).mpr hfits
  have hink := congrArg (ink Screen.blank) htake
  rw [ink_tidy, ink_tidy] at hink
  have hrows := ink_flatMap_wrap Screen.blank cols (file.splitOn newline)
  have hsplit : ink Screen.blank ((rowsOf cols file).take (lines - 1)) +
      ink Screen.blank ((rowsOf cols file).drop (lines - 1)) =
        ink Screen.blank (rowsOf cols file) := by
    rw [← ink_append, List.take_append_drop]
  unfold rowsOf at hsplit ⊢
  exact ink_eq_zero_iff.mp (by omega)

/-- A file that fits the screen is shown. -/
lemma shown_load {file : List UInt8} (hfile : Plain file)
    (hfits : Fits Screen.blank cols (lines - 1) (file.splitOn newline)) (mode : Mode) :
    Shown T mode (load T.toTerminal file) (file.splitOn newline) := by
  have hrows : typeset cols [] file = rowsOf cols file := by
    obtain ⟨l, ls, hsplit, hrows⟩ := typeset_eq cols [] file
    rw [hrows, rowsOf, hsplit]
    rfl
  intro r c hr hc _
  by_cases hsight : r + 1 < lines
  · have htake := (tidy_take_wrap_iff (cols_pos T.toTerminal) _ _).mpr hfits
    rw [← cellOf_tidy, ← htake, cellOf_tidy]
    have hprint := mvinch_print T.toTerminal hfile hsight hc
    rw [load, ← Terminal.print, hprint, cellOf, cellOf, List.getElem?_take_of_lt (by omega)]
    rfl
  · have hbottom := (shows_initscr T.toTerminal).bottom_blank hfile
      (fun c hc => T.mvinch_initscr _ c (by omega) hc)
      (by rw [List.nil_append, hrows]; exact drop_rows_blank T hfits) c hc
    have hlast : r = lines - 1 := by omega
    rw [load, ← Terminal.print, hlast, hbottom]
    exact ((within_of_fits hfits).blank (by omega)).symm

lemma sim_start {file : List UInt8} (hfile : Plain file)
    (hfits : Fits Screen.blank cols (lines - 1) (file.splitOn newline)) :
    Sim T file (Session.start T file) (Draft.start file) where
  cursor := rfl
  inv := inv_start _
  within := within_of_fits hfits
  legible := legible_splitOn hfile
  shown := fun r c hr hc hsight => by
    rw [Session.start, T.mvinch_move, T.mvinch_move]
    exact shown_load hfile hfits .command r c hr hc hsight
  place := fun _ => inPlace_move (s := TextEditor.start) (inv_start _) _
  saved := rfl

/-! ## Many keys -/

lemma takes_draft {size : Size} {d d' : Draft} {c c' : ℤ} {keys : List ℤ} :
    Takes (Draft.step size) d (c :: keys) d' c' ↔
      d' = d ∧ c' = c ∨ Takes (Draft.step size) (d.press size c) keys d' c' :=
  takes_cons rfl

lemma Sim.run (hcols : 20 ≤ cols) {file : List UInt8} {keys : List ℤ} {d : Draft} {s : Session T}
    (h : Sim T file s d)
    (hroom : ∀ d' c, Takes (Draft.step (sizeOf T)) d keys d' c → d'.Room T c) :
    Sim T file (keys.foldl Session.press s) (keys.foldl (Draft.press (sizeOf T)) d) := by
  have hstep : InStep (fun (s : Session T) c => some (s.press c)) (Draft.step (sizeOf T))
      (Draft.Room T) (Sim T file) :=
    fun s d c hsim hok => .some (hsim.press hcols hok)
  obtain ⟨d', hd', hsim⟩ := hstep.exists_of_exec h hroom (exec_some _ s keys)
  obtain rfl := Option.some.inj ((exec_some (Draft.press (sizeOf T)) d keys).symm.trans hd')
  exact hsim

/-- **The editor edits lines.**  If the file fits the screen and the screen has room for every
key, the screen shows the lines of the draft above the bottom row, and the file keeps them when
they are saved. -/
theorem editor_refines (T : Editable lines cols) (hcols : 20 ≤ cols) {file : List UInt8}
    (hfile : Plain file) (hfits : Fits Screen.blank cols (lines - 1) (file.splitOn newline))
    {keys : List ℤ}
    (hroom : ∀ d c, Takes (Draft.step (sizeOf T)) (.start file) keys d c → d.Room T c) :
    let s := textEd T file keys
    let d := keys.foldl (Draft.press (sizeOf T)) (.start file)
    s.cursor = d.cursor ∧
      (∀ r c, r + 1 < lines → c < cols → T.mvinch s.window r c = cellOf d.lines r c) ∧
      Saved file d.saved s.file := by
  have hsim := (sim_start (T := T) hfile hfits).run hcols hroom
  refine ⟨hsim.cursor, fun r c hr hc => ?_, hsim.saved⟩
  exact hsim.shown r c (by omega) hc fun _ => Or.inl hr

/-- A character is put before the only line, and the lines are saved. -/
theorem editor_refines_one_line :
    let T : Editable 2 20 := editGrid (by decide) (by decide)
    Saved [97, 10] (some [[65, 97], []])
      (textEd T [97, 10] [key 'i', 65, ctrl 'D', key 's']).file := by
  intro T
  suffices hroom : ∀ d c, Takes (Draft.step (sizeOf T)) (.start [97, 10])
      [key 'i', 65, ctrl 'D', key 's'] d c → d.Room T c from
    (editor_refines T le_rfl (by simp [Plain, isPrint, newline])
      ⟨by decide, by decide, by decide⟩ hroom).2.2
  intro d c htakes
  simp only [takes_draft] at htakes
  rcases htakes with ⟨rfl, rfl⟩ | ⟨rfl, rfl⟩ | ⟨rfl, rfl⟩ | ⟨rfl, rfl⟩ | ⟨bs, hpre, -⟩
  · exact ⟨fun h => by revert h; decide, fun h => absurd h (by decide),
      within_of_tidy (by decide) (by decide)⟩
  · exact ⟨fun _ => by decide, fun _ _ => ⟨by decide, 65, rfl, rfl⟩,
      within_of_tidy (by decide) (by decide)⟩
  · exact ⟨fun h => by revert h; decide, fun _ h => absurd (Or.inl rfl) h,
      within_of_tidy (by decide) (by decide)⟩
  · exact ⟨fun h => by revert h; decide, fun h => absurd h (by decide),
      within_of_tidy (by decide) (by decide)⟩
  · exact absurd (List.prefix_nil.mp hpre) (by simp)

/-! ## A narrow screen -/

/-- Until the editor is left, the last thing done is a `move` to `row` and `col`. -/
def Moved (s : Session T) : Prop :=
  s.cursor.mode ≠ .left → ∃ w, s.window = T.move w s.cursor.row s.cursor.col

lemma moved_press (s : Session T) (c : ℤ) : Moved (s.press c) := by
  unfold Session.press
  dsimp only
  split
  · rename_i hleft
    exact fun hno => absurd hleft hno
  · exact fun _ => ⟨_, rfl⟩

lemma moved_textEd (T : Editable lines cols) (file : List UInt8) (keys : List ℤ) :
    Moved (textEd T file keys) :=
  List.foldlRecOn keys Session.press (fun _ => ⟨_, rfl⟩) fun s _ c _ => moved_press s c

lemma press_input {s : Session T} (hs : s.cursor.mode = .command) : s.press (key 'i') =
    { s with
      cursor := s.cursor.inputSymb
      window := T.move (T.mvaddstr s.window (lines - 1) (cols - 20) statusText)
        s.cursor.row s.cursor.col } := by
  have hcursor : s.cursor.press (sizeOf T) (key 'i') = s.cursor.inputSymb := by
    simp only [Cursor.press, hs]
    rfl
  have hdraw : draw T s.cursor s.window (key 'i') =
      T.mvaddstr s.window (lines - 1) (cols - 20) statusText := by
    simp only [draw, hs]
    rfl
  rw [Session.press, hcursor, hdraw]
  rfl

lemma press_ctrl_d {s : Session T} (hs : s.cursor.mode = .input) : s.press (ctrl 'D') =
    { s with
      cursor := { s.cursor.move.move with mode := .command }
      window := T.move (T.move (T.clrtoeol (T.move s.window (lines - 1) (cols - 20)))
        s.cursor.row s.cursor.col) s.cursor.row s.cursor.col } := by
  have hcursor : s.cursor.press (sizeOf T) (ctrl 'D') =
      { s.cursor.move.move with mode := .command } := by
    simp only [Cursor.press, hs]
    rfl
  have hdraw : draw T s.cursor s.window (ctrl 'D') =
      T.move (T.clrtoeol (T.move s.window (lines - 1) (cols - 20))) s.cursor.row s.cursor.col := by
    simp only [draw, hs]
    rfl
  rw [Session.press, hcursor, hdraw]
  rfl

/-- **Input mode on a narrow screen.**  On less than 20 columns there is no way to the word's
place: it is not written, and what is cleared behind it is the rest of the cursor's row, wherever
the keys have left the cursor. -/
theorem narrow_screen_erases (T : Editable lines cols) (hcols : cols < 20) (file : List UInt8)
    {keys : List ℤ} (hmode : (textEd T file keys).cursor.mode = .command) {r c : ℕ}
    (hr : r < lines) (hc : c < cols) :
    T.mvinch (textEd T file (keys ++ [key 'i', ctrl 'D'])).window r c =
      if r = (T.cursor (textEd T file keys).window).1 ∧
          (T.cursor (textEd T file keys).window).2 ≤ c
      then Screen.blank else T.mvinch (textEd T file keys).window r c := by
  have hmore : textEd T file (keys ++ [key 'i', ctrl 'D']) =
      ((textEd T file keys).press (key 'i')).press (ctrl 'D') := by
    rw [textEd, List.foldl_append]
    rfl
  have hoff : ¬ (0 ≤ (lines : ℤ) - 1 ∧ (lines : ℤ) - 1 < lines ∧ 0 ≤ (cols : ℤ) - 20 ∧
      (cols : ℤ) - 20 < cols) := by omega
  obtain ⟨w, hw⟩ := moved_textEd T file keys (by simp [hmode])
  -- the word moves nothing, so the `move` behind it leads where the cursor is
  have hcursor := T.cursor_move_again (w := w)
    ((T.cursor_mvaddstr_off _ _ _ statusText hoff).trans (congrArg T.cursor hw))
  rw [← hw] at hcursor
  rw [hmore, press_input hmode, press_ctrl_d rfl]
  dsimp only [Cursor.inputSymb, Cursor.move]
  rw [T.mvinch_move, T.mvinch_move, T.mvinch_clrtoeol _ r c hr hc, T.cursor_move_off _ _ _ hoff,
    hcursor, T.mvinch_move, T.mvinch_move, T.mvinch_mvaddstr_off _ _ _ _ _ _ hoff]

/-- The word `ab` on a screen of 10 columns, with the cursor on its second letter. -/
theorem narrow_screen_erases_letter :
    let T : Editable 2 10 := editGrid (by decide) (by decide)
    let s := textEd T [97, 98] ([keyRight] ++ [key 'i', ctrl 'D'])
    T.mvinch s.window 0 0 = 97 ∧ T.mvinch s.window 0 1 = Screen.blank := by
  intro T s
  have hcell : ∀ c < 10, T.mvinch s.window 0 c = _ := fun c hc =>
    narrow_screen_erases T (by decide) [97, 98] rfl (by decide) hc
  rw [hcell 0 (by decide), hcell 1 (by decide)]
  exact ⟨rfl, rfl⟩

end TextEditor
end EltSummer
