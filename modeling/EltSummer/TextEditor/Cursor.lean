import EltSummer.Framework.Interleaving
import Mathlib.Data.Int.Basic

/-!
# The text editor: the cursor

`plugin_calc_and_simple_text_editor_5July/text_editor/text_edit_func.c`: `edit_text` moves the
cursor to `(row, col)`, waits for a key and obeys it; `input_symb` inserts what is typed until
CTRL-D ends it.  The arrows stop at the border of the screen.  Opening a line and inserting a
character move the cursor on without asking for the border (`cursor_stays_iff`).

The keys are the codes that `getch` returns.  What is drawn is left out, and so are the calls of
`move` that do not go to `(row, col)` but to the status line.
-/

namespace EltSummer
namespace TextEditor

open Interleaving

/-- `LINES` and `COLS`. -/
structure Size where
  lines : ℤ
  cols : ℤ
  lines_pos : 1 ≤ lines
  cols_pos : 1 ≤ cols

/-- Where a key is waited for: in `edit_text`, in `input_symb`, or nowhere any more. -/
inductive Mode
  | command
  | input
  | left
  deriving DecidableEq, Repr

/-- The cursor, and the positions `move(row, col)` has been called with. -/
structure Cursor where
  row : ℤ
  col : ℤ
  mode : Mode
  moves : List (ℤ × ℤ)
  deriving DecidableEq, Repr

/-! ## Keys -/

/-- The code of a character. -/
def key (c : Char) : ℤ := c.toNat

/-- `CTRL(c)`. -/
def ctrl (c : Char) : ℤ := (c.toNat % 32 : ℕ)

def keyDown : ℤ := 258
def keyUp : ℤ := 259
def keyLeft : ℤ := 260
def keyRight : ℤ := 261
def keyDl : ℤ := 328
def keyIl : ℤ := 329
def keyDc : ℤ := 330
def keyIc : ℤ := 331
def keyEic : ℤ := 332
def keyClear : ℤ := 333

/-! ## The program -/

/-- `move (row, col)`. -/
def Cursor.move (s : Cursor) : Cursor := { s with moves := s.moves ++ [(s.row, s.col)] }

/-- `input_symb`, up to its first `getch`. -/
def Cursor.inputSymb (s : Cursor) : Cursor := { s.move with mode := .input }

/-- `move (++row, col = 0); insertln ();` -/
def Cursor.openLine (s : Cursor) : Cursor := { s with row := s.row + 1, col := 0 }.move

/-- The `switch` of `edit_text`, and the `move` at the head of the next turn. -/
def Cursor.command (size : Size) (s : Cursor) (c : ℤ) : Cursor :=
  if c = keyLeft then (if s.col > 0 then { s with col := s.col - 1 } else s).move
  else if c = keyDown then
    (if s.row < size.lines - 1 then { s with row := s.row + 1 } else s).move
  else if c = keyUp then (if s.row > 0 then { s with row := s.row - 1 } else s).move
  else if c = keyRight then
    (if s.col < size.cols - 1 then { s with col := s.col + 1 } else s).move
  else if c = keyIc ∨ c = key 'i' then s.inputSymb
  else if c = keyDc ∨ c = key 'x' then s.move
  else if c = keyIl ∨ c = key 'o' then s.openLine.inputSymb
  else if c = keyDl ∨ c = key 'd' then s.move
  else if c = keyClear ∨ c = ctrl 'L' then s.move
  else if c = key 's' ∨ c = key 'q' then { s with mode := .left }
  else s.move

/-- The loop of `input_symb`.  Behind it the cursor is put back, and `edit_text` moves it
again. -/
def Cursor.input (s : Cursor) (c : ℤ) : Cursor :=
  if c = ctrl 'D' ∨ c = keyEic then { s.move.move with mode := .command }
  else { s with col := s.col + 1 }.move

/-- A key is pressed. -/
def Cursor.press (size : Size) (s : Cursor) (c : ℤ) : Cursor :=
  match s.mode with
  | .command => s.command size c
  | .input => s.input c
  | .left => s

/-- `edit_text`, up to its first `getch`. -/
def start : Cursor := { row := 0, col := 0, mode := .command, moves := [(0, 0)] }

/-- One key after the other. -/
def step (size : Size) (s : Cursor) (c : ℤ) : Option Cursor := some (s.press size c)

/-- `edit_text` with these keys. -/
def editText (size : Size) (keys : List ℤ) : Cursor := keys.foldl (Cursor.press size) start

/-- A position on the screen. -/
def OnScreen (size : Size) (p : ℤ × ℤ) : Prop :=
  0 ≤ p.1 ∧ p.1 ≤ size.lines - 1 ∧ 0 ≤ p.2 ∧ p.2 ≤ size.cols - 1

/-- The cursor has been moved on the screen only. -/
def Stays (size : Size) (s : Cursor) : Prop := ∀ p ∈ s.moves, OnScreen size p

/-- No line is opened below the last row, and no character is typed in the last column. -/
def KeyFits (size : Size) (s : Cursor) (c : ℤ) : Prop :=
  match s.mode with
  | .command => c = keyIl ∨ c = key 'o' → s.row < size.lines - 1
  | .input => c ≠ ctrl 'D' ∧ c ≠ keyEic → s.col < size.cols - 1
  | .left => True

/-! ## One key -/

variable {size : Size} {s t : Cursor} {c : ℤ}

/-- What `s` becomes when the cursor goes to `p` and is moved there. -/
def MovesTo (s : Cursor) (p : ℤ × ℤ) (t : Cursor) : Prop :=
  (t.row, t.col) = p ∧ ∃ n, t.moves = s.moves ++ List.replicate (n + 1) p

lemma movesTo_move (s : Cursor) (row col : ℤ) :
    MovesTo s (row, col) { s with row := row, col := col }.move := ⟨rfl, 0, rfl⟩

/-- Where a key takes the cursor. -/
inductive Pressed (size : Size) (s : Cursor) (c : ℤ) (t : Cursor) : Prop
  | leaves (hrow : t.row = s.row) (hcol : t.col = s.col) (hmoves : t.moves = s.moves)
      (hfits : KeyFits size s c)
  | moves (p : ℤ × ℤ) (hmoves : MovesTo s p t) (hfits : KeyFits size s c)
      (hstays : OnScreen size (s.row, s.col) → OnScreen size p)
  | opens (hmoves : MovesTo s (s.row + 1, 0) t) (hfits : KeyFits size s c ↔ s.row < size.lines - 1)
  | inserts (hmoves : MovesTo s (s.row, s.col + 1) t)
      (hfits : KeyFits size s c ↔ s.col < size.cols - 1)

/-- Only a key that opens a line has to fit, in `edit_text`. -/
lemma keyFits_of_ne (hmode : s.mode = .command) (hc : ¬ (c = keyIl ∨ c = key 'o')) :
    KeyFits size s c := by
  simp only [KeyFits, hmode]
  exact fun h => absurd h hc

/-- A key that draws, or does nothing, leaves the cursor where it is. -/
lemma pressed_in_place (hfits : KeyFits size s c) : Pressed size s c s.move :=
  .moves (s.row, s.col) (movesTo_move s s.row s.col) hfits id

/-- An arrow, which asks for the border. -/
lemma pressed_arrow {row col : ℤ} {inside : Prop} [Decidable inside] (hfits : KeyFits size s c)
    (hstays : inside → OnScreen size (s.row, s.col) → OnScreen size (row, col)) :
    Pressed size s c (if inside then { s with row := row, col := col } else s).move := by
  split
  · rename_i hin
    exact .moves (row, col) (movesTo_move s row col) hfits (hstays hin)
  · exact pressed_in_place hfits

lemma pressed_command (hmode : s.mode = .command) : Pressed size s c (s.command size c) := by
  have hother : ∀ c', ¬ (c' = keyIl ∨ c' = key 'o') → c = c' → KeyFits size s c := by
    rintro c' hc' rfl
    exact keyFits_of_ne hmode hc'
  unfold Cursor.command
  by_cases hleft : c = keyLeft
  · rw [if_pos hleft]
    refine pressed_arrow (hother _ (by decide) hleft) ?_
    simp only [OnScreen]
    omega
  rw [if_neg hleft]
  by_cases hdown : c = keyDown
  · rw [if_pos hdown]
    refine pressed_arrow (hother _ (by decide) hdown) ?_
    simp only [OnScreen]
    omega
  rw [if_neg hdown]
  by_cases hup : c = keyUp
  · rw [if_pos hup]
    refine pressed_arrow (hother _ (by decide) hup) ?_
    simp only [OnScreen]
    omega
  rw [if_neg hup]
  by_cases hright : c = keyRight
  · rw [if_pos hright]
    refine pressed_arrow (hother _ (by decide) hright) ?_
    simp only [OnScreen]
    omega
  rw [if_neg hright]
  by_cases hinsert : c = keyIc ∨ c = key 'i'
  · rw [if_pos hinsert]
    have hfits : KeyFits size s c :=
      hinsert.elim (hother _ (by decide)) (hother _ (by decide))
    exact .moves (s.row, s.col) ⟨rfl, 0, rfl⟩ hfits id
  rw [if_neg hinsert]
  by_cases hdelete : c = keyDc ∨ c = key 'x'
  · rw [if_pos hdelete]
    exact pressed_in_place (hdelete.elim (hother _ (by decide)) (hother _ (by decide)))
  rw [if_neg hdelete]
  by_cases hopen : c = keyIl ∨ c = key 'o'
  · rw [if_pos hopen]
    refine .opens ⟨rfl, 1, by simp [Cursor.inputSymb, Cursor.openLine, Cursor.move]⟩ ?_
    simp [KeyFits, hmode, hopen]
  rw [if_neg hopen]
  -- from here on `c` is not a key that opens a line
  have hfits : KeyFits size s c := keyFits_of_ne hmode hopen
  split
  · exact pressed_in_place hfits
  split
  · exact pressed_in_place hfits
  split
  · exact .leaves rfl rfl rfl hfits
  · exact pressed_in_place hfits

lemma pressed_input (hmode : s.mode = .input) : Pressed size s c (s.input c) := by
  unfold Cursor.input
  split
  · rename_i hc
    refine .moves (s.row, s.col) ⟨rfl, 1, by simp [Cursor.move]⟩ ?_ id
    simp only [KeyFits, hmode]
    exact fun hno => absurd hc (not_or.mpr hno)
  · rename_i hc
    refine .inserts (movesTo_move s s.row (s.col + 1)) ?_
    simp only [KeyFits, hmode]
    exact ⟨fun h => h (not_or.mp hc), fun h _ => h⟩

/-- What a key does. -/
lemma pressed (size : Size) (s : Cursor) (c : ℤ) : Pressed size s c (s.press size c) := by
  unfold Cursor.press
  split
  · rename_i hmode
    exact pressed_command hmode
  · rename_i hmode
    exact pressed_input hmode
  · rename_i hmode
    exact .leaves rfl rfl rfl (by simp [KeyFits, hmode])

/-! ## Many keys -/

/-- The cursor is on the screen, and has always been. -/
structure Inv (size : Size) (s : Cursor) : Prop where
  here : OnScreen size (s.row, s.col)
  stays : Stays size s

lemma inv_start (size : Size) : Inv size start := by
  have hrow := size.lines_pos
  have hcol := size.cols_pos
  have hhome : OnScreen size (0, 0) := by
    simp only [OnScreen]
    omega
  exact ⟨hhome, by simpa [Stays, start] using hhome⟩

lemma MovesTo.stays_iff {p : ℤ × ℤ} (h : MovesTo s p t) :
    Stays size t ↔ Stays size s ∧ OnScreen size p := by
  obtain ⟨-, n, hmoves⟩ := h
  simp only [Stays, hmoves, List.mem_append, List.mem_replicate, or_imp, forall_and]
  simp

lemma MovesTo.inv {p : ℤ × ℤ} (h : MovesTo s p t) (hs : Inv size s) (hp : OnScreen size p) :
    Inv size t := ⟨h.1 ▸ hp, h.stays_iff.mpr ⟨hs.stays, hp⟩⟩

/-- A key that fits keeps the cursor on the screen. -/
lemma Inv.press (h : Inv size s) (hfits : KeyFits size s c) : Inv size (s.press size c) := by
  have hhere := h.here
  simp only [OnScreen] at hhere
  cases pressed size s c with
  | leaves hrow hcol hmoves _ =>
      refine ⟨by rw [hrow, hcol]; exact h.here, ?_⟩
      rw [Stays, hmoves]
      exact h.stays
  | moves p hmoves _ hstays => exact hmoves.inv h (hstays h.here)
  | opens hmoves hiff =>
      have hlt := hiff.mp hfits
      exact hmoves.inv h (by simp only [OnScreen]; omega)
  | inserts hmoves hiff =>
      have hlt := hiff.mp hfits
      exact hmoves.inv h (by simp only [OnScreen]; omega)

/-- A key that does not fit moves the cursor off the screen. -/
lemma not_stays_press (hfits : ¬ KeyFits size s c) :
    ¬ Stays size (s.press size c) := by
  cases pressed size s c with
  | leaves _ _ _ hfits' => exact absurd hfits' hfits
  | moves p _ hfits' _ => exact absurd hfits' hfits
  | opens hmoves hiff =>
      intro hstays
      obtain ⟨-, hr, -⟩ := (hmoves.stays_iff.mp hstays).2
      exact hfits (hiff.mpr (by dsimp at hr; omega))
  | inserts hmoves hiff =>
      intro hstays
      obtain ⟨-, -, -, hc⟩ := (hmoves.stays_iff.mp hstays).2
      exact hfits (hiff.mpr (by dsimp at hc; omega))

lemma exec_step (size : Size) (s : Cursor) (keys : List ℤ) :
    exec (step size) s keys = some (keys.foldl (Cursor.press size) s) := by
  induction keys generalizing s with
  | nil => rfl
  | cons c keys ih => rw [exec_cons, step, Option.bind_some, ih, List.foldl_cons]

/-- Positions are only added. -/
lemma stays_of_press (h : Stays size (s.press size c)) : Stays size s := by
  cases pressed size s c with
  | leaves _ _ hmoves _ => rwa [Stays, hmoves] at h
  | moves p hmoves _ _ => exact (hmoves.stays_iff.mp h).1
  | opens hmoves _ => exact (hmoves.stays_iff.mp h).1
  | inserts hmoves _ => exact (hmoves.stays_iff.mp h).1

lemma stays_of_foldl {keys : List ℤ} (h : Stays size (keys.foldl (Cursor.press size) s)) :
    Stays size s := by
  induction keys generalizing s with
  | nil => exact h
  | cons c keys ih => exact stays_of_press (ih h)

/-- So it is enough to look at the last state. -/
lemma stays_of_visits {u : Cursor} {keys : List ℤ}
    (h : Stays size (keys.foldl (Cursor.press size) s)) (hu : Visits (step size) s keys u) :
    Stays size u := by
  obtain ⟨before, ⟨rest, rfl⟩, hexec⟩ := hu
  obtain rfl := Option.some.inj ((exec_step size s before).symm.trans hexec)
  rw [List.foldl_append] at h
  exact stays_of_foldl h

/-- **When the cursor stays on the screen**: exactly when no line is opened below the last row
and no character is typed in the last column. -/
theorem cursor_stays_iff (size : Size) (keys : List ℤ) :
    Stays size (editText size keys) ↔
      ∀ u c, Takes (step size) start keys u c → KeyFits size u c := by
  have hkeep : ∀ s c t, Inv size s → KeyFits size s c → step size s c = some t → Inv size t :=
    fun s c t h hfits ht => Option.some.inj ht ▸ h.press hfits
  have hleave : ∀ s c t, Inv size s → ¬ KeyFits size s c → step size s c = some t →
      ¬ Stays size t := fun s c t _ hfits ht => Option.some.inj ht ▸ not_stays_press hfits
  rw [← exec_safe_iff_guarded (fun s h => h.stays) hkeep hleave (inv_start size)
    (exec_step size start keys)]
  constructor
  · exact fun h u hu => stays_of_visits h hu
  · exact fun h => h _ ⟨keys, List.prefix_rfl, exec_step size start keys⟩

/-- A screen of one row. -/
def oneRow : Size := ⟨1, 80, Int.le_refl 1, Int.le.intro 79 rfl⟩

/-- Opening a line in the last row. -/
theorem opening_leaves_the_screen :
    ¬ ∀ (size : Size) (keys : List ℤ), Stays size (editText size keys) := by
  intro hclaim
  have hbelow := hclaim oneRow [key 'o'] (1, 0) (by decide)
  simpa [oneRow] using hbelow.2.1

end TextEditor
end EltSummer
