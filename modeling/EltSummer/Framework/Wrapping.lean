import Mathlib.Data.List.DropRight
import Mathlib.Data.List.Flatten
import Mathlib.Tactic.Common

/-!
# Lines of a text, wrapped into rows

A text is a list of lines, and what it says is its lines up to trailing blanks of a line and
trailing empty lines: `tidy`.  A display of a given width breaks a line into rows: a row that is
filled to the last column is done, and the next cell is the first one of the next row.  So a
line as wide as the display takes a second, empty row before the next line begins
(`wrap_of_le`).

`tidy_take_wrap_iff` says exactly when the first rows of a display still say what the text
says: every line that more text follows is shorter than the display is wide, trailing blanks
included, the last one is no wider than it, and the lines are no more than the rows.  The
idea for the direction that needs one is to compare what is not blank: wrapping loses none of
it, and a row cut off that is not blank loses some.
-/

namespace Wrapping

/-! ## What a text says -/

section Trailing

variable {α : Type*} {p : α → Bool}

lemma rdropWhile_cons (a : α) (l : List α) :
    (a :: l).rdropWhile p =
      if l.rdropWhile p = [] ∧ p a = true then [] else a :: l.rdropWhile p := by
  simp only [List.rdropWhile, List.reverse_cons, List.dropWhile_append, List.isEmpty_iff,
    List.reverse_eq_nil_iff]
  by_cases hl : l.reverse.dropWhile p = []
  · by_cases ha : p a = true
    · simp [hl, ha]
    · simp [hl, ha]
  · simp [hl]

lemma countP_rdropWhile (l : List α) :
    (l.rdropWhile p).countP (fun a => !p a) = l.countP fun a => !p a := by
  induction l with
  | nil => simp
  | cons a l ih =>
      rw [rdropWhile_cons]
      split
      · rename_i h
        rw [h.1] at ih
        simpa [h.2] using ih
      · rw [List.countP_cons, List.countP_cons, ih]

lemma rdropWhile_append_of_all {l' : List α} (h : ∀ a ∈ l', p a = true) (l : List α) :
    (l ++ l').rdropWhile p = l.rdropWhile p := by
  induction l with
  | nil => simpa using h
  | cons a l ih => rw [List.cons_append, rdropWhile_cons, rdropWhile_cons, ih]

/-- What a trimmed list was cut from, if only one value is cut off and the length is known. -/
lemma eq_of_rdropWhile_eq {b : α} (hp : ∀ a, p a = true → a = b) {l l' : List α}
    (hlen : l.length = l'.length) (h : l.rdropWhile p = l'.rdropWhile p) : l = l' := by
  have hcut : ∀ l : List α, l = l.rdropWhile p ++
      List.replicate (l.length - (l.rdropWhile p).length) b := by
    intro l
    have hsplit : l.rdropWhile p ++ l.rtakeWhile p = l := List.rdropWhile_append_rtakeWhile
    have hrep : l.rtakeWhile p = List.replicate (l.rtakeWhile p).length b :=
      List.eq_replicate_of_mem fun a ha => hp a (List.mem_rtakeWhile_imp ha)
    have hrest := congrArg List.length hsplit
    rw [List.length_append] at hrest
    rw [show l.length - (l.rdropWhile p).length = (l.rtakeWhile p).length by omega, ← hrep, hsplit]
  rw [hcut l, hcut l', h, hlen]

/-- The first `n` entries of a list, padded. -/
lemma map_getD_range (l : List α) (n : ℕ) (b : α) :
    (List.range n).map (fun i => l[i]?.getD b) =
      l.take n ++ List.replicate (n - l.length) b := by
  refine List.ext_getElem (by simp; omega) fun i hi hi' => ?_
  have hin : i < n := by simpa using hi
  rcases Nat.lt_or_ge i l.length with hlt | hge
  · have htake : i < (l.take n).length := by simp; omega
    simp [List.getElem_append_left htake, hlt]
  · have htake : (l.take n).length ≤ i := by simp; omega
    simp [List.getElem_append_right htake, hge]

end Trailing

variable {α : Type*} [DecidableEq α] {blank : α} {width : ℕ}

/-- A line without its trailing blanks. -/
def trim (blank : α) (l : List α) : List α := l.rdropWhile fun a => decide (a = blank)

/-- The lines up to trailing blanks and trailing empty lines. -/
def tidy (blank : α) (ls : List (List α)) : List (List α) :=
  (ls.map (trim blank)).rdropWhile List.isEmpty

/-- What is not blank in some lines, counted. -/
def ink (blank : α) (ls : List (List α)) : ℕ := ls.flatten.countP fun a => decide (a ≠ blank)

@[simp] lemma trim_nil : trim blank [] = [] := rfl

@[simp] lemma tidy_nil : tidy blank [] = [] := rfl

lemma trim_eq_nil_iff {l : List α} : trim blank l = [] ↔ ∀ a ∈ l, a = blank := by
  simp [trim, List.rdropWhile_eq_nil_iff]

lemma trim_isPrefix (l : List α) : trim blank l <+: l := List.rdropWhile_prefix _ _

lemma length_trim_le (blank : α) (l : List α) : (trim blank l).length ≤ l.length :=
  (trim_isPrefix l).length_le

@[simp] lemma trim_trim (l : List α) : trim blank (trim blank l) = trim blank l :=
  List.rdropWhile_idempotent _ _

lemma trim_append_replicate (l : List α) (n : ℕ) :
    trim blank (l ++ List.replicate n blank) = trim blank l :=
  rdropWhile_append_of_all (fun a ha => by simpa using List.eq_of_mem_replicate ha) l

/-- The cells of a row say what the line in it says. -/
lemma trim_cells {l : List α} {n : ℕ} (h : l.length ≤ n) :
    trim blank ((List.range n).map fun c => l[c]?.getD blank) = trim blank l := by
  rw [map_getD_range, List.take_of_length_le h, trim_append_replicate]

lemma tidy_cons (l : List α) (ls : List (List α)) : tidy blank (l :: ls) =
    if tidy blank ls = [] ∧ trim blank l = [] then [] else trim blank l :: tidy blank ls := by
  simp [tidy, rdropWhile_cons]

lemma tidy_append_empty {ls' : List (List α)} (h : ∀ l ∈ ls', trim blank l = [])
    (ls : List (List α)) : tidy blank (ls ++ ls') = tidy blank ls := by
  rw [tidy, List.map_append]
  refine rdropWhile_append_of_all (fun l hl => ?_) _
  obtain ⟨l', hl', rfl⟩ := List.mem_map.mp hl
  simpa using h l' hl'

lemma tidy_append_of_nil {ls' : List (List α)} (h : tidy blank ls' = []) (ls : List (List α)) :
    tidy blank (ls ++ ls') = tidy blank ls := by
  induction ls with
  | nil => exact h
  | cons l ls ih => rw [List.cons_append, tidy_cons, tidy_cons, ih]

lemma tidy_append_of_ne {ls' : List (List α)} (h : tidy blank ls' ≠ []) (ls : List (List α)) :
    tidy blank (ls ++ ls') = ls.map (trim blank) ++ tidy blank ls' := by
  induction ls with
  | nil => rfl
  | cons l ls ih => simp [tidy_cons, ih, h]

lemma length_tidy_le (ls : List (List α)) : (tidy blank ls).length ≤ ls.length := by
  have hpre : tidy blank ls <+: ls.map (trim blank) := List.rdropWhile_prefix _ _
  simpa using hpre.length_le

lemma tidy_map_trim (ls : List (List α)) : tidy blank (ls.map (trim blank)) = tidy blank ls := by
  simp [tidy, Function.comp_def]

lemma ink_cons (l : List α) (ls : List (List α)) :
    ink blank (l :: ls) = l.countP (fun a => decide (a ≠ blank)) + ink blank ls := by
  simp [ink]

lemma ink_append (ls ls' : List (List α)) :
    ink blank (ls ++ ls') = ink blank ls + ink blank ls' := by
  simp [ink]

lemma ink_eq_zero_iff {ls : List (List α)} :
    ink blank ls = 0 ↔ ∀ l ∈ ls, ∀ a ∈ l, a = blank := by
  rw [ink, List.countP_eq_zero]
  constructor
  · intro h l hl a ha
    simpa using h a (List.mem_flatten_of_mem hl ha)
  · intro h a ha
    obtain ⟨l, hl, hal⟩ := List.mem_flatten.mp ha
    simpa using h l hl a hal

lemma countP_trim (l : List α) : (trim blank l).countP (fun a => decide (a ≠ blank)) =
    l.countP fun a => decide (a ≠ blank) := by
  simpa [trim] using countP_rdropWhile (p := fun a => decide (a = blank)) l

/-- Tidying loses no ink. -/
lemma ink_tidy (ls : List (List α)) : ink blank (tidy blank ls) = ink blank ls := by
  induction ls with
  | nil => rfl
  | cons l ls ih =>
      rw [tidy_cons, ink_cons, ← countP_trim]
      split
      · rename_i h
        rw [h.1] at ih
        rw [h.2, ← ih]
        rfl
      · rw [ink_cons, ih]

lemma tidy_eq_nil_iff {ls : List (List α)} : tidy blank ls = [] ↔ ink blank ls = 0 := by
  constructor
  · intro h
    rw [← ink_tidy, h]
    rfl
  · intro h
    refine List.rdropWhile_eq_nil_iff.mpr fun l hl => ?_
    obtain ⟨l', hl', rfl⟩ := List.mem_map.mp hl
    simpa using trim_eq_nil_iff.mpr (ink_eq_zero_iff.mp h l' hl')

/-- The tidied lines end where the ink ends. -/
lemma length_tidy_le_iff (ls : List (List α)) (k : ℕ) :
    (tidy blank ls).length ≤ k ↔ ink blank (ls.drop k) = 0 := by
  constructor
  · intro h
    induction ls generalizing k with
    | nil => simp [ink]
    | cons l ls ih =>
        cases k with
        | zero => exact tidy_eq_nil_iff.mp (List.eq_nil_of_length_eq_zero (Nat.le_zero.mp h))
        | succ k =>
            refine ih k ?_
            rw [tidy_cons] at h
            split at h
            · rename_i hnil
              simp [hnil.1]
            · simpa using h
  · intro h
    rw [← List.take_append_drop k ls, tidy_append_of_nil (tidy_eq_nil_iff.mpr h)]
    exact (length_tidy_le _).trans (List.length_take_le _ _)

/-- As many lines of the same width that say the same are the same. -/
lemma eq_of_tidy_eq {ls ls' : List (List α)} (hlen : ls.length = ls'.length)
    (hwidth : ∀ l ∈ ls, l.length = width) (hwidth' : ∀ l ∈ ls', l.length = width)
    (h : tidy blank ls = tidy blank ls') : ls = ls' := by
  have htrim : ls.map (trim blank) = ls'.map (trim blank) :=
    eq_of_rdropWhile_eq (b := []) (fun l hl => List.isEmpty_iff.mp hl) (by simpa using hlen) h
  refine List.ext_getElem hlen fun i hi hi' => ?_
  refine eq_of_rdropWhile_eq (b := blank) (p := fun a => decide (a = blank))
    (fun a ha => by simpa using ha) ?_ ?_
  · rw [hwidth _ (List.getElem_mem hi), hwidth' _ (List.getElem_mem hi')]
  · have hrow := congrArg (fun l => l[i]?) htrim
    simpa [hi, hi', trim] using hrow

/-- Cutting off behind the first `k` lines changes nothing if the text ends there, and otherwise
loses ink. -/
lemma tidy_take_iff {ls rows : List (List α)} (hflat : rows.flatten = ls.flatten) (k : ℕ) :
    tidy blank (rows.take k) = tidy blank ls ↔
      tidy blank rows = tidy blank ls ∧ (tidy blank ls).length ≤ k := by
  have hink : ink blank rows = ink blank ls := by rw [ink, ink, hflat]
  have hsplit : ink blank (rows.take k) + ink blank (rows.drop k) = ink blank rows := by
    rw [← ink_append, List.take_append_drop]
  have hjoin : ink blank (rows.drop k) = 0 → tidy blank (rows.take k) = tidy blank rows := by
    intro hdrop
    conv_rhs => rw [← List.take_append_drop k rows]
    exact (tidy_append_of_nil (tidy_eq_nil_iff.mpr hdrop) _).symm
  constructor
  · intro h
    have hcut : ink blank (rows.take k) = ink blank rows := by rw [← ink_tidy, h, ink_tidy, hink]
    refine ⟨(hjoin (by omega)).symm.trans h, ?_⟩
    rw [← h]
    exact (length_tidy_le _).trans (List.length_take_le _ _)
  · rintro ⟨h, hlen⟩
    exact (hjoin ((length_tidy_le_iff rows k).mp (h ▸ hlen))).trans h

/-! ## Wrapping -/

/-- The rows a line takes behind a row that has `row` in it. -/
def wrapFrom (width : ℕ) (row : List α) : List α → List (List α)
  | [] => [row]
  | a :: l =>
      if row.length + 1 = width then (row ++ [a]) :: wrapFrom width [] l
      else wrapFrom width (row ++ [a]) l

/-- The rows a line takes. -/
def wrap (width : ℕ) (l : List α) : List (List α) := wrapFrom width [] l

omit [DecidableEq α] in
lemma flatten_wrapFrom (row l : List α) : (wrapFrom width row l).flatten = row ++ l := by
  induction l generalizing row with
  | nil => simp [wrapFrom]
  | cons a l ih =>
      rw [wrapFrom]
      split
      · simp [ih]
      · simp [ih]

omit [DecidableEq α] in
lemma length_le_of_mem_wrapFrom {row l : List α} (hrow : row.length < width) :
    ∀ row' ∈ wrapFrom width row l, row'.length ≤ width := by
  induction l generalizing row with
  | nil => simpa [wrapFrom] using hrow.le
  | cons a l ih =>
      rw [wrapFrom]
      split
      · rename_i hlast
        exact List.forall_mem_cons.mpr ⟨by simp [hlast], ih (by simp; omega)⟩
      · exact ih (by simp; omega)

omit [DecidableEq α] in
lemma flatten_flatMap_wrap (ls : List (List α)) :
    (ls.flatMap (wrap width)).flatten = ls.flatten := by
  induction ls with
  | nil => rfl
  | cons l ls ih => simp [wrap, flatten_wrapFrom, ih]

omit [DecidableEq α] in
lemma wrapFrom_of_lt {row l : List α} (h : row.length + l.length < width) :
    wrapFrom width row l = [row ++ l] := by
  induction l generalizing row with
  | nil => simp [wrapFrom]
  | cons a l ih =>
      have hrow : row.length + 1 ≠ width := by
        simp at h
        omega
      rw [wrapFrom, if_neg hrow, ih (by simp at h ⊢; omega), List.append_assoc,
        List.singleton_append]

omit [DecidableEq α] in
lemma wrapFrom_of_le {row l : List α} (hrow : row.length < width)
    (h : width ≤ row.length + l.length) :
    wrapFrom width row l = (row ++ l).take width :: wrap width ((row ++ l).drop width) := by
  induction l generalizing row with
  | nil =>
      simp at h
      omega
  | cons a l ih =>
      have hassoc : row ++ a :: l = row ++ [a] ++ l := by simp
      rw [wrapFrom, hassoc]
      split
      · rename_i hlast
        have hlen : (row ++ [a]).length = width := by simpa using hlast
        rw [← hlen, List.take_left, List.drop_left, wrap]
      · exact ih (by simp; omega) (by simp at h ⊢; omega)

omit [DecidableEq α] in
lemma wrap_of_lt {l : List α} (h : l.length < width) : wrap width l = [l] :=
  wrapFrom_of_lt (by simpa using h)

omit [DecidableEq α] in
/-- A line that reaches the last column begins another row. -/
lemma wrap_of_le {l : List α} (hwidth : 0 < width) (h : width ≤ l.length) :
    wrap width l = l.take width :: wrap width (l.drop width) :=
  wrapFrom_of_le (by simpa using hwidth) (by simpa using h)

/-- The text fits a width: every line that more text follows is shorter, the last one is no
longer without its trailing blanks. -/
def Narrow (blank : α) (width : ℕ) : List (List α) → Prop
  | [] => True
  | l :: ls =>
      if tidy blank ls = [] then (trim blank l).length ≤ width
      else l.length < width ∧ Narrow blank width ls

/-- Wrapping loses no ink. -/
lemma ink_flatMap_wrap (blank : α) (width : ℕ) (ls : List (List α)) :
    ink blank (ls.flatMap (wrap width)) = ink blank ls := by
  rw [ink, ink, flatten_flatMap_wrap]

lemma tidy_flatMap_wrap_eq_nil_iff (blank : α) (width : ℕ) (ls : List (List α)) :
    tidy blank (ls.flatMap (wrap width)) = [] ↔ tidy blank ls = [] := by
  rw [tidy_eq_nil_iff, tidy_eq_nil_iff, ink_flatMap_wrap]

omit [DecidableEq α] in
lemma length_wrapFrom_pos (row l : List α) : 0 < (wrapFrom width row l).length := by
  induction l generalizing row with
  | nil => simp [wrapFrom]
  | cons a l ih =>
      rw [wrapFrom]
      split
      · simp
      · exact ih _

/-- Wrapping makes no text shorter. -/
lemma length_tidy_le_wrap (blank : α) (width : ℕ) (ls : List (List α)) :
    (tidy blank ls).length ≤ (tidy blank (ls.flatMap (wrap width))).length := by
  induction ls with
  | nil => exact le_rfl
  | cons l ls ih =>
      by_cases hls : tidy blank ls = []
      · have hone : (tidy blank (l :: ls)).length ≤ 1 := by
          rw [tidy_cons, hls]
          split <;> simp
        by_cases hnil : tidy blank (l :: ls) = []
        · simp [hnil]
        · have hpos :=
            List.length_pos_iff.mpr (mt (tidy_flatMap_wrap_eq_nil_iff blank width _).mp hnil)
          exact hone.trans hpos
      · have hrows := mt (tidy_flatMap_wrap_eq_nil_iff blank width ls).mp hls
        rw [List.flatMap_cons, tidy_append_of_ne hrows, tidy_cons, if_neg (by simp [hls])]
        have hpos : 0 < (wrap width l).length := length_wrapFrom_pos [] l
        simp only [List.length_cons, List.length_append, List.length_map]
        omega

/-- The line behind a cut is blank exactly if the trimmed line ends before the cut. -/
lemma length_trim_le_iff (l : List α) (k : ℕ) :
    (trim blank l).length ≤ k ↔ ∀ a ∈ l.drop k, a = blank := by
  constructor
  · intro h a ha
    have hsplit : trim blank l ++ l.rtakeWhile (fun a => decide (a = blank)) = l :=
      List.rdropWhile_append_rtakeWhile
    rw [← hsplit, List.drop_append, List.drop_eq_nil_of_le h, List.nil_append] at ha
    simpa using List.mem_rtakeWhile_imp (List.mem_of_mem_drop ha)
  · intro h
    rw [← List.take_append_drop k l, trim, rdropWhile_append_of_all (by simpa using h)]
    exact (length_trim_le blank _).trans (List.length_take_le _ _)

/-- A line alone survives wrapping if it has no ink behind the last column. -/
lemma tidy_wrap_iff (hwidth : 0 < width) (l : List α) :
    tidy blank (wrap width l) = tidy blank [l] ↔ (trim blank l).length ≤ width := by
  rcases Nat.lt_or_ge l.length width with hlt | hle
  · rw [wrap_of_lt hlt]
    exact iff_of_true rfl ((length_trim_le blank l).trans hlt.le)
  · rw [wrap_of_le hwidth hle, length_trim_le_iff]
    have hrest : tidy blank (wrap width (l.drop width)) = [] ↔ ∀ a ∈ l.drop width, a = blank := by
      have := tidy_flatMap_wrap_eq_nil_iff blank width [l.drop width]
      simpa [tidy_cons, trim_eq_nil_iff] using this
    rw [← hrest]
    by_cases hnil : tidy blank (wrap width (l.drop width)) = []
    · have htrim : trim blank (l.take width) = trim blank l := by
        conv_rhs => rw [← List.take_append_drop width l]
        exact (rdropWhile_append_of_all (by simpa using hrest.mp hnil) _).symm
      exact iff_of_true (by rw [tidy_cons, tidy_cons, hnil, htrim]; rfl) hnil
    · refine iff_of_false (fun heq => ?_) hnil
      have hlen := congrArg List.length heq
      rw [tidy_cons, if_neg (by simp [hnil])] at hlen
      have hone : (tidy blank [l]).length ≤ 1 := length_tidy_le _
      have hpos := List.length_pos_iff.mpr hnil
      simp only [List.length_cons] at hlen
      omega

theorem tidy_flatMap_wrap_iff (hwidth : 0 < width) (ls : List (List α)) :
    tidy blank (ls.flatMap (wrap width)) = tidy blank ls ↔ Narrow blank width ls := by
  induction ls with
  | nil => exact iff_of_true rfl trivial
  | cons l ls ih =>
      rw [List.flatMap_cons, Narrow]
      split
      · rename_i hls
        have hrows := (tidy_flatMap_wrap_eq_nil_iff blank width ls).mpr hls
        have hline : tidy blank (l :: ls) = tidy blank [l] := by
          rw [tidy_cons, tidy_cons, hls, tidy_nil]
        rw [tidy_append_of_nil hrows, hline]
        exact tidy_wrap_iff hwidth l
      · rename_i hls
        have hrows := mt (tidy_flatMap_wrap_eq_nil_iff blank width ls).mp hls
        rw [tidy_append_of_ne hrows, tidy_cons, if_neg (by simp [hls])]
        rcases Nat.lt_or_ge l.length width with hlt | hle
        · simp [wrap_of_lt hlt, hlt, ih]
        · -- two rows at least for this line, and no fewer for the rest
          refine iff_of_false (fun heq => ?_) (fun h => absurd h.1 (not_lt.mpr hle))
          have hlen := congrArg List.length heq
          have hrest := length_tidy_le_wrap blank width ls
          have hpos : 0 < (wrap width (l.drop width)).length := length_wrapFrom_pos [] _
          rw [wrap_of_le hwidth hle] at hlen
          simp only [List.map_cons, List.length_cons, List.length_append, List.length_map] at hlen
          omega

/-- A text fits a display: it has no more lines than the display has rows, every line that more
text follows is shorter than a row, trailing blanks included, and no line is longer than a row
without them. -/
structure Fits (blank : α) (width height : ℕ) (ls : List (List α)) : Prop where
  lines : (tidy blank ls).length ≤ height
  inner : ∀ l ∈ ls.take ((tidy blank ls).length - 1), l.length < width
  narrow : ∀ l ∈ tidy blank ls, l.length ≤ width

lemma narrow_iff (ls : List (List α)) : Narrow blank width ls ↔
    (∀ l ∈ ls.take ((tidy blank ls).length - 1), l.length < width) ∧
      ∀ l ∈ tidy blank ls, l.length ≤ width := by
  induction ls with
  | nil => simp [Narrow]
  | cons l ls ih =>
      rw [Narrow, tidy_cons]
      by_cases hls : tidy blank ls = []
      · by_cases hl : trim blank l = []
        · simp [hls, hl]
        · simp [hls, hl]
      · obtain ⟨m, hm⟩ := Nat.exists_eq_succ_of_ne_zero (mt List.eq_nil_of_length_eq_zero hls)
        have hlen := length_trim_le blank l
        simp only [hls, false_and, if_false, ih, List.length_cons, hm, List.take_succ_cons,
          List.mem_cons, forall_eq_or_imp, Nat.add_sub_cancel, Nat.succ_eq_add_one]
        constructor
        · rintro ⟨hlt, hinner, hnarrow⟩
          exact ⟨⟨hlt, hinner⟩, by omega, hnarrow⟩
        · rintro ⟨⟨hlt, hinner⟩, -, hnarrow⟩
          exact ⟨hlt, hinner, hnarrow⟩

/-- **The first rows of a display say what the text says exactly if it fits.** -/
theorem tidy_take_wrap_iff (hwidth : 0 < width) (height : ℕ) (ls : List (List α)) :
    tidy blank ((ls.flatMap (wrap width)).take height) = tidy blank ls ↔
      Fits blank width height ls := by
  rw [tidy_take_iff (flatten_flatMap_wrap ls), tidy_flatMap_wrap_iff hwidth, narrow_iff]
  exact ⟨fun ⟨⟨hinner, hnarrow⟩, hlines⟩ => ⟨hlines, hinner, hnarrow⟩,
    fun h => ⟨⟨h.inner, h.narrow⟩, h.lines⟩⟩

end Wrapping
