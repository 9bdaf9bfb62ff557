import EltSummer.Framework.Decimal

/-!
# `scanf` on a finite input

The input is the list of bytes that have not been read.  `integer` and `word` are the
conversions `%d` (with its relatives) and `%s`: they skip white space and take what matches.
Where nothing matches there is no value, and what does not match is left unread; of a number,
that is what stands behind a sign.

`wordInto` is `scanf("%s")` with the block it stores into: a word and its NUL may go out of the
block (`Room` says that they do not), and where no word is left nothing is stored.

An input is stuck when `integer` finds no number in it and reads nothing off it.  A word can be
read off a stuck input that is not empty, and any other input gets shorter
(`length_integer_lt`).
-/

namespace Scanf

open Block CString

/-- `%d`, for a number of any size, and what is left of the input. -/
def integer (b : List UInt8) : Option ℤ × List UInt8 :=
  let (s, b) := sign (b.dropWhile isSpace)
  let ds := b.takeWhile isDigit
  (if ds = [] then none else some (s * horner 0 ds), b.drop ds.length)

/-- What `%hhu` stores: the number is cut to a byte, and one that is no `unsigned long` is read as
the greatest. -/
def toUChar (v : ℤ) : UInt8 := if v.natAbs < 2 ^ 64 then UInt8.ofInt v else 255

/-- What `%d` stores: the number is cut to an `int`, and one that is no `long` is read as the
`long` next to it. -/
def toInt32 (v : ℤ) : Int32 := Int32.ofInt (max (-2 ^ 63) (min v (2 ^ 63 - 1)))

/-- `%s`, and what is left of the input. -/
def word (b : List UInt8) : Option (List UInt8) × List UInt8 :=
  let b := b.dropWhile isSpace
  let w := b.takeWhile fun c => !isSpace c
  (if w = [] then none else some w, b.drop w.length)

/-- What `n` words leave. -/
def words : ℕ → List UInt8 → List UInt8
  | 0, b => b
  | n + 1, b => words n (word b).2

/-- `%s` into the cells of a block from `off` on. -/
def wordInto (block : List UInt8) (off : ℕ) (b : List UInt8) : Option (List UInt8) :=
  match (word b).1 with
  | none => some block
  | some w => writeAt block off (w ++ [0])

/-- The word that `%s` reads, if there is one, and its NUL lie in a block of `size` cells. -/
def Room (size off : ℕ) (b : List UInt8) : Prop := ∀ w ∈ (word b).1, off + w.length < size

/-- `%d` finds nothing, and takes nothing. -/
def Stuck (b : List UInt8) : Prop := integer b = (none, b)

variable {b : List UInt8} {n : ℕ}

lemma sign_isSuffix (b : List UInt8) : (sign b).2 <:+ b := by
  unfold sign
  split
  · rename_i c b
    split
    · exact List.suffix_cons c b
    · split
      · exact List.suffix_cons c b
      · exact List.suffix_rfl
  · exact List.suffix_rfl

/-- What is left is the end of what there was. -/
lemma integer_isSuffix (b : List UInt8) : (integer b).2 <:+ b :=
  ((List.drop_suffix _ _).trans (sign_isSuffix _)).trans (List.dropWhile_suffix _)

lemma length_integer_le (b : List UInt8) : (integer b).2.length ≤ b.length :=
  (integer_isSuffix b).length_le

/-- An input that is not stuck gets shorter. -/
lemma length_integer_lt (h : ¬ Stuck b) : (integer b).2.length < b.length := by
  by_contra hge
  have hall : (integer b).2 = b :=
    (integer_isSuffix b).eq_of_length_le (not_lt.mp hge)
  refine h (Prod.ext ?_ hall)
  -- no white space, no sign and no digit has been read
  have hskip := (List.dropWhile_suffix (l := b) isSpace).length_le
  have hsign := (sign_isSuffix (b.dropWhile isSpace)).length_le
  have hlen := congrArg List.length hall
  simp only [integer, List.length_drop] at hlen ⊢
  rw [if_pos (List.length_eq_zero_iff.mp ?_)]
  have hdigits := (List.takeWhile_prefix (l := (sign (b.dropWhile isSpace)).2) isDigit).length_le
  omega

/-- Nothing stands in front of what a stuck input is stuck at. -/
lemma Stuck.dropWhile (h : Stuck b) : b.dropWhile isSpace = b := by
  have hskip := List.dropWhile_suffix (l := b) isSpace
  have hrest : (integer b).2 <:+ b.dropWhile isSpace :=
    (List.drop_suffix _ _).trans (sign_isSuffix _)
  rw [h] at hrest
  exact hskip.eq_of_length_le hrest.length_le

lemma length_word_le (b : List UInt8) : (word b).2.length ≤ b.length :=
  ((List.drop_suffix _ _).trans (List.dropWhile_suffix _)).length_le

/-- A word that is read has a byte. -/
lemma length_word_lt {w r : List UInt8} (h : word b = (some w, r)) : r.length < b.length := by
  have hskip := (List.dropWhile_suffix (l := b) isSpace).length_le
  have hread := (List.takeWhile_prefix (l := b.dropWhile isSpace) fun c => !isSpace c).length_le
  unfold word at h
  obtain ⟨hw, rfl⟩ := Prod.mk.inj h
  split at hw
  · cases hw
  · rename_i hne
    have hpos := List.length_pos_of_ne_nil hne
    rw [List.length_drop]
    omega

lemma length_words_le (n : ℕ) (b : List UInt8) : (words n b).length ≤ b.length := by
  induction n generalizing b with
  | zero => exact le_rfl
  | succ n ih => exact (ih _).trans (length_word_le b)

/-- A stuck input that is not empty holds a word. -/
lemma Stuck.length_words_lt (h : Stuck b) (hne : b ≠ []) :
    (words (n + 1) b).length < b.length := by
  obtain ⟨c, r, rfl⟩ := List.exists_cons_of_ne_nil hne
  have hc : isSpace c = false := by
    by_contra hspace
    have hskip := h.dropWhile
    rw [List.dropWhile_cons, if_pos (by simpa using hspace)] at hskip
    have hlen := (List.dropWhile_suffix (l := r) isSpace).length_le
    rw [hskip, List.length_cons] at hlen
    omega
  refine (length_words_le n _).trans_lt ?_
  simp only [word, h.dropWhile, List.takeWhile_cons, hc, Bool.not_false, if_true, List.length_drop,
    List.length_cons]
  omega

lemma wordInto_isSome_iff {block : List UInt8} {off : ℕ} :
    (wordInto block off b).isSome ↔ Room block.length off b := by
  unfold wordInto Room
  split
  · rename_i hnone
    simp [hnone]
  · rename_i w hw
    rw [writeAt_isSome_iff, List.length_append, List.length_singleton, hw]
    simp only [Option.mem_def, Option.some.injEq, forall_eq']
    omega

lemma length_wordInto {block block' : List UInt8} {off : ℕ}
    (h : wordInto block off b = some block') : block'.length = block.length := by
  unfold wordInto at h
  split at h
  · rw [Option.some.inj h]
  · exact length_writeAt h

lemma wordInto_of_word {block w : List UInt8} {off : ℕ} (h : (word b).1 = some w) :
    wordInto block off b = writeAt block off (w ++ [0]) := by
  unfold wordInto
  rw [h]

lemma stuck_nil : Stuck [] := rfl

lemma words_nil (n : ℕ) : words n [] = [] := by
  induction n with
  | zero => rfl
  | succ n ih => exact ih

end Scanf
