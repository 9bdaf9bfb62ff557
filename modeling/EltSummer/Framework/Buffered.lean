import EltSummer.Framework.Scanf
import Mathlib.Data.List.TakeWhile

/-!
# Buffered input

An input comes in reads, each of at least one byte, and the end of the input is behind the last of
them.  What has been read and not been used is in the buffer, and the next read is made when the
buffer is empty and more is asked for.

So what a function uses of the bytes to come is one thing, and how far it reads is another.  `drop`
uses bytes and reads no more than it has to, `peek` makes sure of a byte to look at, and `purge`
forgets the buffer, but not what has not been read yet.  `getline` and `scanInt` are put together
from these.  A purge leaves an input at the head of a read (`purge_scanInt_isSuffix`), which on
a terminal is the head of a line (`purge_scanInt_lines`).
-/

namespace Buffered

open Scanf CString

variable {α : Type*}

/-- What one read gives. -/
structure Read (α : Type*) where
  bytes : List α
  ne : bytes ≠ []

/-- The bytes in the buffer, and the reads to come. -/
structure Input (α : Type*) where
  buffer : List α
  reads : List (Read α)

/-- All the bytes to come. -/
def Input.bytes (s : Input α) : List α := s.buffer ++ s.reads.flatMap Read.bytes

/-- Behind the first `n` bytes of a buffer and of reads. -/
def dropFrom : List α → List (Read α) → ℕ → Input α
  | b, [], n => ⟨b.drop n, []⟩
  | b, r :: rs, n =>
      if n ≤ b.length then ⟨b.drop n, r :: rs⟩ else dropFrom r.bytes rs (n - b.length)

/-- `n` bytes are used. -/
def Input.drop (s : Input α) (n : ℕ) : Input α := dropFrom s.buffer s.reads n

/-- The next byte is in the buffer, if there is one. -/
def Input.peek (s : Input α) : Input α :=
  match s.buffer, s.reads with
  | [], r :: rs => ⟨r.bytes, rs⟩
  | b, rs => ⟨b, rs⟩

/-- `__fpurge`. -/
def Input.purge (s : Input α) : Input α := { s with buffer := [] }

def newline : UInt8 := 10

/-- Up to the first newline and with it, or up to the end. -/
def firstLine (b : List UInt8) : List UInt8 := b.take ((b.takeWhile (· ≠ newline)).length + 1)

/-- `getline`, which fails at the end of the input. -/
def Input.getline (s : Input UInt8) : Option (List UInt8 × Input UInt8) :=
  if s.bytes = [] then none
  else some (firstLine s.bytes, s.drop (firstLine s.bytes).length)

/-- `scanf("%d")`, which has looked at the byte behind the number. -/
def Input.scanInt (s : Input UInt8) : Option ℤ × Input UInt8 :=
  ((integer s.bytes).1, (s.drop (s.bytes.length - (integer s.bytes).2.length)).peek)

variable {s : Input α} {b : List α} {r : Read α} {rs : List (Read α)} {n : ℕ}

/-! ## How far an input is read -/

lemma dropFrom_isSuffix (b : List α) (rs : List (Read α)) (n : ℕ) :
    (dropFrom b rs n).reads <:+ rs := by
  induction rs generalizing b n with
  | nil => exact List.suffix_rfl
  | cons r rs ih =>
      unfold dropFrom
      split
      · exact List.suffix_rfl
      · exact (ih _ _).trans (List.suffix_cons r rs)

lemma peek_isSuffix (s : Input α) : s.peek.reads <:+ s.reads := by
  obtain ⟨b, rs⟩ := s
  cases b with
  | cons a b => exact List.suffix_rfl
  | nil =>
      cases rs with
      | nil => exact List.suffix_rfl
      | cons r rs => exact List.suffix_cons r rs

/-- The first byte is in the first read. -/
lemma drop_cons (hn : 0 < n) : (⟨[], r :: rs⟩ : Input α).drop n = dropFrom r.bytes rs n := by
  rw [Input.drop, dropFrom, if_neg (by rw [List.length_nil]; omega), List.length_nil, Nat.sub_zero]

lemma dropFrom_of_le (h : n ≤ b.length) : dropFrom b rs n = ⟨b.drop n, rs⟩ := by
  cases rs with
  | nil => rfl
  | cons r rs => rw [dropFrom, if_pos h]

/-- A read is used up. -/
lemma drop_of_length_le (h : r.bytes.length ≤ n) :
    (⟨[], r :: rs⟩ : Input α).drop n = (⟨[], rs⟩ : Input α).drop (n - r.bytes.length) := by
  have hne := List.length_pos_of_ne_nil r.ne
  rw [drop_cons (by omega)]
  rcases h.eq_or_lt with rfl | hlt
  · rw [dropFrom_of_le le_rfl, List.drop_length, Nat.sub_self]
    exact (dropFrom_of_le (Nat.zero_le _)).symm
  · cases rs with
    | nil => rw [dropFrom, List.drop_of_length_le h, Input.drop, dropFrom, List.drop_nil]
    | cons r' rs =>
        rw [dropFrom, if_neg (not_le.mpr hlt), drop_cons (by omega)]

/-- A byte of the first read is looked at. -/
lemma peek_drop_cons (h : n < r.bytes.length) :
    ((⟨[], r :: rs⟩ : Input α).drop n).peek = ⟨r.bytes.drop n, rs⟩ := by
  rcases Nat.eq_zero_or_pos n with rfl | hn
  · rfl
  · obtain ⟨a, b, hab⟩ := List.exists_cons_of_ne_nil (List.drop_eq_nil_iff.not.mpr (not_le.mpr h))
    rw [drop_cons hn, dropFrom_of_le h.le, hab]
    rfl

/-- Something is read where the buffer is empty. -/
lemma drop_isSuffix_tail (hn : 0 < n) (rs : List (Read α)) :
    ((⟨[], rs⟩ : Input α).drop n).reads <:+ rs.tail := by
  cases rs with
  | nil => exact List.suffix_rfl
  | cons r rs =>
      rw [drop_cons hn]
      exact dropFrom_isSuffix _ _ _

/-! ## Lines and numbers -/

lemma firstLine_ne_nil {b : List UInt8} (h : b ≠ []) : firstLine b ≠ [] := by
  obtain ⟨c, b, rfl⟩ := List.exists_cons_of_ne_nil h
  rw [firstLine, List.take_succ_cons]
  exact List.cons_ne_nil _ _

lemma firstLine_append {l : List UInt8} (h : newline ∉ l) (r : List UInt8) :
    firstLine (l ++ newline :: r) = l ++ [newline] := by
  have hl : ∀ c ∈ l, decide (c ≠ newline) = true := by
    intro c hc
    have hne : c ≠ newline := fun heq => h (heq ▸ hc)
    simpa using hne
  rw [firstLine, List.takeWhile_append_of_pos hl, List.takeWhile_cons_of_neg (by simp),
    List.append_nil, List.take_length_add_append]
  rfl

/-- A line at the head of a read. -/
lemma getline_of_empty (rs : List (Read UInt8)) :
    (⟨[], rs⟩ : Input UInt8).getline = none ∧ rs = [] ∨
      ∃ s, (⟨[], rs⟩ : Input UInt8).getline = some (firstLine (rs.flatMap Read.bytes), s) ∧
        rs ≠ [] ∧ s.reads <:+ rs.tail := by
  cases rs with
  | nil => exact Or.inl ⟨rfl, rfl⟩
  | cons r rs =>
      have hne : (⟨[], r :: rs⟩ : Input UInt8).bytes ≠ [] := by
        simp [Input.bytes, List.flatMap_cons, r.ne]
      refine Or.inr ⟨_, by rw [Input.getline, if_neg hne]; rfl, List.cons_ne_nil _ _, ?_⟩
      exact drop_isSuffix_tail (List.length_pos_of_ne_nil (firstLine_ne_nil hne)) _

/-- After a number and a purge the input is at the head of a read. -/
lemma purge_scanInt_isSuffix (s : Input UInt8) :
    ∃ rs, s.scanInt.2.purge = ⟨[], rs⟩ ∧ rs <:+ s.reads :=
  ⟨_, rfl, (peek_isSuffix _).trans (dropFrom_isSuffix _ _ _)⟩

/-! ## A terminal -/

/-- The longest line a terminal hands over in one read. -/
def lineMax : ℕ := 1024

/-- A line as it is typed, up to the newline. -/
structure Typed where
  text : List UInt8
  noNewline : newline ∉ text
  fits : text.length < lineMax

def Typed.read (l : Typed) : Read UInt8 := ⟨l.text ++ [newline], by simp⟩

/-- The answer to a question for a number stands in the first line that is not blank. -/
def answer : List Typed → Option ℤ × List Typed
  | [] => (none, [])
  | l :: ls => if l.text.all isSpace then answer ls else ((integer l.text).1, ls)

/-- At a terminal a line is read. -/
lemma getline_lines (l : Typed) (ls : List Typed) :
    (⟨[], (l :: ls).map Typed.read⟩ : Input UInt8).getline =
      some (l.text ++ [newline], ⟨[], ls.map Typed.read⟩) := by
  have hbytes : (⟨[], (l :: ls).map Typed.read⟩ : Input UInt8).bytes =
      l.text ++ newline :: (ls.map Typed.read).flatMap Read.bytes := by
    simp [Input.bytes, Typed.read]
  have hdrop : (⟨[], l.read :: ls.map Typed.read⟩ : Input UInt8).drop l.read.bytes.length =
      ⟨[], ls.map Typed.read⟩ := by
    rw [drop_of_length_le le_rfl, Nat.sub_self]
    exact dropFrom_of_le (Nat.zero_le _)
  rw [Input.getline, if_neg (by rw [hbytes]; simp), hbytes, firstLine_append l.noNewline]
  exact congrArg (fun s => some (l.text ++ [newline], s)) hdrop

lemma length_answer_le (ls : List Typed) : (answer ls).2.length ≤ ls.length := by
  induction ls with
  | nil => exact le_rfl
  | cons l ls ih =>
      rw [answer]
      split
      · exact ih.trans (Nat.le_succ _)
      · exact Nat.le_succ _

variable {l r : List UInt8}

/-- Blanks in front of a number are read over. -/
lemma integer_blank_append (hl : ∀ c ∈ l, isSpace c = true) (r : List UInt8) :
    integer (l ++ r) = integer r := by
  unfold integer
  rw [List.dropWhile_append_of_pos hl]

lemma sign_append {c : UInt8} (l r : List UInt8) :
    sign (c :: l ++ r) = ((sign (c :: l)).1, (sign (c :: l)).2 ++ r) := by
  simp only [List.cons_append, sign]
  split
  · rfl
  · split
    · rfl
    · rfl

/-- A number does not go on behind a newline. -/
lemma integer_append_newline (hl : ∃ c ∈ l, isSpace c = false) (r : List UInt8) :
    integer (l ++ newline :: r) = ((integer l).1, (integer l).2 ++ newline :: r) := by
  have hne : l.dropWhile isSpace ≠ [] := by
    intro hnil
    obtain ⟨c, hc, hspace⟩ := hl
    have hall := List.dropWhile_eq_nil_iff.mp hnil c hc
    rw [hspace] at hall
    cases hall
  have hskip : (l ++ newline :: r).dropWhile isSpace = l.dropWhile isSpace ++ newline :: r := by
    rw [List.dropWhile_append, if_neg (by rwa [List.isEmpty_iff])]
  obtain ⟨c, m, hm⟩ := List.exists_cons_of_ne_nil hne
  have hdigits (ds : List UInt8) :
      (ds ++ newline :: r).takeWhile isDigit = ds.takeWhile isDigit := by
    rw [List.takeWhile_append]
    split
    · rename_i hall
      rw [List.takeWhile_cons_of_neg (by decide), List.append_nil]
      exact ((List.takeWhile_prefix isDigit).eq_of_length hall).symm
    · rfl
  simp only [integer, hskip, hm, sign_append, hdigits]
  rw [List.drop_append_of_le_length (List.takeWhile_prefix isDigit).length_le]

/-- At a terminal a number is the answer in the lines, and the purge takes the rest of its
line. -/
lemma purge_scanInt_lines (ls : List Typed) :
    (⟨[], ls.map Typed.read⟩ : Input UInt8).scanInt.1 = (answer ls).1 ∧
      (⟨[], ls.map Typed.read⟩ : Input UInt8).scanInt.2.purge =
        ⟨[], (answer ls).2.map Typed.read⟩ := by
  induction ls with
  | nil => exact ⟨rfl, rfl⟩
  | cons l ls ih =>
      have hbytes (rs : List (Read UInt8)) : (⟨[], l.read :: rs⟩ : Input UInt8).bytes =
          l.text ++ newline :: rs.flatMap Read.bytes := by
        simp [Input.bytes, Typed.read]
      have hlen : l.read.bytes.length = l.text.length + 1 := by simp [Typed.read]
      generalize hrs : ls.map Typed.read = rs at ih
      rw [answer, List.map_cons, hrs]
      have hshorter := length_integer_le (rs.flatMap Read.bytes)
      split
      · rename_i hblank
        -- the first read is used up
        have hnumber : integer (⟨[], l.read :: rs⟩ : Input UInt8).bytes =
            integer (rs.flatMap Read.bytes) := by
          rw [hbytes, integer_blank_append (List.all_eq_true.mp hblank)]
          exact integer_blank_append (l := [newline]) (by simp [isSpace, newline]) _
        have hsame : (⟨[], l.read :: rs⟩ : Input UInt8).scanInt =
            (⟨[], rs⟩ : Input UInt8).scanInt := by
          simp only [Input.scanInt, hnumber]
          rw [hbytes, List.length_append, List.length_cons, drop_of_length_le (by omega), hlen]
          congr 3
          simp only [Input.bytes, List.nil_append]
          omega
        rw [hsame]
        exact ih
      · rename_i hsome
        have hnumber := integer_append_newline (l := l.text) (by simpa using hsome)
          (rs.flatMap Read.bytes)
        have hused := length_integer_le l.text
        simp only [Input.scanInt, hbytes, hnumber, List.length_append, List.length_cons]
        rw [peek_drop_cons (by omega), hrs]
        exact ⟨trivial, rfl⟩

end Buffered
