import EltSummer.PhoneBook.Session

/-!
# What the file is worth to the next session

The reader of the storage file and its writers disagree about nearly everything: the array
is sized by dividing the file's length by 90 although a record has 91 bytes, one item as
large as the whole array is read from a file that is shorter, `create` writes five records
however large the array is, and add and remove write all of it.  What makes them agree is
one invariant, `Padded`: the running session's array is the file followed by zeros.  Every
writer re-establishes it, every reader starts from it, and zeros are free records.

It holds in every state that sessions without a growth step reach, across any number of
sessions, so a load at any moment reproduces the running session's book
(`load_reproduces`).
-/

namespace EltSummer
namespace PhoneBook

open Interleaving Block

/-! ## Sizing -/

lemma initialSize_some (file : List UInt8) :
    initialSize (some file) = file.length / 90 + 5 := by
  have hdiv : (file.length : ℤ).tdiv ((strSize : ℤ) * 3) = ((file.length / 90 : ℕ) : ℤ) := by
    rw [Int.tdiv_eq_ediv_of_nonneg (by omega)]
    simp [strSize]
  simp only [initialSize, fileSize, hdiv, memSize]
  omega

/-- Dividing by 90 instead of 91 errs on the safe side: the array holds the whole file. -/
lemma length_le_initialSize (file : List UInt8) :
    file.length ≤ recordSize * initialSize (some file) := by
  rw [initialSize_some, recordSize]
  omega

lemma memSize_le_initialSize (storage : Option (List UInt8)) :
    memSize ≤ initialSize storage := by
  cases storage with
  | none => decide
  | some file =>
      rw [initialSize_some, memSize]
      omega

/-! ## The invariant between file and memory -/

/-- `book` is `file` followed by zeros, and is `size` records long. -/
structure Padded (file book : List UInt8) (size : ℕ) : Prop where
  length : book.length = recordSize * size
  padding : ∃ k, book = file ++ List.replicate k 0

lemma padded_create {storage : Option (List UInt8)} {file : List UInt8}
    (h : createNewEmptyBook (callocBook (initialSize storage)) = some file) :
    Padded file (callocBook (initialSize storage)) (initialSize storage) := by
  obtain ⟨-, rfl⟩ := fwrite_eq_some.mp h
  refine ⟨by simp [callocBook], recordSize * initialSize storage - recordSize * memSize, ?_⟩
  have hle := Nat.mul_le_mul_left recordSize (memSize_le_initialSize storage)
  rw [callocBook, List.take_replicate, Nat.min_eq_left hle, List.replicate_append_replicate,
    Nat.add_sub_cancel' hle]

lemma padded_load {file book : List UInt8}
    (h : loadBookFromStorage (callocBook (initialSize (some file))) (initialSize (some file))
      file = some book) :
    Padded file book (initialSize (some file)) := by
  obtain ⟨hle, rfl⟩ := writeAt_eq_some.mp h
  have hfit := length_le_initialSize file
  have htake : file.take (recordSize * initialSize (some file)) = file :=
    List.take_of_length_le hfit
  refine ⟨?_, recordSize * initialSize (some file) - file.length, ?_⟩
  · rw [htake]
    simp [callocBook]
    omega
  · rw [htake]
    simp [callocBook]

/-- The load of a session never fails for lack of room. -/
lemma exists_load (file : List UInt8) :
    ∃ book, loadBookFromStorage (callocBook (initialSize (some file)))
      (initialSize (some file)) file = some book := by
  refine ⟨_, writeAt_eq_some.mpr ⟨?_, rfl⟩⟩
  simp [callocBook]

/-- The invariant of the run: the running session's array is the padded file. -/
def WrittenThrough (w : World) : Prop :=
  ∀ s, w.session = some s → ∃ file, w.storage = some file ∧ Padded file s.phoneBook s.sizeOfBook

/-- A writer that puts the whole array into the file re-establishes the invariant. -/
lemma padded_written {book file : List UInt8} {size : ℕ}
    (hlen : book.length = recordSize * size) (hfile : file = book.take (recordSize * size)) :
    Padded file book size := by
  refine ⟨hlen, 0, ?_⟩
  rw [hfile, List.take_of_length_le hlen.le]
  simp

lemma writtenThrough_step {w w' : World} {a : Action} (hw : WrittenThrough w)
    (hok : NoGrowth w a) (h : step w a = some w') : WrittenThrough w' := by
  cases moves_of_step h with
  | fail hnone => simp [WrittenThrough]
  | create hnone hfile =>
      rintro s ⟨⟩
      exact ⟨_, rfl, padded_create hfile⟩
  | load hnone hfile hbook =>
      rintro s ⟨⟩
      rw [hfile] at hbook ⊢
      exact ⟨_, rfl, padded_load hbook⟩
  | @keepSize s _ _ _ hs htop hcount hroom =>
      rintro s' ⟨⟩
      exact hw s hs
  | grow hs htop hcount hfull => exact absurd (growthDue_of_count hs hcount hfull) hok
  | @add s _ _ _ _ _ hs hmenu hadd =>
      rintro s' ⟨⟩
      obtain ⟨file, -, hpad⟩ := hw s hs
      obtain ⟨-, hlen, -, hfile⟩ := addNewStringToBook_spec hadd
      exact ⟨_, rfl, padded_written (hlen.trans hpad.length) hfile⟩
  | @remove s _ _ _ _ hs hmenu hremove =>
      rintro s' ⟨⟩
      obtain ⟨file, -, hpad⟩ := hw s hs
      obtain ⟨hlen, -, -, hfile⟩ := removeStringFromBook_spec hremove
      exact ⟨_, rfl, padded_written (hlen.trans hpad.length) hfile⟩
  | @look s _ hs hmenu =>
      rintro s' ⟨⟩
      exact hw s hs
  | stop => simp [WrittenThrough]

/-! ## Two books padded from one file -/

/-- Record `i` of the book is occupied and its bytes are `r`. -/
def Occupied (book : List UInt8) (i : ℕ) (r : List UInt8) : Prop :=
  r = (book.drop (lastNameOff i)).take recordSize ∧ r.length = recordSize ∧
    flagAt book i = some 1

/-- `book'` is `book` as far as the file reaches, zero beyond that, and has the same
occupied records in the same slots. -/
structure Reproduces (file book book' : List UInt8) : Prop where
  bytes : ∀ k < file.length, ∃ c, book[k]? = some c ∧ book'[k]? = some c
  rest : ∀ k, file.length ≤ k → k < book'.length → book'[k]? = some 0
  occupied : ∀ i r, Occupied book i r ↔ Occupied book' i r

lemma getElem?_padded {file book : List UInt8} {size k : ℕ} (h : Padded file book size) :
    (k < file.length → book[k]? = file[k]?) ∧
      (file.length ≤ k → k < book.length → book[k]? = some 0) := by
  obtain ⟨m, rfl⟩ := h.padding
  refine ⟨fun hk => List.getElem?_append_left hk, fun hk hlt => ?_⟩
  rw [List.getElem?_append_right hk, List.getElem?_replicate, if_pos]
  simp only [List.length_append, List.length_replicate] at hlt
  omega

/-- An occupied record of a padded book lies in the file, where any other padding of the
file has it too. -/
lemma occupied_of_padded {file book book' r : List UInt8} {size size' i : ℕ}
    (h : Padded file book size) (h' : Padded file book' size') (hocc : Occupied book i r) :
    Occupied book' i r := by
  obtain ⟨rfl, hlen, hflag⟩ := hocc
  have hwithin : flagOff i < file.length := by
    by_contra hout
    have hlt : flagOff i < book.length := (List.getElem?_eq_some_iff.mp hflag).1
    have hzero := (getElem?_padded h).2 (Nat.le_of_not_lt hout) hlt
    rw [flagAt, hzero] at hflag
    simp at hflag
  have hfit : lastNameOff i + recordSize ≤ file.length := by
    simp only [flagOff, lastNameOff, recordSize, strSize] at *
    omega
  -- both records are the file's own
  have hown : ∀ {b : List UInt8} {m : ℕ}, Padded file b m →
      (b.drop (lastNameOff i)).take recordSize =
        (file.drop (lastNameOff i)).take recordSize := by
    intro b m hb
    obtain ⟨k, rfl⟩ := hb.padding
    rw [List.drop_append_of_le_length (by omega), List.take_append_of_le_length]
    simp only [List.length_drop]
    omega
  refine ⟨?_, hlen, ?_⟩
  · rw [hown h, hown h']
  · rw [flagAt, (getElem?_padded h').1 hwithin, ← (getElem?_padded h).1 hwithin]
    exact hflag

lemma reproduces_of_padded {file book book' : List UInt8} {size size' : ℕ}
    (h : Padded file book size) (h' : Padded file book' size') :
    Reproduces file book book' where
  bytes k hk := ⟨file[k], by rw [(getElem?_padded h).1 hk, List.getElem?_eq_getElem hk],
    by rw [(getElem?_padded h').1 hk, List.getElem?_eq_getElem hk]⟩
  rest _ hk hlt := (getElem?_padded h').2 hk hlt
  occupied _ _ := ⟨occupied_of_padded h h', occupied_of_padded h' h⟩

/-- **Write-through persistence.**  In every state reached by any number of sessions without
a growth step, from any file: if a session is running, a new session that loads the same
file gets a book that reproduces the running one. -/
theorem load_reproduces (storage : Option (List UInt8)) {w : World} {s : Session}
    (h : Reach step NoGrowth ⟨storage, none⟩ w) (hs : w.session = some s) :
    ∃ file s', w.storage = some file ∧
      step { w with session := none } (.run .load true) = some ⟨some file, some s'⟩ ∧
      Reproduces file s.phoneBook s'.phoneBook := by
  have hinv : WrittenThrough w := h.invariant (by simp [WrittenThrough])
    fun _ _ _ hI hok hstep => writtenThrough_step hI hok hstep
  obtain ⟨file, hstorage, hpad⟩ := hinv s hs
  obtain ⟨book, hbook⟩ := exists_load file
  refine ⟨file, ⟨.top, book, initialSize (some file), file.length, []⟩, hstorage, ?_,
    reproduces_of_padded hpad (padded_load hbook)⟩
  simp [step, beginSession, hstorage, hbook]

/-- The book that is loaded again has one occupied record and one that was freed. -/
theorem load_reproduces_removing : ∃ w s file s',
    exec step ⟨none, none⟩ twoEntriesSession = some w ∧ w.session = some s ∧
      (∃ r, Occupied s.phoneBook 1 r) ∧ flagAt s.phoneBook 0 = some 0 ∧ w.storage = some file ∧
      step { w with session := none } (.run .load true) = some ⟨some file, some s'⟩ ∧
      Reproduces file s.phoneBook s'.phoneBook := by
  have hguarded : Guarded step NoGrowth ⟨none, none⟩ twoEntriesSession = true := by
    decide +kernel
  have hrun : ((exec step ⟨none, none⟩ twoEntriesSession).bind World.session).map (fun s =>
      (s.phoneBook.length, flagAt s.phoneBook 0, flagAt s.phoneBook 1)) =
      some (455, some 0, some 1) := by
    decide +kernel
  obtain ⟨w, hw, hreach⟩ := Reach.of_guarded hguarded
  obtain ⟨s, hs, hsummary⟩ := Option.map_eq_some_iff.mp hrun
  rw [hw, Option.bind_some] at hs
  simp only [Prod.mk.injEq] at hsummary
  obtain ⟨hlen, hfree, htaken⟩ := hsummary
  obtain ⟨file, s', hfile, hload, hsame⟩ := load_reproduces none hreach hs
  refine ⟨w, s, file, s', hw, hs, ⟨_, rfl, ?_, htaken⟩, hfree, hfile, hload, hsame⟩
  simp [hlen, lastNameOff, recordSize]

end PhoneBook
end EltSummer
