import EltSummer.Framework.Block
import EltSummer.Framework.CString
import EltSummer.Framework.Loop

/-!
# The phone book in memory and in its file

`struct_17June/phone_book/phone_book_func.c` keeps the book as one array of 91-byte records:
three 30-byte text fields and a flag byte, 1 for an occupied record and 0 for a free one.
Nothing bounds what `scanf("%s")` stores, and the file is the array's bytes as they are, so
the model is the block of bytes itself: the fields, the flags and the file are read off it
by offset, and a token that is longer than its field runs on into whatever comes next.

Every function below has the source's name and takes, besides the source's arguments, what
its environment supplies: the typed tokens and, for `add_new_string_to_book`, the value the
uninitialised `index_for_add` starts with.  A result `none` means an access outside the
array or outside a local buffer.  The prompts, which say nothing about the book, are left
out.
-/

namespace EltSummer
namespace PhoneBook

open Block CString Loop

/-! ## Layout -/

/-- `STR_SIZE`: the bytes of one text field. -/
def strSize : ℕ := 30

/-- `MEM_SIZE`: the records a new book has, and the records added by a reallocation. -/
def memSize : ℕ := 5

/-- `sizeof(Str_On_Book)`. -/
def recordSize : ℕ := 91

/-- The offset of `ptr_to_book[i].last_name`. -/
def lastNameOff (i : ℕ) : ℕ := recordSize * i

/-- The offset of `ptr_to_book[i].first_name`. -/
def firstNameOff (i : ℕ) : ℕ := recordSize * i + strSize

/-- The offset of `ptr_to_book[i].phone_number`. -/
def phoneNumberOff (i : ℕ) : ℕ := recordSize * i + 2 * strSize

/-- The offset of `ptr_to_book[i].flag`. -/
def flagOff (i : ℕ) : ℕ := recordSize * i + 3 * strSize

/-- `ptr_to_book[i].flag`. -/
def flagAt (book : List UInt8) (i : ℕ) : Option UInt8 := book[flagOff i]?

/-- `fwrite(ptr_to_book, count, 1, storage)` into a file just truncated: its new content. -/
def fwrite (book : List UInt8) (count : ℕ) : Option (List UInt8) :=
  if count ≤ book.length then some (book.take count) else none

/-- `FileSize`: the size of a file, -1 when it cannot be opened. -/
def fileSize (storage : Option (List UInt8)) : ℤ :=
  match storage with
  | none => -1
  | some file => file.length

/-! ## Create and load -/

/-- `create_new_empty_book`: the first `MEM_SIZE` records go to the file. -/
def createNewEmptyBook (book : List UInt8) : Option (List UInt8) :=
  fwrite book (recordSize * memSize)

/-- `load_book_from_storage`: one item as large as the whole array is read, and a shorter
file leaves the rest of the array as it is. -/
def loadBookFromStorage (book : List UInt8) (sizeBook : ℕ) (file : List UInt8) :
    Option (List UInt8) :=
  writeAt book 0 (file.take (recordSize * sizeBook))

/-! ## Add -/

/-- The search of `add_new_string_to_book` for a free record, from record `i` on. -/
def findFree (book : List UInt8) : ℕ → ℕ → Option (Option ℕ)
  | 0, _ => some none
  | left + 1, i =>
      (flagAt book i).bind fun flag =>
        if flag = 0 then some (some i) else findFree book left (i + 1)

/-- `index_for_add` is an `unsigned short`: a found index is reduced modulo `2 ^ 16`, and
without one the variable keeps the value it happened to start with. -/
def indexForAdd (uninit : UInt16) (found : Option ℕ) : ℕ :=
  match found with
  | some i => i % 2 ^ 16
  | none => uninit.toNat

/-- The three typed fields of a record. -/
structure Entry where
  lastName : Token
  firstName : Token
  phoneNumber : Token

/-- The stores of `add_new_string_to_book` into record `i`, in the source's order. -/
def storeEntry (book : List UInt8) (i : ℕ) (e : Entry) : Option (List UInt8) :=
  (writeAt book (lastNameOff i) e.lastName.stored).bind fun book =>
    (writeAt book (firstNameOff i) e.firstName.stored).bind fun book =>
      (writeAt book (phoneNumberOff i) e.phoneNumber.stored).bind fun book =>
        writeAt book (flagOff i) [1]

/-- `add_new_string_to_book`: the record it chose, the book and the file after it. -/
def addNewStringToBook (book : List UInt8) (sizeBook : ℕ) (uninit : UInt16) (e : Entry) :
    Option (ℕ × List UInt8 × List UInt8) :=
  (findFree book sizeBook 0).bind fun found =>
    (storeEntry book (indexForAdd uninit found) e).bind fun book' =>
      (fwrite book' (recordSize * sizeBook)).map fun file =>
        (indexForAdd uninit found, book', file)

/-! ## Remove -/

/-- One turn of the loop of `remove_string_from_book`: the book and the `unsigned short`
counter after it. -/
def removeTurn (lastname : List UInt8) (i : ℕ) (s : List UInt8 × UInt16) :
    Option (List UInt8 × UInt16) :=
  (strcmpEq lastname (s.1.drop (lastNameOff i))).bind fun same =>
    if same then (writeAt s.1 (flagOff i) [0]).map fun book => (book, s.2 + 1) else some s

/-- `remove_string_from_book`: the book, the file and the reported count.  The name is read
into `lastname[STR_SIZE]`, which a longer token overruns. -/
def removeStringFromBook (book : List UInt8) (sizeBook : ℕ) (lastname : Token) :
    Option (List UInt8 × List UInt8 × UInt16) :=
  if lastname.bytes.length < strSize then
    (forUpTo sizeBook (removeTurn lastname.bytes) (book, 0)).bind fun s =>
      (fwrite s.1 (recordSize * sizeBook)).map fun file => (s.1, file, s.2)
  else none

/-! ## Show and search -/

/-- A record as `printf` shows it: the three fields, each up to its NUL. -/
def printed (book : List UInt8) (i : ℕ) : Option (List UInt8 × List UInt8 × List UInt8) :=
  (stringAt book (lastNameOff i)).bind fun last =>
    (stringAt book (firstNameOff i)).bind fun first =>
      (stringAt book (phoneNumberOff i)).map fun phone => (last, first, phone)

/-- `output_book_onDisplay`: the records shown, in order. -/
def outputBookOnDisplay (book : List UInt8) (sizeBook : ℕ) :
    Option (List (List UInt8 × List UInt8 × List UInt8)) :=
  forUpTo sizeBook (fun i shown =>
    (flagAt book i).bind fun flag =>
      if flag = 1 then (printed book i).map fun r => shown ++ [r] else some shown) []

/-- `search_string_with_lastname`: the records shown, in order. -/
def searchStringWithLastname (book : List UInt8) (sizeBook : ℕ) (lastname : Token) :
    Option (List (List UInt8 × List UInt8 × List UInt8)) :=
  if lastname.bytes.length < strSize then
    forUpTo sizeBook (fun i shown =>
      (strcmpEq lastname.bytes (book.drop (lastNameOff i))).bind fun same =>
        if same then (printed book i).map fun r => shown ++ [r] else some shown) []
  else none

/-! ## Growth -/

/-- The count at the head of `main`'s loop. -/
def countOfUsingStrings (book : List UInt8) (sizeOfBook : ℕ) : Option ℕ :=
  forUpTo sizeOfBook (fun i count =>
    (flagAt book i).map fun flag => if flag = 1 then count + 1 else count) 0

/-- `realloc` to `newSize` bytes: old contents are kept, new bytes are whatever they are. -/
def realloc (old : List UInt8) (newSize : ℕ) (fresh : ℕ → UInt8) : List UInt8 :=
  (List.range newSize).map fun k => (old[k]?).getD (fresh k)

/-- `memory_reallocation`: the block it returns and the size it stores through
`ptr_to_sizeofbook`. -/
def memoryReallocation (oldBook : List UInt8) (sizeOfBook : ℕ) (fresh : ℕ → UInt8) :
    List UInt8 × ℕ :=
  (realloc oldBook (recordSize * (sizeOfBook + memSize)) fresh, sizeOfBook + memSize)

/-! ## What the functions keep -/

lemma fwrite_eq_some {book file : List UInt8} {count : ℕ} :
    fwrite book count = some file ↔ count ≤ book.length ∧ file = book.take count := by
  unfold fwrite
  split
  · rename_i h
    simp [h, eq_comm]
  · rename_i h
    simp [h]

/-- The four stores of an entry, one after the other. -/
lemma storeEntry_eq_some {book book' : List UInt8} {i : ℕ} {e : Entry}
    (h : storeEntry book i e = some book') :
    ∃ b₁ b₂ b₃, writeAt book (lastNameOff i) e.lastName.stored = some b₁ ∧
      writeAt b₁ (firstNameOff i) e.firstName.stored = some b₂ ∧
      writeAt b₂ (phoneNumberOff i) e.phoneNumber.stored = some b₃ ∧
      writeAt b₃ (flagOff i) [1] = some book' := by
  obtain ⟨b₁, h₁, h⟩ := Option.bind_eq_some_iff.mp h
  obtain ⟨b₂, h₂, h⟩ := Option.bind_eq_some_iff.mp h
  obtain ⟨b₃, h₃, h₄⟩ := Option.bind_eq_some_iff.mp h
  exact ⟨b₁, b₂, b₃, h₁, h₂, h₃, h₄⟩

lemma length_storeEntry {book book' : List UInt8} {i : ℕ} {e : Entry}
    (h : storeEntry book i e = some book') : book'.length = book.length := by
  obtain ⟨b₁, b₂, b₃, h₁, h₂, h₃, h₄⟩ := storeEntry_eq_some h
  rw [length_writeAt h₄, length_writeAt h₃, length_writeAt h₂, length_writeAt h₁]

/-- An add keeps the array's length and writes its first `sizeBook` records to the file. -/
lemma addNewStringToBook_spec {book book' file : List UInt8} {sizeBook i : ℕ}
    {uninit : UInt16} {e : Entry}
    (h : addNewStringToBook book sizeBook uninit e = some (i, book', file)) :
    storeEntry book i e = some book' ∧ book'.length = book.length ∧
      recordSize * sizeBook ≤ book'.length ∧ file = book'.take (recordSize * sizeBook) := by
  obtain ⟨found, -, h⟩ := Option.bind_eq_some_iff.mp h
  obtain ⟨b, hstore, h⟩ := Option.bind_eq_some_iff.mp h
  obtain ⟨f, hwrite, h⟩ := Option.map_eq_some_iff.mp h
  simp only [Prod.mk.injEq] at h
  obtain ⟨rfl, rfl, rfl⟩ := h
  obtain ⟨hle, hfile⟩ := fwrite_eq_some.mp hwrite
  exact ⟨hstore, length_storeEntry hstore, hle, hfile⟩

/-- A turn of the removal keeps the length, and clears the flag it touches. -/
lemma removeTurn_spec {lastname : List UInt8} {i : ℕ} {s s' : List UInt8 × UInt16}
    (h : removeTurn lastname i s = some s') :
    s'.1.length = s.1.length ∧
      ∀ k, flagAt s'.1 k = flagAt s.1 k ∨ flagAt s'.1 k = some 0 := by
  obtain ⟨same, -, h⟩ := Option.bind_eq_some_iff.mp h
  cases same with
  | false =>
      obtain rfl : s = s' := by simpa using h
      exact ⟨rfl, fun k => Or.inl rfl⟩
  | true =>
      obtain ⟨b, hb, rfl⟩ := Option.map_eq_some_iff.mp h
      refine ⟨length_writeAt hb, fun k => ?_⟩
      by_cases hk : flagOff k = flagOff i
      · refine Or.inr ?_
        rw [flagAt, getElem?_writeAt_of_mem hb (by omega) (by simp; omega), hk]
        simp
      · exact Or.inl (getElem?_writeAt_of_not_mem hb (by simp; omega))

/-- A removal keeps the array's length, clears flags only, and writes the first `sizeBook`
records to the file. -/
lemma removeStringFromBook_spec {book book' file : List UInt8} {sizeBook : ℕ}
    {lastname : Token} {count : UInt16}
    (h : removeStringFromBook book sizeBook lastname = some (book', file, count)) :
    book'.length = book.length ∧
      (∀ k, flagAt book' k = flagAt book k ∨ flagAt book' k = some 0) ∧
      recordSize * sizeBook ≤ book'.length ∧ file = book'.take (recordSize * sizeBook) := by
  unfold removeStringFromBook at h
  split at h
  · obtain ⟨s, hloop, h⟩ := Option.bind_eq_some_iff.mp h
    obtain ⟨f, hwrite, h⟩ := Option.map_eq_some_iff.mp h
    simp only [Prod.mk.injEq] at h
    obtain ⟨rfl, rfl, rfl⟩ := h
    obtain ⟨hle, hfile⟩ := fwrite_eq_some.mp hwrite
    have hinv := forUpTo_invariant
      (I := fun _ u => u.1.length = book.length ∧
        ∀ k, flagAt u.1 k = flagAt book k ∨ flagAt u.1 k = some 0)
      ⟨rfl, fun k => Or.inl rfl⟩ (fun i _ u v hu hv => by
        obtain ⟨hlen, hflag⟩ := removeTurn_spec hv
        refine ⟨hlen.trans hu.1, fun k => ?_⟩
        rcases hflag k with hk | hk
        · rw [hk]
          exact hu.2 k
        · exact Or.inr hk) hloop
    exact ⟨hinv.1, hinv.2, hle, hfile⟩
  · simp at h

end PhoneBook
end EltSummer
