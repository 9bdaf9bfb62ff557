import EltSummer.PhoneBook.Views

/-!
# Does an add store where it should?

`add_new_string_to_book` looks for the first record with flag 0 and stores the three words
there.  The search counts in an `int`, the record found is remembered in an `unsigned short`,
so in a book of more than 65536 records the words can go to a record that is occupied
(`stored_over_an_occupied_record`).

`getElem?_storeEntry` says of every byte of the array what an add makes of it, however long
the words are.  From it, `addNewStringToBook_iff`: words that fit go to the first free record
exactly when its index is an `unsigned short`.
-/

namespace EltSummer
namespace PhoneBook

open Block CString

/-! ## The search -/

/-- Record `i` is the first one with flag 0. -/
structure FirstFree (book : List UInt8) (i : ℕ) : Prop where
  free : flagAt book i = some 0
  lowest : ∀ k < i, flagAt book k ≠ some 0

lemma findFree_eq {book : List UInt8} {i left j : ℕ} (h : FirstFree book i) (hj : j ≤ i)
    (hleft : i < j + left) : findFree book left j = some (some i) := by
  induction left generalizing j with
  | zero => omega
  | succ left ih =>
      by_cases hji : j = i
      · simp [findFree, hji, h.free]
      · have hlt : j < i := by omega
        have hin : flagOff i < book.length := (List.getElem?_eq_some_iff.mp h.free).1
        obtain ⟨flag, hflag⟩ : ∃ flag, flagAt book j = some flag := by
          refine ⟨_, List.getElem?_eq_getElem ?_⟩
          simp only [flagOff, recordSize] at *
          omega
        have hne : flag ≠ 0 := fun h0 => h.lowest j hlt (h0 ▸ hflag)
        rw [findFree, hflag, Option.bind_some, if_neg hne]
        exact ih hlt (by omega)

/-! ## The bytes an add stores -/

/-- What the stores of an entry into record `i` leave at position `q`. -/
def Entry.storedAt (e : Entry) (i q : ℕ) : Option UInt8 :=
  (laid [1] (flagOff i) q).or <| (laid e.phoneNumber.stored (phoneNumberOff i) q).or <|
    (laid e.firstName.stored (firstNameOff i) q).or (laid e.lastName.stored (lastNameOff i) q)

/-- Every byte of the array after the four stores. -/
lemma getElem?_storeEntry {book book' : List UInt8} {i : ℕ} {e : Entry}
    (h : storeEntry book i e = some book') (q : ℕ) :
    book'[q]? = (e.storedAt i q).or book[q]? := by
  obtain ⟨b₁, b₂, b₃, h₁, h₂, h₃, h₄⟩ := storeEntry_eq_some h
  rw [getElem?_writeAt h₄, getElem?_writeAt h₃, getElem?_writeAt h₂, getElem?_writeAt h₁,
    Entry.storedAt]
  simp only [Option.or_assoc]

/-- The stores succeed when the three words and the flag lie in the array. -/
lemma exists_storeEntry {book : List UInt8} {i : ℕ} {e : Entry}
    (hlast : lastNameOff i + e.lastName.bytes.length < book.length)
    (hfirst : firstNameOff i + e.firstName.bytes.length < book.length)
    (hphone : phoneNumberOff i + e.phoneNumber.bytes.length < book.length)
    (hflag : flagOff i < book.length) : ∃ book', storeEntry book i e = some book' := by
  obtain ⟨b₁, h₁⟩ : ∃ b, writeAt book (lastNameOff i) e.lastName.stored = some b :=
    ⟨_, writeAt_eq_some.mpr ⟨by simp; omega, rfl⟩⟩
  have l₁ := length_writeAt h₁
  obtain ⟨b₂, h₂⟩ : ∃ b, writeAt b₁ (firstNameOff i) e.firstName.stored = some b :=
    ⟨_, writeAt_eq_some.mpr ⟨by simp; omega, rfl⟩⟩
  have l₂ := length_writeAt h₂
  obtain ⟨b₃, h₃⟩ : ∃ b, writeAt b₂ (phoneNumberOff i) e.phoneNumber.stored = some b :=
    ⟨_, writeAt_eq_some.mpr ⟨by simp; omega, rfl⟩⟩
  have l₃ := length_writeAt h₃
  exact ⟨_, by
    rw [storeEntry, h₁, Option.bind_some, h₂, Option.bind_some, h₃, Option.bind_some]
    exact writeAt_eq_some.mpr ⟨by simp; omega, rfl⟩⟩

/-- Words that fit stay in their record. -/
lemma storedAt_eq_none {e : Entry} (he : FitsFields e) {i q : ℕ}
    (hq : q < recordSize * i ∨ recordSize * (i + 1) ≤ q) : e.storedAt i q = none := by
  obtain ⟨hlast, hfirst, hphone⟩ := he
  simp only [Entry.storedAt, Option.or_eq_none_iff, laid_eq_none_iff, Token.length_stored,
    List.length_singleton, recordSize, strSize, lastNameOff, firstNameOff, phoneNumberOff,
    flagOff] at *
  omega

/-- The flag goes up, however long the words are. -/
lemma flagAt_storeEntry_self {book book' : List UInt8} {i : ℕ} {e : Entry}
    (h : storeEntry book i e = some book') : flagAt book' i = some 1 := by
  have htop : laid [(1 : UInt8)] (flagOff i) (flagOff i) = some 1 := laid_add _ _ 0
  rw [flagAt, getElem?_storeEntry h, Entry.storedAt, htop, Option.some_or, Option.some_or]

section Words

variable {book book' : List UInt8} {i k : ℕ} {e : Entry}

/-- The bytes of the last name that the first name is not stored over. -/
lemma getElem?_lastName (h : storeEntry book i e = some book') (hk : k ≤ e.lastName.bytes.length)
    (hlt : k < strSize) : book'[lastNameOff i + k]? = e.lastName.stored[k]? := by
  have hfirst : lastNameOff i + k < firstNameOff i := by
    simp only [firstNameOff, lastNameOff]
    omega
  have hphone : lastNameOff i + k < phoneNumberOff i := by
    simp only [phoneNumberOff, lastNameOff]
    omega
  have hflag : lastNameOff i + k < flagOff i := by
    simp only [flagOff, lastNameOff]
    omega
  obtain ⟨c, hc⟩ := e.lastName.exists_stored hk
  rw [getElem?_storeEntry h, Entry.storedAt, laid_of_lt hflag, laid_of_lt hphone,
    laid_of_lt hfirst, laid_add, hc]
  rfl

/-- The bytes of the first name that the phone number is not stored over. -/
lemma getElem?_firstName (h : storeEntry book i e = some book')
    (hk : k ≤ e.firstName.bytes.length) (hlt : k < strSize) :
    book'[firstNameOff i + k]? = e.firstName.stored[k]? := by
  have hphone : firstNameOff i + k < phoneNumberOff i := by
    simp only [phoneNumberOff, firstNameOff]
    omega
  have hflag : firstNameOff i + k < flagOff i := by
    simp only [flagOff, firstNameOff]
    omega
  obtain ⟨c, hc⟩ := e.firstName.exists_stored hk
  rw [getElem?_storeEntry h, Entry.storedAt, laid_of_lt hflag, laid_of_lt hphone, laid_add, hc]
  rfl

/-- The bytes of the phone number, but for the one under the flag. -/
lemma getElem?_phoneNumber (h : storeEntry book i e = some book')
    (hk : k ≤ e.phoneNumber.bytes.length) (hne : k ≠ strSize) :
    book'[phoneNumberOff i + k]? = e.phoneNumber.stored[k]? := by
  have hflag : laid [(1 : UInt8)] (flagOff i) (phoneNumberOff i + k) = none := by
    rw [laid_eq_none_iff, List.length_singleton]
    simp only [flagOff, phoneNumberOff]
    omega
  obtain ⟨c, hc⟩ := e.phoneNumber.exists_stored hk
  rw [getElem?_storeEntry h, Entry.storedAt, hflag, laid_add, hc]
  rfl

/-- An entry whose words fit is read back from its record. -/
lemma printed_storeEntry (he : FitsFields e) (h : storeEntry book i e = some book') :
    printed book' i = some (e.lastName.bytes, e.firstName.bytes, e.phoneNumber.bytes) := by
  obtain ⟨hlast, hfirst, hphone⟩ := he
  rw [printed, stringAt_of_stored fun k hk => getElem?_lastName h hk (by omega),
    stringAt_of_stored fun k hk => getElem?_firstName h hk (by omega),
    stringAt_of_stored fun k hk => getElem?_phoneNumber h hk (by omega)]
  rfl

end Words

/-! ## Where the entry goes -/

/-- The add stores the entry in record `i`, raises its flag, changes no other record, and
the file gets the book. -/
structure StoresAt (book : List UInt8) (i : ℕ) (e : Entry) (book' file : List UInt8) : Prop where
  length : book'.length = book.length
  words : printed book' i = some (e.lastName.bytes, e.firstName.bytes, e.phoneNumber.bytes)
  flag : flagAt book' i = some 1
  others : ∀ q, q < recordSize * i ∨ recordSize * (i + 1) ≤ q → book'[q]? = book[q]?
  file : file = book'

variable {book : List UInt8} {sizeBook i : ℕ} {e : Entry}

/-- An add to a book with a free record. -/
lemma addNewStringToBook_eq (hlen : book.length = recordSize * sizeBook) (hi : i < sizeBook)
    (h : FirstFree book i) (uninit : UInt16) :
    addNewStringToBook book sizeBook uninit e =
      (storeEntry book (i % 2 ^ 16) e).map fun book' => (i % 2 ^ 16, book', book') := by
  rw [addNewStringToBook, findFree_eq h (Nat.zero_le i) (by omega), Option.bind_some, indexForAdd]
  cases hstore : storeEntry book (i % 2 ^ 16) e with
  | none => rfl
  | some book' =>
      have hlen' : book'.length = recordSize * sizeBook := (length_storeEntry hstore).trans hlen
      have hfile : fwrite book' (recordSize * sizeBook) = some book' :=
        fwrite_eq_some.mpr ⟨hlen'.ge, (List.take_of_length_le hlen'.le).symm⟩
      rw [Option.bind_some, hfile]
      rfl

/-- The stores of words that fit succeed in every record of the book. -/
lemma exists_storeEntry_of_fits (hlen : book.length = recordSize * sizeBook) {j : ℕ}
    (hj : j < sizeBook) (he : FitsFields e) : ∃ book', storeEntry book j e = some book' := by
  obtain ⟨hlast, hfirst, hphone⟩ := he
  refine exists_storeEntry ?_ ?_ ?_ ?_
  all_goals
    simp only [lastNameOff, firstNameOff, phoneNumberOff, flagOff, recordSize, strSize] at *
    omega

/-- Another record keeps its flag. -/
lemma flagAt_of_others {book' : List UInt8} {j k : ℕ} (hk : k ≠ j)
    (hsame : ∀ q, q < recordSize * j ∨ recordSize * (j + 1) ≤ q → book'[q]? = book[q]?) :
    flagAt book' k = flagAt book k := by
  refine hsame _ ?_
  simp only [flagOff, recordSize, strSize]
  omega

/-- The add does what it is for. -/
def AddsTo (book : List UInt8) (sizeBook i : ℕ) (e : Entry) (uninit : UInt16) : Prop :=
  ∃ j book' file, addNewStringToBook book sizeBook uninit e = some (j, book', file) ∧
    StoresAt book i e book' file

/-- Words that fit leave the other records alone. -/
lemma storeEntry_others {book' : List UInt8} {j : ℕ} (he : FitsFields e)
    (h : storeEntry book j e = some book') :
    ∀ q, q < recordSize * j ∨ recordSize * (j + 1) ≤ q → book'[q]? = book[q]? :=
  fun q hq => by rw [getElem?_storeEntry h, storedAt_eq_none he hq, Option.none_or]

/-- A free record that is not the one chosen stays free. -/
lemma AddsTo.lt {uninit : UInt16} (hadds : AddsTo book sizeBook i e uninit)
    (hlen : book.length = recordSize * sizeBook) (hi : i < sizeBook) (h : FirstFree book i)
    (he : FitsFields e) : i < 2 ^ 16 := by
  obtain ⟨j, book', file, hadd, hat⟩ := hadds
  rw [addNewStringToBook_eq hlen hi h] at hadd
  obtain ⟨b, hstore, hb⟩ := Option.map_eq_some_iff.mp hadd
  obtain ⟨rfl, rfl, rfl⟩ : i % 2 ^ 16 = j ∧ b = book' ∧ b = file := by simpa using hb
  by_contra hbig
  have hne : i ≠ i % 2 ^ 16 := by omega
  have hflag := flagAt_of_others hne (storeEntry_others he hstore)
  rw [hat.flag, h.free] at hflag
  simp at hflag

/-- **Which books an add serves.**  Words that fit go to the first free record, and the book
to the file, exactly when the record's index is an `unsigned short`. -/
theorem addNewStringToBook_iff (hlen : book.length = recordSize * sizeBook) (hi : i < sizeBook)
    (h : FirstFree book i) (he : FitsFields e) (uninit : UInt16) :
    AddsTo book sizeBook i e uninit ↔ i < 2 ^ 16 := by
  refine ⟨fun hadds => hadds.lt hlen hi h he, fun hsmall => ?_⟩
  obtain ⟨book', hstore⟩ := exists_storeEntry_of_fits hlen hi he
  refine ⟨i, book', book', ?_, ?_⟩
  · rw [addNewStringToBook_eq hlen hi h, Nat.mod_eq_of_lt hsmall, hstore]
    rfl
  · exact ⟨length_storeEntry hstore, printed_storeEntry he hstore, flagAt_storeEntry_self hstore,
      storeEntry_others he hstore, rfl⟩

theorem addNewStringToBook_iff_new_book :
    AddsTo (callocBook 5) 5 0 shortEntry 0 ↔ 0 < 2 ^ 16 :=
  addNewStringToBook_iff (length_callocBook 5) (by decide) ⟨by decide, by simp⟩
    ⟨by decide, by decide, by decide⟩ 0

/-- A book of 65537 records: all but the last are occupied, with the word `a` three times. -/
def crowdedBook : List UInt8 :=
  (List.range (recordSize * 65537)).map fun q =>
    if recordSize * 65536 ≤ q then 0
    else if q % recordSize = 3 * strSize then 1
    else if q % recordSize % strSize = 0 then 97 else 0

lemma flagAt_crowdedBook {k : ℕ} (hk : k < 65537) :
    flagAt crowdedBook k = some (if k = 65536 then 0 else 1) := by
  have hin : flagOff k < recordSize * 65537 := by
    simp only [flagOff, recordSize, strSize]
    omega
  have hmod : flagOff k % recordSize = 3 * strSize := by
    simp only [flagOff, recordSize, strSize]
    omega
  have hlast : recordSize * 65536 ≤ flagOff k ↔ k = 65536 := by
    simp only [flagOff, recordSize, strSize]
    omega
  rw [flagAt, crowdedBook, List.getElem?_map, List.getElem?_range hin, Option.map_some, hmod,
    if_pos rfl]
  simp only [hlast]

/-- Its free record is the 65537th, and an add stores over the first. -/
theorem stored_over_an_occupied_record :
    ¬ ∀ (book : List UInt8) (sizeBook i : ℕ) (e : Entry) (uninit : UInt16),
      book.length = recordSize * sizeBook → i < sizeBook → FirstFree book i → FitsFields e →
        AddsTo book sizeBook i e uninit := by
  intro hclaim
  have hlen : crowdedBook.length = recordSize * 65537 := by simp [crowdedBook]
  have hfree : FirstFree crowdedBook 65536 := by
    refine ⟨by rw [flagAt_crowdedBook (by decide), if_pos rfl], fun k hk => ?_⟩
    rw [flagAt_crowdedBook (by omega), if_neg (by omega)]
    simp
  have hfits : FitsFields shortEntry := ⟨by decide, by decide, by decide⟩
  have hadds := hclaim _ _ _ shortEntry 0 hlen (by decide) hfree hfits
  have hlt := hadds.lt hlen (by decide) hfree hfits
  omega

end PhoneBook
end EltSummer
