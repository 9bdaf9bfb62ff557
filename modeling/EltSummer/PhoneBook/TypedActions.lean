import EltSummer.Framework.Scanf
import EltSummer.PhoneBook.Views

/-!
# The actions of the phone book on what is typed

`add_new_string_to_book`, `remove_string_from_book` and `search_string_with_lastname` from the
unread input on.  `scanf("%s")` stores a word of any length, and nothing where no word is left:
then a field of the record keeps what it held, and `lastname` holds what happened to be in its 30
bytes.  Where the words are there, these are the functions of `Book` (`addTyped_eq`,
`removeTyped_eq`, `searchTyped_eq`).

Each action has a condition on what it starts from, which says that every word stays in its block
and every string that is compared or printed ends in one (`AddStays`, `RemoveStays`, `ShowStays`,
`SearchStays`).  It is exactly when the action has a result.
-/

namespace EltSummer
namespace PhoneBook

open Block CString Loop Scanf

/-! ## The functions -/

/-- `add_new_string_to_book`: the record it chose, the book and the file after it.  `words 3` is
what it leaves of the input. -/
def addTyped (book : List UInt8) (sizeBook : ℕ) (uninit : UInt16) (input : List UInt8) :
    Option (ℕ × List UInt8 × List UInt8) :=
  (findFree book sizeBook 0).bind fun found =>
    let i := indexForAdd uninit found
    (wordInto book (lastNameOff i) input).bind fun book =>
      (wordInto book (firstNameOff i) (words 1 input)).bind fun book =>
        (wordInto book (phoneNumberOff i) (words 2 input)).bind fun book =>
          (writeAt book (flagOff i) [1]).bind fun book =>
            (fwrite book (recordSize * sizeBook)).map fun file => (i, book, file)

/-- One turn of the loop of `remove_string_from_book`, with all of `lastname`. -/
def removeTypedTurn (lastname : List UInt8) (i : ℕ) (s : List UInt8 × UInt16) :
    Option (List UInt8 × UInt16) :=
  (strcmpMem lastname (s.1.drop (lastNameOff i))).bind fun same =>
    if same then (writeAt s.1 (flagOff i) [0]).map fun book => (book, s.2 + 1) else some s

/-- `remove_string_from_book`: the book, the file and the reported count.  `uninit` is what
`lastname` holds before. -/
def removeTyped (book : List UInt8) (sizeBook : ℕ) (uninit input : List UInt8) :
    Option (List UInt8 × List UInt8 × UInt16) :=
  (wordInto uninit 0 input).bind fun lastname =>
    (forUpTo sizeBook (removeTypedTurn lastname) (book, 0)).bind fun s =>
      (fwrite s.1 (recordSize * sizeBook)).map fun file => (s.1, file, s.2)

/-- `search_string_with_lastname`: the records shown, in order. -/
def searchTyped (book : List UInt8) (sizeBook : ℕ) (uninit input : List UInt8) :
    Option (List (List UInt8 × List UInt8 × List UInt8)) :=
  (wordInto uninit 0 input).bind fun lastname =>
    forUpTo sizeBook (fun i shown =>
      (strcmpMem lastname (book.drop (lastNameOff i))).bind fun same =>
        if same then (printed book i).map fun r => shown ++ [r] else some shown) []

/-! ## The conditions -/

/-- The record an add writes into is one of the book, and the three words stay in the array. -/
def AddStays (book : List UInt8) (sizeBook : ℕ) (uninit : UInt16) (input : List UInt8) : Prop :=
  ∀ found ∈ findFree book sizeBook 0,
    Room book.length (lastNameOff (indexForAdd uninit found)) input ∧
      Room book.length (firstNameOff (indexForAdd uninit found)) (words 1 input) ∧
      Room book.length (phoneNumberOff (indexForAdd uninit found)) (words 2 input) ∧
      indexForAdd uninit found < sizeBook

/-- The word fits into `lastname`, and no `strcmp` leaves `lastname` or the array. -/
def RemoveStays (book : List UInt8) (sizeBook : ℕ) (uninit input : List UInt8) : Prop :=
  Room strSize 0 input ∧ ∀ lastname ∈ wordInto uninit 0 input, ∀ i < sizeBook,
    (strcmpMem lastname (book.drop (lastNameOff i))).isSome

/-- The records that are shown can be printed. -/
def ShowStays (book : List UInt8) (sizeBook : ℕ) : Prop :=
  ∀ i < sizeBook, flagAt book i = some 1 → (printed book i).isSome

/-- The same as for a removal, and the records that are found can be printed. -/
def SearchStays (book : List UInt8) (sizeBook : ℕ) (uninit input : List UInt8) : Prop :=
  RemoveStays book sizeBook uninit input ∧ ∀ lastname ∈ wordInto uninit 0 input, ∀ i < sizeBook,
    strcmpMem lastname (book.drop (lastNameOff i)) = some true → (printed book i).isSome

variable {book lastname input uninit : List UInt8} {sizeBook : ℕ}

/-! ## Adding -/

lemma exists_findFree {left j : ℕ} (h : recordSize * (j + left) ≤ book.length) :
    ∃ found, findFree book left j = some found := by
  induction left generalizing j with
  | zero => exact ⟨none, rfl⟩
  | succ left ih =>
      obtain ⟨flag, hflag⟩ : ∃ flag, flagAt book j = some flag :=
        ⟨_, List.getElem?_eq_getElem (by simp only [flagOff, recordSize, strSize] at *; omega)⟩
      rw [findFree, hflag, Option.bind_some]
      split
      · exact ⟨_, rfl⟩
      · exact ih (by rwa [← Nat.add_assoc, Nat.add_right_comm] at h)

/-- An add has a result exactly when it stays in the array. -/
lemma addTyped_isSome_iff (hlen : book.length = recordSize * sizeBook) {uninit : UInt16} :
    (addTyped book sizeBook uninit input).isSome ↔ AddStays book sizeBook uninit input := by
  obtain ⟨found, hfound⟩ : ∃ found, findFree book sizeBook 0 = some found :=
    exists_findFree (by rw [hlen, Nat.zero_add])
  unfold addTyped AddStays
  rw [hfound, Option.bind_some]
  simp only [Option.mem_def, Option.some.injEq, forall_eq']
  generalize indexForAdd uninit found = i
  have hflag : flagOff i + 1 ≤ book.length ↔ i < sizeBook := by
    rw [hlen]
    simp only [flagOff, recordSize, strSize]
    omega
  rw [isSome_bind_iff, wordInto_isSome_iff]
  intro b₁ h₁
  rw [isSome_bind_iff, wordInto_isSome_iff, length_wordInto h₁]
  intro b₂ h₂
  rw [isSome_bind_iff, wordInto_isSome_iff, length_wordInto h₂, length_wordInto h₁]
  intro b₃ h₃
  have hlast : b₃.length = book.length :=
    (length_wordInto h₃).trans ((length_wordInto h₂).trans (length_wordInto h₁))
  rw [isSome_bind_iff (P := True), writeAt_isSome_iff, hlast, and_true]
  · exact hflag
  intro b₄ h₄
  have hall : recordSize * sizeBook ≤ b₄.length := by rw [length_writeAt h₄, hlast, hlen]
  simp [fwrite, hall]

lemma length_addTyped {uninit : UInt16} {r : ℕ × List UInt8 × List UInt8}
    (h : addTyped book sizeBook uninit input = some r) : r.2.1.length = book.length := by
  obtain ⟨found, -, h⟩ := Option.bind_eq_some_iff.mp h
  obtain ⟨b₁, h₁, h⟩ := Option.bind_eq_some_iff.mp h
  obtain ⟨b₂, h₂, h⟩ := Option.bind_eq_some_iff.mp h
  obtain ⟨b₃, h₃, h⟩ := Option.bind_eq_some_iff.mp h
  obtain ⟨b₄, h₄, h⟩ := Option.bind_eq_some_iff.mp h
  obtain ⟨file, -, rfl⟩ := Option.map_eq_some_iff.mp h
  rw [length_writeAt h₄, length_wordInto h₃, length_wordInto h₂, length_wordInto h₁]

/-- **An add that reads its three words** is the add of that entry. -/
theorem addTyped_eq {e : Entry} {uninit : UInt16}
    (hlast : (word input).1 = some e.lastName.bytes)
    (hfirst : (word (words 1 input)).1 = some e.firstName.bytes)
    (hphone : (word (words 2 input)).1 = some e.phoneNumber.bytes) :
    addTyped book sizeBook uninit input = addNewStringToBook book sizeBook uninit e := by
  unfold addTyped addNewStringToBook storeEntry
  simp only [wordInto_of_word hlast, wordInto_of_word hfirst, wordInto_of_word hphone,
    Option.bind_assoc, Token.stored]

/-! ## Removing -/

/-- A turn clears a flag at most, which lies in front of the records still to be looked at. -/
lemma removeTypedTurn_frame {n i : ℕ} {s s' : List UInt8 × UInt16}
    (h : removeTypedTurn lastname i s = some s') (hi : i < n) :
    s'.1.length = s.1.length ∧ s'.1.drop (lastNameOff n) = s.1.drop (lastNameOff n) := by
  obtain ⟨same, -, h⟩ := Option.bind_eq_some_iff.mp h
  cases same with
  | false =>
      obtain rfl : s = s' := by simpa using h
      exact ⟨rfl, rfl⟩
  | true =>
      obtain ⟨b, hb, rfl⟩ := Option.map_eq_some_iff.mp h
      refine ⟨length_writeAt hb, drop_writeAt hb ?_⟩
      simp only [flagOff, lastNameOff, recordSize, strSize, List.length_singleton]
      omega

/-- Before turn `i` of a removal: from record `i` on the array is what it was. -/
def Untouched (book : List UInt8) (i : ℕ) (s : List UInt8 × UInt16) : Prop :=
  s.1.length = book.length ∧ ∀ n ≥ i, s.1.drop (lastNameOff n) = book.drop (lastNameOff n)

lemma untouched_zero (book : List UInt8) : Untouched book 0 (book, 0) := ⟨rfl, fun _ _ => rfl⟩

lemma Untouched.turn {i : ℕ} {s s' : List UInt8 × UInt16} (hs : Untouched book i s)
    (h : removeTypedTurn lastname i s = some s') : Untouched book (i + 1) s' := by
  refine ⟨(removeTypedTurn_frame h (Nat.lt_succ_self i)).1.trans hs.1, fun n hn => ?_⟩
  exact (removeTypedTurn_frame h hn).2.trans (hs.2 n (Nat.le_of_succ_le hn))

lemma untouched_of_loop {n : ℕ} {s : List UInt8 × UInt16}
    (h : forUpTo n (removeTypedTurn lastname) (book, 0) = some s) : Untouched book n s :=
  forUpTo_invariant (untouched_zero book) (fun _ _ _ _ hI hturn => hI.turn hturn) h

/-- A turn has a result if its `strcmp` has one. -/
lemma Untouched.exists_turn {i : ℕ} {s : List UInt8 × UInt16} (hs : Untouched book i s)
    (hlen : book.length = recordSize * sizeBook) (hi : i < sizeBook)
    (hcompared : (strcmpMem lastname (book.drop (lastNameOff i))).isSome) :
    ∃ s', removeTypedTurn lastname i s = some s' ∧ Untouched book (i + 1) s' := by
  obtain ⟨same, hsame⟩ := Option.isSome_iff_exists.mp hcompared
  have hflag : (writeAt s.1 (flagOff i) [0]).isSome := by
    rw [writeAt_isSome_iff, hs.1, hlen]
    simp only [flagOff, recordSize, strSize, List.length_singleton]
    omega
  obtain ⟨b, hb⟩ := Option.isSome_iff_exists.mp hflag
  obtain ⟨s', hs'⟩ : ∃ s', removeTypedTurn lastname i s = some s' := by
    rw [removeTypedTurn, hs.2 i le_rfl, hsame, Option.bind_some, hb]
    cases same with
    | false => exact ⟨_, rfl⟩
    | true => exact ⟨_, rfl⟩
  exact ⟨s', hs', hs.turn hs'⟩

/-- The loop has a result exactly when every `strcmp` has one. -/
lemma removeTyped_loop_isSome_iff (hlen : book.length = recordSize * sizeBook) :
    (forUpTo sizeBook (removeTypedTurn lastname) (book, 0)).isSome ↔
      ∀ i < sizeBook, (strcmpMem lastname (book.drop (lastNameOff i))).isSome := by
  constructor
  · intro h i hi
    obtain ⟨s, hs⟩ := Option.isSome_iff_exists.mp h
    obtain ⟨u, v, hu, hv⟩ := exists_turn hs hi
    obtain ⟨same, hsame, -⟩ := Option.bind_eq_some_iff.mp hv
    rw [← (untouched_of_loop hu).2 i le_rfl, hsame]
    rfl
  · intro h
    obtain ⟨t, ht, -⟩ := forUpTo_total (untouched_zero book) fun i hi u hu =>
      hu.exists_turn hlen hi (h i hi)
    rw [ht]
    rfl

/-- A removal has a result exactly when it stays in its memory. -/
lemma removeTyped_isSome_iff (hlen : book.length = recordSize * sizeBook)
    (huninit : uninit.length = strSize) :
    (removeTyped book sizeBook uninit input).isSome ↔ RemoveStays book sizeBook uninit input := by
  unfold removeTyped RemoveStays
  rw [← huninit, ← wordInto_isSome_iff]
  cases wordInto uninit 0 input with
  | none => simp
  | some lastname =>
      simp only [Option.bind_some, Option.isSome_some, true_and, Option.mem_def,
        Option.some.injEq, forall_eq']
      rw [isSome_bind_iff (P := True), removeTyped_loop_isSome_iff hlen, and_true]
      intro s hs
      have hall : recordSize * sizeBook ≤ s.1.length := by rw [(untouched_of_loop hs).1, hlen]
      simp [fwrite, hall]

lemma length_removeTyped {r : List UInt8 × List UInt8 × UInt16}
    (h : removeTyped book sizeBook uninit input = some r) : r.1.length = book.length := by
  obtain ⟨lastname, -, h⟩ := Option.bind_eq_some_iff.mp h
  obtain ⟨s, hs, h⟩ := Option.bind_eq_some_iff.mp h
  obtain ⟨file, -, rfl⟩ := Option.map_eq_some_iff.mp h
  exact (untouched_of_loop hs).1

/-- A word that has been read into `lastname` is compared as the string it is. -/
lemma strcmpMem_of_wordInto {t : Token} (hword : (word input).1 = some t.bytes)
    (h : wordInto uninit 0 input = some lastname) (q : List UInt8) :
    strcmpMem lastname q = strcmpEq t.bytes q := by
  rw [wordInto_of_word hword] at h
  obtain ⟨-, rfl⟩ := writeAt_eq_some.mp h
  rw [List.take_zero, List.nil_append, List.append_assoc, List.singleton_append,
    strcmpMem_append t.noNul]

/-- A word has to be shorter than `lastname`. -/
lemma wordInto_lastname {t : Token} (hword : (word input).1 = some t.bytes)
    (huninit : uninit.length = strSize) :
    (wordInto uninit 0 input).isSome ↔ t.bytes.length < strSize := by
  rw [wordInto_isSome_iff, Room, huninit, hword]
  simp

/-- **A removal that reads a word** is the removal of that last name. -/
theorem removeTyped_eq {t : Token} (hword : (word input).1 = some t.bytes)
    (huninit : uninit.length = strSize) :
    removeTyped book sizeBook uninit input = removeStringFromBook book sizeBook t := by
  have hfits := wordInto_lastname hword huninit
  unfold removeTyped removeStringFromBook
  cases hlastname : wordInto uninit 0 input with
  | none =>
      rw [hlastname] at hfits
      rw [if_neg (by simpa using hfits)]
      rfl
  | some lastname =>
      rw [hlastname] at hfits
      have hturn : removeTypedTurn lastname = removeTurn t.bytes := by
        funext i s
        rw [removeTypedTurn, strcmpMem_of_wordInto hword hlastname]
        rfl
      rw [if_pos (by simpa using hfits), Option.bind_some, hturn]

/-! ## Showing and searching -/

/-- The flags of the records are there. -/
lemma exists_flagAt (hlen : book.length = recordSize * sizeBook) {i : ℕ} (hi : i < sizeBook) :
    ∃ flag, flagAt book i = some flag :=
  ⟨_, List.getElem?_eq_getElem (by simp only [flagOff, recordSize, strSize] at *; omega)⟩

/-- What is selected can be printed, or the test leaves its memory. -/
lemma selects_iff {test : Option Bool} {shown : Prop} :
    (test = some false ∨ test = some true ∧ shown) ↔ test.isSome ∧ (test = some true → shown) := by
  rcases test with - | - | -
  · simp
  · simp
  · simp

/-- A look at the book has a result exactly when what it shows can be printed. -/
lemma output_isSome_iff (hlen : book.length = recordSize * sizeBook) :
    (outputBookOnDisplay book sizeBook).isSome ↔ ShowStays book sizeBook := by
  rw [Option.isSome_iff_exists]
  simp only [output_eq_some_iff, exists_and_left, exists_eq, and_true]
  refine forall₂_congr fun i hi => ?_
  obtain ⟨flag, hflag⟩ := exists_flagAt hlen hi
  rw [selects_iff, isShown_eq_some_true, isShown, hflag]
  simp

/-- A search has a result exactly when it stays in its memory. -/
lemma searchTyped_isSome_iff (huninit : uninit.length = strSize) :
    (searchTyped book sizeBook uninit input).isSome ↔ SearchStays book sizeBook uninit input := by
  unfold searchTyped SearchStays RemoveStays
  rw [← huninit, ← wordInto_isSome_iff]
  cases wordInto uninit 0 input with
  | none => simp
  | some lastname =>
      simp only [Option.bind_some, Option.isSome_some, true_and, Option.mem_def,
        Option.some.injEq, forall_eq']
      rw [Option.isSome_iff_exists]
      simp only [forUpTo_select_iff, exists_and_left, exists_eq, and_true, selects_iff,
        forall_and]

/-- **A search that reads a word** is the search for that last name. -/
theorem searchTyped_eq {t : Token} (hword : (word input).1 = some t.bytes)
    (huninit : uninit.length = strSize) :
    searchTyped book sizeBook uninit input = searchStringWithLastname book sizeBook t := by
  have hfits := wordInto_lastname hword huninit
  unfold searchTyped searchStringWithLastname
  cases hlastname : wordInto uninit 0 input with
  | none =>
      rw [hlastname] at hfits
      rw [if_neg (by simpa using hfits)]
      rfl
  | some lastname =>
      rw [hlastname] at hfits
      rw [if_pos (by simpa using hfits), Option.bind_some]
      simp only [strcmpMem_of_wordInto hword hlastname]

end PhoneBook
end EltSummer
