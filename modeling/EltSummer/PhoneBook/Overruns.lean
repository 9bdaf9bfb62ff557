import EltSummer.PhoneBook.Adding

/-!
# Words longer than their field

Nothing bounds what `scanf("%s")` stores, and the fields are read back up to a NUL.  A word
of 30 bytes or more loses its NUL to the store of the next field, or to the flag, and is then
shown with whatever follows; a long phone number runs on into the next records.  Such an
entry is shown right all the same if what the word runs over happens to be what it writes.

`showsEntry_iff` has the exact condition, for any bytes in the book and words of any length:
the three fields one by one (`stringAt_word_iff`, `stringAt_phone_iff`), the records in front
of the new one (`string_before_iff`), and those behind it (`string_behind_iff`).
-/

namespace EltSummer
namespace PhoneBook

open Block CString

/-- The offset of text field `j` of record `k`. -/
def fieldOff (k j : ℕ) : ℕ := recordSize * k + strSize * j

/-! ## What an entry should do -/

/-- Afterwards the new record is shown with the words typed, and every other record keeps its
flag and, if it is shown, its three strings. -/
structure ShowsEntry (book : List UInt8) (sizeBook i : ℕ) (e : Entry) (book' : List UInt8) :
    Prop where
  shown : flagAt book' i = some 1
  words : printed book' i = some (e.lastName.bytes, e.firstName.bytes, e.phoneNumber.bytes)
  flags : ∀ k < sizeBook, k ≠ i → flagAt book' k = flagAt book k
  strings : ∀ k < sizeBook, k ≠ i → flagAt book k = some 1 → ∀ j < 3,
    stringAt book' (fieldOff k j) = stringAt book (fieldOff k j)

/-- A word fits its field, or what is beyond the field is the word stored in the next one. -/
def RunsInto (word next : List UInt8) : Prop := word.length < strSize ∨ word.drop strSize = next

/-- When an entry stored in record `i` does no harm, whatever the length of its words. -/
structure Harmless (book : List UInt8) (sizeBook i : ℕ) (e : Entry) : Prop where
  /-- The last name fits, or runs into the first name. -/
  last : RunsInto e.lastName.bytes e.firstName.bytes
  /-- The first name fits, or runs into the phone number. -/
  first : RunsInto e.firstName.bytes e.phoneNumber.bytes
  /-- The phone number fits, or has the flag's 1 where the flag is. -/
  phone : e.phoneNumber.bytes.length < strSize ∨ e.phoneNumber.bytes[strSize]? = some 1
  /-- The phone number ends inside the array. -/
  room : phoneNumberOff i + e.phoneNumber.bytes.length < book.length
  /-- A shown string that runs into record `i` finds there what it found before. -/
  before : ∀ k < i, flagAt book k = some 1 → ∀ j < 3,
    0 ∉ (book.drop (fieldOff k j)).take (lastNameOff i - fieldOff k j) →
    stringAt book (lastNameOff i) = some e.lastName.bytes
  /-- The flags the phone number runs over are the bytes it has there. -/
  flags : ∀ k < sizeBook, i < k → flagOff k ≤ phoneNumberOff i + e.phoneNumber.bytes.length →
    flagAt book k = e.phoneNumber.stored[flagOff k - phoneNumberOff i]?
  /-- The shown strings it runs over are what it has there. -/
  strings : ∀ k < sizeBook, i < k → flagAt book k = some 1 → ∀ j < 3,
    fieldOff k j ≤ phoneNumberOff i + e.phoneNumber.bytes.length →
    stringAt book (fieldOff k j) =
      some (e.phoneNumber.bytes.drop (fieldOff k j - phoneNumberOff i))

/-! ## The new record -/

/-- A word in its field, with a string behind the field: it is read back if it fits or runs
into that string. -/
lemma stringAt_word_iff {b next : List UInt8} {off : ℕ} {t : Token}
    (hbytes : ∀ k < strSize, k ≤ t.bytes.length → b[off + k]? = t.stored[k]?)
    (hnext : stringAt b (off + strSize) = some next) :
    stringAt b off = some t.bytes ↔ RunsInto t.bytes next := by
  by_cases hfits : t.bytes.length < strSize
  · have hread : stringAt b off = some t.bytes :=
      stringAt_eq_some_iff_getElem?.mpr ⟨t.noNul, fun k hk => hbytes k (by omega) hk⟩
    exact iff_of_true hread (Or.inl hfits)
  · have hlen : (t.bytes.take strSize).length = strSize := by
      rw [List.length_take]
      omega
    have hinto : t.bytes.take strSize <+: b.drop off := by
      refine List.prefix_iff_getElem?.mpr fun k hk => ?_
      rw [hlen] at hk
      rw [List.getElem?_drop, hbytes k hk (by omega), Token.stored,
        List.getElem?_append_left (by omega), List.getElem_take]
      exact List.getElem?_eq_getElem _
    have hnul : 0 ∉ t.bytes.take strSize := fun h0 => t.noNul (List.mem_of_mem_take h0)
    rw [stringAt_of_isPrefix hinto hnul, hlen, hnext, Option.map_some, Option.some.injEq,
      RunsInto, or_iff_right hfits]
    constructor
    · intro happ
      rw [← happ, List.drop_left' hlen]
    · rintro rfl
      exact List.take_append_drop _ _

variable {book book' : List UInt8} {sizeBook i : ℕ} {e : Entry}

/-- The phone number is read back if it fits or has a 1 under the flag. -/
lemma stringAt_phone_iff (h : storeEntry book i e = some book') :
    stringAt book' (phoneNumberOff i) = some e.phoneNumber.bytes ↔
      e.phoneNumber.bytes.length < strSize ∨ e.phoneNumber.bytes[strSize]? = some 1 := by
  have hflag : book'[phoneNumberOff i + strSize]? = some 1 := by
    have hup := flagAt_storeEntry_self h
    rwa [flagAt, flagOff, show 3 * strSize = 2 * strSize + strSize by omega, ← Nat.add_assoc] at hup
  rw [stringAt_eq_some_iff_getElem?, and_iff_right e.phoneNumber.noNul]
  constructor
  · intro hall
    refine or_iff_not_imp_left.mpr fun hlong => ?_
    have hat := hall strSize (by omega)
    rw [hflag] at hat
    rcases Nat.lt_or_ge strSize e.phoneNumber.bytes.length with hlt | hge
    · rw [List.getElem?_append_left hlt] at hat
      exact hat.symm
    · -- a word of exactly 30 bytes has its NUL there
      rw [List.getElem?_append_right hge, show strSize - e.phoneNumber.bytes.length = 0 by omega]
        at hat
      simp at hat
  · intro hfits k hk
    by_cases hne : k = strSize
    · subst hne
      have hone := hfits.resolve_left (by omega)
      have hlt := (List.getElem?_eq_some_iff.mp hone).1
      rw [hflag, List.getElem?_append_left hlt, hone]
    · exact getElem?_phoneNumber h hk hne

lemma printed_eq_some_iff {last first phone : List UInt8} :
    printed book i = some (last, first, phone) ↔ stringAt book (lastNameOff i) = some last ∧
      stringAt book (firstNameOff i) = some first ∧
      stringAt book (phoneNumberOff i) = some phone := by
  simp [printed, Option.bind_eq_some_iff]

/-- The entry is shown with the words typed exactly when each of its words fits or falls on
what it writes. -/
lemma printed_storeEntry_iff (h : storeEntry book i e = some book') :
    printed book' i = some (e.lastName.bytes, e.firstName.bytes, e.phoneNumber.bytes) ↔
      RunsInto e.lastName.bytes e.firstName.bytes ∧
      RunsInto e.firstName.bytes e.phoneNumber.bytes ∧
      (e.phoneNumber.bytes.length < strSize ∨ e.phoneNumber.bytes[strSize]? = some 1) := by
  have hlastBytes : ∀ k < strSize, k ≤ e.lastName.bytes.length →
      book'[lastNameOff i + k]? = e.lastName.stored[k]? :=
    fun k hlt hk => getElem?_lastName h hk hlt
  have hfirstBytes : ∀ k < strSize, k ≤ e.firstName.bytes.length →
      book'[firstNameOff i + k]? = e.firstName.stored[k]? :=
    fun k hlt hk => getElem?_firstName h hk hlt
  rw [printed_eq_some_iff, stringAt_phone_iff h]
  constructor
  · rintro ⟨hlast, hfirst, hphone⟩
    have hnext := (stringAt_phone_iff h).mpr hphone
    exact ⟨(stringAt_word_iff hlastBytes hfirst).mp hlast,
      (stringAt_word_iff hfirstBytes hnext).mp hfirst, hphone⟩
  · rintro ⟨hlast, hfirst, hphone⟩
    have hnext := (stringAt_phone_iff h).mpr hphone
    have hread := (stringAt_word_iff hfirstBytes hnext).mpr hfirst
    exact ⟨(stringAt_word_iff hlastBytes hread).mpr hlast, hread, hphone⟩

/-! ## The records behind it -/

lemma RunsInto.length {word next : List UInt8} (h : RunsInto word next) :
    word.length < strSize ∨ word.length = strSize + next.length := by
  rcases h with h | rfl
  · exact Or.inl h
  · rw [List.length_drop]
    omega

/-- Words that run into each other leave only the phone number behind the record. -/
lemma getElem?_behind (h : storeEntry book i e = some book')
    (hlast : RunsInto e.lastName.bytes e.firstName.bytes)
    (hfirst : RunsInto e.firstName.bytes e.phoneNumber.bytes) {q : ℕ} (hq : flagOff i < q) :
    book'[q]? = (laid e.phoneNumber.stored (phoneNumberOff i) q).or book[q]? := by
  have hflag : laid [(1 : UInt8)] (flagOff i) q = none :=
    laid_eq_none_iff.mpr (Or.inr hq)
  rw [getElem?_storeEntry h, Entry.storedAt, hflag, Option.none_or]
  cases hphone : laid e.phoneNumber.stored (phoneNumberOff i) q with
  | some c => simp
  | none =>
      have hout : phoneNumberOff i + e.phoneNumber.stored.length ≤ q := by
        refine (laid_eq_none_iff.mp hphone).resolve_left ?_
        simp only [phoneNumberOff, flagOff] at *
        omega
      have hl := hlast.length
      have hf := hfirst.length
      rw [Token.length_stored] at hout
      have hfirst' : laid e.firstName.stored (firstNameOff i) q = none := by
        refine laid_eq_none_iff.mpr (Or.inr ?_)
        simp only [Token.length_stored, firstNameOff, phoneNumberOff, flagOff] at *
        omega
      have hlast' : laid e.lastName.stored (lastNameOff i) q = none := by
        refine laid_eq_none_iff.mpr (Or.inr ?_)
        simp only [Token.length_stored, lastNameOff, phoneNumberOff, flagOff] at *
        omega
      rw [hfirst', hlast']
      rfl

/-- A string behind the record stays what it is if the phone number does not reach it or has
the same bytes there. -/
lemma string_behind_iff (h : storeEntry book i e = some book')
    (hlast : RunsInto e.lastName.bytes e.firstName.bytes)
    (hfirst : RunsInto e.firstName.bytes e.phoneNumber.bytes) {off : ℕ} (hoff : flagOff i < off) :
    stringAt book' off = stringAt book off ↔
      (off ≤ phoneNumberOff i + e.phoneNumber.bytes.length →
        stringAt book off = some (e.phoneNumber.bytes.drop (off - phoneNumberOff i))) := by
  by_cases hreach : off ≤ phoneNumberOff i + e.phoneNumber.bytes.length
  · obtain ⟨m, rfl⟩ : ∃ m, off = phoneNumberOff i + m :=
      ⟨off - phoneNumberOff i, by simp only [phoneNumberOff, flagOff] at *; omega⟩
    have hm : m ≤ e.phoneNumber.bytes.length := by omega
    have hread : stringAt book' (phoneNumberOff i + m) = some (e.phoneNumber.bytes.drop m) := by
      refine stringAt_eq_some_iff_getElem?.mpr
        ⟨fun h0 => e.phoneNumber.noNul (List.mem_of_mem_drop h0), fun k hk => ?_⟩
      rw [List.length_drop] at hk
      have hdrop : e.phoneNumber.bytes.drop m ++ [0] = e.phoneNumber.stored.drop m := by
        rw [Token.stored, List.drop_append_of_le_length hm]
      obtain ⟨c, hc⟩ := e.phoneNumber.exists_stored (k := m + k) (by omega)
      rw [getElem?_behind h hlast hfirst (by omega), Nat.add_assoc, laid_add, hdrop,
        List.getElem?_drop, hc]
      rfl
    rw [hread, Nat.add_sub_cancel_left]
    exact ⟨fun hsame _ => hsame.symm, fun hsame => (hsame hreach).symm⟩
  · have hdrop : book'.drop off = book.drop off := by
      refine List.ext_getElem? fun k => ?_
      rw [List.getElem?_drop, List.getElem?_drop, getElem?_behind h hlast hfirst (by omega),
        laid_eq_none_iff.mpr (Or.inr (by rw [Token.length_stored]; omega)), Option.none_or]
    exact iff_of_true (by rw [stringAt, hdrop, stringAt]) fun hin => absurd hin hreach

/-! ## The records in front of it -/

/-- Nothing in front of the record is stored over. -/
lemma getElem?_before (h : storeEntry book i e = some book') {q : ℕ} (hq : q < lastNameOff i) :
    book'[q]? = book[q]? := by
  have hnone : e.storedAt i q = none := by
    simp only [Entry.storedAt, Option.or_eq_none_iff, laid_eq_none_iff, lastNameOff, firstNameOff,
      phoneNumberOff, flagOff] at *
    omega
  rw [getElem?_storeEntry h, hnone, Option.none_or]

/-- A string in front of the record stays what it is if it ends there or goes on with the
last name. -/
lemma string_before_iff (h : storeEntry book i e = some book')
    (hread : stringAt book' (lastNameOff i) = some e.lastName.bytes)
    (hin : lastNameOff i ≤ book.length) {off : ℕ} (hoff : off ≤ lastNameOff i) :
    stringAt book' off = stringAt book off ↔
      (0 ∉ (book.drop off).take (lastNameOff i - off) →
        stringAt book (lastNameOff i) = some e.lastName.bytes) := by
  have hpre : (book.drop off).take (lastNameOff i - off) <+: book.drop off := List.take_prefix _ _
  have hlen : ((book.drop off).take (lastNameOff i - off)).length = lastNameOff i - off := by
    rw [List.length_take, List.length_drop]
    omega
  have hpre' : (book.drop off).take (lastNameOff i - off) <+: book'.drop off := by
    refine List.prefix_iff_getElem?.mpr fun k hk => ?_
    have hk' := List.prefix_iff_getElem?.mp hpre k hk
    rw [hlen] at hk
    rw [List.getElem?_drop] at hk' ⊢
    rw [getElem?_before h (by omega), hk']
  have hend : off + (lastNameOff i - off) = lastNameOff i := by omega
  by_cases h0 : 0 ∈ (book.drop off).take (lastNameOff i - off)
  · exact iff_of_true (stringAt_congr_of_isPrefix hpre hpre' h0) fun hno => absurd h0 hno
  · rw [stringAt_of_isPrefix hpre h0, stringAt_of_isPrefix hpre' h0, hlen, hend, hread,
      Option.map_some, forall_prop_of_true h0]
    cases stringAt book (lastNameOff i) with
    | none => simp
    | some t => simp [eq_comm]

/-- A flag behind the record stays what it is if the phone number does not reach it or has
the same byte there. -/
lemma flag_behind_iff (h : storeEntry book i e = some book')
    (hlast : RunsInto e.lastName.bytes e.firstName.bytes)
    (hfirst : RunsInto e.firstName.bytes e.phoneNumber.bytes) {k : ℕ} (hk : i < k) :
    flagAt book' k = flagAt book k ↔
      (flagOff k ≤ phoneNumberOff i + e.phoneNumber.bytes.length →
        flagAt book k = e.phoneNumber.stored[flagOff k - phoneNumberOff i]?) := by
  have hoff : flagOff i < flagOff k := by
    simp only [flagOff, recordSize]
    omega
  rw [flagAt, getElem?_behind h hlast hfirst hoff, ← flagAt]
  by_cases hreach : flagOff k ≤ phoneNumberOff i + e.phoneNumber.bytes.length
  · obtain ⟨c, hc⟩ := e.phoneNumber.exists_stored (k := flagOff k - phoneNumberOff i) (by omega)
    have hge : phoneNumberOff i ≤ flagOff k := by
      simp only [phoneNumberOff, flagOff] at *
      omega
    rw [laid, if_pos hge, hc, Option.some_or, forall_prop_of_true hreach, eq_comm]
  · rw [laid_eq_none_iff.mpr (Or.inr (by rw [Token.length_stored]; omega)), Option.none_or]
    exact iff_of_true rfl fun hin => absurd hin hreach

/-! ## The whole book -/

/-- Of an entry that has been stored, the phone number ends inside the array. -/
lemma room_of_storeEntry (h : storeEntry book i e = some book') :
    phoneNumberOff i + e.phoneNumber.bytes.length < book.length := by
  obtain ⟨b₁, b₂, b₃, h₁, h₂, h₃, -⟩ := storeEntry_eq_some h
  have hroom := (writeAt_eq_some.mp h₃).1
  rw [length_writeAt h₂, length_writeAt h₁, Token.length_stored] at hroom
  omega

/-- A harmless entry can be stored. -/
lemma Harmless.exists_storeEntry (h : Harmless book sizeBook i e)
    (hlen : book.length = recordSize * sizeBook) (hi : i < sizeBook) :
    ∃ book', storeEntry book i e = some book' := by
  have hl := h.last.length
  have hf := h.first.length
  have hroom := h.room
  refine PhoneBook.exists_storeEntry ?_ ?_ hroom ?_
  all_goals
    simp only [lastNameOff, firstNameOff, phoneNumberOff, flagOff, recordSize, strSize] at *
    omega

/-- The add is carried out and does what an entry should do. -/
def EntersRight (book : List UInt8) (sizeBook i : ℕ) (e : Entry) (uninit : UInt16) : Prop :=
  ∃ j book' file, addNewStringToBook book sizeBook uninit e = some (j, book', file) ∧
    ShowsEntry book sizeBook i e book'

/-- The offsets of the fields and flags of other records. -/
lemma fieldOff_lt {k j : ℕ} (hk : k < i) (hj : j < 3) : fieldOff k j < lastNameOff i := by
  simp only [fieldOff, lastNameOff, recordSize, strSize]
  omega

lemma flagOff_lt_lastNameOff {k : ℕ} (hk : k < i) : flagOff k < lastNameOff i := by
  simp only [flagOff, lastNameOff, recordSize, strSize]
  omega

lemma flagOff_lt_fieldOff {k j : ℕ} (hk : i < k) : flagOff i < fieldOff k j := by
  simp only [fieldOff, flagOff, recordSize, strSize]
  omega

/-- **Which entries are shown right.**  For any book of at most 65535 records with a free one,
and any three words: the new record is shown with these words, and the others as before, if
and only if the entry is harmless. -/
theorem showsEntry_iff (hlen : book.length = recordSize * sizeBook) (hsize : sizeBook ≤ 65535)
    (hi : i < sizeBook) (hfree : FirstFree book i) (e : Entry) (uninit : UInt16) :
    EntersRight book sizeBook i e uninit ↔ Harmless book sizeBook i e := by
  have hin : lastNameOff i ≤ book.length := by
    rw [hlen]
    exact Nat.mul_le_mul_left _ hi.le
  rw [EntersRight, addNewStringToBook_eq hlen hi hfree, Nat.mod_eq_of_lt (by omega)]
  constructor
  · rintro ⟨j, book', file, hadd, hshows⟩
    obtain ⟨b, hstore, hb⟩ := Option.map_eq_some_iff.mp hadd
    obtain ⟨rfl, rfl, rfl⟩ : i = j ∧ b = book' ∧ b = file := by simpa using hb
    obtain ⟨hlast, hfirst, hphone⟩ := (printed_storeEntry_iff hstore).mp hshows.words
    obtain ⟨hread, -⟩ := printed_eq_some_iff.mp hshows.words
    refine ⟨hlast, hfirst, hphone, room_of_storeEntry hstore, fun k hk hshown j hj => ?_,
      fun k hk hik hreach => ?_, fun k hk hik hshown j hj => ?_⟩
    · exact (string_before_iff hstore hread hin (fieldOff_lt hk hj).le).mp
        (hshows.strings k (by omega) (by omega) hshown j hj)
    · exact (flag_behind_iff hstore hlast hfirst hik).mp (hshows.flags k hk (by omega)) hreach
    · exact (string_behind_iff hstore hlast hfirst (flagOff_lt_fieldOff hik)).mp
        (hshows.strings k hk (by omega) hshown j hj)
  · intro hok
    obtain ⟨book', hstore⟩ := hok.exists_storeEntry hlen hi
    have hwords := (printed_storeEntry_iff hstore).mpr ⟨hok.last, hok.first, hok.phone⟩
    obtain ⟨hread, -⟩ := printed_eq_some_iff.mp hwords
    refine ⟨i, book', book', by rw [hstore]; rfl, flagAt_storeEntry_self hstore, hwords,
      fun k hk hne => ?_, fun k hk hne hshown j hj => ?_⟩
    · rcases Nat.lt_or_gt_of_ne hne with hki | hik
      · exact getElem?_before hstore (flagOff_lt_lastNameOff hki)
      · exact (flag_behind_iff hstore hok.last hok.first hik).mpr (hok.flags k hk hik)
    · rcases Nat.lt_or_gt_of_ne hne with hki | hik
      · exact (string_before_iff hstore hread hin (fieldOff_lt hki hj).le).mpr
          (hok.before k hki hshown j hj)
      · exact (string_behind_iff hstore hok.last hok.first (flagOff_lt_fieldOff hik)).mpr
          (hok.strings k hk hik hshown j hj)

theorem showsEntry_iff_new_book :
    EntersRight (callocBook 5) 5 0 shortEntry 0 ↔ Harmless (callocBook 5) 5 0 shortEntry :=
  showsEntry_iff (length_callocBook 5) (by decide) (by decide) ⟨by decide, by simp⟩ shortEntry 0

/-- The last name is 30 times `a`, one letter more than its field has room for. -/
def longEntry : Entry where
  lastName :=
    { bytes := List.replicate 30 97
      nonempty := by simp
      noNul := by simp
      noSpace := by simp [isSpace] }
  firstName := shortEntry.firstName
  phoneNumber := shortEntry.phoneNumber

/-- It is shown with the first name behind it. -/
theorem last_name_shown_with_the_first :
    ¬ ∀ (book : List UInt8) (sizeBook i : ℕ) (e : Entry) (uninit : UInt16),
      book.length = recordSize * sizeBook → sizeBook ≤ 65535 → i < sizeBook →
        FirstFree book i → EntersRight book sizeBook i e uninit := by
  intro hclaim
  obtain ⟨j, book', file, hadd, hshows⟩ := hclaim (callocBook 5) 5 0 longEntry 0
    (length_callocBook 5) (by decide) (by decide) ⟨by decide, by simp⟩
  have hrun : (addNewStringToBook (callocBook 5) 5 0 longEntry).map
      (fun r => stringAt r.2.1 0) = some (some (List.replicate 30 97 ++ [98])) := by
    decide +kernel
  rw [hadd, Option.map_some, Option.some.injEq] at hrun
  have hread := (printed_eq_some_iff.mp hshows.words).1
  have hlong := Option.some.inj (hread.symm.trans hrun)
  exact absurd hlong (by decide)

end PhoneBook
end EltSummer
