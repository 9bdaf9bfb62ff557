import EltSummer.PhoneBook.Growth
import EltSummer.PhoneBook.Persistence
import Mathlib.Tactic.IntervalCases

/-!
# Do showing and searching see the same book?

A removal clears the flag of a record and leaves its bytes where they are.  Showing the book
tests the flag, searching by last name does not, so a search still finds what was removed
(`search_finds_removed`).

Both functions walk the same records and select some of them (`output_eq_some_iff`,
`search_eq_some_iff`).  So, for any bytes in the array, the two views agree on a last name
exactly when the search passes by every record that is not occupied (`viewsAgree_iff`).
The other half of that condition, that every string read ends inside the array, takes care
of itself in sessions whose words fit their fields and which never grow
(`viewsAgree_iff_of_fitting`).
-/

namespace EltSummer
namespace PhoneBook

open Interleaving Block CString Loop

/-! ## The two selections -/

/-- The test of `output_book_onDisplay`. -/
def isShown (book : List UInt8) (i : ℕ) : Option Bool :=
  (flagAt book i).map fun flag => decide (flag = 1)

/-- The test of `search_string_with_lastname`. -/
def isFound (book : List UInt8) (lastname : Token) (i : ℕ) : Option Bool :=
  strcmpEq lastname.bytes (book.drop (lastNameOff i))

lemma output_eq_some_iff {book : List UInt8} {sizeBook : ℕ}
    {out : List (List UInt8 × List UInt8 × List UInt8)} :
    outputBookOnDisplay book sizeBook = some out ↔
      (∀ i < sizeBook, isShown book i = some false ∨
        isShown book i = some true ∧ (printed book i).isSome) ∧
      out = selected sizeBook (isShown book) (printed book) := by
  rw [← forUpTo_select_iff]
  unfold outputBookOnDisplay isShown
  simp only [Option.bind_map, Function.comp_def, decide_eq_true_eq]

lemma search_eq_some_iff {book : List UInt8} {sizeBook : ℕ} {lastname : Token}
    {out : List (List UInt8 × List UInt8 × List UInt8)} :
    searchStringWithLastname book sizeBook lastname = some out ↔
      lastname.bytes.length < strSize ∧
      (∀ i < sizeBook, isFound book lastname i = some false ∨
        isFound book lastname i = some true ∧ (printed book i).isSome) ∧
      out = selected sizeBook (isFound book lastname) (printed book) := by
  rw [← forUpTo_select_iff]
  unfold searchStringWithLastname isFound
  rw [Option.ite_none_right_eq_some]

/-- A record that can be printed is found exactly by its own last name. -/
lemma isFound_of_printed {book : List UInt8} {i : ℕ} {r : List UInt8 × List UInt8 × List UInt8}
    (h : printed book i = some r) (lastname : Token) :
    isFound book lastname i = some (decide (lastname.bytes = r.1)) := by
  obtain ⟨last, hlast, h⟩ := Option.bind_eq_some_iff.mp h
  obtain ⟨first, -, h⟩ := Option.bind_eq_some_iff.mp h
  obtain ⟨phone, -, rfl⟩ := Option.map_eq_some_iff.mp h
  obtain ⟨hnul, rest, hrest⟩ := stringAt_eq_some_iff.mp hlast
  rw [isFound, hrest, strcmpEq_append lastname.noNul hnul]

/-! ## When the views agree -/

/-- Both functions run to their end, and the records the search prints are the shown records
with that last name. -/
def ViewsAgree (book : List UInt8) (sizeBook : ℕ) (lastname : Token) : Prop :=
  ∃ shown, outputBookOnDisplay book sizeBook = some shown ∧
    searchStringWithLastname book sizeBook lastname =
      some (shown.filter fun r => decide (lastname.bytes = r.1))

/-- Record `i` is occupied and its three strings end inside the array. -/
def Printable (book : List UInt8) (i : ℕ) : Prop :=
  flagAt book i = some 1 ∧ 0 ∈ book.drop (lastNameOff i) ∧ 0 ∈ book.drop (firstNameOff i) ∧
    0 ∈ book.drop (phoneNumberOff i)

/-- Record `i` is not occupied, and `strcmp` tells its last name from the given one. -/
def PassedBy (book : List UInt8) (lastname : Token) (i : ℕ) : Prop :=
  (∃ flag, flagAt book i = some flag ∧ flag ≠ 1) ∧ isFound book lastname i = some false

lemma printed_isSome_iff {book : List UInt8} {i : ℕ} :
    (printed book i).isSome ↔ 0 ∈ book.drop (lastNameOff i) ∧
      0 ∈ book.drop (firstNameOff i) ∧ 0 ∈ book.drop (phoneNumberOff i) := by
  unfold printed stringAt
  by_cases hl : 0 ∈ book.drop (lastNameOff i) <;> by_cases hf : 0 ∈ book.drop (firstNameOff i) <;>
    by_cases hp : 0 ∈ book.drop (phoneNumberOff i) <;> simp [hl, hf, hp]

lemma isShown_eq_some_true {book : List UInt8} {i : ℕ} :
    isShown book i = some true ↔ flagAt book i = some 1 := by
  unfold isShown
  cases flagAt book i <;> simp

lemma isShown_eq_some_false {book : List UInt8} {i : ℕ} :
    isShown book i = some false ↔ ∃ flag, flagAt book i = some flag ∧ flag ≠ 1 := by
  unfold isShown
  cases flagAt book i <;> simp

/-- The shown records with the name are the records that pass both tests. -/
lemma filter_selected {book : List UInt8} {sizeBook : ℕ} {lastname : Token} :
    (selected sizeBook (isShown book) (printed book)).filter
        (fun r => decide (lastname.bytes = r.1)) =
      (List.range sizeBook).filterMap fun i =>
        if isShown book i = some true ∧ isFound book lastname i = some true then printed book i
        else none := by
  unfold selected
  rw [List.filter_filterMap]
  refine List.filterMap_congr fun i _ => ?_
  by_cases hshown : isShown book i = some true
  · cases hr : printed book i with
    | none => simp
    | some r =>
        rw [isFound_of_printed hr]
        by_cases hname : lastname.bytes = r.1 <;> simp [hshown, hname]
  · simp [hshown]

/-- **The views agree exactly when nothing free has the name.**  For every array, every
size and every last name: showing and searching print the same records of that name if and
only if the name fits its buffer and each record is either occupied, with strings that end
inside the array, or passed by the search. -/
theorem viewsAgree_iff (book : List UInt8) (sizeBook : ℕ) (lastname : Token) :
    ViewsAgree book sizeBook lastname ↔
      lastname.bytes.length < strSize ∧
        ∀ i < sizeBook, Printable book i ∨ PassedBy book lastname i := by
  unfold ViewsAgree
  simp only [output_eq_some_iff, search_eq_some_iff]
  constructor
  · rintro ⟨shown, ⟨hshown, rfl⟩, hfits, hfound, heq⟩
    refine ⟨hfits, fun i hi => ?_⟩
    rw [filter_selected] at heq
    rcases hshown i hi with hfree | ⟨hocc, hsome⟩
    · refine Or.inr ⟨isShown_eq_some_false.mp hfree, ?_⟩
      -- a record found here would be missing from the other list
      refine (hfound i hi).resolve_right fun ⟨htrue, hsome⟩ => ?_
      have hall := filterMap_inj_of_le (fun j _ => ?_) heq i (List.mem_range.mpr hi)
      · rw [if_neg (by simp [hfree]), if_pos htrue] at hall
        simp [← hall] at hsome
      · by_cases hj : isShown book j = some true
        · simp [hj]
        · simp [hj]
    · exact Or.inl ⟨isShown_eq_some_true.mp hocc, printed_isSome_iff.mp hsome⟩
  · rintro ⟨hfits, hall⟩
    refine ⟨_, ⟨fun i hi => ?_, rfl⟩, hfits, fun i hi => ?_, ?_⟩
    · rcases hall i hi with ⟨hocc, hends⟩ | ⟨hfree, -⟩
      · exact Or.inr ⟨isShown_eq_some_true.mpr hocc, printed_isSome_iff.mpr hends⟩
      · exact Or.inl (isShown_eq_some_false.mpr hfree)
    · rcases hall i hi with ⟨-, hends⟩ | ⟨-, hpass⟩
      · obtain ⟨r, hr⟩ := Option.isSome_iff_exists.mp (printed_isSome_iff.mpr hends)
        rw [isFound_of_printed hr]
        by_cases hname : lastname.bytes = r.1 <;> simp [hname, hr]
      · exact Or.inl hpass
    · rw [filter_selected, selected]
      refine List.filterMap_congr fun i hi => ?_
      rcases hall i (List.mem_range.mp hi) with ⟨hocc, -⟩ | ⟨-, hpass⟩
      · simp [isShown_eq_some_true.mpr hocc]
      · simp [hpass]

/-! ## Fields that end -/

/-- The field at `off` has a NUL within its `STR_SIZE` bytes. -/
def FieldEnds (book : List UInt8) (off : ℕ) : Prop := ∃ k < strSize, book[off + k]? = some 0

/-- The block is made of whole records, and each of their three fields ends. -/
structure Tidy (book : List UInt8) : Prop where
  whole : recordSize ∣ book.length
  fields : ∀ i j, j < 3 → recordSize * (i + 1) ≤ book.length →
    FieldEnds book (recordSize * i + strSize * j)

/-- Two fields are the same or do not overlap. -/
lemma fields_apart (i k : ℕ) {j l : ℕ} (hj : j < 3) (hl : l < 3) :
    recordSize * i + strSize * j = recordSize * k + strSize * l ∨
      recordSize * i + strSize * j + strSize ≤ recordSize * k + strSize * l ∨
      recordSize * k + strSize * l + strSize ≤ recordSize * i + strSize * j := by
  simp only [recordSize, strSize]
  interval_cases j <;> interval_cases l <;> omega

/-- A flag lies in no field. -/
lemma flag_outside (i k : ℕ) {j : ℕ} (hj : j < 3) :
    flagOff k < recordSize * i + strSize * j ∨
      recordSize * i + strSize * j + strSize ≤ flagOff k := by
  simp only [flagOff, recordSize, strSize]
  interval_cases j <;> omega

lemma FieldEnds.mem_drop {book : List UInt8} {off : ℕ} (h : FieldEnds book off) :
    0 ∈ book.drop off := by
  obtain ⟨k, -, hk⟩ := h
  exact List.mem_of_getElem? (i := k) (by rw [List.getElem?_drop, hk])

lemma FieldEnds.congr {book book' : List UInt8} {off : ℕ} (h : FieldEnds book off)
    (hsame : ∀ k < strSize, book'[off + k]? = book[off + k]?) : FieldEnds book' off := by
  obtain ⟨k, hk, hzero⟩ := h
  exact ⟨k, hk, (hsame k hk).trans hzero⟩

/-- A word that fits, stored into one of the fields. -/
lemma FieldEnds.writeAt {book book' : List UInt8} {off off' : ℕ} {t : Token}
    (h : FieldEnds book off) (hstore : Block.writeAt book off' t.stored = some book')
    (hfits : t.bytes.length < strSize)
    (hapart : off = off' ∨ off + strSize ≤ off' ∨ off' + strSize ≤ off) :
    FieldEnds book' off := by
  rcases hapart with rfl | hapart
  · refine ⟨t.bytes.length, hfits, ?_⟩
    rw [getElem?_writeAt_of_mem hstore (by omega) (by simp), Nat.add_sub_cancel_left]
    simp [Token.stored]
  · refine h.congr fun k hk => getElem?_writeAt_of_not_mem hstore ?_
    rw [Token.length_stored]
    omega

/-! ## What the functions keep tidy -/

/-- The three words fit their fields. -/
def FitsFields (e : Entry) : Prop :=
  e.lastName.bytes.length < strSize ∧ e.firstName.bytes.length < strSize ∧
    e.phoneNumber.bytes.length < strSize

/-- Zeros are records whose fields end. -/
lemma tidy_append_zeros {file : List UInt8} (h : Tidy file) {m : ℕ}
    (hm : recordSize ∣ (file ++ List.replicate m 0).length) :
    Tidy (file ++ List.replicate m 0) := by
  refine ⟨hm, fun i j hj hi => ?_⟩
  obtain ⟨n, hn⟩ := h.whole
  by_cases hin : i < n
  · have hle : recordSize * (i + 1) ≤ file.length := hn ▸ Nat.mul_le_mul_left _ hin
    refine (h.fields i j hj hle).congr fun k hk => List.getElem?_append_left ?_
    simp only [recordSize, strSize] at *
    omega
  · -- the record lies behind the file
    have hle : recordSize * n ≤ recordSize * i := Nat.mul_le_mul_left _ (not_lt.mp hin)
    refine ⟨0, by decide, ?_⟩
    simp only [List.length_append, List.length_replicate, recordSize, strSize] at *
    rw [List.getElem?_append_right (by omega), List.getElem?_replicate, if_pos (by omega)]

lemma tidy_of_padded {file book : List UInt8} {size : ℕ} (hfile : Tidy file)
    (h : Padded file book size) : Tidy book := by
  obtain ⟨k, rfl⟩ := h.padding
  exact tidy_append_zeros hfile (h.length ▸ dvd_mul_right _ _)

lemma tidy_zeros {m : ℕ} (hm : recordSize ∣ m) : Tidy (List.replicate m 0) := by
  have hnil : Tidy [] := ⟨dvd_zero _, fun i j _ hi => by simp [recordSize] at hi⟩
  exact tidy_append_zeros hnil (by simpa using hm)

lemma tidy_storeEntry {book book' : List UInt8} {i : ℕ} {e : Entry} (hb : Tidy book)
    (he : FitsFields e) (h : storeEntry book i e = some book') : Tidy book' := by
  obtain ⟨b₁, b₂, b₃, h₁, h₂, h₃, h₄⟩ := storeEntry_eq_some h
  have hlen := length_storeEntry h
  obtain ⟨hlast, hfirst, hphone⟩ := he
  refine ⟨hlen ▸ hb.whole, fun k j hj hk => ?_⟩
  rw [hlen] at hk
  have e₁ : FieldEnds b₁ (recordSize * k + strSize * j) :=
    (hb.fields k j hj hk).writeAt h₁ hlast (fields_apart k i hj (l := 0) (by decide))
  have e₂ : FieldEnds b₂ (recordSize * k + strSize * j) :=
    e₁.writeAt h₂ hfirst (fields_apart k i hj (l := 1) (by decide))
  have e₃ : FieldEnds b₃ (recordSize * k + strSize * j) :=
    e₂.writeAt h₃ hphone (by
      have := fields_apart k i hj (l := 2) (by decide)
      rwa [mul_comm strSize 2] at this)
  refine e₃.congr fun l hl => getElem?_writeAt_of_not_mem h₄ ?_
  have := flag_outside k i hj
  simp only [List.length_singleton]
  omega

/-- A removal changes flags only. -/
lemma removeStringFromBook_frame {book book' file : List UInt8} {sizeBook : ℕ} {lastname : Token}
    {count : UInt16} (h : removeStringFromBook book sizeBook lastname = some (book', file, count))
    {p : ℕ} (hp : ∀ k, p ≠ flagOff k) : book'[p]? = book[p]? := by
  unfold removeStringFromBook at h
  split at h
  · obtain ⟨s, hloop, h⟩ := Option.bind_eq_some_iff.mp h
    obtain ⟨f, -, h⟩ := Option.map_eq_some_iff.mp h
    obtain ⟨rfl, -⟩ := Prod.mk.inj h
    refine forUpTo_invariant (I := fun _ u => u.1[p]? = book[p]?) rfl (fun i _ u v hu hv => ?_)
      hloop
    obtain ⟨same, -, hv⟩ := Option.bind_eq_some_iff.mp hv
    cases same with
    | false =>
        obtain rfl : u = v := by simpa using hv
        exact hu
    | true =>
        obtain ⟨b, hb, rfl⟩ := Option.map_eq_some_iff.mp hv
        have hne := hp i
        exact (getElem?_writeAt_of_not_mem hb (by simp; omega)).trans hu
  · simp at h

lemma tidy_remove {book book' file : List UInt8} {sizeBook : ℕ} {lastname : Token}
    {count : UInt16} (hb : Tidy book)
    (h : removeStringFromBook book sizeBook lastname = some (book', file, count)) :
    Tidy book' := by
  have hlen := (removeStringFromBook_spec h).1
  refine ⟨hlen ▸ hb.whole, fun i j hj hi => ?_⟩
  rw [hlen] at hi
  refine (hb.fields i j hj hi).congr fun k hk => removeStringFromBook_frame h fun l => ?_
  have := flag_outside i l hj
  omega

/-! ## The run -/

/-- The guard: the growth test does not fire, and the words of an entry fit their fields. -/
def Fitting (w : World) (a : Action) : Prop :=
  NoGrowth w a ∧ ∀ opened uninit e, a = .add opened uninit e → FitsFields e

/-- What such runs keep: the file and the array consist of records whose fields end, and the
array has exactly `size_of_book` of them. -/
structure TidyWorld (w : World) : Prop where
  storage : ∀ file, w.storage = some file → Tidy file
  book : ∀ s, w.session = some s →
    s.phoneBook.length = recordSize * s.sizeOfBook ∧ Tidy s.phoneBook

/-- A writer that puts a tidy array into the file. -/
lemma tidyWorld_written {s : Session} {file : List UInt8}
    (hlen : s.phoneBook.length = recordSize * s.sizeOfBook) (hbook : Tidy s.phoneBook)
    (hfile : file = s.phoneBook.take (recordSize * s.sizeOfBook)) :
    TidyWorld ⟨some file, some s⟩ := by
  rw [List.take_of_length_le hlen.le] at hfile
  subst hfile
  exact ⟨by rintro _ ⟨⟩; exact hbook, by rintro _ ⟨⟩; exact ⟨hlen, hbook⟩⟩

lemma tidyWorld_step {w w' : World} {a : Action} (hw : TidyWorld w) (hok : Fitting w a)
    (h : step w a = some w') : TidyWorld w' := by
  cases moves_of_step h with
  | fail hnone => exact ⟨hw.storage, by simp⟩
  | create hnone hfile =>
      have hpad := padded_create hfile
      obtain ⟨-, rfl⟩ := fwrite_eq_some.mp hfile
      refine ⟨?_, ?_⟩
      · rintro _ ⟨⟩
        rw [callocBook, List.take_replicate]
        exact tidy_zeros (by
          rw [Nat.min_eq_left (Nat.mul_le_mul_left _ (memSize_le_initialSize _))]
          exact dvd_mul_right _ _)
      · rintro _ ⟨⟩
        exact ⟨hpad.length, tidy_zeros (dvd_mul_right _ _)⟩
  | load hnone hfile hbook =>
      rw [hfile] at hbook ⊢
      have hpad := padded_load hbook
      refine ⟨by rintro _ ⟨⟩; exact hw.storage _ hfile, ?_⟩
      rintro _ ⟨⟩
      exact ⟨hpad.length, tidy_of_padded (hw.storage _ hfile) hpad⟩
  | @keepSize s _ _ _ hs htop hcount hroom =>
      refine ⟨hw.storage, ?_⟩
      rintro _ ⟨⟩
      exact hw.book s hs
  | grow hs htop hcount hfull => exact absurd (growthDue_of_count hs hcount hfull) hok.1
  | @add s _ e _ _ _ hs hmenu hadd =>
      obtain ⟨hlen, hbook⟩ := hw.book s hs
      obtain ⟨hstore, hlen', -, hfile⟩ := addNewStringToBook_spec hadd
      exact tidyWorld_written (hlen'.trans hlen)
        (tidy_storeEntry hbook (hok.2 _ _ _ rfl) hstore) hfile
  | @remove s _ _ _ _ hs hmenu hremove =>
      obtain ⟨hlen, hbook⟩ := hw.book s hs
      obtain ⟨hlen', -, -, hfile⟩ := removeStringFromBook_spec hremove
      exact tidyWorld_written (hlen'.trans hlen) (tidy_remove hbook hremove) hfile
  | @look s _ hs hmenu =>
      refine ⟨hw.storage, ?_⟩
      rintro _ ⟨⟩
      exact hw.book s hs
  | stop => exact ⟨hw.storage, by simp⟩

/-- In a tidy array every record's strings end, and `strcmp` compares its last name. -/
lemma tidy_record {book : List UInt8} (hb : Tidy book) {i : ℕ}
    (hi : recordSize * (i + 1) ≤ book.length) : (printed book i).isSome := by
  have hlast : FieldEnds book (lastNameOff i) := hb.fields i 0 (by decide) hi
  have hfirst : FieldEnds book (firstNameOff i) := hb.fields i 1 (by decide) hi
  have hphone : FieldEnds book (phoneNumberOff i) := hb.fields i 2 (by decide) hi
  exact printed_isSome_iff.mpr ⟨hlast.mem_drop, hfirst.mem_drop, hphone.mem_drop⟩

/-- **Runs of ordinary sessions.**  After any sessions that never grow the book and whose
words fit their fields, the views agree on a name that fits its buffer exactly when every
record with that last name is occupied. -/
theorem viewsAgree_iff_of_fitting {storage : Option (List UInt8)}
    (htidy : ∀ file, storage = some file → Tidy file) {w : World} {s : Session}
    (h : Reach step Fitting ⟨storage, none⟩ w) (hs : w.session = some s) (lastname : Token) :
    ViewsAgree s.phoneBook s.sizeOfBook lastname ↔ lastname.bytes.length < strSize ∧
      ∀ i < s.sizeOfBook, stringAt s.phoneBook (lastNameOff i) = some lastname.bytes →
        flagAt s.phoneBook i = some 1 := by
  have hworld : TidyWorld w := h.invariant ⟨htidy, by simp⟩
    fun _ _ _ hI hok hstep => tidyWorld_step hI hok hstep
  obtain ⟨hlen, hbook⟩ := hworld.book s hs
  rw [viewsAgree_iff]
  refine and_congr_right fun _ => forall₂_congr fun i hi => ?_
  have hin : recordSize * (i + 1) ≤ s.phoneBook.length := hlen ▸ Nat.mul_le_mul_left _ hi
  have hsome := tidy_record hbook hin
  obtain ⟨flag, hflag⟩ : ∃ flag, flagAt s.phoneBook i = some flag :=
    ⟨_, List.getElem?_eq_getElem (by simp only [flagOff, recordSize, strSize] at *; omega)⟩
  obtain ⟨r, hr⟩ := Option.isSome_iff_exists.mp hsome
  obtain ⟨last, hlast, hrest⟩ := Option.bind_eq_some_iff.mp hr
  obtain ⟨first, -, hrest⟩ := Option.bind_eq_some_iff.mp hrest
  obtain ⟨phone, -, rfl⟩ := Option.map_eq_some_iff.mp hrest
  rw [Printable, PassedBy, isFound_of_printed hr, hflag, hlast, ← printed_isSome_iff]
  by_cases hocc : flag = 1
  · simp [hocc, hsome]
  · by_cases hname : lastname.bytes = last
    · simp [hocc, hname]
    · simp [hocc, hname, Ne.symm hname]

/-! ## The name that was removed -/

/-- Add the entry `a`, `b`, `7` to a new book and remove the last name `a` again. -/
def removingSession : List Action :=
  [.run .create true, .turn [] fun _ => 0, .add true 0 shortEntry, .turn [] fun _ => 0,
    .remove true shortEntry.lastName]

/-- The search then still prints the removed record, which the book no longer shows. -/
theorem search_finds_removed :
    ¬ ∀ storage w s lastname, Reach step Anything ⟨storage, none⟩ w → w.session = some s →
      ViewsAgree s.phoneBook s.sizeOfBook lastname := by
  intro hclaim
  have hrun : ((exec step ⟨none, none⟩ removingSession).bind World.session).map (fun s =>
      ((outputBookOnDisplay s.phoneBook s.sizeOfBook).map List.length,
        (searchStringWithLastname s.phoneBook s.sizeOfBook shortEntry.lastName).map
          List.length)) = some (some 0, some 1) := by
    decide +kernel
  obtain ⟨s, hs, hviews⟩ := Option.map_eq_some_iff.mp hrun
  obtain ⟨w, hw, hsession⟩ := Option.bind_eq_some_iff.mp hs
  obtain ⟨houtput, hsearch⟩ := Prod.mk.inj hviews
  obtain ⟨shown, hshown, hfound⟩ :=
    hclaim none w s shortEntry.lastName (Reach.of_exec hw) hsession
  -- nothing is shown, so the search would have to print nothing
  rw [hshown, Option.map_some, Option.some.injEq, List.length_eq_zero_iff] at houtput
  rw [hfound, houtput] at hsearch
  simp at hsearch

end PhoneBook
end EltSummer
