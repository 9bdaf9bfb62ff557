import EltSummer.PhoneBook.Views
import Mathlib.Data.List.Count

/-!
# What a removal does and what it reports

`remove_string_from_book` frees exactly the occupied records with the given last name and
changes no other byte.  It counts every record with that last name, also those that are free
already and still have it, and it counts in an `unsigned short`.  So a second removal of the
same name reports a deletion where there is nothing to delete (`removed_twice`).

`removeStringFromBook_iff` says when the report is right.
-/

namespace EltSummer
namespace PhoneBook

open Block CString Loop

/-! ## Records with the name -/

/-- The loop finds exactly the records whose last name is the given one. -/
lemma isFound_eq_some_true_iff {book : List UInt8} {lastname : Token} {i : ℕ} :
    isFound book lastname i = some true ↔
      stringAt book (lastNameOff i) = some lastname.bytes := by
  rw [isFound, strcmpEq_eq_some_true_iff, stringAt_eq_some_iff]
  constructor
  · rintro ⟨rest, hrest⟩
    exact ⟨lastname.noNul, rest, by rw [← hrest]; simp⟩
  · rintro ⟨-, rest, hrest⟩
    exact ⟨rest, by rw [hrest]; simp⟩

/-- Record `i` has the last name. -/
def Named (book : List UInt8) (lastname : Token) (i : ℕ) : Bool :=
  stringAt book (lastNameOff i) = some lastname.bytes

lemma named_iff {book : List UInt8} {lastname : Token} {i : ℕ} :
    Named book lastname i = true ↔ isFound book lastname i = some true := by
  rw [isFound_eq_some_true_iff, Named, decide_eq_true_iff]

/-- Record `i` is occupied. -/
def Taken (book : List UInt8) (i : ℕ) : Bool := flagAt book i = some 1

/-- How many of the records with the last name are occupied. -/
def occupiedNamed (book : List UInt8) (sizeBook : ℕ) (lastname : Token) : ℕ :=
  (List.range sizeBook).countP fun i => Named book lastname i && Taken book i

/-- How many are not, and have the last name all the same. -/
def freeNamed (book : List UInt8) (sizeBook : ℕ) (lastname : Token) : ℕ :=
  (List.range sizeBook).countP fun i => Named book lastname i && !Taken book i

lemma countP_named (book : List UInt8) (sizeBook : ℕ) (lastname : Token) :
    (List.range sizeBook).countP (Named book lastname) =
      occupiedNamed book sizeBook lastname + freeNamed book sizeBook lastname := by
  rw [List.countP_eq_countP_filter_add _ _ (Taken book), List.countP_filter, List.countP_filter]
  rfl

/-! ## The loop -/

/-- The array and the counter after `i` turns: the flags of the records found are 0. -/
structure Cleared (book : List UInt8) (lastname : Token) (i : ℕ) (s : List UInt8 × UInt16) :
    Prop where
  length : s.1.length = book.length
  found : ∀ k < i, Named book lastname k = true → flagAt s.1 k = some 0
  others : ∀ q, (∀ k < i, Named book lastname k = true → q ≠ flagOff k) → s.1[q]? = book[q]?
  count : s.2 = UInt16.ofNat ((List.range i).countP (Named book lastname))

lemma cleared_zero (book : List UInt8) (lastname : Token) : Cleared book lastname 0 (book, 0) :=
  ⟨rfl, nofun, fun _ _ => rfl, rfl⟩

variable {book : List UInt8} {lastname : Token} {sizeBook i : ℕ} {s : List UInt8 × UInt16}

/-- The flags cleared so far lie in front of the record a turn looks at. -/
lemma Cleared.isFound (h : Cleared book lastname i s) :
    isFound s.1 lastname i = isFound book lastname i := by
  have hdrop : s.1.drop (lastNameOff i) = book.drop (lastNameOff i) := by
    refine List.ext_getElem? fun k => ?_
    rw [List.getElem?_drop, List.getElem?_drop]
    refine h.others _ fun j hj _ => ?_
    simp only [lastNameOff, flagOff, recordSize, strSize]
    omega
  rw [PhoneBook.isFound, hdrop, PhoneBook.isFound]

/-- A turn of the loop, given what its `strcmp` finds. -/
lemma Cleared.turn (h : Cleared book lastname i s) (hlen : book.length = recordSize * sizeBook)
    (hi : i < sizeBook) {same : Bool} (hsame : PhoneBook.isFound book lastname i = some same) :
    ∃ s', removeTurn lastname.bytes i s = some s' ∧ Cleared book lastname (i + 1) s' := by
  have htest : strcmpEq lastname.bytes (s.1.drop (lastNameOff i)) = some same :=
    h.isFound.trans hsame
  have hnamed : Named book lastname i = same := by
    rw [Bool.eq_iff_iff, named_iff, hsame, Option.some.injEq]
  have hcount : (List.range (i + 1)).countP (Named book lastname) =
      (List.range i).countP (Named book lastname) + if same then 1 else 0 := by
    rw [List.range_succ, List.countP_append, List.countP_singleton, hnamed]
  cases same with
  | false =>
      refine ⟨s, by rw [removeTurn, htest]; rfl, h.length, fun k hk hkn => ?_, fun q hq => ?_, ?_⟩
      · rcases Nat.lt_succ_iff_lt_or_eq.mp hk with hk | rfl
        · exact h.found k hk hkn
        · simp [hnamed] at hkn
      · exact h.others q fun k hk => hq k (Nat.lt_succ_of_lt hk)
      · rw [h.count, hcount]
        rfl
  | true =>
      have hflag : flagOff i + 1 ≤ s.1.length := by
        rw [h.length, hlen]
        simp only [flagOff, recordSize, strSize]
        omega
      obtain ⟨b, hb⟩ : ∃ b, writeAt s.1 (flagOff i) [0] = some b :=
        ⟨_, writeAt_eq_some.mpr ⟨hflag, rfl⟩⟩
      have hkeep : ∀ q, q ≠ flagOff i → b[q]? = s.1[q]? := fun q hq =>
        getElem?_writeAt_of_not_mem hb (by simp only [List.length_singleton]; omega)
      refine ⟨(b, s.2 + 1), ?_, (length_writeAt hb).trans h.length, fun k hk hkn => ?_,
        fun q hq => ?_, ?_⟩
      · rw [removeTurn, htest, Option.bind_some, if_pos rfl, hb]
        rfl
      · by_cases hki : k = i
        · rw [hki, flagAt, getElem?_writeAt_of_mem hb le_rfl (by simp)]
          simp
        · have hne : flagOff k ≠ flagOff i := by
            simp only [flagOff, recordSize]
            omega
          rw [flagAt, hkeep _ hne]
          exact h.found k (by omega) hkn
      · rw [hkeep q (hq i (Nat.lt_succ_self i) hnamed)]
        exact h.others q fun k hk => hq k (Nat.lt_succ_of_lt hk)
      · rw [hcount, if_pos rfl, UInt16.ofNat_add, ← h.count]
        rfl

/-- The whole loop, when every `strcmp` stays in the array. -/
lemma exists_cleared (hlen : book.length = recordSize * sizeBook)
    (hfound : ∀ k < sizeBook, (isFound book lastname k).isSome) :
    ∃ s, forUpTo sizeBook (removeTurn lastname.bytes) (book, 0) = some s ∧
      Cleared book lastname sizeBook s := by
  refine forUpTo_total (cleared_zero book lastname) fun i hi u hu => ?_
  obtain ⟨same, hsame⟩ := Option.isSome_iff_exists.mp (hfound i hi)
  exact hu.turn hlen hi hsame

/-- And the other way round: a loop that comes to its end has stayed in the array. -/
lemma cleared_of_loop (hlen : book.length = recordSize * sizeBook)
    (h : forUpTo sizeBook (removeTurn lastname.bytes) (book, 0) = some s) :
    Cleared book lastname sizeBook s ∧
      ∀ k < sizeBook, (isFound book lastname k).isSome := by
  refine forUpTo_invariant (I := fun i u => Cleared book lastname i u ∧
    ∀ k < i, (isFound book lastname k).isSome) ⟨cleared_zero book lastname, nofun⟩
    (fun i hi u v hu hv => ?_) h
  obtain ⟨same, hsame, -⟩ := Option.bind_eq_some_iff.mp hv
  have hsame' : isFound book lastname i = some same := hu.1.isFound.symm.trans hsame
  obtain ⟨v', hv', hcleared⟩ := hu.1.turn hlen hi hsame'
  obtain rfl := Option.some.inj (hv.symm.trans hv')
  refine ⟨hcleared, fun k hk => ?_⟩
  rcases Nat.lt_succ_iff_lt_or_eq.mp hk with hk | rfl
  · exact hu.2 k hk
  · rw [hsame']
    rfl

/-! ## The report -/

/-- What is printed: `none` is "No strings to delete". -/
def removalReport (countStringRemove : UInt16) : Option ℕ :=
  if countStringRemove = 0 then none else some countStringRemove.toNat

/-- The report of `n` deletions. -/
def reportOf (n : ℕ) : Option ℕ := if n = 0 then none else some n

lemma removalReport_eq (c : UInt16) : removalReport c = reportOf c.toNat := by
  have hzero : c = 0 ↔ c.toNat = 0 := by
    rw [← UInt16.toNat_inj]
    rfl
  simp only [removalReport, reportOf, hzero]

lemma reportOf_inj {m n : ℕ} : reportOf m = reportOf n ↔ m = n := by
  refine ⟨fun h => ?_, congrArg reportOf⟩
  unfold reportOf at h
  split at h <;> split at h <;> simp_all

/-- The removal frees the occupied records with the last name, changes no other byte, and
reports how many it has freed. -/
structure Removes (book : List UInt8) (sizeBook : ℕ) (lastname : Token) (book' : List UInt8)
    (count : UInt16) : Prop where
  length : book'.length = book.length
  freed : ∀ k < sizeBook, Named book lastname k = true → Taken book k = true →
    flagAt book' k = some 0
  others : ∀ q, (∀ k < sizeBook, Named book lastname k = true → Taken book k = true →
    q ≠ flagOff k) → book'[q]? = book[q]?
  report : removalReport count = reportOf (occupiedNamed book sizeBook lastname)

/-- The removal comes to its end and does what it is for. -/
def RemovesRight (book : List UInt8) (sizeBook : ℕ) (lastname : Token) : Prop :=
  ∃ book' file count, removeStringFromBook book sizeBook lastname = some (book', file, count) ∧
    Removes book sizeBook lastname book' count

/-- A removal by its loop. -/
lemma removeStringFromBook_eq_some_iff {book' file : List UInt8} {count : UInt16} :
    removeStringFromBook book sizeBook lastname = some (book', file, count) ↔
      lastname.bytes.length < strSize ∧
        forUpTo sizeBook (removeTurn lastname.bytes) (book, 0) = some (book', count) ∧
        fwrite book' (recordSize * sizeBook) = some file := by
  unfold removeStringFromBook
  rw [Option.ite_none_right_eq_some, Option.bind_eq_some_iff]
  refine and_congr_right fun _ => ⟨?_, fun ⟨hloop, hfile⟩ => ⟨_, hloop, by rw [hfile]; rfl⟩⟩
  rintro ⟨⟨b, c⟩, hloop, h⟩
  obtain ⟨f, hfile, h⟩ := Option.map_eq_some_iff.mp h
  obtain ⟨rfl, rfl, rfl⟩ : b = book' ∧ f = file ∧ c = count := by simpa using h
  exact ⟨hloop, hfile⟩

/-- What is reported is the number of all records with the name, as an `unsigned short`. -/
lemma Cleared.report_iff (h : Cleared book lastname sizeBook s) :
    removalReport s.2 = reportOf (occupiedNamed book sizeBook lastname) ↔
      2 ^ 16 ∣ freeNamed book sizeBook lastname ∧
        occupiedNamed book sizeBook lastname < 2 ^ 16 := by
  rw [removalReport_eq, reportOf_inj, h.count, UInt16.toNat_ofNat', countP_named]
  omega

/-- **When the report is right.**  For any book with flags 0 and 1: the removal frees exactly
the occupied records of the name, and says how many, if and only if the name fits its
buffer, no `strcmp` leaves the array, the free records that still have the name are 65536 or
a multiple of it or none, and the occupied ones are fewer than 65536. -/
theorem removeStringFromBook_iff (hlen : book.length = recordSize * sizeBook)
    (hbits : ∀ k < sizeBook, flagAt book k = some 0 ∨ flagAt book k = some 1)
    (lastname : Token) :
    RemovesRight book sizeBook lastname ↔
      lastname.bytes.length < strSize ∧
        (∀ k < sizeBook, (isFound book lastname k).isSome) ∧
        2 ^ 16 ∣ freeNamed book sizeBook lastname ∧
        occupiedNamed book sizeBook lastname < 2 ^ 16 := by
  constructor
  · rintro ⟨book', file, count, hremove, hright⟩
    obtain ⟨hfits, hloop, -⟩ := removeStringFromBook_eq_some_iff.mp hremove
    obtain ⟨hcleared, hfound⟩ := cleared_of_loop hlen hloop
    exact ⟨hfits, hfound, hcleared.report_iff.mp hright.report⟩
  · rintro ⟨hfits, hfound, hcounts⟩
    obtain ⟨⟨book', count⟩, hloop, hcleared⟩ := exists_cleared hlen hfound
    have hlen' : book'.length = recordSize * sizeBook := hcleared.length.trans hlen
    have hfile : fwrite book' (recordSize * sizeBook) = some (book'.take _) :=
      fwrite_eq_some.mpr ⟨hlen'.ge, rfl⟩
    refine ⟨book', _, count, removeStringFromBook_eq_some_iff.mpr ⟨hfits, hloop, hfile⟩,
      hcleared.length, fun k hk hnamed _ => hcleared.found k hk hnamed, fun q hq => ?_,
      hcleared.report_iff.mpr hcounts⟩
    by_cases hflag : ∃ k < sizeBook, Named book lastname k = true ∧ q = flagOff k
    · -- the flag of a free record is cleared once more
      obtain ⟨k, hk, hnamed, rfl⟩ := hflag
      have hfree : flagAt book k = some 0 := by
        refine (hbits k hk).resolve_right fun hone => hq k hk hnamed ?_ rfl
        simp [Taken, hone]
      exact (hcleared.found k hk hnamed).trans hfree.symm
    · exact hcleared.others q fun k hk hnamed hqk => hflag ⟨k, hk, hnamed, hqk⟩

/-- Two records with the last name `a`, the second one occupied. -/
def namesakesBook (flag : UInt8) : List UInt8 :=
  (97 :: List.replicate 89 0) ++ [flag] ++ (97 :: List.replicate 89 0) ++ [1]

/-- With both occupied the removal is right, with one of them free it reports one too many. -/
theorem removeStringFromBook_iff_namesakes :
    RemovesRight (namesakesBook 1) 2 shortEntry.lastName ∧
      freeNamed (namesakesBook 0) 2 shortEntry.lastName = 1 ∧
      occupiedNamed (namesakesBook 0) 2 shortEntry.lastName = 1 ∧
      ¬ RemovesRight (namesakesBook 0) 2 shortEntry.lastName := by
  have hfree : freeNamed (namesakesBook 0) 2 shortEntry.lastName = 1 := by decide +kernel
  have htaken : occupiedNamed (namesakesBook 0) 2 shortEntry.lastName = 1 := by decide +kernel
  refine ⟨?_, hfree, htaken, fun hright => ?_⟩
  · exact (removeStringFromBook_iff (by decide +kernel) (by decide +kernel) _).mpr
      ⟨by decide, by decide +kernel, by decide +kernel, by decide +kernel⟩
  · have hcondition := (removeStringFromBook_iff (by decide +kernel) (by decide +kernel) _).mp
      hright
    rw [hfree] at hcondition
    exact absurd hcondition.2.2.1 (by decide)

/-- One record with the last name `a`, free again. -/
def freedBook : List UInt8 := 97 :: List.replicate 90 0

/-- Removing `a` from it reports one deletion, and there is nothing to delete. -/
theorem removed_twice :
    ¬ ∀ (book : List UInt8) (sizeBook : ℕ) (lastname : Token),
      book.length = recordSize * sizeBook →
      (∀ k < sizeBook, flagAt book k = some 0 ∨ flagAt book k = some 1) →
        RemovesRight book sizeBook lastname := by
  intro hclaim
  obtain ⟨book', file, count, hremove, hright⟩ :=
    hclaim freedBook 1 shortEntry.lastName (by decide) (by decide)
  have hrun : (removeStringFromBook freedBook 1 shortEntry.lastName).map (fun r => r.2.2) =
      some 1 := by
    decide +kernel
  rw [hremove, Option.map_some, Option.some.injEq] at hrun
  obtain rfl : count = 1 := hrun
  have hnone : occupiedNamed freedBook 1 shortEntry.lastName = 0 := by decide +kernel
  have hreport := hright.report
  rw [hnone] at hreport
  simp [removalReport, reportOf] at hreport

end PhoneBook
end EltSummer
