import EltSummer.PhoneBook.Session

/-!
# Does the array keep up with `size_of_book`?

The growth step stores the enlarged size through `ptr_to_sizeofbook` and the enlarged array
in a variable that shadows the one all menu actions use.  So the first growth of a session
breaks the invariant that the array holds `size_of_book` records, and
`growth_breaks_capacity` is the shortest session that gets there: create, add four records,
return to the menu.

A second way to break the other half of the invariant is a typed token so long that it runs
over the flag of the next record (`ShortEntry` rules this out).  Away from both,
`capacity_of_guarded` carries the invariant through every session.
-/

namespace EltSummer
namespace PhoneBook

open Interleaving CString Block

/-! ## The invariant -/

/-- The array `phone_book` points to holds at least `size_of_book` records. -/
def HoldsRecords (s : Session) : Prop := recordSize * s.sizeOfBook ≤ s.phoneBook.length

/-- A record of the array that was neither loaded nor filled by an add has flag 0. -/
def FreshFree (s : Session) : Prop :=
  ∀ i, recordSize * (i + 1) ≤ s.phoneBook.length → s.loaded ≤ recordSize * i →
    i ∉ s.filled → flagAt s.phoneBook i = some 0

/-- No token of the entry puts a byte other than its NUL on the flag of the next record. -/
def ShortEntry (e : Entry) : Prop :=
  e.lastName.bytes.length ≤ recordSize + 3 * strSize ∧
  strSize + e.firstName.bytes.length ≤ recordSize + 3 * strSize ∧
  2 * strSize + e.phoneNumber.bytes.length ≤ recordSize + 3 * strSize

/-- The guard: the growth test does not fire, and no token reaches the next flag. -/
def Contained (w : World) (a : Action) : Prop :=
  NoGrowth w a ∧ ∀ opened uninit e, a = .add opened uninit e → ShortEntry e

/-! ## What an add does to the flags of other records -/

/-- A token stored at `off` in record `i` leaves the flag of another record alone, or puts
its NUL there. -/
lemma flagAt_write_token {book book' : List UInt8} {off i k : ℕ} {t : Token}
    (h : writeAt book off t.stored = some book') (hoff : lastNameOff i ≤ off)
    (hshort : off + t.bytes.length ≤ lastNameOff i + (recordSize + 3 * strSize))
    (hk : k ≠ i) : flagAt book' k = flagAt book k ∨ flagAt book' k = some 0 := by
  unfold lastNameOff at hoff hshort
  by_cases hnul : flagOff k = off + t.bytes.length
  · refine Or.inr ?_
    rw [flagAt, getElem?_writeAt_of_mem h (by omega) (by simp; omega), hnul]
    simp [Token.stored]
  · refine Or.inl (getElem?_writeAt_of_not_mem h ?_)
    simp only [Token.length_stored, flagOff, recordSize, strSize] at *
    rcases Nat.lt_or_gt_of_ne hk with hlt | hgt
    · exact Or.inl (by omega)
    · exact Or.inr (by omega)

lemma flagAt_storeEntry {book book' : List UInt8} {i k : ℕ} {e : Entry}
    (h : storeEntry book i e = some book') (he : ShortEntry e) (hk : k ≠ i) :
    flagAt book' k = flagAt book k ∨ flagAt book' k = some 0 := by
  obtain ⟨b₁, b₂, b₃, h₁, h₂, h₃, h₄⟩ := storeEntry_eq_some h
  obtain ⟨hl, hf, hp⟩ := he
  have e₁ := flagAt_write_token h₁ le_rfl (by omega) hk
  have e₂ := flagAt_write_token (i := i) h₂ (by simp [firstNameOff, lastNameOff])
    (by simp only [firstNameOff, lastNameOff]; omega) hk
  have e₃ := flagAt_write_token (i := i) h₃ (by simp [phoneNumberOff, lastNameOff])
    (by simp only [phoneNumberOff, lastNameOff]; omega) hk
  have e₄ : flagAt book' k = flagAt b₃ k := by
    refine getElem?_writeAt_of_not_mem h₄ ?_
    simp only [flagOff, recordSize, List.length_singleton]
    omega
  rw [e₄]
  rcases e₃ with e₃ | e₃
  · rw [e₃]
    rcases e₂ with e₂ | e₂
    · rw [e₂]
      exact e₁
    · exact Or.inr e₂
  · exact Or.inr e₃

/-! ## The flags of a new book -/

lemma flagAt_callocBook {size i : ℕ} (hi : recordSize * (i + 1) ≤ recordSize * size) :
    flagAt (callocBook size) i = some 0 := by
  simp only [flagAt, callocBook, flagOff, recordSize, strSize] at *
  rw [List.getElem?_replicate, if_pos (by omega)]

lemma length_callocBook (size : ℕ) : (callocBook size).length = recordSize * size := by
  simp [callocBook]

lemma loadBookFromStorage_spec {book book' file : List UInt8} {size : ℕ}
    (h : loadBookFromStorage book size file = some book') :
    book'.length = book.length ∧
      ∀ k, file.length ≤ k → book'[k]? = book[k]? := by
  refine ⟨length_writeAt h, fun k hk => getElem?_writeAt_of_not_mem h (Or.inr ?_)⟩
  simp only [List.length_take, zero_add]
  omega

/-! ## The run -/

/-- What guarded runs keep: the array has exactly `size_of_book` records, and the records
nobody filled are free. -/
def Kept (w : World) : Prop :=
  ∀ s, w.session = some s →
    s.phoneBook.length = recordSize * s.sizeOfBook ∧ FreshFree s

lemma kept_step {w w' : World} {a : Action} (hw : Kept w) (hok : Contained w a)
    (h : step w a = some w') : Kept w' := by
  cases moves_of_step h with
  | fail hnone => simp [Kept]
  | create hnone hfile =>
      rintro s ⟨⟩
      refine ⟨length_callocBook _, fun i hi _ _ => flagAt_callocBook ?_⟩
      rwa [length_callocBook] at hi
  | load hnone hfile hbook =>
      rintro s ⟨⟩
      obtain ⟨hlen, hrest⟩ := loadBookFromStorage_spec hbook
      have hlen' : _ = recordSize * initialSize w.storage := hlen.trans (length_callocBook _)
      refine ⟨hlen', fun i hi hloaded _ => ?_⟩
      -- the flag lies behind everything the file reached
      have hbeyond : recordSize * i ≤ flagOff i := by simp [flagOff]
      simp only at hi hloaded
      rw [hlen'] at hi
      rw [flagAt, hrest _ (hloaded.trans hbeyond)]
      exact flagAt_callocBook hi
  | @keepSize s _ _ _ hs htop hcount hroom =>
      rintro s' ⟨⟩
      exact hw s hs
  | grow hs htop hcount hfull => exact absurd (growthDue_of_count hs hcount hfull) hok.1
  | add hs hmenu hadd =>
      rintro s' ⟨⟩
      obtain ⟨hlen, hfree⟩ := hw _ hs
      obtain ⟨hstore, hlen', -, -⟩ := addNewStringToBook_spec hadd
      refine ⟨hlen'.trans hlen, fun k hk hloaded hnew => ?_⟩
      simp only [List.mem_cons, not_or] at hnew
      simp only [hlen'] at hk
      rcases flagAt_storeEntry hstore (hok.2 _ _ _ rfl) hnew.1 with hsame | hzero
      · exact hsame.trans (hfree k hk hloaded hnew.2)
      · exact hzero
  | remove hs hmenu hremove =>
      rintro s' ⟨⟩
      obtain ⟨hlen, hfree⟩ := hw _ hs
      obtain ⟨hlen', hflags, -, -⟩ := removeStringFromBook_spec hremove
      refine ⟨hlen'.trans hlen, fun k hk hloaded hnew => ?_⟩
      simp only [hlen'] at hk
      rcases hflags k with hsame | hzero
      · exact hsame.trans (hfree k hk hloaded hnew)
      · exact hzero
  | @look s _ hs hmenu =>
      rintro s' ⟨⟩
      exact hw s hs
  | stop => simp [Kept]

/-- **The growth invariant on guarded runs.**  As long as the growth test has not fired and
no token has reached the flag of the next record, the array holds `size_of_book` records and
its untouched records are free, at every point of every session. -/
theorem capacity_of_guarded (storage : Option (List UInt8)) {w : World} {s : Session}
    (h : Reach step Contained ⟨storage, none⟩ w) (hs : w.session = some s) :
    HoldsRecords s ∧ FreshFree s := by
  have hkept : Kept w := h.invariant (by simp [Kept]) fun _ _ _ hI hok hstep =>
    kept_step hI hok hstep
  exact ⟨(hkept s hs).1.ge, (hkept s hs).2⟩

instance (e : Entry) : Decidable (ShortEntry e) := inferInstanceAs (Decidable (_ ∧ _ ∧ _))

instance (w : World) : ∀ a, Decidable (Contained w a)
  | .add opened uninit e => decidable_of_iff (NoGrowth w (.add opened uninit e) ∧ ShortEntry e)
      ⟨fun h => ⟨h.1, by rintro _ _ _ ⟨⟩; exact h.2⟩, fun h => ⟨h.1, h.2 _ _ _ rfl⟩⟩
  | .run _ _ => decidable_of_iff (NoGrowth w _) ⟨fun h => ⟨h, nofun⟩, And.left⟩
  | .turn _ _ => decidable_of_iff (NoGrowth w _) ⟨fun h => ⟨h, nofun⟩, And.left⟩
  | .remove _ _ => decidable_of_iff (NoGrowth w _) ⟨fun h => ⟨h, nofun⟩, And.left⟩
  | .output => decidable_of_iff (NoGrowth w _) ⟨fun h => ⟨h, nofun⟩, And.left⟩
  | .search _ => decidable_of_iff (NoGrowth w _) ⟨fun h => ⟨h, nofun⟩, And.left⟩
  | .leave => decidable_of_iff (NoGrowth w _) ⟨fun h => ⟨h, nofun⟩, And.left⟩

/-- Two records were filled, and the first of them is free again. -/
theorem capacity_of_guarded_removing : ∃ w s, exec step ⟨none, none⟩ twoEntriesSession = some w ∧
    w.session = some s ∧ s.filled = [1, 0] ∧ flagAt s.phoneBook 0 = some 0 ∧
      flagAt s.phoneBook 1 = some 1 ∧ HoldsRecords s ∧ FreshFree s := by
  have hguarded : Guarded step Contained ⟨none, none⟩ twoEntriesSession = true := by
    decide +kernel
  have hrun : ((exec step ⟨none, none⟩ twoEntriesSession).bind World.session).map (fun s =>
      (s.filled, flagAt s.phoneBook 0, flagAt s.phoneBook 1)) = some ([1, 0], some 0, some 1) := by
    decide +kernel
  obtain ⟨w, hw, hreach⟩ := Reach.of_guarded hguarded
  obtain ⟨s, hs, hsummary⟩ := Option.map_eq_some_iff.mp hrun
  rw [hw, Option.bind_some] at hs
  simp only [Prod.mk.injEq] at hsummary
  exact ⟨w, s, hw, hs, hsummary.1, hsummary.2.1, hsummary.2.2,
    capacity_of_guarded none hreach hs⟩

/-! ## The session in which the array is left behind -/

/-- Create a book, add four records and return to the menu. -/
def growingSession : List Action :=
  .run .create true ::
    ((List.replicate 4 [.turn [] fun _ => 0, .add true 0 shortEntry]).flatten ++
      [.turn [] fun _ => 0])

/-- At its fifth menu the session has `size_of_book = 10` and an array of 5 records. -/
theorem growth_breaks_capacity :
    ¬ ∀ w s, Reach step Anything ⟨none, none⟩ w → w.session = some s → s.phase = .menu →
      HoldsRecords s ∧ FreshFree s := by
  intro hclaim
  have hrun : ((exec step ⟨none, none⟩ growingSession).bind World.session).map
      (fun s => (s.phase, s.sizeOfBook, s.phoneBook.length)) = some (.menu, 10, 455) := by
    decide +kernel
  obtain ⟨s, hs, hsummary⟩ := Option.map_eq_some_iff.mp hrun
  obtain ⟨w, hw, hsession⟩ := Option.bind_eq_some_iff.mp hs
  simp only [Prod.mk.injEq] at hsummary
  obtain ⟨hmenu, hsize, hlen⟩ := hsummary
  have hholds := (hclaim w s (Reach.of_exec hw) hsession hmenu).1
  rw [HoldsRecords, hsize, hlen] at hholds
  simp [recordSize] at hholds

end PhoneBook
end EltSummer
