import EltSummer.Framework.Interleaving
import EltSummer.PhoneBook.Book

/-!
# Sessions of the phone book

`main` of `phone_book_main.c` sizes an array from the length of the storage file, creates or
loads a book, and then repeats: count the occupied records, grow the book if only one place
is left, run one menu action, ask whether to go on.  A session can end at any of these
points, and the only thing it leaves behind is the file, so the machine here carries the
file across sessions: its state is the file and, while the program runs, the locals of
`main`.

The growth test is where the source does not do what it means to.  Inside the `if` it
declares a second variable `phone_book`, initialised from itself; what `memory_reallocation`
receives is that variable's indeterminate value, and what it returns is stored in that
variable and goes out of scope.  `turn` therefore takes as parameters the block the
indeterminate pointer happens to denote and the bytes `realloc` happens to append, calls
`memoryReallocation` on them, and keeps only the new size.  The dialogue around the menu
choices (a wrong choice asks again) has no effect on the book and is not part of this
machine.

`loaded` and `filled` are ghosts: how many bytes came from the file, and which records
`add_new_string_to_book` has filled.
-/

namespace EltSummer
namespace PhoneBook

open Interleaving CString

/-- Where in the `while(1)` a session is. -/
inductive Phase
  /-- Before the count and the growth test. -/
  | top
  /-- At the menu: the next action is about to run. -/
  | menu
  deriving DecidableEq, Repr

/-- The locals of `main`, with the two ghosts. -/
structure Session where
  phase : Phase
  phoneBook : List UInt8
  sizeOfBook : ℕ
  loaded : ℕ
  filled : List ℕ
  deriving DecidableEq, Repr

/-- The storage file and the program, if it runs. -/
structure World where
  storage : Option (List UInt8)
  session : Option Session
  deriving DecidableEq, Repr

/-- `the_first_choice`. -/
inductive FirstChoice
  | create
  | load
  deriving DecidableEq, Repr

/-- The steps of the machine.  `opened` says whether `fopen` succeeds. -/
inductive Action
  | run (choice : FirstChoice) (opened : Bool)
  | turn (inner : List UInt8) (fresh : ℕ → UInt8)
  | add (opened : Bool) (uninit : UInt16) (e : Entry)
  | remove (opened : Bool) (lastname : Token)
  | output
  | search (lastname : Token)
  | leave

/-- `(FileSize(argv[1]) / (STR_SIZE*3)) + MEM_SIZE`, with the division of C. -/
def initialSize (storage : Option (List UInt8)) : ℕ :=
  ((fileSize storage).tdiv (strSize * 3) + memSize).toNat

/-- `calloc(size_of_book, sizeof(Str_On_Book))`. -/
def callocBook (sizeOfBook : ℕ) : List UInt8 := List.replicate (recordSize * sizeOfBook) 0

/-- The start of a session, up to the head of the `while(1)`.  A failed `fopen` exits. -/
def beginSession (storage : Option (List UInt8)) (choice : FirstChoice) (opened : Bool) :
    Option World :=
  let size := initialSize storage
  match choice, opened, storage with
  | .create, true, _ =>
      (createNewEmptyBook (callocBook size)).map fun file =>
        ⟨some file, some ⟨.top, callocBook size, size, 0, []⟩⟩
  | .load, true, some file =>
      (loadBookFromStorage (callocBook size) size file).map fun book =>
        ⟨some file, some ⟨.top, book, size, file.length, []⟩⟩
  | _, _, _ => some ⟨storage, none⟩

/-- The head of the `while(1)`: the count, and the growth when one place is left. -/
def turnTop (s : Session) (inner : List UInt8) (fresh : ℕ → UInt8) : Option Session :=
  (countOfUsingStrings s.phoneBook s.sizeOfBook).map fun count =>
    if count + 1 = s.sizeOfBook then
      -- the returned block belongs to the inner `phone_book`; the outer one is as before
      { s with phase := .menu, sizeOfBook := (memoryReallocation inner s.sizeOfBook fresh).2 }
    else { s with phase := .menu }

/-- One step of the machine. -/
def step (w : World) : Action → Option World
  | .run choice opened =>
      match w.session with
      | none => beginSession w.storage choice opened
      | some _ => none
  | .turn inner fresh =>
      match w.session with
      | some s =>
          if s.phase = .top then
            (turnTop s inner fresh).map fun s' => { w with session := some s' }
          else none
      | none => none
  | .add opened uninit e =>
      match w.session with
      | some s =>
          if s.phase = .menu then
            (addNewStringToBook s.phoneBook s.sizeOfBook uninit e).map fun r =>
              if opened then
                ⟨some r.2.2, some { s with
                  phase := .top, phoneBook := r.2.1, filled := r.1 :: s.filled }⟩
              else { w with session := none }
          else none
      | none => none
  | .remove opened lastname =>
      match w.session with
      | some s =>
          if s.phase = .menu then
            (removeStringFromBook s.phoneBook s.sizeOfBook lastname).map fun r =>
              if opened then
                ⟨some r.2.1, some { s with phase := .top, phoneBook := r.1 }⟩
              else { w with session := none }
          else none
      | none => none
  | .output =>
      match w.session with
      | some s =>
          if s.phase = .menu then
            (outputBookOnDisplay s.phoneBook s.sizeOfBook).map fun _ =>
              { w with session := some { s with phase := .top } }
          else none
      | none => none
  | .search lastname =>
      match w.session with
      | some s =>
          if s.phase = .menu then
            (searchStringWithLastname s.phoneBook s.sizeOfBook lastname).map fun _ =>
              { w with session := some { s with phase := .top } }
          else none
      | none => none
  | .leave =>
      match w.session with
      | some _ => some { w with session := none }
      | none => none

/-! ## What a step can do -/

/-- The session's part of a step, by the source's functions: the one place where the step
function is taken apart. -/
inductive Moves (w : World) : Action → World → Prop
  | fail {choice opened} (h : w.session = none) : Moves w (.run choice opened) ⟨w.storage, none⟩
  | create {file} (h : w.session = none)
      (hfile : createNewEmptyBook (callocBook (initialSize w.storage)) = some file) :
      Moves w (.run .create true) ⟨some file,
        some ⟨.top, callocBook (initialSize w.storage), initialSize w.storage, 0, []⟩⟩
  | load {file book} (h : w.session = none) (hfile : w.storage = some file)
      (hbook : loadBookFromStorage (callocBook (initialSize w.storage))
        (initialSize w.storage) file = some book) :
      Moves w (.run .load true) ⟨some file,
        some ⟨.top, book, initialSize w.storage, file.length, []⟩⟩
  | keepSize {s count inner fresh} (h : w.session = some s) (htop : s.phase = .top)
      (hcount : countOfUsingStrings s.phoneBook s.sizeOfBook = some count)
      (hroom : count + 1 ≠ s.sizeOfBook) :
      Moves w (.turn inner fresh) { w with session := some { s with phase := .menu } }
  | grow {s count inner fresh} (h : w.session = some s) (htop : s.phase = .top)
      (hcount : countOfUsingStrings s.phoneBook s.sizeOfBook = some count)
      (hfull : count + 1 = s.sizeOfBook) :
      Moves w (.turn inner fresh) { w with session := some { s with
        phase := .menu, sizeOfBook := s.sizeOfBook + memSize } }
  | add {s uninit e i book file} (h : w.session = some s) (hmenu : s.phase = .menu)
      (hadd : addNewStringToBook s.phoneBook s.sizeOfBook uninit e = some (i, book, file)) :
      Moves w (.add true uninit e) ⟨some file, some { s with
        phase := .top, phoneBook := book, filled := i :: s.filled }⟩
  | remove {s lastname book file count} (h : w.session = some s) (hmenu : s.phase = .menu)
      (hremove : removeStringFromBook s.phoneBook s.sizeOfBook lastname =
        some (book, file, count)) :
      Moves w (.remove true lastname) ⟨some file, some { s with
        phase := .top, phoneBook := book }⟩
  | look {s a} (h : w.session = some s) (hmenu : s.phase = .menu) :
      Moves w a { w with session := some { s with phase := .top } }
  | stop {a} : Moves w a { w with session := none }

lemma moves_of_beginSession {w w' : World} {choice : FirstChoice} {opened : Bool}
    (hnone : w.session = none) (h : beginSession w.storage choice opened = some w') :
    Moves w (.run choice opened) w' := by
  unfold beginSession at h
  split at h
  · obtain ⟨file, hfile, rfl⟩ := Option.map_eq_some_iff.mp h
    exact .create hnone hfile
  · rename_i hstorage
    obtain ⟨book, hbook, rfl⟩ := Option.map_eq_some_iff.mp h
    exact .load hnone hstorage hbook
  · obtain rfl := Option.some.inj h
    exact .fail hnone

/-- Every step is one of the moves. -/
theorem moves_of_step {w w' : World} {a : Action} (h : step w a = some w') : Moves w a w' := by
  cases hs : w.session with
  | none =>
      cases a with
      | run choice opened =>
          simp only [step, hs] at h
          exact moves_of_beginSession hs h
      | turn inner fresh => simp [step, hs] at h
      | add opened uninit e => simp [step, hs] at h
      | remove opened lastname => simp [step, hs] at h
      | output => simp [step, hs] at h
      | search lastname => simp [step, hs] at h
      | leave => simp [step, hs] at h
  | some s =>
      cases a with
      | run choice opened => simp [step, hs] at h
      | turn inner fresh =>
          simp only [step, hs, Option.ite_none_right_eq_some] at h
          obtain ⟨htop, h⟩ := h
          obtain ⟨s', hs', rfl⟩ := Option.map_eq_some_iff.mp h
          obtain ⟨count, hcount, rfl⟩ := Option.map_eq_some_iff.mp hs'
          by_cases hfull : count + 1 = s.sizeOfBook
          · rw [if_pos hfull]
            exact .grow hs htop hcount hfull
          · rw [if_neg hfull]
            exact .keepSize hs htop hcount hfull
      | add opened uninit e =>
          simp only [step, hs, Option.ite_none_right_eq_some] at h
          obtain ⟨hmenu, h⟩ := h
          obtain ⟨⟨i, book, file⟩, hadd, rfl⟩ := Option.map_eq_some_iff.mp h
          cases opened with
          | false => exact .stop
          | true => exact .add hs hmenu hadd
      | remove opened lastname =>
          simp only [step, hs, Option.ite_none_right_eq_some] at h
          obtain ⟨hmenu, h⟩ := h
          obtain ⟨⟨book, file, count⟩, hremove, rfl⟩ := Option.map_eq_some_iff.mp h
          cases opened with
          | false => exact .stop
          | true => exact .remove hs hmenu hremove
      | output =>
          simp only [step, hs, Option.ite_none_right_eq_some] at h
          obtain ⟨hmenu, h⟩ := h
          obtain ⟨-, -, rfl⟩ := Option.map_eq_some_iff.mp h
          exact .look hs hmenu
      | search lastname =>
          simp only [step, hs, Option.ite_none_right_eq_some] at h
          obtain ⟨hmenu, h⟩ := h
          obtain ⟨-, -, rfl⟩ := Option.map_eq_some_iff.mp h
          exact .look hs hmenu
      | leave =>
          simp only [step, hs, Option.some.injEq] at h
          obtain rfl := h
          exact .stop

/-- The growth test of `main` fires in this state: one record is left. -/
def GrowthDue (w : World) : Prop :=
  (w.session.bind fun s => (countOfUsingStrings s.phoneBook s.sizeOfBook).map fun count =>
    decide (count + 1 = s.sizeOfBook)) = some true

instance : DecidablePred GrowthDue := fun _ => inferInstanceAs (Decidable (_ = _))

lemma growthDue_of_count {w : World} {s : Session} {count : ℕ} (hs : w.session = some s)
    (hcount : countOfUsingStrings s.phoneBook s.sizeOfBook = some count)
    (hfull : count + 1 = s.sizeOfBook) : GrowthDue w := by
  simp [GrowthDue, hs, hcount, hfull]

/-- The guard of the runs that never call `memory_reallocation`. -/
def NoGrowth (w : World) : Action → Prop
  | .turn _ _ => ¬ GrowthDue w
  | _ => True

instance (w : World) : ∀ a, Decidable (NoGrowth w a)
  | .turn _ _ => inferInstanceAs (Decidable (¬ GrowthDue w))
  | .run _ _ | .add _ _ _ | .remove _ _ | .output | .search _ | .leave => .isTrue trivial

/-! ## A session -/

/-- A one-letter token. -/
def letter (c : UInt8) (h0 : c ≠ 0) (hs : isSpace c = false) : Token where
  bytes := [c]
  nonempty := by simp
  noNul := by simpa using h0.symm
  noSpace := by simpa using hs

/-- The entry `a`, `b`, `7`. -/
def shortEntry : Entry where
  lastName := letter 97 (by decide) (by decide)
  firstName := letter 98 (by decide) (by decide)
  phoneNumber := letter 55 (by decide) (by decide)

/-- Create a book, add `a` and `c`, and remove `a`. -/
def twoEntriesSession : List Action :=
  [.run .create true, .turn [] fun _ => 0, .add true 0 shortEntry, .turn [] fun _ => 0,
    .add true 0 { shortEntry with lastName := letter 99 (by decide) (by decide) },
    .turn [] fun _ => 0, .remove true shortEntry.lastName]

end PhoneBook
end EltSummer
