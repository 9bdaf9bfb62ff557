import EltSummer.PhoneBook.Dialogue
import EltSummer.PhoneBook.TypedActions

/-!
# The phone book program

`main` of `phone_book_main.c` with all it does: the questions of `Dialogue`, and behind the answers
the functions that work on the book and on what is typed.

A turn is one question and what follows from the answer, up to the next question.  It has no result
where the program leaves its memory, and none where the book is to grow: `memory_reallocation` is
called with the variable that is being initialised, so what `realloc` gets is nothing that was ever
a pointer.  (`Session` says what becomes of the book if `realloc` takes it all the same.)  So
`size_of_book` is what it was at the start.

Whoever looks at the questions only sees a run of `Dialogue` (`turn_of_mainTurn`).  Hence
`dialogue_ends_iff`: the program comes to its end exactly if each question it comes to is answered,
and what follows from the answer stays in its memory and does not let the book grow.
-/

namespace EltSummer
namespace PhoneBook

open Block CString Loop Scanf Turns

/-! ## The program -/

/-- What `main` does not decide: the storage as it is at the start, a regular file if there is one,
whether it can be opened for writing, now and later, and what the variables that are not initialised
hold in the calls of the actions, which are counted. -/
structure Environment where
  storage : Option (List UInt8)
  writable : Bool
  indexForAdd : ℕ → UInt16
  lastname : ℕ → List UInt8
  lastnameSize : ∀ n, (lastname n).length = strSize

/-- `size_of_book`. -/
def Environment.sizeOfBook (env : Environment) : ℕ := initialSize env.storage

def Environment.files (env : Environment) : Files where
  readable := env.storage.isSome
  writable := env.writable

/-- The choices and the unread input, with the array and the number of actions so far. -/
structure Main extends Dialogue where
  book : List UInt8
  calls : ℕ

/-- Up to the first question. -/
def Main.start (env : Environment) (first second final : UInt8) (input : List UInt8) : Main where
  toDialogue := .start first second final input
  book := callocBook env.sizeOfBook
  calls := 0

/-- The `scanf` of each question. -/
def Main.scan (s : Main) : Main := { s with toDialogue := s.toDialogue.scan }

/-- Behind `fopen`: the program goes on, or exits. -/
def Main.afterOpen (s : Main) (opened : Bool) : Turn Main Main :=
  if opened then .next s else .stop s

/-- The head of the `while(1)`: the count, and the growth. -/
def Main.head (env : Environment) (s : Main) : Option (Turn Main Main) :=
  (countOfUsingStrings s.book env.sizeOfBook).bind fun count =>
    -- `memory_reallocation` would get the value of a variable that has none
    if count + 1 = env.sizeOfBook then none else some (.next { s with question := .second })

/-- The tests behind `TryAgainTheFirstChoice`. -/
def Main.obeyFirst (env : Environment) (s : Main) : Option (Turn Main Main) :=
  if s.theFirstChoice = 1 then
    if env.writable then (createNewEmptyBook s.book).bind fun _ => s.head env
    else some (.stop { s with question := .second })
  else if s.theFirstChoice = 2 then
    match env.storage with
    | some file =>
        (loadBookFromStorage s.book env.sizeOfBook file).bind fun book =>
          { s with book := book }.head env
    | none => some (.stop { s with question := .second })
  else some (.next s)

/-- The `switch` behind `TryAgainTheSecondChoice`. -/
def Main.obeySecond (env : Environment) (s : Main) : Option (Turn Main Main) :=
  if s.theSecondChoice = 1 then
    (addTyped s.book env.sizeOfBook (env.indexForAdd s.calls) s.rest).map fun r =>
      { s with
        question := .final, rest := words 3 s.rest, book := r.2.1, calls := s.calls + 1
      }.afterOpen env.writable
  else if s.theSecondChoice = 2 then
    (removeTyped s.book env.sizeOfBook (env.lastname s.calls) s.rest).map fun r =>
      { s with
        question := .final, rest := words 1 s.rest, book := r.1, calls := s.calls + 1
      }.afterOpen env.writable
  else if s.theSecondChoice = 3 then
    (outputBookOnDisplay s.book env.sizeOfBook).map fun _ => .next { s with question := .final }
  else if s.theSecondChoice = 4 then
    (searchTyped s.book env.sizeOfBook (env.lastname s.calls) s.rest).map fun _ =>
      .next { s with question := .final, rest := words 1 s.rest, calls := s.calls + 1 }
  else some (.next s)

/-- The tests behind `TryAgainTheFinalChoice`. -/
def Main.obeyFinal (env : Environment) (s : Main) : Option (Turn Main Main) :=
  if s.theFinalChoice = 1 then s.head env
  else if s.theFinalChoice = 2 then some (.stop s)
  else some (.next s)

def Main.obey (env : Environment) (s : Main) : Option (Turn Main Main) :=
  match s.question with
  | .first => s.obeyFirst env
  | .second => s.obeySecond env
  | .final => s.obeyFinal env

/-- One question and what follows from the answer. -/
def mainTurn (env : Environment) (s : Main) : Option (Turn Main Main) := s.scan.obey env

/-! ## What stays in its memory -/

/-- One record is left, so the book is to grow. -/
def Full (book : List UInt8) (sizeOfBook : ℕ) : Prop :=
  (countOfUsingStrings book sizeOfBook).map (· + 1) = some sizeOfBook

/-- What follows from the answer that has been read stays in its memory. -/
def Main.Stays (env : Environment) (s : Main) : Prop :=
  match s.question with
  | .first => True
  | .second =>
      (s.theSecondChoice = 1 →
        AddStays s.book env.sizeOfBook (env.indexForAdd s.calls) s.rest) ∧
      (s.theSecondChoice = 2 →
        RemoveStays s.book env.sizeOfBook (env.lastname s.calls) s.rest) ∧
      (s.theSecondChoice = 3 → ShowStays s.book env.sizeOfBook) ∧
      (s.theSecondChoice = 4 →
        SearchStays s.book env.sizeOfBook (env.lastname s.calls) s.rest)
  | .final => s.theFinalChoice = 1 → ¬ Full s.book env.sizeOfBook

/-- What every turn keeps: the array has `size_of_book` records, and before the first answer they
are zero. -/
structure Sized (env : Environment) (s : Main) : Prop where
  length : s.book.length = recordSize * env.sizeOfBook
  fresh : s.question = .first → s.book = callocBook env.sizeOfBook

variable {env : Environment} {s s' : Main} {r : Turn Main Main} {book : List UInt8}
  {sizeOfBook : ℕ}

/-! ## The head of the loop -/

lemma exists_count (hlen : book.length = recordSize * sizeOfBook) :
    ∃ count, countOfUsingStrings book sizeOfBook = some count := by
  have htotal : ∃ count, countOfUsingStrings book sizeOfBook = some count ∧ True := by
    refine forUpTo_total (I := fun _ _ => True) trivial fun i hi c _ => ?_
    obtain ⟨flag, hflag⟩ := exists_flagAt hlen hi
    exact ⟨_, by rw [hflag, Option.map_some], trivial⟩
  exact htotal.imp fun count hcount => hcount.1

lemma head_isSome_iff (hlen : s.book.length = recordSize * env.sizeOfBook) :
    (s.head env).isSome ↔ ¬ Full s.book env.sizeOfBook := by
  obtain ⟨count, hcount⟩ := exists_count hlen
  unfold Main.head Full
  rw [hcount, Option.bind_some, Option.map_some, Option.some.injEq]
  split
  · rename_i hfull
    simp [hfull]
  · rename_i hroom
    simp [hroom]

lemma head_eq_some (h : s.head env = some r) : r = .next { s with question := .second } := by
  obtain ⟨count, -, h⟩ := Option.bind_eq_some_iff.mp h
  split at h
  · cases h
  · exact (Option.some.inj h).symm

/-- A book in which nobody occupies the last records is not full. -/
lemma not_full_of_free {k : ℕ} (hk : k + 1 < sizeOfBook)
    (hfree : ∀ i < sizeOfBook, k ≤ i → flagAt book i ≠ some 1) : ¬ Full book sizeOfBook := by
  intro hfull
  obtain ⟨count, hcount, hsize⟩ := Option.map_eq_some_iff.mp hfull
  have hle : count ≤ sizeOfBook ∧ count ≤ k := by
    refine forUpTo_invariant (I := fun i c => c ≤ i ∧ c ≤ k) ⟨le_rfl, Nat.zero_le k⟩
      (fun i hi u v hu hv => ?_) hcount
    obtain ⟨flag, hflag, rfl⟩ := Option.map_eq_some_iff.mp hv
    split
    · rename_i hone
      have hlt : i < k := not_le.mp fun hki => hfree i hi hki (hone ▸ hflag)
      omega
    · omega
  omega

/-- A new book has room. -/
lemma not_full_callocBook (storage : Option (List UInt8)) :
    ¬ Full (callocBook (initialSize storage)) (initialSize storage) := by
  have hsize := memSize_le_initialSize storage
  refine not_full_of_free (k := 0) (by rw [memSize] at hsize; omega) fun i hi _ => ?_
  rw [flagAt_callocBook (Nat.mul_le_mul_left _ hi)]
  simp

/-- A book that has just been loaded has room. -/
lemma not_full_loaded {file : List UInt8}
    (h : loadBookFromStorage (callocBook (initialSize (some file))) (initialSize (some file)) file =
      some book) : ¬ Full book (initialSize (some file)) := by
  have hsize := initialSize_some file
  refine not_full_of_free (k := file.length / recordSize) (by rw [recordSize]; omega)
    fun i hi hki => ?_
  have hbeyond : file.length ≤ flagOff i := by
    simp only [flagOff, recordSize, strSize] at hki ⊢
    omega
  rw [flagAt, (loadBookFromStorage_spec h).2 _ hbeyond]
  exact (flagAt_callocBook (Nat.mul_le_mul_left _ hi)).trans_ne (by simp)

/-! ## One question at a time -/

/-- The first question leads to the menu, to an exit, or to itself. -/
lemma obeyFirst_isSome (hs : s.book = callocBook env.sizeOfBook) : (s.obeyFirst env).isSome := by
  have hlen : s.book.length = recordSize * env.sizeOfBook := by rw [hs, length_callocBook]
  unfold Main.obeyFirst
  split
  · split
    · obtain ⟨file, hfile⟩ : ∃ file, createNewEmptyBook s.book = some file :=
        ⟨_, fwrite_eq_some.mpr ⟨by
          rw [hlen]
          exact Nat.mul_le_mul_left _ (memSize_le_initialSize _), rfl⟩⟩
      rw [hfile, Option.bind_some, head_isSome_iff hlen, hs]
      exact not_full_callocBook env.storage
    · rfl
  split
  · cases hstorage : env.storage with
    | none => rfl
    | some file =>
        have hsize : env.sizeOfBook = initialSize (some file) := by
          rw [Environment.sizeOfBook, hstorage]
        obtain ⟨book, hbook⟩ := exists_load file
        rw [← hsize, ← hs] at hbook
        dsimp only
        rw [hbook, Option.bind_some, head_isSome_iff (by rw [length_writeAt hbook, hlen])]
        rw [hs, hsize] at hbook
        rw [hsize]
        exact not_full_loaded hbook
  · rfl

/-- The menu. -/
lemma obeySecond_isSome_iff (hlen : s.book.length = recordSize * env.sizeOfBook)
    (hquestion : s.question = .second) : (s.obeySecond env).isSome ↔ s.Stays env := by
  unfold Main.obeySecond Main.Stays
  simp only [hquestion]
  split
  · rename_i hone
    simp [hone, addTyped_isSome_iff hlen]
  split
  · rename_i htwo
    simp [htwo, removeTyped_isSome_iff hlen (env.lastnameSize _)]
  split
  · rename_i hthree
    simp [hthree, output_isSome_iff hlen]
  split
  · rename_i hfour
    simp [hfour, searchTyped_isSome_iff (env.lastnameSize _)]
  · rename_i hone htwo hthree hfour
    simp [hone, htwo, hthree, hfour]

lemma obeyFinal_isSome_iff (hlen : s.book.length = recordSize * env.sizeOfBook)
    (hquestion : s.question = .final) : (s.obeyFinal env).isSome ↔ s.Stays env := by
  unfold Main.obeyFinal Main.Stays
  simp only [hquestion]
  split
  · rename_i hone
    simp [hone, head_isSome_iff hlen]
  · rename_i hone
    split
    · simp [hone]
    · simp [hone]

lemma Sized.scan (h : Sized env s) : Sized env s.scan := by
  refine ⟨h.length, fun hquestion => h.fresh ?_⟩
  rwa [Main.scan, question_scan] at hquestion

/-- **A turn has a result exactly if what follows from the answer stays in its memory.** -/
lemma mainTurn_isSome_iff (h : Sized env s) : (mainTurn env s).isSome ↔ s.scan.Stays env := by
  have hscan := h.scan
  unfold mainTurn Main.obey
  cases hquestion : s.scan.question with
  | first =>
      refine iff_of_true (obeyFirst_isSome (hscan.fresh hquestion)) ?_
      unfold Main.Stays
      rw [hquestion]
      trivial
  | second => exact obeySecond_isSome_iff hscan.length hquestion
  | final => exact obeyFinal_isSome_iff hscan.length hquestion

/-! ## What a turn can do -/

/-- The turn `r` of the program is the turn `d` of the dialogue; the book stays as large as it is,
and only a first question that is asked again is behind a first question. -/
structure Follows (s : Main) (r : Turn Main Main) (d : Turn Dialogue Dialogue) : Prop where
  projects : d = r.map Main.toDialogue Main.toDialogue
  keeps : ∀ s', r = .next s' → s'.book.length = s.book.length ∧ (s'.question = .first → s' = s)

lemma Follows.stop (t : Main) : Follows s (.stop t) (.stop t.toDialogue) := ⟨rfl, by simp⟩

lemma Follows.next {t : Main} (hlen : t.book.length = s.book.length)
    (hquestion : t.question ≠ .first) : Follows s (.next t) (.next t.toDialogue) :=
  ⟨rfl, by rintro _ ⟨⟩; exact ⟨hlen, fun h => absurd h hquestion⟩⟩

lemma Follows.again : Follows s (.next s) (.next s.toDialogue) :=
  ⟨rfl, by rintro _ ⟨⟩; exact ⟨rfl, fun _ => rfl⟩⟩

lemma Follows.afterOpen {t : Main} (hlen : t.book.length = s.book.length)
    (hquestion : t.question ≠ .first) (opened : Bool) :
    Follows s (t.afterOpen opened) (t.toDialogue.afterOpen opened) := by
  cases opened with
  | false => exact .stop t
  | true => exact .next hlen hquestion

lemma obeyFirst_follows (h : s.obeyFirst env = some r) :
    Follows s r (s.toDialogue.obeyFirst env.files) := by
  unfold Main.obeyFirst at h
  unfold Dialogue.obeyFirst Dialogue.afterOpen Environment.files
  dsimp only
  split at h
  · rename_i hone
    rw [if_pos hone]
    split at h
    · rename_i hopened
      obtain ⟨file, -, h⟩ := Option.bind_eq_some_iff.mp h
      rw [if_pos hopened, head_eq_some h]
      exact .next rfl (by simp)
    · rename_i hfailed
      rw [if_neg hfailed, ← Option.some.inj h]
      exact .stop _
  rename_i hone
  rw [if_neg hone]
  split at h
  · rename_i htwo
    rw [if_pos htwo]
    split at h
    · rename_i file hstorage
      obtain ⟨book, hbook, h⟩ := Option.bind_eq_some_iff.mp h
      rw [hstorage, head_eq_some h]
      exact .next (length_writeAt hbook) (by simp)
    · rename_i hstorage
      rw [hstorage, ← Option.some.inj h]
      exact .stop _
  · rename_i htwo
    rw [if_neg htwo, ← Option.some.inj h]
    exact .again

lemma obeySecond_follows (h : s.obeySecond env = some r) :
    Follows s r (s.toDialogue.obeySecond env.files) := by
  unfold Main.obeySecond at h
  unfold Dialogue.obeySecond
  split at h
  · rename_i hone
    obtain ⟨a, ha, rfl⟩ := Option.map_eq_some_iff.mp h
    rw [if_pos hone]
    exact .afterOpen (length_addTyped ha) (by simp) env.writable
  rename_i hone
  rw [if_neg hone]
  split at h
  · rename_i htwo
    obtain ⟨a, ha, rfl⟩ := Option.map_eq_some_iff.mp h
    rw [if_pos htwo]
    exact .afterOpen (length_removeTyped ha) (by simp) env.writable
  rename_i htwo
  rw [if_neg htwo]
  split at h
  · rename_i hthree
    obtain ⟨a, -, rfl⟩ := Option.map_eq_some_iff.mp h
    rw [if_pos hthree]
    exact .next rfl (by simp)
  rename_i hthree
  rw [if_neg hthree]
  split at h
  · rename_i hfour
    obtain ⟨a, -, rfl⟩ := Option.map_eq_some_iff.mp h
    rw [if_pos hfour]
    exact .next rfl (by simp)
  · rename_i hfour
    rw [if_neg hfour, ← Option.some.inj h]
    exact .again

lemma obeyFinal_follows (h : s.obeyFinal env = some r) :
    Follows s r s.toDialogue.obeyFinal := by
  unfold Main.obeyFinal at h
  unfold Dialogue.obeyFinal
  split at h
  · rename_i hone
    rw [if_pos hone, head_eq_some h]
    exact .next rfl (by simp)
  rename_i hone
  rw [if_neg hone]
  split at h
  · rename_i htwo
    rw [if_pos htwo, ← Option.some.inj h]
    exact .stop s
  · rename_i htwo
    rw [if_neg htwo, ← Option.some.inj h]
    exact .again

lemma mainTurn_follows (h : mainTurn env s = some r) :
    Follows s.scan r (s.toDialogue.scan.obey env.files) := by
  unfold mainTurn Main.obey at h
  unfold Dialogue.obey
  have hscan : s.toDialogue.scan = s.scan.toDialogue := rfl
  rw [hscan]
  cases hquestion : s.scan.question with
  | first =>
      rw [hquestion] at h
      exact obeyFirst_follows h
  | second =>
      rw [hquestion] at h
      exact obeySecond_follows h
  | final =>
      rw [hquestion] at h
      exact obeyFinal_follows h

/-- **A turn of the program is one of the dialogue.** -/
theorem turn_of_mainTurn (h : mainTurn env s = some r) :
    turn env.files s.toDialogue = some (r.map Main.toDialogue Main.toDialogue) := by
  rw [turn, (mainTurn_follows h).projects]

lemma Sized.turn (h : Sized env s) (hturn : mainTurn env s = some (.next s')) : Sized env s' := by
  obtain ⟨hlen, hfirst⟩ := (mainTurn_follows hturn).keeps s' rfl
  refine ⟨hlen.trans h.scan.length, fun hquestion => ?_⟩
  have hsame := hfirst hquestion
  rw [hsame] at hquestion ⊢
  exact h.scan.fresh hquestion

lemma sized_of_leads {first second final : UInt8} {input : List UInt8}
    (h : Leads (mainTurn env) (.start env first second final input) s) : Sized env s :=
  h.invariant ⟨length_callocBook _, fun _ => rfl⟩ fun _ _ hu hturn => hu.turn hturn

/-! ## The end -/

/-- **When the program ends**: exactly when every question it comes to is answered, by the input
or by what the variables hold, and what follows from the answer stays in its memory and does not
let the book grow. -/
theorem dialogue_ends_iff (env : Environment) (first second final : UInt8) (input : List UInt8) :
    (∃ t, Ends (mainTurn env) (.start env first second final input) t) ↔
      ∀ s, Leads (mainTurn env) (.start env first second final input) s →
        s.Answered env.files ∧ s.scan.Stays env := by
  apply ends_iff_forall_leads fun s => s.measure
  · rintro s hs ⟨hanswered, hstays⟩
    have hturn := (mainTurn_isSome_iff (sized_of_leads hs)).mpr hstays
    obtain ⟨r, hr⟩ := Option.isSome_iff_exists.mp hturn
    have hprojects := turn_of_mainTurn hr
    cases r with
    | stop t => exact Or.inl ⟨t, hr⟩
    | next s' =>
        rcases hanswered.progresses with ⟨t, ht⟩ | ⟨u, hu, hlt⟩
        · rw [ht] at hprojects
          cases hprojects
        · rw [hu] at hprojects
          cases hprojects
          exact Or.inr ⟨s', hr, hlt⟩
  · intro s t hs hbad hends
    by_cases hstays : s.scan.Stays env
    · refine not_ends_of_not_answered (fun hanswered => hbad ⟨hanswered, hstays⟩)
        (hends.map fun _ _ => turn_of_mainTurn)
    · -- the turn has no result
      rw [← mainTurn_isSome_iff (sized_of_leads hs), Option.not_isSome_iff_eq_none] at hstays
      exact hends.not_fails (fails_of_none hstays)

/-- No storage yet, and zeros in the variables. -/
def noStorage : Environment where
  storage := none
  writable := true
  indexForAdd := fun _ => 0
  lastname := fun _ => List.replicate strSize 0
  lastnameSize := fun _ => List.length_replicate

/-- A book is created, `a`, `b` and `7` are added, and the program is left. -/
example :
    (match run (mainTurn noStorage) 3
        (.start noStorage 0 0 0 [49, 32, 49, 32, 97, 32, 98, 32, 55, 32, 50]) with
      | .ended t => printed t.book 0
      | _ => none) = some ([97], [98], [55]) := by
  decide +kernel

/-- Nothing is typed, and the variable of the first question holds 0. -/
theorem empty_input_is_asked_for_ever :
    ¬ ∀ (env : Environment) (first second final : UInt8) (input : List UInt8),
      ∃ t, Ends (mainTurn env) (.start env first second final input) t := by
  intro hclaim
  obtain ⟨t, ht⟩ := hclaim noStorage 0 0 0 []
  refine not_ends_of_not_answered (fun h => ?_) (ht.map fun _ _ => turn_of_mainTurn)
  have hanswer : (0 : UInt8) = 1 ∨ (0 : UInt8) = 2 := h stuck_nil
  exact absurd hanswer (by decide)

end PhoneBook
end EltSummer
