import EltSummer.Framework.Scanf
import EltSummer.Framework.Turns

/-!
# The dialogue of the phone book

`phone_book_main.c` asks three questions, each in a loop that asks again while the answer is
none of the menu: whether to create a book or to load one, what to do, and whether to go on.  An
answer is what `scanf("%hhu")` stores in a variable that has not been initialised, and where
`scanf` stores nothing the variable keeps what it holds.

Input that is no number is not read, so a question may be asked again and again with the same
input before it.  Then all depends on what the variables hold.  A question that is answered, by
the input or by its variable, leads on to the end or to something that is read
(`Answered.progresses`), and from one that is not there is no end (`not_ends_of_not_answered`).

The variables of one name are one place in memory, in every turn of the `while`.  This is what
`main` does as far as the questions go: of the actions, how many words they read and whether they
can open the file.  What they do with the book is added in `Program`.
-/

namespace EltSummer
namespace PhoneBook

open Scanf Turns

/-- The question that is asked next. -/
inductive Question
  | first
  | second
  | final
  deriving DecidableEq, Repr

/-- The choices of `main`, and the input that has not been read. -/
structure Dialogue where
  question : Question
  theFirstChoice : UInt8
  theSecondChoice : UInt8
  theFinalChoice : UInt8
  rest : List UInt8
  deriving DecidableEq, Repr

/-- Whether `fopen` opens the storage. -/
structure Files where
  readable : Bool
  writable : Bool
  deriving DecidableEq, Repr

/-- Up to the first question. -/
def Dialogue.start (first second final : UInt8) (input : List UInt8) : Dialogue :=
  ⟨.first, first, second, final, input⟩

/-- What `scanf("%hhu", &choice)` leaves in `choice`. -/
def scanChoice (choice : UInt8) (input : List UInt8) : UInt8 :=
  ((integer input).1.map toUChar).getD choice

/-- The `scanf` of each question. -/
def Dialogue.scan (s : Dialogue) : Dialogue :=
  let rest := (integer s.rest).2
  match s.question with
  | .first => { s with theFirstChoice := scanChoice s.theFirstChoice s.rest, rest := rest }
  | .second => { s with theSecondChoice := scanChoice s.theSecondChoice s.rest, rest := rest }
  | .final => { s with theFinalChoice := scanChoice s.theFinalChoice s.rest, rest := rest }

/-- Behind `fopen`: the dialogue goes on, or the program exits. -/
def Dialogue.afterOpen (s : Dialogue) (opened : Bool) : Turn Dialogue Dialogue :=
  if opened then .next s else .stop s

/-- The tests behind `TryAgainTheFirstChoice`. -/
def Dialogue.obeyFirst (files : Files) (s : Dialogue) : Turn Dialogue Dialogue :=
  if s.theFirstChoice = 1 then { s with question := .second }.afterOpen files.writable
  else if s.theFirstChoice = 2 then { s with question := .second }.afterOpen files.readable
  else .next s

/-- The `switch` behind `TryAgainTheSecondChoice`, with what the actions read. -/
def Dialogue.obeySecond (files : Files) (s : Dialogue) : Turn Dialogue Dialogue :=
  if s.theSecondChoice = 1 then
    { s with question := .final, rest := words 3 s.rest }.afterOpen files.writable
  else if s.theSecondChoice = 2 then
    { s with question := .final, rest := words 1 s.rest }.afterOpen files.writable
  else if s.theSecondChoice = 3 then .next { s with question := .final }
  else if s.theSecondChoice = 4 then .next { s with question := .final, rest := words 1 s.rest }
  else .next s

/-- The tests behind `TryAgainTheFinalChoice`. -/
def Dialogue.obeyFinal (s : Dialogue) : Turn Dialogue Dialogue :=
  if s.theFinalChoice = 1 then .next { s with question := .second }
  else if s.theFinalChoice = 2 then .stop s
  else .next s

def Dialogue.obey (files : Files) (s : Dialogue) : Turn Dialogue Dialogue :=
  match s.question with
  | .first => s.obeyFirst files
  | .second => s.obeySecond files
  | .final => s.obeyFinal

/-- One question and what follows from the answer. -/
def turn (files : Files) (s : Dialogue) : Option (Turn Dialogue Dialogue) :=
  some (s.scan.obey files)

/-! ## Questions that are not answered by the input -/

/-- From the menu, without a number in front, the dialogue comes to an action that reads a word,
or to an end. -/
def Dialogue.MovesOn (files : Files) (s : Dialogue) : Prop :=
  ((s.theSecondChoice = 1 ∨ s.theSecondChoice = 2) ∧
      (s.rest ≠ [] ∨ files.writable = false ∨ s.theFinalChoice = 2)) ∨
    (s.theSecondChoice = 3 ∧ s.theFinalChoice = 2) ∨
    (s.theSecondChoice = 4 ∧ (s.rest ≠ [] ∨ s.theFinalChoice = 2))

/-- Where no number can be read, what the variables hold is an answer. -/
def Dialogue.Answered (files : Files) (s : Dialogue) : Prop :=
  Stuck s.rest →
    match s.question with
    | .first => s.theFirstChoice = 1 ∨ s.theFirstChoice = 2
    | .second => s.MovesOn files
    | .final => s.theFinalChoice = 1 ∨ s.theFinalChoice = 2

/-- What is left to do: to read the input, and, between two things read, to get from one question
to the next. -/
def Dialogue.measure (s : Dialogue) : ℕ :=
  4 * s.rest.length +
    match s.question with
    | .first => 3
    | .second => 1
    | .final => if s.theFinalChoice = 1 then 2 else 0

variable {files : Files} {s s' : Dialogue}

lemma rest_scan (s : Dialogue) : s.scan.rest = (integer s.rest).2 := by
  unfold Dialogue.scan
  split <;> rfl

lemma question_scan (s : Dialogue) : s.scan.question = s.question := by
  unfold Dialogue.scan
  cases hquestion : s.question <;> rfl

/-- Without a number in front, `scanf` changes nothing. -/
lemma scan_of_stuck (h : Stuck s.rest) : s.scan = s := by
  unfold Dialogue.scan scanChoice
  rw [h]
  split <;> rfl

lemma measure_le (s : Dialogue) : s.measure ≤ 4 * s.rest.length + 3 := by
  unfold Dialogue.measure
  split
  · omega
  · omega
  · split <;> omega

lemma afterOpen_eq_next {opened : Bool} (h : s.afterOpen opened = .next s') : s = s' := by
  unfold Dialogue.afterOpen at h
  split at h
  · exact Turn.next.inj h
  · cases h

/-- Nothing is put back into the input. -/
lemma length_obey_le (h : s.obey files = .next s') : s'.rest.length ≤ s.rest.length := by
  unfold Dialogue.obey at h
  split at h
  · unfold Dialogue.obeyFirst at h
    split at h
    · rw [← afterOpen_eq_next h]
    split at h
    · rw [← afterOpen_eq_next h]
    · rw [← Turn.next.inj h]
  · unfold Dialogue.obeySecond at h
    split at h
    · rw [← afterOpen_eq_next h]
      exact length_words_le _ _
    split at h
    · rw [← afterOpen_eq_next h]
      exact length_words_le _ _
    split at h
    · rw [← Turn.next.inj h]
    split at h
    · rw [← Turn.next.inj h]
      exact length_words_le _ _
    · rw [← Turn.next.inj h]
  · unfold Dialogue.obeyFinal at h
    split at h
    · rw [← Turn.next.inj h]
    split at h
    · cases h
    · rw [← Turn.next.inj h]

/-- A turn that reads something leaves less to do. -/
lemma measure_lt_of_not_stuck (hstuck : ¬ Stuck s.rest) (h : s.scan.obey files = .next s') :
    s'.measure < s.measure := by
  have hread := length_integer_lt hstuck
  have hrest := length_obey_le h
  rw [rest_scan] at hrest
  have hle := measure_le s'
  have hge : 4 * s.rest.length ≤ s.measure := Nat.le_add_right _ _
  omega

/-! ## The end -/

/-- A turn ends the program, or leaves less to do. -/
def Progresses (files : Files) (s : Dialogue) : Prop :=
  (∃ t, s.obey files = .stop t) ∨ ∃ s', s.obey files = .next s' ∧ s'.measure < s.measure

lemma progresses_of_afterOpen {opened : Bool} (hobey : s.obey files = s'.afterOpen opened)
    (hlt : opened = true → s'.measure < s.measure) : Progresses files s := by
  cases hopened : opened with
  | true => exact Or.inr ⟨s', by rw [hobey, hopened]; rfl, hlt hopened⟩
  | false => exact Or.inl ⟨s', by rw [hobey, hopened]; rfl⟩

lemma progresses_first (hquestion : s.question = .first)
    (h : s.theFirstChoice = 1 ∨ s.theFirstChoice = 2) : Progresses files s := by
  have hlt : ({ s with question := .second } : Dialogue).measure < s.measure := by
    simp only [Dialogue.measure, hquestion]
    omega
  have hobey : s.obey files = s.obeyFirst files := by rw [Dialogue.obey, hquestion]
  unfold Dialogue.obeyFirst at hobey
  rcases h with hone | htwo
  · rw [if_pos hone] at hobey
    exact progresses_of_afterOpen hobey fun _ => hlt
  · rw [if_neg (by rw [htwo]; decide), if_pos htwo] at hobey
    exact progresses_of_afterOpen hobey fun _ => hlt

/-- From the menu to the last question: a word is read, or the last question ends the program. -/
lemma measure_final_lt {n : ℕ} (hstuck : Stuck s.rest) (hquestion : s.question = .second)
    (h : s.rest ≠ [] ∨ s.theFinalChoice = 2) :
    ({ s with question := .final, rest := words (n + 1) s.rest } : Dialogue).measure <
      s.measure := by
  have hle := length_words_le (n + 1) s.rest
  simp only [Dialogue.measure, hquestion]
  rcases h with hne | hfinal
  · have hlt := hstuck.length_words_lt (n := n) hne
    split <;> omega
  · rw [hfinal, if_neg (by decide)]
    omega

lemma progresses_second (hstuck : Stuck s.rest) (hquestion : s.question = .second)
    (h : s.MovesOn files) : Progresses files s := by
  have hobey : s.obey files = s.obeySecond files := by rw [Dialogue.obey, hquestion]
  unfold Dialogue.obeySecond at hobey
  rcases h with ⟨hone | htwo, hreads⟩ | ⟨hthree, hfinal⟩ | ⟨hfour, hreads⟩
  · rw [if_pos hone] at hobey
    refine progresses_of_afterOpen hobey fun hopened => measure_final_lt hstuck hquestion ?_
    simpa [hopened] using hreads
  · rw [if_neg (by rw [htwo]; decide), if_pos htwo] at hobey
    refine progresses_of_afterOpen hobey fun hopened => measure_final_lt hstuck hquestion ?_
    simpa [hopened] using hreads
  · rw [if_neg (by rw [hthree]; decide), if_neg (by rw [hthree]; decide), if_pos hthree] at hobey
    refine Or.inr ⟨_, hobey, ?_⟩
    simp only [Dialogue.measure, hquestion, hfinal]
    rw [if_neg (by decide)]
    omega
  · rw [if_neg (by rw [hfour]; decide), if_neg (by rw [hfour]; decide),
      if_neg (by rw [hfour]; decide), if_pos hfour] at hobey
    exact Or.inr ⟨_, hobey, measure_final_lt hstuck hquestion hreads⟩

lemma progresses_final (hquestion : s.question = .final)
    (h : s.theFinalChoice = 1 ∨ s.theFinalChoice = 2) : Progresses files s := by
  have hobey : s.obey files = s.obeyFinal := by rw [Dialogue.obey, hquestion]
  unfold Dialogue.obeyFinal at hobey
  rcases h with hone | htwo
  · rw [if_pos hone] at hobey
    refine Or.inr ⟨_, hobey, ?_⟩
    simp only [Dialogue.measure, hquestion, if_pos hone]
    omega
  · rw [if_neg (by rw [htwo]; decide), if_pos htwo] at hobey
    exact Or.inl ⟨s, hobey⟩

/-- A question that is answered leads on. -/
lemma Dialogue.Answered.progresses (h : s.Answered files) :
    (∃ t, turn files s = some (.stop t)) ∨
      ∃ s', turn files s = some (.next s') ∧ s'.measure < s.measure := by
  by_cases hstuck : Stuck s.rest
  · have hanswered := h hstuck
    have hprogress : Progresses files s := by
      cases hquestion : s.question with
      | first => exact progresses_first hquestion (by simpa only [hquestion] using hanswered)
      | second =>
          exact progresses_second hstuck hquestion (by simpa only [hquestion] using hanswered)
      | final => exact progresses_final hquestion (by simpa only [hquestion] using hanswered)
    simpa only [turn, scan_of_stuck hstuck, Option.some.injEq, Progresses] using hprogress
  · cases hobey : s.scan.obey files with
    | next s' =>
        exact Or.inr ⟨s', by rw [turn, hobey], measure_lt_of_not_stuck hstuck hobey⟩
    | stop t => exact Or.inl ⟨t, by rw [turn, hobey]⟩

/-! ## No end -/

/-- A question without a number in front of it that the variables do not answer, or answer by
going round to such a one. -/
def Trapped (files : Files) (s : Dialogue) : Prop :=
  Stuck s.rest ∧
    match s.question with
    | .first => s.theFirstChoice ≠ 1 ∧ s.theFirstChoice ≠ 2
    | .second => ¬ s.MovesOn files
    | .final => s.theFinalChoice ≠ 2 ∧ (s.theFinalChoice = 1 → ¬ s.MovesOn files)

lemma trapped_of_not_answered (h : ¬ s.Answered files) : Trapped files s := by
  obtain ⟨hstuck, hno⟩ := Classical.not_imp.mp h
  refine ⟨hstuck, ?_⟩
  split at hno
  · exact not_or.mp hno
  · exact hno
  · obtain ⟨hone, htwo⟩ := not_or.mp hno
    exact ⟨htwo, fun h => absurd h hone⟩

/-- Who is trapped at the menu is trapped at the last question. -/
lemma trapped_final {rest : List UInt8} (hrest : rest = s.rest) (hstuck : Stuck s.rest)
    (hno : ¬ s.MovesOn files) (hfinal : s.theFinalChoice ≠ 2) :
    Trapped files { s with question := .final, rest := rest } := by
  subst hrest
  exact ⟨hstuck, hfinal, fun _ => hno⟩

lemma obey_second_of_trapped (hstuck : Stuck s.rest) (hquestion : s.question = .second)
    (hno : ¬ s.MovesOn files) : ∃ s', s.obey files = .next s' ∧ Trapped files s' := by
  have hobey : s.obey files = s.obeySecond files := by rw [Dialogue.obey, hquestion]
  rw [hobey]
  have hcases := hno
  simp only [Dialogue.MovesOn, not_or, not_and, not_not, Bool.not_eq_false] at hcases
  obtain ⟨hopen, hshow, hsearch⟩ := hcases
  unfold Dialogue.obeySecond
  split
  · rename_i hone
    obtain ⟨hnil, hwritable, hfinal⟩ := hopen (Or.inl hone)
    rw [hwritable]
    exact ⟨_, rfl, trapped_final (by rw [hnil, words_nil]) hstuck hno hfinal⟩
  split
  · rename_i htwo
    obtain ⟨hnil, hwritable, hfinal⟩ := hopen (Or.inr htwo)
    rw [hwritable]
    exact ⟨_, rfl, trapped_final (by rw [hnil, words_nil]) hstuck hno hfinal⟩
  split
  · rename_i hthree
    exact ⟨_, rfl, trapped_final rfl hstuck hno (hshow hthree)⟩
  split
  · rename_i hfour
    obtain ⟨hnil, hfinal⟩ := hsearch hfour
    exact ⟨_, rfl, trapped_final (by rw [hnil, words_nil]) hstuck hno hfinal⟩
  · refine ⟨s, rfl, hstuck, ?_⟩
    rw [hquestion]
    exact hno

/-- A trap is not left. -/
lemma Trapped.turn (h : Trapped files s) :
    ∃ s', PhoneBook.turn files s = some (.next s') ∧ Trapped files s' := by
  obtain ⟨hstuck, hno⟩ := h
  have hobey : ∃ s', s.obey files = .next s' ∧ Trapped files s' := by
    cases hquestion : s.question with
    | first =>
        rw [hquestion] at hno
        refine ⟨s, ?_, hstuck, by rwa [hquestion]⟩
        rw [Dialogue.obey, hquestion]
        dsimp only
        rw [Dialogue.obeyFirst, if_neg hno.1, if_neg hno.2]
    | second =>
        rw [hquestion] at hno
        exact obey_second_of_trapped hstuck hquestion hno
    | final =>
        rw [hquestion] at hno
        rw [Dialogue.obey, hquestion]
        dsimp only
        unfold Dialogue.obeyFinal
        split
        · rename_i hone
          exact ⟨_, rfl, hstuck, hno.2 hone⟩
        · rw [if_neg hno.1]
          exact ⟨s, rfl, hstuck, by rwa [hquestion]⟩
  obtain ⟨s', hs', htrapped⟩ := hobey
  exact ⟨s', by rw [PhoneBook.turn, scan_of_stuck hstuck, hs'], htrapped⟩

lemma not_ends_of_not_answered {t : Dialogue} (h : ¬ s.Answered files) :
    ¬ Ends (turn files) s t :=
  not_ends_of_trap (trapped_of_not_answered h) fun _ => Trapped.turn

end PhoneBook
end EltSummer
