import EltSummer.PhoneBook.Program

/-!
# The program as a session of the machine

`Program` and `Session` are two views of `main`: the one has the input byte by byte, the other one
has the words in its actions, and any number of starts.  As long as the words that are asked for
are there, and have no NUL in them, the program does what the machine does, with the same array
(`reach_of_leads`): a turn is at most two of its steps.

Where the book is to grow the program has no result, so the steps are those of sessions without
growth, and what is shown of these, of the file and of what is displayed, is true of the program.
-/

namespace EltSummer
namespace PhoneBook

open CString Interleaving Scanf Turns

/-- Behind the answer `the_second_choice`: the words of the action are there, and are strings. -/
structure Main.Worded (s : Main) : Prop where
  entry : s.question = .second → s.theSecondChoice = 1 → ∃ e : Entry,
    (word s.rest).1 = some e.lastName.bytes ∧
      (word (words 1 s.rest)).1 = some e.firstName.bytes ∧
      (word (words 2 s.rest)).1 = some e.phoneNumber.bytes
  lastName : s.question = .second → s.theSecondChoice = 2 ∨ s.theSecondChoice = 4 →
    ∃ t : Token, (word s.rest).1 = some t.bytes

/-- The machine runs a session with this array. -/
def InSession (env : Environment) (phase : Phase) (s : Main) (w : World) : Prop :=
  ∃ r, w.session = some r ∧ r.phase = phase ∧ r.phoneBook = s.book ∧ r.sizeOfBook = env.sizeOfBook

/-- The machine is where the program is. -/
def Matches (env : Environment) (s : Main) (w : World) : Prop :=
  match s.question with
  | .first => w = ⟨env.storage, none⟩
  | .second => InSession env .menu s w
  | .final => InSession env .top s w

variable {env : Environment} {s s' : Main} {w : World}

/-! ## Turn by turn -/

/-- Up to the menu. -/
lemma InSession.head (h : InSession env .top s w) (hhead : s.head env = some (.next s')) :
    ∃ w', Reach step NoGrowth w w' ∧ Matches env s' w' := by
  obtain ⟨r, hr, hphase, hbook, hsize⟩ := h
  cases head_eq_some hhead
  obtain ⟨count, hcount, hroom⟩ := Option.bind_eq_some_iff.mp hhead
  obtain ⟨hroom, -⟩ := Option.ite_none_left_eq_some.mp hroom
  refine ⟨{ w with session := some { r with phase := .menu } },
    (Reach.refl _ _ w).tail (a := .turn [] fun _ => 0) ?_ ?_, _, rfl, rfl, hbook, hsize⟩
  · simp [NoGrowth, GrowthDue, hr, hbook, hsize, hcount, hroom]
  · simp [step, turnTop, hr, hphase, hbook, hsize, hcount, hroom]

/-- The first question: a session begins. -/
lemma matches_obeyFirst (hbook : s.book = callocBook env.sizeOfBook)
    (hquestion : s.question = .first) (h : s.obeyFirst env = some (.next s')) :
    ∃ w', Reach step NoGrowth ⟨env.storage, none⟩ w' ∧ Matches env s' w' := by
  have hstart : Reach step NoGrowth ⟨env.storage, none⟩ ⟨env.storage, none⟩ := Reach.refl _ _ _
  unfold Main.obeyFirst at h
  split at h
  · split at h
    · obtain ⟨file, hfile, h⟩ := Option.bind_eq_some_iff.mp h
      have hbegin : step ⟨env.storage, none⟩ (.run .create true) = some ⟨some file,
          some ⟨.top, s.book, env.sizeOfBook, 0, []⟩⟩ := by
        rw [hbook] at hfile ⊢
        exact Option.map_eq_some_iff.mpr ⟨file, hfile, rfl⟩
      have hsession : InSession env .top s ⟨some file,
          some ⟨.top, s.book, env.sizeOfBook, 0, []⟩⟩ := ⟨_, rfl, rfl, rfl, rfl⟩
      obtain ⟨w', hw', hmatches⟩ := hsession.head h
      exact ⟨w', (hstart.tail (a := Action.run .create true) trivial hbegin).trans hw', hmatches⟩
    · cases h
  split at h
  · split at h
    · rename_i file hstorage
      obtain ⟨book, hload, h⟩ := Option.bind_eq_some_iff.mp h
      have hbegin : step ⟨env.storage, none⟩ (.run .load true) = some ⟨some file,
          some ⟨.top, book, env.sizeOfBook, file.length, []⟩⟩ := by
        rw [hbook, Environment.sizeOfBook] at hload
        rw [Environment.sizeOfBook]
        rw [hstorage] at hload ⊢
        exact Option.map_eq_some_iff.mpr ⟨book, hload, rfl⟩
      have hsession : InSession env .top { s with book := book } ⟨some file,
          some ⟨.top, book, env.sizeOfBook, file.length, []⟩⟩ := ⟨_, rfl, rfl, rfl, rfl⟩
      obtain ⟨w', hw', hmatches⟩ := hsession.head h
      exact ⟨w', (hstart.tail (a := Action.run .load true) trivial hbegin).trans hw', hmatches⟩
    · cases h
  · cases h
    refine ⟨_, hstart, ?_⟩
    rw [Matches, hquestion]

lemma eq_of_afterOpen {t : Main} {opened : Bool} (h : t.afterOpen opened = .next s') : t = s' := by
  unfold Main.afterOpen at h
  split at h
  · exact Turn.next.inj h
  · cases h

/-- The menu: an action. -/
lemma InSession.obeySecond (hin : InSession env .menu s w) (hquestion : s.question = .second)
    (hwords : s.Worded) (h : s.obeySecond env = some (.next s')) :
    ∃ w', Reach step NoGrowth w w' ∧ Matches env s' w' := by
  have hstart : Reach step NoGrowth w w := Reach.refl _ _ _
  obtain ⟨r, hr, hphase, hbook, hsize⟩ := id hin
  unfold Main.obeySecond at h
  split at h
  · rename_i hone
    obtain ⟨e, hlast, hfirst, hphone⟩ := hwords.entry hquestion hone
    obtain ⟨⟨i, book, file⟩, hadd, h⟩ := Option.map_eq_some_iff.mp h
    rw [addTyped_eq hlast hfirst hphone] at hadd
    obtain rfl := eq_of_afterOpen h
    refine ⟨⟨some file, some { r with phase := .top, phoneBook := book, filled := i :: r.filled }⟩,
      hstart.tail (a := .add true (env.indexForAdd s.calls) e) trivial ?_, _, rfl, rfl, rfl, hsize⟩
    simp [step, hr, hphase, hbook, hsize, hadd]
  split at h
  · rename_i htwo
    obtain ⟨t, hword⟩ := hwords.lastName hquestion (Or.inl htwo)
    obtain ⟨⟨book, file, count⟩, hremove, h⟩ := Option.map_eq_some_iff.mp h
    rw [removeTyped_eq hword (env.lastnameSize _)] at hremove
    obtain rfl := eq_of_afterOpen h
    refine ⟨⟨some file, some { r with phase := .top, phoneBook := book }⟩,
      hstart.tail (a := .remove true t) trivial ?_, _, rfl, rfl, rfl, hsize⟩
    simp [step, hr, hphase, hbook, hsize, hremove]
  split at h
  · obtain ⟨shown, hshown, h⟩ := Option.map_eq_some_iff.mp h
    cases h
    refine ⟨{ w with session := some { r with phase := .top } },
      hstart.tail (a := .output) trivial ?_, _, rfl, rfl, hbook, hsize⟩
    simp [step, hr, hphase, hbook, hsize, hshown]
  split at h
  · rename_i hfour
    obtain ⟨t, hword⟩ := hwords.lastName hquestion (Or.inr hfour)
    obtain ⟨shown, hshown, h⟩ := Option.map_eq_some_iff.mp h
    rw [searchTyped_eq hword (env.lastnameSize _)] at hshown
    cases h
    refine ⟨{ w with session := some { r with phase := .top } },
      hstart.tail (a := .search t) trivial ?_, _, rfl, rfl, hbook, hsize⟩
    simp [step, hr, hphase, hbook, hsize, hshown]
  · cases h
    refine ⟨w, hstart, ?_⟩
    rwa [Matches, hquestion]

/-- The last question. -/
lemma InSession.obeyFinal (hin : InSession env .top s w) (hquestion : s.question = .final)
    (h : s.obeyFinal env = some (.next s')) :
    ∃ w', Reach step NoGrowth w w' ∧ Matches env s' w' := by
  unfold Main.obeyFinal at h
  split at h
  · exact hin.head h
  split at h
  · cases h
  · cases h
    refine ⟨w, Reach.refl _ _ _, ?_⟩
    rwa [Matches, hquestion]

/-- A turn of the program is at most two steps of the machine. -/
lemma Matches.turn (h : Matches env s w) (hsized : Sized env s) (hwords : s.scan.Worded)
    (hturn : mainTurn env s = some (.next s')) :
    ∃ w', Reach step NoGrowth w w' ∧ Matches env s' w' := by
  have hscan := hsized.scan
  replace h : Matches env s.scan w := by
    rw [Matches, Main.scan, question_scan]
    exact h
  unfold mainTurn Main.obey at hturn
  unfold Matches at h
  cases hquestion : s.scan.question with
  | first =>
      rw [hquestion] at h hturn
      rw [h]
      exact matches_obeyFirst (hscan.fresh hquestion) hquestion hturn
  | second =>
      rw [hquestion] at h hturn
      exact InSession.obeySecond h hquestion hwords hturn
  | final =>
      rw [hquestion] at h hturn
      exact InSession.obeyFinal h hquestion hturn

/-! ## The run -/

/-- **The program is a session.**  Wherever turns in which the words are there lead, the machine has
a run without growth to the same array. -/
theorem reach_of_leads {first second final : UInt8} {input : List UInt8}
    (h : Leads (mainTurn env) (.start env first second final input) s)
    (hwords : ∀ u, Leads (mainTurn env) (.start env first second final input) u →
      Leads (mainTurn env) u s → u.scan.Worded) :
    ∃ w, Reach step NoGrowth ⟨env.storage, none⟩ w ∧ Matches env s w := by
  induction h with
  | refl => exact ⟨_, Reach.refl _ _ _, rfl⟩
  | @tail u v hbefore hturn ih =>
      obtain ⟨w, hw, hmatches⟩ := ih fun u' hu' hleads => hwords u' hu' (hleads.tail hturn)
      obtain ⟨w', hw', hmatches'⟩ := hmatches.turn (sized_of_leads hbefore)
        (hwords u hbefore (Relation.ReflTransGen.single hturn)) hturn
      exact ⟨w', hw.trans hw', hmatches'⟩

end PhoneBook
end EltSummer
