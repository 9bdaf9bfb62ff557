import EltSummer.Calculator.Session
import EltSummer.Framework.HandleLog

/-!
# The calculator that opens libraries

`calc_with_<dlfcn.h>_30June/calc_main.c`: `main` reads the names of a library and of a function,
opens the one and looks up the other, reads two numbers, prints what the function makes of them,
and asks whether to go on with another library.

What the linker finds is a parameter, and a function may be undefined on its arguments.  A name
is stored in an array of a hundred bytes, which `scanf` does not know.  The arrays, the numbers
and the choice are zero at `Start_again`, so that no turn sees what the one before has left in
them: a session does not ask without an end, whatever is typed (`session_ends_iff`).  Each
library is closed before the next is opened, but for the one in which a function is not found
(`libraries_closed_iff`).
-/

namespace EltSummer
namespace DlCalc

open Block CString Scanf Turns HandleLog

/-- `SIZE_LIB_NAME`. -/
def sizeLibName : ℕ := 100

/-- `SIZE_FUNC_NAME`. -/
def sizeFuncName : ℕ := 100

/-- The dynamic linker, with handles in `η`.  A function has no result where it is undefined. -/
structure Linker (η : Type) where
  dlopen : List UInt8 → Option η
  dlsym : η → List UInt8 → Option (Int32 → Int32 → Option Int32)

/-- A result that is printed, and how it was asked for. -/
structure Line where
  libName : List UInt8
  funcName : List UInt8
  arg1 : Int32
  arg2 : Int32
  result : Int32
  deriving DecidableEq

/-- How the program is left: by the choice 2 or by another one, at the end of the input, or where
`dlopen` or `dlsym` finds nothing. -/
inductive Exit
  | goodbye
  | wrongFinalChoice
  | readingFailed
  | openFailed
  | noFunction
  deriving DecidableEq, Repr

/-- The input to come, what has been printed, and what has been opened and closed. -/
structure Session (η : Type) where
  rest : List UInt8
  lines : List Line
  log : List (Use η)

structure Outcome (η : Type) where
  exit : Exit
  lines : List Line
  log : List (Use η)

variable {η : Type}

def Session.start (input : List UInt8) : Session η := ⟨input, [], []⟩

def Session.leave (s : Session η) (exit : Exit) : Outcome η := ⟨exit, s.lines, s.log⟩

/-- `scanf("%s")` into an array of zeros: the array, unless the input is at its end. -/
def scanName (size : ℕ) (input : List UInt8) : Option (Option (List UInt8) × List UInt8) :=
  match word input with
  | (none, rest) => some (none, rest)
  | (some w, rest) =>
      (writeAt (List.replicate size 0) 0 (w ++ [0])).map fun ar => (some ar, rest)

/-- From the numbers to `goto Start_again` or the end of `main`. -/
def Session.calculate (s : Session η) (dlObj : η) (libName funcName : List UInt8)
    (funcPtrMain : Int32 → Int32 → Option Int32) : Option (Turn (Session η) (Outcome η)) :=
  let (args, rest) := Calculator.scanInts 0 0 s.rest
  (funcPtrMain args.1 args.2).map fun result =>
    let (finalChoice, rest) := Calculator.scanInt 0 rest
    let s : Session η := ⟨rest, s.lines ++ [⟨libName, funcName, args.1, args.2, result⟩],
      s.log ++ [.closed dlObj]⟩
    if finalChoice = 1 then .next s
    else if finalChoice = 2 then .stop (s.leave .goodbye)
    else .stop (s.leave .wrongFinalChoice)

/-- From `dlopen` on. -/
def Session.load (linker : Linker η) (s : Session η) (libNameAr funcNameAr : List UInt8) :
    Option (Turn (Session η) (Outcome η)) := do
  let libName ← stringAt libNameAr 0
  let funcName ← stringAt funcNameAr 0
  match linker.dlopen libName with
  | none => some (.stop (s.leave .openFailed))
  | some dlObj =>
      let s : Session η := { s with log := s.log ++ [.opened dlObj] }
      match linker.dlsym dlObj funcName with
      | none => some (.stop (s.leave .noFunction))
      | some funcPtrMain => s.calculate dlObj libName funcName funcPtrMain

/-- From `Start_again` on. -/
def turn (linker : Linker η) (s : Session η) : Option (Turn (Session η) (Outcome η)) := do
  let (libNameAr, rest) ← scanName sizeLibName s.rest
  match libNameAr with
  | none => some (.stop (s.leave .readingFailed))
  | some libNameAr =>
      let (funcNameAr, rest) ← scanName sizeFuncName rest
      match funcNameAr with
      | none => some (.stop (s.leave .readingFailed))
      | some funcNameAr => Session.load linker { s with rest := rest } libNameAr funcNameAr

/-! ## What is meant -/

/-- A name as the linker is given it. -/
def nameOf (w : List UInt8) : List UInt8 := w.takeWhile (· ≠ 0)

/-- The result is the one of the function of that name in the library of that name. -/
def Line.Right (linker : Linker η) (l : Line) : Prop :=
  ∃ dlObj f, linker.dlopen l.libName = some dlObj ∧ linker.dlsym dlObj l.funcName = some f ∧
    f l.arg1 l.arg2 = some l.result

/-- The names that are read at `Start_again` fit their arrays, and the function that is called is
defined on its arguments. -/
def Session.Answered (linker : Linker η) (s : Session η) : Prop :=
  ∀ lib rest, word s.rest = (some lib, rest) → lib.length < sizeLibName ∧
    ∀ func rest', word rest = (some func, rest') → func.length < sizeFuncName ∧
      ∀ dlObj f, linker.dlopen (nameOf lib) = some dlObj →
        linker.dlsym dlObj (nameOf func) = some f →
          (f (Calculator.scanInts 0 0 rest').1.1 (Calculator.scanInts 0 0 rest').1.2).isSome

/-! ## One turn -/

variable {linker : Linker η} {s : Session η} {input w r : List UInt8} {size : ℕ}

lemma scanName_of_none (h : word input = (none, r)) : scanName size input = some (none, r) := by
  rw [scanName, h]

/-- A name that fits is stored, and read back as a string. -/
lemma exists_scanName (h : word input = (some w, r)) (hw : w.length < size) :
    ∃ ar, scanName size input = some (some ar, r) ∧ stringAt ar 0 = some (nameOf w) := by
  have hfits : 0 + (w ++ [0]).length ≤ (List.replicate size (0 : UInt8)).length := by
    rw [List.length_append, List.length_singleton, List.length_replicate]
    omega
  refine ⟨_, by rw [scanName, h]; simp only [writeAt, if_pos hfits, Option.map_some]; rfl, ?_⟩
  rw [List.take_zero, List.nil_append, List.append_assoc, List.singleton_append,
    stringAt_append_zero]
  rfl

lemma scanName_eq_none (h : word input = (some w, r)) (hw : size ≤ w.length) :
    scanName size input = none := by
  have hlong : ¬ 0 + (w ++ [0]).length ≤ (List.replicate size (0 : UInt8)).length := by
    rw [List.length_append, List.length_singleton, List.length_replicate]
    omega
  rw [scanName, h]
  simp only [writeAt, if_neg hlong, Option.map_none]

lemma answered_iff {lib func rest rest' : List UInt8} (hlib : word s.rest = (some lib, rest))
    (hfunc : word rest = (some func, rest')) :
    s.Answered linker ↔ lib.length < sizeLibName ∧ func.length < sizeFuncName ∧
      ∀ dlObj f, linker.dlopen (nameOf lib) = some dlObj →
        linker.dlsym dlObj (nameOf func) = some f →
          (f (Calculator.scanInts 0 0 rest').1.1 (Calculator.scanInts 0 0 rest').1.2).isSome := by
  constructor
  · intro h
    obtain ⟨hl, hmore⟩ := h lib rest hlib
    obtain ⟨hf, hdefined⟩ := hmore func rest' hfunc
    exact ⟨hl, hf, hdefined⟩
  · rintro ⟨hl, hf, hdefined⟩ lib₁ rest₁ hlib₁
    cases hlib.symm.trans hlib₁
    refine ⟨hl, fun func₁ rest₂ hfunc₁ => ?_⟩
    cases hfunc.symm.trans hfunc₁
    exact ⟨hf, hdefined⟩

/-- How a turn goes. -/
inductive Turned (linker : Linker η) (s : Session η) :
    Option (Turn (Session η) (Outcome η)) → Prop
  | nothing (exit : Exit) (hexit : exit = .readingFailed ∨ exit = .openFailed)
      (hanswered : s.Answered linker) : Turned linker s (some (.stop (s.leave exit)))
  | noFunction (dlObj : η) (hanswered : s.Answered linker) :
      Turned linker s (some (.stop ⟨.noFunction, s.lines, s.log ++ [.opened dlObj]⟩))
  | goesOn (dlObj : η) (l : Line) (rest : List UInt8) (hright : l.Right linker)
      (hrest : rest.length < s.rest.length) (hanswered : s.Answered linker) :
      Turned linker s (some (.next
        ⟨rest, s.lines ++ [l], s.log ++ [.opened dlObj, .closed dlObj]⟩))
  | ends (dlObj : η) (l : Line) (exit : Exit) (hexit : exit ≠ .noFunction)
      (hright : l.Right linker) (hanswered : s.Answered linker) :
      Turned linker s (some (.stop
        ⟨exit, s.lines ++ [l], s.log ++ [.opened dlObj, .closed dlObj]⟩))
  | undefined (hanswered : ¬ s.Answered linker) : Turned linker s none

lemma turned_load {libNameAr funcNameAr lib func rest : List UInt8}
    (hlib : stringAt libNameAr 0 = some (nameOf lib))
    (hfunc : stringAt funcNameAr 0 = some (nameOf func)) (hrest : rest.length < s.rest.length)
    (hanswered : s.Answered linker ↔ ∀ dlObj f, linker.dlopen (nameOf lib) = some dlObj →
      linker.dlsym dlObj (nameOf func) = some f →
        (f (Calculator.scanInts 0 0 rest).1.1 (Calculator.scanInts 0 0 rest).1.2).isSome) :
    Turned linker s (Session.load linker { s with rest := rest } libNameAr funcNameAr) := by
  simp only [Session.load, hlib, hfunc, Option.bind_eq_bind, Option.bind_some]
  cases hopen : linker.dlopen (nameOf lib) with
  | none =>
      refine .nothing .openFailed (Or.inr rfl) (hanswered.mpr ?_)
      intro dlObj f hdl
      rw [hopen] at hdl
      cases hdl
  | some dlObj =>
  dsimp only
  cases hsym : linker.dlsym dlObj (nameOf func) with
  | none =>
      refine .noFunction dlObj (hanswered.mpr ?_)
      intro obj f hdl hfound
      obtain rfl := Option.some.inj (hopen.symm.trans hdl)
      rw [hsym] at hfound
      cases hfound
  | some f =>
      dsimp only
      unfold Session.calculate
      cases hresult : f (Calculator.scanInts 0 0 rest).1.1 (Calculator.scanInts 0 0 rest).1.2 with
      | none =>
          have hno : ¬ s.Answered linker := by
            rw [hanswered]
            intro hall
            have hsome := hall dlObj f hopen hsym
            rw [hresult] at hsome
            cases hsome
          simp only [hresult, Option.map_none]
          exact .undefined hno
      | some result =>
          have hyes : s.Answered linker := by
            rw [hanswered]
            intro obj g hdl hfound
            obtain rfl := Option.some.inj (hopen.symm.trans hdl)
            obtain rfl := Option.some.inj (hsym.symm.trans hfound)
            rw [hresult]
            rfl
          have hless : (Calculator.scanInt 0 (Calculator.scanInts 0 0 rest).2).2.length <
              s.rest.length :=
            ((length_integer_le _).trans (Calculator.length_scanInts_le 0 0 rest)).trans_lt hrest
          have hright : Line.Right linker ⟨nameOf lib, nameOf func, _, _, result⟩ :=
            ⟨dlObj, f, hopen, hsym, hresult⟩
          simp only [hresult, Option.map_some, List.append_assoc, List.singleton_append]
          split
          · exact .goesOn dlObj _ _ hright hless hyes
          split
          · exact .ends dlObj _ .goodbye (by decide) hright hyes
          · exact .ends dlObj _ .wrongFinalChoice (by decide) hright hyes

lemma turned (linker : Linker η) (s : Session η) : Turned linker s (turn linker s) := by
  unfold turn
  cases hlib : word s.rest with
  | mk lib rest =>
  cases lib with
  | none =>
      rw [scanName_of_none hlib]
      refine .nothing .readingFailed (Or.inl rfl) ?_
      intro lib rest hread
      rw [hlib] at hread
      cases hread
  | some lib =>
  by_cases hfits : lib.length < sizeLibName
  case neg =>
    rw [scanName_eq_none hlib (not_lt.mp hfits)]
    exact .undefined fun h => hfits (h lib rest hlib).1
  obtain ⟨libNameAr, hscan, hname⟩ := exists_scanName hlib hfits
  rw [hscan]
  cases hfunc : word rest with
  | mk func rest' =>
  cases func with
  | none =>
      simp only [Option.bind_eq_bind, Option.bind_some, scanName_of_none hfunc]
      refine .nothing .readingFailed (Or.inl rfl) ?_
      intro lib₁ rest₁ hlib₁
      cases hlib.symm.trans hlib₁
      refine ⟨hfits, fun func₁ rest₂ hfunc₁ => ?_⟩
      cases hfunc.symm.trans hfunc₁
  | some func =>
  by_cases hfits' : func.length < sizeFuncName
  case neg =>
    simp only [Option.bind_eq_bind, Option.bind_some, scanName_eq_none hfunc (not_lt.mp hfits'),
      Option.bind_none]
    exact .undefined fun h => hfits' ((answered_iff hlib hfunc).mp h).2.1
  obtain ⟨funcNameAr, hscan', hname'⟩ := exists_scanName hfunc hfits'
  simp only [Option.bind_eq_bind, Option.bind_some, hscan']
  have hrest : rest'.length < s.rest.length :=
    (length_word_lt hfunc).trans (length_word_lt hlib)
  apply turned_load hname hname' hrest
  rw [answered_iff hlib hfunc]
  tauto

/-! ## A session -/

/-- **When a session ends**: exactly if each name that is read fits its array, and each function
that is called is defined on its arguments. -/
theorem session_ends_iff (linker : Linker η) (input : List UInt8) :
    (∃ t, Ends (turn linker) (.start input) t) ↔
      ∀ s, Leads (turn linker) (.start input) s → s.Answered linker := by
  apply ends_iff_forall_leads fun s => s.rest.length
  · intro s _ hs
    have hturned := turned linker s
    generalize turn linker s = flow at hturned ⊢
    cases hturned with
    | nothing exit hexit hanswered => exact Or.inl ⟨_, rfl⟩
    | noFunction dlObj hanswered => exact Or.inl ⟨_, rfl⟩
    | goesOn dlObj l rest hright hrest hanswered => exact Or.inr ⟨_, rfl, hrest⟩
    | ends dlObj l exit hexit hright hanswered => exact Or.inl ⟨_, rfl⟩
    | undefined hanswered => exact absurd hs hanswered
  · intro s t _ hs hends
    apply hends.not_fails
    have hturned := turned linker s
    apply fails_of_none
    generalize turn linker s = flow at hturned ⊢
    cases hturned with
    | undefined hanswered => rfl
    | nothing exit hexit hanswered => exact absurd hanswered hs
    | noFunction dlObj hanswered => exact absurd hanswered hs
    | goesOn dlObj l rest hright hrest hanswered => exact absurd hanswered hs
    | ends dlObj l exit hexit hright hanswered => exact absurd hanswered hs

variable [DecidableEq η] {log : List (Use η)}

/-- Between two libraries nothing is open. -/
def Settled (log : List (Use η)) : Prop := ∀ h, Alternates h log ∧ ¬ IsOpen h log

lemma Settled.use (hlog : Settled log) (dlObj : η) :
    Settled (log ++ [.opened dlObj, .closed dlObj]) := by
  intro h
  obtain ⟨halt, hopen⟩ := hlog h
  have hsplit : log ++ [.opened dlObj, .closed dlObj] =
      (log ++ [.opened dlObj]) ++ [.closed dlObj] := by
    rw [List.append_assoc]
    rfl
  rw [hsplit]
  by_cases hne : h = dlObj
  · subst hne
    obtain ⟨halt, hopen⟩ := halt.opened hopen
    exact halt.closed hopen
  · obtain ⟨halt, hiff⟩ := halt.other (u := .opened dlObj) (by simp [Ne.symm hne]) (by simp)
    obtain ⟨halt', hiff'⟩ := halt.other (u := .closed dlObj) (by simp) (by simp [Ne.symm hne])
    exact ⟨halt', fun hin => hopen (hiff.mp (hiff'.mp hin))⟩

lemma Settled.closedOnce (hlog : Settled log) : ClosedOnce log :=
  closedOnce_of_alternates fun h _ => hlog h

/-- What is opened last is not closed. -/
lemma not_closedOnce (log : List (Use η)) (dlObj : η) :
    ¬ ClosedOnce (log ++ [.opened dlObj]) := by
  intro h
  have hlast := h log dlObj [] rfl
  simp at hlast

/-- The results so far are right, and nothing is open. -/
structure Session.Sound (linker : Linker η) (s : Session η) : Prop where
  lines : ∀ l ∈ s.lines, l.Right linker
  log : Settled s.log

lemma Session.Sound.add {l : Line} {rest : List UInt8} (h : s.Sound linker)
    (hright : l.Right linker) (dlObj : η) :
    Session.Sound linker ⟨rest, s.lines ++ [l], s.log ++ [.opened dlObj, .closed dlObj]⟩ := by
  refine ⟨fun l' hl' => ?_, h.log.use dlObj⟩
  rcases List.mem_append.mp hl' with hl' | hl'
  · exact h.lines l' hl'
  · exact List.mem_singleton.mp hl' ▸ hright

lemma sound_of_leads (h : Leads (turn linker) (.start input) s) : s.Sound linker := by
  induction h with
  | refl =>
      exact ⟨fun l hl => absurd hl List.not_mem_nil, fun h => ⟨alternates_nil h, not_isOpen_nil h⟩⟩
  | @tail u v _ hturn ih =>
      have hturned := turned linker u
      rw [hturn] at hturned
      cases hturned with
      | goesOn dlObj l rest hright hrest hanswered => exact ih.add hright dlObj

/-- **What a session prints and closes.**  Each result that is printed is the one of the function
that was named, and each library is closed once for each time it was opened, unless the program
is left because a function is not found. -/
theorem libraries_closed_iff {linker : Linker η} {input : List UInt8} {t : Outcome η}
    (h : Ends (turn linker) (.start input) t) :
    (∀ l ∈ t.lines, l.Right linker) ∧ (ClosedOnce t.log ↔ t.exit ≠ .noFunction) := by
  obtain ⟨s, hs, hstop⟩ := ends_iff_leads.mp h
  have hsound := sound_of_leads hs
  have hturned := turned linker s
  rw [hstop] at hturned
  cases hturned with
  | nothing exit hexit hanswered =>
      refine ⟨hsound.lines, fun _ => ?_, fun _ => hsound.log.closedOnce⟩
      rcases hexit with rfl | rfl
      · exact Exit.noConfusion
      · exact Exit.noConfusion
  | noFunction dlObj hanswered =>
      exact ⟨hsound.lines, fun hclosed => absurd hclosed (not_closedOnce _ dlObj),
        fun hno => absurd rfl hno⟩
  | ends dlObj l exit hexit hright hanswered =>
      have hlast : Session.Sound linker
          ⟨[], s.lines ++ [l], s.log ++ [.opened dlObj, .closed dlObj]⟩ := hsound.add hright dlObj
      exact ⟨hlast.lines, fun _ => hexit, fun _ => hlast.log.closedOnce⟩

/-- A library with one function. -/
def oneLibrary : Linker Unit where
  dlopen name := if name = [97] then some () else none
  dlsym _ name := if name = [102] then some fun a b => some (a + b) else none

/-- Its sum is printed, the program goes on, and the next function is not there. -/
theorem libraries_closed_iff_missing : ∃ t,
    Ends (turn oneLibrary) (.start [97, 32, 102, 32, 49, 32, 50, 32, 49, 32, 97, 32, 103]) t ∧
      ¬ ClosedOnce t.log := by
  obtain ⟨t, ht, hexit⟩ : ∃ t, Ends (turn oneLibrary)
      (.start [97, 32, 102, 32, 49, 32, 50, 32, 49, 32, 97, 32, 103]) t ∧ t.exit = .noFunction :=
    ⟨_, ⟨2, rfl⟩, rfl⟩
  exact ⟨t, ht, fun hclosed => (libraries_closed_iff ht).2.mp hclosed hexit⟩

end DlCalc
end EltSummer
