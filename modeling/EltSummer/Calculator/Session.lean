import EltSummer.Framework.Scanf
import EltSummer.Framework.Turns

/-!
# A session with the calculator

`calc_with_static_lib_28June` and `calc_with_dynamic_lib_29June`: `main` asks for an operation,
reads two numbers, prints what the library makes of them, and asks whether to go on.  The two
programs differ in how they are linked.

An `int` is an `Int32`, and the result of an addition, a subtraction or a multiplication that is
no `int` wraps around; a division is undefined by zero and where the quotient is no `int`, and
the session has no result there.  What a question stores when there is no number to read is what
its variable holds: the operation and the numbers are set to zero before they are asked for, the
last answer is not (`session_completes_iff`).
-/

namespace EltSummer
namespace Calculator

open Scanf Turns

/-! ## The library -/

def myAdd (arg1 arg2 : Int32) : Int32 := arg1 + arg2

def mySub (arg1 arg2 : Int32) : Int32 := arg1 - arg2

def myMul (arg1 arg2 : Int32) : Int32 := arg1 * arg2

/-- The quotient is defined. -/
def Divides (arg1 arg2 : Int32) : Prop := arg2 ≠ 0 ∧ ¬ (arg1 = Int32.minValue ∧ arg2 = -1)

instance (arg1 arg2 : Int32) : Decidable (Divides arg1 arg2) :=
  inferInstanceAs (Decidable (_ ∧ ¬ (_ ∧ _)))

def myDiv (arg1 arg2 : Int32) : Option Int32 :=
  if Divides arg1 arg2 then some (arg1 / arg2) else none

/-! ## The dialogue -/

inductive Operation
  | add
  | sub
  | mul
  | div
  deriving DecidableEq, Repr

/-- A result that is printed. -/
structure Line where
  operation : Operation
  arg1 : Int32
  arg2 : Int32
  result : Int32
  deriving DecidableEq

/-- The question that is asked next: for an operation, or behind `Cont_OR_exit`. -/
inductive Question
  | operation
  | contOrExit
  deriving DecidableEq, Repr

/-- The variable that is not reset, the input that has not been read, and what has been
printed. -/
structure Session where
  question : Question
  theFinalChoice : Int32
  rest : List UInt8
  lines : List Line
  deriving DecidableEq

/-- Up to the first question. -/
def Session.start (theFinalChoice : Int32) (input : List UInt8) : Session :=
  ⟨.operation, theFinalChoice, input, []⟩

/-- `scanf("%d", &v)`: what `v` holds behind it, and what is left of the input. -/
def scanInt (v : Int32) (input : List UInt8) : Int32 × List UInt8 :=
  (((integer input).1.map toInt32).getD v, (integer input).2)

/-- `scanf("%d%d", &v, &w)`, which ends where it finds no number. -/
def scanInts (v w : Int32) (input : List UInt8) : (Int32 × Int32) × List UInt8 :=
  match integer input with
  | (none, rest) => ((v, w), rest)
  | (some a, rest) => ((toInt32 a, (scanInt w rest).1), (scanInt w rest).2)

/-- `choice_operation`, as it is read. -/
def Session.choiceOperation (s : Session) : Int32 := (scanInt 0 s.rest).1

/-- `arg1` and `arg2`, as they are read behind it. -/
def Session.args (s : Session) : Int32 × Int32 := (scanInts 0 0 (scanInt 0 s.rest).2).1

/-- The input behind the two. -/
def Session.behindArgs (s : Session) : List UInt8 := (scanInts 0 0 (scanInt 0 s.rest).2).2

def Session.print (s : Session) (l : Line) : Session := { s with lines := s.lines ++ [l] }

/-- The `switch`. -/
def Session.operate (s : Session) (choiceOperation arg1 arg2 : Int32) :
    Option (Turn Session Session) :=
  if choiceOperation = 1 then some (.next (s.print ⟨.add, arg1, arg2, myAdd arg1 arg2⟩))
  else if choiceOperation = 2 then some (.next (s.print ⟨.sub, arg1, arg2, mySub arg1 arg2⟩))
  else if choiceOperation = 3 then some (.next (s.print ⟨.mul, arg1, arg2, myMul arg1 arg2⟩))
  else if choiceOperation = 4 then
    (myDiv arg1 arg2).map fun quotient => .next (s.print ⟨.div, arg1, arg2, quotient⟩)
  -- `exit(EXIT_FAILURE)`
  else some (.stop s)

/-- From the head of the `while` to `Cont_OR_exit`. -/
def Session.askOperation (s : Session) : Option (Turn Session Session) :=
  if s.choiceOperation ≠ 1 ∧ s.choiceOperation ≠ 2 ∧ s.choiceOperation ≠ 3 ∧
      s.choiceOperation ≠ 4 then
    some (.next { s with rest := (scanInt 0 s.rest).2 })
  else
    { s with question := .contOrExit, rest := s.behindArgs }.operate s.choiceOperation
      s.args.1 s.args.2

/-- From `Cont_OR_exit` on. -/
def Session.askContOrExit (s : Session) : Option (Turn Session Session) :=
  let (theFinalChoice, rest) := scanInt s.theFinalChoice s.rest
  let s := { s with theFinalChoice := theFinalChoice, rest := rest }
  if theFinalChoice = 1 then some (.next { s with question := .operation })
  else if theFinalChoice = 2 then some (.stop s)
  else some (.next s)

/-- One question and what follows from the answer. -/
def turn (s : Session) : Option (Turn Session Session) :=
  match s.question with
  | .operation => s.askOperation
  | .contOrExit => s.askContOrExit

inductive Program
  | staticLib
  | dynamicLib
  deriving DecidableEq, Repr

/-- The turns of each `main`. -/
def Program.turn : Program → Session → Option (Turn Session Session)
  | .staticLib => Calculator.turn
  | .dynamicLib => Calculator.turn

/-- The program comes to its exit, and divides on the way where that is defined only. -/
def Completes (program : Program) (theFinalChoice : Int32) (input : List UInt8) : Prop :=
  ∃ t, Ends program.turn (.start theFinalChoice input) t ∧
    ∀ l ∈ t.lines, l.operation = .div → Divides l.arg1 l.arg2

/-! ## What is printed -/

/-- The result as a number. -/
def Operation.exact : Operation → ℤ → ℤ → ℤ
  | .add, a, b => a + b
  | .sub, a, b => a - b
  | .mul, a, b => a * b
  | .div, a, b => a.tdiv b

/-- The line has the result, up to a multiple of `2 ^ 32`, and a quotient is defined. -/
structure Line.Right (l : Line) : Prop where
  result : l.result.toInt = (l.operation.exact l.arg1.toInt l.arg2.toInt).bmod (2 ^ 32)
  divides : l.operation = .div → Divides l.arg1 l.arg2

/-! ## Questions that are not answered by the input -/

/-- At the question for an operation there is something to read, and a division asked for is
defined; at the other one, where there is nothing to read, the variable holds the answer that
ends the program. -/
def Session.Answered (s : Session) : Prop :=
  match s.question with
  | .operation => ¬ Stuck s.rest ∧ (s.choiceOperation = 4 → Divides s.args.1 s.args.2)
  | .contOrExit => Stuck s.rest → s.theFinalChoice = 2

variable {s s' : Session} {input : List UInt8} {v : Int32}

lemma Program.turn_eq (program : Program) : program.turn = Calculator.turn := by
  cases program <;> rfl

/-- Without a number in front, `scanf` changes nothing. -/
lemma scanInt_of_stuck (h : Stuck input) (v : Int32) : scanInt v input = (v, input) := by
  rw [scanInt, h]
  rfl

lemma length_scanInts_le (v w : Int32) (input : List UInt8) :
    (scanInts v w input).2.length ≤ input.length := by
  have hfirst := length_integer_le input
  unfold scanInts
  split
  · rename_i rest hread
    rwa [hread] at hfirst
  · rename_i a rest hread
    rw [hread] at hfirst
    exact (length_integer_le rest).trans hfirst

/-- Two questions leave no more input than the first of them. -/
lemma length_behindArgs_le (s : Session) :
    s.behindArgs.length ≤ (integer s.rest).2.length :=
  length_scanInts_le 0 0 _

/-! ## One question -/

lemma right_add (a b : Int32) : (⟨.add, a, b, myAdd a b⟩ : Line).Right :=
  ⟨Int32.toInt_add a b, nofun⟩

lemma right_sub (a b : Int32) : (⟨.sub, a, b, mySub a b⟩ : Line).Right :=
  ⟨Int32.toInt_sub a b, nofun⟩

lemma right_mul (a b : Int32) : (⟨.mul, a, b, myMul a b⟩ : Line).Right :=
  ⟨Int32.toInt_mul a b, nofun⟩

lemma right_div {a b : Int32} (h : Divides a b) : (⟨.div, a, b, a / b⟩ : Line).Right :=
  ⟨Int32.toInt_div a b, fun _ => h⟩

/-- How the question for an operation goes. -/
inductive Asked (s : Session) : Option (Turn Session Session) → Prop
  | repeats (hchoice : s.choiceOperation ≠ 4) :
      Asked s (some (.next { s with rest := (integer s.rest).2 }))
  | prints (l : Line) (hright : l.Right)
      (hdivides : s.choiceOperation = 4 → Divides s.args.1 s.args.2) :
      Asked s (some (.next
        ({ s with question := .contOrExit, rest := s.behindArgs }.print l)))
  | undefined (hchoice : s.choiceOperation = 4) (hdivides : ¬ Divides s.args.1 s.args.2) :
      Asked s none

lemma asked (s : Session) : Asked s s.askOperation := by
  unfold Session.askOperation
  split
  · rename_i hno
    exact .repeats hno.2.2.2
  rename_i hoperation
  unfold Session.operate
  have hother : ∀ c : Int32, c ≠ 4 → s.choiceOperation = c →
      (s.choiceOperation = 4 → Divides s.args.1 s.args.2) := by
    rintro c hc rfl hfour
    exact absurd hfour hc
  split
  · rename_i hadd
    exact .prints _ (right_add _ _) (hother 1 (by decide) hadd)
  split
  · rename_i hsub
    exact .prints _ (right_sub _ _) (hother 2 (by decide) hsub)
  split
  · rename_i hmul
    exact .prints _ (right_mul _ _) (hother 3 (by decide) hmul)
  split
  · rename_i hdiv
    unfold myDiv
    split
    · rename_i hdivides
      exact .prints _ (right_div hdivides) fun _ => hdivides
    · rename_i hdivides
      exact .undefined hdiv hdivides
  · rename_i hadd hsub hmul hdiv
    exact absurd ⟨hadd, hsub, hmul, hdiv⟩ hoperation

/-- How the last question goes. -/
inductive AskedAgain (s : Session) : Turn Session Session → Prop
  | next (s' : Session) (hlines : s'.lines = s.lines) (hrest : s'.rest = (integer s.rest).2) :
      AskedAgain s (.next s')
  | stop (t : Session) (hlines : t.lines = s.lines) : AskedAgain s (.stop t)

lemma askedAgain (s : Session) : ∃ flow, s.askContOrExit = some flow ∧ AskedAgain s flow := by
  unfold Session.askContOrExit
  dsimp only
  split
  · exact ⟨_, rfl, .next _ rfl rfl⟩
  split
  · exact ⟨_, rfl, .stop _ rfl⟩
  · exact ⟨_, rfl, .next _ rfl rfl⟩

/-- The last question, where there is nothing to read. -/
lemma askContOrExit_of_stuck (h : Stuck s.rest) : s.askContOrExit =
    if s.theFinalChoice = 1 then some (.next { s with question := .operation })
    else if s.theFinalChoice = 2 then some (.stop s) else some (.next s) := by
  rw [Session.askContOrExit, scanInt_of_stuck h]

/-! ## The results -/

/-- A question adds a right result or none. -/
lemma lines_of_turn {flow : Turn Session Session} (h : ∀ l ∈ s.lines, l.Right)
    (hturn : turn s = some flow) :
    (∀ s', flow = .next s' → ∀ l ∈ s'.lines, l.Right) ∧
      ∀ t, flow = .stop t → ∀ l ∈ t.lines, l.Right := by
  unfold turn at hturn
  split at hturn
  · have hasked := asked s
    rw [hturn] at hasked
    cases hasked with
    | repeats hchoice =>
        refine ⟨fun s' hs' => ?_, nofun⟩
        obtain rfl := Turn.next.inj hs'
        exact h
    | prints l hright hdivides =>
        refine ⟨fun s' hs' l' hl' => ?_, nofun⟩
        obtain rfl := Turn.next.inj hs'
        rcases List.mem_append.mp hl' with hl' | hl'
        · exact h l' hl'
        · exact List.mem_singleton.mp hl' ▸ hright
  · obtain ⟨flow', hflow, hasked⟩ := askedAgain s
    obtain rfl : flow' = flow := Option.some.inj (hflow.symm.trans hturn)
    cases hasked with
    | next s' hlines hrest => exact ⟨fun s'' hs'' => Turn.next.inj hs'' ▸ hlines ▸ h, nofun⟩
    | stop t hlines => exact ⟨nofun, fun t' ht' => Turn.stop.inj ht' ▸ hlines ▸ h⟩

/-- Every result that is printed in a session is right. -/
theorem lines_right (h : Leads turn (.start v input) s) : ∀ l ∈ s.lines, l.Right := by
  induction h with
  | refl => exact fun l hl => absurd hl List.not_mem_nil
  | tail _ hturn ih => exact (lines_of_turn ih hturn).1 _ rfl

lemma lines_right_of_ends {t : Session} (h : Ends turn (.start v input) t) :
    ∀ l ∈ t.lines, l.Right := by
  obtain ⟨s, hleads, hstop⟩ := ends_iff_leads.mp h
  exact (lines_of_turn (lines_right hleads) hstop).2 t rfl

/-- No undefined quotient is printed, so all that is left to ask is for the exit. -/
lemma completes_iff_ends {program : Program} :
    Completes program v input ↔ ∃ t, Ends program.turn (.start v input) t := by
  constructor
  · rintro ⟨t, ht, -⟩
    exact ⟨t, ht⟩
  · rintro ⟨t, ht⟩
    refine ⟨t, ht, fun l hl => ?_⟩
    rw [program.turn_eq] at ht
    exact (lines_right_of_ends ht l hl).divides

/-! ## The end -/

/-- A question that is answered ends the program or shortens the input. -/
lemma Session.Answered.progresses (h : s.Answered) :
    (∃ t, turn s = some (.stop t)) ∨
      ∃ s', turn s = some (.next s') ∧ s'.rest.length < s.rest.length := by
  unfold Session.Answered at h
  unfold turn
  split at h
  · obtain ⟨hread, hdefined⟩ := h
    have hlt := length_integer_lt hread
    have hle := length_behindArgs_le s
    have hasked := asked s
    generalize s.askOperation = flow at hasked
    cases hasked with
    | repeats hchoice => exact Or.inr ⟨_, rfl, hlt⟩
    | prints l hright hdivides => exact Or.inr ⟨_, rfl, hle.trans_lt hlt⟩
    | undefined hchoice hdivides => exact absurd (hdefined hchoice) hdivides
  · by_cases hstuck : Stuck s.rest
    · rw [askContOrExit_of_stuck hstuck, h hstuck]
      exact Or.inl ⟨s, rfl⟩
    · obtain ⟨flow, hflow, hasked⟩ := askedAgain s
      rw [hflow]
      cases hasked with
      | next s' hlines hrest => exact Or.inr ⟨s', rfl, hrest ▸ length_integer_lt hstuck⟩
      | stop t hlines => exact Or.inl ⟨t, rfl⟩

/-! ## No end -/

/-- Nothing can be read, and the variable does not end the program. -/
def Trapped (s : Session) : Prop :=
  Stuck s.rest ∧ (s.question = .contOrExit → s.theFinalChoice ≠ 2)

/-- A trap is not left. -/
lemma Trapped.turn (h : Trapped s) :
    ∃ s', Calculator.turn s = some (.next s') ∧ Trapped s' := by
  obtain ⟨hstuck, hfinal⟩ := h
  unfold Calculator.turn
  split
  · rename_i hquestion
    have hchoice : s.choiceOperation = 0 := by rw [Session.choiceOperation, scanInt_of_stuck hstuck]
    refine ⟨{ s with rest := (scanInt 0 s.rest).2 }, ?_, ?_⟩
    · rw [Session.askOperation, hchoice]
      rfl
    · rw [scanInt_of_stuck hstuck]
      exact ⟨hstuck, hfinal⟩
  · rename_i hquestion
    rw [askContOrExit_of_stuck hstuck, if_neg (hfinal hquestion)]
    split
    · exact ⟨_, rfl, hstuck, nofun⟩
    · exact ⟨s, rfl, hstuck, hfinal⟩

/-- From a question that is not answered the program does not come to its exit. -/
lemma not_ends_of_not_answered {t : Session} (h : ¬ s.Answered) : ¬ Ends turn s t := by
  by_cases htrap : Trapped s
  · exact not_ends_of_trap htrap fun _ => Trapped.turn
  · -- there is something to read, so what is asked for is a division that is not defined
    refine fun hends => hends.not_fails (fails_of_none ?_)
    unfold Session.Answered at h
    unfold Trapped at htrap
    unfold turn
    split at h
    · rename_i hquestion
      rw [hquestion] at htrap
      have hread : ¬ Stuck s.rest := fun hstuck => htrap ⟨hstuck, nofun⟩
      obtain ⟨hchoice, hdivides⟩ := Classical.not_imp.mp fun hall => h ⟨hread, hall⟩
      have hasked := asked s
      generalize s.askOperation = flow at hasked ⊢
      cases hasked with
      | repeats hno => exact absurd hchoice hno
      | prints l hright hdefined => exact absurd (hdefined hchoice) hdivides
      | undefined => rfl
    · obtain ⟨hstuck, hno⟩ := Classical.not_imp.mp h
      exact absurd ⟨hstuck, fun _ => hno⟩ htrap

/-- **When a session ends**: exactly when each question it comes to is answered, and no division
that is asked for is undefined. -/
theorem session_completes_iff (program : Program) (theFinalChoice : Int32) (input : List UInt8) :
    Completes program theFinalChoice input ↔
      ∀ s, Leads program.turn (.start theFinalChoice input) s → s.Answered := by
  rw [completes_iff_ends, program.turn_eq]
  apply ends_iff_forall_leads fun s => s.rest.length
  · intro s _ hs
    exact hs.progresses
  · intro s t _ hs
    exact not_ends_of_not_answered hs

/-- 1 is divided by a number that is not there. -/
example : Fails turn (.start 2 [52, 32, 49]) := ⟨1, by decide⟩

/-- Nothing is typed, and an operation is asked for again and again. -/
theorem empty_input_never_leaves_the_menu :
    ¬ ∀ (program : Program) (theFinalChoice : Int32) (input : List UInt8),
      Completes program theFinalChoice input := by
  intro hclaim
  obtain ⟨t, ht, -⟩ := hclaim .staticLib 0 []
  have htrap : Trapped (.start 0 []) := ⟨stuck_nil, by simp [Session.start]⟩
  exact not_ends_of_trap htrap (fun _ => Trapped.turn) ht

end Calculator
end EltSummer
