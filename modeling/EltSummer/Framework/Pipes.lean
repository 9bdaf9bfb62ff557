import EltSummer.Framework.Interleaving
import Mathlib.Logic.Function.Basic

/-!
# A parent and a child with two pipes

A pipe holds the bytes that have been written and not yet read, and knows who has its ends open.
`write` waits for room, and kills the writer if nobody can read any more; `read` waits for bytes
as long as somebody can write them, and takes no more than the buffer has place for.  The ends of
a named pipe are opened, and each side waits for the other one; those of a nameless pipe are open
from the start.

A process is a script of such calls without loops, and the two take their steps in any order.
What they write is one message each, of the size of the buffers, and no longer than what a pipe
writes at once (`room`).
-/

namespace Pipes

open Function

inductive Party
  | parent
  | child
  deriving DecidableEq, Repr

def Party.other : Party → Party
  | .parent => .child
  | .child => .parent

/-- The two pipes. -/
inductive Name
  | one
  | two
  deriving DecidableEq, Repr

/-- What a process calls. -/
inductive Call
  /-- The end of a named pipe is opened, and then the other one is waited for. -/
  | openRead (q : Name)
  | awaitWriter (q : Name)
  | openWrite (q : Name)
  | awaitReader (q : Name)
  | closeRead (q : Name)
  | closeWrite (q : Name)
  | write (q : Name)
  | read (q : Name)
  /-- What has been received is printed. -/
  | print
  /-- The other process is waited for. -/
  | waitpid
  /-- All ends are closed. -/
  | exit
  deriving DecidableEq, Repr

/-- What the two processes do, how many bytes a pipe takes, and what they write. -/
structure Setting where
  script : Party → List Call
  room : ℕ
  message : Party → List UInt8

structure State where
  pc : Party → ℕ
  reads : Name → Party → Bool
  writes : Name → Party → Bool
  data : Name → List UInt8
  buffer : Party → List UInt8
  printed : Party → Option (List UInt8)
  killed : Party → Bool

/-- Both ends of both pipes are open in both processes, or none is. -/
def start (opened : Bool) (uninit : Party → List UInt8) : State where
  pc _ := 0
  reads _ _ := opened
  writes _ _ := opened
  data _ := []
  buffer := uninit
  printed _ := none
  killed _ := false

/-- Somebody has the end open. -/
def anybody (end_ : Party → Bool) : Bool := end_ .parent || end_ .child

/-- What a call makes of the reading end of pipe `q`. -/
def Call.readChange (q : Name) : Call → Option Bool
  | .openRead q' => if q' = q then some true else none
  | .closeRead q' => if q' = q then some false else none
  | .exit => some false
  | _ => none

def Call.writeChange (q : Name) : Call → Option Bool
  | .openWrite q' => if q' = q then some true else none
  | .closeWrite q' => if q' = q then some false else none
  | .exit => some false
  | _ => none

variable (g : Setting)

/-- The call returns: there is a party at the other end, room in the pipe, something to read or
nobody to write it, and nobody to wait for any more. -/
def State.returns (s : State) (p : Party) : Call → Bool
  | .awaitWriter q => anybody (s.writes q)
  | .awaitReader q => anybody (s.reads q)
  | .write q => !anybody (s.reads q) || (s.data q).length + (g.message p).length ≤ g.room
  | .read q => s.data q ≠ [] || !anybody (s.writes q)
  | .waitpid => s.pc p.other = (g.script p.other).length
  | _ => true

/-- A write that nobody can read. -/
def State.breaks (s : State) : Call → Bool
  | .write q => !anybody (s.reads q)
  | _ => false

/-- SIGPIPE. -/
def State.kill (s : State) (p : Party) : State :=
  { s with
    pc := update s.pc p (g.script p).length
    reads := fun q => update (s.reads q) p false
    writes := fun q => update (s.writes q) p false
    killed := update s.killed p true }

/-- What is in pipe `q` after a call of party `p`. -/
def State.dataAfter (s : State) (p : Party) (call : Call) (q : Name) : List UInt8 :=
  if call = .write q then s.data q ++ g.message p
  else if call = .read q then (s.data q).drop (s.buffer p).length
  else s.data q

/-- What party `p` has received after a call.  `read` takes what the buffer has place for. -/
def State.bufferAfter (s : State) (p : Party) : Call → List UInt8
  | .read q => (s.data q).take (s.buffer p).length ++ (s.buffer p).drop (s.data q).length
  | _ => s.buffer p

/-- A call of party `p` has been made. -/
def State.after (s : State) (p : Party) (call : Call) : State where
  pc := update s.pc p (s.pc p + 1)
  reads q := update (s.reads q) p ((call.readChange q).getD (s.reads q p))
  writes q := update (s.writes q) p ((call.writeChange q).getD (s.writes q p))
  data := s.dataAfter g p call
  buffer := update s.buffer p (s.bufferAfter p call)
  printed := if call = .print then update s.printed p (some (s.buffer p)) else s.printed
  killed := s.killed

/-- The next call of party `p`. -/
def step (s : State) (p : Party) : Option State :=
  (g.script p)[s.pc p]?.bind fun call =>
    if s.returns g p call then some (if s.breaks call then s.kill g p else s.after g p call)
    else none

lemma step_eq_none_of_done {s : State} {p : Party} (h : s.pc p = (g.script p).length) :
    step g s p = none := by
  unfold step
  rw [List.getElem?_eq_none (Nat.le_of_eq h.symm)]
  rfl

/-! ## Runs that are determined by how far the two have come

Each pipe has one party that writes to it, and each party prints after it has read.  As long as
nothing goes wrong, the state follows from the two program counters, so that a run can be checked
on the program counters alone.
-/

def Call.isRead : Call → Bool
  | .read _ => true
  | _ => false

/-- An end, after some calls. -/
def endAfter (opened : Bool) (change : Call → Option Bool) (calls : List Call) : Bool :=
  calls.foldl (fun b call => (change call).getD b) opened

/-- A program counter for each party. -/
def counters (i j : ℕ) : Party → ℕ
  | .parent => i
  | .child => j

/-- What the parties have left to check: their scripts, the ends that are open from the start,
and who writes to a pipe. -/
structure Plan where
  script : Party → List Call
  opened : Bool
  author : Name → Party

namespace Plan

variable (plan : Plan) (c : Party → ℕ)

/-- The calls a party has made. -/
def past (p : Party) : List Call := (plan.script p).take (c p)

def reads (q : Name) (p : Party) : Bool := endAfter plan.opened (Call.readChange q) (plan.past c p)

def writes (q : Name) (p : Party) : Bool :=
  endAfter plan.opened (Call.writeChange q) (plan.past c p)

/-- The message has been written and not yet read. -/
def full (q : Name) : Bool :=
  (plan.past c (plan.author q)).contains (.write q) &&
    !(plan.past c (plan.author q).other).contains (.read q)

/-- The other party's message is here. -/
def received (p : Party) : Bool := (plan.past c p).any Call.isRead

/-- Party `p` can make the call, and nothing goes wrong. -/
def ready (p : Party) : Call → Bool
  | .awaitWriter q => anybody (plan.writes c q)
  | .awaitReader q => anybody (plan.reads c q)
  | .write q =>
      plan.author q == p && anybody (plan.reads c q) && !(plan.past c p).contains (.write q) &&
        !(plan.past c p.other).contains (.read q)
  | .read q => plan.author q == p.other && plan.full c q && !plan.received c p
  | .print => plan.received c p
  | .waitpid => c p.other == (plan.script p.other).length
  | _ => true

/-- Party `p` waits in the call. -/
def waits : Call → Bool
  | .awaitWriter q => !anybody (plan.writes c q)
  | .awaitReader q => !anybody (plan.reads c q)
  | .read q => !plan.full c q && anybody (plan.writes c q)
  | .waitpid => true
  | _ => false

end Plan

namespace Plan

variable (plan : Plan) (room : ℕ) (message uninit : Party → List UInt8)

def setting : Setting := ⟨plan.script, room, message⟩

/-- The state follows from the program counters. -/
structure Fits (s : State) : Prop where
  reads : ∀ q p, s.reads q p = plan.reads s.pc q p
  writes : ∀ q p, s.writes q p = plan.writes s.pc q p
  data : ∀ q, s.data q = if plan.full s.pc q then message (plan.author q) else []
  buffer : ∀ p, s.buffer p = if plan.received s.pc p then message p.other else uninit p
  printed : ∀ p, s.printed p =
    if (plan.past s.pc p).contains .print then some (message p.other) else none
  killed : ∀ p, s.killed p = false

variable {plan room message uninit}

lemma past_next {c : Party → ℕ} {p : Party} {call : Call}
    (hcall : (plan.script p)[c p]? = some call) (p' : Party) :
    plan.past (update c p (c p + 1)) p' =
      if p' = p then plan.past c p ++ [call] else plan.past c p' := by
  by_cases hp : p' = p
  · subst hp
    simp [past, List.take_add_one, hcall]
  · simp [past, hp]

lemma Fits.anybody_reads {s : State} (h : plan.Fits message uninit s) (q : Name) :
    anybody (s.reads q) = anybody (plan.reads s.pc q) := by
  simp [anybody, h.reads]

lemma Fits.anybody_writes {s : State} (h : plan.Fits message uninit s) (q : Name) :
    anybody (s.writes q) = anybody (plan.writes s.pc q) := by
  simp [anybody, h.writes]

lemma reads_next {c : Party → ℕ} {p : Party} {call : Call}
    (hcall : (plan.script p)[c p]? = some call) (q : Name) (p' : Party) :
    plan.reads (update c p (c p + 1)) q p' =
      if p' = p then (call.readChange q).getD (plan.reads c q p) else plan.reads c q p' := by
  unfold reads
  rw [past_next hcall]
  by_cases hp : p' = p
  · rw [if_pos hp, if_pos hp]
    simp [endAfter]
  · rw [if_neg hp, if_neg hp]

lemma writes_next {c : Party → ℕ} {p : Party} {call : Call}
    (hcall : (plan.script p)[c p]? = some call) (q : Name) (p' : Party) :
    plan.writes (update c p (c p + 1)) q p' =
      if p' = p then (call.writeChange q).getD (plan.writes c q p) else plan.writes c q p' := by
  unfold writes
  rw [past_next hcall]
  by_cases hp : p' = p
  · rw [if_pos hp, if_pos hp]
    simp [endAfter]
  · rw [if_neg hp, if_neg hp]

@[simp] lemma Party.other_other (p : Party) : p.other.other = p := by
  cases p <;> rfl

lemma Party.other_ne (p : Party) : p.other ≠ p := by
  cases p <;> decide

/-- A pipe is filled by the write to it and emptied by the read. -/
lemma full_next {c : Party → ℕ} {p : Party} {call : Call}
    (hcall : (plan.script p)[c p]? = some call) (hready : plan.ready c p call = true) (q : Name) :
    plan.full (update c p (c p + 1)) q =
      if call = .write q then true else if call = .read q then false else plan.full c q := by
  unfold full
  rw [past_next hcall, past_next hcall]
  by_cases hauthor : plan.author q = p
  · have hread : call ≠ .read q := by
      rintro rfl
      simp only [ready, Bool.and_eq_true, beq_iff_eq] at hready
      exact Party.other_ne p (hready.1.1.symm.trans hauthor)
    have hother : (plan.author q).other ≠ p := hauthor ▸ Party.other_ne _
    rw [if_pos hauthor, if_neg hother, if_neg hread, hauthor]
    by_cases hwrite : call = .write q
    · subst hwrite
      simp only [ready, Bool.and_eq_true, Bool.not_eq_true'] at hready
      rw [hready.2]
      simp
    · simp [hwrite, Ne.symm hwrite]
  · have hother : (plan.author q).other = p := by
      cases hq : plan.author q <;> cases p <;> simp_all [Party.other]
    have hwrite : call ≠ .write q := by
      rintro rfl
      simp only [ready, Bool.and_eq_true, beq_iff_eq] at hready
      exact hauthor hready.1.1.1
    rw [if_neg hauthor, if_pos hother, if_neg hwrite, hother]
    by_cases hread : call = .read q
    · simp [hread]
    · simp [hread, Ne.symm hread]

lemma received_next {c : Party → ℕ} {p : Party} {call : Call}
    (hcall : (plan.script p)[c p]? = some call) (p' : Party) :
    plan.received (update c p (c p + 1)) p' =
      if p' = p then plan.received c p || call.isRead else plan.received c p' := by
  unfold received
  rw [past_next hcall]
  by_cases hp : p' = p
  · simp [hp]
  · simp [hp]

/-- **A call that is ready** is made, and the state still follows from the program counters. -/
lemma Fits.after {s : State} (h : plan.Fits message uninit s) {size : ℕ}
    (hmessage : ∀ p, (message p).length = size) (huninit : ∀ p, (uninit p).length = size)
    {p : Party} {call : Call} (hcall : (plan.script p)[s.pc p]? = some call)
    (hready : plan.ready s.pc p call = true) :
    plan.Fits message uninit (s.after (plan.setting room message) p call) := by
  have hpast := past_next hcall
  have hlen : ∀ p, (s.buffer p).length = size := by
    intro p
    rw [h.buffer]
    split
    · exact hmessage _
    · exact huninit _
  constructor
  · intro q p'
    show update (s.reads q) p _ p' = _
    rw [State.after, reads_next hcall]
    by_cases hp : p' = p
    · subst hp
      simp [h.reads]
    · simp [hp, h.reads]
  · intro q p'
    show update (s.writes q) p _ p' = _
    rw [State.after, writes_next hcall]
    by_cases hp : p' = p
    · subst hp
      simp [h.writes]
    · simp [hp, h.writes]
  · intro q
    show s.dataAfter _ p call q = _
    rw [State.after, full_next hcall hready, State.dataAfter, h.data]
    by_cases hwrite : call = .write q
    · subst hwrite
      simp [ready] at hready
      simp [full, hready, setting]
    · by_cases hread : call = .read q
      · subst hread
        simp [ready] at hready
        simp [hready, hlen, hmessage]
      · simp [hwrite, hread]
  · intro p'
    show update s.buffer p _ p' = _
    rw [State.after, received_next hcall]
    by_cases hp : p' = p
    · subst hp
      cases call with
      | read q =>
          simp [ready] at hready
          have htake : (message p'.other).take size = message p'.other :=
            List.take_of_length_le (Nat.le_of_eq (hmessage _))
          have hdrop : (s.buffer p').drop size = [] :=
            List.drop_of_length_le (Nat.le_of_eq (hlen p'))
          simp [State.bufferAfter, Call.isRead, h.data, hready, hlen, hmessage, htake, hdrop]
      | _ => simp [State.bufferAfter, Call.isRead, h.buffer]
    · simp [hp, h.buffer]
  · intro p'
    show (if call = .print then _ else s.printed) p' = _
    rw [State.after, hpast]
    by_cases hp : p' = p
    · subst hp
      by_cases hprint : call = .print
      · subst hprint
        simp [ready] at hready
        simp [h.buffer, hready]
      · simp [hprint, Ne.symm hprint, h.printed]
    · by_cases hprint : call = .print
      · simp [hprint, hp, h.printed]
      · simp [hprint, hp, h.printed]
  · exact h.killed

lemma Fits.returns_of_ready {s : State} (h : plan.Fits message uninit s) {size : ℕ}
    (hroom : size ≤ room) (hpos : 0 < size) (hmessage : ∀ p, (message p).length = size)
    {p : Party} {call : Call} (hready : plan.ready s.pc p call = true) :
    s.returns (plan.setting room message) p call = true ∧ s.breaks call = false := by
  cases call with
  | awaitWriter q => exact ⟨(h.anybody_writes q).trans hready, rfl⟩
  | awaitReader q => exact ⟨(h.anybody_reads q).trans hready, rfl⟩
  | write q =>
      simp only [ready, Bool.and_eq_true, beq_iff_eq, Bool.not_eq_true'] at hready
      have hempty : s.data q = [] := by
        rw [h.data, full, hready.1.1.1, hready.1.2]
        simp
      simp [State.returns, State.breaks, hempty, setting, hmessage, hroom, h.anybody_reads,
        hready.1.1.2]
  | read q =>
      simp only [ready, Bool.and_eq_true] at hready
      have hdata : s.data q ≠ [] := by
        rw [h.data, if_pos hready.1.2]
        exact List.ne_nil_of_length_pos ((hmessage _).symm ▸ hpos)
      simp [State.returns, State.breaks, hdata]
  | waitpid => simp_all [ready, State.returns, State.breaks, setting]
  | _ => exact ⟨rfl, rfl⟩

lemma Fits.not_returns_of_waits {s : State} (h : plan.Fits message uninit s) {p : Party}
    {call : Call} (hready : plan.ready s.pc p call = false) (hwaits : plan.waits s.pc call = true) :
    s.returns (plan.setting room message) p call = false := by
  cases call with
  | awaitWriter q => exact (h.anybody_writes q).trans hready
  | awaitReader q => exact (h.anybody_reads q).trans hready
  | read q =>
      simp only [waits, Bool.and_eq_true, Bool.not_eq_true'] at hwaits
      simp [State.returns, h.data, hwaits.1, h.anybody_writes, hwaits.2]
  | waitpid => simp_all [ready, State.returns, setting]
  | _ => simp [waits] at hwaits

/-! ### The check -/

variable (plan)

/-- Party `p` goes on to a good place, or waits at this one. -/
def goesOn (good : ℕ → ℕ → Bool) (c : Party → ℕ) (p : Party) : Bool :=
  let c' := update c p (c p + 1)
  (plan.script p)[c p]?.all fun call =>
    if plan.ready c p call then good (c' .parent) (c' .child) else plan.waits c call

/-- The good places are closed under the steps of both parties, and nothing goes wrong there. -/
def checked (good : ℕ → ℕ → Bool) : Bool :=
  good 0 0 &&
    (List.range ((plan.script .parent).length + 1)).all fun i =>
      (List.range ((plan.script .child).length + 1)).all fun j =>
        !good i j ||
          (plan.goesOn good (counters i j) .parent && plan.goesOn good (counters i j) .child)

def canMove (c : Party → ℕ) (p : Party) : Bool :=
  (plan.script p)[c p]?.any fun call => plan.ready c p call

/-- Where a good place is not the end, somebody can go on. -/
def live (good : ℕ → ℕ → Bool) : Bool :=
  (List.range ((plan.script .parent).length + 1)).all fun i =>
    (List.range ((plan.script .child).length + 1)).all fun j =>
      !good i j || plan.canMove (counters i j) .parent || plan.canMove (counters i j) .child ||
        (i == (plan.script .parent).length && j == (plan.script .child).length)

variable {plan}

lemma counters_eta (c : Party → ℕ) : counters (c .parent) (c .child) = c := by
  funext p
  cases p <;> rfl

/-- A run that is at a good place. -/
structure Tracks (plan : Plan) (good : ℕ → ℕ → Bool) (message uninit : Party → List UInt8)
    (s : State) : Prop where
  fits : plan.Fits message uninit s
  good : good (s.pc .parent) (s.pc .child) = true
  le : ∀ p, s.pc p ≤ (plan.script p).length

lemma goesOn_of_checked {good : ℕ → ℕ → Bool} (hcheck : plan.checked good = true)
    {c : Party → ℕ} (hgood : good (c .parent) (c .child) = true)
    (hle : ∀ p, c p ≤ (plan.script p).length) (p : Party) : plan.goesOn good c p = true := by
  simp only [checked, Bool.and_eq_true, List.all_eq_true, List.mem_range, Bool.or_eq_true,
    Bool.not_eq_true'] at hcheck
  have hhere := hcheck.2 _ (Nat.lt_succ_of_le (hle .parent)) _ (Nat.lt_succ_of_le (hle .child))
  rw [hgood, counters_eta] at hhere
  cases p with
  | parent => exact (hhere.resolve_left (by simp)).1
  | child => exact (hhere.resolve_left (by simp)).2

/-- **One step** of a checked plan. -/
lemma Tracks.step {good : ℕ → ℕ → Bool} (hcheck : plan.checked good = true) {s s' : State}
    (h : plan.Tracks good message uninit s) {size : ℕ} (hroom : size ≤ room) (hpos : 0 < size)
    (hmessage : ∀ p, (message p).length = size) (huninit : ∀ p, (uninit p).length = size)
    {p : Party} (hstep : Pipes.step (plan.setting room message) s p = some s') :
    plan.Tracks good message uninit s' ∧ s'.pc = update s.pc p (s.pc p + 1) := by
  have hon := goesOn_of_checked hcheck h.good h.le p
  cases hcall : (plan.script p)[s.pc p]? with
  | none => simp [Pipes.step, setting, hcall] at hstep
  | some call =>
      rw [goesOn, hcall, Option.all_some] at hon
      by_cases hready : plan.ready s.pc p call = true
      · obtain ⟨hreturns, hbreaks⟩ := h.fits.returns_of_ready hroom hpos hmessage hready
        obtain rfl : s.after (plan.setting room message) p call = s' := by
          simpa [Pipes.step, show (plan.setting room message).script = plan.script from rfl,
            hcall, hreturns, hbreaks] using hstep
        rw [if_pos hready] at hon
        refine ⟨⟨h.fits.after hmessage huninit hcall hready, hon, ?_⟩, rfl⟩
        intro p'
        by_cases hp : p' = p
        · subst hp
          have hlt := (List.getElem?_eq_some_iff.mp hcall).1
          simp only [State.after, update_self]
          omega
        · simpa [State.after, hp] using h.le p'
      · rw [if_neg hready] at hon
        have hwaits : s.returns (plan.setting room message) p call = false :=
          h.fits.not_returns_of_waits (Bool.not_eq_true _ ▸ hready) hon
        simp [Pipes.step, show (plan.setting room message).script = plan.script from rfl, hcall,
          hwaits] at hstep

/-- **A run** of a checked plan: each step is one of the calls. -/
theorem Tracks.exec {good : ℕ → ℕ → Bool} (hcheck : plan.checked good = true) {s s' : State}
    (h : plan.Tracks good message uninit s) {size : ℕ} (hroom : size ≤ room) (hpos : 0 < size)
    (hmessage : ∀ p, (message p).length = size) (huninit : ∀ p, (uninit p).length = size)
    {acts : List Party}
    (hexec : Interleaving.exec (Pipes.step (plan.setting room message)) s acts = some s') :
    plan.Tracks good message uninit s' ∧
      s'.pc .parent + s'.pc .child = s.pc .parent + s.pc .child + acts.length := by
  induction acts generalizing s with
  | nil =>
      obtain rfl := Option.some.inj hexec
      exact ⟨h, rfl⟩
  | cons p acts ih =>
      obtain ⟨t, ht, hrest⟩ := Option.bind_eq_some_iff.mp hexec
      obtain ⟨htracks, hpc⟩ := h.step hcheck hroom hpos hmessage huninit ht
      obtain ⟨hend, hcount⟩ := ih htracks hrest
      refine ⟨hend, ?_⟩
      rw [hcount, hpc, List.length_cons]
      cases p with
      | parent => simp; omega
      | child => simp; omega

lemma tracks_start {good : ℕ → ℕ → Bool} (hcheck : plan.checked good = true) :
    plan.Tracks good message uninit (start plan.opened uninit) := by
  simp only [checked, Bool.and_eq_true] at hcheck
  refine ⟨?_, hcheck.1, fun _ => Nat.zero_le _⟩
  constructor
  · exact fun _ _ => rfl
  · exact fun _ _ => rfl
  · exact fun _ => rfl
  · exact fun _ => rfl
  · exact fun _ => rfl
  · exact fun _ => rfl

/-- A call that is ready can be made. -/
lemma Tracks.exists_step {good : ℕ → ℕ → Bool} {s : State} (h : plan.Tracks good message uninit s)
    {size : ℕ} (hroom : size ≤ room) (hpos : 0 < size) (hmessage : ∀ p, (message p).length = size)
    {p : Party} (hmove : plan.canMove s.pc p = true) :
    ∃ s', Pipes.step (plan.setting room message) s p = some s' := by
  obtain ⟨call, hcall, hready⟩ := (Option.any_eq_true _ _).mp hmove
  obtain ⟨hreturns, hbreaks⟩ := h.fits.returns_of_ready hroom hpos hmessage hready
  refine ⟨s.after (plan.setting room message) p call, ?_⟩
  simp [Pipes.step, show (plan.setting room message).script = plan.script from rfl, hcall,
    hreturns, hbreaks]

lemma canMove_of_live {good : ℕ → ℕ → Bool} (hlive : plan.live good = true) {c : Party → ℕ}
    (hgood : good (c .parent) (c .child) = true) (hle : ∀ p, c p ≤ (plan.script p).length) :
    (∃ p, plan.canMove c p = true) ∨ ∀ p, c p = (plan.script p).length := by
  simp only [live, List.all_eq_true, List.mem_range, Bool.or_eq_true, Bool.not_eq_true',
    Bool.and_eq_true, beq_iff_eq] at hlive
  have hhere := hlive _ (Nat.lt_succ_of_le (hle .parent)) _ (Nat.lt_succ_of_le (hle .child))
  rw [hgood, counters_eta] at hhere
  rcases hhere with ((hfalse | hparent) | hchild) | hend
  · cases hfalse
  · exact Or.inl ⟨.parent, hparent⟩
  · exact Or.inl ⟨.child, hchild⟩
  · refine Or.inr fun p => ?_
    cases p with
    | parent => exact hend.1
    | child => exact hend.2

/-- **An exchange of messages.**  If the check succeeds, a run takes no more steps than the two
scripts have calls, and until both are at their ends somebody can go on.  No process is killed,
and what one prints is what the other one has written. -/
theorem exchange (plan : Plan) (good : ℕ → ℕ → Bool) (hcheck : plan.checked good = true)
    (hlive : plan.live good = true) {size : ℕ} (hroom : size ≤ room) (hpos : 0 < size)
    (hmessage : ∀ p, (message p).length = size) (huninit : ∀ p, (uninit p).length = size)
    {acts : List Party} {s : State}
    (hexec : Interleaving.exec (Pipes.step (plan.setting room message)) (start plan.opened uninit)
      acts = some s) :
    acts.length ≤ (plan.script .parent).length + (plan.script .child).length ∧
      (∀ p, s.killed p = false) ∧
      (∀ p text, s.printed p = some text → text = message p.other) ∧
      ((∃ p s', Pipes.step (plan.setting room message) s p = some s') ∨
        ∀ p, s.pc p = (plan.script p).length ∧
          (.print ∈ plan.script p → s.printed p = some (message p.other))) := by
  obtain ⟨htracks, hcount⟩ :=
    (tracks_start hcheck).exec hcheck hroom hpos hmessage huninit hexec
  have hzero : acts.length = s.pc .parent + s.pc .child := by
    rw [hcount]
    simp [start]
  have hparent := htracks.le .parent
  have hchild := htracks.le .child
  refine ⟨by omega, htracks.fits.killed, ?_, ?_⟩
  · intro p text htext
    rw [htracks.fits.printed] at htext
    split at htext
    · exact (Option.some.inj htext).symm
    · cases htext
  · rcases canMove_of_live hlive htracks.good htracks.le with ⟨p, hmove⟩ | hend
    · exact Or.inl ⟨p, htracks.exists_step hroom hpos hmessage hmove⟩
    · refine Or.inr fun p => ⟨hend p, fun hprint => ?_⟩
      rw [htracks.fits.printed, past, hend p, List.take_length, if_pos (by simpa using hprint)]

end Plan

end Pipes
