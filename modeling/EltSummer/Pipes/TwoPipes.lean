import EltSummer.Framework.CString
import EltSummer.Framework.Pipes

/-!
# Two pipes between a parent and its child

`pipes_14July/fork_and_pipe.c`: parent and child close the ends they do not need, write a message
and read the other one, and the parent waits for the child.
`pipes_14July/fork_exec_and_mkfifo_parent.c` and `fork_exec_and_mkfifo_child.c` do the same with
two named pipes, where the child is another program.  All of them open and wait in an order that
lets both come to the end, and each prints what the other one has written.  Only where `execv` or
an `open` of the child fails does the parent wait for ever: it is in the `open` of a pipe whose
other end nobody opens.

The failures of `pipe`, `mkfifo` and `fork`, after which nothing has been started, are left out, and
so are those of `write` and `read` and of the `open`s of the parent: no other call fails here.
-/

namespace EltSummer
namespace TwoPipes

open CString Interleaving Pipes

/-- `BUFF_SIZE`. -/
def buffSize : ℕ := 128

/-! ## Nameless pipes -/

/-- `fork_and_pipe.c` after `fork`.  `fd_pipe_1` is for the parent to write. -/
def forkAndPipe : Plan where
  script
    | .parent =>
        [.closeRead .one, .closeWrite .two, .write .one, .read .two, .print, .waitpid, .exit]
    | .child => [.closeWrite .one, .closeRead .two, .write .two, .read .one, .print, .exit]
  opened := true
  author
    | .one => .parent
    | .two => .child

/-- `PARENT_STR` and `CHILD_STR`. -/
def greeting : Party → List UInt8
  | .parent => "Hello, my child!".toList.map fun c => c.val.toUInt8
  | .child => "Hello, my parent!".toList.map fun c => c.val.toUInt8

/-- Nobody has read what is not written, and the parent goes on after the child. -/
def forkAndPipeOrder (i j : ℕ) : Bool := (i < 4 || 3 ≤ j) && (j < 4 || 3 ≤ i) && (i < 6 || j == 6)

lemma stringAt_strcpy_greeting {buff message : List UInt8} {p : Party}
    (hbuff : buff.length = buffSize) (hmessage : strcpy buff (greeting p) = some message) :
    message.length = buffSize ∧ stringAt message 0 = some (greeting p) := by
  have hroom : (greeting p).length < buff.length := by
    rw [hbuff]
    cases p <;> decide
  obtain ⟨b, hb, hlen, hstring⟩ := exists_strcpy hroom (by cases p <;> decide)
  rw [hmessage] at hb
  obtain rfl := Option.some.inj hb
  exact ⟨hlen.trans hbuff, hstring⟩

/-- **The two processes of `fork_and_pipe.c`**, in any order of their steps, whatever was in their
buffers.  A run ends after at most 13 calls, until both processes are at their ends one of them
can go on, none is killed, and each prints the greeting of the other one. -/
theorem forkAndPipe_exchange {room : ℕ} (hroom : buffSize ≤ room)
    {buff_1 buff_2 message : Party → List UInt8} (hbuff_1 : ∀ p, (buff_1 p).length = buffSize)
    (hbuff_2 : ∀ p, (buff_2 p).length = buffSize)
    (hmessage : ∀ p, strcpy (buff_1 p) (greeting p) = some (message p)) {acts : List Party}
    {s : State}
    (hexec : exec (step (forkAndPipe.setting room message)) (start true buff_2) acts = some s) :
    acts.length ≤ 13 ∧ (∀ p, s.killed p = false) ∧
      (∀ p text, s.printed p = some text → stringAt text 0 = some (greeting p.other)) ∧
      ((∃ p s', step (forkAndPipe.setting room message) s p = some s') ∨
        ∀ p, s.pc p = (forkAndPipe.script p).length ∧ (s.printed p).isSome) := by
  have hstring p := stringAt_strcpy_greeting (hbuff_1 p) (hmessage p)
  obtain ⟨hlength, hkilled, hprinted, hend⟩ := Plan.exchange forkAndPipe forkAndPipeOrder
    (by decide) (by decide) hroom (by decide)
    (fun p => (hstring p).1) hbuff_2 hexec
  refine ⟨hlength, hkilled, ?_, hend.imp_right ?_⟩
  · intro p text htext
    rw [hprinted p text htext]
    exact (hstring p.other).2
  · intro hdone p
    refine ⟨(hdone p).1, ?_⟩
    rw [(hdone p).2 (by cases p <;> decide)]
    rfl

/-- What is in `buff_1`, if its bytes were zero. -/
def copiedGreeting (p : Party) : List UInt8 :=
  (strcpy (List.replicate buffSize 0) (greeting p)).getD []

/-- All calls, each party making its next one in turn. -/
def forkAndPipeRun : List Party :=
  [.parent, .child, .parent, .child, .parent, .child, .child, .parent, .child, .parent, .child,
    .parent, .parent]

/-- Both have come to their ends. -/
theorem forkAndPipe_exchange_ends : ∃ s,
    exec (step (forkAndPipe.setting 4096 copiedGreeting))
        (start true fun _ => List.replicate buffSize 0) forkAndPipeRun = some s ∧
      (∀ p, s.pc p = (forkAndPipe.script p).length) ∧ ∀ p, ∃ text, s.printed p = some text ∧
        stringAt text 0 = some (greeting p.other) := by
  have hrun : (exec (step (forkAndPipe.setting 4096 copiedGreeting))
      (start true fun _ => List.replicate buffSize 0) forkAndPipeRun).map
      (fun s => (s.pc .parent, s.pc .child)) = some (7, 6) := by
    decide +kernel
  obtain ⟨s, hs, hpcs⟩ := Option.map_eq_some_iff.mp hrun
  obtain ⟨hparent, hchild⟩ := Prod.mk.inj hpcs
  have hpc (p : Party) : s.pc p = (forkAndPipe.script p).length := by
    cases p
    · exact hparent
    · exact hchild
  have hcopy (p : Party) :
      strcpy (List.replicate buffSize 0) (greeting p) = some (copiedGreeting p) := by
    have hroom : (greeting p).length < (List.replicate buffSize (0 : UInt8)).length := by
      rw [List.length_replicate]
      cases p <;> decide
    obtain ⟨b, hb, -⟩ := exists_strcpy hroom (by cases p <;> decide)
    rw [copiedGreeting, hb, Option.getD_some]
  have hzeros (_ : Party) : (List.replicate buffSize (0 : UInt8)).length = buffSize :=
    List.length_replicate
  obtain ⟨-, -, hprinted, hend⟩ := forkAndPipe_exchange (by decide) hzeros hzeros hcopy hs
  refine ⟨s, hs, hpc, fun p => ?_⟩
  rcases hend with ⟨q, s', hgo⟩ | hdone
  · rw [step_eq_none_of_done (forkAndPipe.setting 4096 copiedGreeting) (hpc q)] at hgo
    cases hgo
  · obtain ⟨text, htext⟩ := Option.isSome_iff_exists.mp (hdone p).2
    exact ⟨text, htext, hprinted p text htext⟩

/-! ## Named pipes -/

/-- How far the child gets with its pipes.  The names of the pipes reach it without their NULs, so
an `open` may fail in it that has not failed in the parent. -/
inductive ChildOpens
  /-- `execv` fails. -/
  | notStarted
  /-- The `open` of the first pipe fails. -/
  | neither
  /-- The `open` of the second pipe fails. -/
  | first
  | both
  deriving DecidableEq, Repr

/-- The calls of the child after `fork`.  A failure exits. -/
def childScript : ChildOpens → List Call
  | .notStarted => [.exit]
  | .neither => [.exit]
  | .first => [.openWrite .one, .awaitReader .one, .exit]
  | .both =>
      [.openWrite .one, .awaitReader .one, .openRead .two, .awaitWriter .two, .write .one,
        .read .two, .print, .exit]

/-- `fork_exec_and_mkfifo_parent.c` after `fork`, and the child, which is the other program if
`execv` succeeds. -/
def fifos (opens : ChildOpens) : Plan where
  script
    | .parent =>
        [.openRead .one, .awaitWriter .one, .openWrite .two, .awaitReader .two, .write .two,
          .read .one, .print, .waitpid, .exit]
    | .child => childScript opens
  opened := false
  author
    | .one => .child
    | .two => .parent

/-- `MESSAGE_OUT` of the two programs. -/
def messageOut : Party → List UInt8
  | .parent =>
      "Hello! I am parent! Using mkfifo_2 to write, mkfifo_1 to read".toList.map
        fun c => c.val.toUInt8
  | .child =>
      "Hello! I am child! Using mkfifo_1 to write, mkfifo_2 to read".toList.map
        fun c => c.val.toUInt8

/-- `char buff_out [BUFF_SIZE] = {MESSAGE_OUT}`. -/
def buffOut (p : Party) : List UInt8 :=
  messageOut p ++ List.replicate (buffSize - (messageOut p).length) 0

/-- Each `open` waits for the other process, and nobody has read what is not written. -/
def fifosOrder (i j : ℕ) : Bool :=
  (i < 2 || 1 ≤ j) && (j < 2 || 1 ≤ i) && (i < 4 || 3 ≤ j) && (j < 4 || 3 ≤ i) &&
    (i < 6 || 5 ≤ j) && (j < 6 || 5 ≤ i) && (i < 8 || j == 8)

lemma buffOut_spec (p : Party) :
    (buffOut p).length = buffSize ∧ stringAt (buffOut p) 0 = some (messageOut p) := by
  have hlen : (messageOut p).length < buffSize := by cases p <;> decide
  refine ⟨by simp [buffOut]; omega, stringAt_eq_some_iff.mpr ⟨by cases p <;> decide,
    List.replicate (buffSize - (messageOut p).length - 1) 0, ?_⟩⟩
  rw [buffOut, List.drop_zero, ← List.replicate_succ, Nat.sub_add_cancel (by omega)]

/-- **The parent and the child with named pipes**, if the child opens both. -/
theorem fifos_exchange {room : ℕ} (hroom : buffSize ≤ room) {buff_in : Party → List UInt8}
    (hbuff : ∀ p, (buff_in p).length = buffSize) {acts : List Party} {s : State}
    (hexec : exec (step ((fifos .both).setting room buffOut)) (start false buff_in) acts = some s) :
    acts.length ≤ 17 ∧ (∀ p, s.killed p = false) ∧
      (∀ p text, s.printed p = some text → stringAt text 0 = some (messageOut p.other)) ∧
      ((∃ p s', step ((fifos .both).setting room buffOut) s p = some s') ∨
        ∀ p, s.pc p = ((fifos .both).script p).length ∧ (s.printed p).isSome) := by
  obtain ⟨hlength, hkilled, hprinted, hend⟩ := Plan.exchange (fifos .both) fifosOrder
    (by decide) (by decide) hroom (by decide)
    (fun p => (buffOut_spec p).1) hbuff hexec
  refine ⟨hlength, hkilled, ?_, hend.imp_right ?_⟩
  · intro p text htext
    rw [hprinted p text htext]
    exact (buffOut_spec p.other).2
  · intro hdone p
    refine ⟨(hdone p).1, ?_⟩
    rw [(hdone p).2 (by cases p <;> decide)]
    rfl

/-- All calls: the two opens, the exchange, and the ends. -/
def fifosRun : List Party :=
  [.parent, .child, .parent, .child, .parent, .child, .parent, .child, .child, .parent, .child,
    .parent, .parent, .child, .child, .parent, .parent]

/-- Both have come to their ends. -/
theorem fifos_exchange_ends : ∃ s,
    exec (step ((fifos .both).setting 4096 buffOut))
        (start false fun _ => List.replicate buffSize 0) fifosRun = some s ∧
      (∀ p, s.pc p = ((fifos .both).script p).length) ∧ ∀ p, ∃ text, s.printed p = some text ∧
        stringAt text 0 = some (messageOut p.other) := by
  have hrun : (exec (step ((fifos .both).setting 4096 buffOut))
      (start false fun _ => List.replicate buffSize 0) fifosRun).map
      (fun s => (s.pc .parent, s.pc .child)) = some (9, 8) := by
    decide +kernel
  obtain ⟨s, hs, hpcs⟩ := Option.map_eq_some_iff.mp hrun
  obtain ⟨hparent, hchild⟩ := Prod.mk.inj hpcs
  have hpc (p : Party) : s.pc p = ((fifos .both).script p).length := by
    cases p
    · exact hparent
    · exact hchild
  obtain ⟨-, -, hprinted, hend⟩ := fifos_exchange (by decide) (fun _ => rfl) hs
  refine ⟨s, hs, hpc, fun p => ?_⟩
  rcases hend with ⟨q, s', hgo⟩ | hdone
  · rw [step_eq_none_of_done ((fifos .both).setting 4096 buffOut) (hpc q)] at hgo
    cases hgo
  · obtain ⟨text, htext⟩ := Option.isSome_iff_exists.mp (hdone p).2
    exact ⟨text, htext, hprinted p text htext⟩

end TwoPipes
end EltSummer
