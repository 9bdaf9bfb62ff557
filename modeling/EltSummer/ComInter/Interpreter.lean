import EltSummer.ComInter.Tokenizer
import EltSummer.Framework.Buffered

/-!
# A session with the command interpreter

`fork_exec_cominterpret_8July/com_inter`: `main` reads a command line, starts the program it
names, asks whether to go on, reads a number, and purges `stdin` before the next line.

`stdin` is a terminal or a pipe, and the reads are the ones the interpreter makes: what a program
it has started takes off the same input is not among them.  Which calls of `fork` fail is
arbitrary; a program is started once `fork` has made a process for it, whatever `execvp` does
there.  Each program that is started ends, so `waitpid` returns.

At a terminal the session is a dialogue in lines (`interpreter_dialogue`).  From a pipe it is
not: a purge throws away what came with the answer, and so the command lines are those at the
head of a read (`commands_head_reads`).
-/

namespace EltSummer
namespace ComInter

open Block CString Strtok Turns Scanf Buffered

/-! ## The program -/

/-- The strings of an array up to the NULL, as `execvp` takes them. -/
def argv (commandStr : List UInt8) : List (Option ℕ) → Option (List (List UInt8))
  | [] => none
  | none :: _ => some []
  | some p :: words => do
      let arg ← stringAt commandStr p
      let args ← argv commandStr words
      some (arg :: args)

/-- `parsing_comm_str`: the array, and the line as it leaves it.  A word has a byte at least, and
so the loop has no more turns than the line has bytes, and the last one. -/
def parsingCommStr (fresh : ℕ → Option ℕ) (commandStr : List UInt8) :
    Option (List (Option ℕ) × List UInt8) := do
  let s ← start fresh commandStr
  match run (turn fresh) (commandStr.length + 1) s with
  | .ended t => (store t.words t.pos none).map fun words => (words, t.commandStr)
  | _ => none

/-- What `exit` is given. -/
inductive ExitCode
  | success
  | failure
  deriving DecidableEq, Repr

/-- The programs that have been started, each with its name and its arguments. -/
structure Session where
  stdin : Input UInt8
  finalChoice : Int32
  started : List (List (List UInt8))

structure Outcome where
  code : ExitCode
  started : List (List (List UInt8))
  deriving DecidableEq

/-- `final_choice` is not set before it is read for the first time. -/
def Session.start (finalChoice : Int32) (reads : List (Read UInt8)) : Session :=
  ⟨⟨[], reads⟩, finalChoice, []⟩

/-- `comm_main`: `read_comm_str` and `start_comm` exit where they fail. -/
def Session.commMain (fresh : ℕ → Option ℕ) (forks : ℕ → Bool) (s : Session) :
    Option (Turn Session Outcome) :=
  match s.stdin.getline with
  | none => some (.stop ⟨.failure, s.started⟩)
  | some (line, stdin) => do
      let (words, commandStr) ← parsingCommStr fresh (line ++ [0])
      let args ← argv commandStr words
      if forks s.started.length then
        some (.next { s with stdin := stdin, started := s.started ++ [args] })
      else some (.stop ⟨.failure, s.started⟩)

/-- From `scanf` to the end of the `while`. -/
def Session.askFinalChoice (s : Session) : Turn Session Outcome :=
  let (found, stdin) := s.stdin.scanInt
  if (found.map toInt32).getD s.finalChoice ≠ 1 then .stop ⟨.success, s.started⟩
  else .next { s with stdin := stdin.purge, finalChoice := 0 }

/-- One turn of `while (1)`. -/
def mainTurn (fresh : ℕ → Option ℕ) (forks : ℕ → Bool) (s : Session) :
    Option (Turn Session Outcome) :=
  (s.commMain fresh forks).map fun
    | .stop t => .stop t
    | .next s => s.askFinalChoice

/-! ## What a session is meant to be -/

/-- The words of a command line, as far as it is a string. -/
def commandWords (line : List UInt8) : List (List UInt8) :=
  runs escapeSeqs (line.takeWhile (· ≠ 0))

/-- The dialogue at a terminal: a line for a program, and a line for the answer. -/
def dialogue (forks : ℕ → Bool) (finalChoice : Int32) (started : List (List (List UInt8)))
    (lines : List Typed) : Outcome :=
  match lines with
  | [] => ⟨.failure, started⟩
  | command :: lines =>
      if forks started.length then
        if ((answer lines).1.map toInt32).getD finalChoice = 1 then
          dialogue forks 0 (started ++ [commandWords command.text]) (answer lines).2
        else ⟨.success, started ++ [commandWords command.text]⟩
      else ⟨.failure, started⟩
termination_by lines.length
decreasing_by exact Nat.lt_succ_of_le (length_answer_le lines)

/-! ## A command line -/

variable {commandStr line : List UInt8} {s s' : State} {toks : List ℕ} {k : ℕ}
  (fresh : ℕ → Option ℕ) (forks : ℕ → Bool)

/-- The loop is over when each word has had its turn. -/
lemma Inv.exists_run (h : Inv line s toks) (hall : (runs escapeSeqs line).length = toks.length + k)
    (hlt : (runs escapeSeqs line).length < 2 ^ 31 - 128) :
    ∃ t all, run (turn fresh) (k + 1) s = .ended t ∧ Inv line t all ∧ t.word = none := by
  induction k generalizing s toks with
  | zero =>
      have hword := h.word_eq_none_iff.mpr hall.symm
      exact ⟨s, toks, run_stop (h.returns fresh hword).1, h, hword⟩
  | succ k ih =>
      cases hw : s.word with
      | none =>
          have hnone := h.word_eq_none_iff.mp hw
          omega
      | some w =>
          obtain ⟨t, hturn, ht⟩ := h.next fresh hw (by omega)
          rw [run_next hturn]
          exact ih ht (by rw [List.length_append, List.length_singleton]; omega)

lemma argv_of_take {words : List (Option ℕ)} {args : List (List UInt8)}
    (htake : words.take (toks.length + 1) = toks.map some ++ [none])
    (hread : toks.map (stringAt commandStr) = args.map some) :
    argv commandStr words = some args := by
  induction toks generalizing words args with
  | nil =>
      obtain rfl := List.map_eq_nil_iff.mp hread.symm
      cases words with
      | nil => cases htake
      | cons word words =>
          obtain rfl := List.head_eq_of_cons_eq htake
          rfl
  | cons tok toks ih =>
      cases args with
      | nil => cases hread
      | cons arg args =>
          cases words with
          | nil => cases htake
          | cons word words =>
              simp only [List.length_cons, List.take_succ_cons, List.map_cons, List.cons_append,
                List.cons.injEq] at htake hread
              obtain ⟨rfl, htake⟩ := htake
              rw [argv, hread.1, ih htake hread.2]
              rfl

/-- What `start_comm` is given: the words of the line. -/
lemma exists_parsingCommStr (hlt : (commandWords line).length < 2 ^ 31 - 128) :
    ∃ words after, parsingCommStr fresh (line ++ [0]) = some (words, after) ∧
      argv after words = some (commandWords line) := by
  obtain ⟨s, hs, hinv⟩ := exists_start fresh (stringAt_append_zero line [])
  obtain ⟨t, all, hrun, ht, hword⟩ := hinv.exists_run fresh (Nat.zero_add _).symm hlt
  obtain ⟨-, words, hstore, htake, hread⟩ := ht.returns fresh hword
  have hfew : (runs escapeSeqs (line.takeWhile (· ≠ 0))).length + 1 ≤ (line ++ [0]).length + 1 := by
    have hwords := length_runs_le escapeSeqs (line.takeWhile (· ≠ 0))
    have hshort := (List.takeWhile_prefix (l := line) (· ≠ 0)).length_le
    rw [List.length_append]
    omega
  refine ⟨words, t.commandStr, ?_, argv_of_take htake hread⟩
  rw [parsingCommStr, hs, Option.bind_eq_bind, Option.bind_some, run_mono hfew (by simp) hrun]
  simp only [hstore, Option.map_some]

lemma commandWords_newline (text : List UInt8) :
    commandWords (text ++ [newline]) = commandWords text := by
  unfold commandWords
  rw [List.takeWhile_append]
  split
  · rename_i hall
    rw [List.takeWhile_cons_of_pos (by decide), List.takeWhile_nil,
      (List.takeWhile_prefix _).eq_of_length hall, runs_append_cons (by decide)]
    exact List.append_nil _
  · rfl

variable {s : Session}

/-- `comm_main` starts the program that the line names. -/
lemma commMain_eq {stdin : Input UInt8} (hline : s.stdin.getline = some (line, stdin))
    (hlt : (commandWords line).length < 2 ^ 31 - 128) :
    s.commMain fresh forks = some (if forks s.started.length then
      .next { s with stdin := stdin, started := s.started ++ [commandWords line] }
      else .stop ⟨.failure, s.started⟩) := by
  obtain ⟨words, after, hparse, hargv⟩ := exists_parsingCommStr fresh hlt
  rw [Session.commMain, hline]
  simp only [hparse, hargv, Option.bind_eq_bind, Option.bind_some]
  split
  · rfl
  · rfl

/-! ## At a terminal -/

/-- The number is the answer, and the next line is a command line. -/
lemma askFinalChoice_lines {lines : List Typed} (h : s.stdin = ⟨[], lines.map Typed.read⟩) :
    s.askFinalChoice =
      if ((answer lines).1.map toInt32).getD s.finalChoice = 1 then
        .next ⟨⟨[], (answer lines).2.map Typed.read⟩, 0, s.started⟩
      else .stop ⟨.success, s.started⟩ := by
  obtain ⟨hvalue, hpurge⟩ := purge_scanInt_lines lines
  unfold Session.askFinalChoice
  rw [h]
  dsimp only
  rw [hvalue, hpurge, ite_not]

/-- A turn takes a line for the program, and the lines up to the answer. -/
lemma mainTurn_lines (finalChoice : Int32) (started : List (List (List UInt8))) (command : Typed)
    (lines : List Typed) :
    mainTurn fresh forks ⟨⟨[], (command :: lines).map Typed.read⟩, finalChoice, started⟩ =
      some (if forks started.length then
        if ((answer lines).1.map toInt32).getD finalChoice = 1 then
          .next ⟨⟨[], (answer lines).2.map Typed.read⟩, 0,
            started ++ [commandWords command.text]⟩
        else .stop ⟨.success, started ++ [commandWords command.text]⟩
      else .stop ⟨.failure, started⟩) := by
  have hshort : (commandWords (command.text ++ [newline])).length < 2 ^ 31 - 128 := by
    have hwords := length_runs_le escapeSeqs (command.text.takeWhile (· ≠ 0))
    have hprefix := (List.takeWhile_prefix (l := command.text) (· ≠ 0)).length_le
    have hfits := command.fits
    rw [commandWords_newline, commandWords]
    rw [lineMax] at hfits
    omega
  have hmain := commMain_eq fresh forks
    (s := ⟨⟨[], (command :: lines).map Typed.read⟩, finalChoice, started⟩)
    (getline_lines command lines) hshort
  rw [commandWords_newline] at hmain
  rw [mainTurn, hmain]
  split
  · exact congrArg some (askFinalChoice_lines rfl)
  · rfl

lemma ends_dialogue (finalChoice : Int32) (started : List (List (List UInt8)))
    (lines : List Typed) :
    Ends (mainTurn fresh forks) ⟨⟨[], lines.map Typed.read⟩, finalChoice, started⟩
      (dialogue forks finalChoice started lines) := by
  fun_induction dialogue forks finalChoice started lines with
  | case1 finalChoice started => exact ends_of_stop rfl
  | case2 finalChoice started command lines hfork hgo ih =>
      rw [ends_iff_of_next]
      · exact ih
      · rw [mainTurn_lines, if_pos hfork, if_pos hgo]
  | case3 finalChoice started command lines hfork hgo =>
      apply ends_of_stop
      rw [mainTurn_lines, if_pos hfork, if_neg hgo]
  | case4 finalChoice started command lines hfork =>
      apply ends_of_stop
      rw [mainTurn_lines, if_neg hfork]

/-- **The interpreter at a terminal.**  Whatever is typed and whichever calls of `fork` fail, the
session ends as the dialogue does: the programs that are started are the words of the command
lines, in order. -/
theorem interpreter_dialogue (finalChoice : Int32) (lines : List Typed) :
    Ends (mainTurn fresh forks) (.start finalChoice (lines.map Typed.read))
      (dialogue forks finalChoice [] lines) :=
  ends_dialogue fresh forks finalChoice [] lines

/-! ## From a pipe -/

/-- The line at the head of a read. -/
def headLine (reads : List (Read UInt8)) (i : ℕ) : List UInt8 :=
  firstLine ((reads.drop i).flatMap Read.bytes)

lemma length_headLine_le (reads : List (Read UInt8)) (i : ℕ) :
    (headLine reads i).length ≤ (reads.flatMap Read.bytes).length := by
  have hsplit := congrArg (fun l => (l.flatMap Read.bytes).length) (List.take_append_drop i reads)
  simp only [List.flatMap_append, List.length_append] at hsplit
  rw [headLine, firstLine, List.length_take]
  omega

/-- Programs that are named by the lines at the heads of reads before read `k`, in order and each
read at most once. -/
def NamedAtHeads (reads : List (Read UInt8)) (k : ℕ) (started : List (List (List UInt8))) : Prop :=
  ∃ is : List ℕ, is.Pairwise (· < ·) ∧ (∀ i ∈ is, i < k) ∧
    started = is.map fun i => commandWords (headLine reads i)

variable {reads : List (Read UInt8)} {started : List (List (List UInt8))} {j : ℕ}

lemma NamedAtHeads.mono (h : NamedAtHeads reads k started) (hkj : k ≤ j) :
    NamedAtHeads reads j started := by
  obtain ⟨is, hinc, hlt, hstarted⟩ := h
  exact ⟨is, hinc, fun i hi => (hlt i hi).trans_le hkj, hstarted⟩

lemma NamedAtHeads.snoc (h : NamedAtHeads reads k started) :
    NamedAtHeads reads (k + 1) (started ++ [commandWords (headLine reads k)]) := by
  obtain ⟨is, hinc, hlt, rfl⟩ := h
  refine ⟨is ++ [k], ?_, ?_, ?_⟩
  · rw [List.pairwise_append]
    exact ⟨hinc, List.pairwise_singleton _ _, fun i hi l hl => by
      rw [List.mem_singleton.mp hl]
      exact hlt i hi⟩
  · intro i hi
    rcases List.mem_append.mp hi with hi | hi
    · exact (hlt i hi).trans (Nat.lt_succ_self k)
    · rw [List.mem_singleton.mp hi]
      exact Nat.lt_succ_self k
  · rw [List.map_append, List.map_singleton]

/-- At the head of read `k` with the programs that the lines before it have named. -/
structure AtHead (reads : List (Read UInt8)) (k : ℕ) (s : Session) : Prop where
  stdin : s.stdin = ⟨[], reads.drop k⟩
  named : NamedAtHeads reads k s.started
  le : k ≤ reads.length

lemma askFinalChoice_cases (s : Session) :
    s.askFinalChoice = .stop ⟨.success, s.started⟩ ∨
      ∃ rs, rs <:+ s.stdin.reads ∧ s.askFinalChoice = .next ⟨⟨[], rs⟩, 0, s.started⟩ := by
  obtain ⟨rs, hpurge, hrs⟩ := purge_scanInt_isSuffix s.stdin
  unfold Session.askFinalChoice
  dsimp only
  split
  · exact Or.inl rfl
  · exact Or.inr ⟨rs, hrs, by rw [hpurge]⟩

/-- A turn makes a read for its line, and starts the program that the line names. -/
lemma AtHead.turn (h : AtHead reads k s)
    (hshort : (reads.flatMap Read.bytes).length < 2 ^ 31 - 128) :
    (∃ t, mainTurn fresh forks s = some (.stop t) ∧
      NamedAtHeads reads reads.length t.started) ∨
    ∃ s' k', mainTurn fresh forks s = some (.next s') ∧ k < k' ∧ AtHead reads k' s' := by
  have hline := getline_of_empty (reads.drop k)
  rw [← h.stdin] at hline
  rcases hline with ⟨hnone, -⟩ | ⟨stdin, hline, hne, hsuffix⟩
  · refine Or.inl ⟨⟨.failure, s.started⟩, ?_, h.named.mono h.le⟩
    rw [mainTurn, Session.commMain, hnone]
    rfl
  have hk : k < reads.length := by
    by_contra hge
    exact hne (List.drop_eq_nil_iff.mpr (not_lt.mp hge))
  have hwords : (commandWords (headLine reads k)).length < 2 ^ 31 - 128 := by
    have hbytes := length_headLine_le reads k
    have hprefix := (List.takeWhile_prefix (l := headLine reads k) (· ≠ 0)).length_le
    have hruns := length_runs_le escapeSeqs ((headLine reads k).takeWhile (· ≠ 0))
    rw [commandWords]
    omega
  have hmain := commMain_eq fresh forks hline hwords
  by_cases hfork : forks s.started.length = true
  · rw [if_pos hfork] at hmain
    have hturn : mainTurn fresh forks s = some (Session.askFinalChoice
        { s with stdin := stdin, started := s.started ++ [commandWords (headLine reads k)] }) := by
      rw [mainTurn, hmain]
      rfl
    rcases askFinalChoice_cases
      { s with stdin := stdin, started := s.started ++ [commandWords (headLine reads k)] } with
        hstop | ⟨rs, hrs, hnext⟩
    · rw [hstop] at hturn
      exact Or.inl ⟨_, hturn, h.named.snoc.mono hk⟩
    · rw [hnext] at hturn
      have hrest : rs <:+ reads.drop (k + 1) := by
        rw [← List.tail_drop]
        exact hrs.trans hsuffix
      have hlen := hrest.length_le
      rw [List.length_drop] at hlen
      refine Or.inr ⟨_, reads.length - rs.length, hturn, by omega, ?_, ?_, by omega⟩
      · exact congrArg (Input.mk [])
          (List.suffix_iff_eq_drop.mp (hrest.trans (List.drop_suffix _ _)))
      · exact h.named.snoc.mono (by omega)
  · rw [if_neg hfork] at hmain
    refine Or.inl ⟨_, by rw [mainTurn, hmain]; rfl, h.named.mono h.le⟩

lemma AtHead.leads {s' : Session} (h : AtHead reads k s)
    (hshort : (reads.flatMap Read.bytes).length < 2 ^ 31 - 128)
    (hleads : Leads (mainTurn fresh forks) s s') : ∃ j, AtHead reads j s' := by
  induction hleads with
  | refl => exact ⟨k, h⟩
  | tail _ hturn ih =>
      obtain ⟨j, hj⟩ := ih
      rcases hj.turn fresh forks hshort with ⟨t, hstop, -⟩ | ⟨u, j', hnext, -, hj'⟩
      · cases hstop.symm.trans hturn
      · cases hnext.symm.trans hturn
        exact ⟨j', hj'⟩

/-- **The interpreter behind a pipe.**  However the input is cut into reads, the session ends, and
the programs that are started are named by lines at the heads of reads: each of its own read, and
the rest of a read is lost with the answer. -/
theorem commands_head_reads (finalChoice : Int32) {reads : List (Read UInt8)}
    (hshort : (reads.flatMap Read.bytes).length < 2 ^ 31 - 128) :
    ∃ t, Ends (mainTurn fresh forks) (.start finalChoice reads) t ∧
      NamedAtHeads reads reads.length t.started := by
  have hstart : AtHead reads 0 (.start finalChoice reads) :=
    ⟨by rw [List.drop_zero]; rfl, ⟨[], List.Pairwise.nil, by simp, rfl⟩, Nat.zero_le _⟩
  -- the reads to come get fewer with each turn
  obtain ⟨t, ht⟩ : ∃ t, Ends (mainTurn fresh forks) (.start finalChoice reads) t := by
    apply ends_of_measure fun s => s.stdin.reads.length
    intro s hs
    obtain ⟨k, hk⟩ := hstart.leads fresh forks hshort hs
    rcases hk.turn fresh forks hshort with ⟨t, hstop, -⟩ | ⟨s', j, hnext, hlt, hj⟩
    · exact Or.inl ⟨t, hstop⟩
    · refine Or.inr ⟨s', hnext, ?_⟩
      have hle := hj.le
      rw [hk.stdin, hj.stdin, List.length_drop, List.length_drop]
      omega
  obtain ⟨s, hs, hstop⟩ := ends_iff_leads.mp ht
  obtain ⟨k, hk⟩ := hstart.leads fresh forks hshort hs
  refine ⟨t, ht, ?_⟩
  rcases hk.turn fresh forks hshort with ⟨u, hstop', hnamed⟩ | ⟨s', j, hnext, -, -⟩
  · cases hstop'.symm.trans hstop
    exact hnamed
  · cases hnext.symm.trans hstop

/-- Two command lines and their answers, written in one piece. -/
def script : Read UInt8 := ⟨[108, 115, 10, 49, 10, 112, 119, 100, 10, 49, 10], by simp⟩

/-- The script starts one program at most. -/
theorem commands_head_reads_script :
    ∃ t, Ends (mainTurn (fun _ => none) fun _ => true) (.start 0 [script]) t ∧
      NamedAtHeads [script] 1 t.started :=
  commands_head_reads _ _ 0 (by decide)

end ComInter
end EltSummer
