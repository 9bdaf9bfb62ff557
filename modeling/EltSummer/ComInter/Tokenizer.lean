import EltSummer.Framework.Strtok
import EltSummer.Framework.Turns

/-!
# The tokenizer of the command interpreter

`fork_exec_cominterpret_8July/com_inter/com_int_func.c`: `parsing_comm_str` stores the tokens of
a command line in an array that grows by `PARS_COMM_STR_BUFSIZE` entries whenever it is full,
and a NULL behind the last of them.

`malloc` and `realloc` succeed, and what new entries hold is arbitrary.  Every store is checked
against the array as it is, and the arithmetic on `pos` and `buf_size` against the range of
`int`: an array of `2 ^ 31 - 128` words is the largest there is, and growing it overflows
`buf_size` (`splits_iff`).
-/

namespace EltSummer
namespace ComInter

open Block CString Strtok Turns

/-- `PARS_COMM_STR_BUFSIZE`. -/
def parsCommStrBufsize : ℤ := 128

/-- `ESCAPE_SEQS`: space, tab, return, newline, bell. -/
def escapeSeqs : List UInt8 := [32, 9, 13, 10, 7]

/-- The sum of two `int`s. -/
def intAdd (a b : ℤ) : Option ℤ :=
  if -2 ^ 31 ≤ a + b ∧ a + b < 2 ^ 31 then some (a + b) else none

/-- The locals of `parsing_comm_str`.  A `char*` is an offset into the line, or NULL; `saved` is
where `strtok` goes on. -/
structure State where
  commandStr : List UInt8
  saved : ℕ
  bufSize : ℤ
  pos : ℤ
  words : List (Option ℕ)
  word : Option ℕ
  deriving DecidableEq, Repr

/-- `realloc`, and with no old array `malloc`; `fresh` is what new entries hold. -/
def realloc (old : List (Option ℕ)) (size : ℕ) (fresh : ℕ → Option ℕ) : List (Option ℕ) :=
  old.take size ++ (List.range' old.length (size - old.length)).map fresh

/-- Up to the `while`. -/
def start (fresh : ℕ → Option ℕ) (commandStr : List UInt8) : Option State :=
  (strtok escapeSeqs commandStr 0).map fun found =>
    { commandStr := found.block
      saved := found.saved
      bufSize := parsCommStrBufsize
      pos := 0
      words := realloc [] parsCommStrBufsize.toNat fresh
      word := found.token }

/-- `if (pos >= buf_size)`: the array grows. -/
def State.grow (fresh : ℕ → Option ℕ) (s : State) : Option State :=
  if s.pos ≥ s.bufSize then
    (intAdd s.bufSize parsCommStrBufsize).map fun bufSize =>
      { s with bufSize := bufSize, words := realloc s.words bufSize.toNat fresh }
  else some s

/-- `word = strtok(NULL, ESCAPE_SEQS)`. -/
def State.nextWord (s : State) : Option State :=
  (strtok escapeSeqs s.commandStr s.saved).map fun found =>
    { s with commandStr := found.block, saved := found.saved, word := found.token }

/-- One turn of `while (word != NULL)`. -/
def turn (fresh : ℕ → Option ℕ) (s : State) : Option (Turn State State) :=
  match s.word with
  | none => some (.stop s)
  | some word => do
      let words ← store s.words s.pos (some word)
      let pos ← intAdd s.pos 1
      let s ← State.grow fresh { s with words := words, pos := pos }
      let s ← s.nextWord
      some (.next s)

/-- What `parsing_comm_str` returns, and the line as it leaves it. -/
def Returns (fresh : ℕ → Option ℕ) (commandStr : List UInt8) (words : List (Option ℕ))
    (after : List UInt8) : Prop :=
  ∃ s t, start fresh commandStr = some s ∧ Ends (turn fresh) s t ∧
    store t.words t.pos none = some words ∧ t.commandStr = after

/-- The array that is returned holds the words of the line, in order, and then NULL. -/
def Splits (fresh : ℕ → Option ℕ) (commandStr line : List UInt8) : Prop :=
  ∃ words after, ∃ toks : List ℕ, Returns fresh commandStr words after ∧
    words.take (toks.length + 1) = toks.map some ++ [none] ∧
    toks.map (stringAt after) = (runs escapeSeqs line).map some

/-! ## The loop -/

/-- The state with `toks` stored: the array is full up to them, and has room for one more. -/
structure Inv (line : List UInt8) (s : State) (toks : List ℕ) : Prop where
  pos : s.pos = toks.length
  bufSize : s.bufSize = s.words.length
  size : s.words.length = 128 * (toks.length / 128 + 1)
  stored : s.words.take toks.length = toks.map some
  cut : ∃ rest, Cut escapeSeqs line s.commandStr s.saved (toks ++ s.word.toList) rest ∧
    (s.word = none → runs escapeSeqs rest = [])

variable {commandStr line : List UInt8} {s : State} {toks : List ℕ} {w k : ℕ}
  (fresh : ℕ → Option ℕ)

lemma zero_notMem_escapeSeqs : 0 ∉ escapeSeqs := by decide

lemma length_realloc (old : List (Option ℕ)) {size : ℕ} (h : old.length ≤ size) :
    (realloc old size fresh).length = size := by
  simp only [realloc, List.length_append, List.length_take, List.length_map, List.length_range']
  omega

lemma take_realloc (old : List (Option ℕ)) {size k : ℕ} (h : old.length ≤ size)
    (hk : k ≤ old.length) : (realloc old size fresh).take k = old.take k := by
  rw [realloc, List.take_of_length_le h, List.take_append_of_le_length hk]

lemma exists_start (h : stringAt commandStr 0 = some line) :
    ∃ s, start fresh commandStr = some s ∧ Inv line s [] := by
  have hnil : Cut escapeSeqs line commandStr 0 [] line := cut_nil h
  obtain ⟨found, rest, hfound, hcut, hlast⟩ := hnil.next zero_notMem_escapeSeqs
  refine ⟨_, by rw [start, hfound, Option.map_some], ⟨rfl, ?_, ?_, by simp, rest, hcut, hlast⟩⟩
  · rw [length_realloc _ _ (by simp)]
    rfl
  · rw [length_realloc _ _ (by simp)]
    rfl

/-- The words stored so far are all exactly when `strtok` has found none. -/
lemma Inv.word_eq_none_iff (h : Inv line s toks) :
    s.word = none ↔ toks.length = (runs escapeSeqs line).length := by
  obtain ⟨rest, hcut, hlast⟩ := h.cut
  have hlen := hcut.length
  rw [List.length_append] at hlen
  constructor
  · intro hword
    simp only [hlast hword, hword, Option.toList_none, List.length_nil] at hlen
    omega
  · intro heq
    cases hword : s.word with
    | none => rfl
    | some w =>
        simp only [hword, Option.toList_some, List.length_singleton] at hlen
        omega

/-- `pos++` and the test behind it, on an array with room for one word more. -/
lemma grow_eq (hpos : s.pos = ((k + 1 : ℕ) : ℤ)) (hbuf : s.bufSize = s.words.length)
    (hsize : s.words.length = 128 * (k / 128 + 1)) (hk : k + 1 < 2 ^ 31 - 128) :
    ∃ bufSize words, s.grow fresh = some { s with bufSize := bufSize, words := words } ∧
      bufSize = words.length ∧ words.length = 128 * ((k + 1) / 128 + 1) ∧
      words.take (k + 1) = s.words.take (k + 1) := by
  unfold State.grow
  split
  · rename_i hfull
    have hsum : s.bufSize + parsCommStrBufsize = ((s.words.length + 128 : ℕ) : ℤ) := by
      rw [hbuf, parsCommStrBufsize]
      push_cast
      rfl
    have hadd : intAdd s.bufSize parsCommStrBufsize = some ((s.words.length + 128 : ℕ) : ℤ) := by
      rw [intAdd, hsum, if_pos (by omega)]
    refine ⟨_, _, by rw [hadd, Option.map_some], ?_, ?_, ?_⟩
    · rw [Int.toNat_natCast, length_realloc _ _ (by omega)]
    · rw [Int.toNat_natCast, length_realloc _ _ (by omega)]
      omega
    · rw [Int.toNat_natCast, take_realloc _ _ (by omega) (by omega)]
  · exact ⟨s.bufSize, s.words, rfl, hbuf, by omega, rfl⟩

/-- The array cannot grow any more. -/
lemma grow_eq_none (hpos : s.pos = ((k + 1 : ℕ) : ℤ)) (hbuf : s.bufSize = s.words.length)
    (hsize : s.words.length = 128 * (k / 128 + 1)) (hk : k + 1 = 2 ^ 31 - 128) :
    s.grow fresh = none := by
  have hover : ¬ (-2 ^ 31 ≤ s.bufSize + parsCommStrBufsize ∧
      s.bufSize + parsCommStrBufsize < 2 ^ 31) := by
    rw [hbuf, parsCommStrBufsize]
    omega
  rw [State.grow, if_pos (by omega), intAdd, if_neg hover, Option.map_none]

/-- What a turn does to `words` and `pos`, up to the test for room. -/
lemma Inv.stores (h : Inv line s toks) (hk : toks.length + 1 < 2 ^ 31) (w : ℕ) :
    ∃ words, store s.words s.pos (some w) = some words ∧
      intAdd s.pos 1 = some ((toks.length + 1 : ℕ) : ℤ) ∧ s.bufSize = words.length ∧
      words.length = 128 * (toks.length / 128 + 1) ∧
      words.take (toks.length + 1) = (toks ++ [w]).map some := by
  have hlt : toks.length < s.words.length := by
    rw [h.size]
    omega
  refine ⟨s.words.set toks.length (some w), by rw [h.pos, store_natCast hlt], ?_,
    by rw [h.bufSize, List.length_set], by rw [List.length_set, h.size], ?_⟩
  · rw [intAdd, h.pos, if_pos (by omega)]
    rfl
  · rw [take_set_length hlt, h.stored, List.map_append]
    rfl

/-- The state in a turn that has stored its word, before the test for room. -/
def State.stored (s : State) (words : List (Option ℕ)) (k w : ℕ) : State :=
  { s with words := words, pos := ((k + 1 : ℕ) : ℤ), word := some w }

/-- A turn stores a word and fetches the next. -/
lemma Inv.next (h : Inv line s toks) (hw : s.word = some w)
    (hk : toks.length + 1 < 2 ^ 31 - 128) :
    ∃ s', turn fresh s = some (.next s') ∧ Inv line s' (toks ++ [w]) := by
  obtain ⟨words, hstore, hpos, hbuf, hsize, htake⟩ := h.stores (by omega) w
  obtain ⟨bufSize, words', hgrow, hbuf', hsize', hkeep⟩ :=
    grow_eq fresh (s := s.stored words toks.length w) rfl hbuf hsize hk
  obtain ⟨rest, hcut, -⟩ := h.cut
  rw [hw, Option.toList_some] at hcut
  obtain ⟨found, rest', hfound, hcut', hlast⟩ := hcut.next zero_notMem_escapeSeqs
  refine ⟨{ s with
      commandStr := found.block
      saved := found.saved
      bufSize := bufSize
      pos := ((toks.length + 1 : ℕ) : ℤ)
      words := words'
      word := found.token }, ?_, ⟨by simp, hbuf', by simpa using hsize', ?_, rest', hcut', hlast⟩⟩
  · rw [State.stored] at hgrow
    rw [turn, hw]
    simp only [hstore, hpos, Option.bind_eq_bind, Option.bind_some, hgrow, State.nextWord, hfound,
      Option.map_some]
  · rw [List.length_append, List.length_singleton, hkeep, State.stored, htake]

/-- A turn with no room to come. -/
lemma Inv.turn_eq_none (h : Inv line s toks) (hw : s.word = some w)
    (hk : toks.length + 1 = 2 ^ 31 - 128) : turn fresh s = none := by
  obtain ⟨words, hstore, hpos, hbuf, hsize, -⟩ := h.stores (by omega) w
  have hgrow := grow_eq_none fresh (s := s.stored words toks.length w) rfl hbuf hsize hk
  rw [State.stored] at hgrow
  rw [turn, hw]
  simp only [hstore, hpos, Option.bind_eq_bind, Option.bind_some, hgrow, Option.bind_none]

/-- The loop comes to the state with the first `n` words stored. -/
lemma exists_inv {n : ℕ} (h : Inv line s []) (hn : n ≤ (runs escapeSeqs line).length)
    (hk : n < 2 ^ 31 - 128) :
    ∃ s' toks, Leads (turn fresh) s s' ∧ Inv line s' toks ∧ toks.length = n := by
  induction n with
  | zero => exact ⟨s, [], .refl s, h, rfl⟩
  | succ n ih =>
      obtain ⟨s', toks, hleads, hinv, hlen⟩ := ih (by omega) (by omega)
      cases hw : s'.word with
      | none =>
          have hall := hinv.word_eq_none_iff.mp hw
          omega
      | some w =>
          obtain ⟨s'', hturn, hinv'⟩ := hinv.next fresh hw (by omega)
          exact ⟨s'', toks ++ [w], hleads.step hturn, hinv', by simp [hlen]⟩

/-- With all words stored, the loop ends and there is room for the NULL. -/
lemma Inv.returns (h : Inv line s toks) (hw : s.word = none) :
    turn fresh s = some (.stop s) ∧ ∃ words, store s.words s.pos none = some words ∧
      words.take (toks.length + 1) = toks.map some ++ [none] ∧
      toks.map (stringAt s.commandStr) = (runs escapeSeqs line).map some := by
  have hlt : toks.length < s.words.length := by
    rw [h.size]
    omega
  obtain ⟨rest, hcut, hlast⟩ := h.cut
  obtain ⟨words, hwords, hruns⟩ := hcut.done
  refine ⟨by rw [turn, hw], s.words.set toks.length none,
    by rw [h.pos, store_natCast hlt], ?_, ?_⟩
  · rw [take_set_length hlt, h.stored]
  · simpa [hw, hruns, hlast hw] using hwords

lemma splits_of_lt (h : stringAt commandStr 0 = some line)
    (hlt : (runs escapeSeqs line).length < 2 ^ 31 - 128) : Splits fresh commandStr line := by
  obtain ⟨s, hs, hinv⟩ := exists_start fresh h
  obtain ⟨s', toks, hleads, hinv', hlen⟩ := exists_inv fresh hinv le_rfl hlt
  obtain ⟨hstop, words, hstore, htake, hread⟩ :=
    hinv'.returns fresh (hinv'.word_eq_none_iff.mpr hlen)
  have hends : Ends (turn fresh) s s' := hleads.ends_iff.mpr (ends_of_stop hstop)
  exact ⟨words, s'.commandStr, toks, ⟨s, s', hs, hends, hstore, rfl⟩, htake, hread⟩

/-- With `2 ^ 31 - 128` words, the array that holds all but one of them cannot grow. -/
lemma not_splits_of_ge (h : stringAt commandStr 0 = some line)
    (hge : 2 ^ 31 - 128 ≤ (runs escapeSeqs line).length) : ¬ Splits fresh commandStr line := by
  rintro ⟨words, after, toks, ⟨s, t, hs, hends, -⟩, -⟩
  obtain ⟨s₀, hs₀, hinv⟩ := exists_start fresh h
  obtain rfl : s₀ = s := Option.some.inj (hs₀.symm.trans hs)
  obtain ⟨s', toks', hleads, hinv', hlen⟩ :=
    exists_inv fresh (n := 2 ^ 31 - 129) hinv (by omega) (by omega)
  cases hw : s'.word with
  | none =>
      have hall := hinv'.word_eq_none_iff.mp hw
      omega
  | some w =>
      have hfails := fails_of_none (hinv'.turn_eq_none fresh hw (by omega))
      exact hends.not_fails (hleads.fails_iff.mpr hfails)

/-- **When `parsing_comm_str` splits a line into its words**: exactly when the words are fewer
than `2 ^ 31 - 128`. -/
theorem splits_iff (h : stringAt commandStr 0 = some line) :
    Splits fresh commandStr line ↔ (runs escapeSeqs line).length < 2 ^ 31 - 128 := by
  constructor
  · exact fun hsplits => not_le.mp fun hge => not_splits_of_ge fresh h hge hsplits
  · exact splits_of_lt fresh h

theorem splits_iff_ls_l :
    Splits (fun _ => none) [32, 108, 115, 32, 45, 108, 10, 0] [32, 108, 115, 32, 45, 108, 10] ↔
      (runs escapeSeqs [32, 108, 115, 32, 45, 108, 10]).length < 2 ^ 31 - 128 :=
  splits_iff _ (by decide)

/-- `n` words of one letter. -/
def manyWords (n : ℕ) : List UInt8 := (List.replicate n [97, 32]).flatten

lemma length_runs_manyWords (n : ℕ) : (runs escapeSeqs (manyWords n)).length = n := by
  induction n with
  | zero => rfl
  | succ n ih =>
      have hcons : manyWords (n + 1) = [97] ++ 32 :: manyWords n := by
        rw [manyWords, List.replicate_succ]
        rfl
      rw [hcons, runs_word_append (by simp) (by simp [escapeSeqs]) (by simp [escapeSeqs]),
        List.length_cons, ih]

lemma zero_notMem_manyWords (n : ℕ) : 0 ∉ manyWords n := by
  simp [manyWords]

/-- A line of `2 ^ 31 - 128` words is not split. -/
theorem too_many_words :
    ¬ ∀ (fresh : ℕ → Option ℕ) (commandStr line : List UInt8),
      stringAt commandStr 0 = some line → Splits fresh commandStr line := by
  intro hclaim
  have hline : stringAt (manyWords (2 ^ 31 - 128) ++ [0]) 0 = some (manyWords (2 ^ 31 - 128)) :=
    stringAt_eq_some_iff.mpr ⟨zero_notMem_manyWords _, [], by rw [List.drop_zero]⟩
  exact not_splits_of_ge (fun _ => none) hline (length_runs_manyWords _).ge (hclaim _ _ _ hline)

end ComInter
end EltSummer
