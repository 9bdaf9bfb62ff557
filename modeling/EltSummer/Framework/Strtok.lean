import EltSummer.Framework.CString
import Mathlib.Data.List.TakeWhile

/-!
# `strtok`

`strtok` finds the tokens of a string one after the other.  It skips the separators from where
it left off, takes the bytes up to the next separator for a token and puts a NUL over that
separator, so that the token, given as an offset into the block, is a string there.

`runs` is what the tokens are meant to be: the maximal runs of bytes that are no separators.
`Cut` says how far a string has been taken apart, and each call keeps it (`Cut.strtok`): the
tokens so far stand in the block as strings, and with the runs of what is left they are the
runs of the whole.
-/

namespace Strtok

open CString

/-- The runs of bytes between the separators. -/
def runs (seps line : List UInt8) : List (List UInt8) :=
  (line.splitOnP (· ∈ seps)).filter (· ≠ [])

/-- `strspn`. -/
def strspn (seps b : List UInt8) (pos : ℕ) : ℕ := ((b.drop pos).takeWhile (· ∈ seps)).length

/-- `strcspn`, which stops at the NUL as well. -/
def strcspn (seps b : List UInt8) (pos : ℕ) : ℕ :=
  ((b.drop pos).takeWhile fun c => c ∉ seps ∧ c ≠ 0).length

/-- What a call leaves: the block, the place to go on from, and the token or NULL. -/
structure Found where
  block : List UInt8
  saved : ℕ
  token : Option ℕ
  deriving DecidableEq, Repr

/-- `strtok`, from the place where the call before left off. -/
def strtok (seps b : List UInt8) (pos : ℕ) : Option Found :=
  let start := pos + strspn seps b pos
  let stop := start + strcspn seps b start
  b[stop]?.map fun c =>
    if stop = start then ⟨b, start, none⟩
    else if c = 0 then ⟨b, stop, some start⟩
    else ⟨b.set stop 0, stop + 1, some start⟩

variable {seps line b w g r : List UInt8} {pos : ℕ}

/-! ## Runs -/

/-- Separators in front make no run. -/
lemma runs_append_of_seps (hg : ∀ c ∈ g, c ∈ seps) (r : List UInt8) :
    runs seps (g ++ r) = runs seps r := by
  induction g with
  | nil => rfl
  | cons c g ih =>
      have hc : c ∈ seps := hg c List.mem_cons_self
      rw [← ih fun d hd => hg d (List.mem_cons_of_mem c hd), List.cons_append, runs,
        List.splitOnP_cons_eq_if_modifyHead, if_pos (by simpa using hc)]
      simp [runs]

lemma runs_seps (hg : ∀ c ∈ g, c ∈ seps) : runs seps g = [] := by
  have hall := runs_append_of_seps hg []
  rw [List.append_nil] at hall
  rw [hall]
  simp [runs]

/-- One run, up to the end. -/
lemma runs_word (hne : w ≠ []) (hw : ∀ c ∈ w, c ∉ seps) : runs seps w = [w] := by
  rw [runs, List.splitOnP_eq_singleton (by simpa using hw)]
  simp [hne]

/-- One run, up to a separator. -/
lemma runs_word_append (hne : w ≠ []) (hw : ∀ c ∈ w, c ∉ seps) {c : UInt8} (hc : c ∈ seps)
    (r : List UInt8) : runs seps (w ++ c :: r) = w :: runs seps r := by
  rw [runs, List.splitOnP_append_cons_of_forall_mem (by simpa using hw) c (by simpa using hc)]
  simp [hne, runs]

/-! ## One call -/

lemma runs_append_cons {c : UInt8} (hc : c ∈ seps) (w r : List UInt8) :
    runs seps (w ++ c :: r) = runs seps w ++ runs seps r := by
  unfold runs
  rw [List.splitOnP_append_cons _ _ (by simpa using hc), List.filter_append]

/-- Each run has a byte. -/
lemma length_runs_le (seps line : List UInt8) : (runs seps line).length ≤ line.length := by
  induction line with
  | nil => exact le_rfl
  | cons c line ih =>
      by_cases hc : c ∈ seps
      · rw [← List.nil_append (c :: line), runs_append_cons hc]
        exact ih.trans (Nat.le_succ _)
      · unfold runs at ih ⊢
        rw [List.splitOnP_cons_eq_if_modifyHead, if_neg (by simpa using hc)]
        cases hpieces : line.splitOnP (· ∈ seps) with
        | nil => exact absurd hpieces (List.splitOnP_ne_nil _ _)
        | cons w ws =>
            have hmore := ((List.sublist_cons_self w ws).filter (· ≠ [])).length_le
            rw [hpieces] at ih
            rw [List.modifyHead_cons, List.filter_cons_of_pos (by simp), List.length_cons,
              List.length_cons]
            exact Nat.succ_le_succ (hmore.trans ih)

/-- Separators, a run, and what a separator begins: how a call reads a string. -/
lemma exists_cut (seps rest : List UInt8) :
    ∃ g w r, rest = g ++ (w ++ r) ∧ (∀ c ∈ g, c ∈ seps) ∧ (∀ c ∈ w, c ∉ seps) ∧
      (r = [] ∨ ∃ c r', r = c :: r' ∧ c ∈ seps) ∧ (w = [] → r = []) := by
  have hhead : ∀ (p : UInt8 → Bool) (l : List UInt8),
      l.dropWhile p = [] ∨ ∃ c l', l.dropWhile p = c :: l' ∧ p c = false := by
    intro p l
    have hstop := List.head?_dropWhile_not p l
    cases hl : l.dropWhile p with
    | nil => exact Or.inl rfl
    | cons c l' => exact Or.inr ⟨c, l', rfl, by simpa [hl] using hstop⟩
  obtain ⟨rest', hrest'⟩ : ∃ l, rest.dropWhile (· ∈ seps) = l := ⟨_, rfl⟩
  refine ⟨rest.takeWhile (· ∈ seps), rest'.takeWhile (· ∉ seps), rest'.dropWhile (· ∉ seps),
    ?_, ?_, ?_, ?_, ?_⟩
  · rw [List.takeWhile_append_dropWhile, ← hrest', List.takeWhile_append_dropWhile]
  · exact fun c hc => by simpa using List.mem_takeWhile_imp hc
  · exact fun c hc => by simpa using List.mem_takeWhile_imp hc
  · exact (hhead _ _).imp_right fun ⟨c, l', hl, hc⟩ => ⟨c, l', hl, by simpa using hc⟩
  · intro hw
    rcases hhead (· ∈ seps) rest with hnil | ⟨c, l', hl, hc⟩
    · rw [← hrest', hnil, List.dropWhile_nil]
    · rw [← hrest', hl, List.takeWhile_cons, if_pos (by simpa using hc)] at hw
      cases hw

lemma strspn_eq {c : UInt8} {t : List UInt8} (h : b.drop pos = g ++ c :: t)
    (hg : ∀ c ∈ g, c ∈ seps) (hc : c ∉ seps) : strspn seps b pos = g.length := by
  rw [strspn, h, List.takeWhile_append_of_pos (by simpa using hg), List.takeWhile_cons,
    if_neg (by simpa using hc), List.append_nil]

lemma strcspn_eq {c : UInt8} {t : List UInt8} (h : b.drop pos = w ++ c :: t)
    (hw : ∀ c ∈ w, c ∉ seps ∧ c ≠ 0) (hc : c ∈ seps ∨ c = 0) :
    strcspn seps b pos = w.length := by
  rw [strcspn, h, List.takeWhile_append_of_pos (by simpa using hw), List.takeWhile_cons,
    if_neg (by simpa [or_iff_not_imp_left] using hc), List.append_nil]

lemma drop_add_length {g r : List UInt8} (h : b.drop pos = g ++ r) :
    b.drop (pos + g.length) = r := by
  rw [← List.drop_drop, h, List.drop_left]

/-- The two ways a call goes, on a string that is `rest` from `pos` on. -/
inductive Called (seps b : List UInt8) (pos : ℕ) (rest : List UInt8) : Found → Prop
  | last {saved} (hruns : runs seps rest = []) (hsaved : pos ≤ saved)
      (hrest : stringAt b saved = some []) :
      Called seps b pos rest ⟨b, saved, none⟩
  | word {b' start saved w} (rest' : List UInt8) (hruns : runs seps rest = w :: runs seps rest')
      (hstart : pos ≤ start) (hsaved : start + w.length ≤ saved)
      (hkept : ∀ i ≤ start, b'[i]? = b[i]?) (hword : stringAt b' start = some w)
      (hrest : stringAt b' saved = some rest') : Called seps b pos rest ⟨b', saved, some start⟩

/-- Nothing but separators. -/
lemma called_over {tail : List UInt8} (h0 : 0 ∉ seps) (hg : ∀ c ∈ g, c ∈ seps)
    (h : b.drop pos = g ++ 0 :: tail) :
    ∃ found, strtok seps b pos = some found ∧ Called seps b pos g found := by
  have hstart := drop_add_length h
  have hspan : strspn seps b pos = g.length := strspn_eq h hg h0
  have hcspan : strcspn seps b (pos + g.length) = 0 :=
    strcspn_eq (w := []) hstart (by simp) (Or.inr rfl)
  have hbyte : b[pos + g.length]? = some 0 := by
    simpa using congrArg List.head? hstart
  refine ⟨⟨b, pos + g.length, none⟩, by simp [strtok, hspan, hcspan, hbyte],
    .last (runs_seps hg) (by omega) ?_⟩
  exact stringAt_eq_some_iff.mpr ⟨by simp, tail, hstart⟩

lemma strspn_eq_of_word {t : List UInt8} (h : b.drop pos = g ++ (w ++ t))
    (hg : ∀ c ∈ g, c ∈ seps) (hne : w ≠ []) (hw : ∀ c ∈ w, c ∉ seps ∧ c ≠ 0) :
    strspn seps b pos = g.length := by
  obtain ⟨d, w', rfl⟩ := List.exists_cons_of_ne_nil hne
  exact strspn_eq h hg (hw d List.mem_cons_self).1

/-- The last word ends with the string. -/
lemma called_last {tail : List UInt8} (hg : ∀ c ∈ g, c ∈ seps) (hne : w ≠ [])
    (hw : ∀ c ∈ w, c ∉ seps ∧ c ≠ 0) (h : b.drop pos = g ++ (w ++ 0 :: tail)) :
    ∃ found, strtok seps b pos = some found ∧ Called seps b pos (g ++ w) found := by
  have hstart := drop_add_length h
  have hafter := drop_add_length hstart
  have hspan : strspn seps b pos = g.length := strspn_eq_of_word h hg hne hw
  have hcspan : strcspn seps b (pos + g.length) = w.length := strcspn_eq hstart hw (Or.inr rfl)
  have hbyte : b[pos + g.length + w.length]? = some 0 := by
    simpa using congrArg List.head? hafter
  refine ⟨⟨b, pos + g.length + w.length, some (pos + g.length)⟩,
    by simp [strtok, hspan, hcspan, hbyte, hne],
    .word (w := w) [] ?_ (by omega) le_rfl (fun _ _ => rfl) ?_ ?_⟩
  · rw [runs_append_of_seps hg, runs_word hne fun c hc => (hw c hc).1]
    simp [runs]
  · exact stringAt_eq_some_iff.mpr ⟨fun h => (hw 0 h).2 rfl, tail, hstart⟩
  · exact stringAt_eq_some_iff.mpr ⟨by simp, tail, hafter⟩

/-- The separator behind a word becomes its NUL. -/
lemma called_word {c : UInt8} {tail : List UInt8} (hg : ∀ c ∈ g, c ∈ seps) (hne : w ≠ [])
    (hw : ∀ c ∈ w, c ∉ seps ∧ c ≠ 0) (hc : c ∈ seps) (hc0 : c ≠ 0) (hr : 0 ∉ r)
    (h : b.drop pos = g ++ (w ++ c :: (r ++ 0 :: tail))) :
    ∃ found, strtok seps b pos = some found ∧ Called seps b pos (g ++ (w ++ c :: r)) found := by
  have hpos : 0 < w.length := List.length_pos_iff.mpr hne
  have hstart := drop_add_length h
  have hafter := drop_add_length hstart
  have hspan : strspn seps b pos = g.length := strspn_eq_of_word h hg hne hw
  have hcspan : strcspn seps b (pos + g.length) = w.length := strcspn_eq hstart hw (Or.inl hc)
  have hbyte : b[pos + g.length + w.length]? = some c := by
    simpa using congrArg List.head? hafter
  refine ⟨⟨b.set (pos + g.length + w.length) 0, pos + g.length + w.length + 1,
      some (pos + g.length)⟩,
    by simp [strtok, hspan, hcspan, hbyte, hne, hc0],
    .word (w := w) r ?_ (by omega) (by omega) (fun i hi => List.getElem?_set_ne (by omega)) ?_ ?_⟩
  · rw [runs_append_of_seps hg, runs_word_append hne (fun c hc => (hw c hc).1) hc]
  · refine stringAt_eq_some_iff.mpr ⟨fun h => (hw 0 h).2 rfl, r ++ 0 :: tail, ?_⟩
    rw [List.drop_set, if_neg (by omega), hstart]
    simp
  · refine stringAt_eq_some_iff.mpr ⟨hr, tail, ?_⟩
    rw [List.drop_set_of_lt (by omega), ← List.drop_drop, hafter]
    simp

/-- What one call does. -/
lemma called {rest : List UInt8} (h0 : 0 ∉ seps) (h : stringAt b pos = some rest) :
    ∃ found, strtok seps b pos = some found ∧ Called seps b pos rest found := by
  obtain ⟨hnul, tail, htail⟩ := stringAt_eq_some_iff.mp h
  obtain ⟨g, w, r, rfl, hg, hw, hr, hend⟩ := exists_cut seps rest
  simp only [List.mem_append, not_or] at hnul
  obtain ⟨-, hnulw, hnulr⟩ := hnul
  have hstop : ∀ c ∈ w, c ∉ seps ∧ c ≠ 0 := fun c hc => ⟨hw c hc, fun h => hnulw (h ▸ hc)⟩
  simp only [List.append_assoc] at htail
  by_cases hne : w = []
  · obtain rfl := hne
    obtain rfl := hend rfl
    simpa using called_over h0 hg htail
  · rcases hr with rfl | ⟨c, r', rfl, hc⟩
    · simpa using called_last hg hne hstop htail
    · simp only [List.mem_cons, not_or] at hnulr
      exact called_word hg hne hstop hc (Ne.symm hnulr.1) hnulr.2 htail

/-! ## One call after the other -/

/-- The string `line`, taken apart as far as `saved`: the tokens so far, and what is left. -/
structure Cut (seps line b : List UInt8) (saved : ℕ) (toks : List ℕ) (rest : List UInt8) :
    Prop where
  left : stringAt b saved = some rest
  done : ∃ words, toks.map (stringAt b) = words.map some ∧
    runs seps line = words ++ runs seps rest
  before : ∀ t ∈ toks, ∀ w, stringAt b t = some w → t + w.length ≤ saved

lemma cut_nil (h : stringAt b 0 = some line) : Cut seps line b 0 [] line :=
  ⟨h, ⟨[], rfl, rfl⟩, by simp⟩

/-- How many tokens there are in all. -/
lemma Cut.length {toks : List ℕ} {rest : List UInt8} (h : Cut seps line b pos toks rest) :
    (runs seps line).length = toks.length + (runs seps rest).length := by
  obtain ⟨words, hwords, hruns⟩ := h.done
  have hlen := congrArg List.length hwords
  simp only [List.length_map] at hlen
  rw [hruns, List.length_append, hlen]

/-- A call takes the next token off, or finds that none is left. -/
theorem Cut.next {toks : List ℕ} {rest : List UInt8} (h : Cut seps line b pos toks rest)
    (h0 : 0 ∉ seps) :
    ∃ found rest', strtok seps b pos = some found ∧
      Cut seps line found.block found.saved (toks ++ found.token.toList) rest' ∧
      (found.token = none → runs seps rest' = []) := by
  obtain ⟨found, hfound, hcalled⟩ := called h0 h.left
  obtain ⟨words, hwords, hruns⟩ := h.done
  cases hcalled with
  | last hover hsaved hrest =>
      refine ⟨_, [], hfound, ⟨hrest, ⟨words, ?_, ?_⟩, ?_⟩, fun _ => rfl⟩
      · simpa using hwords
      · rw [hruns, hover]
        rfl
      · intro t ht w hw
        exact (h.before t (by simpa using ht) w hw).trans hsaved
  | @word b' start saved w rest' hword hstart hsaved hkept hread hrest =>
      have hkeep : ∀ t ∈ toks, ∃ v, stringAt b t = some v ∧ stringAt b' t = some v := by
        intro t ht
        have hmem : stringAt b t ∈ words.map some := hwords ▸ List.mem_map_of_mem ht
        obtain ⟨v, -, hv⟩ := List.mem_map.mp hmem
        have hbefore := h.before t ht v hv.symm
        obtain ⟨hnul, hcells⟩ := stringAt_eq_some_iff_getElem?.mp hv.symm
        refine ⟨v, hv.symm, stringAt_eq_some_iff_getElem?.mpr ⟨hnul, fun k hk => ?_⟩⟩
        rw [hkept (t + k) (by omega), hcells k hk]
      have hmap : toks.map (stringAt b') = toks.map (stringAt b) :=
        List.map_congr_left fun t ht => by
          obtain ⟨v, hv, hv'⟩ := hkeep t ht
          rw [hv, hv']
      refine ⟨_, rest', hfound, ⟨hrest, ⟨words ++ [w], ?_, ?_⟩, ?_⟩, nofun⟩
      · simp [hmap, hwords, hread]
      · rw [hruns, hword, List.append_assoc, List.singleton_append]
      · intro t ht v hv
        simp only [Option.toList_some, List.mem_append, List.mem_singleton] at ht
        rcases ht with ht | rfl
        · obtain ⟨u, hu, hu'⟩ := hkeep t ht
          obtain rfl : u = v := Option.some.inj (hu'.symm.trans hv)
          exact (h.before t ht u hu).trans (by dsimp only; omega)
        · obtain rfl : w = v := Option.some.inj (hread.symm.trans hv)
          exact hsaved

end Strtok
