import EltSummer.Framework.Block

/-!
# Bytes and C strings

Bytes are `UInt8`.  A C string at an offset of a block is read up to its NUL; where the
block ends first, the read leaves the block and has no result.

`Token` is what `scanf("%s")` accepts from typed text: a non-empty run of bytes that are
neither NUL nor white space.  The invariant is carried by the structure, so no caller
checks it again.
-/

namespace CString

open Block

/-- White space as `isspace` has it: tab, newline, vertical tab, form feed, return, space. -/
def isSpace (c : UInt8) : Bool := c = 32 || (9 ≤ c && c ≤ 13)

/-- A token typed for `scanf("%s")`. -/
structure Token where
  bytes : List UInt8
  nonempty : bytes ≠ []
  noNul : 0 ∉ bytes
  noSpace : ∀ c ∈ bytes, isSpace c = false

/-- What `scanf("%s")` stores for a token: its bytes and a NUL. -/
def Token.stored (t : Token) : List UInt8 := t.bytes ++ [0]

@[simp] lemma Token.length_stored (t : Token) : t.stored.length = t.bytes.length + 1 := by
  simp [Token.stored]

/-- The bytes of a token, up to its NUL, are there. -/
lemma Token.exists_stored (t : Token) {k : ℕ} (hk : k ≤ t.bytes.length) :
    ∃ c, t.stored[k]? = some c :=
  ⟨_, List.getElem?_eq_getElem (by rw [Token.length_stored]; omega)⟩

/-- The C string at an offset, without its NUL. -/
def stringAt (b : List UInt8) (off : ℕ) : Option (List UInt8) :=
  if 0 ∈ b.drop off then some ((b.drop off).takeWhile (· ≠ 0)) else none

/-- `strcmp(s, p) == 0`, with `s` given as its bytes and `p` as the memory from it on.  The
comparison stops at the first difference or at the common NUL. -/
def strcmpEq : List UInt8 → List UInt8 → Option Bool
  | [], p => p.head?.map fun d => decide (d = 0)
  | _ :: _, [] => none
  | c :: s, d :: p => if c = d then strcmpEq s p else some false

/-- `strcmp(p, q) == 0`, with both given as the memory from there on. -/
def strcmpMem : List UInt8 → List UInt8 → Option Bool
  | c :: p, d :: q => if c = d then if c = 0 then some true else strcmpMem p q else some false
  | _, _ => none

/-- `strcpy(dst, s)`: the new content of the block at `dst`. -/
def strcpy (dst s : List UInt8) : Option (List UInt8) := writeAt dst 0 (s ++ [0])

/-- `strncpy(dst, src, n)`: at most `n` bytes of a string, and NULs up to `n`. -/
def strncpy (dst src : List UInt8) (n : ℕ) : Option (List UInt8) :=
  let s := (src.take n).takeWhile (· ≠ 0)
  if n ≤ src.length ∨ 0 ∈ src then writeAt dst 0 (s ++ List.replicate (n - s.length) 0) else none

/-- `strcat(dst, s)`: writes from the NUL of `dst` on. -/
def strcat (dst s : List UInt8) : Option (List UInt8) :=
  (stringAt dst 0).bind fun t => writeAt dst t.length (s ++ [0])

lemma takeWhile_append_nul {t : List UInt8} (ht : 0 ∉ t) (rest : List UInt8) :
    (t ++ 0 :: rest).takeWhile (· ≠ 0) = t := by
  rw [List.takeWhile_append_of_pos fun c hc => by simpa using fun h0 : c = 0 => ht (h0 ▸ hc)]
  simp

/-- A string at an offset is what stands in front of the first NUL. -/
lemma stringAt_eq_some_iff {b t : List UInt8} {off : ℕ} :
    stringAt b off = some t ↔ 0 ∉ t ∧ ∃ rest, b.drop off = t ++ 0 :: rest := by
  unfold stringAt
  constructor
  · intro h
    split at h
    · rename_i hmem
      obtain ⟨before, rest, hsplit, hnul⟩ := List.eq_append_cons_of_mem hmem
      rw [hsplit, takeWhile_append_nul hnul] at h
      obtain rfl := Option.some.inj h
      exact ⟨hnul, rest, hsplit⟩
    · simp at h
  · rintro ⟨hnul, rest, hrest⟩
    rw [hrest, if_pos (by simp), takeWhile_append_nul hnul]

/-- A block with a NUL holds a string. -/
lemma stringAt_append_zero (b r : List UInt8) :
    stringAt (b ++ 0 :: r) 0 = some (b.takeWhile (· ≠ 0)) := by
  rw [stringAt, List.drop_zero, if_pos (by simp), List.takeWhile_append]
  split
  · rename_i hall
    rw [List.takeWhile_cons_of_neg (by simp), List.append_nil,
      (List.takeWhile_prefix _).eq_of_length hall]
  · rfl

/-- A string of at most `n` bytes has its NUL among the first `n + 1`. -/
lemma exists_stringAt_iff {b : List UInt8} {n : ℕ} :
    (∃ s, stringAt b 0 = some s ∧ s.length ≤ n) ↔ 0 ∈ b.take (n + 1) := by
  constructor
  · rintro ⟨s, hs, hlen⟩
    obtain ⟨-, rest, hrest⟩ := stringAt_eq_some_iff.mp hs
    obtain ⟨k, hk⟩ : ∃ k, n + 1 - s.length = k + 1 := ⟨n - s.length, by omega⟩
    rw [List.drop_zero] at hrest
    rw [hrest, List.take_append, hk, List.take_succ_cons]
    simp
  · intro hmem
    obtain ⟨s, r, hsplit, hnul⟩ := List.eq_append_cons_of_mem hmem
    have hlen := congrArg List.length hsplit
    rw [List.length_take, List.length_append, List.length_cons] at hlen
    refine ⟨s, stringAt_eq_some_iff.mpr ⟨hnul, r ++ b.drop (n + 1), ?_⟩, by omega⟩
    rw [List.drop_zero, ← List.cons_append, ← List.append_assoc, ← hsplit, List.take_append_drop]

/-- The same cell by cell. -/
lemma stringAt_eq_some_iff_getElem? {b t : List UInt8} {off : ℕ} :
    stringAt b off = some t ↔ 0 ∉ t ∧ ∀ k ≤ t.length, b[off + k]? = (t ++ [0])[k]? := by
  have hcells : (∃ rest, b.drop off = t ++ 0 :: rest) ↔ t ++ [0] <+: b.drop off := by
    constructor
    · rintro ⟨rest, hrest⟩
      exact ⟨rest, by simp [hrest]⟩
    · rintro ⟨rest, hrest⟩
      exact ⟨rest, by simp [← hrest]⟩
  rw [stringAt_eq_some_iff, hcells, List.prefix_iff_getElem?]
  refine and_congr_right fun _ => ?_
  simp only [List.getElem?_drop, List.length_append, List.length_singleton, Nat.lt_succ_iff]
  refine forall₂_congr fun k hk => ?_
  have hin : k < (t ++ [0]).length := by simpa [Nat.lt_succ_iff] using hk
  rw [List.getElem?_eq_getElem hin]

/-- A stored token is read back. -/
lemma stringAt_of_stored {b : List UInt8} {off : ℕ} {t : Token}
    (h : ∀ k ≤ t.bytes.length, b[off + k]? = t.stored[k]?) : stringAt b off = some t.bytes :=
  stringAt_eq_some_iff_getElem?.mpr ⟨t.noNul, h⟩

/-- Bytes with a NUL are as far as a string is read. -/
lemma stringAt_congr_of_isPrefix {b b' u : List UInt8} {off : ℕ} (hu : u <+: b.drop off)
    (hu' : u <+: b'.drop off) (h0 : 0 ∈ u) : stringAt b' off = stringAt b off := by
  obtain ⟨t, r, rfl, hnul⟩ := List.eq_append_cons_of_mem h0
  have hread : ∀ {b}, t ++ 0 :: r <+: b.drop off → stringAt b off = some t := by
    rintro b ⟨rest, hrest⟩
    exact stringAt_eq_some_iff.mpr ⟨hnul, r ++ rest, by rw [← hrest]; simp⟩
  rw [hread hu, hread hu']

/-- Bytes without a NUL are read before whatever string is behind them. -/
lemma stringAt_of_isPrefix {b u : List UInt8} {off : ℕ} (hu : u <+: b.drop off) (h0 : 0 ∉ u) :
    stringAt b off = (stringAt b (off + u.length)).map (u ++ ·) := by
  obtain ⟨rest, hrest⟩ := hu
  have hdrop : b.drop (off + u.length) = rest := by
    rw [← List.drop_drop, ← hrest, List.drop_left]
  have hall : ∀ c ∈ u, decide (c ≠ 0) = true := fun c hc => by
    simpa using fun h : c = 0 => h0 (h ▸ hc)
  unfold stringAt
  rw [hdrop, ← hrest, List.takeWhile_append_of_pos hall]
  by_cases hmem : 0 ∈ rest
  · simp [hmem]
  · simp [hmem, h0]

/-- Against a terminated string, `strcmp` compares the strings. -/
lemma strcmpEq_append {s t rest : List UInt8} (hs : 0 ∉ s) (ht : 0 ∉ t) :
    strcmpEq s (t ++ 0 :: rest) = some (decide (s = t)) := by
  induction s generalizing t with
  | nil =>
      cases t with
      | nil => simp [strcmpEq]
      | cons d t =>
          have hd : d ≠ 0 := fun h0 => ht (h0 ▸ List.mem_cons_self)
          simp [strcmpEq, hd]
  | cons c s ih =>
      have hc : c ≠ 0 := fun h0 => hs (h0 ▸ List.mem_cons_self)
      cases t with
      | nil => simp [strcmpEq, hc]
      | cons d t =>
          rw [List.cons_append, strcmpEq]
          split
          · rename_i hcd
            rw [ih (fun h0 => hs (List.mem_cons_of_mem c h0))
              fun h0 => ht (List.mem_cons_of_mem d h0)]
            simp [hcd]
          · rename_i hcd
            simp [hcd]

/-- A string in memory is compared as the string it is. -/
lemma strcmpMem_append {s r q : List UInt8} (hs : 0 ∉ s) :
    strcmpMem (s ++ 0 :: r) q = strcmpEq s q := by
  induction s generalizing q with
  | nil =>
      cases q with
      | nil => rfl
      | cons d q =>
          rw [List.nil_append, strcmpMem, strcmpEq, List.head?_cons, Option.map_some]
          by_cases hd : 0 = d
          · simp [← hd]
          · simp [hd, Ne.symm hd]
  | cons c s ih =>
      have hc : c ≠ 0 := fun h0 => hs (h0 ▸ List.mem_cons_self)
      cases q with
      | nil => rfl
      | cons d q =>
          rw [List.cons_append, strcmpMem, strcmpEq, if_neg hc,
            ih fun h0 => hs (List.mem_cons_of_mem c h0)]

/-- `strcmp` finds no difference exactly against the string itself. -/
lemma strcmpEq_eq_some_true_iff {s p : List UInt8} :
    strcmpEq s p = some true ↔ s ++ [0] <+: p := by
  induction s generalizing p with
  | nil => cases p <;> simp [strcmpEq, eq_comm]
  | cons c s ih =>
      cases p with
      | nil => simp [strcmpEq]
      | cons d p =>
          rw [strcmpEq, List.cons_append, List.cons_prefix_cons, ← ih]
          split
          · rename_i hcd
            simp [hcd]
          · rename_i hcd
            simp [hcd]

/-- A string written behind the bytes `t` makes one string with them. -/
lemma stringAt_of_writeAt {b b' t s : List UInt8} (h : writeAt b t.length (s ++ [0]) = some b')
    (hb : t <+: b) (ht : 0 ∉ t) (hs : 0 ∉ s) : stringAt b' 0 = some (t ++ s) := by
  obtain ⟨-, rfl⟩ := writeAt_eq_some.mp h
  refine stringAt_eq_some_iff.mpr ⟨by simp [ht, hs], b.drop (t.length + (s ++ [0]).length), ?_⟩
  rw [← List.prefix_iff_eq_take.mp hb, List.drop_zero]
  simp

/-- `strcpy` into a block with room for the string and its NUL. -/
lemma exists_strcpy {dst s : List UInt8} (hroom : s.length < dst.length) (hs : 0 ∉ s) :
    ∃ b, strcpy dst s = some b ∧ b.length = dst.length ∧ stringAt b 0 = some s := by
  obtain ⟨b, hb⟩ : ∃ b, writeAt dst 0 (s ++ [0]) = some b :=
    ⟨_, writeAt_eq_some.mpr ⟨by simp; omega, rfl⟩⟩
  exact ⟨b, hb, length_writeAt hb,
    stringAt_of_writeAt (t := []) hb List.nil_prefix (by simp) hs⟩

/-- `strncpy` of a string that is shorter than `n`. -/
lemma exists_strncpy {dst src s : List UInt8} {n : ℕ} (hs : stringAt src 0 = some s)
    (hn : s.length < n) (hroom : n ≤ dst.length) :
    ∃ b, strncpy dst src n = some b ∧ b.length = dst.length ∧ stringAt b 0 = some s := by
  obtain ⟨hnul, rest, hrest⟩ := stringAt_eq_some_iff.mp hs
  rw [List.drop_zero] at hrest
  obtain ⟨k, hk⟩ : ∃ k, n - s.length = k + 1 := ⟨n - s.length - 1, by omega⟩
  have hcut : (src.take n).takeWhile (· ≠ 0) = s := by
    rw [hrest, List.take_append, List.take_of_length_le hn.le, hk, List.take_succ_cons,
      takeWhile_append_nul hnul]
  have hread : n ≤ src.length ∨ 0 ∈ src := Or.inr (by simp [hrest])
  obtain ⟨b, hb⟩ : ∃ b, writeAt dst 0 (s ++ List.replicate (n - s.length) 0) = some b :=
    ⟨_, writeAt_eq_some.mpr ⟨by simp; omega, rfl⟩⟩
  refine ⟨b, by simp only [strncpy, hcut, if_pos hread, hb], length_writeAt hb, ?_⟩
  obtain ⟨-, rfl⟩ := writeAt_eq_some.mp hb
  refine stringAt_eq_some_iff.mpr ⟨hnul, List.replicate k 0 ++ dst.drop n, ?_⟩
  simp only [hk, List.replicate_succ, List.length_append, List.length_cons, List.length_replicate,
    List.take_zero, List.nil_append, List.drop_zero, List.append_assoc, List.cons_append]
  have hend : 0 + (s.length + (k + 1)) = n := by omega
  rw [hend]

/-- `strncpy` of a shorter string fills the block up with NULs. -/
lemma strncpy_whole {dst s : List UInt8} (hnul : 0 ∉ s) (hroom : s.length < dst.length) :
    strncpy dst (s ++ [0]) dst.length =
      some (s ++ List.replicate (dst.length - s.length) 0) := by
  have htake : (s ++ [0]).take dst.length = s ++ [0] :=
    List.take_of_length_le (by rw [List.length_append]; exact hroom)
  have hcut : ((s ++ [0]).take dst.length).takeWhile (· ≠ 0) = s := by
    rw [htake, takeWhile_append_nul hnul]
  have hread : dst.length ≤ (s ++ [0]).length ∨ 0 ∈ s ++ [0] := Or.inr (by simp)
  have hlen : s.length + (dst.length - s.length) = dst.length := by omega
  simp only [strncpy, hcut, if_pos hread]
  exact writeAt_eq_some.mpr ⟨by simp [hlen], by simp [hlen]⟩

/-- `strcat` behind a string, with room for both and a NUL. -/
lemma exists_strcat {dst t s : List UInt8} (ht : stringAt dst 0 = some t)
    (hroom : t.length + s.length < dst.length) (hs : 0 ∉ s) :
    ∃ b, strcat dst s = some b ∧ b.length = dst.length ∧ stringAt b 0 = some (t ++ s) := by
  obtain ⟨hnul, rest, hrest⟩ := stringAt_eq_some_iff.mp ht
  obtain ⟨b, hb⟩ : ∃ b, writeAt dst t.length (s ++ [0]) = some b :=
    ⟨_, writeAt_eq_some.mpr ⟨by simp; omega, rfl⟩⟩
  exact ⟨b, by rw [strcat, ht, Option.bind_some, hb], length_writeAt hb,
    stringAt_of_writeAt hb ⟨0 :: rest, hrest.symm⟩ hnul hs⟩

end CString
