import EltSummer.Framework.CString
import Mathlib.Data.Nat.Digits.Lemmas
import Mathlib.Tactic.Ring

/-!
# Decimal text

`decimal n` is what `sprintf("%d")` writes for `n ≥ 0`, and `atoi` is the library function
on a block of bytes: white space, a sign, digits up to the first byte that is none.  It has
no result where the C function has none, on a value that is no `int` and on digits that run
out of the block.

Reading back works when the byte behind the text is no digit (`atoi_decimal`), and only then
(`atoi_decimal_append_iff`): nothing else delimits a number.
-/

namespace CString

/-- `isdigit`. -/
def isDigit (c : UInt8) : Bool := 48 ≤ c && c ≤ 57

/-- `sprintf("%d")`. -/
def decimal (n : ℕ) : List UInt8 :=
  if n = 0 then [48] else (Nat.digits 10 n).reverse.map fun d => UInt8.ofNat (48 + d)

/-- Digits read behind a number already read. -/
def horner (acc : ℕ) (ds : List UInt8) : ℕ :=
  ds.foldl (fun acc c => acc * 10 + (c.toNat - 48)) acc

/-- An optional sign, and what follows it. -/
def sign : List UInt8 → ℤ × List UInt8
  | c :: b => if c = 45 then (-1, b) else if c = 43 then (1, b) else (1, c :: b)
  | [] => (1, [])

/-- `atoi`. -/
def atoi (b : List UInt8) : Option ℤ :=
  let (s, b) := sign (b.dropWhile isSpace)
  let ds := b.takeWhile isDigit
  let v := s * horner 0 ds
  if ds.length < b.length ∧ -2 ^ 31 ≤ v ∧ v < 2 ^ 31 then some v else none

/-! ## Digits -/

lemma isDigit_iff {c : UInt8} : isDigit c = true ↔ 48 ≤ c.toNat ∧ c.toNat ≤ 57 := by
  simp [isDigit, UInt8.le_iff_toNat_le]

lemma isDigit_ofNat {d : ℕ} (h : d < 10) : isDigit (UInt8.ofNat (48 + d)) = true := by
  rw [isDigit_iff, UInt8.toNat_ofNat']
  omega

/-- A digit is neither white space nor a sign. -/
lemma isDigit.notPrefix {c : UInt8} (h : isDigit c = true) :
    isSpace c = false ∧ c ≠ 45 ∧ c ≠ 43 := by
  rw [isDigit_iff] at h
  simp only [isSpace, Bool.or_eq_false_iff, decide_eq_false_iff_not, Bool.and_eq_false_iff,
    UInt8.le_iff_toNat_le, ← UInt8.toNat_inj, ne_eq]
  simp only [UInt8.reduceToNat]
  omega

lemma isDigit_of_mem_decimal {n : ℕ} {c : UInt8} (h : c ∈ decimal n) : isDigit c = true := by
  unfold decimal at h
  split at h
  · obtain rfl := List.mem_singleton.mp h
    rfl
  · obtain ⟨d, hd, rfl⟩ := List.mem_map.mp h
    exact isDigit_ofNat (Nat.digits_lt_base (by decide) (List.mem_reverse.mp hd))

lemma decimal_ne_nil (n : ℕ) : decimal n ≠ [] := by
  unfold decimal
  split
  · simp
  · rename_i h
    simpa using Nat.digits_ne_nil_iff_ne_zero.mpr h

lemma zero_notMem_decimal (n : ℕ) : 0 ∉ decimal n := fun h => by
  have := isDigit_of_mem_decimal h
  simp [isDigit] at this

/-- How many digits a number has. -/
lemma length_decimal_le_iff {n k : ℕ} (hk : 0 < k) : (decimal n).length ≤ k ↔ n < 10 ^ k := by
  unfold decimal
  split
  · rename_i hn
    subst hn
    exact iff_of_true hk (Nat.pow_pos (by decide))
  · rw [List.length_map, List.length_reverse, Nat.digits_length_le_iff (by decide)]

/-- An `int` has at most ten digits. -/
lemma length_decimal_le {n : ℕ} (h : n < 2 ^ 31) : (decimal n).length ≤ 10 :=
  (length_decimal_le_iff (by decide)).mpr (h.trans (by decide))

/-! ## Values -/

lemma horner_append (acc : ℕ) (ds es : List UInt8) :
    horner acc (ds ++ es) = horner (horner acc ds) es := by
  unfold horner
  exact List.foldl_append

lemma horner_eq (acc : ℕ) (ds : List UInt8) :
    horner acc ds = acc * 10 ^ ds.length + horner 0 ds := by
  induction ds generalizing acc with
  | nil => simp [horner]
  | cons c ds ih =>
      have hcons : ∀ a, horner a (c :: ds) = horner (a * 10 + (c.toNat - 48)) ds := fun _ => rfl
      rw [hcons, hcons, ih, ih (0 * 10 + _), List.length_cons]
      ring

lemma horner_map_digits {ds : List ℕ} (h : ∀ d ∈ ds, d < 10) :
    horner 0 (ds.reverse.map fun d => UInt8.ofNat (48 + d)) = Nat.ofDigits 10 ds := by
  induction ds with
  | nil => rfl
  | cons d ds ih =>
      have hd : (UInt8.ofNat (48 + d)).toNat - 48 = d := by
        have := h d List.mem_cons_self
        rw [UInt8.toNat_ofNat']
        omega
      rw [List.reverse_cons, List.map_append, horner_append,
        ih fun e he => h e (List.mem_cons_of_mem d he), Nat.ofDigits_cons]
      simp only [horner, List.map_cons, List.map_nil, List.foldl_cons, List.foldl_nil, hd]
      ring

lemma horner_decimal (n : ℕ) : horner 0 (decimal n) = n := by
  unfold decimal
  split
  · rename_i h
    exact h.symm
  · rw [horner_map_digits fun d hd => Nat.digits_lt_base (by decide) hd, Nat.ofDigits_digits]

/-- Different numbers are written differently. -/
lemma decimal_inj {n m : ℕ} : decimal n = decimal m ↔ n = m := by
  refine ⟨fun h => ?_, fun h => h ▸ rfl⟩
  rw [← horner_decimal n, h, horner_decimal]

/-! ## Reading back -/

/-- `atoi` on a number and whatever is behind it. -/
lemma atoi_decimal_append (n : ℕ) (rest : List UInt8) :
    atoi (decimal n ++ rest) =
      if (rest.takeWhile isDigit).length < rest.length ∧
          ((horner n (rest.takeWhile isDigit) : ℕ) : ℤ) < 2 ^ 31 then
        some ((horner n (rest.takeWhile isDigit) : ℕ) : ℤ)
      else none := by
  obtain ⟨c, cs, hcs⟩ := List.exists_cons_of_ne_nil (decimal_ne_nil n)
  have hc : isDigit c = true := isDigit_of_mem_decimal (hcs ▸ List.mem_cons_self)
  obtain ⟨hspace, hminus, hplus⟩ := isDigit.notPrefix hc
  have hdrop : (decimal n ++ rest).dropWhile isSpace = decimal n ++ rest := by
    rw [hcs, List.cons_append, List.dropWhile_cons_of_neg (by simp [hspace])]
  have hsign : sign (decimal n ++ rest) = (1, decimal n ++ rest) := by
    rw [hcs, List.cons_append, sign, if_neg hminus, if_neg hplus]
  have htake : (decimal n ++ rest).takeWhile isDigit = decimal n ++ rest.takeWhile isDigit :=
    List.takeWhile_append_of_pos fun d hd => isDigit_of_mem_decimal hd
  have hvalue : horner 0 (decimal n ++ rest.takeWhile isDigit) =
      horner n (rest.takeWhile isDigit) := by
    rw [horner_append, horner_decimal]
  unfold atoi
  simp only [hdrop, hsign, htake, hvalue, List.length_append, one_mul]
  refine if_congr ?_ rfl rfl
  constructor
  · exact fun h => ⟨by omega, h.2.2⟩
  · exact fun h => ⟨by omega, by omega, h.2⟩

/-- A number is read back when the byte behind it is no digit. -/
theorem atoi_decimal {n : ℕ} {c : UInt8} (rest : List UInt8) (hn : n < 2 ^ 31)
    (hc : isDigit c = false) : atoi (decimal n ++ c :: rest) = some (n : ℤ) := by
  have htake : (c :: rest).takeWhile isDigit = [] :=
    List.takeWhile_cons_of_neg (by simp [hc])
  have hlt : ((horner n [] : ℕ) : ℤ) < 2 ^ 31 := by exact_mod_cast hn
  rw [atoi_decimal_append, htake, if_pos ⟨by simp, hlt⟩]
  rfl

/-- With a digit behind it another number is read. -/
theorem atoi_decimal_append_iff {n : ℕ} {c : UInt8} {rest : List UInt8} {v : ℤ} (hn : 0 < n)
    (h : atoi (decimal n ++ c :: rest) = some v) : v = n ↔ isDigit c = false := by
  rw [atoi_decimal_append, Option.ite_none_right_eq_some] at h
  obtain rfl := Option.some.inj h.2
  rcases hc : isDigit c with _ | _
  · rw [List.takeWhile_cons_of_neg (by simp [hc])]
    simp [horner]
  · rw [List.takeWhile_cons_of_pos hc, horner_eq]
    have hpow : 10 ≤ 10 ^ (c :: rest.takeWhile isDigit).length := by
      rw [List.length_cons, pow_succ]
      exact Nat.le_mul_of_pos_left 10 (by positivity)
    have hlt : n < n * 10 ^ (c :: rest.takeWhile isDigit).length := by nlinarith
    simp only [Bool.true_eq_false, iff_false]
    exact_mod_cast (Nat.lt_add_right _ hlt).ne'

end CString
