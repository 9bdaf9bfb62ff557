import Mathlib.Data.List.Basic
import Mathlib.Order.MinMax
import Mathlib.Tactic.Ring

/-!
# The layout of structures in memory

A structure is a list of members, each with a size and an alignment.  A member stands at the
first place behind the one before it that its alignment allows, and the whole is as long as the
strictest alignment asks for; `packed` takes the alignments away.  `image` is the bytes of an
object, with zeros for the padding, and `fields` reads the members back at their places
(`fields_image`).

Integers are stored with their low bytes first (`ofLe_toLe`).
-/

namespace Layout

/-- A member of a structure. -/
structure Member where
  size : ℕ
  align : ℕ
  align_pos : 0 < align

/-- The next multiple of `a`. -/
def alignUp (n a : ℕ) : ℕ := (n + a - 1) / a * a

/-- Where the members stand, when the first free place is `pos`. -/
def offsets : ℕ → List Member → List ℕ
  | _, [] => []
  | pos, m :: ms => alignUp pos m.align :: offsets (alignUp pos m.align + m.size) ms

/-- The end of the last member. -/
def stop : ℕ → List Member → ℕ
  | pos, [] => pos
  | pos, m :: ms => stop (alignUp pos m.align + m.size) ms

/-- `sizeof`. -/
def structSize (ms : List Member) : ℕ := alignUp (stop 0 ms) ((ms.map Member.align).foldr max 1)

/-- `__attribute__((packed))`. -/
def packed (ms : List Member) : List Member := ms.map fun m => ⟨m.size, 1, Nat.one_pos⟩

/-- The members, each behind its padding. -/
def body : ℕ → List Member → List (List UInt8) → List UInt8
  | pos, m :: ms, c :: cs =>
      List.replicate (alignUp pos m.align - pos) 0 ++ c ++ body (alignUp pos m.align + m.size) ms cs
  | _, _, _ => []

/-- An object, up to its last byte. -/
def image (ms : List Member) (cs : List (List UInt8)) : List UInt8 :=
  body 0 ms cs ++ List.replicate (structSize ms - stop 0 ms) 0

/-- What the members hold in the bytes of a memory. -/
def fields (ms : List Member) (b : List UInt8) : List (List UInt8) :=
  List.zipWith (fun off m => (b.drop off).take m.size) (offsets 0 ms) ms

variable {ms : List Member} {cs : List (List UInt8)} {n a pos : ℕ}

lemma le_alignUp (n : ℕ) (ha : 0 < a) : n ≤ alignUp n a := by
  have hdiv := Nat.div_add_mod' (n + a - 1) a
  have hmod := Nat.mod_lt (n + a - 1) ha
  rw [alignUp]
  omega

lemma length_body (hlen : cs.map List.length = ms.map Member.size) (pos : ℕ) :
    pos + (body pos ms cs).length = stop pos ms := by
  induction ms generalizing pos cs with
  | nil =>
      obtain rfl : cs = [] := by simpa using hlen
      rfl
  | cons m ms ih =>
      obtain ⟨c, cs, rfl⟩ := List.exists_cons_of_ne_nil (show cs ≠ [] by rintro rfl; simp at hlen)
      simp only [List.map_cons, List.cons.injEq] at hlen
      have halign := le_alignUp pos m.align_pos
      have hrest := ih hlen.2 (alignUp pos m.align + m.size)
      simp only [body, stop, List.length_append, List.length_replicate, hlen.1]
      omega

/-- An object is as long as `sizeof` says. -/
lemma length_image (hlen : cs.map List.length = ms.map Member.size) :
    (image ms cs).length = structSize ms := by
  have hbody := length_body hlen 0
  have hsize : stop 0 ms ≤ structSize ms := by
    refine le_alignUp _ ?_
    induction ms.map Member.align with
    | nil => exact Nat.one_pos
    | cons a as ih => exact lt_max_of_lt_right ih
  rw [image, List.length_append, List.length_replicate]
  omega

/-- Reading from a place on gives back what was laid there from that place on. -/
lemma fields_body (hlen : cs.map List.length = ms.map Member.size) (before behind : List UInt8)
    (hbefore : before.length = pos) :
    List.zipWith (fun off m => ((before ++ (body pos ms cs ++ behind)).drop off).take m.size)
      (offsets pos ms) ms = cs := by
  induction ms generalizing pos cs before with
  | nil =>
      obtain rfl : cs = [] := by simpa using hlen
      rfl
  | cons m ms ih =>
      obtain ⟨c, cs, rfl⟩ := List.exists_cons_of_ne_nil (show cs ≠ [] by rintro rfl; simp at hlen)
      simp only [List.map_cons, List.cons.injEq] at hlen
      have halign := le_alignUp pos m.align_pos
      -- the member, with the padding in front of it
      have hpad : (before ++ List.replicate (alignUp pos m.align - pos) 0).length =
          alignUp pos m.align := by
        simp only [List.length_append, List.length_replicate]
        omega
      have hnext : (before ++ List.replicate (alignUp pos m.align - pos) 0 ++ c).length =
          alignUp pos m.align + m.size := by rw [List.length_append, hpad, hlen.1]
      have hrest := ih hlen.2 _ hnext
      rw [offsets, List.zipWith_cons_cons, body]
      simp only [List.append_assoc] at hrest ⊢
      rw [hrest, ← List.append_assoc, List.drop_left' hpad, List.take_left' hlen.1]

/-- A structure reads back what it holds. -/
theorem fields_image (hlen : cs.map List.length = ms.map Member.size) (behind : List UInt8) :
    fields ms (image ms cs ++ behind) = cs := by
  have hread := fields_body hlen [] (List.replicate (structSize ms - stop 0 ms) 0 ++ behind) rfl
  rwa [List.nil_append, List.length_nil, ← List.append_assoc] at hread

/-! ## Integers -/

/-- The `k` low bytes of a number, the lowest first. -/
def toLe : ℕ → ℕ → List UInt8
  | 0, _ => []
  | k + 1, n => UInt8.ofNat n :: toLe k (n / 256)

/-- The number in such bytes. -/
def ofLe : List UInt8 → ℕ
  | [] => 0
  | c :: b => c.toNat + 256 * ofLe b

@[simp] lemma length_toLe (k n : ℕ) : (toLe k n).length = k := by
  induction k generalizing n with
  | zero => rfl
  | succ k ih => rw [toLe, List.length_cons, ih]

lemma ofLe_toLe (k n : ℕ) : ofLe (toLe k n) = n % 256 ^ k := by
  induction k generalizing n with
  | zero => simp [toLe, ofLe, Nat.mod_one]
  | succ k ih =>
      rw [toLe, ofLe, ih, pow_succ', Nat.mod_mul, UInt8.toNat_ofNat']

/-- The bytes from the `j`-th on are those of the number without its low `j` bytes. -/
lemma drop_toLe (j k n : ℕ) : (toLe (j + k) n).drop j = toLe k (n / 256 ^ j) := by
  induction j generalizing n with
  | zero => simp
  | succ j ih =>
      rw [add_right_comm, toLe, List.drop_succ_cons, ih, Nat.div_div_eq_div_mul, ← pow_succ']

lemma ofLe_append (b c : List UInt8) : ofLe (b ++ c) = ofLe b + 256 ^ b.length * ofLe c := by
  induction b with
  | nil => simp [ofLe]
  | cons d b ih =>
      rw [List.cons_append, ofLe, ofLe, ih, List.length_cons, pow_succ']
      ring

end Layout
