import Mathlib.Data.List.Infix
import Mathlib.Data.List.TakeWhile
import Mathlib.Tactic.Common

/-!
# Logs of opened and closed handles

Handles are opened and closed by several parties, and a closed handle may be given out again,
so "closed once" is about a stretch of the log: from an opening to the next opening of the same
handle (`ClosedOnce`).

`Alternates h log` is the form that survives one use after the other: at no moment has `h` been
closed more often than opened, or opened twice in a row.  A log in which a handle alternates
and is closed at the end closes each opening of it once (`Alternates.closed_once`).
-/

namespace HandleLog

variable {η : Type*} [DecidableEq η]

inductive Use (η : Type*)
  | opened (h : η)
  | closed (h : η)
  deriving DecidableEq, Repr

variable {h k : η} {log before after : List (Use η)}

/-- Between an opening of a handle and its next opening, or the end of the log, it is closed
exactly once. -/
def ClosedOnce (log : List (Use η)) : Prop :=
  ∀ before h after, log = before ++ .opened h :: after →
    (after.takeWhile (· ≠ .opened h)).count (.closed h) = 1

/-- The handle has been opened and not closed since. -/
def IsOpen (h : η) (log : List (Use η)) : Prop :=
  log.count (.closed h) < log.count (.opened h)

/-- At every moment of the log the handle is closed at most once for each time it was opened,
and opened only when it is closed. -/
def Alternates (h : η) (log : List (Use η)) : Prop :=
  ∀ bs, bs <+: log → bs.count (.closed h) ≤ bs.count (.opened h) ∧
    bs.count (.opened h) ≤ bs.count (.closed h) + 1

lemma alternates_nil (h : η) : Alternates h [] := by
  intro bs hbs
  obtain rfl := List.prefix_nil.mp hbs
  simp

lemma not_isOpen_nil (h : η) : ¬ IsOpen h [] := by simp [IsOpen]

/-- A log that grows alternates if it did and its last moment is right. -/
lemma Alternates.concat (hlog : Alternates h log) {u : Use η}
    (hlast : (log ++ [u]).count (.closed h) ≤ (log ++ [u]).count (.opened h) ∧
      (log ++ [u]).count (.opened h) ≤ (log ++ [u]).count (.closed h) + 1) :
    Alternates h (log ++ [u]) := by
  intro bs hbs
  rcases List.prefix_concat_iff.mp hbs with rfl | hbs
  · exact hlast
  · exact hlog bs hbs

lemma Alternates.opened (hlog : Alternates h log) (hopen : ¬ IsOpen h log) :
    Alternates h (log ++ [.opened h]) ∧ IsOpen h (log ++ [.opened h]) := by
  have hend := hlog log List.prefix_rfl
  unfold IsOpen at *
  refine ⟨hlog.concat ?_, ?_⟩ <;> simp <;> omega

lemma Alternates.closed (hlog : Alternates h log) (hopen : IsOpen h log) :
    Alternates h (log ++ [.closed h]) ∧ ¬ IsOpen h (log ++ [.closed h]) := by
  have hend := hlog log List.prefix_rfl
  unfold IsOpen at *
  refine ⟨hlog.concat ?_, ?_⟩ <;> simp <;> omega

/-- The use of another handle changes nothing. -/
lemma Alternates.other (hlog : Alternates h log) {u : Use η} (ho : u ≠ .opened h)
    (hc : u ≠ .closed h) :
    Alternates h (log ++ [u]) ∧ (IsOpen h (log ++ [u]) ↔ IsOpen h log) := by
  have hend := hlog log List.prefix_rfl
  refine ⟨hlog.concat ?_, ?_⟩
  · simpa [List.count_singleton, ho, hc] using hend
  · simp [IsOpen, ho, hc]

/-- The log behind an opening: the stretch up to the next opening of the handle, if there is
one, and the rest. -/
lemma exists_stretch (h : η) (after : List (Use η)) : ∃ rest,
    after = after.takeWhile (· ≠ .opened h) ++ rest ∧
      (rest = [] ∨ ∃ rest', rest = .opened h :: rest') := by
  refine ⟨_, List.takeWhile_append_dropWhile.symm, ?_⟩
  cases hrest : after.dropWhile fun u => decide (u ≠ Use.opened h) with
  | nil => exact Or.inl rfl
  | cons u rest' =>
      have hu := List.head?_dropWhile_not (fun u => decide (u ≠ Use.opened h)) after
      rw [hrest] at hu
      obtain rfl : u = .opened h := by simpa using hu
      exact Or.inr ⟨rest', rfl⟩

/-- Up to its next opening, or the end of the log, an opened handle is closed once. -/
theorem Alternates.closed_once (halt : Alternates h log) (hend : ¬ IsOpen h log)
    (hlog : log = before ++ .opened h :: after) :
    (after.takeWhile (· ≠ .opened h)).count (.closed h) = 1 := by
  obtain ⟨rest, hafter, hrest⟩ := exists_stretch h after
  have hfresh : (after.takeWhile (· ≠ Use.opened h)).count (.opened h) = 0 :=
    List.count_eq_zero.mpr fun hin => by simpa using List.mem_takeWhile_imp hin
  generalize after.takeWhile (· ≠ Use.opened h) = mid at hafter hfresh ⊢
  subst hafter hlog
  -- right before the opening, and at the end of the stretch
  have hbefore := halt before (List.prefix_append _ _)
  have hstretch := halt (before ++ .opened h :: mid) ⟨rest, by simp⟩
  have hopening := halt (before ++ [.opened h]) ⟨mid ++ rest, by simp⟩
  rcases hrest with rfl | ⟨rest', rfl⟩
  · simp only [IsOpen, List.append_nil, List.count_append, List.count_cons_self, hfresh] at hend
    simp [hfresh] at hend hstretch hopening
    omega
  · have hnext := halt (before ++ .opened h :: (mid ++ [.opened h])) ⟨rest', by simp⟩
    simp [hfresh] at hstretch hopening hnext
    omega

/-- If every handle that the log opens alternates and is closed in the end, each opening is
closed once. -/
theorem closedOnce_of_alternates
    (halt : ∀ h, .opened h ∈ log → Alternates h log ∧ ¬ IsOpen h log) : ClosedOnce log := by
  intro before h after hlog
  obtain ⟨halt, hend⟩ := halt h (by simp [hlog])
  exact halt.closed_once hend hlog

end HandleLog
