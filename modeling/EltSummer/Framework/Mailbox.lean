import Mathlib.Data.List.Basic
import Mathlib.Data.List.Count
import Mathlib.Tactic.Common

/-!
# One-place mailboxes

A mailbox holds at most one letter.  A writer puts a letter in, whatever is there; the reader
takes out what it finds.  The mailbox keeps two logs, of what was put in, each letter with
the mark whether it is due to be read, and of what was read.

`Mailbox.Settled` says that the letter in the mailbox is the last one put, that nothing is
read twice or out of order, and that every due letter but the one in the mailbox has been
read.  It survives a read, and a put that does not replace a due letter.  A due letter that
was put once has then been read once or is still in the mailbox
(`Mailbox.Settled.count_eq_one`).
-/

/-- A mailbox with its logs. -/
structure Mailbox (L : Type*) where
  content : Option L
  puts : List (L × Bool)
  reads : List L

namespace Mailbox

variable {L : Type*}

def empty : Mailbox L := ⟨none, [], []⟩

def put (m : Mailbox L) (l : L) (due : Bool) : Mailbox L :=
  ⟨some l, m.puts ++ [(l, due)], m.reads⟩

def read (m : Mailbox L) : Mailbox L := ⟨none, m.puts, m.reads ++ m.content.toList⟩

/-- Whether the letter put last is due. -/
def lastDue (m : Mailbox L) : Bool := m.puts.getLast?.any Prod.snd

/-- The logs without the letter that is still in the mailbox. -/
structure Settled (m : Mailbox L) (past last : List (L × Bool)) : Prop where
  split : m.puts = past ++ last
  waiting : last.map Prod.fst = m.content.toList
  once : m.reads.Sublist (past.map Prod.fst)
  due : ((past.filter Prod.snd).map Prod.fst).Sublist m.reads

lemma settled_empty : (empty : Mailbox L).Settled [] [] :=
  ⟨rfl, rfl, List.Sublist.refl _, List.Sublist.refl _⟩

variable {m : Mailbox L} {past last : List (L × Bool)}

/-- A letter that is due is not replaced. -/
lemma Settled.put (h : m.Settled past last) (l : L) (due : Bool)
    (hfree : m.content ≠ none → m.lastDue = false) :
    (m.put l due).Settled (past ++ last) [(l, due)] := by
  refine ⟨by rw [Mailbox.put, h.split], rfl, ?_, ?_⟩
  · rw [List.map_append]
    exact h.once.trans (List.sublist_append_left _ _)
  · cases hc : m.content with
    | none =>
        have hlast : last = [] := by simpa [hc] using h.waiting
        simpa [Mailbox.put, hlast] using h.due
    | some x =>
        obtain ⟨y, hy⟩ : ∃ y, last = [y] :=
          List.length_eq_one_iff.mp (by simpa [hc] using congrArg List.length h.waiting)
        have hnot : y.2 = false := by
          simpa [lastDue, h.split, hy] using hfree (by simp [hc])
        simpa [Mailbox.put, hy, hnot] using h.due

lemma Settled.read (h : m.Settled past last) : m.read.Settled (past ++ last) [] := by
  refine ⟨by rw [List.append_nil]; exact h.split, rfl, ?_, ?_⟩
  · rw [List.map_append, h.waiting]
    exact h.once.append (List.Sublist.refl _)
  · rw [List.filter_append, List.map_append]
    refine h.due.append ?_
    rw [← h.waiting]
    exact List.filter_sublist.map _

/-- **A due letter that was put once is read once or waits.** -/
theorem Settled.count_eq_one [DecidableEq L] (h : m.Settled past last) {l : L}
    (honce : (m.puts.map Prod.fst).count l = 1) (hl : (l, true) ∈ m.puts) :
    (m.reads ++ m.content.toList).count l = 1 := by
  have hsub : (m.reads ++ m.content.toList).Sublist (m.puts.map Prod.fst) := by
    rw [h.split, List.map_append, ← h.waiting]
    exact h.once.append (List.Sublist.refl _)
  have hmem : l ∈ m.reads ++ m.content.toList := by
    rw [h.split, List.mem_append] at hl
    rcases hl with hl | hl
    · have hdue : l ∈ (past.filter Prod.snd).map Prod.fst :=
        List.mem_map.mpr ⟨(l, true), List.mem_filter.mpr ⟨hl, rfl⟩, rfl⟩
      exact List.mem_append_left _ (h.due.subset hdue)
    · refine List.mem_append_right _ ?_
      rw [← h.waiting]
      exact List.mem_map_of_mem hl
  have hle : (m.reads ++ m.content.toList).count l ≤ 1 := honce ▸ hsub.count_le l
  have hpos : 0 < (m.reads ++ m.content.toList).count l := List.count_pos_iff.mpr hmem
  omega

end Mailbox
