import EltSummer.Framework.Log
import EltSummer.ShmemChat.Mailboxes
import Mathlib.Data.List.Induction
import Mathlib.Data.List.Nodup

/-!
# Delivery in the shared-memory chat

A segment holds one record, and nobody who writes looks whether the record that is there has
been read.  A text typed before the server has come around to the client's connect message
replaces it in the segment (`connect_replaced`).

Along steps that are `Paced` nothing is lost (`lossless_of_paced`): the letters written at a
slot are handled in order (`Office.Lane`), each text of a connected client is put once into
every other segment (`Office.Forwarded`), and what was put for a connected client is read once
or waits in its segment (`Mailbox.Settled`).
-/

namespace EltSummer
namespace ShmemChat
namespace Mailboxes

open Interleaving

variable {cfg : Config} {s s' : State} {o o' : Office} {j k : ℕ}

/-! ## What the server makes of a letter -/

section Desk

variable {M : Type} {bytes : M → StructMsg} {d : Desk M} {msgFrom : M}

lemma handle_blank (h : bytes msgFrom = .zero) :
    d.handle bytes msgFrom = d ∧ d.broadcasts (bytes msgFrom) = false := by
  have hconnects : StructMsg.zero.connects = false := rfl
  have hdisconnects : StructMsg.zero.disconnects = false := rfl
  have hflag : StructMsg.zero.flag = 0 := rfl
  constructor
  · simp [Desk.handle, h, hconnects, hdisconnects, hflag]
  · simp [Desk.broadcasts, h, hflag]

lemma handle_connect (h : Kind.connect.Shows (bytes msgFrom)) (hd : d.info.flagConnect ≤ 1) :
    (d.handle bytes msgFrom).info.flagConnect = 1 ∧
      (d.handle bytes msgFrom).broadcasts (bytes msgFrom) = false := by
  obtain ⟨hconnects, hflag⟩ := h
  constructor
  · by_cases hzero : d.info.flagConnect = 0
    · simp [Desk.handle, hconnects, hzero]
    · simp [Desk.handle, hconnects, hzero]
      omega
  · simp [Desk.broadcasts, hflag]

lemma handle_disconnect (h : Kind.disconnect.Shows (bytes msgFrom))
    (hd : d.info.flagConnect ≤ 1) : (d.handle bytes msgFrom).info.flagConnect = 0 ∧
      (d.handle bytes msgFrom).broadcasts (bytes msgFrom) = false := by
  obtain ⟨hconnects, hdisconnects⟩ := h
  by_cases hone : d.info.flagConnect = 1
  · simp [Desk.broadcasts, Desk.handle, hconnects, hdisconnects, hone]
  · have hzero : d.info.flagConnect = 0 := by omega
    simp [Desk.broadcasts, Desk.handle, hconnects, hzero]

lemma handle_chat (h : Kind.chat.Shows (bytes msgFrom)) :
    (d.handle bytes msgFrom).info = d.info ∧
      ((d.handle bytes msgFrom).broadcasts (bytes msgFrom) = true ↔ d.info.flagConnect = 1) ∧
      (d.info.flagConnect = 1 → (d.handle bytes msgFrom).msgTo = msgFrom) := by
  obtain ⟨hconnects, hdisconnects, hflag⟩ := h
  by_cases hone : d.info.flagConnect = 1
  · simp [Desk.broadcasts, Desk.handle, hconnects, hdisconnects, hflag, hone]
  · simp [Desk.broadcasts, Desk.handle, hconnects, hdisconnects, hflag, hone]

end Desk

/-! ## From the clients to the server -/

/-- The letter a record is the content of is written on it. -/
def Slip.Holds (x : Slip) : Prop :=
  match x.letter with
  | none => x.msg = .zero
  | some l => x.msg = l.content

/-- The flag of an incoming segment is 1 while a letter is unread. -/
def Slip.Flagged (x : Slip) : Prop :=
  match x.letter with
  | none => x.msg.flag ≠ 1
  | some l => x.msg = l.content ∧ x.msg.flag = 1

/-- What a letter says about itself, with the letters written before it. -/
structure Letter.Stamp (k : ℕ) (before : List Letter) (l : Letter) : Prop where
  slot : l.slot = k
  no : l.no = before.length
  ofConnected : l.ofConnected = connectedAfter before
  shows : l.kind.Shows l.content

def Stamped (k : ℕ) (log : List Letter) : Prop :=
  ∀ before l after, log = before ++ l :: after → l.Stamp k before

lemma Stamped.concat {log : List Letter} {l : Letter} (h : Stamped k log)
    (hl : l.Stamp k log) : Stamped k (log ++ [l]) := by
  intro before x after hsplit
  rcases Log.split_concat hsplit with ⟨rfl, rfl, -⟩ | ⟨after', -, hlog⟩
  · exact hl
  · exact h before x after' hlog

lemma Stamped.of_mem {log : List Letter} {l : Letter} (h : Stamped k log) (hl : l ∈ log) :
    ∃ before, l.Stamp k before := by
  obtain ⟨before, after, hsplit⟩ := List.append_of_mem hl
  exact ⟨before, h before l after hsplit⟩

/-- The numbers keep the letters of a log apart. -/
lemma Stamped.nodup {log : List Letter} (h : Stamped k log) : log.Nodup := by
  induction log using List.reverseRecOn with
  | nil => exact List.nodup_nil
  | append_singleton log l ih =>
      have hlog : Stamped k log := fun before x after hsplit =>
        h before x (after ++ [l]) (by simp [hsplit])
      have hno : l.no = log.length := (h log l [] rfl).no
      refine List.Nodup.append (ih hlog) (List.nodup_singleton l) ?_
      rintro x hx hxl
      obtain rfl := List.mem_singleton.mp hxl
      obtain ⟨before, after, hsplit⟩ := List.append_of_mem hx
      have hno' : x.no = before.length := (hlog before x after hsplit).no
      have hlength := congrArg List.length hsplit
      simp only [List.length_append, List.length_cons] at hlength
      omega

lemma connectedAfter_concat (log : List Letter) (l : Letter) :
    connectedAfter (log ++ [l]) = l.kind.connected (connectedAfter log) := by
  simp [connectedAfter, List.foldl_append]

/-- A text of a connected client. -/
def Letter.due (l : Letter) : Bool := decide (l.kind = .chat) && l.ofConnected

namespace Office

/-- What server thread `k` has taken and not handled yet. -/
def inHand (o : Office) (k : ℕ) : List Letter :=
  if (o.server k).pc = .handle then (o.server k).msgFrom.letter.toList else []

/-- The letters of slot `k` between a client's write and the record in `clients_info`. -/
structure Lane (o : Office) (k : ℕ) : Prop where
  accounted : o.handled k ++ o.inHand k ++ (o.shmem (2 * k)).letter.toList = o.written k
  stamped : Stamped k (o.written k)
  outgoing : (o.shmem (2 * k)).Holds
  taken : (o.server k).pc = .handle → (o.server k).msgFrom.Holds
  registered : (o.clientsInfo k).flagConnect = (connectedAfter (o.handled k)).toNat

lemma lane_init (k : ℕ) : Office.init.Lane k where
  accounted := rfl
  stamped := fun before l after h => by simp [Office.init] at h
  outgoing := rfl
  taken := nofun
  registered := rfl

/-- What concerns other slots, other segments or the broadcast loop. -/
lemma Lane.frame (h : o.Lane k) (hshmem : o'.shmem (2 * k) = o.shmem (2 * k))
    (hinfo : o'.clientsInfo k = o.clientsInfo k) (hwritten : o'.written k = o.written k)
    (hhandled : o'.handled k = o.handled k)
    (hserver : o'.server k = o.server k ∨
      (o.server k).pc ≠ .handle ∧ (o'.server k).pc ≠ .handle) : o'.Lane k := by
  have hhand : o'.inHand k = o.inHand k := by
    rcases hserver with heq | ⟨hne, hne'⟩
    · simp only [inHand, heq]
    · simp only [inHand, hne, hne', if_false]
  refine ⟨?_, hwritten ▸ h.stamped, hshmem ▸ h.outgoing, ?_, ?_⟩
  · rw [hhandled, hhand, hshmem, hwritten, h.accounted]
  · intro hpc
    rcases hserver with heq | ⟨-, hne'⟩
    · rw [heq] at hpc ⊢
      exact h.taken hpc
    · exact absurd hpc hne'
  · rw [hinfo, hhandled, h.registered]

/-- A zeroed segment holds no letter. -/
lemma Lane.free (h : o.Lane k) (hzero : (o.shmem (2 * k)).msg = .zero) :
    (o.shmem (2 * k)).letter = none := by
  cases hl : (o.shmem (2 * k)).letter with
  | none => rfl
  | some l =>
      have hcontent : StructMsg.zero = l.content := by
        simpa [Slip.Holds, hl, hzero] using h.outgoing
      have hmem : l ∈ o.written k := by simp [← h.accounted, hl]
      obtain ⟨-, -, -, -, hshows⟩ := h.stamped.of_mem hmem
      rw [← hcontent] at hshows
      cases hkind : l.kind <;> simp [hkind, Kind.Shows, StructMsg.zero, StructMsg.connects,
        StructMsg.disconnects, msgConnect, msgDisconnect, msgBuffSize] at hshows

lemma Lane.write (h : o.Lane k) {kind : Kind} {m : StructMsg}
    (hfree : (o.shmem (2 * k)).msg = .zero) (hshows : kind.Shows m) :
    (o.write k kind m).Lane k := by
  have hnone := h.free hfree
  have hall : o.handled k ++ o.inHand k = o.written k := by simpa [hnone] using h.accounted
  refine ⟨?_, ?_, ?_, h.taken, h.registered⟩
  · show o.handled k ++ o.inHand k ++ _ = _
    rw [hall]
    simp [Office.write]
  · simp only [Office.write, Function.update_self]
    exact h.stamped.concat ⟨rfl, rfl, rfl, hshows⟩
  · simp [Slip.Holds, Office.write]

lemma Lane.take (h : o.Lane k) (hpc : (o.server k).pc = .take) : (o.take k).Lane k := by
  have hall : o.handled k ++ (o.shmem (2 * k)).letter.toList = o.written k := by
    simpa [inHand, hpc] using h.accounted
  refine ⟨?_, h.stamped, ?_, fun _ => ?_, h.registered⟩
  · simpa [Office.take, inHand, Slip.zero] using hall
  · simp [Slip.Holds, Office.take, Slip.zero]
  · simpa [Office.take] using h.outgoing

/-- What server thread `k` has in hand when it handles it. -/
lemma Lane.reads (h : o.Lane k) (hpc : (o.server k).pc = .handle) :
    ((o.server k).msgFrom.letter = none ∧ (o.server k).msgFrom.msg = .zero) ∨
      ∃ l, (o.server k).msgFrom.letter = some l ∧ (o.server k).msgFrom.msg = l.content ∧
        l ∈ o.written k ∧ l.Stamp k (o.handled k) := by
  have hholds := h.taken hpc
  have hall := h.accounted
  simp only [inHand, hpc, if_true] at hall
  cases hl : (o.server k).msgFrom.letter with
  | none => exact Or.inl ⟨rfl, by simpa [Slip.Holds, hl] using hholds⟩
  | some l =>
      rw [hl] at hall
      refine Or.inr ⟨l, rfl, by simpa [Slip.Holds, hl] using hholds, by simp [← hall], ?_⟩
      exact h.stamped _ l (o.shmem (2 * k)).letter.toList (by simp [← hall])

lemma Lane.handle (h : o.Lane k) (hpc : (o.server k).pc = .handle) : (o.handle k).Lane k := by
  have hle : (o.clientsInfo k).flagConnect ≤ 1 := by
    rw [h.registered]
    exact Bool.toNat_le _
  have hdone : ((o.handle k).server k).pc ≠ .handle := by
    simp only [Office.handle, Function.update_self]
    split <;> simp
  refine ⟨?_, h.stamped, h.outgoing, fun hpc' => absurd hpc' hdone, ?_⟩
  · have hall := h.accounted
    simp only [inHand, hpc, if_true] at hall
    simp only [inHand, hdone, if_false, List.append_nil]
    simpa [Office.handle] using hall
  · simp only [Office.handle, Function.update_self]
    rcases h.reads hpc with ⟨hnone, hzero⟩ | ⟨l, hl, hmsg, -, hstamp⟩
    · rw [hnone, Option.toList_none, List.append_nil, ← h.registered, desk,
        (handle_blank hzero).1]
    · have hshows := hstamp.shows
      rw [← hmsg] at hshows
      rw [hl, Option.toList_some, connectedAfter_concat, desk]
      cases hkind : l.kind with
      | connect =>
          rw [hkind] at hshows
          rw [(handle_connect hshows hle).1]
          rfl
      | chat =>
          rw [hkind] at hshows
          rw [(handle_chat hshows).1]
          exact h.registered
      | disconnect =>
          rw [hkind] at hshows
          rw [(handle_disconnect hshows hle).1]
          rfl

/-- The loop is entered for a text of a connected client, and `msg_to_cli` is that text. -/
lemma Lane.handle_cases (h : o.Lane k) (hpc : (o.server k).pc = .handle) :
    (((o.handle k).server k).pc = .clear ∧
      ∀ l ∈ (o.server k).msgFrom.letter, l.due = false) ∨
    ∃ l, ((o.handle k).server k).pc = .cast 1 ∧
      ((o.handle k).server k).msgTo = ⟨l.content, some l⟩ ∧
      (o.server k).msgFrom.letter = some l ∧ l.Stamp k (o.handled k) ∧ l.due = true ∧
      l.content.flag = 1 := by
  have hle : (o.clientsInfo k).flagConnect ≤ 1 := by
    rw [h.registered]
    exact Bool.toNat_le _
  rcases h.reads hpc with ⟨hnone, hzero⟩ | ⟨l, hl, hmsg, -, hstamp⟩
  · have hno : (o.desk k).broadcasts (o.server k).msgFrom.msg = false := (handle_blank hzero).2
    exact Or.inl ⟨by simp [Office.handle, hno], by simp [hnone]⟩
  · have hshows := hstamp.shows
    rw [← hmsg] at hshows
    cases hkind : l.kind with
    | connect =>
        rw [hkind] at hshows
        have hno : (o.desk k).broadcasts (o.server k).msgFrom.msg = false :=
          (handle_connect hshows hle).2
        exact Or.inl ⟨by simp [Office.handle, hno], by simp [hl, Letter.due, hkind]⟩
    | disconnect =>
        rw [hkind] at hshows
        have hno : (o.desk k).broadcasts (o.server k).msgFrom.msg = false :=
          (handle_disconnect hshows hle).2
        exact Or.inl ⟨by simp [Office.handle, hno], by simp [hl, Letter.due, hkind]⟩
    | chat =>
        rw [hkind] at hshows
        obtain ⟨-, hbroadcasts, hmsgTo⟩ := @handle_chat Slip Slip.msg
          ⟨o.clientsInfo k, o.clientsConnectedCount, (o.server k).msgTo⟩ _ hshows
        have hregistered := h.registered
        rw [← hstamp.ofConnected] at hregistered
        cases hof : l.ofConnected with
        | false =>
            have hno : (o.desk k).broadcasts (o.server k).msgFrom.msg = false := by
              rw [← Bool.not_eq_true, desk, hbroadcasts, hregistered, hof]
              simp
            exact Or.inl ⟨by simp [Office.handle, hno], by simp [hl, Letter.due, hof]⟩
        | true =>
            have hone : (o.clientsInfo k).flagConnect = 1 := by rw [hregistered, hof]; rfl
            have hyes : (o.desk k).broadcasts (o.server k).msgFrom.msg = true :=
              hbroadcasts.mpr hone
            have hto : (o.desk k).msgTo = (o.server k).msgFrom := hmsgTo hone
            have hslip : (o.server k).msgFrom = ⟨l.content, some l⟩ := by rw [← hmsg, ← hl]
            refine Or.inr ⟨l, by simp [Office.handle, hyes], ?_, hl, hstamp, ?_, ?_⟩
            · simp only [Office.handle, Function.update_self, if_pos hyes]
              exact hto.trans hslip
            · simp [Letter.due, hkind, hof]
            · rw [← hmsg]
              exact hshows.2.2

/-! ## The broadcast loop -/

/-- A server thread in the broadcast loop is at an odd segment and has a text in
`msg_to_cli`. -/
def Casting (o : Office) (k : ℕ) : Prop :=
  ∀ i, (o.server k).pc = .cast i → i % 2 = 1 ∧
    ∃ l, (o.server k).msgTo = ⟨l.content, some l⟩ ∧ l.slot = k ∧ l.content.flag = 1

lemma Casting.of_server (h : o.Casting k) (hserver : o'.server k = o.server k) :
    o'.Casting k := by
  unfold Casting
  rw [hserver]
  exact h

lemma Casting.of_pc (hpc : ∀ i, (o'.server k).pc ≠ .cast i) : o'.Casting k :=
  fun i hi => absurd hi (hpc i)

/-- The next round of the loop. -/
lemma Casting.next (h : o.Casting k) {i : ℕ} (hpc : (o.server k).pc = .cast i)
    (hpc' : (o'.server k).pc = .cast (i + 2))
    (hmsgTo : (o'.server k).msgTo = (o.server k).msgTo) : o'.Casting k := by
  obtain ⟨hodd, hletter⟩ := h i hpc
  intro n hn
  obtain rfl : i + 2 = n := by simpa [hpc'] using hn
  rw [hmsgTo]
  exact ⟨by omega, hletter⟩

lemma Casting.handle (hlane : o.Lane k) (hpc : (o.server k).pc = .handle) :
    (o.handle k).Casting k := by
  rcases hlane.handle_cases hpc with ⟨hclear, -⟩ | ⟨l, hcast, hmsgTo, -, hstamp, -, hflag⟩
  · exact .of_pc (by simp [hclear])
  · intro i hi
    obtain rfl : 1 = i := by simpa [hcast] using hi
    exact ⟨rfl, l, hmsgTo, hstamp.slot, hflag⟩

/-- A step of a server thread that handles nothing. -/
lemma Lane.setServer (h : o.Lane j) {t : Server} (hpc : (o.server k).pc ≠ .handle)
    (ht : t.pc ≠ .handle) : (o.setServer k t).Lane j := by
  refine h.frame rfl rfl rfl rfl ?_
  by_cases hj : j = k
  · subst hj
    exact Or.inr ⟨hpc, by simpa [Office.setServer] using ht⟩
  · exact Or.inl (Function.update_of_ne hj _ _)

/-- Steps within the guard keep the lanes. -/
lemma lane_move (h : ∀ k, o.Lane k) (hcasting : ∀ k, o.Casting k) (hmove : o.Move cfg o')
    (j : ℕ) : o'.Lane j := by
  cases hmove with
  | stay => exact h j
  | write k kind m hfree hshows =>
      by_cases hj : j = k
      · subst hj
        exact (h j).write hfree hshows
      · refine (h j).frame ?_ rfl ?_ rfl (Or.inl rfl)
        · exact Function.update_of_ne (by omega) _ _
        · exact Function.update_of_ne hj _ _
  | take k hpc =>
      by_cases hj : j = k
      · subst hj
        exact (h j).take hpc
      · refine (h j).frame ?_ rfl rfl rfl (Or.inl ?_)
        · exact Function.update_of_ne (by omega) _ _
        · exact Function.update_of_ne hj _ _
  | handle k hpc =>
      by_cases hj : j = k
      · subst hj
        exact (h j).handle hpc
      · refine (h j).frame rfl ?_ rfl ?_ (Or.inl ?_)
        all_goals exact Function.update_of_ne hj _ _
  | put k i hpc hi hown hfree =>
      have hodd := (hcasting k i hpc).1
      refine (h j).frame ?_ rfl rfl rfl ?_
      · exact Function.update_of_ne (by omega) _ _
      · by_cases hj : j = k
        · subst hj
          exact Or.inr ⟨by simp [hpc], by simp [Office.put]⟩
        · exact Or.inl (Function.update_of_ne hj _ _)
  | read i =>
      refine (h j).frame ?_ rfl rfl rfl (Or.inl rfl)
      exact Function.update_of_ne (by omega) _ _
  | begin k pc hpc hnext =>
      refine (h j).setServer (by simp [hpc]) ?_
      rcases hnext with rfl | rfl <;> simp
  | pass k hpc => exact (h j).setServer (by simp [hpc]) (by simp)
  | endCast k i hpc hi => exact (h j).setServer (by simp [hpc]) (by simp)
  | clear k hpc => exact (h j).setServer (by simp [hpc]) (by simp)

lemma casting_init (k : ℕ) : Office.init.Casting k := nofun

lemma casting_move (hlane : ∀ k, o.Lane k) (h : ∀ k, o.Casting k) (hmove : o.Move cfg o')
    (j : ℕ) : o'.Casting j := by
  cases hmove with
  | stay => exact h j
  | write k kind m hfree hshows => exact (h j).of_server rfl
  | take k hpc =>
      by_cases hj : j = k
      · subst hj
        exact .of_pc (by simp [Office.take])
      · exact (h j).of_server (Function.update_of_ne hj _ _)
  | handle k hpc =>
      by_cases hj : j = k
      · subst hj
        exact .handle (hlane j) hpc
      · exact (h j).of_server (Function.update_of_ne hj _ _)
  | put k i hpc hi hown hfree =>
      by_cases hj : j = k
      · subst hj
        exact (h j).next hpc (by simp [Office.put]) (by simp [Office.put])
      · exact (h j).of_server (Function.update_of_ne hj _ _)
  | read i => exact (h j).of_server rfl
  | begin k pc hpc hnext =>
      by_cases hj : j = k
      · subst hj
        refine .of_pc fun i => ?_
        rcases hnext with rfl | rfl <;> simp [setServer]
      · exact (h j).of_server (Function.update_of_ne hj _ _)
  | pass k hpc =>
      by_cases hj : j = k
      · subst hj
        exact (h j).next hpc (by simp [setServer]) (by simp [setServer])
      · exact (h j).of_server (Function.update_of_ne hj _ _)
  | endCast k i hpc hi =>
      by_cases hj : j = k
      · subst hj
        exact .of_pc (by simp [setServer])
      · exact (h j).of_server (Function.update_of_ne hj _ _)
  | clear k hpc =>
      by_cases hj : j = k
      · subst hj
        exact .of_pc (by simp [setServer])
      · exact (h j).of_server (Function.update_of_ne hj _ _)

/-! ## From server thread to segment -/

/-- What server thread `k` still has to put into segment `i`. -/
def pending (o : Office) (k i : ℕ) : List Letter :=
  match (o.server k).pc with
  | .cast n => if n ≤ i then (o.server k).msgTo.letter.toList else []
  | _ => []

/-- Server thread `k` puts each text of a connected client once into the segment of slot `j`,
in order. -/
def Forwarded (o : Office) (k j : ℕ) : Prop :=
  ((o.puts (2 * j + 1)).map Prod.fst).filter (fun l => l.slot = k) ++ o.pending k (2 * j + 1) =
    (o.handled k).filter Letter.due

lemma Forwarded.frame (h : o.Forwarded k j) (hputs : o'.puts (2 * j + 1) = o.puts (2 * j + 1))
    (hhandled : o'.handled k = o.handled k)
    (hpending : o'.pending k (2 * j + 1) = o.pending k (2 * j + 1)) : o'.Forwarded k j := by
  rw [Forwarded, hputs, hhandled, hpending]
  exact h

lemma pending_of_server {i : ℕ} (hserver : o'.server k = o.server k) :
    o'.pending k i = o.pending k i := by
  rw [pending, pending, hserver]

lemma pending_of_pc {i : ℕ} (hpc : ∀ n, (o.server k).pc ≠ .cast n) : o.pending k i = [] := by
  unfold pending
  split
  · next n hn => exact absurd hn (hpc n)
  · rfl

lemma pending_of_cast {i n : ℕ} (hpc : (o.server k).pc = .cast n) :
    o.pending k i = if n ≤ i then (o.server k).msgTo.letter.toList else [] := by
  simp only [pending, hpc]

/-- A step outside the loop. -/
lemma pending_idle {i : ℕ} (hpc : ∀ n, (o.server k).pc ≠ .cast n)
    (hpc' : ∀ n, (o'.server k).pc ≠ .cast n) : o'.pending k i = o.pending k i := by
  rw [pending_of_pc hpc, pending_of_pc hpc']

/-- Another thread's step, or one that this thread takes outside the loop. -/
lemma Forwarded.setServer (h : o.Forwarded k j) {n : ℕ} {t : Server}
    (hpending : k = n → (o.setServer n t).pending k (2 * j + 1) = o.pending k (2 * j + 1)) :
    (o.setServer n t).Forwarded k j := by
  refine h.frame rfl rfl ?_
  by_cases hk : k = n
  · exact hpending hk
  · exact pending_of_server (Function.update_of_ne hk _ _)

lemma Forwarded.handle (h : o.Forwarded k j) (hlane : o.Lane k)
    (hpc : (o.server k).pc = .handle) : (o.handle k).Forwarded k j := by
  have hbefore : o.pending k (2 * j + 1) = [] := pending_of_pc (by simp [hpc])
  have hhandled : (o.handle k).handled k =
      o.handled k ++ (o.server k).msgFrom.letter.toList := by simp [Office.handle]
  rw [Forwarded, hbefore, List.append_nil] at h
  rw [Forwarded, hhandled, List.filter_append, ← h]
  refine congrArg (List.append _) ?_
  rcases hlane.handle_cases hpc with ⟨hclear, hskip⟩ | ⟨l, hcast, hmsgTo, hl, -, hdue, -⟩
  · rw [pending_of_pc (by simp [hclear]), eq_comm, List.filter_eq_nil_iff]
    intro l hl
    simp [hskip l (Option.mem_toList.mp hl)]
  · rw [pending_of_cast hcast, if_pos (by omega), hmsgTo, hl]
    simp [hdue]

/-- Server thread `n` puts its text into segment `i`. -/
lemma Forwarded.put (h : o.Forwarded k j) {n i : ℕ} (hcasting : o.Casting n)
    (hpc : (o.server n).pc = .cast i) : (o.put n i).Forwarded k j := by
  obtain ⟨hodd, l, hmsgTo, hslot, -⟩ := hcasting i hpc
  have hpc' : ((o.put n i).server n).pc = .cast (i + 2) := by simp [Office.put]
  have hmsgTo' : ((o.put n i).server n).msgTo = (o.server n).msgTo := by simp [Office.put]
  by_cases hi : i = 2 * j + 1
  · subst hi
    have hputs : (o.put n (2 * j + 1)).puts (2 * j + 1) = o.puts (2 * j + 1) ++
        [(l, decide (o.Connected ((2 * j + 1) / 2)))] := by
      simp [Office.put, hmsgTo]
    rw [Forwarded] at h ⊢
    rw [hputs, show (o.put n (2 * j + 1)).handled k = o.handled k from rfl, ← h,
      List.map_append, List.filter_append, List.append_assoc]
    refine congrArg (List.append _) ?_
    by_cases hk : k = n
    · subst hk
      rw [pending_of_cast hpc', if_neg (by omega), pending_of_cast hpc, if_pos (Nat.le_refl _),
        hmsgTo]
      simp [hslot]
    · rw [pending_of_server (Function.update_of_ne hk _ _)]
      simp [hslot, Ne.symm hk]
  · refine h.frame (Function.update_of_ne (Ne.symm hi) _ _) rfl ?_
    by_cases hk : k = n
    · subst hk
      rw [pending_of_cast hpc', pending_of_cast hpc, hmsgTo']
      have hle : i + 2 ≤ 2 * j + 1 ↔ i ≤ 2 * j + 1 := by omega
      simp only [hle]
    · exact pending_of_server (Function.update_of_ne hk _ _)

lemma forwarded_init (k j : ℕ) : Office.init.Forwarded k j := rfl

lemma forwarded_move (hlane : ∀ k, o.Lane k) (hcasting : ∀ k, o.Casting k)
    (hmove : o.Move cfg o') (hkj : k ≠ j) (hj : j < cfg.maxClients) (h : o.Forwarded k j) :
    o'.Forwarded k j := by
  cases hmove with
  | stay => exact h
  | write n kind m hfree hshows => exact h.frame rfl rfl (pending_of_server rfl)
  | take n hpc =>
      refine h.frame rfl rfl ?_
      by_cases hk : k = n
      · subst hk
        exact pending_idle (by simp [hpc]) (by simp [Office.take])
      · exact pending_of_server (Function.update_of_ne hk _ _)
  | handle n hpc =>
      by_cases hk : k = n
      · subst hk
        exact h.handle (hlane k) hpc
      · exact h.frame rfl (Function.update_of_ne hk _ _)
          (pending_of_server (Function.update_of_ne hk _ _))
  | put n i hpc hi hown hfree => exact h.put (hcasting n) hpc
  | read i => exact h.frame rfl rfl (pending_of_server rfl)
  | begin n pc hpc hnext =>
      refine h.setServer fun hk => ?_
      subst hk
      refine pending_idle (by simp [hpc]) ?_
      rcases hnext with rfl | rfl <;> simp [Office.setServer]
  | pass n hpc =>
      refine h.setServer fun hk => ?_
      subst hk
      -- the loop passes over the thread's own segment, which is not the one of `j`
      have hle : 2 * k + 1 + 2 ≤ 2 * j + 1 ↔ 2 * k + 1 ≤ 2 * j + 1 := by omega
      rw [pending_of_cast hpc, pending_of_cast (n := 2 * k + 1 + 2) (by simp [Office.setServer])]
      simp [hle, Office.setServer]
  | endCast n i hpc hi =>
      refine h.setServer fun hk => ?_
      subst hk
      rw [pending_of_cast hpc, if_neg (by omega), pending_of_pc (by simp [Office.setServer])]
  | clear n hpc =>
      refine h.setServer fun hk => ?_
      subst hk
      exact pending_idle (by simp [hpc]) (by simp [Office.setServer])

/-! ## From segment to receive thread -/

/-- The incoming segment of slot `j`. -/
structure Incoming (o : Office) (j : ℕ) : Prop where
  flagged : (o.shmem (2 * j + 1)).Flagged
  settled : ∃ past last, (o.mailbox j).Settled past last

lemma incoming_init (j : ℕ) : Office.init.Incoming j where
  flagged := by simp [Slip.Flagged, Office.init, Slip.zero, StructMsg.zero]
  settled := ⟨[], [], Mailbox.settled_empty⟩

lemma Incoming.frame (h : o.Incoming j) (hshmem : o'.shmem (2 * j + 1) = o.shmem (2 * j + 1))
    (hputs : o'.puts (2 * j + 1) = o.puts (2 * j + 1))
    (hreads : o'.reads (2 * j + 1) = o.reads (2 * j + 1)) : o'.Incoming j := by
  refine ⟨hshmem ▸ h.flagged, ?_⟩
  rw [mailbox, hshmem, hputs, hreads]
  exact h.settled

/-- A letter in the segment has its flag set. -/
lemma Incoming.flag_eq_one (h : o.Incoming j) (hl : (o.shmem (2 * j + 1)).letter ≠ none) :
    (o.shmem (2 * j + 1)).msg.flag = 1 := by
  have hflagged := h.flagged
  unfold Slip.Flagged at hflagged
  split at hflagged
  · next hnone => exact absurd hnone hl
  · exact hflagged.2

lemma Incoming.put (h : o.Incoming j) (hcasting : o.Casting k)
    (hpc : (o.server k).pc = .cast (2 * j + 1))
    (hfree : (o.shmem (2 * j + 1)).msg.flag = 1 → (o.mailbox j).lastDue = false) :
    (o.put k (2 * j + 1)).Incoming j := by
  obtain ⟨-, l, hmsgTo, -, hflag⟩ := hcasting _ hpc
  obtain ⟨past, last, hsettled⟩ := h.settled
  have hmailbox : (o.put k (2 * j + 1)).mailbox j =
      (o.mailbox j).put l (decide (o.Connected ((2 * j + 1) / 2))) := by
    simp [mailbox, Office.put, Mailbox.put, hmsgTo]
  refine ⟨by simp [Slip.Flagged, Office.put, hmsgTo, hflag], ?_⟩
  rw [hmailbox]
  exact ⟨_, _, hsettled.put l _ fun hne => hfree (h.flag_eq_one hne)⟩

lemma Incoming.read (h : o.Incoming j) : (o.read (2 * j + 1)).Incoming j := by
  obtain ⟨past, last, hsettled⟩ := h.settled
  have hmailbox : (o.read (2 * j + 1)).mailbox j = (o.mailbox j).read := by
    simp [mailbox, Office.read, Mailbox.read]
  refine ⟨by simp [Slip.Flagged, Office.read], ?_⟩
  rw [hmailbox]
  exact ⟨_, _, hsettled.read⟩

lemma incoming_move (hcasting : ∀ k, o.Casting k) (h : ∀ j, o.Incoming j)
    (hmove : o.Move cfg o') (j : ℕ) : o'.Incoming j := by
  cases hmove with
  | stay => exact h j
  | write k kind m hfree hshows =>
      exact (h j).frame (Function.update_of_ne (by omega) _ _) rfl rfl
  | take k hpc => exact (h j).frame (Function.update_of_ne (by omega) _ _) rfl rfl
  | handle k hpc => exact (h j).frame rfl rfl rfl
  | put k i hpc hi hown hfree =>
      have hodd := (hcasting k i hpc).1
      by_cases hij : i = 2 * j + 1
      · subst hij
        have hhalf : (2 * j + 1) / 2 = j := by omega
        rw [hhalf] at hfree
        exact (h j).put (hcasting k) hpc fun hflag => (hfree hflag).2
      · exact (h j).frame (Function.update_of_ne (Ne.symm hij) _ _)
          (Function.update_of_ne (Ne.symm hij) _ _) rfl
  | read i =>
      by_cases hij : j = i
      · subst hij
        exact (h j).read
      · exact (h j).frame (Function.update_of_ne (by omega) _ _) rfl
          (Function.update_of_ne (by omega) _ _)
  | begin k pc hpc hnext => exact (h j).frame rfl rfl rfl
  | pass k hpc => exact (h j).frame rfl rfl rfl
  | endCast k i hpc hi => exact (h j).frame rfl rfl rfl
  | clear k hpc => exact (h j).frame rfl rfl rfl

lemma replaced_move (hlane : ∀ k, o.Lane k) (hcasting : ∀ k, o.Casting k)
    (hincoming : ∀ j, o.Incoming j) (hmove : o.Move cfg o') (h : o.replaced = []) :
    o'.replaced = [] := by
  cases hmove with
  | write k kind m hfree hshows => simp [Office.write, h, (hlane k).free hfree]
  | put k i hpc hi hown hfree =>
      have hodd := (hcasting k i hpc).1
      have hsegment : 2 * (i / 2) + 1 = i := by omega
      by_cases hconnected : o.Connected (i / 2)
      · have hnone : (o.shmem i).letter = none := by
          by_contra hl
          have hflag := (hincoming (i / 2)).flag_eq_one
          rw [hsegment] at hflag
          exact (hfree (hflag hl)).1 hconnected
        simp [Office.put, h, hnone]
      · simp [Office.put, h, hconnected]
  | _ => exact h

/-! ## Everything together -/

/-- What steps within the guard keep. -/
structure Sound (cfg : Config) (o : Office) : Prop where
  lane : ∀ k, o.Lane k
  casting : ∀ k, o.Casting k
  forwarded : ∀ k j, k ≠ j → j < cfg.maxClients → o.Forwarded k j
  incoming : ∀ j, o.Incoming j
  kept : o.replaced = []

lemma sound_init (cfg : Config) : Office.init.Sound cfg where
  lane := lane_init
  casting := casting_init
  forwarded := fun k j _ _ => forwarded_init k j
  incoming := incoming_init
  kept := rfl

lemma Sound.move (h : o.Sound cfg) (hmove : o.Move cfg o') : o'.Sound cfg where
  lane := lane_move h.lane h.casting hmove
  casting := casting_move h.lane h.casting hmove
  forwarded := fun k j hkj hj =>
    forwarded_move h.lane h.casting hmove hkj hj (h.forwarded k j hkj hj)
  incoming := incoming_move h.casting h.incoming hmove
  kept := replaced_move h.lane h.casting h.incoming hmove h.kept

/-- The text `l` of slot `i` is still on its way to the segment of slot `j`. -/
def OnItsWay (o : Office) (i j : ℕ) (l : Letter) : Prop :=
  ((o.shmem (2 * i)).letter = some l ∨ l ∈ o.inHand i ∨ l ∈ o.pending i (2 * j + 1)) ∧
    l ∉ (o.puts (2 * j + 1)).map Prod.fst

/-- The text `l` was put once into the segment of slot `j`.  If a client was connected there,
it was read once or is still in the segment. -/
structure Delivered (o : Office) (j : ℕ) (l : Letter) : Prop where
  once : ((o.puts (2 * j + 1)).map Prod.fst).count l = 1
  read : (l, true) ∈ o.puts (2 * j + 1) →
    (o.reads (2 * j + 1) ++ (o.shmem (2 * j + 1)).letter.toList).count l = 1

/-- No message is lost. -/
structure Lossless (cfg : Config) (o : Office) : Prop where
  /-- No write has replaced an unread letter. -/
  kept : o.replaced = []
  /-- Every letter written has been handled, in order, or is about to be. -/
  accounted : ∀ k, o.handled k ++ o.inHand k ++ (o.shmem (2 * k)).letter.toList = o.written k
  /-- Every connect and disconnect handled has had its effect. -/
  registered : ∀ k, (o.clientsInfo k).flagConnect = (connectedAfter (o.handled k)).toNat
  /-- What is in a segment is what was written. -/
  contents : ∀ i l, (o.shmem i).letter = some l → (o.shmem i).msg = l.content
  /-- Every text of a connected client gets into every other segment. -/
  delivered : ∀ i j l, i ≠ j → j < cfg.maxClients → l ∈ o.written i → l.due = true →
    o.OnItsWay i j l ∨ o.Delivered j l

lemma Sound.contents (h : o.Sound cfg) {i : ℕ} {l : Letter}
    (hl : (o.shmem i).letter = some l) : (o.shmem i).msg = l.content := by
  obtain ⟨k, rfl | rfl⟩ : ∃ k, i = 2 * k ∨ i = 2 * k + 1 := ⟨i / 2, by omega⟩
  · simpa [Slip.Holds, hl] using (h.lane k).outgoing
  · have hflagged := (h.incoming k).flagged
    simp only [Slip.Flagged, hl] at hflagged
    exact hflagged.1

lemma Sound.delivered (h : o.Sound cfg) {i j : ℕ} {l : Letter} (hij : i ≠ j)
    (hj : j < cfg.maxClients) (hl : l ∈ o.written i) (hdue : l.due = true) :
    o.OnItsWay i j l ∨ o.Delivered j l := by
  have hlane := h.lane i
  have hnodup : (o.written i).Nodup := hlane.stamped.nodup
  have hslot : l.slot = i := by
    obtain ⟨before, hstamp⟩ := hlane.stamped.of_mem hl
    exact hstamp.slot
  have hputs : ((o.puts (2 * j + 1)).map Prod.fst).count l + (o.pending i (2 * j + 1)).count l =
      (o.handled i).count l := by
    rw [← List.count_filter (p := fun x => decide (x.slot = i)) (by simpa using hslot),
      ← List.count_append, h.forwarded i j hij hj, List.count_filter hdue]
  have hcount : (o.handled i).count l + (o.inHand i).count l +
      (o.shmem (2 * i)).letter.toList.count l = 1 := by
    rw [← List.count_append, ← List.count_append, hlane.accounted]
    exact List.count_eq_one_of_mem hnodup hl
  by_cases hput : ((o.puts (2 * j + 1)).map Prod.fst).count l = 1
  · obtain ⟨past, last, hsettled⟩ := (h.incoming j).settled
    exact Or.inr ⟨hput, hsettled.count_eq_one hput⟩
  · refine Or.inl ⟨?_, List.count_eq_zero.mp (by omega)⟩
    rcases Nat.eq_zero_or_pos ((o.pending i (2 * j + 1)).count l) with hzero | hpos
    · rcases Nat.eq_zero_or_pos ((o.inHand i).count l) with hzero' | hpos
      · have hpos : 0 < (o.shmem (2 * i)).letter.toList.count l := by omega
        exact Or.inl (Option.mem_toList.mp (List.count_pos_iff.mp hpos))
      · exact Or.inr (Or.inl (List.count_pos_iff.mp hpos))
    · exact Or.inr (Or.inr (List.count_pos_iff.mp hpos))

lemma Sound.lossless (h : o.Sound cfg) : o.Lossless cfg where
  kept := h.kept
  accounted := fun k => (h.lane k).accounted
  registered := fun k => (h.lane k).registered
  contents := fun _ _ => h.contents
  delivered := fun _ _ _ => h.delivered

end Office

/-- **Paced runs lose no message.** -/
theorem lossless_of_paced (h : Reach (step cfg) (Paced cfg) init s) : s.office.Lossless cfg := by
  have hsound : s.office.Sound cfg :=
    h.invariant (I := fun u => u.office.Sound cfg) (Office.sound_init cfg)
      fun _ _ _ hsound hok hstep => hsound.move (move_of_step hok hstep)
  exact hsound.lossless

/-- Both clients connect. -/
def bothConnected : List Action :=
  [.main 0, .main 1] ++ List.replicate 4 (.server 0) ++ List.replicate 4 (.server 1)

/-- A word of client 0 goes to client 1, which reads it. -/
def wordRead : List Action :=
  bothConnected ++ [.type 0 wordHi] ++ List.replicate 3 (.send 0) ++
    List.replicate 7 (.server 0) ++ List.replicate 2 (.receive 1)

theorem lossless_of_paced_word_read :
    ∃ s, exec (step twoClients) init wordRead = some s ∧ s.office.Lossless twoClients := by
  have hrun : Guarded (step twoClients) (Paced twoClients) init wordRead = true := by
    decide +kernel
  obtain ⟨s, hs, hreach⟩ := Reach.of_guarded hrun
  exact ⟨s, hs, lossless_of_paced hreach⟩

/-- Client 0 connects and sends a word before the server has come around. -/
def hurriedWord : List Action := [.main 0, .type 0 wordHi] ++ List.replicate 3 (.send 0)

/-- The word replaces the connect message. -/
theorem connect_replaced :
    ¬ ∀ (cfg : Config) (s : State), Reach (step cfg) Anything init s →
      s.office.Lossless cfg := by
  intro hclaim
  have hrun : (exec (step twoClients) init hurriedWord).map (fun s =>
      s.office.replaced.map Letter.kind) = some [.connect] := by
    decide +kernel
  obtain ⟨s, hs, hreplaced⟩ := Option.map_eq_some_iff.mp hrun
  rw [(hclaim twoClients s (Reach.of_exec hs)).kept] at hreplaced
  exact absurd hreplaced (by simp)

end Mailboxes
end ShmemChat
end EltSummer
