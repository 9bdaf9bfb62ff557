import EltSummer.ShmemChat.Exclusion

/-!
# The messages a client composes

The send thread puts the client's name and the typed text together in `msg`, which has room
for both, and then copies `sizeof(msg_scanf)` bytes of it into `msg_out`, which is the size of
the text alone.  So the end of a longer message is missing (`clipped_eq_whole_iff`).

Nothing else goes wrong: what `main` has left in `msg_out` is overwritten, and behind these
bytes `msg_out` is always zero (`Client.Clean`).  `whole_iff` says it of whole runs: what
the send thread puts into its segment are the texts typed, one by one, each behind the name.
-/

namespace EltSummer
namespace ShmemChat

open CString

/-! ## One message -/

/-- What the send thread composes in `msg`: the name, the text, and zeros. -/
def composed (nick : Nick) (text : List UInt8) : List UInt8 :=
  nick.bytes ++ text ++ List.replicate (msgBuffSize - (nick.bytes.length + text.length)) 0

/-- A chat message with the whole text. -/
def StructMsg.whole (nick : Nick) (text : List UInt8) : StructMsg := ⟨composed nick text, 1⟩

/-- A chat message with what is copied of it. -/
def StructMsg.clipped (nick : Nick) (text : List UInt8) : StructMsg :=
  ⟨(composed nick text).take (msgBuffSize - idClientSize) ++ List.replicate idClientSize 0, 1⟩

/-- A typed text fits `msg` behind the name, with its NUL. -/
lemma Typed.room (word : Typed) (nick : Nick) :
    nick.bytes.length + word.bytes.length + 1 < msgBuffSize := by
  have hnick := nick.fits
  have hword := word.fits
  simp only [msgBuffSize, idClientSize] at hnick hword ⊢
  omega

lemma length_composed (nick : Nick) (word : Typed) :
    (composed nick word.bytes).length = msgBuffSize := by
  have hroom := word.room nick
  simp only [composed, List.length_append, List.length_replicate]
  omega

/-- `memcpy(msg, id_client, sizeof(id_client))` into zeros. -/
lemma overlay_idClient (nick : Nick) : overlay nick.idClient (List.replicate msgBuffSize 0) =
    nick.bytes ++ List.replicate (msgBuffSize - nick.bytes.length) 0 := by
  have hfits := nick.fits
  simp only [Nick.idClient, overlay, List.drop_replicate, List.length_append,
    List.length_replicate, List.append_assoc, List.replicate_append_replicate]
  congr 2
  simp only [msgBuffSize, idClientSize] at hfits ⊢
  omega

/-- `strcat(msg, msg_scanf)`. -/
lemma strcat_idClient (nick : Nick) (word : Typed) :
    strcat (overlay nick.idClient (List.replicate msgBuffSize 0)) word.bytes =
      composed nick word.bytes := by
  have hroom := word.room nick
  obtain ⟨n, hn⟩ : ∃ n, msgBuffSize - nick.bytes.length = n + 1 :=
    ⟨msgBuffSize - nick.bytes.length - 1, by omega⟩
  have hname : (nick.bytes ++ List.replicate (n + 1) 0).takeWhile (· ≠ 0) = nick.bytes := by
    rw [List.replicate_succ]
    exact takeWhile_append_nul nick.noNul _
  rw [overlay_idClient, hn, strcat, hname, overlay, composed, List.drop_append,
    List.drop_eq_nil_of_le (by simp), List.nil_append, List.drop_replicate,
    List.append_assoc (nick.bytes ++ word.bytes), ← List.replicate_one,
    List.replicate_append_replicate]
  congr 2
  simp only [List.length_append, List.length_replicate]
  omega

/-- `msg_out` as the send thread fills it, when it is zero behind the bytes copied. -/
lemma chatMsg_eq {msgOut : StructMsg}
    (hout : msgOut.msgBuff.drop (msgBuffSize - idClientSize) = List.replicate idClientSize 0)
    (nick : Nick) (word : Typed) :
    chatMsg msgOut nick word.bytes = .clipped nick word.bytes := by
  have hlen : ((composed nick word.bytes).take (msgBuffSize - idClientSize)).length =
      msgBuffSize - idClientSize := by
    rw [List.length_take, length_composed]
    exact Nat.min_eq_left (Nat.sub_le _ _)
  rw [chatMsg, strcat_idClient, overlay, hlen, hout, StructMsg.clipped]

/-- The message is whole exactly when name and text fit the bytes copied. -/
lemma clipped_eq_whole_iff (nick : Nick) (word : Typed) :
    StructMsg.clipped nick word.bytes = .whole nick word.bytes ↔
      nick.bytes.length + word.bytes.length ≤ msgBuffSize - idClientSize := by
  have hroom := word.room nick
  have hsplit := List.take_append_drop (msgBuffSize - idClientSize) (composed nick word.bytes)
  have hbehind : StructMsg.clipped nick word.bytes = .whole nick word.bytes ↔
      (composed nick word.bytes).drop (msgBuffSize - idClientSize) =
        List.replicate idClientSize 0 := by
    rw [StructMsg.clipped, StructMsg.whole, StructMsg.mk.injEq]
    constructor
    · rintro ⟨hbuff, -⟩
      exact (List.append_cancel_left (hbuff.trans hsplit.symm)).symm
    · intro hdrop
      rw [← hdrop]
      exact ⟨hsplit, rfl⟩
  rw [hbehind]
  constructor
  · intro hdrop
    by_contra hlong
    -- the first byte that is not copied is one of the text
    have hzero : (composed nick word.bytes)[msgBuffSize - idClientSize]? = some 0 := by
      have hget := congrArg (·[0]?) hdrop
      simpa [idClientSize] using hget
    rw [composed, List.getElem?_append_left (by rw [List.length_append]; omega)] at hzero
    rcases List.mem_append.mp (List.mem_of_getElem? hzero) with hin | hin
    · exact nick.noNul hin
    · exact word.noNul hin
  · intro hfits
    rw [composed, List.drop_append, List.drop_eq_nil_of_le (by rw [List.length_append]; omega),
      List.nil_append, List.drop_replicate]
    congr 1
    simp only [List.length_append, msgBuffSize, idClientSize] at hfits hroom ⊢
    omega

namespace Exclusion

open Interleaving

variable {cfg : Config} {s s' : State}

/-! ## What a step does to a client's message -/

/-- The texts typed at process `c`. -/
def typed (c : ℕ) (as : List Action) : List (List UInt8) :=
  as.filterMap fun
    | .type d word => if d = c then some word.bytes else none
    | _ => none

/-- What the send thread of process `c` puts into its segment with the action `a`, which leads
to `s'`. -/
def putNow (cfg : Config) (c : ℕ) (s : State) (a : Action) (s' : State) : List StructMsg :=
  match a with
  | .send d => if d = c ∧ (s.client c).sendPc = .write then [s'.shmem (2 * cfg.slot c)] else []
  | _ => []

/-- The messages the send thread of process `c` puts into its segment in the course of a run. -/
def puts (cfg : Config) (c : ℕ) : State → List Action → List StructMsg
  | _, [] => []
  | s, a :: as =>
      match step cfg s a with
      | none => []
      | some s' => putNow cfg c s a s' ++ puts cfg c s' as

/-- The send thread is about to write. -/
def SendPc.near : SendPc → Bool
  | .trywait | .write => true
  | _ => false

/-- A step, as far as the message of a client is concerned: what is typed there and what is put
into the segment.  Of `msg_out`, `main` fills the beginning only. -/
inductive Client.Turn (nick : Nick) (t : Client) :
    List (List UInt8) → List StructMsg → Client → Prop
  | calm {t' : Client} (hout : t'.msgOut.msgBuff.drop (msgBuffSize - idClientSize) =
        t.msgOut.msgBuff.drop (msgBuffSize - idClientSize))
      (hscanf : t'.msgScanf = t.msgScanf) (hflag : t'.scanfFlag = t.scanfFlag)
      (hnear : t'.sendPc.near = true → t.scanfFlag = true ∨ t.sendPc.near = true) :
      Turn nick t [] [] t'
  | types {t' : Client} (word : Typed) (hflag : t.scanfFlag = false)
      (ht : t' = { t with msgScanf := word.bytes, scanfFlag := true }) :
      Turn nick t [word.bytes] [] t'
  | writes {t' : Client} (hpc : t.sendPc = .write)
      (ht : t' = { t with sendPc := .post, scanfFlag := false, msgOut := .zero }) :
      Turn nick t [] [chatMsg t.msgOut nick t.msgScanf] t'

lemma Client.Turn.same (nick : Nick) (t : Client) : t.Turn nick [] [] t :=
  .calm rfl rfl rfl Or.inr

/-- `main` fills the beginning of `msg_out`. -/
lemma Client.Turn.fills {t t' : Client} (nick : Nick) (chars : List UInt8)
    (hout : t'.msgOut.msgBuff = overlay chars t.msgOut.msgBuff)
    (hshort : chars.length ≤ msgBuffSize - idClientSize) (hscanf : t'.msgScanf = t.msgScanf)
    (hflag : t'.scanfFlag = t.scanfFlag) (hsend : t'.sendPc = t.sendPc) :
    t.Turn nick [] [] t' := by
  refine .calm ?_ hscanf hflag fun hnear => Or.inr (hsend ▸ hnear)
  rw [hout, overlay, List.drop_append, List.drop_eq_nil_of_le hshort, List.nil_append,
    List.drop_drop, Nat.add_sub_cancel' hshort]

lemma serverStep_client {k : ℕ} (h : serverStep cfg s k (s.server k) = some s') :
    s'.client = s.client := by
  cases hpc : (s.server k).pc with
  | waitIn =>
      simp only [serverStep, hpc, Option.ite_none_right_eq_some, Option.some.injEq] at h
      obtain ⟨-, rfl⟩ := h
      rfl
  | trywait i =>
      simp only [serverStep, hpc] at h
      split at h <;> obtain rfl := Option.some.inj h <;> rfl
  | write i =>
      simp only [serverStep, hpc] at h
      split at h <;> obtain rfl := Option.some.inj h <;> rfl
  | handle =>
      simp only [serverStep, hpc, Option.some.injEq, handleStep] at h
      subst h
      split <;> rfl
  | exited => simp [serverStep, hpc] at h
  | _ =>
      simp only [serverStep, hpc, Option.some.injEq] at h
      subst h
      rfl

lemma turn_mainStep {c : ℕ} (h : mainStep cfg s c (s.client c) = some s') (nick : Nick) :
    ∃ t, s'.client = Function.update s.client c t ∧ (s.client c).Turn nick [] [] t := by
  cases hpc : (s.client c).mainPc with
  | waitConnect =>
      simp only [mainStep, hpc, Option.ite_none_right_eq_some, Option.some.injEq] at h
      obtain ⟨-, rfl⟩ := h
      exact ⟨_, rfl, .calm rfl rfl rfl Or.inr⟩
  | waitDisconnect =>
      simp only [mainStep, hpc, Option.ite_none_right_eq_some, Option.some.injEq] at h
      obtain ⟨-, rfl⟩ := h
      exact ⟨_, rfl, .calm rfl rfl rfl Or.inr⟩
  | writeConnect =>
      simp only [mainStep, hpc, Option.some.injEq] at h
      subst h
      exact ⟨_, rfl, .fills nick msgConnect rfl (by decide) rfl rfl rfl⟩
  | writeDisconnect =>
      simp only [mainStep, hpc, Option.some.injEq] at h
      subst h
      exact ⟨_, rfl, .fills nick msgDisconnect rfl (by decide) rfl rfl rfl⟩
  | ended => simp [mainStep, hpc] at h
  | _ =>
      simp only [mainStep, hpc, Option.some.injEq] at h
      subst h
      exact ⟨_, rfl, .calm rfl rfl rfl Or.inr⟩

lemma turn_receiveStep {c : ℕ} (h : receiveStep cfg s c (s.client c) = some s') (nick : Nick) :
    ∃ t, s'.client = Function.update s.client c t ∧ (s.client c).Turn nick [] [] t := by
  cases hpc : (s.client c).receivePc with
  | trywait =>
      simp only [receiveStep, hpc] at h
      split at h
      all_goals
        obtain rfl := Option.some.inj h
        exact ⟨_, rfl, .calm rfl rfl rfl Or.inr⟩
  | check =>
      simp only [receiveStep, hpc] at h
      split at h
      all_goals
        obtain rfl := Option.some.inj h
        exact ⟨_, rfl, .calm rfl rfl rfl Or.inr⟩
  | exited => simp [receiveStep, hpc] at h
  | _ =>
      simp only [receiveStep, hpc, Option.some.injEq] at h
      subst h
      exact ⟨_, rfl, .calm rfl rfl rfl Or.inr⟩

lemma turn_sendStep {c : ℕ} (h : sendStep cfg s c (s.client c) = some s') :
    ∃ t, s'.client = Function.update s.client c t ∧
      (s.client c).Turn (cfg.nick c) [] (putNow cfg c s (.send c) s') t := by
  have hquiet : (s.client c).sendPc ≠ .write → putNow cfg c s (.send c) s' = [] :=
    fun hne => if_neg fun hboth => hne hboth.2
  cases hpc : (s.client c).sendPc with
  | head =>
      rw [hquiet (by simp [hpc])]
      simp only [sendStep, hpc, Option.some.injEq] at h
      subst h
      refine ⟨_, rfl, .calm rfl rfl rfl ?_⟩
      cases (s.client c).stopThreads <;> simp [SendPc.near]
  | test =>
      rw [hquiet (by simp [hpc])]
      simp only [sendStep, hpc, Option.some.injEq] at h
      subst h
      refine ⟨_, rfl, .calm rfl rfl rfl ?_⟩
      cases (s.client c).scanfFlag <;> simp [SendPc.near]
  | trywait =>
      rw [hquiet (by simp [hpc])]
      simp only [sendStep, hpc] at h
      split at h
      all_goals
        obtain rfl := Option.some.inj h
        exact ⟨_, rfl, .calm rfl rfl rfl fun _ => Or.inr (by rw [hpc]; rfl)⟩
  | write =>
      simp only [sendStep, hpc, Option.some.injEq] at h
      subst h
      refine ⟨_, rfl, ?_⟩
      rw [putNow, if_pos ⟨rfl, hpc⟩]
      simp only [State.setClient, State.setShmem, Function.update_self]
      exact .writes hpc rfl
  | post =>
      rw [hquiet (by simp [hpc])]
      simp only [sendStep, hpc, Option.some.injEq] at h
      subst h
      exact ⟨_, rfl, .calm rfl rfl rfl (by simp [SendPc.near])⟩
  | exited => simp [sendStep, hpc] at h

/-- What a step does to the message of process `c`. -/
lemma turn_of_step {a : Action} (h : step cfg s a = some s') (c : ℕ) :
    (s.client c).Turn (cfg.nick c) (typed c [a]) (putNow cfg c s a s') (s'.client c) := by
  have hsame : ∀ {d : ℕ} {t : Client}, c ≠ d → s'.client = Function.update s.client d t →
      (s.client c).Turn (cfg.nick c) [] [] (s'.client c) := by
    intro d t hne hclient
    rw [hclient, Function.update_of_ne hne]
    exact .same _ _
  cases a with
  | server k =>
      obtain ⟨-, h⟩ := Option.ite_none_right_eq_some.mp h
      rw [serverStep_client h]
      exact .same _ _
  | main d =>
      obtain ⟨t, hclient, hturn⟩ := turn_mainStep h (cfg.nick c)
      by_cases hd : c = d
      · subst hd
        rw [hclient, Function.update_self]
        exact hturn
      · exact hsame hd hclient
  | send d =>
      obtain ⟨t, hclient, hturn⟩ := turn_sendStep h
      by_cases hd : c = d
      · subst hd
        rw [hclient, Function.update_self]
        exact hturn
      · rw [putNow, if_neg fun hboth => hd hboth.1.symm]
        exact hsame hd hclient
  | receive d =>
      obtain ⟨t, hclient, hturn⟩ := turn_receiveStep h (cfg.nick c)
      by_cases hd : c = d
      · subst hd
        rw [hclient, Function.update_self]
        exact hturn
      · exact hsame hd hclient
  | type d word =>
      obtain ⟨hflag, h⟩ := Option.ite_none_left_eq_some.mp h
      obtain rfl := Option.some.inj h
      by_cases hd : c = d
      · subst hd
        have htyped : typed c [.type c word] = [word.bytes] := by simp [typed]
        rw [htyped]
        exact .types word (by simpa using hflag) (by simp [State.setClient])
      · have htyped : typed c [.type d word] = [] := by simp [typed, Ne.symm hd]
        rw [htyped]
        exact hsame hd rfl
  | interrupt d =>
      obtain rfl := Option.some.inj h
      by_cases hd : c = d
      · subst hd
        simp only [State.setClient, Function.update_self]
        exact .calm rfl rfl rfl Or.inr
      · exact hsame hd rfl
  | stop =>
      obtain rfl := Option.some.inj h
      exact .same _ _

/-! ## What a client has in hand -/

/-- `msg_out` is zero behind the bytes the send thread copies, and the thread goes for the
segment only with a typed text. -/
structure Client.Clean (t : Client) : Prop where
  out : t.msgOut.msgBuff.drop (msgBuffSize - idClientSize) = List.replicate idClientSize 0
  typed : t.scanfFlag = true → ∃ word : Typed, t.msgScanf = word.bytes
  ready : t.sendPc.near = true → t.scanfFlag = true

/-- The text a client has typed and not sent. -/
def Client.inHand (t : Client) : List (List UInt8) := if t.scanfFlag then [t.msgScanf] else []

lemma clean_init (c : ℕ) : (init.client c).Clean := by
  refine ⟨?_, ?_, ?_⟩ <;> simp [init, StructMsg.zero, msgBuffSize, idClientSize, SendPc.near]

variable {t t' : Client} {nick : Nick} {words : List (List UInt8)} {msgs : List StructMsg}

lemma Client.Turn.clean (h : t.Turn nick words msgs t') (hclean : t.Clean) : t'.Clean := by
  cases h with
  | calm hout hscanf hflag hnear =>
      refine ⟨hout.trans hclean.out, fun hf => ?_, fun hn => hflag.trans ?_⟩
      · rw [hscanf]
        exact hclean.typed (hflag ▸ hf)
      · exact (hnear hn).elim id hclean.ready
  | types word hflag ht =>
      subst ht
      exact ⟨hclean.out, fun _ => ⟨word, rfl⟩, fun _ => rfl⟩
  | writes hpc ht =>
      subst ht
      refine ⟨?_, by simp, by simp [SendPc.near]⟩
      simp [StructMsg.zero, msgBuffSize, idClientSize]

/-- What is put are texts that were typed, and the one in hand is what is left. -/
lemma Client.Turn.puts (h : t.Turn nick words msgs t') (hclean : t.Clean) :
    ∃ sent, t.inHand ++ words = sent ++ t'.inHand ∧ msgs = sent.map (.clipped nick) := by
  cases h with
  | calm hout hscanf hflag hnear =>
      refine ⟨[], ?_, rfl⟩
      rw [Client.inHand, Client.inHand, hscanf, hflag, List.append_nil, List.nil_append]
  | types word hflag ht =>
      subst ht
      refine ⟨[], ?_, rfl⟩
      simp [Client.inHand, hflag]
  | writes hpc ht =>
      subst ht
      have hflag : t.scanfFlag = true := hclean.ready (by rw [hpc]; rfl)
      obtain ⟨word, hword⟩ := hclean.typed hflag
      refine ⟨[word.bytes], ?_, ?_⟩
      · simp [Client.inHand, hflag, hword]
      · rw [hword, chatMsg_eq hclean.out, List.map_singleton]

/-! ## The messages of a run -/

lemma typed_cons (c : ℕ) (a : Action) (as : List Action) :
    typed c (a :: as) = typed c [a] ++ typed c as := by
  rw [typed, typed, typed, ← List.filterMap_append, List.singleton_append]

/-- In a run the send thread puts the texts typed, one by one, as far as they are copied. -/
theorem puts_of_exec {as : List Action} (h : exec (step cfg) s as = some s') (c : ℕ)
    (hclean : (s.client c).Clean) : ∃ sent,
      (s.client c).inHand ++ typed c as = sent ++ (s'.client c).inHand ∧
      puts cfg c s as = sent.map (.clipped (cfg.nick c)) := by
  induction as generalizing s with
  | nil =>
      obtain rfl : s = s' := by simpa using h
      exact ⟨[], by simp [typed], rfl⟩
  | cons a as ih =>
      obtain ⟨u, hu, hrest⟩ := Option.bind_eq_some_iff.mp h
      have hturn := turn_of_step hu c
      obtain ⟨first, hfirst, hnow⟩ := hturn.puts hclean
      obtain ⟨later, hlater, hputs⟩ := ih hrest (hturn.clean hclean)
      refine ⟨first ++ later, ?_, ?_⟩
      · rw [typed_cons, ← List.append_assoc, hfirst, List.append_assoc, hlater, List.append_assoc]
      · simp only [puts, hu, hnow, hputs, List.map_append]

/-- Typed texts are the ones `scanf` reads. -/
lemma exists_word_of_typed {c : ℕ} {as : List Action} {text : List UInt8} (h : text ∈ typed c as) :
    ∃ word : Typed, text = word.bytes := by
  obtain ⟨a, -, ha⟩ := List.mem_filterMap.mp h
  cases a with
  | type d word =>
      obtain ⟨-, htext⟩ := Option.ite_none_right_eq_some.mp ha
      exact ⟨word, (Option.some.inj htext).symm⟩
  | _ => simp at ha

/-- The texts typed at process `c` that its send thread has put into the segment. -/
def sentTexts (cfg : Config) (c : ℕ) (as : List Action) : List (List UInt8) :=
  (typed c as).take (puts cfg c init as).length

/-- **What is put into the segment.**  In every run the send thread's messages are the texts
typed, in that order, each whole behind the name, if and only if name and text of each of them
fit the bytes that are copied. -/
theorem whole_iff {as : List Action} (h : exec (step cfg) init as = some s) (c : ℕ) :
    puts cfg c init as = (sentTexts cfg c as).map (.whole (cfg.nick c)) ↔
      ∀ text ∈ sentTexts cfg c as,
        (cfg.nick c).bytes.length + text.length ≤ msgBuffSize - idClientSize := by
  obtain ⟨sent, htyped, hputs⟩ := puts_of_exec h c (clean_init c)
  have hempty : (init.client c).inHand = [] := rfl
  rw [hempty, List.nil_append] at htyped
  have hsent : sentTexts cfg c as = sent := by
    rw [sentTexts, hputs, List.length_map, htyped, List.take_left]
  rw [hsent, hputs, List.map_inj_left]
  refine forall₂_congr fun text htext => ?_
  have hin : text ∈ typed c as := by
    rw [htyped]
    exact List.mem_append_left _ htext
  obtain ⟨word, rfl⟩ := exists_word_of_typed hin
  exact clipped_eq_whole_iff (cfg.nick c) word

/-- A short word is sent whole. -/
theorem whole_iff_word_hi : puts twoClients 0 init wordTaken =
    (sentTexts twoClients 0 wordTaken).map (.whole (twoClients.nick 0)) := by
  have hrun : (exec (step twoClients) init wordTaken).isSome = true := by decide +kernel
  have hfits : ∀ text ∈ sentTexts twoClients 0 wordTaken,
      (twoClients.nick 0).bytes.length + text.length ≤ msgBuffSize - idClientSize := by
    decide +kernel
  obtain ⟨s, hs⟩ := Option.isSome_iff_exists.mp hrun
  exact (whole_iff hs 0).mpr hfits

/-- A client with a name of 31 bytes. -/
def longName : Config where
  maxClients := 1
  slot := id
  nick := fun _ => ⟨List.replicate 31 109, by decide, by decide⟩
  pid := fun _ => 7

/-- A text of 95 bytes. -/
def longWord : Typed where
  bytes := List.replicate 95 104
  nonempty := by decide
  noNul := by simp
  noSpace := fun c hc => by
    rw [List.eq_of_mem_replicate hc]
    rfl
  fits := by decide

/-- The end of a long text is not sent. -/
theorem long_text_is_cut :
    ¬ ∀ (cfg : Config) (as : List Action) (s : State), exec (step cfg) init as = some s →
      ∀ c, puts cfg c init as = (sentTexts cfg c as).map (.whole (cfg.nick c)) := by
  intro hclaim
  have hrun : (exec (step longName) init
      (.type 0 longWord :: List.replicate 4 (.send 0))).isSome = true := by decide +kernel
  have hputs : puts longName 0 init (.type 0 longWord :: List.replicate 4 (.send 0)) ≠
      (sentTexts longName 0 (.type 0 longWord :: List.replicate 4 (.send 0))).map
        (.whole (longName.nick 0)) := by decide +kernel
  obtain ⟨s, hs⟩ := Option.isSome_iff_exists.mp hrun
  exact hputs (hclaim longName _ s hs 0)

end Exclusion
end ShmemChat
end EltSummer
