import EltSummer.Framework.Decimal
import EltSummer.Framework.Loop

/-!
# The names in the shared-memory chat

The server names its segments and semaphores by their numbers, two to a client, and the client
puts the same names together from the number it is started with.  Both print a number into a
buffer of two bytes first, which takes one digit and its NUL: with five clients the last
number is 9, and with six there is a 10 (`agree_iff`).

A name is a block of `NAME_SHMEM_SEM_SIZE` zeros to begin with, and what the buffers on the
stack hold is arbitrary.  Every write of the string functions is checked against its block.
-/

namespace EltSummer
namespace ShmemChat

open Block CString

/-- `NAME_SHMEM_SEM_SIZE`. -/
def nameShmemSemSize : ℕ := 16

/-- `START_SHMEM_NAME`, "/myshmem". -/
def startShmemName : List UInt8 := [47, 109, 121, 115, 104, 109, 101, 109]

/-- `START_SEMAPHORE_NAME`, "/mysem". -/
def startSemaphoreName : List UInt8 := [47, 109, 121, 115, 101, 109]

/-- A `char[2]` on the stack, with whatever it holds. -/
structure NumBuff where
  bytes : List UInt8
  length : bytes.length = 2

/-- A name before it is written: `calloc`, or a global. -/
def noName : List UInt8 := List.replicate nameShmemSemSize 0

/-- `sprintf(buff, "%d", n)`. -/
def sprintfNo (buff : List UInt8) (n : ℕ) : Option (List UInt8) :=
  writeAt buff 0 (decimal n ++ [0])

/-! ## The server -/

/-- The locals of `main`: the buffers, and the names so far. -/
structure ServerNames where
  noShmemBuff : List UInt8
  noSemBuff : List UInt8
  shmemNames : List (List UInt8)
  semNames : List (List UInt8)
  deriving DecidableEq

/-- One name: `calloc`, `strcpy`, `sprintf`, `strcat`, and the `memset` of the buffer. -/
def serverName (startName buff : List UInt8) (i : ℕ) : Option (List UInt8 × List UInt8) := do
  let name ← strcpy noName startName
  let buff ← sprintfNo buff i
  let no ← stringAt buff 0
  let name ← CString.strcat name no
  let buff ← writeAt buff 0 (List.replicate no.length 0)
  some (name, buff)

/-- The body of the loop. -/
def nameTurn (i : ℕ) (s : ServerNames) : Option ServerNames := do
  let (shmemName, noShmemBuff) ← serverName startShmemName s.noShmemBuff i
  let (semName, noSemBuff) ← serverName startSemaphoreName s.noSemBuff i
  some ⟨noShmemBuff, noSemBuff, s.shmemNames ++ [shmemName], s.semNames ++ [semName]⟩

/-- `for (int i = 0; i < max_clients * 2; i++)`. -/
def serverNames (maxClients : ℕ) (noShmemBuff noSemBuff : NumBuff) : Option ServerNames :=
  Loop.forUpTo (maxClients * 2) nameTurn ⟨noShmemBuff.bytes, noSemBuff.bytes, [], []⟩

/-- `num_in` of `func_thread_client`: where its thread receives. -/
def threadNumIn (argNum : ℕ) : ℕ := argNum * 2

/-- `num_out`: where it sends. -/
def threadNumOut (argNum : ℕ) : ℕ := argNum * 2 + 1

/-! ## The client -/

/-- The names a client opens. -/
structure ClientNames where
  shmemNameIn : List UInt8
  shmemNameOut : List UInt8
  semNameIn : List UInt8
  semNameOut : List UInt8
  deriving DecidableEq

/-- The names in the client's `main`; `no` is `atoi(argv[1])`. -/
def clientNames (no : ℕ) (bufNumIn bufNumOut : NumBuff) : Option ClientNames := do
  let numIn := no * 2 + 1
  let numOut := no * 2
  let bufNumIn ← sprintfNo bufNumIn.bytes numIn
  let bufNumOut ← sprintfNo bufNumOut.bytes numOut
  let shmemNameIn ← strcpy noName startShmemName
  let shmemNameOut ← strcpy noName startShmemName
  let semNameIn ← strcpy noName startSemaphoreName
  let semNameOut ← strcpy noName startSemaphoreName
  let noIn ← stringAt bufNumIn 0
  let noOut ← stringAt bufNumOut 0
  let shmemNameIn ← CString.strcat shmemNameIn noIn
  let shmemNameOut ← CString.strcat shmemNameOut noOut
  let semNameIn ← CString.strcat semNameIn noIn
  let semNameOut ← CString.strcat semNameOut noOut
  some ⟨shmemNameIn, shmemNameOut, semNameIn, semNameOut⟩

/-! ## Agreement -/

/-- The names in a table, as strings. -/
def texts (names : List (List UInt8)) : List (Option (List UInt8)) :=
  names.map fun name => stringAt name 0

/-- A table of `n` strings, no two of them the same. -/
structure Distinct (n : ℕ) (names : List (List UInt8)) : Prop where
  length : names.length = n
  strings : ∀ t ∈ texts names, t.isSome
  nodup : (texts names).Nodup

/-- What client `k` sends by, `func_thread_client` of `k` receives by, and the other way
round. -/
structure Meets (s : ServerNames) (k : ℕ) (c : ClientNames) : Prop where
  shmemOut : (texts s.shmemNames)[threadNumIn k]? = some (stringAt c.shmemNameOut 0)
  shmemIn : (texts s.shmemNames)[threadNumOut k]? = some (stringAt c.shmemNameIn 0)
  semOut : (texts s.semNames)[threadNumIn k]? = some (stringAt c.semNameOut 0)
  semIn : (texts s.semNames)[threadNumOut k]? = some (stringAt c.semNameIn 0)

/-- All names can be written, no two are the same, and server and clients agree on them. -/
def Agree (maxClients : ℕ) (noShmemBuff noSemBuff : NumBuff) (bufNumIn bufNumOut : ℕ → NumBuff) :
    Prop :=
  ∃ s, serverNames maxClients noShmemBuff noSemBuff = some s ∧
    Distinct (maxClients * 2) s.shmemNames ∧ Distinct (maxClients * 2) s.semNames ∧
    ∀ k < maxClients, ∃ c, clientNames k (bufNumIn k) (bufNumOut k) = some c ∧ Meets s k c

/-! ## One name -/

/-- The name with number `i`. -/
def nameOf (startName : List UInt8) (i : ℕ) : List UInt8 := startName ++ decimal i

variable {buff startName : List UInt8} {i n : ℕ}

lemma zero_notMem_startName :
    0 ∉ startShmemName ∧ 0 ∉ startSemaphoreName := by decide

lemma length_decimal_of_lt (hi : i < 10) : (decimal i).length ≤ 1 :=
  (length_decimal_le_iff (by decide)).mpr (by simpa using hi)

/-- A digit and its NUL fit the buffer. -/
lemma exists_sprintfNo (hbuff : buff.length = 2) (hi : i < 10) :
    ∃ b, sprintfNo buff i = some b ∧ b.length = 2 ∧ stringAt b 0 = some (decimal i) := by
  have hdigit := length_decimal_of_lt hi
  have hroom : (decimal i).length < buff.length := by omega
  obtain ⟨b, hb, hlen, hread⟩ := exists_strcpy hroom (zero_notMem_decimal i)
  exact ⟨b, hb, by rw [hlen, hbuff], hread⟩

/-- Two digits and a NUL do not. -/
lemma sprintfNo_eq_none (hbuff : buff.length = 2) (hi : 10 ≤ i) : sprintfNo buff i = none := by
  have hdigits : ¬ (decimal i).length ≤ 1 := fun h => by
    have hlt := (length_decimal_le_iff (by decide)).mp h
    omega
  rw [sprintfNo, writeAt, if_neg]
  simp
  omega

/-- `strcpy` and `strcat` of one name. -/
lemma exists_name (hstart : 0 ∉ startName) (hlen : startName.length ≤ 8) (hi : i < 10) :
    ∃ a b, strcpy noName startName = some a ∧ CString.strcat a (decimal i) = some b ∧
      stringAt b 0 = some (nameOf startName i) := by
  have hdigit := length_decimal_of_lt hi
  have hsize : noName.length = 16 := by simp [noName, nameShmemSemSize]
  have hroom : startName.length < noName.length := by omega
  obtain ⟨a, ha, halen, hread⟩ := exists_strcpy hroom hstart
  obtain ⟨b, hb, -, hread'⟩ := exists_strcat hread (s := decimal i) (by omega)
    (zero_notMem_decimal i)
  exact ⟨a, b, ha, hb, hread'⟩

lemma exists_serverName (hbuff : buff.length = 2) (hstart : 0 ∉ startName)
    (hlen : startName.length ≤ 8) (hi : i < 10) :
    ∃ name b, serverName startName buff i = some (name, b) ∧ b.length = 2 ∧
      stringAt name 0 = some (nameOf startName i) := by
  have hdigit := length_decimal_of_lt hi
  obtain ⟨a, name, ha, hname, hread⟩ := exists_name hstart hlen hi
  obtain ⟨b, hb, hblen, hno⟩ := exists_sprintfNo hbuff hi
  obtain ⟨b', hb'⟩ : ∃ b', writeAt b 0 (List.replicate (decimal i).length 0) = some b' :=
    ⟨_, writeAt_eq_some.mpr ⟨by simp; omega, rfl⟩⟩
  refine ⟨name, b', ?_, by rw [length_writeAt hb', hblen], hread⟩
  simp only [serverName, ha, hb, hno, hname, hb', Option.bind_eq_bind, Option.bind_some]

/-! ## All names -/

/-- The names below `i` are written. -/
structure Named (i : ℕ) (s : ServerNames) : Prop where
  noShmemBuff : s.noShmemBuff.length = 2
  noSemBuff : s.noSemBuff.length = 2
  shmemNames : texts s.shmemNames = (List.range i).map fun j => some (nameOf startShmemName j)
  semNames : texts s.semNames = (List.range i).map fun j => some (nameOf startSemaphoreName j)

lemma Named.turn {s : ServerNames} (h : Named i s) (hi : i < 10) :
    ∃ t, nameTurn i s = some t ∧ Named (i + 1) t := by
  obtain ⟨hshmem, hsem⟩ := zero_notMem_startName
  obtain ⟨name, b, hname, hb, hread⟩ := exists_serverName h.noShmemBuff hshmem (by decide) hi
  obtain ⟨name', b', hname', hb', hread'⟩ := exists_serverName h.noSemBuff hsem (by decide) hi
  refine ⟨⟨b, b', s.shmemNames ++ [name], s.semNames ++ [name']⟩, ?_, ⟨hb, hb', ?_, ?_⟩⟩
  · simp only [nameTurn, hname, hname', Option.bind_eq_bind, Option.bind_some]
  · rw [texts, List.map_append, ← texts, h.shmemNames, List.range_succ, List.map_append]
    simp [hread]
  · rw [texts, List.map_append, ← texts, h.semNames, List.range_succ, List.map_append]
    simp [hread']

lemma exists_named (noShmemBuff noSemBuff : NumBuff) (hn : n ≤ 10) :
    ∃ s, Loop.forUpTo n nameTurn ⟨noShmemBuff.bytes, noSemBuff.bytes, [], []⟩ = some s ∧
      Named n s :=
  Loop.forUpTo_total ⟨noShmemBuff.length, noSemBuff.length, rfl, rfl⟩
    fun _ hi _ h => h.turn (by omega)

/-- The eleventh name is not written. -/
lemma serverNames_eq_none (noShmemBuff noSemBuff : NumBuff) (h : 10 < n) :
    Loop.forUpTo n nameTurn ⟨noShmemBuff.bytes, noSemBuff.bytes, [], []⟩ = none := by
  rw [Option.eq_none_iff_forall_ne_some]
  intro t ht
  obtain ⟨u, v, hu, hv⟩ := Loop.exists_turn ht h
  obtain ⟨s, hs, hnamed⟩ := exists_named noShmemBuff noSemBuff le_rfl
  obtain rfl := Option.some.inj (hs.symm.trans hu)
  have hnone : serverName startShmemName s.noShmemBuff 10 = none := by
    simp [serverName, sprintfNo_eq_none hnamed.noShmemBuff le_rfl]
  simp [nameTurn, hnone] at hv

lemma distinct_of_texts {names : List (List UInt8)}
    (h : texts names = (List.range n).map fun j => some (nameOf startName j)) :
    Distinct n names := by
  refine ⟨?_, ?_, ?_⟩
  · have hlen := congrArg List.length h
    simpa [texts] using hlen
  · rw [h]
    simp
  · rw [h]
    refine List.Nodup.map (fun i j hij => ?_) List.nodup_range
    exact decimal_inj.mp (List.append_cancel_left (Option.some.inj hij))

lemma exists_clientNames {k : ℕ} (bufNumIn bufNumOut : NumBuff) (hk : k < 5) :
    ∃ c, clientNames k bufNumIn bufNumOut = some c ∧
      stringAt c.shmemNameIn 0 = some (nameOf startShmemName (k * 2 + 1)) ∧
      stringAt c.shmemNameOut 0 = some (nameOf startShmemName (k * 2)) ∧
      stringAt c.semNameIn 0 = some (nameOf startSemaphoreName (k * 2 + 1)) ∧
      stringAt c.semNameOut 0 = some (nameOf startSemaphoreName (k * 2)) := by
  obtain ⟨hshmem, hsem⟩ := zero_notMem_startName
  have hin : k * 2 + 1 < 10 := by omega
  have hout : k * 2 < 10 := by omega
  obtain ⟨b, hb, -, hno⟩ := exists_sprintfNo bufNumIn.length hin
  obtain ⟨b', hb', -, hno'⟩ := exists_sprintfNo bufNumOut.length hout
  obtain ⟨a, shmemIn, ha, hshmemIn, hread₁⟩ := exists_name hshmem (by decide) hin
  obtain ⟨_, shmemOut, ha', hshmemOut, hread₂⟩ := exists_name hshmem (by decide) hout
  obtain ⟨c, semIn, hc, hsemIn, hread₃⟩ := exists_name hsem (by decide) hin
  obtain ⟨_, semOut, hc', hsemOut, hread₄⟩ := exists_name hsem (by decide) hout
  obtain rfl := Option.some.inj (ha.symm.trans ha')
  obtain rfl := Option.some.inj (hc.symm.trans hc')
  refine ⟨⟨shmemIn, shmemOut, semIn, semOut⟩, ?_, hread₁, hread₂, hread₃, hread₄⟩
  simp only [clientNames, hb, hb', ha, hc, hno, hno', hshmemIn, hshmemOut, hsemIn, hsemOut,
    Option.bind_eq_bind, Option.bind_some]

/-- **When the names can be written and agree**: exactly with five clients or fewer. -/
theorem agree_iff (maxClients : ℕ) (noShmemBuff noSemBuff : NumBuff)
    (bufNumIn bufNumOut : ℕ → NumBuff) :
    Agree maxClients noShmemBuff noSemBuff bufNumIn bufNumOut ↔ maxClients ≤ 5 := by
  constructor
  · rintro ⟨s, hs, -⟩
    by_contra hlarge
    rw [serverNames, serverNames_eq_none _ _ (by omega)] at hs
    cases hs
  · intro hmax
    obtain ⟨s, hs, hnamed⟩ :=
      exists_named noShmemBuff noSemBuff (show maxClients * 2 ≤ 10 by omega)
    refine ⟨s, hs, distinct_of_texts hnamed.shmemNames, distinct_of_texts hnamed.semNames,
      fun k hk => ?_⟩
    obtain ⟨c, hc, h₁, h₂, h₃, h₄⟩ :=
      exists_clientNames (bufNumIn k) (bufNumOut k) (show k < 5 by omega)
    have hin : threadNumIn k < maxClients * 2 := by
      rw [threadNumIn]
      omega
    have hout : threadNumOut k < maxClients * 2 := by
      rw [threadNumOut]
      omega
    refine ⟨c, hc, ?_, ?_, ?_, ?_⟩
    · rw [hnamed.shmemNames, h₂, List.getElem?_map, List.getElem?_range hin]
      rfl
    · rw [hnamed.shmemNames, h₁, List.getElem?_map, List.getElem?_range hout]
      rfl
    · rw [hnamed.semNames, h₄, List.getElem?_map, List.getElem?_range hin]
      rfl
    · rw [hnamed.semNames, h₃, List.getElem?_map, List.getElem?_range hout]
      rfl

/-- Six clients: the tenth number has two digits. -/
theorem six_clients_overrun :
    ¬ ∀ (maxClients : ℕ) (noShmemBuff noSemBuff : NumBuff) (bufNumIn bufNumOut : ℕ → NumBuff),
      1 ≤ maxClients → Agree maxClients noShmemBuff noSemBuff bufNumIn bufNumOut := by
  intro hclaim
  have hbuff : NumBuff := ⟨[0, 0], rfl⟩
  obtain ⟨s, hs, -⟩ := hclaim 6 hbuff hbuff (fun _ => hbuff) (fun _ => hbuff) (by decide)
  rw [serverNames, serverNames_eq_none _ _ (by decide)] at hs
  cases hs

end ShmemChat
end EltSummer
