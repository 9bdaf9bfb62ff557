import EltSummer.Framework.Block
import EltSummer.Framework.Turns

/-!
# The directory scan of the plugin calculator

`plugin_calc_and_simple_text_editor_5July/plugin_calc/calc_main.c`: `main` reads the directory of
the plugins and keeps, in an array of `COUNT_FILENAMES` pointers, where the names of the regular
files that begin with "lib" stand.  The array is not asked whether it is full, and the names
stand in storage of the directory stream, which the next `readdir` may write over: the names are
there in the end if they are at most fifty and the stream has left them alone (`scans_iff`).

What `readdir` does with its storage is a parameter; all that is known of it is that an entry
can be read until the next call.  The stores into `filename` are checked.
-/

namespace EltSummer
namespace PluginCalc

open Block Turns

/-- `COUNT_FILENAMES`. -/
def countFilenames : ℕ := 50

/-- `DT_REG`. -/
def dtReg : ℕ := 8

/-- "lib". -/
def libPrefix : List UInt8 := [108, 105, 98]

/-- What `main` reads of a `struct dirent`; the name is a C string, without its NUL. -/
structure Dirent where
  dType : ℕ
  dName : List UInt8
  noNul : 0 ∉ dName

/-- A directory, as a stream returns it: the entry of each call, where its name stands, and what
the storage of the stream holds after that many further calls. -/
structure Dir where
  entries : List Dirent
  place : ℕ → ℕ
  storage : ℕ → ℕ → List UInt8
  readable : ∀ (i : ℕ) (e : Dirent), entries[i]? = some e → storage i (place i) = e.dName

/-- The calls of `readdir` so far, and the locals of `main`. -/
structure ScanState where
  calls : ℕ
  filename : List (Option ℕ)
  countValueFilenames : ℕ
  deriving DecidableEq, Repr

/-- Up to the `while`. -/
def scanStart : ScanState := ⟨0, List.replicate countFilenames none, 0⟩

/-- `d_type == DT_REG` and `strncmp("lib", d_name, 3) == 0`. -/
def Dirent.isLib (e : Dirent) : Bool := e.dType = dtReg && e.dName.take 3 = libPrefix

/-- One turn of `while ((cur_file = readdir(plugins_dir)) != NULL)`. -/
def scanTurn (d : Dir) (s : ScanState) : Option (Turn ScanState ScanState) :=
  match d.entries[s.calls]? with
  | none => some (.stop s)
  | some e =>
      if e.isLib then
        (store s.filename s.countValueFilenames (some (d.place s.calls))).map fun filename =>
          .next ⟨s.calls + 1, filename, s.countValueFilenames + 1⟩
      else some (.next { s with calls := s.calls + 1 })

/-- The calls below `n` that return a file with "lib". -/
def libsBelow (d : Dir) (n : ℕ) : List ℕ :=
  (List.range n).filter fun i => d.entries[i]?.any Dirent.isLib

/-- All of them. -/
def Dir.libs (d : Dir) : List ℕ := libsBelow d d.entries.length

/-- The name `readdir` has returned with call `i` is still there behind the last call. -/
def Dir.Kept (d : Dir) (i : ℕ) : Prop :=
  ∀ e, d.entries[i]? = some e → d.storage d.entries.length (d.place i) = e.dName

/-- After the loop the files are counted, and `filename[k]` is the name of the `k`-th. -/
def Scans (d : Dir) : Prop :=
  ∃ s, Ends (scanTurn d) scanStart s ∧ s.countValueFilenames = d.libs.length ∧
    ∀ k i : ℕ, d.libs[k]? = some i → ∃ p, ∃ e : Dirent, s.filename[k]? = some (some p) ∧
      d.entries[i]? = some e ∧ d.storage d.entries.length p = e.dName

/-! ## The loop -/

/-- The state after `n` calls that returned an entry. -/
structure Scanned (d : Dir) (n : ℕ) (s : ScanState) : Prop where
  calls : s.calls = n
  count : s.countValueFilenames = (libsBelow d n).length
  length : s.filename.length = countFilenames
  stored : s.filename.take (libsBelow d n).length =
    (libsBelow d n).map fun i => some (d.place i)

variable {d : Dir} {n : ℕ} {s : ScanState}

lemma libsBelow_succ (d : Dir) (n : ℕ) :
    libsBelow d (n + 1) =
      libsBelow d n ++ if d.entries[n]?.any Dirent.isLib = true then [n] else [] := by
  rw [libsBelow, List.range_succ, List.filter_append, List.filter_singleton, libsBelow, cond_eq_ite]

lemma scanned_start (d : Dir) : Scanned d 0 scanStart :=
  ⟨rfl, rfl, by simp [scanStart], rfl⟩

/-- A turn with room for a name, or without a name to store. -/
lemma Scanned.turn (h : Scanned d n s) (hn : n < d.entries.length)
    (hroom : (libsBelow d (n + 1)).length ≤ countFilenames) :
    ∃ s', scanTurn d s = some (.next s') ∧ Scanned d (n + 1) s' := by
  have hentry : d.entries[n]? = some d.entries[n] := List.getElem?_eq_getElem hn
  have hsucc := libsBelow_succ d n
  rw [hentry, Option.any_some] at hsucc
  rw [scanTurn, h.calls, hentry]
  dsimp only
  split
  · rename_i hlib
    rw [if_pos hlib] at hsucc
    rw [hsucc, List.length_append, List.length_singleton] at hroom
    have hlt : (libsBelow d n).length < s.filename.length := by
      rw [h.length]
      omega
    refine ⟨_, by rw [h.count, store_natCast hlt, Option.map_some], ⟨rfl, ?_, ?_, ?_⟩⟩
    · rw [hsucc, List.length_append, List.length_singleton]
    · rw [List.length_set, h.length]
    · rw [hsucc, List.length_append, List.length_singleton, take_set_length hlt, h.stored,
        List.map_append]
      rfl
  · rename_i hlib
    rw [if_neg hlib, List.append_nil] at hsucc
    exact ⟨_, rfl, ⟨rfl, by rw [hsucc, h.count], h.length, by rw [hsucc, h.stored]⟩⟩

/-- A turn with a name to store, and the array full. -/
lemma Scanned.turn_eq_none (h : Scanned d n s) (hn : n < d.entries.length)
    (hfull : (libsBelow d n).length = countFilenames)
    (hmore : countFilenames < (libsBelow d (n + 1)).length) : scanTurn d s = none := by
  have hentry : d.entries[n]? = some d.entries[n] := List.getElem?_eq_getElem hn
  have hsucc := libsBelow_succ d n
  rw [hentry, Option.any_some] at hsucc
  rw [scanTurn, h.calls, hentry]
  dsimp only
  split
  · rw [h.count, hfull, store_eq_none h.length.le, Option.map_none]
  · rename_i hlib
    rw [hsucc, if_neg hlib, List.append_nil, hfull] at hmore
    omega

/-- The loop after `n` calls, while the names fit, and when they do not fit any more. -/
lemma scanned_or_fails (hn : n ≤ d.entries.length) :
    ((libsBelow d n).length ≤ countFilenames ∧
      ∃ s, Leads (scanTurn d) scanStart s ∧ Scanned d n s) ∨
    (countFilenames < (libsBelow d n).length ∧ Fails (scanTurn d) scanStart) := by
  induction n with
  | zero => exact Or.inl ⟨by simp [libsBelow], scanStart, .refl _, scanned_start d⟩
  | succ n ih =>
      have hgrow : (libsBelow d n).length ≤ (libsBelow d (n + 1)).length := by
        rw [libsBelow_succ, List.length_append]
        omega
      rcases ih (by omega) with ⟨hle, s, hleads, hscanned⟩ | ⟨hlt, hfails⟩
      · by_cases hroom : (libsBelow d (n + 1)).length ≤ countFilenames
        · obtain ⟨s', hturn, hscanned'⟩ := hscanned.turn (by omega) hroom
          exact Or.inl ⟨hroom, s', hleads.step hturn, hscanned'⟩
        · have hone : (libsBelow d (n + 1)).length ≤ (libsBelow d n).length + 1 := by
            rw [libsBelow_succ, List.length_append]
            split <;> simp
          have hnone := hscanned.turn_eq_none (by omega) (by omega) (by omega)
          exact Or.inr ⟨by omega, hleads.fails_iff.mpr (fails_of_none hnone)⟩
      · exact Or.inr ⟨by omega, hfails⟩

/-- How the loop ends when the names fit. -/
lemma exists_end (hfit : d.libs.length ≤ countFilenames) :
    ∃ s, Ends (scanTurn d) scanStart s ∧ Scanned d d.entries.length s := by
  rcases scanned_or_fails (d := d) le_rfl with ⟨-, s, hleads, hscanned⟩ | ⟨hlt, -⟩
  · have hstop : scanTurn d s = some (.stop s) := by
      rw [scanTurn, hscanned.calls, List.getElem?_eq_none le_rfl]
    exact ⟨s, hleads.ends_iff.mpr (ends_of_stop hstop), hscanned⟩
  · exact absurd hfit (not_le.mpr hlt)

lemma not_scans_of_lt (h : countFilenames < d.libs.length) : ¬ Scans d := by
  rintro ⟨s, hends, -⟩
  rcases scanned_or_fails (d := d) le_rfl with ⟨hle, -⟩ | ⟨-, hfails⟩
  · exact absurd hle (not_le.mpr h)
  · exact hends.not_fails hfails

/-- `filename[k]` is the place of the `k`-th name. -/
lemma Scanned.filename (h : Scanned d d.entries.length s) {k i : ℕ} (hk : d.libs[k]? = some i) :
    s.filename[k]? = some (some (d.place i)) := by
  have hlt : k < d.libs.length := (List.getElem?_eq_some_iff.mp hk).1
  have hstored := congrArg (·[k]?) h.stored
  simp only [List.getElem?_map, List.getElem?_take] at hstored
  rw [Dir.libs] at hk hlt
  rwa [if_pos hlt, hk] at hstored

/-- A scan that gets the names has found them where they were. -/
lemma kept_of_scans (hscans : Scans d) (hfit : d.libs.length ≤ countFilenames) :
    ∀ i ∈ d.libs, d.Kept i := by
  obtain ⟨s, hends, -, hnames⟩ := hscans
  obtain ⟨s', hends', hscanned⟩ := exists_end hfit
  obtain rfl := hends.unique hends'
  intro i hi e he
  obtain ⟨k, hk⟩ := List.mem_iff_getElem?.mp hi
  obtain ⟨p, e', hp, he', hname⟩ := hnames k i hk
  obtain rfl : d.place i = p := by simpa [hscanned.filename hk] using hp
  obtain rfl := Option.some.inj (he.symm.trans he')
  exact hname

lemma scans_of_kept (hfit : d.libs.length ≤ countFilenames) (hkept : ∀ i ∈ d.libs, d.Kept i) :
    Scans d := by
  obtain ⟨s, hends, hscanned⟩ := exists_end hfit
  refine ⟨s, hends, hscanned.count, fun k i hk => ?_⟩
  have hi : i ∈ d.libs := List.mem_iff_getElem?.mpr ⟨k, hk⟩
  have hlt : i < d.entries.length := List.mem_range.mp (List.mem_filter.mp hi).1
  have he : d.entries[i]? = some d.entries[i] := List.getElem?_eq_getElem hlt
  exact ⟨d.place i, d.entries[i], hscanned.filename hk, he, hkept i hi _ he⟩

/-- **When the scan gets the names**: exactly when there are at most fifty, and the stream keeps
each of them until its last call. -/
theorem scans_iff (d : Dir) :
    Scans d ↔ d.libs.length ≤ countFilenames ∧ ∀ i ∈ d.libs, d.Kept i := by
  constructor
  · intro hscans
    have hfit : d.libs.length ≤ countFilenames := by
      by_contra hmore
      exact not_scans_of_lt (not_le.mp hmore) hscans
    exact ⟨hfit, kept_of_scans hscans hfit⟩
  · exact fun ⟨hfit, hkept⟩ => scans_of_kept hfit hkept

/-- "liba" and "libb". -/
def libA : Dirent := ⟨dtReg, [108, 105, 98, 97], by simp⟩

def libB : Dirent := ⟨dtReg, [108, 105, 98, 98], by simp⟩

/-- Two files, and a stream with one buffer for all its entries. -/
def oneBuffer : Dir where
  entries := [libA, libB]
  place := fun _ => 0
  storage := fun i _ => if i = 0 then libA.dName else libB.dName
  readable := by
    intro i e he
    match i, he with
    | 0, he => exact congrArg Dirent.dName (Option.some.inj he)
    | 1, he => exact congrArg Dirent.dName (Option.some.inj he)

/-- The second name is written over the first. -/
theorem one_buffer_loses_a_name : ¬ ∀ d : Dir, Scans d := by
  intro hclaim
  have hkept := kept_of_scans (hclaim oneBuffer) (by decide) 0 (by decide)
  exact absurd (hkept libA rfl) (by decide)

end PluginCalc
end EltSummer
