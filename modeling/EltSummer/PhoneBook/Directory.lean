import EltSummer.Framework.Simulation
import EltSummer.PhoneBook.Adding
import EltSummer.PhoneBook.Removing

/-!
# What the phone book is for

A `Directory` is a list of cards, each with three texts that fit their fields and a mark that
says whether the card is occupied.  Adding fills the first free card, removing frees all cards
of a last name and leaves what is written on them, showing reads the occupied cards and
searching all cards of a last name.  `Catalogue` has the sessions: what is saved, and the
directory of the program that runs.

As long as words fit their fields and places are left, the program with its bytes is the
catalogue (`book_refines`).  So an entry that is added stays: until its last name is removed or
a new book is created, every session shows it (`entry_stays`).
-/

namespace EltSummer
namespace PhoneBook

open Interleaving Block CString Loop

/-! ## Directories -/

/-- A text that ends within its field. -/
structure Field where
  bytes : List UInt8
  noNul : 0 ∉ bytes
  fits : bytes.length < strSize

def Field.empty : Field := ⟨[], List.not_mem_nil, by decide⟩

lemma length_take_lt (bs : List UInt8) : (bs.take (strSize - 1)).length < strSize :=
  (List.length_take_le _ _).trans_lt (by decide)

/-- As much of a word as a field has place for. -/
def Field.ofToken (t : Token) : Field where
  bytes := t.bytes.take (strSize - 1)
  noNul h := t.noNul (List.mem_of_mem_take h)
  fits := length_take_lt t.bytes

/-- A record, as it is read. -/
structure Card where
  occupied : Bool
  lastName : Field
  firstName : Field
  phoneNumber : Field

def Card.blank : Card := ⟨false, .empty, .empty, .empty⟩

/-- The card of an entry. -/
def Card.ofEntry (e : Entry) : Card :=
  ⟨true, .ofToken e.lastName, .ofToken e.firstName, .ofToken e.phoneNumber⟩

/-- What is printed of a card. -/
def Card.texts (c : Card) : List UInt8 × List UInt8 × List UInt8 :=
  (c.lastName.bytes, c.firstName.bytes, c.phoneNumber.bytes)

abbrev Directory := List Card

/-- The place of the first free card, or the number of cards. -/
def Directory.firstFree (d : Directory) : ℕ := d.findIdx fun c => !c.occupied

def Directory.add (d : Directory) (c : Card) : Directory := d.set d.firstFree c

/-- The cards of a last name are freed. -/
def Directory.remove (d : Directory) (lastname : List UInt8) : Directory :=
  d.map fun c => if c.lastName.bytes = lastname then { c with occupied := false } else c

/-- The cards that are shown. -/
def Directory.shown (d : Directory) : List (List UInt8 × List UInt8 × List UInt8) :=
  (d.filter Card.occupied).map Card.texts

/-- The cards that are found. -/
def Directory.found (d : Directory) (lastname : List UInt8) :
    List (List UInt8 × List UInt8 × List UInt8) :=
  (d.filter fun c => c.lastName.bytes = lastname).map Card.texts

/-! ## Sessions -/

/-- What is saved, and the directory of the program that runs. -/
structure Catalogue where
  saved : Option Directory
  opened : Option (Phase × Directory)

/-- How many cards a session begins with. -/
def cardsFor : Option Directory → ℕ
  | none => memSize
  | some d => recordSize * d.length / (strSize * 3) + memSize

/-- The start of a session. -/
def Catalogue.begin (saved : Option Directory) (choice : FirstChoice) (opened : Bool) :
    Catalogue :=
  match choice, opened, saved with
  | .create, true, _ =>
      ⟨some (List.replicate memSize .blank),
        some (.top, List.replicate (cardsFor saved) .blank)⟩
  | .load, true, some d =>
      ⟨some d, some (.top, d ++ List.replicate (cardsFor saved - d.length) .blank)⟩
  | _, _, _ => ⟨saved, none⟩

/-- A change of the directory that is written to the file. -/
def Catalogue.write (c : Catalogue) (opened : Bool) (d : Directory) : Catalogue :=
  if opened then ⟨some d, some (.top, d)⟩ else ⟨c.saved, none⟩

/-- What the actions of the program do to directories. -/
def Catalogue.step (c : Catalogue) (a : Action) : Option Catalogue :=
  match c.opened, a with
  | none, .run choice opened => some (.begin c.saved choice opened)
  | some (.top, d), .turn _ _ => some ⟨c.saved, some (.menu, d)⟩
  | some (.menu, d), .add opened _ e => some (c.write opened (d.add (.ofEntry e)))
  | some (.menu, d), .remove opened lastname => some (c.write opened (d.remove lastname.bytes))
  | some (.menu, d), .output => some ⟨c.saved, some (.top, d)⟩
  | some (.menu, d), .search _ => some ⟨c.saved, some (.top, d)⟩
  | some _, .leave => some ⟨c.saved, none⟩
  | _, _ => none

/-- An action there is room for: words fit their fields, more places are left than the one at
which the program grows the book, and the first one of them has a number that is an `unsigned
short`. -/
def Catalogue.Room (c : Catalogue) : Action → Prop
  | .turn _ _ => ∀ o ∈ c.opened, o.2.countP Card.occupied + 1 ≠ o.2.length
  | .add _ _ e => FitsFields e ∧
      ∀ o ∈ c.opened, o.2.firstFree < o.2.length ∧ o.2.firstFree < 2 ^ 16
  | .remove _ lastname => lastname.bytes.length < strSize
  | .search lastname => lastname.bytes.length < strSize
  | _ => True

instance (e : Entry) : Decidable (FitsFields e) := inferInstanceAs (Decidable (_ ∧ _ ∧ _))

instance (c : Catalogue) : DecidablePred c.Room
  | .turn _ _ => inferInstanceAs (Decidable (∀ o ∈ c.opened, _))
  | .add _ _ _ => inferInstanceAs (Decidable (_ ∧ ∀ o ∈ c.opened, _))
  | .remove _ _ => inferInstanceAs (Decidable (_ < _))
  | .search _ => inferInstanceAs (Decidable (_ < _))
  | .run _ _ => .isTrue trivial
  | .output => .isTrue trivial
  | .leave => .isTrue trivial

/-! ## Records and cards -/

/-- The bytes of record `i` are those of a card, as far as they are read. -/
structure Holds (book : List UInt8) (i : ℕ) (c : Card) : Prop where
  flag : flagAt book i = some (if c.occupied then 1 else 0)
  lastName : stringAt book (lastNameOff i) = some c.lastName.bytes
  firstName : stringAt book (firstNameOff i) = some c.firstName.bytes
  phoneNumber : stringAt book (phoneNumberOff i) = some c.phoneNumber.bytes

/-- The bytes are those of the cards of a directory. -/
structure Represents (book : List UInt8) (d : Directory) : Prop where
  length : book.length = recordSize * d.length
  records : ∀ i c, d[i]? = some c → Holds book i c

variable {book book' : List UInt8} {d : Directory} {c : Card} {i : ℕ}

lemma Holds.printed (h : Holds book i c) : printed book i = some c.texts := by
  rw [PhoneBook.printed, h.lastName, h.firstName, h.phoneNumber]
  rfl

/-- A text is read within its field. -/
lemma stringAt_congr {t : Field} {off : ℕ} (h : stringAt book off = some t.bytes)
    (hsame : ∀ k < strSize, book'[off + k]? = book[off + k]?) :
    stringAt book' off = some t.bytes := by
  rw [stringAt_eq_some_iff_getElem?] at h ⊢
  refine ⟨h.1, fun k hk => ?_⟩
  rw [hsame k (hk.trans_lt t.fits)]
  exact h.2 k hk

/-- The texts lie in the first bytes of a record, and the flag behind them. -/
lemma Holds.of_texts {b : Bool} (h : Holds book i c)
    (hsame : ∀ k < 3 * strSize, book'[recordSize * i + k]? = book[recordSize * i + k]?)
    (hflag : flagAt book' i = some (if b then 1 else 0)) :
    Holds book' i { c with occupied := b } where
  flag := hflag
  lastName := stringAt_congr h.lastName fun k hk => hsame k (by simp only [strSize] at *; omega)
  firstName := stringAt_congr h.firstName fun k hk => by
    rw [firstNameOff, Nat.add_assoc]
    apply hsame
    simp only [strSize] at *
    omega
  phoneNumber := stringAt_congr h.phoneNumber fun k hk => by
    rw [phoneNumberOff, Nat.add_assoc]
    apply hsame
    simp only [strSize] at *
    omega

/-- A record whose bytes are kept is kept. -/
lemma Holds.congr (h : Holds book i c)
    (hsame : ∀ k < recordSize, book'[recordSize * i + k]? = book[recordSize * i + k]?) :
    Holds book' i c := by
  apply h.of_texts (b := c.occupied)
  · exact fun k hk => hsame k (by simp only [recordSize, strSize] at *; omega)
  · rw [flagAt, flagOff, hsame _ (by decide)]
    exact h.flag

/-- Zeros are free cards without text. -/
lemma holds_zeros (hzero : ∀ k < recordSize, book[recordSize * i + k]? = some 0) :
    Holds book i .blank := by
  have htext : ∀ off, recordSize * i ≤ off → off < recordSize * (i + 1) →
      stringAt book off = some [] := by
    intro off hlo hhi
    rw [stringAt_eq_some_iff_getElem?]
    refine ⟨List.not_mem_nil, fun k hk => ?_⟩
    obtain rfl := Nat.le_zero.mp hk
    obtain ⟨j, rfl⟩ := Nat.exists_eq_add_of_le hlo
    exact hzero j (by simp only [recordSize] at *; omega)
  refine ⟨?_, htext _ ?_ ?_, htext _ ?_ ?_, htext _ ?_ ?_⟩
  · exact hzero (3 * strSize) (by decide)
  all_goals
    simp only [lastNameOff, firstNameOff, phoneNumberOff, recordSize, strSize]
    omega

/-- Behind the file there are free cards. -/
lemma Represents.padded {file : List UInt8} {size : ℕ} (h : Represents file d)
    (hpad : Padded file book size) :
    Represents book (d ++ List.replicate (size - d.length) .blank) ∧
      (d ++ List.replicate (size - d.length) Card.blank).length = size := by
  obtain ⟨k, hbook⟩ := hpad.padding
  have hlen := hpad.length
  have hsize : d.length ≤ size := by
    have hle : file.length ≤ book.length := by
      rw [hbook, List.length_append]
      omega
    rw [h.length, hlen] at hle
    exact Nat.le_of_mul_le_mul_left hle (by decide)
  have hcount : (d ++ List.replicate (size - d.length) Card.blank).length = size := by
    rw [List.length_append, List.length_replicate]
    omega
  refine ⟨⟨by rw [hlen, hcount], fun i c hc => ?_⟩, hcount⟩
  by_cases hi : i < d.length
  · rw [List.getElem?_append_left hi] at hc
    apply (h.records i c hc).congr
    intro k hk
    rw [hbook, List.getElem?_append_left]
    rw [h.length]
    simp only [recordSize] at *
    omega
  · rw [List.getElem?_append_right (not_lt.mp hi), List.getElem?_replicate] at hc
    split at hc
    · rename_i hin
      obtain rfl := Option.some.inj hc
      apply holds_zeros
      intro j hj
      have hlo : file.length ≤ recordSize * i + j := by
        rw [h.length]
        simp only [recordSize]
        omega
      have hhi : recordSize * i + j < book.length := by
        rw [hlen]
        simp only [recordSize] at *
        omega
      exact (getElem?_padded hpad).2 hlo hhi
    · cases hc

/-! ## Looking -/

/-- A loop that selects by what stands on a card selects the cards. -/
lemma selected_eq {γ : Type*} (d : Directory) {test : ℕ → Option Bool} {f : ℕ → Option γ}
    {p : Card → Bool} {g : Card → γ} (htest : ∀ i c, d[i]? = some c → test i = some (p c))
    (hf : ∀ i c, d[i]? = some c → f i = some (g c)) :
    selected d.length test f = (d.filter p).map g := by
  have hfirst : ∀ n ≤ d.length, selected n test f = ((d.take n).filter p).map g := by
    intro n hn
    induction n with
    | zero => rfl
    | succ n ih =>
        have hc : d[n]? = some d[n] := List.getElem?_eq_getElem hn
        have hlast : selected (n + 1) test f =
            selected n test f ++ (if test n = some true then f n else none).toList := by
          unfold selected
          rw [List.range_succ, List.filterMap_append]
          cases h : (if test n = some true then f n else none) <;> simp [h]
        rw [hlast, ih (Nat.le_of_succ_le hn), List.take_add_one, hc, htest n _ hc, hf n _ hc,
          List.filter_append, List.map_append]
        congr 1
        cases hp : p d[n] <;> simp [hp]
  rw [hfirst d.length le_rfl, List.take_length]

lemma Represents.output (h : Represents book d) :
    outputBookOnDisplay book d.length = some d.shown := by
  have htest : ∀ i c, d[i]? = some c → isShown book i = some c.occupied := by
    intro i c hc
    rw [isShown, (h.records i c hc).flag, Option.map_some]
    cases c.occupied
    · rfl
    · rfl
  have htexts : ∀ i c, d[i]? = some c → printed book i = some c.texts :=
    fun i c hc => (h.records i c hc).printed
  rw [output_eq_some_iff, selected_eq d htest htexts]
  refine ⟨fun i hi => ?_, rfl⟩
  obtain ⟨c, hc⟩ : ∃ c, d[i]? = some c := ⟨_, List.getElem?_eq_getElem hi⟩
  rw [htest i c hc, htexts i c hc]
  cases c.occupied
  · exact Or.inl rfl
  · exact Or.inr ⟨rfl, rfl⟩

lemma Represents.search (h : Represents book d) {lastname : Token}
    (hfits : lastname.bytes.length < strSize) :
    searchStringWithLastname book d.length lastname = some (d.found lastname.bytes) := by
  have htexts : ∀ i c, d[i]? = some c → printed book i = some c.texts :=
    fun i c hc => (h.records i c hc).printed
  have htest : ∀ i c, d[i]? = some c →
      isFound book lastname i = some (decide (c.lastName.bytes = lastname.bytes)) := by
    intro i c hc
    rw [isFound_of_printed (htexts i c hc), Card.texts]
    congr 1
    exact decide_eq_decide.mpr eq_comm
  rw [search_eq_some_iff, selected_eq d htest htexts]
  refine ⟨hfits, fun i hi => ?_, rfl⟩
  obtain ⟨c, hc⟩ : ∃ c, d[i]? = some c := ⟨_, List.getElem?_eq_getElem hi⟩
  rw [htest i c hc, htexts i c hc]
  by_cases hname : c.lastName.bytes = lastname.bytes
  · exact Or.inr ⟨by rw [decide_eq_true hname], rfl⟩
  · exact Or.inl (by rw [decide_eq_false hname])

lemma Represents.count (h : Represents book d) :
    countOfUsingStrings book d.length = some (d.countP Card.occupied) := by
  have hfirst : ∀ n ≤ d.length, countOfUsingStrings book n =
      some ((d.take n).countP Card.occupied) := by
    intro n hn
    induction n with
    | zero => rfl
    | succ n ih =>
        have hc : d[n]? = some d[n] := List.getElem?_eq_getElem hn
        have hcount := ih (Nat.le_of_succ_le hn)
        unfold countOfUsingStrings at hcount ⊢
        rw [forUpTo_succ, hcount, Option.bind_some, (h.records n _ hc).flag, Option.map_some,
          List.take_add_one, hc, List.countP_append]
        cases hocc : d[n].occupied <;> simp [hocc]
  rw [hfirst d.length le_rfl, List.take_length]

/-! ## Changing -/

lemma Represents.findFree (h : Represents book d) (hfree : d.firstFree < d.length) :
    FirstFree book d.firstFree := by
  have hfound : ∀ k (hk : k < d.length), flagAt book k =
      some (if d[k].occupied then 1 else 0) :=
    fun k hk => (h.records k _ (List.getElem?_eq_getElem hk)).flag
  constructor
  · have hnot := List.findIdx_getElem (w := hfree)
    rw [hfound _ hfree]
    unfold Directory.firstFree at *
    simp only [Bool.not_eq_eq_eq_not, Bool.not_true] at hnot
    rw [hnot]
    rfl
  · intro k hk
    have hocc := List.not_of_lt_findIdx hk
    rw [hfound k (hk.trans hfree)]
    simpa using hocc

lemma bytes_ofToken {t : Token} (h : t.bytes.length < strSize) :
    (Field.ofToken t).bytes = t.bytes :=
  List.take_of_length_le (by omega)

/-- An entry stored into a record is its card. -/
lemma Represents.store (h : Represents book d) {e : Entry} (he : FitsFields e)
    (hstore : storeEntry book i e = some book') :
    Represents book' (d.set i (.ofEntry e)) := by
  refine ⟨by rw [length_storeEntry hstore, h.length, List.length_set], fun k c hc => ?_⟩
  by_cases hk : k = i
  · subst hk
    rw [List.getElem?_set_self'] at hc
    obtain ⟨_, -, hcard⟩ := Option.map_eq_some_iff.mp hc
    obtain rfl : Card.ofEntry e = c := hcard
    obtain ⟨hlast, hfirst, hphone⟩ := he
    refine ⟨flagAt_storeEntry_self hstore, ?_, ?_, ?_⟩
    · rw [Card.ofEntry, bytes_ofToken hlast]
      exact stringAt_of_stored fun j hj => getElem?_lastName hstore hj (by omega)
    · rw [Card.ofEntry, bytes_ofToken hfirst]
      exact stringAt_of_stored fun j hj => getElem?_firstName hstore hj (by omega)
    · rw [Card.ofEntry, bytes_ofToken hphone]
      exact stringAt_of_stored fun j hj => getElem?_phoneNumber hstore hj (by omega)
  · rw [List.getElem?_set_ne (Ne.symm hk)] at hc
    apply (h.records k c hc).congr
    intro j hj
    apply storeEntry_others he hstore
    simp only [recordSize] at *
    omega

/-- What a removal leaves is the cards of the name, freed. -/
lemma Represents.cleared (h : Represents book d) {lastname : Token}
    {s : List UInt8 × UInt16} (hs : Cleared book lastname d.length s) :
    Represents s.1 (d.remove lastname.bytes) := by
  refine ⟨by rw [hs.length, h.length, Directory.remove, List.length_map], fun i c hc => ?_⟩
  rw [Directory.remove, List.getElem?_map] at hc
  obtain ⟨c, hcard, rfl⟩ := Option.map_eq_some_iff.mp hc
  have hi : i < d.length := (List.getElem?_eq_some_iff.mp hcard).1
  have hholds := h.records i c hcard
  have htexts : ∀ k < 3 * strSize, s.1[recordSize * i + k]? = book[recordSize * i + k]? := by
    intro k hk
    apply hs.others
    intro j _ _
    simp only [flagOff, recordSize, strSize] at *
    omega
  split
  · rename_i hname
    apply hholds.of_texts (b := false) htexts
    apply hs.found i hi
    rw [Named, hholds.lastName, hname, decide_eq_true rfl]
  · rename_i hname
    apply hholds.of_texts (b := c.occupied) htexts
    rw [← hholds.flag]
    apply hs.others
    intro j hj hnamed heq
    have hij : i = j := by
      simp only [flagOff, recordSize] at heq
      omega
    subst hij
    rw [Named, hholds.lastName] at hnamed
    apply hname
    simpa using hnamed

/-! ## The program and the catalogue -/

/-- A session whose array is the directory. -/
structure Runs (s : Session) (o : Phase × Directory) : Prop where
  phase : s.phase = o.1
  size : s.sizeOfBook = o.2.length
  book : Represents s.phoneBook o.2

/-- The file is what is saved, and the program that runs has the directory in its array. -/
structure Sim (w : World) (c : Catalogue) : Prop where
  storage : Option.Rel Represents w.storage c.saved
  session : Option.Rel Runs w.session c.opened

lemma initialSize_eq {storage : Option (List UInt8)} {saved : Option Directory}
    (h : Option.Rel Represents storage saved) : initialSize storage = cardsFor saved := by
  cases h with
  | none => rfl
  | some hfile => rw [initialSize_some, hfile.length, cardsFor, strSize, memSize]

/-- A new array is the blank directory. -/
lemma represents_calloc (size : ℕ) :
    Represents (callocBook size) (List.replicate size .blank) := by
  refine ⟨by rw [length_callocBook, List.length_replicate], fun i c hc => ?_⟩
  rw [List.getElem?_replicate] at hc
  split at hc
  · rename_i hi
    obtain rfl := Option.some.inj hc
    apply holds_zeros
    intro k hk
    rw [callocBook, List.getElem?_replicate, if_pos]
    simp only [recordSize] at *
    omega
  · cases hc

/-- The start of a session. -/
lemma sim_begin {storage : Option (List UInt8)} {saved : Option Directory}
    (h : Option.Rel Represents storage saved) (choice : FirstChoice) (opened : Bool) :
    Option.Rel Sim (beginSession storage choice opened)
      (some (Catalogue.begin saved choice opened)) := by
  have hsize := initialSize_eq h
  cases opened with
  | false =>
      cases choice with
      | create => exact .some ⟨h, .none⟩
      | load => exact .some ⟨h, .none⟩
  | true =>
      cases choice with
      | create =>
          have hle : recordSize * memSize ≤ (callocBook (initialSize storage)).length := by
            rw [length_callocBook]
            exact Nat.mul_le_mul_left _ (memSize_le_initialSize storage)
          have hfile : createNewEmptyBook (callocBook (initialSize storage)) =
              some (callocBook memSize) := by
            rw [createNewEmptyBook, fwrite_eq_some]
            refine ⟨hle, ?_⟩
            rw [length_callocBook] at hle
            rw [callocBook, callocBook, List.take_replicate, min_eq_left hle]
          rw [beginSession, hfile, Option.map_some]
          refine .some ⟨.some (represents_calloc memSize), .some ⟨rfl, ?_, ?_⟩⟩
          · rw [List.length_replicate, ← hsize]
          · rw [← hsize]
            exact represents_calloc _
      | load =>
          cases h with
          | none => exact .some ⟨.none, .none⟩
          | some hfile =>
              rename_i file d
              obtain ⟨book, hbook⟩ := exists_load file
              obtain ⟨hrep, hlen⟩ := hfile.padded (padded_load hbook)
              rw [hsize] at hrep hlen
              rw [beginSession, hbook, Option.map_some]
              exact .some ⟨.some hfile, .some ⟨rfl, by rw [hlen, hsize], hrep⟩⟩

/-- A book that is written is the file. -/
lemma Represents.take (h : Represents book d) : book.take (recordSize * d.length) = book :=
  List.take_of_length_le h.length.le

lemma Represents.add (h : Represents book d) {e : Entry} (he : FitsFields e)
    (hfree : d.firstFree < d.length) (hshort : d.firstFree < 2 ^ 16) (uninit : UInt16) :
    ∃ book', addNewStringToBook book d.length uninit e = some (d.firstFree, book', book') ∧
      Represents book' (d.add (.ofEntry e)) := by
  obtain ⟨book', hstore⟩ := exists_storeEntry_of_fits h.length hfree he
  refine ⟨book', ?_, h.store he hstore⟩
  rw [addNewStringToBook_eq h.length hfree (h.findFree hfree), Nat.mod_eq_of_lt hshort, hstore]
  rfl

lemma Represents.remove (h : Represents book d) {lastname : Token}
    (hfits : lastname.bytes.length < strSize) :
    ∃ book' count, removeStringFromBook book d.length lastname = some (book', book', count) ∧
      Represents book' (d.remove lastname.bytes) := by
  have hfound : ∀ k < d.length, (isFound book lastname k).isSome := by
    intro k hk
    rw [isFound_of_printed (h.records k _ (List.getElem?_eq_getElem hk)).printed]
    rfl
  obtain ⟨⟨book', count⟩, hloop, hcleared⟩ := exists_cleared h.length hfound
  have hlen : book'.length = recordSize * d.length := hcleared.length.trans h.length
  refine ⟨book', count, ?_, h.cleared hcleared⟩
  rw [removeStringFromBook_eq_some_iff]
  refine ⟨hfits, hloop, ?_⟩
  rw [fwrite_eq_some]
  exact ⟨hlen.ge, (List.take_of_length_le hlen.le).symm⟩

/-- What is written to the file, and the end of the session if it cannot be. -/
lemma sim_write {w : World} {c : Catalogue} (h : Sim w c) {s : Session} (opened : Bool)
    (hbook : Represents book d) (hs : Runs s (.top, d)) :
    Sim (if opened then ⟨some book, some s⟩ else { w with session := none })
      (c.write opened d) := by
  cases opened with
  | true => exact ⟨.some hbook, .some hs⟩
  | false => exact ⟨h.storage, .none⟩

/-- An action that cannot be taken at the head of the `while`, and the two that can. -/
lemma sim_top {storage : Option (List UInt8)} {s : Session} {saved : Option Directory}
    {a : Action} (h : Sim ⟨storage, some s⟩ ⟨saved, some (.top, d)⟩) (hrun : Runs s (.top, d))
    (hroom : Catalogue.Room ⟨saved, some (.top, d)⟩ a) :
    Option.Rel Sim (step ⟨storage, some s⟩ a) (Catalogue.step ⟨saved, some (.top, d)⟩ a) := by
  obtain ⟨hphase, hsize, hbook⟩ := hrun
  dsimp only at hphase hsize hbook
  cases a with
  | turn inner fresh =>
      have hturn : turnTop s inner fresh = some { s with phase := .menu } := by
        rw [turnTop, hsize, hbook.count, Option.map_some, if_neg (hroom _ rfl), ← hsize]
      simp only [step, hphase, if_true, hturn, Option.map_some]
      exact .some ⟨h.storage, .some ⟨rfl, hsize, hbook⟩⟩
  | leave => exact .some ⟨h.storage, .none⟩
  | run choice opened => exact .none
  | add opened uninit e =>
      simp only [step, hphase, reduceCtorEq, if_false]
      exact .none
  | remove opened lastname =>
      simp only [step, hphase, reduceCtorEq, if_false]
      exact .none
  | output =>
      simp only [step, hphase, reduceCtorEq, if_false]
      exact .none
  | search lastname =>
      simp only [step, hphase, reduceCtorEq, if_false]
      exact .none

/-- The actions of the menu. -/
lemma sim_menu {storage : Option (List UInt8)} {s : Session} {saved : Option Directory}
    {a : Action} (h : Sim ⟨storage, some s⟩ ⟨saved, some (.menu, d)⟩) (hrun : Runs s (.menu, d))
    (hroom : Catalogue.Room ⟨saved, some (.menu, d)⟩ a) :
    Option.Rel Sim (step ⟨storage, some s⟩ a) (Catalogue.step ⟨saved, some (.menu, d)⟩ a) := by
  obtain ⟨hphase, hsize, hbook⟩ := hrun
  dsimp only at hphase hsize hbook
  have hlooked : Sim ⟨storage, some { s with phase := .top, sizeOfBook := d.length }⟩
      ⟨saved, some (.top, d)⟩ := ⟨h.storage, .some ⟨rfl, rfl, hbook⟩⟩
  cases a with
  | add opened uninit e =>
      obtain ⟨hfree, hshort⟩ := hroom.2 _ rfl
      obtain ⟨book', hadd, hbook'⟩ := hbook.add hroom.1 hfree hshort uninit
      simp only [step, hphase, if_true, hsize, hadd, Option.map_some]
      refine .some (sim_write h opened hbook' ⟨rfl, ?_, hbook'⟩)
      exact (List.length_set ..).symm
  | remove opened lastname =>
      obtain ⟨book', count, hremove, hbook'⟩ := hbook.remove hroom
      simp only [step, hphase, if_true, hsize, hremove, Option.map_some]
      refine .some (sim_write h opened hbook' ⟨rfl, ?_, hbook'⟩)
      exact (List.length_map ..).symm
  | output =>
      simp only [step, hphase, if_true, hsize, hbook.output, Option.map_some]
      exact .some hlooked
  | search lastname =>
      simp only [step, hphase, if_true, hsize, hbook.search hroom, Option.map_some]
      exact .some hlooked
  | leave => exact .some ⟨h.storage, .none⟩
  | run choice opened => exact .none
  | turn inner fresh =>
      simp only [step, hphase, reduceCtorEq, if_false]
      exact .none

/-- **An action.** -/
lemma sim_step : InStep step Catalogue.step Catalogue.Room Sim := by
  intro w c a h hroom
  obtain ⟨storage, session⟩ := w
  obtain ⟨saved, opened⟩ := c
  cases h.session with
  | none =>
      cases a with
      | run choice opened => exact sim_begin h.storage choice opened
      | turn inner fresh => exact .none
      | add opened uninit e => exact .none
      | remove opened lastname => exact .none
      | output => exact .none
      | search lastname => exact .none
      | leave => exact .none
  | some hrun =>
      rename_i s o
      obtain ⟨phase, d⟩ := o
      cases phase with
      | top => exact sim_top h hrun hroom
      | menu => exact sim_menu h hrun hroom

/-- What the program prints of its array is what stands on the cards. -/
structure Views (w : World) (c : Catalogue) : Prop where
  shown : ∀ s p d, w.session = some s → c.opened = some (p, d) →
    outputBookOnDisplay s.phoneBook s.sizeOfBook = some d.shown
  found : ∀ s p d (lastname : Token), w.session = some s → c.opened = some (p, d) →
    lastname.bytes.length < strSize →
      searchStringWithLastname s.phoneBook s.sizeOfBook lastname = some (d.found lastname.bytes)

lemma Sim.views {w : World} {c : Catalogue} (h : Sim w c) : Views w c := by
  have hsession : ∀ s p d, w.session = some s → c.opened = some (p, d) → Runs s (p, d) := by
    intro s p d hs hc
    have hrel := h.session
    rw [hs, hc] at hrel
    cases hrel with
    | some hrun => exact hrun
  constructor
  · intro s p d hs hc
    rw [(hsession s p d hs hc).size]
    exact (hsession s p d hs hc).book.output
  · intro s p d lastname hs hc hfits
    rw [(hsession s p d hs hc).size]
    exact (hsession s p d hs hc).book.search hfits

/-- **The program is the catalogue.**  Over any number of sessions, as long as there is room for
what is done, the program and the catalogue do the same, and end with the same cards in the file
and in memory; what the program shows and finds is what is shown and found of the cards. -/
theorem book_refines {storage : Option (List UInt8)} {saved : Option Directory}
    (h : Option.Rel Represents storage saved) {acts : List Action}
    (hroom : ∀ c a, Takes Catalogue.step ⟨saved, none⟩ acts c a → c.Room a) :
    Option.Rel (fun w c => Sim w c ∧ Views w c) (exec step ⟨storage, none⟩ acts)
      (exec Catalogue.step ⟨saved, none⟩ acts) := by
  apply rel_mono (sim_step.exec (s := ⟨storage, none⟩) ⟨h, .none⟩ hroom)
  exact fun w c hsim => ⟨hsim, hsim.views⟩

/-- A new book, two entries of one name, and a look: the removal frees them both. -/
theorem book_refines_removing_two :
    let acts : List Action := [.run .create true, .turn [] fun _ => 0, .add true 0 shortEntry,
      .turn [] fun _ => 0, .add true 0 shortEntry, .turn [] fun _ => 0,
      .remove true shortEntry.lastName]
    Option.Rel (fun w c => Sim w c ∧ Views w c) (exec step ⟨none, none⟩ acts)
      (exec Catalogue.step ⟨none, none⟩ acts) := by
  intro acts
  apply book_refines .none
  intro c a htakes
  have hguard : Guarded Catalogue.step Catalogue.Room ⟨none, none⟩ acts = true := by
    decide +kernel
  exact ok_of_guarded hguard htakes

/-! ## What becomes of an entry -/

/-- Neither creates a new book nor removes the entry's last name. -/
def Spares (e : Entry) : Action → Prop
  | .run .create opened => opened = false
  | .remove _ lastname => lastname.bytes ≠ e.lastName.bytes
  | _ => True

/-- The card is saved, and it is in the directory of the program that runs. -/
structure Keeps (c : Catalogue) (card : Card) : Prop where
  saved : ∃ d, c.saved = some d ∧ card ∈ d
  opened : ∀ o ∈ c.opened, card ∈ o.2

variable {card : Card}

/-- An occupied card is not written over. -/
lemma mem_add (hcard : card ∈ d) (hocc : card.occupied = true) (hfree : d.firstFree < d.length)
    (c : Card) : card ∈ d.add c := by
  obtain ⟨k, hk, rfl⟩ := List.getElem_of_mem hcard
  have hne : d.firstFree ≠ k := by
    intro heq
    have hnot := List.findIdx_getElem (w := hfree)
    unfold Directory.firstFree at heq
    simp only [heq, hocc, Bool.not_true, Bool.false_eq_true] at hnot
  apply List.mem_of_getElem?
  rw [Directory.add, List.getElem?_set_ne hne]
  exact List.getElem?_eq_getElem hk

/-- A card of another name is not freed. -/
lemma mem_remove (hcard : card ∈ d) {lastname : List UInt8}
    (hname : card.lastName.bytes ≠ lastname) : card ∈ d.remove lastname :=
  List.mem_map.mpr ⟨card, hcard, if_neg hname⟩

lemma Keeps.write {c : Catalogue} (h : Keeps c card) (opened : Bool) (hd : card ∈ d) :
    Keeps (c.write opened d) card := by
  cases opened with
  | true =>
      refine ⟨⟨d, rfl, hd⟩, fun o ho => ?_⟩
      obtain rfl := Option.some.inj ho
      exact hd
  | false => exact ⟨h.saved, nofun⟩

lemma Keeps.begin {saved : Option Directory} {e : Entry} {choice : FirstChoice} {opened : Bool}
    (h : Keeps ⟨saved, none⟩ (.ofEntry e)) (hspares : Spares e (.run choice opened)) :
    Keeps (.begin saved choice opened) (.ofEntry e) := by
  obtain ⟨d, rfl, hd⟩ := h.saved
  cases opened with
  | false => cases choice <;> exact ⟨⟨d, rfl, hd⟩, nofun⟩
  | true =>
      cases choice with
      | create => exact absurd hspares (by simp [Spares])
      | load =>
          refine ⟨⟨d, rfl, hd⟩, fun o ho => ?_⟩
          obtain rfl := Option.some.inj ho
          exact List.mem_append_left _ hd

/-- What spares the entry keeps its card. -/
lemma Keeps.step {c c' : Catalogue} {e : Entry} {a : Action} (h : Keeps c (.ofEntry e))
    (hfits : FitsFields e) (hroom : c.Room a) (hspares : Spares e a)
    (hstep : c.step a = some c') : Keeps c' (.ofEntry e) := by
  obtain ⟨saved, opened⟩ := c
  have hlook : ∀ phase d, opened = some (phase, d) → ∀ phase',
      Keeps ⟨saved, some (phase', d)⟩ (.ofEntry e) := by
    rintro phase d rfl phase'
    refine ⟨h.saved, fun o ho => ?_⟩
    obtain rfl := Option.some.inj ho
    exact h.opened (phase, d) rfl
  unfold Catalogue.step at hstep
  split at hstep
  · rename_i hopened
    dsimp only at hopened
    subst hopened
    obtain rfl := Option.some.inj hstep
    exact h.begin hspares
  · rename_i d _ _ hopened
    obtain rfl := Option.some.inj hstep
    exact hlook _ _ hopened _
  · rename_i d _ _ e' hopened
    dsimp only at hopened
    subst hopened
    obtain rfl := Option.some.inj hstep
    exact h.write _ (mem_add (h.opened _ rfl) rfl (hroom.2 _ rfl).1 _)
  · rename_i d _ lastname hopened
    dsimp only at hopened
    subst hopened
    obtain rfl := Option.some.inj hstep
    refine h.write _ (mem_remove (h.opened _ rfl) ?_)
    rw [Card.ofEntry, bytes_ofToken hfits.1]
    exact hspares.symm
  · rename_i hopened
    obtain rfl := Option.some.inj hstep
    exact hlook _ _ hopened _
  · rename_i hopened
    obtain rfl := Option.some.inj hstep
    exact hlook _ _ hopened _
  · obtain rfl := Option.some.inj hstep
    exact ⟨h.saved, nofun⟩
  · cases hstep

/-- After the entry has been added. -/
lemma keeps_added {c c' : Catalogue} {uninit : UInt16} {e : Entry}
    (hroom : c.Room (.add true uninit e)) (hstep : c.step (.add true uninit e) = some c') :
    Keeps c' (.ofEntry e) := by
  obtain ⟨saved, opened⟩ := c
  have hadded : ∀ d : Directory, d.firstFree < d.length →
      Card.ofEntry e ∈ d.add (.ofEntry e) := fun d hfree => List.mem_set hfree _
  unfold Catalogue.step at hstep
  split at hstep
  case h_3 =>
    rename_i d _ _ _ hopened hact
    cases hact
    obtain rfl := Option.some.inj hstep
    have hd := hadded d (hroom.2 _ hopened).1
    refine ⟨⟨_, rfl, hd⟩, fun o ho => ?_⟩
    obtain rfl := Option.some.inj ho
    exact hd
  all_goals simp_all

/-- **An entry stays.**  Once it is added, every later session shows it, until a session creates
a new book or removes its last name. -/
theorem entry_stays {storage : Option (List UInt8)} {saved : Option Directory}
    (h : Option.Rel Represents storage saved) {before after : List Action} {uninit : UInt16}
    {e : Entry}
    (hroom : ∀ c a, Takes Catalogue.step ⟨saved, none⟩ (before ++ .add true uninit e :: after) c a →
      c.Room a)
    (hafter : ∀ a ∈ after, Spares e a) {w : World} {s : Session}
    (hexec : exec step ⟨storage, none⟩ (before ++ .add true uninit e :: after) = some w)
    (hs : w.session = some s) :
    ∃ shown, outputBookOnDisplay s.phoneBook s.sizeOfBook = some shown ∧
      (e.lastName.bytes, e.firstName.bytes, e.phoneNumber.bytes) ∈ shown := by
  obtain ⟨c, hc, hsim⟩ := sim_step.exists_of_exec (t := ⟨saved, none⟩) ⟨h, .none⟩ hroom hexec
  rw [exec_append, Option.bind_eq_some_iff] at hc
  obtain ⟨c₀, hbefore, hc⟩ := hc
  obtain ⟨c₁, hadd, hrest⟩ := Option.bind_eq_some_iff.mp hc
  have htakes : ∀ u a, Takes Catalogue.step c₀ (.add true uninit e :: after) u a → u.Room a :=
    fun u a hu => hroom u a (hu.append hbefore)
  have hroom₀ := htakes c₀ _ ((takes_cons hadd).mpr (Or.inl ⟨rfl, rfl⟩))
  have hkeeps : Keeps c (.ofEntry e) := by
    apply exec_invariant (I := fun c => Keeps c (.ofEntry e)) (keeps_added hroom₀ hadd) hrest
    intro u a u' hu hkeeps hstep
    have hroomu := htakes u a ((takes_cons hadd).mpr (Or.inr hu))
    exact hkeeps.step hroom₀.1 hroomu (hafter a hu.mem) hstep
  have hsession := hsim.session
  rw [hs] at hsession
  cases ho : c.opened with
  | none =>
      rw [ho] at hsession
      cases hsession
  | some o =>
      refine ⟨o.2.shown, hsim.views.shown s o.1 o.2 hs ho, ?_⟩
      have htexts : (Card.ofEntry e).texts =
          (e.lastName.bytes, e.firstName.bytes, e.phoneNumber.bytes) := by
        obtain ⟨hlast, hfirst, hphone⟩ := hroom₀.1
        rw [Card.texts, Card.ofEntry, bytes_ofToken hlast, bytes_ofToken hfirst,
          bytes_ofToken hphone]
      rw [← htexts]
      apply List.mem_map_of_mem
      exact List.mem_filter.mpr ⟨hkeeps.opened o ho, rfl⟩

/-- The entry is added, the program is left and started again. -/
theorem entry_stays_two_sessions :
    ∃ w s shown, exec step ⟨none, none⟩ ([.run .create true, .turn [] fun _ => 0] ++
        .add true 0 shortEntry :: [.leave, .run .load true]) = some w ∧ w.session = some s ∧
      outputBookOnDisplay s.phoneBook s.sizeOfBook = some shown ∧
      (shortEntry.lastName.bytes, shortEntry.firstName.bytes, shortEntry.phoneNumber.bytes) ∈
        shown := by
  have hruns : ((exec step ⟨none, none⟩ ([.run .create true, .turn [] fun _ => 0] ++
      .add true 0 shortEntry :: [.leave, .run .load true])).bind World.session).isSome = true := by
    decide +kernel
  have hguard : Guarded Catalogue.step Catalogue.Room ⟨none, none⟩
      ([.run .create true, .turn [] fun _ => 0] ++
        .add true 0 shortEntry :: [.leave, .run .load true]) = true := by
    decide +kernel
  obtain ⟨s, hs⟩ := Option.isSome_iff_exists.mp hruns
  obtain ⟨w, hw, hs⟩ := Option.bind_eq_some_iff.mp hs
  obtain ⟨shown, hshown⟩ := entry_stays .none (fun c a => ok_of_guarded hguard)
    (by simp [Spares]) hw hs
  exact ⟨w, s, shown, hw, hs, hshown⟩

end PhoneBook
end EltSummer
