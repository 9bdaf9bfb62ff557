import EltSummer.Framework.Layout

/-!
# The description record of a plugin

`plugin_calc_and_simple_text_editor_5July/plugin_calc`: a plugin defines `f_info`, and `main`
copies `sizeof(struct func_info)` bytes from where `dlsym` found it.  The two sides are compiled
against two headers, and the one of the plugins has `__attribute__((packed))`.  So the object
has 34 bytes, of which `main` copies 36 (`never_agrees`).  The three strings stand at the same
places in both; the number `main` looks for two bytes further on, so that it gets the two high
bytes of what the plugin wrote, and two bytes from behind the object (`numOfArgs_copied`).

An `int` has four bytes, the low ones first, and stands at multiples of four.
-/

namespace EltSummer
namespace PluginCalc

open Layout

/-- `ARR_SIZE`. -/
def arrSize : ℕ := 10

/-- What a `char [ARR_SIZE]` holds. -/
structure Chars where
  bytes : List UInt8
  length : bytes.length = arrSize

/-- The values of a `struct func_info`. -/
structure FuncInfo where
  funcName : Chars
  typeOfArgs : Chars
  typeOfRetValue : Chars
  numOfArgs : BitVec 32

def charsMember : Member := ⟨arrSize, 1, Nat.one_pos⟩

def intMember : Member := ⟨4, 4, by simp⟩

/-- `struct func_info` in `struct_func_info.h`. -/
def structFuncInfo : List Member := [charsMember, charsMember, charsMember, intMember]

/-- `struct func_info` in `plugins/struct_func_info.h`. -/
def pluginStructFuncInfo : List Member := packed structFuncInfo

/-- The members' bytes. -/
def FuncInfo.contents (info : FuncInfo) : List (List UInt8) :=
  [info.funcName.bytes, info.typeOfArgs.bytes, info.typeOfRetValue.bytes,
    toLe 4 info.numOfArgs.toNat]

/-- `f_info`, as the plugin's compiler lays it out. -/
def FuncInfo.object (info : FuncInfo) : List UInt8 := image pluginStructFuncInfo info.contents

/-- `memcpy(array_func_inf[i], ptr_to_struct, sizeof(struct func_info))`; `behind` is what stands
behind the object in memory. -/
def FuncInfo.copied (info : FuncInfo) (behind : List UInt8) : List UInt8 :=
  (info.object ++ behind).take (structSize structFuncInfo)

/-- The copy reads no byte outside the object, and `main` finds the same values. -/
structure Agrees (info : FuncInfo) (behind : List UInt8) : Prop where
  inside : structSize structFuncInfo ≤ info.object.length
  values : fields structFuncInfo (info.copied behind) = info.contents

/-! ## The two layouts -/

variable (info : FuncInfo)

lemma size_structFuncInfo : structSize structFuncInfo = 36 := by decide

lemma size_pluginStructFuncInfo : structSize pluginStructFuncInfo = 34 := by decide

lemma length_contents : info.contents.map List.length = pluginStructFuncInfo.map Member.size := by
  simp [FuncInfo.contents, Chars.length, length_toLe, pluginStructFuncInfo, packed, structFuncInfo,
    charsMember, intMember]

lemma length_object : info.object.length = 34 := by
  rw [FuncInfo.object, length_image (length_contents info), size_pluginStructFuncInfo]

/-- **The record that `main` gets is never right**: the copy leaves the object. -/
theorem never_agrees (info : FuncInfo) (behind : List UInt8) : ¬ Agrees info behind := by
  intro h
  have hinside := h.inside
  rw [length_object, size_structFuncInfo] at hinside
  omega

/-! ## What `main` gets -/

/-- The members of the plugin's record are where its own layout has them. -/
lemma fields_object (behind : List UInt8) :
    fields pluginStructFuncInfo (info.object ++ behind) = info.contents :=
  fields_image (length_contents info) behind

/-- The members in both layouts, at their places. -/
lemma fields_pluginStructFuncInfo (b : List UInt8) : fields pluginStructFuncInfo b =
    [b.take 10, (b.drop 10).take 10, (b.drop 20).take 10, (b.drop 30).take 4] := rfl

lemma fields_structFuncInfo (b : List UInt8) : fields structFuncInfo b =
    [b.take 10, (b.drop 10).take 10, (b.drop 20).take 10, (b.drop 32).take 4] := rfl

/-- Where the plugin's layout puts the values. -/
lemma object_places (behind : List UInt8) :
    (info.object ++ behind).take 10 = info.funcName.bytes ∧
      ((info.object ++ behind).drop 10).take 10 = info.typeOfArgs.bytes ∧
      ((info.object ++ behind).drop 20).take 10 = info.typeOfRetValue.bytes ∧
      ((info.object ++ behind).drop 30).take 4 = toLe 4 info.numOfArgs.toNat := by
  have hobject := fields_object info behind
  rw [fields_pluginStructFuncInfo, FuncInfo.contents] at hobject
  simpa only [List.cons.injEq, and_true] using hobject

/-- The strings stand at the same places in both layouts, the number does not. -/
lemma fields_copied (behind : List UInt8) :
    fields structFuncInfo (info.copied behind) =
      [info.funcName.bytes, info.typeOfArgs.bytes, info.typeOfRetValue.bytes,
        ((info.object ++ behind).drop 32).take 4] := by
  obtain ⟨hname, hargs, hret, -⟩ := object_places info behind
  rw [fields_structFuncInfo, FuncInfo.copied, size_structFuncInfo, ← hname, ← hargs, ← hret]
  simp only [List.drop_take, List.take_take]
  rfl

/-- The number that `main` gets: the two high bytes of the plugin's, and two bytes from behind
the object. -/
theorem numOfArgs_copied (behind : List UInt8) :
    ofLe (((info.object ++ behind).drop 32).take 4) =
      info.numOfArgs.toNat / 2 ^ 16 + 2 ^ 16 * ofLe (behind.take 2) := by
  obtain ⟨-, -, -, hnum⟩ := object_places info behind
  have hlen := length_object info
  -- the object ends with the number
  have hnumber : info.object.drop 30 = toLe 4 info.numOfArgs.toNat := by
    rw [← hnum, List.drop_append_of_le_length (by omega), List.take_left' (by simp [hlen])]
  have hhigh : info.object.drop 32 = toLe 2 (info.numOfArgs.toNat / 2 ^ 16) := by
    have hdrop := drop_toLe 2 2 info.numOfArgs.toNat
    rwa [← hnumber, List.drop_drop] at hdrop
  have hsmall : info.numOfArgs.toNat / 2 ^ 16 < 2 ^ 16 := by
    have := info.numOfArgs.isLt
    omega
  rw [List.drop_append_of_le_length (by omega), hhigh, List.take_append, length_toLe,
    List.take_of_length_le (by simp), ofLe_append, ofLe_toLe, length_toLe]
  have hmod : info.numOfArgs.toNat / 2 ^ 16 % 256 ^ 2 = info.numOfArgs.toNat / 2 ^ 16 :=
    Nat.mod_eq_of_lt hsmall
  rw [hmod]
  rfl

/-- A number of arguments that two bytes hold is lost, whatever stands behind the object. -/
theorem small_numOfArgs_lost (behind : List UInt8) (hpos : 0 < info.numOfArgs.toNat)
    (hsmall : info.numOfArgs.toNat < 2 ^ 16) :
    ofLe (((info.object ++ behind).drop 32).take 4) ≠ info.numOfArgs.toNat := by
  rw [numOfArgs_copied]
  omega

/-- `struct func_info f_info = {"my_div", "int", "int", 2};` -/
def myDiv : FuncInfo where
  funcName := ⟨[109, 121, 95, 100, 105, 118, 0, 0, 0, 0], rfl⟩
  typeOfArgs := ⟨[105, 110, 116, 0, 0, 0, 0, 0, 0, 0], rfl⟩
  typeOfRetValue := ⟨[105, 110, 116, 0, 0, 0, 0, 0, 0, 0], rfl⟩
  numOfArgs := 2

/-- The record of the plugin for divisions. -/
theorem my_div_is_copied_wrong :
    ¬ ∀ (info : FuncInfo) (behind : List UInt8), Agrees info behind := by
  intro hclaim
  have hinside := (hclaim myDiv []).inside
  rw [length_object, size_structFuncInfo] at hinside
  omega

end PluginCalc
end EltSummer
