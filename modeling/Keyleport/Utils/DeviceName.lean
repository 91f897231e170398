import Keyleport.Lib.StdString
import Mathlib.Data.List.DropRight

/-!
# Device names

`utils/device_name`: the name under which a device announces itself is its model, or else the name
of its user, or else that of its platform. The platforms differ in where the first two come from.
What a system answers are bytes in no particular encoding, and no step on the way changes the
encoding.

* `HostSystem.getDeviceName`: the name.
* `HostSystem.texts`: the answers that it is made of.
* `HostSystem.getDeviceName_validUtf8_iff`: the name is UTF-8 when these are.
-/

namespace Keyleport

namespace DeviceName

/-- The characters that `trim` removes: a space, a tab, a line feed or a carriage return. -/
def isBlank (b : UInt8) : Bool := b = 0x20 || b = 0x09 || b = 0x0a || b = 0x0d

/-- `trim`. -/
def trim (s : StdString) : StdString := (s.dropWhile isBlank).rdropWhile isBlank

/-- `std::getline`: what stands before the first line feed. -/
def firstLine (text : StdString) : StdString := text.takeWhile fun b => b ≠ 0x0a

/-- `read_first_line`, of a file that may not be opened. -/
def readFirstLine : Option StdString → StdString
  | none => []
  | some text => trim (firstLine text)

/-- `get_username_fallback` on Linux and macOS, with `getenv("USER")` and the `pw_name` of
`getpwuid`. -/
def getUsernameFallback (user pwName : Option StdString) : StdString :=
  match user with
  | none => pwName.getD []
  | some login => if login = [] then pwName.getD [] else login

/-- `get_model_linux`, with the contents of `product_name`, `product_version` and `hostname`. -/
def getModelLinux (productName productVersion hostname : Option StdString) : StdString :=
  let name := readFirstLine productName
  if name = [] then readFirstLine hostname
  else
    let version := readFirstLine productVersion
    if version = [] ∨ version = .ofString "None" then name else name ++ 0x20 :: version

/-- `get_device_name`, with the model, the user name and the platform. -/
def getDeviceName (model username platform : StdString) : StdString :=
  if model ≠ [] then model
  else if username ≠ [] then username
  else platform

end DeviceName

/-- What a system answers about its device; `none` where it has no answer. -/
inductive HostSystem where
  | linux (productName productVersion hostname user pwName : Option StdString)
  /-- With the characters of `hw.model`. -/
  | macos (hwModel user pwName : Option StdString)
  /-- With the answers of `GetComputerNameA` and `GetUserNameA`. -/
  | windows (computerName userName : Option StdString)
deriving DecidableEq, Repr

namespace HostSystem

open DeviceName

/-- `get_platform`. -/
def getPlatform : HostSystem → StdString
  | linux .. => .ofString "linux"
  | macos .. => .ofString "macos"
  | windows .. => .ofString "windows"

/-- The model of the device. -/
def getModel : HostSystem → StdString
  | linux productName productVersion hostname _ _ =>
      getModelLinux productName productVersion hostname
  | macos hwModel _ _ => trim (hwModel.getD [])
  | windows computerName _ => computerName.getD []

/-- `get_username_fallback`. -/
def getUsername : HostSystem → StdString
  | linux _ _ _ user pwName => getUsernameFallback user pwName
  | macos _ user pwName => getUsernameFallback user pwName
  | windows _ userName => userName.getD []

/-- `get_device_name`. -/
def getDeviceName (sys : HostSystem) : StdString :=
  DeviceName.getDeviceName sys.getModel sys.getUsername sys.getPlatform

/-! ## The answers in use -/

/-- The answers that the model is made of, untrimmed. -/
def modelTexts : HostSystem → List StdString
  | linux productName productVersion hostname _ _ =>
      if readFirstLine productName = [] then [firstLine (hostname.getD [])]
      else if readFirstLine productVersion = [] ∨
          readFirstLine productVersion = .ofString "None" then
        [firstLine (productName.getD [])]
      else [firstLine (productName.getD []), firstLine (productVersion.getD [])]
  | macos hwModel _ _ => [hwModel.getD []]
  | windows computerName _ => [computerName.getD []]

/-- The answers that the name is made of: those of the model, or of the user if it is empty. -/
def texts (sys : HostSystem) : List StdString :=
  if sys.getModel = [] then [sys.getUsername] else sys.modelTexts

/-! ## Encodings -/

/-- The characters that are trimmed are ASCII. -/
private theorem lt_of_isBlank {b : UInt8} (hb : isBlank b = true) : b < 0x80 := by
  simp only [isBlank, Bool.or_eq_true, decide_eq_true_eq] at hb
  rcases hb with ((rfl | rfl) | rfl) | rfl <;> decide

private theorem validUtf8_dropWhile_iff (s : StdString) :
    StdString.ValidUtf8 (s.dropWhile isBlank) ↔ s.ValidUtf8 := by
  induction s with
  | nil => exact Iff.rfl
  | cons b s ih =>
    cases hb : isBlank b with
    | false => rw [List.dropWhile_cons_of_neg (by simp [hb])]
    | true =>
      -- an ASCII character is encoded by itself
      have hsplit := StdString.validUtf8_append_cons_iff (s := []) (t := s) (lt_of_isBlank hb)
      rw [List.dropWhile_cons_of_pos hb, ih]
      exact ⟨fun hs => hsplit.2 ⟨StdString.validUtf8_nil, hs⟩, fun h => (hsplit.1 h).2⟩

private theorem validUtf8_rdropWhile_iff (s : StdString) :
    StdString.ValidUtf8 (s.rdropWhile isBlank) ↔ s.ValidUtf8 := by
  induction s using List.reverseRecOn with
  | nil => exact Iff.rfl
  | append_singleton s b ih =>
    cases hb : isBlank b with
    | false => rw [List.rdropWhile_concat_neg _ _ _ (by simp [hb])]
    | true =>
      have hsplit := StdString.validUtf8_append_cons_iff (s := s) (t := []) (lt_of_isBlank hb)
      rw [List.rdropWhile_concat_pos _ _ _ hb, ih]
      exact ⟨fun hs => hsplit.2 ⟨hs, StdString.validUtf8_nil⟩, fun h => (hsplit.1 h).1⟩

/-- Trimming neither breaks nor repairs an encoding. -/
theorem validUtf8_trim_iff (s : StdString) : (trim s).ValidUtf8 ↔ s.ValidUtf8 :=
  (validUtf8_rdropWhile_iff _).trans (validUtf8_dropWhile_iff s)

theorem validUtf8_readFirstLine_iff (file : Option StdString) :
    (readFirstLine file).ValidUtf8 ↔ (firstLine (file.getD [])).ValidUtf8 := by
  cases file with
  | none => exact Iff.rfl
  | some text => exact validUtf8_trim_iff _

/-- The model is UTF-8 when the answers it is made of are. -/
theorem getModel_validUtf8_iff (sys : HostSystem) :
    sys.getModel.ValidUtf8 ↔ ∀ s ∈ sys.modelTexts, s.ValidUtf8 := by
  cases sys with
  | linux productName productVersion hostname user pwName =>
    simp only [getModel, getModelLinux, modelTexts]
    split_ifs
    · rw [List.forall_mem_singleton, validUtf8_readFirstLine_iff]
    · rw [List.forall_mem_singleton, validUtf8_readFirstLine_iff]
    · -- the name and the version are joined by a space
      rw [StdString.validUtf8_append_cons_iff (by decide), validUtf8_readFirstLine_iff,
        validUtf8_readFirstLine_iff]
      simp
  | macos hwModel user pwName =>
    rw [getModel, modelTexts, List.forall_mem_singleton, validUtf8_trim_iff]
  | windows computerName userName => rw [getModel, modelTexts, List.forall_mem_singleton]

theorem getPlatform_validUtf8 (sys : HostSystem) : sys.getPlatform.ValidUtf8 := by
  cases sys <;> rw [getPlatform] <;> decide

/-- The name is UTF-8 when the answers it is made of are. -/
theorem getDeviceName_validUtf8_iff (sys : HostSystem) :
    sys.getDeviceName.ValidUtf8 ↔ ∀ s ∈ sys.texts, s.ValidUtf8 := by
  unfold getDeviceName DeviceName.getDeviceName texts
  by_cases hmodel : sys.getModel = []
  · rw [if_neg (not_not.2 hmodel), if_pos hmodel, List.forall_mem_singleton]
    by_cases hname : sys.getUsername = []
    · -- what is left is the name of the platform
      rw [if_neg (not_not.2 hname), hname]
      exact iff_of_true sys.getPlatform_validUtf8 StdString.validUtf8_nil
    · rw [if_pos hname]
  · rw [if_pos hmodel, if_neg hmodel]
    exact sys.getModel_validUtf8_iff

end HostSystem

end Keyleport
