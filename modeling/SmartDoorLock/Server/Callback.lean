import Mathlib.Tactic.IntervalCases
import SmartDoorLock.Lib.CText
import SmartDoorLock.Lib.Words

/-!
# Button data

The buttons of the bot carry a text, `callback_data`, that comes back when the
button is pressed. `callback_handler` tells its branches apart by the start of
the text and takes the arguments out of it with `split`; a text with no known
start is the id of a device.
-/

namespace SmartDoorLock

open CText Words

/-! ## Text functions of the language -/

/-- The characters `split` cuts at. -/
def isspace (c : Char) : Bool :=
  (9 ≤ c.toNat && c.toNat ≤ 13) || (28 ≤ c.toNat && c.toNat ≤ 32) || c.toNat == 0x85 ||
    c.toNat == 0xA0 || c.toNat == 0x1680 || (0x2000 ≤ c.toNat && c.toNat ≤ 0x200A) ||
    c.toNat == 0x2028 || c.toNat == 0x2029 || c.toNat == 0x202F || c.toNat == 0x205F ||
    c.toNat == 0x3000

/-- `split` without arguments. -/
def split (s : String) : List String := (words isspace s.toList).map String.ofList

/-- What `isalnum` and `int` read from the character database: the letters and
numbers, and the values of the decimal digits. -/
structure CharTable where
  alnum : Char → Bool
  decimal : Char → Option ℕ
  alnum_not_space : ∀ c, alnum c = true → isspace c = false
  decimal_digit : ∀ d < 10, decimal (Char.ofNat (48 + d)) = some d

/-- The table with nothing beyond ASCII. -/
def asciiTable : CharTable where
  alnum c := (48 ≤ c.toNat && c.toNat ≤ 57) || (65 ≤ c.toNat && c.toNat ≤ 90) ||
    (97 ≤ c.toNat && c.toNat ≤ 122)
  decimal c := if 48 ≤ c.toNat ∧ c.toNat ≤ 57 then some (c.toNat - 48) else none
  alnum_not_space c h := by
    simp only [Bool.or_eq_true, Bool.and_eq_true, decide_eq_true_eq] at h
    simp only [isspace, Bool.or_eq_false_iff, Bool.and_eq_false_iff, decide_eq_false_iff_not,
      beq_eq_false_iff_ne]
    omega
  decimal_digit d hd := by
    interval_cases d <;> rfl

variable (tbl : CharTable)

/-- `isalnum`: every character is one, and there is one. -/
def isalnum (s : String) : Bool := !s.toList.isEmpty && s.toList.all tbl.alnum

/-- The digits of a number, one underscore allowed between two. -/
def digitsFrom (value : ℕ) : List Char → Option ℕ
  | [] => some value
  | '_' :: c :: cs => (tbl.decimal c).bind fun d => digitsFrom (10 * value + d) cs
  | c :: cs => (tbl.decimal c).bind fun d => digitsFrom (10 * value + d) cs

def digits : List Char → Option ℕ
  | [] => none
  | c :: cs => (tbl.decimal c).bind fun d => digitsFrom tbl d cs

/-- `int` of a text without spaces; `none` is a `ValueError`. -/
def int (s : String) : Option ℤ :=
  match s.toList with
  | '-' :: cs => (digits tbl cs).map fun n => -(n : ℤ)
  | '+' :: cs => (digits tbl cs).map fun n => (n : ℤ)
  | cs => (digits tbl cs).map fun n => (n : ℤ)

/-! ## The dispatch of `callback_handler` -/

/-- A branch of `callback_handler` with its arguments. -/
inductive Callback where
  | ignore
  | openDoor
  | add (btId : String)
  | new (btId name : String)
  | remove (btId : String)
  | until (days : ℤ) (btId : String)
  /-- the last `else` -/
  | device (btId : String)
deriving DecidableEq, Repr

/-- An exception that leaves a handler of the bot. -/
inductive BotError where
  | typeError
  | valueError
  | indexError
  | overflowError
  | objectNotFound (key : String)
deriving DecidableEq, Repr

/-- The branch taken on `q.data`, its arguments evaluated. -/
def callbackOf (data : String) : Except BotError Callback :=
  if data = "ignore" then .ok .ignore
  else if data = "open" then .ok .openDoor
  else if startswith data "add" then
    match (split data).getLast? with
    | some btId => .ok (.add btId)
    | none => .error .indexError
  else if startswith data "new" then
    match (split data).drop 1 with
    | [btId, name] => .ok (.new btId name)
    | _ => .error .typeError
  else if startswith data "remove" then
    match (split data).getLast? with
    | some btId => .ok (.remove btId)
    | none => .error .indexError
  else if startswith data "until" then
    match (split data).drop 1 with
    | [] => .error .indexError
    | n :: rest =>
        match int tbl n, rest with
        | none, _ => .error .valueError
        | some _, [] => .error .indexError
        | some days, btId :: _ => .ok (.until days btId)
  else .ok (.device data)

/-! ## The texts the bot makes -/

/-- The keyboard of `get_new_device_kb`, by rows. -/
def getNewDeviceKb (btId : String) : List (List String) :=
  [["ignore", "open"], ["add: " ++ btId]]

/-- The keyboard of `_device_settings`. -/
def deviceSettingsKb (btId : String) : List (List String) :=
  [["remove " ++ btId], ["until 1 " ++ btId, "until 3 " ++ btId, "until 7 " ++ btId],
    ["until 0 " ++ btId]]

/-- The keyboard of `get_device_name`. -/
def chosenNameKb (btId name : String) : List (List String) :=
  [["ignore", "new " ++ btId ++ " " ++ name], ["add: " ++ btId]]

/-- The rows of `list_devices`: two buttons in each. -/
def listDevicesKb : List String → List (List String)
  | [] => []
  | [btId] => [[btId]]
  | btId :: btId' :: rest => [btId, btId'] :: listDevicesKb rest

end SmartDoorLock
