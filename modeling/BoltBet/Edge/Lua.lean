import Mathlib.Data.UInt

/-!
# Lua values, as the gateway's scripts use them

* A Lua string is a list of bytes; a pattern of the scripts is a function on bytes.
* `LuaValue` is what `cjson.decode` can answer. A table is read by text keys only, so an array is
  a table without any.
* Indexing and concatenating may raise: `LuaValue.index`, `LuaValue.concat`.
-/

namespace BoltBet

/-- A Lua string. -/
abbrev LuaString := List UInt8

/-- A text of a script, as bytes. -/
def lua (text : String) : LuaString := text.toList.map fun c => UInt8.ofNat c.toNat

/-- A Lua value. -/
inductive LuaValue where
  | nil
  | boolean (b : Bool)
  /-- A number, as `tostring` writes it. -/
  | number (text : LuaString)
  | string (bytes : LuaString)
  /-- `cjson.null`. -/
  | userdata
  | function
  | table (get : LuaString → LuaValue)

/-- What a script raises, and why a client library fails. -/
inductive LuaErr where
  /-- `attempt to {action} a {type} value`. -/
  | attempt (action type : String)
  | failed (reason : String)
  deriving DecidableEq, Repr

instance : Inhabited LuaErr := ⟨.failed "timeout"⟩

namespace LuaValue

/-- `type(v)`. -/
def type : LuaValue → String
  | nil => "nil"
  | boolean _ => "boolean"
  | number _ => "number"
  | string _ => "string"
  | userdata => "userdata"
  | function => "function"
  | table _ => "table"

/-- A value a condition takes for true. -/
def truthy : LuaValue → Bool
  | nil => false
  | boolean b => b
  | _ => true

/-- `v or w`. -/
def orElse (v w : LuaValue) : LuaValue := if v.truthy then v else w

/-- The functions that a string is indexed by. -/
def stringLibrary : List LuaString :=
  ["byte", "char", "dump", "find", "format", "gmatch", "gsub", "len", "lower", "match", "rep",
    "reverse", "sub", "upper"].map lua

/-- `v.key`. -/
def index (v : LuaValue) (key : LuaString) : Except LuaErr LuaValue :=
  match v with
  | table get => .ok (get key)
  | string _ => .ok (if key ∈ stringLibrary then function else nil)
  | v => .error (.attempt "index" v.type)

/-- `text .. v`. -/
def concat (text : LuaString) : LuaValue → Except LuaErr LuaString
  | string bytes => .ok (text ++ bytes)
  | number bytes => .ok (text ++ bytes)
  | v => .error (.attempt "concatenate" v.type)

end LuaValue

/-- `%s`. -/
def isSpace (b : UInt8) : Bool := b = 32 ∨ 9 ≤ b ∧ b ≤ 13

/-- The matches of `s:gmatch("[^.]+")`. -/
def gmatchParts (s : LuaString) : List LuaString := (s.splitOn 46).filter (· ≠ [])

end BoltBet
