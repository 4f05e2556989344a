import Gretun.Basic
import Gretun.Foundation.Tagged
import Gretun.Net.Addr
import Mathlib.Data.FinEnum
import Mathlib.Logic.Denumerable
import Mathlib.Logic.Equiv.List

/-!
# JSON

The values that the messages of the coordinator are made of. A scalar is a value
of one of the Go types that have a JSON text of their own; a slice that is nil
and an empty one are the same list. `JsonLibrary` is what is assumed about
`encoding/json`: the text of a value is read back as that value. Strings are
Unicode texts, for which this holds.
-/

namespace Gretun

namespace Net

open Foundation.Tagged

inductive Scalar where
  | bytes (b : Bytes)
  | key (k : Key)
  | text (s : String)
  | addr (a : Addr)
  | addrPort (a : AddrPort)
  | time (t : Time)
  | bool (b : Bool)

abbrev JsonValue := Doc String Scalar

/-- `json.Marshal` and `json.Unmarshal`, up to the types of the fields. -/
structure JsonLibrary where
  marshal : JsonValue → Bytes
  unmarshal : Bytes → Option JsonValue
  unmarshal_marshal : ∀ v, unmarshal (marshal v) = some v

namespace JsonValue

def bytes (b : Bytes) : JsonValue := .scalar (.bytes b)

def key (k : Key) : JsonValue := .scalar (.key k)

def text (s : String) : JsonValue := .scalar (.text s)

def addr (a : Addr) : JsonValue := .scalar (.addr a)

def addrPort (a : AddrPort) : JsonValue := .scalar (.addrPort a)

def time (t : Time) : JsonValue := .scalar (.time t)

def bool (b : Bool) : JsonValue := .scalar (.bool b)

def readBytes : JsonValue → Option Bytes :=
  Doc.readScalar fun | .bytes b => some b | _ => none

def readKey : JsonValue → Option Key :=
  Doc.readScalar fun | .key k => some k | _ => none

def readText : JsonValue → Option String :=
  Doc.readScalar fun | .text s => some s | _ => none

def readAddr : JsonValue → Option Addr :=
  Doc.readScalar fun | .addr a => some a | _ => none

def readAddrPort : JsonValue → Option AddrPort :=
  Doc.readScalar fun | .addrPort a => some a | _ => none

def readTime : JsonValue → Option Time :=
  Doc.readScalar fun | .time t => some t | _ => none

@[simp] theorem readBytes_bytes (b : Bytes) : readBytes (bytes b) = some b := rfl

@[simp] theorem readKey_key (k : Key) : readKey (key k) = some k := rfl

@[simp] theorem readText_text (s : String) : readText (text s) = some s := rfl

@[simp] theorem readAddr_addr (a : Addr) : readAddr (addr a) = some a := rfl

@[simp] theorem readAddrPort_addrPort (a : AddrPort) :
    readAddrPort (addrPort a) = some a := rfl

@[simp] theorem readTime_time (t : Time) : readTime (time t) = some t := rfl

end JsonValue

/-! ## The assumption can be met -/

instance countableKey : Countable Key :=
  Function.Injective.countable (f := Vector.toList) fun _ _ h => Vector.toList_inj.1 h

instance countableChar : Countable Char :=
  Function.Injective.countable (f := Char.toNat) fun _ _ h => Char.toNat_inj.1 h

instance countableString : Countable String :=
  Function.Injective.countable (f := String.toList) fun _ _ h => String.toList_inj.1 h

deriving instance Countable for Addr

deriving instance Countable for AddrPort

deriving instance Countable for Scalar

theorem nonempty_jsonLibrary : Nonempty JsonLibrary := by
  obtain ⟨number, hnumber⟩ := exists_injective_nat JsonValue
  have htext : Function.Injective fun v => List.replicate (number v) (0 : UInt8) := by
    intro v w h
    exact hnumber (by simpa using congrArg List.length h)
  exact ⟨⟨_, fun b => Function.partialInv _ b, Function.partialInv_left htext⟩⟩

end Net

end Gretun
