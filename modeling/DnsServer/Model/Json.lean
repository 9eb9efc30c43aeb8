import DnsServer.Foundation.CString

/-!
# JSON trees: the part of cJSON the server uses

A node is one of the JSON kinds. The children of an array have no key, those of
an object have one; every other node has no children. Of a number only
`valueint` is kept, the saturated integer the server reads.

Lookup of a member ignores letter case and returns the first match.
-/

set_option autoImplicit false

namespace DnsServer

inductive CJSON where
  | null
  | bool (value : Bool)
  | number (valueint : Int)
  | string (valuestring : CString)
  | array (items : List CJSON)
  | object (members : List (CString × CJSON))

namespace CJSON

/-- The node of a number that is an integer: `parse_number` saturates its
`valueint` at the bounds of an `int`. -/
def integer (number : Int) : CJSON := .number (max (-2 ^ 31) (min (2 ^ 31 - 1) number))

/-- The children in order, each with its key; `none` is a key that is `NULL`. -/
def children : CJSON → List (Option CString × CJSON)
  | .array items => items.map fun item => (none, item)
  | .object members => members.map fun (key, value) => (some key, value)
  | _ => []

/-- `cJSON_IsObject`. -/
def isObject : CJSON → Bool
  | .object _ => true
  | _ => false

/-- `cJSON_GetArraySize`: the number of children of any node. -/
def getArraySize (node : CJSON) : Nat := node.children.length

/-- `cJSON_GetObjectItem`: the first child whose key matches without regard to
letter case. -/
def getObjectItem (node : CJSON) (name : CString) : Option CJSON :=
  (node.children.find? fun (key, _) => key.any (Libc.sameIgnoringCase name)).map Prod.snd

end CJSON

end DnsServer
