/-! The vocabulary of extensions and their host: values, ids, effects and events. -/

namespace KeyReader.Extension

structure F64 where
  bits : BitVec 64

def F64.isNan (x : F64) : Bool :=
  x.bits &&& 0x7FF0000000000000 == 0x7FF0000000000000 && x.bits &&& 0x000FFFFFFFFFFFFF != 0

/-- Equality of floats: no NaN is equal to itself, and the two zeros are equal. -/
def F64.eq (x y : F64) : Bool :=
  !x.isNan && !y.isNan && (x.bits == y.bits || (x.bits <<< 1 == 0 && y.bits <<< 1 == 0))

/-- A runtime-neutral value.  The fields of a record are in the order of their keys. -/
inductive DataValue
  | null
  | boolean (value : Bool)
  | integer (value : Int)
  | number (value : F64)
  | string (value : String)
  | list (values : List DataValue)
  | record (fields : List (String × DataValue))

mutual

/-- The derived `PartialEq`. -/
def DataValue.eq : DataValue → DataValue → Bool
  | .null, .null => true
  | .boolean a, .boolean b => a == b
  | .integer a, .integer b => a == b
  | .number a, .number b => a.eq b
  | .string a, .string b => a == b
  | .list as, .list bs => DataValue.eqList as bs
  | .record as, .record bs => DataValue.eqFields as bs
  | _, _ => false

def DataValue.eqList : List DataValue → List DataValue → Bool
  | [], [] => true
  | a :: as, b :: bs => a.eq b && DataValue.eqList as bs
  | _, _ => false

def DataValue.eqFields : List (String × DataValue) → List (String × DataValue) → Bool
  | [], [] => true
  | (k, a) :: as, (l, b) :: bs => k == l && a.eq b && DataValue.eqFields as bs
  | _, _ => false

end

mutual

/-- What a value counts for against a quota. -/
def DataValue.size : DataValue → Nat
  | .null => 1
  | .boolean _ => 1
  | .integer _ => 8
  | .number _ => 8
  | .string value => value.utf8ByteSize
  | .list values => DataValue.sizeList values
  | .record fields => DataValue.sizeFields fields

def DataValue.sizeList : List DataValue → Nat
  | [] => 0
  | value :: values => value.size + DataValue.sizeList values

def DataValue.sizeFields : List (String × DataValue) → Nat
  | [] => 0
  | (key, value) :: fields => key.utf8ByteSize + value.size + DataValue.sizeFields fields

end

abbrev ExtensionId := String

/-- An id in the namespace of the extension that owns it. -/
structure NamespacedId where
  owner : ExtensionId
  name : String
  deriving DecidableEq

abbrev CommandId := NamespacedId

abbrev ContributionId := NamespacedId

abbrev EffectId := NamespacedId

abbrev TaskId := NamespacedId

abbrev CapabilityId := String

structure CauseId where
  high : Nat
  low : Nat
  deriving DecidableEq

structure CauseContext where
  id : CauseId
  parent : Option CauseId
  depth : Nat
  deriving DecidableEq

abbrev GenerationId := Nat

inductive StorageArea
  | settings
  | document
  | ephemeralCache
  deriving DecidableEq

inductive NotificationTone
  | informational
  | success
  | warning
  | error
  deriving DecidableEq

inductive ExtensionErrorCode
  | permissionDenied
  | capabilityUnavailable
  | invalidRequest
  | staleResource
  | notFound
  | conflict
  | quotaExceeded
  | cancelled
  | deadlineExceeded
  | temporarilyUnavailable
  | internal
  deriving DecidableEq

structure ExtensionError where
  code : ExtensionErrorCode
  message : String
  retryable : Bool

abbrev EffectResult := Except ExtensionError DataValue

inductive ExtensionEffect
  | capabilityCall (capability : CapabilityId) (operation : String) (input : DataValue)
  | openContribution (contribution : ContributionId)
  | closeContribution (contribution : ContributionId)
  | storageGet (area : StorageArea) (key : String)
  | storagePut (area : StorageArea) (key : String) (value : DataValue)
  | storageDelete (area : StorageArea) (key : String)
  | copyText (text : String)
  | openBrowserUrl (url : String)
  | notify (message : String) (tone : NotificationTone)
  | confirm (title message : String) (destructive : Bool)
  | startTask (task : TaskId) (operation : String) (input : DataValue)
  | cancelTask (task : TaskId)

/-- The derived `PartialEq`. -/
def ExtensionEffect.eq : ExtensionEffect → ExtensionEffect → Bool
  | .capabilityCall c o i, .capabilityCall c' o' i' => c == c' && o == o' && i.eq i'
  | .openContribution c, .openContribution c' => c == c'
  | .closeContribution c, .closeContribution c' => c == c'
  | .storageGet a k, .storageGet a' k' => a == a' && k == k'
  | .storagePut a k v, .storagePut a' k' v' => a == a' && k == k' && v.eq v'
  | .storageDelete a k, .storageDelete a' k' => a == a' && k == k'
  | .copyText t, .copyText t' => t == t'
  | .openBrowserUrl u, .openBrowserUrl u' => u == u'
  | .notify m t, .notify m' t' => m == m' && t == t'
  | .confirm t m d, .confirm t' m' d' => t == t' && m == m' && d == d'
  | .startTask t o i, .startTask t' o' i' => t == t' && o == o' && i.eq i'
  | .cancelTask t, .cancelTask t' => t == t'
  | _, _ => false

structure EffectRequest where
  id : EffectId
  cause : CauseContext
  effect : ExtensionEffect

/-- An effect that the host has accepted. -/
structure ArbitratedEffect where
  extension : ExtensionId
  generation : GenerationId
  request : EffectRequest
  /-- Identical requests of the same batch, which share the result. -/
  coalesced : List EffectId

end KeyReader.Extension
