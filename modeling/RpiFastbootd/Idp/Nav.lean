import RpiFastbootd.Lib.Json
import RpiFastbootd.Idp.Types

/-!
# The provisioning map navigator

`PartitionNavigator` walks the `provisionmap` array of a description with an explicit stack of
frames.  `getPartitions` collects the partitions of the object on top of the stack (at an entry of
the map these are all the partitions below it), `stepIn` and `stepOut` move the stack, and
`foreachPartition` visits everything that way.

The stack is a list whose head is `nav_stack_.back()`.  A visited partition is shared by pointer in
the source; its `order`, which no two partitions of a walk share, stands for the pointer in
`parent`.
-/

namespace RpiFastbootd

/-! ### Errors of one level -/

/-- Errors collected while a level is processed. -/
structure NavResult where
  errors : ℕ := 0
  messages : List String := []

namespace NavResult

def error (nr : NavResult) (msg : String) : NavResult :=
  ⟨nr.errors + 1, nr.messages ++ [msg]⟩

def iserror (nr : NavResult) : Bool := nr.errors != 0

/-- A fresh result with one error. -/
def fail (msg : String) : NavResult := error {} msg

instance : Add NavResult := ⟨fun a b => ⟨a.errors + b.errors, a.messages ++ b.messages⟩⟩

@[simp] theorem add_errors (a b : NavResult) : (a + b).errors = a.errors + b.errors := rfl

@[simp] theorem iserror_error (nr : NavResult) (msg : String) : (nr.error msg).iserror = true := rfl

@[simp] theorem iserror_fail (msg : String) : (fail msg).iserror = true := rfl

@[simp] theorem iserror_empty : iserror {} = false := rfl

@[simp] theorem iserror_add (a b : NavResult) : (a + b).iserror = (a.iserror || b.iserror) := by
  rw [Bool.eq_iff_iff]
  simp only [iserror, add_errors, bne_iff_ne, Bool.or_eq_true]
  omega

end NavResult

/-! ### Validation -/

namespace Validation

/-- The first complaint about the mandatory string keys of a LUKS object. -/
def validateStringKeys (luks : Json) : List String → Except Exn (Option String)
  | [] => return none
  | key :: keys => do
    let v ← luks.get key
    if !(← luks.isMember key) || !v.isString then
      return some ("LUKS key '" ++ key ++ "' is missing or not a string.")
    if (← v.asString) = "" then
      return some ("LUKS key '" ++ key ++ "' is invalid.")
    validateStringKeys luks keys

def validateLUKS (node : Json) : Except Exn NavResult := do
  if !node.isObject then
    return .fail "Invalid node object"
  if !(← node.isMember "luks2") then
    return .fail "Node contains no LUKS2 object"
  let luks ← node.get "luks2"
  if !(← luks.isMember "key_size") || !(← luks.get "key_size").isInt then
    return .fail "LUKS key 'key_size' is missing or not an int."
  if let some msg ← validateStringKeys luks ["cipher", "hash", "mname", "etype"] then
    return .fail msg
  let etype ← (← luks.get "etype").asString
  if etype ≠ "raw" ∧ etype ≠ "partitioned" then
    return .fail "Unsupported LUKS encapsulating type (etype)."
  let keySize ← (← luks.get "key_size").asInt
  -- an `unsigned int`, so a negative size is reduced modulo 2 ^ 32 first
  if keySize % 2 ^ 32 % 8 ≠ 0 then
    return .fail "LUKS key size must be a multiple of 8."
  if ← luks.isMember "label" then
    if !(← luks.get "label").isString then
      return .fail "LUKS key label is not a string."
    if (← (← luks.get "label").asString).utf8ByteSize > 36 then
      return .fail "LUKS label exceeds max length of 36 characters."
  if (← luks.isMember "uuid") && !(← luks.get "uuid").isString then
    return .fail "LUKS key uuid is not a string."
  return {}

def validateRegularPartition (node : Json) : Except Exn NavResult := do
  if !(← node.isMember "image") || !(← node.get "image").isString then
    return .fail "Partition image tag missing or not a string"
  if ← node.isMember "static" then
    let snode ← node.get "static"
    if (← snode.isMember "role") && !(← snode.get "role").isString then
      return .fail "Partition role must be a string"
    let role ← (← snode.get "role").asString
    if role ≠ "boot" ∧ role ≠ "system" then
      return .fail "Unsupported partition role."
    if (← snode.isMember "id") && !(← snode.get "id").isString then
      return .fail "Partition id must be a string"
    if (← snode.isMember "uuid") && !(← snode.get "uuid").isString then
      return .fail "Partition uuid must be a string"
  if (← node.isMember "expand-to-fit") && !(← node.get "expand-to-fit").isBool then
    return .fail "Partition expand-to-fit must be a Bool"
  return {}

end Validation

/-! ### Partitions of the map -/

/-- What a partition of the map says, before its image is looked up. -/
structure Partition where
  image : String := ""
  id : Option String := none
  uuid : Option String := none
  role : Option String := none
  order : ℕ := 0
  expandToFit : Bool := false
  luks : Option IDPluks := none
  parent : Option ℕ := none
  deriving DecidableEq, Repr

def Partition.isCryptContainer (p : Partition) : Bool := p.luks.isSome

/-- The output of a level: the partitions so far and the running order number. -/
structure NavAcc where
  result : List Partition := []
  num : ℕ

/-- `partition->order = ++num; result.push_back(partition)`. -/
def NavAcc.push (acc : NavAcc) (p : Partition) : NavAcc :=
  { result := acc.result ++ [{ p with order := acc.num + 1 }], num := acc.num + 1 }

/-- A piece of a level: it adds partitions and reports errors, or raises. -/
abbrev NavStep := NavAcc → Except Exn (NavResult × NavAcc)

namespace NavStep

/-- `nr += f(..); nr += g(..)`. -/
def append (f g : NavStep) : NavStep := fun acc => do
  let (r, acc) ← f acc
  let (s, acc) ← g acc
  return (r + s, acc)

/-- `if (cond) nr += f(..)`. -/
def when (cond : Except Exn Bool) (f : NavStep) : NavStep := fun acc => do
  if ← cond then f acc else return ({}, acc)

/-- The step on `v[key]`. -/
def onMember (v : Json) (key : String) (f : Json → NavStep) : NavStep := fun acc => do
  f (← v.get key) acc

end NavStep

/-- An optional string attribute. -/
def optString (v : Json) (key : String) : Except Exn (Option String) := do
  if ← v.isMember key then return some (← (← v.get key).asString) else return none

/-- The attributes of a regular partition. -/
def readRegularPartition (p : Json) : Except Exn Partition := do
  let image ← (← p.get "image").asString
  let mut id := none
  let mut role := none
  let mut uuid := none
  if ← p.isMember "static" then
    let s ← p.get "static"
    id ← optString s "id"
    role ← optString s "role"
    uuid ← optString s "uuid"
  let mut expandToFit := false
  if ← p.isMember "expand-to-fit" then
    expandToFit ← (← p.get "expand-to-fit").asBool
  return { image, id, role, uuid, expandToFit }

def processRegularList (parent : Option Partition) : List Json → NavStep
  | [], acc => return ({}, acc)
  | p :: ps, acc => do
    let nr ← Validation.validateRegularPartition p
    if nr.iserror then return (nr, acc)
    let partition ← readRegularPartition p
    processRegularList parent ps (acc.push { partition with parent := parent.map (·.order) })

def processRegularPartitions (parent : Option Partition) (partitions : Json) : NavStep :=
  processRegularList parent partitions.elems

def createEncryptedPartition (encryptedNode : Json) : Except Exn Partition := do
  let luks ← encryptedNode.get "luks2"
  let keySize ← (← luks.get "key_size").asInt
  let cipher ← (← luks.get "cipher").asString
  let hash ← (← luks.get "hash").asString
  let mname ← (← luks.get "mname").asString
  -- a raw container is the default, so only the other type has to be recognised
  let partitioned := match ← luks.get "etype" with
    | .str etype => etype == "partitioned"
    | _ => false
  let label ← optString luks "label"
  let uuid ← optString luks "uuid"
  let mut expandToFit := false
  if ← encryptedNode.isMember "expand-to-fit" then
    expandToFit ← (← encryptedNode.get "expand-to-fit").asBool
  return {
    expandToFit
    luks := some {
      etype := if partitioned then .partitioned else .raw
      -- an `int` stored in a `size_t`
      keySize := (keySize % 2 ^ 64).toNat
      cipher, hash, mname, label, uuid } }

/-- The container of a slot; `processEncrypted` is what to do with it, if anything. -/
def processSlotEncrypted (processEncrypted : Option (Option Partition → Json → NavStep))
    (parent : Option Partition) (slot : Json) : NavStep :=
  match processEncrypted with
  | none => fun acc => return ({}, acc)
  | some process =>
    .when (slot.isMember "encrypted") (.onMember slot "encrypted" (process parent))

/-- The slots of a level. -/
def processSlotList (processEncrypted : Option (Option Partition → Json → NavStep))
    (parent : Option Partition) : List Json → NavStep
  | [], acc => return ({}, acc)
  | slot :: slots, acc =>
    (((NavStep.when (slot.isMember "partitions")
        (.onMember slot "partitions" (processRegularPartitions parent))).append
      (processSlotEncrypted processEncrypted parent slot)).append
      (processSlotList processEncrypted parent slots)) acc

def processSlots (processEncrypted : Option (Option Partition → Json → NavStep))
    (parent : Option Partition) (slots : Json) : NavStep :=
  processSlotList processEncrypted parent slots.elems

/-- The partitions of a container. The source's branch for an array of entries is left out: its
only caller has checked that the node is an object. -/
def extractPartitions (parent : Option Partition) (node : Json) : NavStep := fun acc => do
  if (← node.isMember "partitions") && parent.isSome then
    processRegularPartitions parent (← node.get "partitions") acc
  else return ({}, acc)

def processEncryptedNode (parent : Option Partition) (node : Json) : NavStep := fun acc => do
  if parent.any Partition.isCryptContainer then
    return (.fail "Nested encrypted containers are not supported", acc)
  let nr ← Validation.validateLUKS node
  if nr.iserror then
    return (nr.error "Bad LUKS config in encrypted container", acc)
  if (← node.isMember "expand-to-fit") && !(← node.get "expand-to-fit").isBool then
    return (nr.error "Partition expand-to-fit must be a Bool", acc)
  if !((← node.isMember "slots") || (← node.isMember "partitions")) then
    return (nr.error "No partitions or slots found in encrypted container", acc)
  let container ← createEncryptedPartition node
  let children := some { container with order := acc.num + 1 }
  ((NavStep.when (node.isMember "slots")
      (.onMember node "slots" (processSlots none children))).append
    (.when (node.isMember "partitions") (extractPartitions children node)))
    (acc.push container)

/-! ### The stack machine -/

/-- A frame of the stack: a node, the keys of its children and the next child to enter. -/
structure NavFrame where
  node : Json
  keys : List String := []
  childIdx : ℕ := 0
  slotKey : String := ""

namespace NavFrame

/-- The key `stepIn` entered last. -/
def currentKey (f : NavFrame) : Option String :=
  if f.childIdx = 0 then none else f.keys[f.childIdx - 1]?

/-- `node[key]`, or `node[stoi(key)]` in an array, whose keys are its indices. -/
def child (f : NavFrame) (key : String) : Json :=
  match f.node with
  | .arr xs => xs[f.childIdx]?.getD .null
  | .obj ms => (ms.lookup key).getD .null
  | _ => .null

end NavFrame

/-- The keys of an array frame. -/
def indexKeys (xs : List Json) : List String := (List.range xs.length).map toString

/-- The keys of a frame on a node. -/
def frameKeys : Json → List String
  | .arr xs => indexKeys xs
  | .obj ms => ms.map (·.1)
  | _ => []

/-- The stack of a navigator on the map `pmap`. -/
def rootStack (pmap : Json) : List NavFrame := [{ node := pmap, keys := frameKeys pmap }]

/-- The system type of the first entry that has one, as `create` looks for it. -/
def findSystemType : List Json → Except Exn (Option String)
  | [] => return none
  | entry :: entries => do
    if ← entry.isMember "attributes" then
      let attrs ← entry.get "attributes"
      if ← attrs.isMember "system_type" then
        return some (← (← attrs.get "system_type").asString)
    findSystemType entries

/-- A navigator on an array with a known system type; `none` is the null pointer. -/
def PartitionNavigator.create (pmap : Json) : Except Exn (Option (List NavFrame)) := do
  if !pmap.isArray then return none
  match ← findSystemType pmap.elems with
  | none => return none
  | some systemType =>
    if systemType ≠ "flat" ∧ systemType ≠ "slotted" then return none
    return some (rootStack pmap)

/-- The slot a child object belongs to: `parent` is the frame it is entered from, `below` the
frame under that one. -/
def childSlotKey (parent : NavFrame) (below : List NavFrame) (key : String) : String :=
  let named := match below with
    | grandparent :: _ =>
      if parent.node.isObject && grandparent.node.isObject &&
          grandparent.currentKey == some "slots" then key else ""
    | [] => ""
  if named = "" then parent.slotKey else named

/-- Enter the next child of the top frame; `false` at the last one and at a scalar. -/
def stepIn : List NavFrame → Bool × List NavFrame
  | [] => (false, [])
  | current :: below =>
    match current.keys[current.childIdx]? with
    | none => (false, current :: below)
    | some key =>
      let parent := { current with childIdx := current.childIdx + 1 }
      match current.child key with
      | .obj ms =>
        (true, { node := .obj ms, keys := frameKeys (.obj ms),
                 slotKey := childSlotKey parent below key } :: parent :: below)
      | .arr xs =>
        (true, { node := .arr xs, keys := frameKeys (.arr xs), slotKey := parent.slotKey } ::
          parent :: below)
      | _ => (false, parent :: below)

/-- Leave the top frame; the root frame stays. -/
def stepOut : List NavFrame → List NavFrame
  | _ :: f :: below => f :: below
  | stack => stack

/-- An ancestor of the top frame was entered through the key `encrypted`. -/
def stackUnderEncrypted (stack : List NavFrame) : Bool :=
  stack.tail.any fun f => f.currentKey == some "encrypted"

/-- Some frame of the stack belongs to a slot. -/
def stackInSlot (stack : List NavFrame) : Bool := stack.any fun f => f.slotKey != ""

/-- The partitions of an object, given what the stack says about its position. -/
def objectPartitions (underEncrypted inSlot : Bool) (node : Json) : NavStep :=
  ((NavStep.when (return !underEncrypted && !inSlot && (← node.isMember "partitions"))
      (.onMember node "partitions" (processRegularPartitions none))).append
    (.when (return !underEncrypted && !inSlot && (← node.isMember "slots"))
      (.onMember node "slots" (processSlots (some processEncryptedNode) none)))).append
    (.when (return !inSlot && (← node.isMember "encrypted"))
      (.onMember node "encrypted" (processEncryptedNode none)))

/-- How a load ends without success: an exception, or a refusal with the reported error. -/
inductive LoadError
  | threw (what : Exn)
  | refused (error : String)
  /-- Only the model stops here: a walk was given too few steps. -/
  | outOfFuel
  deriving DecidableEq, Repr

/-- An exception passes through to the caller. -/
def raises {α : Type} : Except Exn α → Except LoadError α
  | .ok a => .ok a
  | .error what => .error (.threw what)

/-- The partitions at the top of the stack, with the new order number; a reported error is the
`nullopt` that makes the walk fail. -/
def getPartitions (stack : List NavFrame) (order : ℕ) :
    Except LoadError (List Partition × ℕ) :=
  match stack with
  | [] => return ([], order)
  | frame :: _ =>
    if frame.node.isObject then do
      let (nr, acc) ← raises
        (objectPartitions (stackUnderEncrypted stack) (stackInSlot stack) frame.node { num := order })
      if nr.iserror then throw (.refused "") else return (acc.result, acc.num)
    else return ([], order)

/-! ### The walk -/

/-- The state of a walk: the stack, the order number and what the callback accumulates. -/
structure WalkState (σ : Type) where
  stack : List NavFrame
  order : ℕ
  acc : σ

section Walk

variable {σ : Type} (func : Partition → σ → Except LoadError σ)

/-- A failure leaves what the callback has accumulated so far. -/
def leaving {α : Type} (acc : σ) : Except LoadError α → Except (LoadError × σ) α
  | .ok a => .ok a
  | .error e => .error (e, acc)

/-- The callback on each partition of a level. -/
def visitAll : List Partition → σ → Except (LoadError × σ) σ
  | [], acc => return acc
  | p :: ps, acc => do visitAll ps (← leaving acc (func p acc))

mutual
/-- `foreachPartitionImpl` with a bound on the number of calls. -/
def foreachPartitionImpl : ℕ → WalkState σ → Except (LoadError × σ) (WalkState σ)
  | 0, st => throw (.outOfFuel, st.acc)
  | fuel + 1, st => do
    let (partitions, order) ← leaving st.acc (getPartitions st.stack st.order)
    let acc ← visitAll func partitions st.acc
    stepLoop fuel { st with order, acc }

/-- `while (nav->stepIn()) { .. nav->stepOut(); }`. -/
def stepLoop : ℕ → WalkState σ → Except (LoadError × σ) (WalkState σ)
  | 0, st => throw (.outOfFuel, st.acc)
  | fuel + 1, st =>
    match stepIn st.stack with
    | (false, stack) => return { st with stack }
    | (true, stack) => do
      let st' ← foreachPartitionImpl fuel { st with stack }
      stepLoop fuel { st' with stack := stepOut st'.stack }
end

/-- Visit every partition of the map `pmap`, from a new navigator. -/
def foreachPartition (pmap : Json) (acc : σ) : Except (LoadError × σ) σ := do
  let st ← foreachPartitionImpl func (2 * pmap.size)
    { stack := rootStack pmap, order := 0, acc }
  return st.acc

end Walk

end RpiFastbootd
