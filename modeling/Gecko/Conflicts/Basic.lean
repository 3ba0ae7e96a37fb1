import Mathlib.Logic.Function.Basic
import Mathlib.Data.List.Perm.Basic

/-! # The conflict manager (`snow/consensus/snowstorm/conflicts`)

`Conflicts` as `conflicts.go` has it. The `events.Blocker` it uses, and the acceptor and
rejector it registers, are not among the sources: they follow the spec's account of them.
A blocker keeps, under each ID, the arena indices of the entries waiting on that ID.
-/

namespace Gecko

/-- `choices.Status`. -/
inductive Status where
  | unknown | processing | rejected | accepted
  deriving DecidableEq, Repr

/-- The `Tx` interface as the manager reads it. A tx ID is the hash of the tx's bytes, so a
tx's inputs and dependencies are functions of its ID. -/
structure TxIndex (ι : Type) where
  inputIDs : ι → List ι
  dependencies : ι → List ι

/-- A `choices.Decidable` handed to the manager: one of its `Tx`s, or a decidable of
another type. -/
inductive Choice (ι : Type) where
  | tx (id : ι)
  | other (id : ι)
  deriving DecidableEq, Repr

/-- The fields an `acceptor` and a `rejector` share. -/
structure Entry (ι : Type) where
  tx : ι
  deps : List ι
  rejected : Bool
  deriving DecidableEq, Repr

/-- What a blockable does on `Fulfill` and `Abandon` (its new state, and whether it queues
its tx), and whether `Update` queues its tx when it is registered. -/
structure Blockable (ι : Type) where
  fulfill : ι → Entry ι → Entry ι × Bool
  abandon : ι → Entry ι → Entry ι × Bool
  update : Entry ι → Bool

/-- `events.Blocker` together with the arena of its entries: `waiting id` holds the indices
of the entries registered on `id`. -/
structure Blocker (ι : Type) where
  waiting : ι → List Nat
  entries : List (Entry ι)

/-- `Conflicts`. A tx is its ID, so `txs` is the set of processing IDs. -/
structure Conflicts (ι : Type) where
  txs : List ι
  utxos : ι → Option (List ι)
  pendingAccept : Blocker ι
  pendingReject : Blocker ι
  acceptable : List ι
  rejectable : List ι

/-- The order in which `range` visits `conflicts(tx)`. Go leaves map order unspecified, so
it is any rearrangement, possibly a different one for each tx. -/
structure MapOrder (ι : Type) where
  arrange : ι → List ι → List ι
  perm : ∀ t l, (arrange t l).Perm l

variable {ι : Type} [DecidableEq ι]

/-- Modelled from the spec: an acceptor drops each fulfilled ID and queues its tx when none
is left, unless one of its dependencies was abandoned. -/
def acceptor : Blockable ι where
  fulfill id e := ({ e with deps := e.deps.erase id }, !e.rejected && (e.deps.erase id).isEmpty)
  abandon _ e := ({ e with rejected := true }, false)
  update e := !e.rejected && e.deps.isEmpty

/-- Modelled from the spec: a rejector queues its tx on the first ID fulfilled, and ignores
abandons. -/
def rejector : Blockable ι where
  fulfill _ e := ({ e with rejected := true }, !e.rejected)
  abandon _ e := (e, false)
  update _ := false

/-- Notify the entries at `is` in turn; return the arena and the txs queued, in order. -/
def notify (step : Entry ι → Entry ι × Bool) : List Nat → List (Entry ι) → List (Entry ι) × List ι
  | [], es => (es, [])
  | i :: is, es =>
    match es[i]? with
    | none => notify step is es
    | some e =>
      let r := notify step is (es.set i (step e).1)
      (r.1, if (step e).2 then (step e).1.tx :: r.2 else r.2)

namespace Blocker

/-- Modelled from the spec: `Fulfill` and `Abandon` drop the entries waiting on `id`, then
notify each of them. -/
def release (b : Blocker ι) (id : ι) (step : Entry ι → Entry ι × Bool) : Blocker ι × List ι :=
  let r := notify step (b.waiting id) b.entries
  (⟨Function.update b.waiting id [], r.1⟩, r.2)

def fulfill (k : Blockable ι) (b : Blocker ι) (id : ι) : Blocker ι × List ι :=
  b.release id (k.fulfill id)

def abandon (k : Blockable ι) (b : Blocker ι) (id : ι) : Blocker ι × List ι :=
  b.release id (k.abandon id)

/-- Modelled from the spec: `Register` files the entry under each of its dependencies, then
calls its `Update`. -/
def register (k : Blockable ι) (b : Blocker ι) (e : Entry ι) : Blocker ι × List ι :=
  (⟨fun id => if id ∈ e.deps then b.waiting id ++ [b.entries.length] else b.waiting id,
    b.entries ++ [e]⟩, if k.update e then [e.tx] else [])

end Blocker

namespace Conflicts

/-- `New()`. -/
def new : Conflicts ι := ⟨[], fun _ => none, ⟨fun _ => [], []⟩, ⟨fun _ => [], []⟩, [], []⟩

/-- The dependencies that are not accepted yet, added to the set `s`. -/
def unaccepted (status : ι → Status) (deps s : List ι) : List ι :=
  deps.foldl (fun s d => if status d ≠ .accepted then s.insert d else s) s

/-- Record `t` as a spender of `x`. -/
def addSpender (t : ι) (u : ι → Option (List ι)) (x : ι) : ι → Option (List ι) :=
  Function.update u x (some (((u x).getD []).insert t))

/-- Drop `t` from the spenders of `x`, and the bucket once it is empty. -/
def removeSpender (t : ι) (u : ι → Option (List ι)) (x : ι) : ι → Option (List ι) :=
  let spenders := ((u x).getD []).erase t
  Function.update u x (if spenders.length = 0 then none else some spenders)

/-- `Add` of a `Tx`: mark its inputs and register its rejector. -/
def addTx (G : TxIndex ι) (status : ι → Status) (c : Conflicts ι) (t : ι) : Conflicts ι :=
  let r := c.pendingReject.register rejector ⟨t, unaccepted status (G.dependencies t) [t], false⟩
  { c with txs := c.txs.insert t, utxos := (G.inputIDs t).foldl (addSpender t) c.utxos,
           pendingReject := r.1, rejectable := c.rejectable ++ r.2 }

def add (G : TxIndex ι) (status : ι → Status) (c : Conflicts ι) :
    Choice ι → Except String (Conflicts ι)
  | .tx t => .ok (c.addTx G status t)
  | .other _ => .error "invalid tx type"

def isVirtuous (G : TxIndex ι) (c : Conflicts ι) : Choice ι → Except String Bool
  | .tx t => .ok ((G.inputIDs t).all fun x => (c.utxos x).isNone)
  | .other _ => .error "invalid tx type"

/-- `conflicts(tx)`: the union of the buckets of the tx's inputs. -/
def conflictsTx (G : TxIndex ι) (c : Conflicts ι) (t : ι) : List ι :=
  (G.inputIDs t).foldl (fun s x => s ∪ (c.utxos x).getD []) []

/-- `Conflicts`, the exported form of `conflicts`. -/
def conflicts (G : TxIndex ι) (c : Conflicts ι) : Choice ι → Except String (List ι)
  | .tx t => .ok (c.conflictsTx G t)
  | .other _ => .error "invalid tx type"

/-- `Accept` of a processing tx: register its acceptor. -/
def acceptTx (G : TxIndex ι) (status : ι → Status) (c : Conflicts ι) (t : ι) : Conflicts ι :=
  let r := c.pendingAccept.register acceptor ⟨t, unaccepted status (G.dependencies t) [], false⟩
  { c with pendingAccept := r.1, acceptable := c.acceptable ++ r.2 }

/-- `Accept`. Looking up an ID that is not processing gives a nil `Tx`, whose
`Dependencies` call panics. -/
def accept (G : TxIndex ι) (status : ι → Status) (c : Conflicts ι) (t : ι) :
    Option (Conflicts ι) :=
  if t ∈ c.txs then some (c.acceptTx G status t) else none

def fulfillAccept (c : Conflicts ι) (id : ι) : Conflicts ι :=
  let r := c.pendingAccept.fulfill acceptor id
  { c with pendingAccept := r.1, acceptable := c.acceptable ++ r.2 }

def abandonAccept (c : Conflicts ι) (id : ι) : Conflicts ι :=
  let r := c.pendingAccept.abandon acceptor id
  { c with pendingAccept := r.1, acceptable := c.acceptable ++ r.2 }

def fulfillReject (c : Conflicts ι) (id : ι) : Conflicts ι :=
  let r := c.pendingReject.fulfill rejector id
  { c with pendingReject := r.1, rejectable := c.rejectable ++ r.2 }

def abandonReject (c : Conflicts ι) (id : ι) : Conflicts ι :=
  let r := c.pendingReject.abandon rejector id
  { c with pendingReject := r.1, rejectable := c.rejectable ++ r.2 }

/-- Forget a decided tx: its spender entries and its `txs` entry. -/
def removeTx (G : TxIndex ι) (c : Conflicts ι) (t : ι) : Conflicts ι :=
  { c with utxos := (G.inputIDs t).foldl (removeSpender t) c.utxos, txs := c.txs.erase t }

/-- One round of the acceptable loop of `Updateable`. -/
def drainAccepted (G : TxIndex ι) (o : MapOrder ι) (c : Conflicts ι) (t : ι) : Conflicts ι :=
  let c := ((c.removeTx G t).fulfillAccept t).abandonReject t
  (o.arrange t (c.conflictsTx G t)).foldl fulfillReject c

/-- One round of the rejectable loop of `Updateable`. -/
def drainRejected (G : TxIndex ι) (c : Conflicts ι) (t : ι) : Conflicts ι :=
  ((c.removeTx G t).abandonAccept t).fulfillReject t

/-- `Updateable`: the new state, and the acceptable and rejectable txs it returns. -/
def updateable (G : TxIndex ι) (o : MapOrder ι) (c : Conflicts ι) :
    Conflicts ι × List ι × List ι :=
  let acceptable := c.acceptable
  let c := acceptable.foldl (drainAccepted G o) { c with acceptable := [] }
  let rejectable := c.rejectable
  (rejectable.foldl (drainRejected G) { c with rejectable := [] }, acceptable, rejectable)

end Conflicts

end Gecko
