import Mathlib.Data.List.Sort

/-! # Fetching UTXOs by address (`vms/avm`: `GetUTXOs`)

`GetUTXOs` either pages through the UTXOs of a set of addresses, resuming after a cursor
`(lastAddr, lastUTXOID)`, or fetches them all. Both walk the addresses in ascending order and
each address's UTXO IDs in ascending order, and skip the IDs already met in the call.
Addresses and IDs are compared by their bytes, which we take as the number they spell, and a
UTXO is seen through its ID.
-/

namespace Gecko.Avm

/-- `ids.ShortEmpty`. -/
def shortEmpty : Nat := 0

/-- `ids.Empty`. -/
def empty : Nat := 0

def maxUTXOsToFetch : Nat := 1024

/-- Modelled from the spec: the funds index, the ascending UTXO IDs of each address. -/
structure Funds where
  ids : Nat → List Nat
  sorted : ∀ addr, (ids addr).Sorted (· < ·)

/-- Modelled from the spec: `state.Funds(addr, start, n)`, the first `n` IDs of `addr` above
`start`. -/
def Funds.funds (F : Funds) (addr start n : Nat) : List Nat :=
  ((F.ids addr).filter (start < ·)).take n

/-- Modelled from the spec: an `ids.ShortSet`, through the list its `List()` returns. -/
structure ShortSet where
  list : List Nat
  nodup : list.Nodup

/-- Modelled from the spec: `ids.SortShortIDs` sorts in ascending byte order. -/
def sortShortIDs (l : List Nat) : List Nat := l.insertionSort (· ≤ ·)

/-- Appends an ID unless the list has it: the loops' `seen` check, where `seen` holds exactly the
IDs appended. -/
def addNew (utxos : List Nat) (utxoID : Nat) : List Nat :=
  if utxoID ∈ utxos then utxos else utxos ++ [utxoID]

/-! ## `getPaginatedUTXOs` -/

/-- The variables of `getPaginatedUTXOs`' loops. -/
structure Page where
  utxos : List Nat
  limit : Nat
  lastAddr : Nat
  lastIndex : Nat
  deriving DecidableEq

/-- The loop over one `Funds` answer; `true` when it found `limit` UTXOs and returned. -/
def scanIDs (addr : Nat) : List Nat → Page → Page × Bool
  | [], p => (p, false)
  | utxoID :: utxoIDs, p =>
    let p := { p with lastIndex := utxoID, lastAddr := addr }
    if utxoID ∈ p.utxos then scanIDs addr utxoIDs p
    else
      let p := { p with utxos := p.utxos ++ [utxoID], limit := p.limit - 1 }
      if p.limit = 0 then (p, true) else scanIDs addr utxoIDs p

/-- The loop over the sorted addresses; every `Funds` call asks for `searchSize` IDs. -/
def scanAddrs (F : Funds) (startAddr startUTXOID searchSize : Nat) : List Nat → Page → Page
  | [], p => p
  | addr :: addrs, p =>
    if addr < startAddr then scanAddrs F startAddr startUTXOID searchSize addrs p
    else
      let start := if addr = startAddr then startUTXOID else empty
      match scanIDs addr (F.funds addr start searchSize) p with
      | (p, true) => p
      | (p, false) => scanAddrs F startAddr startUTXOID searchSize addrs p

def getPaginatedUTXOs (F : Funds) (addrs : ShortSet) (startAddr startUTXOID limit : Nat) :
    List Nat × Nat × Nat :=
  let p := scanAddrs F startAddr startUTXOID limit (sortShortIDs addrs.list)
    ⟨[], limit, shortEmpty, empty⟩
  (p.utxos, p.lastAddr, p.lastIndex)

/-! ## `getAllUTXOs` -/

/-- One turn of `getAllUniqueAddressUTXOs`' inner loop, over `(lastIndex, seen, utxos)`: the ID
becomes `lastIndex`, and unless `seen` has it, it is appended and added to `seen`. The
`ids.Set` `seen` is kept as the list of its IDs in the order they were added. -/
def addUnseen (r : Nat × List Nat × List Nat) (utxoID : Nat) : Nat × List Nat × List Nat :=
  if utxoID ∈ r.2.1 then (utxoID, r.2.1, r.2.2)
  else (utxoID, r.2.1 ++ [utxoID], r.2.2 ++ [utxoID])

/-- The `for` loop of `getAllUniqueAddressUTXOs`, one turn per `Funds` answer, at most `fuel`
turns. -/
def getAllUniqueAddressUTXOsLoop (F : Funds) (addr : Nat) :
    Nat → Nat → List Nat → List Nat → Nat × List Nat × List Nat
  | 0, lastIndex, seen, utxos => (lastIndex, seen, utxos)
  | fuel + 1, lastIndex, seen, utxos =>
    match F.funds addr lastIndex maxUTXOsToFetch with
    | [] => (lastIndex, seen, utxos)
    | utxoIDs =>
      let r := utxoIDs.foldl addUnseen (lastIndex, seen, utxos)
      getAllUniqueAddressUTXOsLoop F addr fuel r.1 r.2.1 r.2.2

/-- Every turn but the last takes at least one ID, so one turn more than the address has IDs
lets the loop run until `Funds` returns nothing. -/
def getAllUniqueAddressUTXOs (F : Funds) (addr : Nat) (seen utxos : List Nat) :
    Nat × List Nat × List Nat :=
  getAllUniqueAddressUTXOsLoop F addr ((F.ids addr).length + 1) empty seen utxos

/-- One turn of `getAllUTXOs`' loop over the sorted addresses, over
`(seen, utxos, lastAddr, lastIndex)`. -/
def getAllUTXOsStep (F : Funds) (r : List Nat × List Nat × Nat × Nat) (addr : Nat) :
    List Nat × List Nat × Nat × Nat :=
  let (lastIndex, seen, utxos) := getAllUniqueAddressUTXOs F addr r.1 r.2.1
  (seen, utxos, if lastIndex ≠ empty then addr else r.2.2.1, lastIndex)

def getAllUTXOs (F : Funds) (addrs : ShortSet) : List Nat × Nat × Nat :=
  ((sortShortIDs addrs.list).foldl (getAllUTXOsStep F) ([], [], shortEmpty, empty)).2

def getUTXOs (F : Funds) (addrs : ShortSet) (startAddr startUTXOID : Nat) (limit : Int)
    (paginate : Bool) : List Nat × Nat × Nat :=
  let limit := if limit ≤ 0 ∨ limit > maxUTXOsToFetch then maxUTXOsToFetch else limit.toNat
  if paginate then getPaginatedUTXOs F addrs startAddr startUTXOID limit
  else getAllUTXOs F addrs

/-! ## Appending new IDs -/

@[simp] theorem mem_addNew {utxos : List Nat} {x y : Nat} :
    x ∈ addNew utxos y ↔ x ∈ utxos ∨ x = y := by
  unfold addNew; split <;> simp_all [or_iff_left_of_imp]

theorem addNew_nodup {utxos : List Nat} (h : utxos.Nodup) (y : Nat) : (addNew utxos y).Nodup := by
  unfold addNew; split
  · exact h
  · exact h.append (List.nodup_singleton y) (by simpa)

end Gecko.Avm
