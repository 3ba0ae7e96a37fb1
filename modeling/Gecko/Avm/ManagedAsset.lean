import Mathlib.Algebra.Group.Nat.Basic
import Mathlib.Data.Nat.Defs

/-! # Managed assets (`vms/avm`: `verifyTransferOfUTXO`, `verifyOperation`)

A managed asset's status takes effect two epochs after it is set: up to one epoch after the
update a transfer is judged against the status before it, and no new update is admitted.
Epochs are `uint32`, so `lastUpdatedEpoch + 1` wraps as in Go.
-/

namespace Gecko.Avm

/-- A managed asset's status: whether it is frozen, and its manager. -/
structure Status (ω : Type) where
  frozen : Bool
  manager : ω
  deriving DecidableEq

/-- What `state.ManagedAssetStatus` returns. -/
inductive Managed (ω : Type) where
  | notFound
  | dbError
  | found (lastUpdatedEpoch : UInt32) (status oldStatus : Status ω)

inductive Error where
  | getFx
  | assetIDMismatch
  | incompatibleFx
  | verifyTransfer
  /-- `errNoPermission`: the given credential does not authorize transfer of this UTXO -/
  | noPermission
  | database
  /-- `asset %s is frozen` -/
  | frozen (assetID : Nat)
  | getUTXO
  /-- `couldn't get managed asset's status` -/
  | managedAssetStatus
  /-- `asset update epoch (%d) must be >= 2 + most recent status update epoch (%d)` -/
  | updateTooSoon (epoch epochLastUpdated : UInt32)
  | verifyOperation
  deriving DecidableEq

variable {ω : Type}

/-! ## Transfers -/

/-- What `verifyTransferOfUTXO` reads besides the asset's status: the fx lookups, the asset
IDs, the UTXO's owner, and the owners the credential speaks for (`fx.VerifyPermission`). -/
structure Transfer (ω : Type) where
  fxFound : Bool
  utxoAssetID : Nat
  inAssetID : Nat
  fxUsage : Bool
  transferOk : Bool
  owner : ω
  permits : ω → Bool

/-- The checks of a managed asset's transfer against the status in force. -/
def judge (t : Transfer ω) (status : Status ω) : Except Error Unit :=
  if status.frozen then .error (.frozen t.utxoAssetID)
  else if t.permits t.owner then .ok ()
  else if t.permits status.manager then .ok ()
  else .error .noPermission

def verifyTransferOfUTXO (t : Transfer ω) (m : Managed ω) (epoch : UInt32) :
    Except Error Unit :=
  if !t.fxFound then .error .getFx
  else if t.utxoAssetID ≠ t.inAssetID then .error .assetIDMismatch
  else if !t.fxUsage then .error .incompatibleFx
  else if !t.transferOk then .error .verifyTransfer
  else match m with
    | .notFound => if t.permits t.owner then .ok () else .error .noPermission
    | .dbError => .error .database
    | .found lastUpdatedEpoch status oldStatus =>
      judge t (if epoch ≤ lastUpdatedEpoch + 1 then oldStatus else status)

/-- The checks before the asset's status pass. -/
def Transfer.Valid (t : Transfer ω) : Prop :=
  t.fxFound = true ∧ t.utxoAssetID = t.inAssetID ∧ t.fxUsage = true ∧ t.transferOk = true

theorem verifyTransferOfUTXO_found {t : Transfer ω} (ht : t.Valid) (e L : UInt32)
    (status oldStatus : Status ω) :
    verifyTransferOfUTXO t (.found L status oldStatus) e =
      judge t (if e ≤ L + 1 then oldStatus else status) := by
  obtain ⟨h1, h2, h3, h4⟩ := ht
  simp [verifyTransferOfUTXO, h1, h2, h3, h4]

/-! ## Operations -/

/-- What `verifyOperation` reads besides the asset's status: the asset ID of each UTXO it
spends (`none` where `getUTXO` fails), the fx lookups, whether it is an
`UpdateManagedAssetOperation`, and `fx.VerifyOperation`. -/
structure Operation where
  utxoAssetIDs : List (Option Nat)
  opAssetID : Nat
  fxFound : Bool
  fxUsage : Bool
  isUpdate : Bool
  operationOk : Bool

/-- The loop over the operation's UTXOs. -/
def checkUTXOs (opAssetID : Nat) : List (Option Nat) → Except Error Unit
  | [] => .ok ()
  | none :: _ => .error .getUTXO
  | some a :: rest => if a ≠ opAssetID then .error .assetIDMismatch else checkUTXOs opAssetID rest

/-- The check an `UpdateManagedAssetOperation` adds. -/
def checkUpdate (m : Managed ω) (epoch : UInt32) : Except Error Unit :=
  match m with
  | .found epochLastUpdated _ _ =>
    if epoch ≤ epochLastUpdated + 1 then .error (.updateTooSoon epoch epochLastUpdated)
    else .ok ()
  | _ => .error .managedAssetStatus

def verifyOperation (o : Operation) (m : Managed ω) (epoch : UInt32) : Except Error Unit :=
  match checkUTXOs o.opAssetID o.utxoAssetIDs with
  | .error err => .error err
  | .ok () =>
    if !o.fxFound then .error .getFx
    else if !o.fxUsage then .error .incompatibleFx
    else match (if o.isUpdate then checkUpdate m epoch else .ok ()) with
      | .error err => .error err
      | .ok () => if o.operationOk then .ok () else .error .verifyOperation

/-- An `UpdateManagedAssetOperation` whose checks before the asset's status pass. -/
def Operation.ValidUpdate (o : Operation) : Prop :=
  checkUTXOs o.opAssetID o.utxoAssetIDs = .ok () ∧ o.fxFound = true ∧ o.fxUsage = true ∧
    o.isUpdate = true

theorem verifyOperation_found {o : Operation} (ho : o.ValidUpdate) (e L : UInt32)
    (status oldStatus : Status ω) :
    verifyOperation o (.found L status oldStatus) e =
      if e ≤ L + 1 then .error (.updateTooSoon e L)
      else if o.operationOk then .ok () else .error .verifyOperation := by
  obtain ⟨h1, h2, h3, h4⟩ := ho
  by_cases he : e ≤ L + 1 <;> simp [verifyOperation, checkUpdate, h1, h2, h3, h4, he]

/-! ## The epoch comparison -/

theorem le_add_one_iff (e L : UInt32) : e ≤ L + 1 ↔ e.toNat ≤ (L.toNat + 1) % 2 ^ 32 := by
  simp [UInt32.le_def, BitVec.le_def, UInt32.add_def, BitVec.toNat_add, UInt32.toNat]

theorem le_add_one_iff_of_ne (e L : UInt32) (hL : L ≠ 4294967295) :
    e ≤ L + 1 ↔ e.toNat ≤ L.toNat + 1 := by
  have : L.toNat ≠ 4294967295 := fun h => hL (UInt32.eq_of_val_eq (Fin.ext h))
  have hlt := L.toNat_lt_size
  simp only [UInt32.size] at hlt
  rw [le_add_one_iff, Nat.mod_eq_of_lt (by omega)]

theorem verifyTransferOfUTXO_int {t : Transfer ω} (ht : t.Valid) (e L : UInt32)
    (hL : L ≠ 4294967295) (status oldStatus : Status ω) :
    verifyTransferOfUTXO t (.found L status oldStatus) e =
      judge t (if e.toNat ≤ L.toNat + 1 then oldStatus else status) := by
  rw [verifyTransferOfUTXO_found ht, if_congr (le_add_one_iff_of_ne e L hL) rfl rfl]

theorem verifyOperation_int {o : Operation} (ho : o.ValidUpdate) (e L : UInt32)
    (hL : L ≠ 4294967295) (status oldStatus : Status ω) :
    verifyOperation o (.found L status oldStatus) e =
      if e.toNat ≤ L.toNat + 1 then .error (.updateTooSoon e L)
      else if o.operationOk then .ok () else .error .verifyOperation := by
  rw [verifyOperation_found ho, if_congr (le_add_one_iff_of_ne e L hL) rfl rfl]

/-- A transfer by the UTXO's owner. -/
def ownerTransfer : Transfer Nat := ⟨true, 0, 0, true, true, 0, fun _ => true⟩

def unfrozen : Status Nat := ⟨false, 0⟩

def frozenStatus : Status Nat := ⟨true, 0⟩

/-- An `UpdateManagedAssetOperation` that spends no UTXO and that its fx accepts. -/
def updateOp : Operation := ⟨[], 0, true, true, true, true⟩

/-- An asset last updated in epoch `2^32 - 1`, frozen before that update: in epoch `5` the
integer rule still judges a transfer against the frozen old status and forbids an update,
while the code, with `lastUpdatedEpoch+1 = 0`, takes the new status and admits the update. -/
theorem epoch_check_wraps :
    (5 : UInt32).toNat ≤ (4294967295 : UInt32).toNat + 1 ∧
    judge ownerTransfer frozenStatus = .error (.frozen 0) ∧
    verifyTransferOfUTXO ownerTransfer (.found 4294967295 unfrozen frozenStatus) 5 = .ok () ∧
    verifyOperation updateOp (.found 4294967295 unfrozen frozenStatus) 5 = .ok () :=
  ⟨by decide, rfl, rfl, rfl⟩

end Gecko.Avm
