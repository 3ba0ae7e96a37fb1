import Gecko.Avm.ManagedAsset
import Gecko.Conflicts.Basic

/-! # Finding the UTXO an input spends (`vms/avm`: `getUTXO`, `verifyTransfer`)

An input names its UTXO by the tx that created it and an output index. `getUTXO` refuses a UTXO
of a tx accepted in a later epoch than the spender's; otherwise it takes the UTXO from the
state, or, while the creating tx is still processing, from that tx's outputs.
-/

namespace Gecko.Avm

variable {υ ω : Type}

/-- What `getUTXO` reads of the tx that created the UTXO (`newUniqueTx(vm, inputTxID, nil)`):
its status, its epoch and its outputs. -/
structure ParentTx (υ : Type) where
  status : Gecko.Status
  epoch : UInt32
  utxos : List υ

inductive UTXOError where
  | invalidUTXOEpoch
  /-- `missing UTXO from current state from source (TxID: %s, Index: %d, Status: %s)` -/
  | missingUTXO (txID : Nat) (index : UInt32) (status : Gecko.Status)
  /-- `invalid output index %d for parent tx %s (%d outputs)` -/
  | invalidOutputIndex (index : UInt32) (txID : Nat) (count : Nat)
  deriving DecidableEq

theorem lt_of_not_ofNat_le {n : Nat} {i : UInt32} (h : ¬UInt32.ofNat n ≤ i) : i.toNat < n := by
  simp [UInt32.le_def, BitVec.le_def, UInt32.toNat, UInt32.ofNat] at h ⊢
  omega

/-- `getUTXO` for the input `(inputTxID, inputIndex)` of a tx in `epoch`; `stateUTXO` is what
`vm.state.UTXO(inputID)` finds, `none` on an error. `int(inputIndex) < 0` never holds, as `int`
has 64 bits. -/
def getUTXO (inputTxID : Nat) (inputIndex : UInt32) (parent : ParentTx υ)
    (stateUTXO : Option υ) (epoch : UInt32) : Except UTXOError υ :=
  if parent.status = .accepted ∧ parent.epoch > epoch then .error .invalidUTXOEpoch
  else match stateUTXO with
    | some utxo => .ok utxo
    | none =>
      if parent.status ≠ .processing then .error (.missingUTXO inputTxID inputIndex parent.status)
      else if h : UInt32.ofNat parent.utxos.length ≤ inputIndex then
        .error (.invalidOutputIndex inputIndex inputTxID parent.utxos.length)
      else .ok (parent.utxos.get ⟨inputIndex.toNat, lt_of_not_ofNat_le h⟩)

theorem getUTXO_eq_ok {inputTxID : Nat} {inputIndex : UInt32} {parent : ParentTx υ}
    {stateUTXO : Option υ} {epoch : UInt32} {u : υ} :
    getUTXO inputTxID inputIndex parent stateUTXO epoch = .ok u ↔
      ¬(parent.status = .accepted ∧ epoch < parent.epoch) ∧
        (stateUTXO = some u ∨ stateUTXO = none ∧ parent.status = .processing ∧
          ¬UInt32.ofNat parent.utxos.length ≤ inputIndex ∧
          parent.utxos[inputIndex.toNat]? = some u) := by
  unfold getUTXO
  by_cases he : parent.status = .accepted ∧ epoch < parent.epoch
  · rw [if_pos he]
    simp [he]
  · rw [if_neg he]
    cases stateUTXO with
    | some v =>
      simp only [he, not_false_eq_true, true_and, Except.ok.injEq, Option.some.injEq,
        reduceCtorEq, false_and, or_false]
    | none =>
      by_cases hp : parent.status = .processing
      · by_cases hi : UInt32.ofNat parent.utxos.length ≤ inputIndex
        · simp [hp, hi]
        · simp [hp, hi, he, List.getElem?_eq_getElem (lt_of_not_ofNat_le hi), eq_comm]
      · simp [hp]

/-- `verifyTransfer`: the UTXO from `getUTXO`, then `verifyTransferOfUTXO` on it. `transferOf`
gives what `verifyTransferOfUTXO` reads of the tx, the input, the credential and the UTXO, and
`managedOf` what `state.ManagedAssetStatus` returns for the UTXO's asset. -/
def verifyTransfer (transferOf : υ → Transfer ω) (managedOf : υ → Managed ω) (inputTxID : Nat)
    (inputIndex : UInt32) (parent : ParentTx υ) (stateUTXO : Option υ) (epoch : UInt32) :
    Except Error Unit :=
  match getUTXO inputTxID inputIndex parent stateUTXO epoch with
  | .error _ => .error .getUTXO
  | .ok utxo => verifyTransferOfUTXO (transferOf utxo) (managedOf utxo) epoch

end Gecko.Avm
