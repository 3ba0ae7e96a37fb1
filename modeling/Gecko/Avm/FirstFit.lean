import Gecko.Avm.Operations
import Gecko.Avm.Spend

/-! # Operations on one UTXO (`vms/avm`: `SpendNFT`, `MintNFT`, `newUpdateManagedAssetStatusOperation`)

Each of the three walks the UTXOs and builds one operation, from the first UTXO of the asset
that the keys can use. `SpendNFT` and `MintNFT` share a loop that stops once an operation is
built, then sort the operations with their signers; `newUpdateManagedAssetStatusOperation`
returns from inside its loop.
-/

namespace Gecko.Avm

variable {ο π ψ ι μ σ ε ω : Type}

/-! ## The loop of `SpendNFT` and `MintNFT` -/

/-- The loop `SpendNFT` and `MintNFT` share: each turn first stops if an operation is built;
`build` is the rest of the turn on one UTXO, `none` where it `continue`s. -/
def buildOneLoop (build : UTXO ο → Option (ω × List σ)) :
    List (UTXO ο) → List ω → List (List σ) → List ω × List (List σ)
  | [], ops, keys => (ops, keys)
  | utxo :: utxos, ops, keys =>
    if ops.length > 0 then (ops, keys)
    else match build utxo with
      | none => buildOneLoop build utxos ops keys
      | some (op, signers) => buildOneLoop build utxos (ops ++ [op]) (keys ++ [signers])

/-- The loop, then `err` when it built nothing, else the operations sorted with their signers
by `sortOps`, which is `sortOperationsWithSigners` with the VM's codec. -/
def buildOne (sortOps : List ω → List (List σ) → List ω × List (List σ)) (err : ε)
    (build : UTXO ο → Option (ω × List σ)) (utxos : List (UTXO ο)) :
    Except ε (List ω × List (List σ)) :=
  let r := buildOneLoop build utxos [] []
  if r.1.length = 0 then .error err else .ok (sortOps r.1 r.2)

theorem buildOneLoop_stops (build : UTXO ο → Option (ω × List σ)) (utxos : List (UTXO ο))
    (op : ω) (ops : List ω) (keys : List (List σ)) :
    buildOneLoop build utxos (op :: ops) keys = (op :: ops, keys) := by
  cases utxos <;> simp [buildOneLoop]

theorem buildOneLoop_eq (build : UTXO ο → Option (ω × List σ)) : ∀ utxos : List (UTXO ο),
    buildOneLoop build utxos [] [] = match utxos.findSome? build with
      | none => ([], [])
      | some (op, signers) => ([op], [signers])
  | [] => rfl
  | utxo :: utxos => by
    cases h : build utxo with
    | none => simp [buildOneLoop, h, buildOneLoop_eq build utxos]
    | some p => simp [buildOneLoop, h, buildOneLoop_stops]

section sort

variable (codec : Nat → ω → Except String (List Nat)) (codecVersion : Nat)

/-- `SpendNFT` and `MintNFT` return exactly one operation, built from the first UTXO their loop
can use, and fail with their error only when there is none: the loop stops at the first
operation, and sorting one operation with its signers leaves them as they are. -/
theorem buildOne_first_fit {sortOps : List ω → List (List σ) → List ω × List (List σ)}
    (hsort : ∀ (op : ω) (signers : List σ),
      sortOperationsWithSigners codec codecVersion [op] [signers] (sortOps [op] [signers]))
    (err : ε) (build : UTXO ο → Option (ω × List σ)) (utxos : List (UTXO ο)) :
    buildOne sortOps err build utxos = match utxos.findSome? build with
      | none => .error err
      | some (op, signers) => .ok ([op], [signers]) := by
  unfold buildOne
  rw [buildOneLoop_eq]
  cases utxos.findSome? build with
  | none => rfl
  | some p => simp [sortOperationsWithSigners_singleton (hsort p.1 p.2)]

end sort

inductive NftError where
  | insufficientFunds
  | addressesCantMintAsset
  deriving DecidableEq, Repr

/-! ## `SpendNFT` -/

/-- An `nftfx.TransferOutput`: its group, its payload and its owners. -/
structure NftTransferOutput (π : Type) where
  groupID : UInt32
  payload : List UInt8
  owners : π

/-- The `Operation` `SpendNFT` builds: an `nftfx.TransferOperation` of the UTXO `utxoID`,
signed at `sigIndices`, whose output keeps the group and the payload and is owned by `toAddr`
alone (threshold `1`). -/
structure NftTransferOp where
  assetID : Nat
  utxoID : Nat
  sigIndices : List UInt32
  groupID : UInt32
  payload : List UInt8
  toAddr : Nat
  deriving DecidableEq, Repr

section spendNFT

variable (transferOutput : ο → Option (NftTransferOutput π))
  (kcMatch : π → Nat → Option (List UInt32 × List σ)) (time : Nat)

/-- A turn of `SpendNFT`'s loop. `transferOutput` is the UTXO's output when it is an
`*nftfx.TransferOutput`, and `kcMatch` is `kc.Match` on its owners: `none` when the keys cannot
spend it at `time`, else the signature indices and the signers. -/
def spendNFTBuild (assetID : Nat) (groupID : UInt32) (toAddr : Nat) (utxo : UTXO ο) :
    Option (NftTransferOp × List σ) :=
  if utxo.assetID ≠ assetID then none
  else match transferOutput utxo.out with
    | none => none
    | some out =>
      if out.groupID ≠ groupID then none
      else match kcMatch out.owners time with
        | none => none
        | some (indices, signers) =>
          some (⟨utxo.assetID, utxo.utxoID, indices, out.groupID, out.payload, toAddr⟩, signers)

def spendNFT (sortOps : List NftTransferOp → List (List σ) → List NftTransferOp × List (List σ))
    (utxos : List (UTXO ο)) (assetID : Nat) (groupID : UInt32) (toAddr : Nat) :
    Except NftError (List NftTransferOp × List (List σ)) :=
  buildOne sortOps .insufficientFunds
    (spendNFTBuild transferOutput kcMatch time assetID groupID toAddr) utxos

end spendNFT

/-! ## `MintNFT` -/

/-- An `nftfx.MintOutput`: its group and its owners. -/
structure NftMintOutput (π : Type) where
  groupID : UInt32
  owners : π

/-- The `Operation` `MintNFT` builds: an `nftfx.MintOperation` of the UTXO `utxoID`, signed at
`sigIndices`, that mints `payload` in the output's group for `toAddr` alone (threshold `1`). -/
structure NftMintOp where
  assetID : Nat
  utxoID : Nat
  sigIndices : List UInt32
  groupID : UInt32
  payload : List UInt8
  toAddr : Nat
  deriving DecidableEq, Repr

section mintNFT

variable (mintOutput : ο → Option (NftMintOutput π))
  (kcMatch : π → Nat → Option (List UInt32 × List σ)) (time : Nat)

/-- A turn of `MintNFT`'s loop. `mintOutput` is the UTXO's output when it is an
`*nftfx.MintOutput`; `kcMatch` is as for `SpendNFT`. -/
def mintNFTBuild (assetID : Nat) (payload : List UInt8) (toAddr : Nat) (utxo : UTXO ο) :
    Option (NftMintOp × List σ) :=
  if utxo.assetID ≠ assetID then none
  else match mintOutput utxo.out with
    | none => none
    | some out =>
      match kcMatch out.owners time with
      | none => none
      | some (indices, signers) =>
        some (⟨assetID, utxo.utxoID, indices, out.groupID, payload, toAddr⟩, signers)

def mintNFT (sortOps : List NftMintOp → List (List σ) → List NftMintOp × List (List σ))
    (utxos : List (UTXO ο)) (assetID : Nat) (payload : List UInt8) (toAddr : Nat) :
    Except NftError (List NftMintOp × List (List σ)) :=
  buildOne sortOps .addressesCantMintAsset
    (mintNFTBuild mintOutput kcMatch time assetID payload toAddr) utxos

end mintNFT

/-- Two UTXOs of an NFT the keys hold (`kc.Match` answers for owners `5` and `6`) after one
they do not, and a sort that keeps the order. -/
def heldNfts : List (UTXO (NftTransferOutput Nat)) :=
  [⟨1, 7, ⟨0, [], 0⟩⟩, ⟨2, 7, ⟨0, [9], 5⟩⟩, ⟨3, 7, ⟨0, [], 6⟩⟩]

def matchNonzero (owners : Nat) (_ : Nat) : Option (List UInt32 × List Nat) :=
  if owners = 0 then none else some ([0], [owners])

/-- A codec that writes an NFT transfer as its UTXO's ID. -/
def utxoIDCodec (_ : Nat) (op : NftTransferOp) : Except String (List Nat) := .ok [op.utxoID]

theorem heldNfts_first :
    (∀ (op : NftTransferOp) (signers : List Nat),
      sortOperationsWithSigners utxoIDCodec 0 [op] [signers] (([op], [signers]) :
        List NftTransferOp × List (List Nat))) ∧
    spendNFT some matchNonzero 0 Prod.mk heldNfts 7 0 1 =
      match heldNfts.findSome? (spendNFTBuild some matchNonzero 0 7 0 1) with
      | none => .error .insufficientFunds
      | some (op, signers) => .ok ([op], [signers]) :=
  have hsort : ∀ (op : NftTransferOp) (signers : List Nat),
      sortOperationsWithSigners utxoIDCodec 0 [op] [signers] (([op], [signers]) :
        List NftTransferOp × List (List Nat)) :=
    fun _ _ => ⟨.refl, fun k hk => absurd hk (by simp [innerSortOperationsWithSigners])⟩
  ⟨hsort, buildOne_first_fit utxoIDCodec 0 hsort NftError.insufficientFunds
    (spendNFTBuild some matchNonzero 0 7 0 1) heldNfts⟩

/-! ## `newUpdateManagedAssetStatusOperation` -/

/-- The `Operation` it builds: a `secp256k1fx.UpdateManagedAssetOperation` of the UTXO
`utxoID`, with the input `kc.Spend` built, that sets the asset's frozen flag and manager. -/
structure UpdateOp (ι μ : Type) where
  assetID : Nat
  utxoID : Nat
  input : ι
  isFrozen : Bool
  mgr : μ

inductive UpdateError where
  /-- `the given UTXOs/keys can't update asset %s` -/
  | cantUpdate (assetID : Nat)
  deriving DecidableEq, Repr

section update

variable (statusOutput : ο → Option ψ) (spend : ψ → Option (Option ι × List σ))

/-- `statusOutput` is a UTXO's output when it is a `*secp256k1fx.ManagedAssetStatusOutput`, and
`spend` is `kc.Spend` on it at the given time: `none` on an error, else the input, when it is a
`*secp256k1fx.Input`, and the signers. -/
def newUpdateManagedAssetStatusOperation :
    List (UTXO ο) → Nat → Bool → μ → Except UpdateError (UpdateOp ι μ × List σ)
  | [], assetID, _, _ => .error (.cantUpdate assetID)
  | utxo :: utxos, assetID, frozen, manager =>
    if assetID ≠ utxo.assetID then
      newUpdateManagedAssetStatusOperation utxos assetID frozen manager
    else match statusOutput utxo.out with
      | none => newUpdateManagedAssetStatusOperation utxos assetID frozen manager
      | some out =>
        match spend out with
        | some (some input, signers) =>
          .ok (⟨assetID, utxo.utxoID, input, frozen, manager⟩, signers)
        | _ => newUpdateManagedAssetStatusOperation utxos assetID frozen manager

/-- A turn of its loop that returns. -/
def updateBuild (assetID : Nat) (frozen : Bool) (manager : μ) (utxo : UTXO ο) :
    Option (UpdateOp ι μ × List σ) :=
  if assetID ≠ utxo.assetID then none
  else match statusOutput utxo.out with
    | none => none
    | some out =>
      match spend out with
      | some (some input, signers) => some (⟨assetID, utxo.utxoID, input, frozen, manager⟩, signers)
      | _ => none

theorem newUpdateManagedAssetStatusOperation_eq (assetID : Nat) (frozen : Bool) (manager : μ) :
    ∀ utxos : List (UTXO ο),
    newUpdateManagedAssetStatusOperation statusOutput spend utxos assetID frozen manager =
      match utxos.findSome? (updateBuild statusOutput spend assetID frozen manager) with
      | none => .error (.cantUpdate assetID)
      | some r => .ok r
  | [] => rfl
  | utxo :: utxos => by
    have ih := newUpdateManagedAssetStatusOperation_eq assetID frozen manager utxos
    by_cases ha : assetID = utxo.assetID
    · subst ha
      cases ho : statusOutput utxo.out with
      | none => simp [newUpdateManagedAssetStatusOperation, updateBuild, ho, ih]
      | some out =>
        rcases hs : spend out with _ | ⟨_ | input, signers⟩ <;>
          simp [newUpdateManagedAssetStatusOperation, updateBuild, ho, hs, ih]
    · simp [newUpdateManagedAssetStatusOperation, updateBuild, ha, ih]

end update

end Gecko.Avm
