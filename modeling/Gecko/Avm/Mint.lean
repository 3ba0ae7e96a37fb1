import Mathlib.Data.List.Nodup
import Gecko.Avm.Spend

/-! # Minting (`vms/avm`: `Mint`)

`Mint` walks the UTXOs once and mints each requested asset from the first of its UTXOs whose
mint output the keychain can spend, for the amount requested, then deletes the asset from the
caller's map, so that no asset is minted twice. It fails when an asset with a positive amount
is left in the map.
-/

namespace Gecko.Avm

variable {ο μ ι σ : Type}

/-! ## The requested amounts -/

/-- `delete(amounts, assetID)`. -/
def Amounts.erase (m : Amounts) (a : Nat) : Amounts :=
  ⟨m.entries.filter (·.1 ≠ a), ((List.filter_sublist _).map _).nodup m.nodup⟩

theorem Amounts.get_erase (m : Amounts) (a b : Nat) :
    (m.erase a).get b = if b = a then 0 else m.get b := by
  unfold Amounts.get Amounts.erase
  split_ifs with h
  · subst h
    rw [List.find?_eq_none.2 (by simp)]
    rfl
  · simp only [List.find?_filter]
    congr 3
    funext e
    by_cases he : e.1 = b
    · simp [he, h]
    · simp [he]

theorem Amounts.get_of_mem (m : Amounts) {e : Nat × UInt64} (he : e ∈ m.entries) :
    m.get e.1 = e.2 := by
  unfold Amounts.get
  rcases hf : m.entries.find? (·.1 = e.1) with _ | e'
  · simp only [List.find?_eq_none, decide_eq_true_eq] at hf
    exact absurd rfl (hf e he)
  · have hk : e'.1 = e.1 := by simpa using List.find?_some hf
    rw [hf, List.inj_on_of_nodup_map m.nodup (List.mem_of_find?_eq_some hf) he hk]
    rfl

/-! ## `Mint` -/

/-- The `Operation` `Mint` builds from a UTXO: a `secp256k1fx.MintOperation` that keeps the mint
output and sends `amt` to `toAddr` (`to`), with threshold `1`. -/
structure MintOp (μ ι : Type) where
  assetID : Nat
  utxoID : Nat
  mintInput : ι
  mintOutput : μ
  amt : UInt64
  toAddr : Nat

/-- The loop of `Mint`. `mintOutput` is a UTXO's output when it is a
`*secp256k1fx.MintOutput`, and `spend` is `kc.Spend` on it at the current time: `none` on an
error, else the input, when it is a `*secp256k1fx.Input`, and the signers. -/
def mintLoop (mintOutput : ο → Option μ) (spend : μ → Option (Option ι × List σ)) (toAddr : Nat) :
    List (UTXO ο) → Amounts → List (MintOp μ ι) → List (List σ) →
      Amounts × List (MintOp μ ι) × List (List σ)
  | [], amounts, ops, keys => (amounts, ops, keys)
  | utxo :: utxos, amounts, ops, keys =>
    let assetID := utxo.assetID
    let amount := amounts.get assetID
    if amount = 0 then mintLoop mintOutput spend toAddr utxos amounts ops keys
    else match mintOutput utxo.out with
      | none => mintLoop mintOutput spend toAddr utxos amounts ops keys
      | some out =>
        match spend out with
        | some (some input, signers) =>
          mintLoop mintOutput spend toAddr utxos (amounts.erase assetID)
            (ops ++ [⟨assetID, utxo.utxoID, input, out, amount, toAddr⟩]) (keys ++ [signers])
        | _ => mintLoop mintOutput spend toAddr utxos amounts ops keys

inductive MintError where
  | addressesCantMintAsset
  deriving DecidableEq

/-- `sortOps` is `sortOperationsWithSigners` with the VM's codec. `Mint` deletes the assets it
mints from the caller's map `amounts`; the map after the call comes first. -/
def mint (sortOps : List (MintOp μ ι) → List (List σ) → List (MintOp μ ι) × List (List σ))
    (mintOutput : ο → Option μ) (spend : μ → Option (Option ι × List σ))
    (utxos : List (UTXO ο)) (amounts : Amounts) (toAddr : Nat) :
    Amounts × Except MintError (List (MintOp μ ι) × List (List σ)) :=
  let r := mintLoop mintOutput spend toAddr utxos amounts [] []
  (r.1, if r.1.entries.any (fun e => e.2 > 0) then .error .addressesCantMintAsset
    else .ok (sortOps r.2.1 r.2.2))

/-! ## What the loop mints -/

section mints

variable (mintOutput : ο → Option μ) (spend : μ → Option (Option ι × List σ)) (toAddr : Nat)

/-- What a UTXO can mint with: its mint output, the input the keychain builds, and the signers. -/
def mintWith (u : UTXO ο) : Option (μ × ι × List σ) :=
  match mintOutput u.out with
  | none => none
  | some out =>
    match spend out with
    | some (some input, signers) => some (out, input, signers)
    | _ => none

/-- The operations the loop builds, with their signers, from a map of amounts. -/
def mints (amounts : Amounts) : List (UTXO ο) → List (MintOp μ ι × List σ)
  | [] => []
  | u :: utxos =>
    if amounts.get u.assetID = 0 then mints amounts utxos
    else match mintWith mintOutput spend u with
      | none => mints amounts utxos
      | some (out, input, signers) =>
        (⟨u.assetID, u.utxoID, input, out, amounts.get u.assetID, toAddr⟩, signers) ::
          mints (amounts.erase u.assetID) utxos

theorem mintLoop_cons (u : UTXO ο) (utxos : List (UTXO ο)) (amounts : Amounts)
    (ops : List (MintOp μ ι)) (keys : List (List σ)) :
    mintLoop mintOutput spend toAddr (u :: utxos) amounts ops keys =
      if amounts.get u.assetID = 0 then mintLoop mintOutput spend toAddr utxos amounts ops keys
      else match mintWith mintOutput spend u with
        | none => mintLoop mintOutput spend toAddr utxos amounts ops keys
        | some (out, input, signers) =>
          mintLoop mintOutput spend toAddr utxos (amounts.erase u.assetID)
            (ops ++ [⟨u.assetID, u.utxoID, input, out, amounts.get u.assetID, toAddr⟩])
            (keys ++ [signers]) := by
  simp only [mintLoop, mintWith]
  split_ifs
  · rfl
  · rcases mintOutput u.out with _ | out
    · rfl
    · dsimp only
      rcases spend out with _ | ⟨_ | input, signers⟩ <;> rfl

theorem mintLoop_eq : ∀ (utxos : List (UTXO ο)) (amounts : Amounts) (ops : List (MintOp μ ι))
    (keys : List (List σ)),
    let sel := mints mintOutput spend toAddr amounts utxos
    (mintLoop mintOutput spend toAddr utxos amounts ops keys).2 =
        (ops ++ sel.map Prod.fst, keys ++ sel.map Prod.snd) ∧
      (mintLoop mintOutput spend toAddr utxos amounts ops keys).1.entries =
        amounts.entries.filter (·.1 ∉ sel.map (·.1.assetID))
  | [], amounts, ops, keys => by simp [mintLoop, mints]
  | u :: utxos, amounts, ops, keys => by
    rw [mintLoop_cons]
    by_cases h0 : amounts.get u.assetID = 0
    · simpa only [mints, h0, if_true] using mintLoop_eq utxos amounts ops keys
    rcases hm : mintWith mintOutput spend u with _ | ⟨out, input, signers⟩
    · simpa only [mints, h0, hm, if_false] using mintLoop_eq utxos amounts ops keys
    obtain ⟨ih1, ih2⟩ := mintLoop_eq utxos (amounts.erase u.assetID)
      (ops ++ [⟨u.assetID, u.utxoID, input, out, amounts.get u.assetID, toAddr⟩]) (keys ++ [signers])
    simp only [mints, h0, hm, if_false]
    refine ⟨by simpa using ih1, ?_⟩
    rw [ih2, Amounts.erase, List.filter_filter]
    congr 1
    funext e
    simp only [List.map_cons, List.mem_cons, not_or, Bool.decide_and, ne_eq, Bool.and_comm]

/-- `q` mints from a UTXO of `utxos` before which no UTXO of its asset can mint. -/
def FirstMint (utxos : List (UTXO ο)) (q : MintOp μ ι × List σ) : Prop :=
  ∃ pre u post, utxos = pre ++ u :: post ∧ u.utxoID = q.1.utxoID ∧ u.assetID = q.1.assetID ∧
    mintWith mintOutput spend u = some (q.1.mintOutput, q.1.mintInput, q.2) ∧
    ∀ u' ∈ pre, u'.assetID = q.1.assetID → mintWith mintOutput spend u' = none

theorem FirstMint.cons {utxos : List (UTXO ο)} {q : MintOp μ ι × List σ}
    (h : FirstMint mintOutput spend utxos q) {u : UTXO ο}
    (hu : u.assetID = q.1.assetID → mintWith mintOutput spend u = none) :
    FirstMint mintOutput spend (u :: utxos) q := by
  obtain ⟨pre, v, post, rfl, h1, h2, h3, h4⟩ := h
  exact ⟨u :: pre, v, post, rfl, h1, h2, h3, List.forall_mem_cons.2 ⟨hu, h4⟩⟩

theorem mem_mints : ∀ {utxos : List (UTXO ο)} {amounts : Amounts} {q : MintOp μ ι × List σ},
    q ∈ mints mintOutput spend toAddr amounts utxos →
    amounts.get q.1.assetID ≠ 0 ∧ q.1.amt = amounts.get q.1.assetID ∧ q.1.toAddr = toAddr ∧
      FirstMint mintOutput spend utxos q
  | [], _, _, h => nomatch h
  | u :: utxos, amounts, q, h => by
    simp only [mints] at h
    split_ifs at h with h0
    · -- the UTXO's asset is not requested
      obtain ⟨hq, ha, ht, hf⟩ := mem_mints h
      exact ⟨hq, ha, ht, hf.cons _ _ fun he => absurd (he ▸ h0) hq⟩
    rcases hm : mintWith mintOutput spend u with _ | ⟨out, input, signers⟩ <;>
      simp only [hm] at h
    · -- the UTXO cannot mint
      obtain ⟨hq, ha, ht, hf⟩ := mem_mints h
      exact ⟨hq, ha, ht, hf.cons _ _ fun _ => hm⟩
    rcases List.mem_cons.1 h with rfl | h
    · exact ⟨h0, rfl, rfl, [], u, utxos, rfl, rfl, rfl, hm, nofun⟩
    · -- a later operation is of another asset, still requested after the deletion
      obtain ⟨hq, ha, ht, hf⟩ := mem_mints h
      have hne : q.1.assetID ≠ u.assetID := fun he => hq (by rw [Amounts.get_erase, if_pos he])
      rw [Amounts.get_erase, if_neg hne] at hq ha
      exact ⟨hq, ha, ht, hf.cons _ _ fun he => absurd he.symm hne⟩

theorem mem_mints_assetID : ∀ {utxos : List (UTXO ο)} {amounts : Amounts} {a : Nat},
    a ∈ (mints mintOutput spend toAddr amounts utxos).map (·.1.assetID) ↔
      amounts.get a ≠ 0 ∧ ∃ u ∈ utxos, u.assetID = a ∧ mintWith mintOutput spend u ≠ none
  | [], _, _ => by simp [mints]
  | u :: utxos, amounts, a => by
    simp only [mints, List.exists_mem_cons]
    split_ifs with h0
    · rw [mem_mints_assetID]
      by_cases ha : u.assetID = a
      · subst ha; simp [h0]
      · simp [ha]
    rcases hm : mintWith mintOutput spend u with _ | ⟨out, input, signers⟩
    · simp [mem_mints_assetID, hm]
    · simp only [List.map_cons, List.mem_cons, mem_mints_assetID, Amounts.get_erase]
      by_cases ha : a = u.assetID
      · subst ha; simp [h0, hm]
      · simp [ha, Ne.symm ha]

theorem mints_nodup : ∀ (utxos : List (UTXO ο)) (amounts : Amounts),
    ((mints mintOutput spend toAddr amounts utxos).map (·.1.assetID)).Nodup
  | [], _ => List.nodup_nil
  | u :: utxos, amounts => by
    simp only [mints]
    split_ifs
    · exact mints_nodup utxos amounts
    rcases mintWith mintOutput spend u with _ | ⟨out, input, signers⟩
    · exact mints_nodup utxos amounts
    · refine List.nodup_cons.2 ⟨fun h => ?_, mints_nodup utxos _⟩
      rw [mem_mints_assetID, Amounts.get_erase, if_pos rfl] at h
      exact h.1 rfl

theorem mintLoop_left (utxos : List (UTXO ο)) (amounts : Amounts) :
    (mintLoop mintOutput spend toAddr utxos amounts [] []).1.entries.any (fun e => e.2 > 0) ↔
      ∃ e ∈ amounts.entries, 0 < e.2 ∧
        ∀ u ∈ utxos, u.assetID = e.1 → mintWith mintOutput spend u = none := by
  rw [(mintLoop_eq mintOutput spend toAddr utxos amounts [] []).2, List.any_eq_true]
  simp only [List.mem_filter, decide_eq_true_eq, gt_iff_lt]
  constructor
  · rintro ⟨e, ⟨he, hnot⟩, hpos⟩
    refine ⟨e, he, hpos, fun u hu hua => ?_⟩
    by_contra hne
    have h0 : amounts.get e.1 ≠ 0 := by
      rw [amounts.get_of_mem he]; exact fun h => absurd (h ▸ hpos) (UInt64.lt_irrefl 0)
    exact hnot ((mem_mints_assetID mintOutput spend toAddr).2 ⟨h0, u, hu, hua, hne⟩)
  · rintro ⟨e, he, hpos, hnone⟩
    refine ⟨e, ⟨he, fun hmem => ?_⟩, hpos⟩
    obtain ⟨-, u, hu, hua, hne⟩ := (mem_mints_assetID mintOutput spend toAddr).1 hmem
    exact hne (hnone u hu hua)

/-- `Mint` mints each requested asset once, for the amount requested, from the first of its
UTXOs that can mint, and deletes the minted assets from the caller's map. It fails exactly when
an entry with a positive amount has no UTXO that can mint; otherwise it returns these
operations with their signers, in the order `sortOperationsWithSigners` gives them. -/
theorem mint_once_per_asset
    (sortOps : List (MintOp μ ι) → List (List σ) → List (MintOp μ ι) × List (List σ))
    (utxos : List (UTXO ο)) (amounts : Amounts) :
    let sel := mints mintOutput spend toAddr amounts utxos
    let r := mint sortOps mintOutput spend utxos amounts toAddr
    r.1.entries = amounts.entries.filter (·.1 ∉ sel.map (·.1.assetID)) ∧
    (r.2 = .error .addressesCantMintAsset ↔ ∃ e ∈ amounts.entries, 0 < e.2 ∧
      ∀ u ∈ utxos, u.assetID = e.1 → mintWith mintOutput spend u = none) ∧
    (r.2 = .error .addressesCantMintAsset ∨
      r.2 = .ok (sortOps (sel.map Prod.fst) (sel.map Prod.snd))) ∧
    (sel.map (·.1.assetID)).Nodup ∧
    (∀ a, a ∈ sel.map (·.1.assetID) ↔
      amounts.get a ≠ 0 ∧ ∃ u ∈ utxos, u.assetID = a ∧ mintWith mintOutput spend u ≠ none) ∧
    ∀ q ∈ sel, q.1.amt = amounts.get q.1.assetID ∧ q.1.toAddr = toAddr ∧
      FirstMint mintOutput spend utxos q := by
  obtain ⟨h1, h2⟩ := mintLoop_eq mintOutput spend toAddr utxos amounts [] []
  have hleft := mintLoop_left mintOutput spend toAddr utxos amounts
  simp only [List.nil_append] at h1
  refine ⟨h2, ?_, ?_, mints_nodup _ _ _ _ _, fun a => mem_mints_assetID _ _ _,
    fun q hq => (mem_mints _ _ _ hq).2⟩
  · simp only [mint]
    split_ifs with h
    · exact iff_of_true rfl (hleft.1 h)
    · exact iff_of_false nofun (fun h' => h (hleft.2 h'))
  · simp only [mint, h1]
    split_ifs
    · exact .inl rfl
    · exact .inr rfl

end mints

end Gecko.Avm
