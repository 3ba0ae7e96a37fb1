import Gecko.Avm.Spend

/-! # Spending everything and spending a managed asset (`vms/avm`: `SpendAll`, `spendManagedAsset`)

`SpendAll` takes every UTXO the keychain can spend, keeping a `uint64` sum per asset as
`Spend` does but with no target. `spendManagedAsset` spends the UTXOs of one asset with the
manager's keys, in order, until the sum passes the amount asked for: it stops only when the
sum is strictly above it, and it does not check that the amount was reached.
-/

namespace Gecko.Avm

variable {ο σ ι : Type}

/-! ## `SpendAll` -/

/-- The loop of `SpendAll` over the UTXOs. -/
def spendAllLoop (kc : Keychain ο σ) (time : Nat) :
    List (UTXO ο) → (Nat → UInt64) → List TransferableInput → List (List σ) →
      Except SpendError ((Nat → UInt64) × List TransferableInput × List (List σ))
  | [], amountsSpent, ins, keys => .ok (amountsSpent, ins, keys)
  | utxo :: utxos, amountsSpent, ins, keys =>
    let assetID := utxo.assetID
    let amountSpent := amountsSpent assetID
    match kc.spend utxo.out time with
    | some (some x, signers) =>
      match add64 amountSpent x with
      | none => .error .spendOverflow
      | some newAmountSpent =>
        spendAllLoop kc time utxos (Function.update amountsSpent assetID newAmountSpent)
          (ins ++ [⟨utxo.utxoID, assetID, x⟩]) (keys ++ [signers])
    | _ => spendAllLoop kc time utxos amountsSpent ins keys

def spendAll (kc : Keychain ο σ) (time : Nat) (utxos : List (UTXO ο)) :
    Except SpendError ((Nat → UInt64) × List TransferableInput × List (List σ)) :=
  match spendAllLoop kc time utxos (fun _ => 0) [] [] with
  | .error err => .error err
  | .ok (amountsSpent, ins, keys) =>
    let r := sortTransferableInputsWithSigners ins keys
    .ok (amountsSpent, r.1, r.2)

/-- Every UTXO the keychain spends into an `avax.TransferableIn`, with its amount and signers. -/
def spendable (kc : Keychain ο σ) (time : Nat) : List (UTXO ο) → List (UTXO ο × UInt64 × List σ)
  | [] => []
  | u :: utxos =>
    match kc.spend u.out time with
    | some (some x, signers) => (u, x, signers) :: spendable kc time utxos
    | _ => spendable kc time utxos

theorem spendAllLoop_cases (kc : Keychain ο σ) (time : Nat) :
    ∀ {utxos : List (UTXO ο)} {spentC : Nat → UInt64} {spentS : Nat → Nat}
      {ins : List TransferableInput} {keys : List (List σ)}, (∀ a, (spentC a).toNat = spentS a) →
    let sel := spendable kc time utxos
    (∃ r, spendAllLoop kc time utxos spentC ins keys = .ok r ∧
      r.2.1 = ins ++ sel.map toInput ∧ r.2.2 = keys ++ sel.map (·.2.2) ∧
      ∀ a, (r.1 a).toNat = spentS a + sumOf a sel) ∨
    (spendAllLoop kc time utxos spentC ins keys = .error .spendOverflow ∧
      ∃ a, 2 ^ 64 ≤ spentS a + sumOf a sel)
  | [], spentC, spentS, ins, keys, hs => .inl ⟨_, rfl, by simp [spendable], by simp [spendable],
      fun a => by simp [spendable, hs]⟩
  | u :: utxos, spentC, spentS, ins, keys, hs => by
    rcases hk : kc.spend u.out time with _ | ⟨_ | x, signers⟩ <;>
      simp only [spendAllLoop, spendable, hk]
    · exact spendAllLoop_cases kc time hs
    · exact spendAllLoop_cases kc time hs
    have hsum a := update_add_sumOf spentS a (u, x, signers) (spendable kc time utxos)
    by_cases hov : (spentC u.assetID).toNat + x.toNat < 2 ^ 64
    · rw [(add64_eq_some hov).1]
      rcases spendAllLoop_cases kc time (update_toNat hs hov) with ⟨r, h, h1, h2, h3⟩ | ⟨h, a, ha⟩
      · exact .inl ⟨r, h, by simp [h1, toInput], by simp [h2], fun a => (h3 a).trans (hsum a)⟩
      · exact .inr ⟨h, a, (hsum a) ▸ ha⟩
    · rw [add64, if_neg hov]
      refine .inr ⟨rfl, u.assetID, ?_⟩
      rw [sumOf_cons, if_pos rfl, ← hs]
      dsimp only
      omega

theorem sort_sorted (ins : List TransferableInput) (keys : List (List σ)) :
    ((sortTransferableInputsWithSigners ins keys).1.map TransferableInput.utxoID).Sorted (· ≤ ·) := by
  simp only [sortTransferableInputsWithSigners, List.map_map]
  have := @List.sorted_mergeSort _ (fun a b : TransferableInput × List σ => a.1.utxoID ≤ b.1.utxoID)
    (fun a b c hab hbc => by simp only [decide_eq_true_eq] at *; omega)
    (fun a b => by simpa using Nat.le_total _ _) (ins.zip keys)
  exact List.Pairwise.map _ (fun a b h => by simpa using h) this

/-- `SpendAll` either fails by overflow, exactly when the total of the spendable UTXOs of some
asset passes `2^64 - 1`, or spends every spendable UTXO once, sorted by UTXO ID, each with its
signers, and returns the exact total of each asset. -/
theorem spend_all_exact (kc : Keychain ο σ) (time : Nat) (utxos : List (UTXO ο)) :
    let sel := spendable kc time utxos
    (spendAll kc time utxos = .error .spendOverflow ∧ ∃ a, 2 ^ 64 ≤ sumOf a sel) ∨
    ∃ spent ins keys, spendAll kc time utxos = .ok (spent, ins, keys) ∧
      (∀ a, (spent a).toNat = sumOf a sel) ∧
      (ins.zip keys).Perm (sel.map fun q => (toInput q, q.2.2)) ∧ ins.length = keys.length ∧
      (ins.map TransferableInput.utxoID).Sorted (· ≤ ·) := by
  rcases @spendAllLoop_cases ο σ kc time utxos (fun _ => 0) (fun _ => 0) [] [] (fun _ => rfl) with
    ⟨⟨spent, insL, keysL⟩, hr, h1, h2, h3⟩ | ⟨hr, a, ha⟩
  · obtain ⟨hperm, hlen⟩ := sort_perm insL keysL
    simp only [List.nil_append, zero_add] at h1 h2 h3
    refine .inr ⟨spent, _, _, by simp only [spendAll, hr], h3, ?_, hlen, sort_sorted insL keysL⟩
    rw [← List.zip_map', ← h1, ← h2]
    exact hperm
  · exact .inl ⟨by simp only [spendAll, hr], a, by simpa using ha⟩

/-! ## `spendManagedAsset` -/

/-- The errors of `spendManagedAsset`. -/
inductive ManagedSpendError where
  /-- `the given keychain does not have the keys to spend managed asset %s` -/
  | noKeys (assetID : Nat)
  /-- `expected input to be *secp256k1fx.Input but got %T` -/
  | notInput
  | spendOverflow
  deriving DecidableEq

/-- The loop over the UTXOs; every input is signed by the manager's `signers`. `amountOf` is
the amount of an output that is an `avax.TransferableOut`. -/
def spendManagedAssetLoop (assetID : Nat) (amountOf : ο → Option UInt64) (signers : List σ)
    (amount : UInt64) :
    List (UTXO ο) → UInt64 → List TransferableInput → List (List σ) →
      Except ManagedSpendError (UInt64 × List TransferableInput × List (List σ))
  | [], amountSpent, ins, keys => .ok (amountSpent, ins, keys)
  | utxo :: utxos, amountSpent, ins, keys =>
    if utxo.assetID ≠ assetID then
      spendManagedAssetLoop assetID amountOf signers amount utxos amountSpent ins keys
    else match amountOf utxo.out with
      | none => spendManagedAssetLoop assetID amountOf signers amount utxos amountSpent ins keys
      | some x =>
        match add64 amountSpent x with
        | none => .error .spendOverflow
        | some amountSpent =>
          let ins := ins ++ [⟨utxo.utxoID, assetID, x⟩]
          let keys := keys ++ [signers]
          if amountSpent > amount then .ok (amountSpent, ins, keys)
          else spendManagedAssetLoop assetID amountOf signers amount utxos amountSpent ins keys

/-- `manager` is what `kc.Spend(assetManager, time)` returns: `none` on an error, else the
input, when it is a `*secp256k1fx.Input`, and the signers. -/
def spendManagedAsset (assetID : Nat) (amountOf : ο → Option UInt64)
    (manager : Option (Option ι × List σ)) (utxos : List (UTXO ο)) (amount : UInt64) :
    Except ManagedSpendError (UInt64 × List TransferableInput × List (List σ)) :=
  match manager with
  | none => .error (.noKeys assetID)
  | some (none, _) => .error .notInput
  | some (some _, signers) =>
    match spendManagedAssetLoop assetID amountOf signers amount utxos 0 [] [] with
    | .error err => .error err
    | .ok (amountSpent, ins, keys) =>
      let r := sortTransferableInputsWithSigners ins keys
      .ok (amountSpent, r.1, r.2)

/-- The UTXOs of the asset whose output is an `avax.TransferableOut`, with their amounts. -/
def managedUTXOs (assetID : Nat) (amountOf : ο → Option UInt64) :
    List (UTXO ο) → List (UTXO ο × UInt64)
  | [] => []
  | u :: utxos =>
    if u.assetID ≠ assetID then managedUTXOs assetID amountOf utxos
    else match amountOf u.out with
      | none => managedUTXOs assetID amountOf utxos
      | some x => (u, x) :: managedUTXOs assetID amountOf utxos

/-- The shortest prefix whose sum passes `amount`, or the whole list when none does. -/
def takeAbove (amount : Nat) : List (UTXO ο × UInt64) → List (UTXO ο × UInt64)
  | [] => []
  | p :: ps => p :: if amount < p.2.toNat then [] else takeAbove (amount - p.2.toNat) ps

/-- The input a taken UTXO becomes. -/
def managedInput (assetID : Nat) (p : UTXO ο × UInt64) : TransferableInput :=
  ⟨p.1.utxoID, assetID, p.2⟩

theorem takeAbove_isPrefix_self (amount : Nat) :
    ∀ l : List (UTXO ο × UInt64), takeAbove amount l <+: l
  | [] => List.nil_prefix
  | p :: ps => by
    rw [takeAbove, List.prefix_cons_inj]
    split
    · exact List.nil_prefix
    · exact takeAbove_isPrefix_self _ ps

theorem takeAbove_of_sum_le : ∀ {amount : Nat} {l : List (UTXO ο × UInt64)},
    ((takeAbove amount l).map (·.2.toNat)).sum ≤ amount → takeAbove amount l = l
  | _, [], _ => rfl
  | amount, p :: ps, h => by
    rw [takeAbove] at h ⊢
    by_cases hx : amount < p.2.toNat
    · simp only [hx, if_true, List.map_cons, List.map_nil, List.sum_cons, List.sum_nil] at h
      omega
    · rw [if_neg hx] at h ⊢
      rw [takeAbove_of_sum_le (by simp only [List.map_cons, List.sum_cons] at h; omega)]

theorem takeAbove_dropLast : ∀ (amount : Nat) (l : List (UTXO ο × UInt64)),
    (((takeAbove amount l).dropLast).map (·.2.toNat)).sum ≤ amount
  | _, [] => by simp [takeAbove]
  | amount, p :: ps => by
    rw [takeAbove]
    split
    · simp
    · rcases h : takeAbove (amount - p.2.toNat) ps with _ | ⟨q, rest⟩
      · simp
      · have := takeAbove_dropLast (amount - p.2.toNat) ps
        rw [h] at this
        rw [List.dropLast_cons₂, List.map_cons, List.sum_cons]
        omega

theorem uint64_lt_iff (a b : UInt64) : a < b ↔ a.toNat < b.toNat := by
  simp [UInt64.lt_def, BitVec.lt_def, UInt64.toNat]

section managed

variable (assetID : Nat) (amountOf : ο → Option UInt64) (signers : List σ) (amount : UInt64)

theorem spendManagedAssetLoop_cases : ∀ {utxos : List (UTXO ο)} {amountSpent : UInt64}
    {ins : List TransferableInput} {keys : List (List σ)}, amountSpent.toNat ≤ amount.toNat →
    let sel := takeAbove (amount.toNat - amountSpent.toNat) (managedUTXOs assetID amountOf utxos)
    let total := amountSpent.toNat + (sel.map (·.2.toNat)).sum
    (spendManagedAssetLoop assetID amountOf signers amount utxos amountSpent ins keys =
        .error .spendOverflow ∧ 2 ^ 64 ≤ total) ∨
    ∃ s, spendManagedAssetLoop assetID amountOf signers amount utxos amountSpent ins keys =
        .ok (s, ins ++ sel.map (managedInput assetID), keys ++ sel.map fun _ => signers) ∧
      s.toNat = total
  | [], s, ins, keys, _ => .inr ⟨s, by simp [spendManagedAssetLoop, managedUTXOs, takeAbove],
      by simp [managedUTXOs, takeAbove]⟩
  | u :: utxos, s, ins, keys, hs => by
    by_cases ha : u.assetID ≠ assetID
    · simp only [spendManagedAssetLoop, managedUTXOs, if_pos ha]
      exact spendManagedAssetLoop_cases hs
    rcases hx : amountOf u.out with _ | x <;>
      simp only [spendManagedAssetLoop, managedUTXOs, if_neg ha, hx]
    · exact spendManagedAssetLoop_cases hs
    have hs' := s.toNat_lt_size
    have ha' := amount.toNat_lt_size
    simp only [UInt64.size] at hs' ha'
    by_cases hov : s.toNat + x.toNat < 2 ^ 64
    · obtain ⟨hadd, hval⟩ := add64_eq_some hov
      rw [hadd]
      by_cases hgt : amount.toNat < s.toNat + x.toNat
      · have hlt : amount < s + x := (uint64_lt_iff _ _).2 (by omega)
        have htake : amount.toNat - s.toNat < x.toNat := by omega
        refine .inr ⟨s + x, ?_, ?_⟩ <;> simp [hlt, takeAbove, htake, managedInput, hval]
      · have hlt : ¬ amount < s + x := by rw [uint64_lt_iff]; omega
        have htake : ¬ amount.toNat - s.toNat < x.toNat := by omega
        simp only [hlt, if_false, gt_iff_lt, takeAbove, htake, List.map_cons, List.sum_cons,
          Nat.sub_sub]
        rcases @spendManagedAssetLoop_cases utxos (s + x) (ins ++ [⟨u.utxoID, assetID, x⟩])
          (keys ++ [signers]) (by omega) with ⟨h, ht⟩ | ⟨r, h, hr⟩
        · rw [hval] at ht
          exact .inl ⟨h, by omega⟩
        · rw [hval] at h hr
          exact .inr ⟨r, by rw [h]; simp [managedInput], by omega⟩
    · rw [add64, if_neg hov]
      have htake : amount.toNat - s.toNat < x.toNat := by omega
      refine .inl ⟨rfl, ?_⟩
      simp only [takeAbove, htake, if_true, List.map_cons, List.map_nil, List.sum_cons,
        List.sum_nil]
      omega

/-- With the manager's keys, `spendManagedAsset` takes the asset's UTXOs in order up to the
first at which the sum passes the amount, and all of them when it never does, with no error:
every UTXO taken but the last was needed. It fails only by overflow, exactly when the sum of
what it takes passes `2^64 - 1`; otherwise it returns that sum and the inputs sorted by UTXO
ID, each signed by the manager's signers. -/
theorem spend_managed_asset_prefix (input : ι) (utxos : List (UTXO ο)) :
    let all := managedUTXOs assetID amountOf utxos
    let sel := takeAbove amount.toNat all
    let total := (sel.map (·.2.toNat)).sum
    let r := sortTransferableInputsWithSigners (sel.map (managedInput assetID))
      (sel.map fun _ => signers)
    sel <+: all ∧ (sel.dropLast.map (·.2.toNat)).sum ≤ amount.toNat ∧
    (total ≤ amount.toNat → sel = all) ∧
    ((spendManagedAsset assetID amountOf (some (some input, signers)) utxos amount =
        .error .spendOverflow ∧ 2 ^ 64 ≤ total) ∨
      ∃ amountSpent, spendManagedAsset assetID amountOf (some (some input, signers)) utxos amount =
        .ok (amountSpent, r.1, r.2) ∧ amountSpent.toNat = total) := by
  refine ⟨takeAbove_isPrefix_self _ _, takeAbove_dropLast _ _, takeAbove_of_sum_le, ?_⟩
  rcases @spendManagedAssetLoop_cases ο σ assetID amountOf signers amount utxos 0 [] []
    (Nat.zero_le _) with ⟨h, ht⟩ | ⟨s, h, hs⟩
  · exact .inl ⟨by simp only [spendManagedAsset, h], by simpa using ht⟩
  · exact .inr ⟨s, by simp only [spendManagedAsset, h, List.nil_append]; rfl, by simpa using hs⟩

-- Three UTXOs of `5` for an amount of `10`: the sum reaching the amount does not stop the loop.
example : (takeAbove 10 [(⟨1, 0, ()⟩, 5), (⟨2, 0, ()⟩, 5), (⟨3, 0, ()⟩, 5)]).length = 3 := by
  decide

end managed

end Gecko.Avm
