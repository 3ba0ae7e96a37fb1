import Mathlib.Algebra.BigOperators.Group.List
import Mathlib.Data.List.Sort
import Mathlib.Algebra.Order.Ring.Nat

/-! # Spending UTXOs (`vms/avm`: `VM.Spend`)

`Spend` walks the UTXOs once and takes each one the keychain can spend, for an asset that
still needs funds, keeping a `uint64` running sum per asset; then it checks every requested
amount is covered and sorts the inputs with their signers.
-/

namespace Gecko.Avm

structure UTXO (ο : Type) where
  utxoID : Nat
  assetID : Nat
  out : ο

/-- `kc.Spend` at a time: `none` when the keys cannot spend the output now, else the input it
builds, with its amount when it is an `avax.TransferableIn`, and its signers. -/
structure Keychain (ο σ : Type) where
  spend : ο → Nat → Option (Option UInt64 × List σ)

/-- The requested amounts: a Go map, as its entries in iteration order. -/
structure Amounts where
  entries : List (Nat × UInt64)
  nodup : (entries.map Prod.fst).Nodup

/-- `amounts[assetID]`, `0` when the asset is not requested. -/
def Amounts.get (m : Amounts) (a : Nat) : UInt64 :=
  ((m.entries.find? (·.1 = a)).map Prod.snd).getD 0

/-- An `avax.TransferableInput`, with its `In` seen through `Amount()`. -/
structure TransferableInput where
  utxoID : Nat
  assetID : Nat
  amount : UInt64
  deriving DecidableEq

inductive SpendError where
  | spendOverflow
  /-- `want to spend %d of asset %s but only have %d` -/
  | insufficient (amount : UInt64) (asset : Nat) (spent : UInt64)
  deriving DecidableEq

/-- Modelled from the spec: `safemath.Add64` returns the sum, or an error when it passes
`2^64 - 1`. -/
def add64 (a b : UInt64) : Option UInt64 :=
  if a.toNat + b.toNat < 2 ^ 64 then some (a + b) else none

variable {ο σ : Type}

/-- The loop of `Spend` over the UTXOs. -/
def spendLoop (kc : Keychain ο σ) (time : Nat) (amounts : Amounts) :
    List (UTXO ο) → (Nat → UInt64) → List TransferableInput → List (List σ) →
      Except SpendError ((Nat → UInt64) × List TransferableInput × List (List σ))
  | [], amountsSpent, ins, keys => .ok (amountsSpent, ins, keys)
  | utxo :: utxos, amountsSpent, ins, keys =>
    let assetID := utxo.assetID
    let amountSpent := amountsSpent assetID
    if amounts.get assetID ≤ amountSpent then spendLoop kc time amounts utxos amountsSpent ins keys
    else match kc.spend utxo.out time with
      | some (some x, signers) =>
        match add64 amountSpent x with
        | none => .error .spendOverflow
        | some newAmountSpent =>
          spendLoop kc time amounts utxos (Function.update amountsSpent assetID newAmountSpent)
            (ins ++ [⟨utxo.utxoID, assetID, x⟩]) (keys ++ [signers])
      | _ => spendLoop kc time amounts utxos amountsSpent ins keys

/-- The check after the loop, over the map's entries. -/
def checkAmounts (amountsSpent : Nat → UInt64) : List (Nat × UInt64) → Except SpendError Unit
  | [] => .ok ()
  | (asset, amount) :: rest =>
    if amountsSpent asset < amount then .error (.insufficient amount asset (amountsSpent asset))
    else checkAmounts amountsSpent rest

/-- Modelled from the spec: `avax.SortTransferableInputsWithSigners` sorts the inputs by
UTXO ID, each input's signers moving with it. -/
def sortTransferableInputsWithSigners (ins : List TransferableInput) (keys : List (List σ)) :
    List TransferableInput × List (List σ) :=
  let l := (ins.zip keys).mergeSort fun a b => a.1.utxoID ≤ b.1.utxoID
  (l.map Prod.fst, l.map Prod.snd)

def spend (kc : Keychain ο σ) (time : Nat) (utxos : List (UTXO ο)) (amounts : Amounts) :
    Except SpendError ((Nat → UInt64) × List TransferableInput × List (List σ)) :=
  match spendLoop kc time amounts utxos (fun _ => 0) [] [] with
  | .error err => .error err
  | .ok (amountsSpent, ins, keys) =>
    match checkAmounts amountsSpent amounts.entries with
    | .error err => .error err
    | .ok () =>
      let r := sortTransferableInputsWithSigners ins keys
      .ok (amountsSpent, r.1, r.2)

/-! ## The selection with unbounded sums -/

/-- The UTXOs `Spend` takes, with their amounts and signers, its running sums kept as
unbounded integers. -/
def selection (kc : Keychain ο σ) (time : Nat) (amounts : Amounts) :
    List (UTXO ο) → (Nat → Nat) → List (UTXO ο × UInt64 × List σ)
  | [], _ => []
  | u :: utxos, spent =>
    if (amounts.get u.assetID).toNat ≤ spent u.assetID then selection kc time amounts utxos spent
    else match kc.spend u.out time with
      | some (some x, signers) =>
        (u, x, signers) :: selection kc time amounts utxos
          (Function.update spent u.assetID (spent u.assetID + x.toNat))
      | _ => selection kc time amounts utxos spent

/-- The input a selected UTXO becomes. -/
def toInput (p : UTXO ο × UInt64 × List σ) : TransferableInput := ⟨p.1.utxoID, p.1.assetID, p.2.1⟩

/-- The unbounded sum of the amounts selected for an asset. -/
def sumOf (a : Nat) (sel : List (UTXO ο × UInt64 × List σ)) : Nat :=
  ((sel.filter fun p => p.1.assetID = a).map fun p => p.2.1.toNat).sum

@[simp] theorem sumOf_nil (a : Nat) : sumOf a ([] : List (UTXO ο × UInt64 × List σ)) = 0 := rfl

theorem sumOf_cons (a : Nat) (p : UTXO ο × UInt64 × List σ) (sel : List (UTXO ο × UInt64 × List σ)) :
    sumOf a (p :: sel) = (if p.1.assetID = a then p.2.1.toNat else 0) + sumOf a sel := by
  by_cases h : p.1.assetID = a <;> simp [sumOf, List.filter_cons, h]

theorem update_add_sumOf (spent : Nat → Nat) (a : Nat) (p : UTXO ο × UInt64 × List σ)
    (sel : List (UTXO ο × UInt64 × List σ)) :
    Function.update spent p.1.assetID (spent p.1.assetID + p.2.1.toNat) a + sumOf a sel =
      spent a + sumOf a (p :: sel) := by
  rw [sumOf_cons]
  by_cases h : p.1.assetID = a
  · subst h; simp; omega
  · simp [Function.update_noteq (Ne.symm h), h]

theorem uint64_le_iff (a b : UInt64) : a ≤ b ↔ a.toNat ≤ b.toNat := by
  simp [UInt64.le_def, BitVec.le_def, UInt64.toNat]

theorem add64_eq_some {a b : UInt64} (h : a.toNat + b.toNat < 2 ^ 64) :
    add64 a b = some (a + b) ∧ (a + b).toNat = a.toNat + b.toNat := by
  refine ⟨if_pos h, ?_⟩
  show (a.toBitVec + b.toBitVec).toNat = a.toNat + b.toNat
  rw [BitVec.toNat_add]
  exact Nat.mod_eq_of_lt h

theorem update_toNat {spentC : Nat → UInt64} {spentS : Nat → Nat}
    (hs : ∀ a, (spentC a).toNat = spentS a) {b : Nat} {x : UInt64}
    (hov : (spentC b).toNat + x.toNat < 2 ^ 64) (a : Nat) :
    (Function.update spentC b (spentC b + x) a).toNat =
      Function.update spentS b (spentS b + x.toNat) a := by
  by_cases ha : a = b
  · subst ha; simp [(add64_eq_some hov).2, hs]
  · simp [Function.update_noteq ha, hs]

/-! ## The loop refines the selection -/

section loop

variable (kc : Keychain ο σ) (time : Nat) (amounts : Amounts)

theorem spendLoop_cases : ∀ {utxos : List (UTXO ο)} {spentC : Nat → UInt64} {spentS : Nat → Nat}
    {ins : List TransferableInput} {keys : List (List σ)}, (∀ a, (spentC a).toNat = spentS a) →
    let sel := selection kc time amounts utxos spentS
    (∃ r, spendLoop kc time amounts utxos spentC ins keys = .ok r ∧
      r.2.1 = ins ++ sel.map toInput ∧ r.2.2 = keys ++ sel.map (·.2.2) ∧
      ∀ a, (r.1 a).toNat = spentS a + sumOf a sel) ∨
    (spendLoop kc time amounts utxos spentC ins keys = .error .spendOverflow ∧
      ∃ a, 2 ^ 64 ≤ spentS a + sumOf a sel)
  | [], spentC, spentS, ins, keys, hs => .inl ⟨_, rfl, by simp [selection], by simp [selection],
      fun a => by simp [selection, hs]⟩
  | u :: utxos, spentC, spentS, ins, keys, hs => by
    have hle := uint64_le_iff (amounts.get u.assetID) (spentC u.assetID)
    rw [hs] at hle
    by_cases hc : (amounts.get u.assetID).toNat ≤ spentS u.assetID
    · simp only [spendLoop, selection, hle.2 hc, hc, if_true]
      exact spendLoop_cases hs
    rcases hk : kc.spend u.out time with _ | ⟨_ | x, signers⟩ <;>
      simp only [spendLoop, selection, hle, hc, if_false, hk]
    · exact spendLoop_cases hs
    · exact spendLoop_cases hs
    by_cases hov : (spentC u.assetID).toNat + x.toNat < 2 ^ 64
    · have hsum a := update_add_sumOf spentS a (u, x, signers)
        (selection kc time amounts utxos (Function.update spentS u.assetID (spentS u.assetID + x.toNat)))
      rw [(add64_eq_some hov).1]
      rcases spendLoop_cases (update_toNat hs hov) with ⟨r, h, h1, h2, h3⟩ | ⟨h, a, ha⟩
      · exact .inl ⟨r, h, by simp [h1, toInput], by simp [h2], fun a => (h3 a).trans (hsum a)⟩
      · exact .inr ⟨h, a, (hsum a) ▸ ha⟩
    · rw [add64, if_neg hov]
      refine .inr ⟨rfl, u.assetID, ?_⟩
      rw [sumOf_cons, if_pos rfl, ← hs]
      dsimp only
      omega

/-- What the selection is made of: UTXOs of the list, in order, each spendable by the keychain
for the amount it gives, each for a requested asset, and each taken while its asset's sum
was below the request. -/
structure SelectionOk (utxos : List (UTXO ο)) (spent : Nat → Nat)
    (sel : List (UTXO ο × UInt64 × List σ)) : Prop where
  sublist : (sel.map Prod.fst).Sublist utxos
  spend : ∀ p ∈ sel, kc.spend p.1.out time = some (some p.2.1, p.2.2)
  pos : ∀ p ∈ sel, 0 < (amounts.get p.1.assetID).toNat
  below : ∀ a pre p, sel.filter (·.1.assetID = a) = pre ++ [p] →
    spent a + (pre.map (·.2.1.toNat)).sum < (amounts.get a).toNat

theorem SelectionOk.skip {u : UTXO ο} {utxos : List (UTXO ο)} {spent : Nat → Nat}
    {sel : List (UTXO ο × UInt64 × List σ)} (h : SelectionOk kc time amounts utxos spent sel) :
    SelectionOk kc time amounts (u :: utxos) spent sel :=
  { h with sublist := h.sublist.cons u }

theorem selection_ok : ∀ (utxos : List (UTXO ο)) (spent : Nat → Nat),
    SelectionOk kc time amounts utxos spent (selection kc time amounts utxos spent)
  | [], _ => ⟨by simp [selection], by simp [selection], by simp [selection],
      fun _ pre p h => by simp [selection] at h⟩
  | u :: utxos, spent => by
    by_cases hc : (amounts.get u.assetID).toNat ≤ spent u.assetID
    · simpa only [selection, hc, if_true] using (selection_ok utxos spent).skip
    rcases hk : kc.spend u.out time with _ | ⟨_ | x, signers⟩ <;>
      simp only [selection, hc, if_false, hk]
    · exact (selection_ok utxos spent).skip
    · exact (selection_ok utxos spent).skip
    have ih := selection_ok utxos (Function.update spent u.assetID (spent u.assetID + x.toNat))
    refine ⟨ih.sublist.cons₂ u, ?_, ?_, fun a pre p h => ?_⟩
    · exact List.forall_mem_cons.2 ⟨hk, ih.spend⟩
    · exact List.forall_mem_cons.2 ⟨Nat.lt_of_le_of_lt (Nat.zero_le _) (not_le.1 hc), ih.pos⟩
    by_cases ha : u.assetID = a
    · subst ha
      rw [List.filter_cons_of_pos (by simp)] at h
      rcases pre with _ | ⟨q, pre⟩
      · simpa using not_le.1 hc
      · simp only [List.cons_append, List.cons.injEq] at h
        have := ih.below _ pre p h.2
        simp only [Function.update_same, ← h.1, List.map_cons, List.sum_cons] at this ⊢
        omega
    · rw [List.filter_cons_of_neg (by simpa using ha)] at h
      simpa [Function.update_noteq (Ne.symm ha)] using ih.below a pre p h

end loop

/-! ## `Spend` -/

theorem checkAmounts_ok {spent : Nat → UInt64} :
    ∀ {l : List (Nat × UInt64)}, checkAmounts spent l = .ok () → ∀ p ∈ l, p.2 ≤ spent p.1
  | [], _ => by simp
  | (asset, amount) :: rest, h => by
    simp only [checkAmounts] at h
    split at h
    · cases h
    · intro p hp
      rcases List.mem_cons.1 hp with rfl | hp
      · exact UInt64.not_lt.1 ‹_›
      · exact checkAmounts_ok h p hp

theorem checkAmounts_error {spent : Nat → UInt64} :
    ∀ {l : List (Nat × UInt64)} {e}, checkAmounts spent l = .error e → e ≠ .spendOverflow
  | [], _, h => by cases h
  | (asset, amount) :: rest, e, h => by
    simp only [checkAmounts] at h
    split at h
    · cases h; exact nofun
    · exact checkAmounts_error h

theorem Amounts.get_le (m : Amounts) {spent : Nat → UInt64}
    (h : ∀ p ∈ m.entries, p.2 ≤ spent p.1) (a : Nat) : m.get a ≤ spent a := by
  unfold Amounts.get
  cases hf : m.entries.find? (·.1 = a) with
  | none => simp [uint64_le_iff]
  | some p =>
    have hp : p.1 = a := by simpa using List.find?_some hf
    simpa [hp] using h p (List.mem_of_find?_eq_some hf)

theorem sort_perm (ins : List TransferableInput) (keys : List (List σ)) :
    let r := sortTransferableInputsWithSigners ins keys
    (r.1.zip r.2).Perm (ins.zip keys) ∧ r.1.length = r.2.length := by
  refine ⟨?_, by simp [sortTransferableInputsWithSigners]⟩
  simp only [sortTransferableInputsWithSigners]
  rw [← List.unzip_fst, ← List.unzip_snd, List.zip_unzip]
  exact List.mergeSort_perm _ _

theorem spend_eq_ok {kc : Keychain ο σ} {time : Nat} {utxos : List (UTXO ο)} {amounts : Amounts}
    {spent ins keys} (h : spend kc time utxos amounts = .ok (spent, ins, keys)) :
    ∃ insL keysL, spendLoop kc time amounts utxos (fun _ => 0) [] [] = .ok (spent, insL, keysL) ∧
      checkAmounts spent amounts.entries = .ok () ∧
      (ins, keys) = sortTransferableInputsWithSigners insL keysL := by
  unfold spend at h
  split at h
  · cases h
  · rename_i spentL insL keysL hloop
    split at h
    · cases h
    · rename_i hc
      simp only [Except.ok.injEq, Prod.mk.injEq] at h
      obtain ⟨rfl, rfl, rfl⟩ := h
      exact ⟨insL, keysL, hloop, hc, rfl⟩

theorem spend_eq_error {kc : Keychain ο σ} {time : Nat} {utxos : List (UTXO ο)}
    {amounts : Amounts} {e} (h : spend kc time utxos amounts = .error e) :
    spendLoop kc time amounts utxos (fun _ => 0) [] [] = .error e ∨
      ∃ r, spendLoop kc time amounts utxos (fun _ => 0) [] [] = .ok r ∧
        checkAmounts r.1 amounts.entries = .error e := by
  unfold spend at h
  split at h
  · cases h; exact .inl ‹_›
  · split at h
    · cases h; exact .inr ⟨_, ‹_›, ‹_›⟩
    · cases h

theorem sumOf_eq (a : Nat) (sel : List (UTXO ο × UInt64 × List σ)) :
    sumOf a sel = (((sel.map toInput).filter (·.assetID = a)).map (·.amount.toNat)).sum := by
  simp [sumOf, List.filter_map, Function.comp_def, toInput]

section spend

variable (kc : Keychain ο σ) (time : Nat) (utxos : List (UTXO ο)) (amounts : Amounts)

theorem spend_ok_sound (hids : (utxos.map UTXO.utxoID).Nodup) {spent ins keys}
    (h : spend kc time utxos amounts = .ok (spent, ins, keys)) :
    (∀ a, (spent a).toNat = ((ins.filter (·.assetID = a)).map (·.amount.toNat)).sum ∧
      amounts.get a ≤ spent a) ∧
    (∀ i ∈ ins, 0 < (amounts.get i.assetID).toNat) ∧
    (ins.map TransferableInput.utxoID).Nodup ∧ ins.length = keys.length ∧
    (∀ p ∈ ins.zip keys, ∃ u ∈ utxos, u.utxoID = p.1.utxoID ∧ u.assetID = p.1.assetID ∧
      kc.spend u.out time = some (some p.1.amount, p.2)) ∧
    ∃ chosen : List TransferableInput, ins.Perm chosen ∧
      (chosen.map TransferableInput.utxoID).Sublist (utxos.map UTXO.utxoID) ∧
      ∀ a pre i, chosen.filter (·.assetID = a) = pre ++ [i] →
        (pre.map (·.amount.toNat)).sum < (amounts.get a).toNat := by
  set sel := selection kc time amounts utxos fun _ => 0
  have hsel := selection_ok kc time amounts utxos fun _ => 0
  obtain ⟨insL, keysL, hloop, hcheck, hsort⟩ := spend_eq_ok h
  rcases @spendLoop_cases ο σ kc time amounts utxos (fun _ => 0) (fun _ => 0) [] []
    (fun _ => rfl) with ⟨r, hr, h1, h2, h3⟩ | ⟨hr, -⟩
  swap
  · rw [hloop] at hr; cases hr
  rw [hloop] at hr
  cases hr
  simp only [List.nil_append, zero_add] at h1 h2 h3
  obtain ⟨hperm, hlen⟩ := sort_perm insL keysL
  rw [← hsort] at hperm hlen
  have hzip : (ins.zip keys).Perm (sel.map fun q => (toInput q, q.2.2)) := by
    rw [← List.zip_map', ← h1, ← h2]; exact hperm
  have hins : ins.Perm (sel.map toInput) := by
    have := hzip.map Prod.fst
    rwa [List.map_fst_zip _ _ hlen.le, List.map_map] at this
  have hsub : ((sel.map toInput).map TransferableInput.utxoID).Sublist (utxos.map UTXO.utxoID) := by
    simpa [List.map_map, Function.comp_def, toInput] using hsel.sublist.map UTXO.utxoID
  refine ⟨fun a => ⟨?_, amounts.get_le (checkAmounts_ok hcheck) a⟩, fun i hi => ?_,
    (hins.map _).nodup_iff.2 (hsub.nodup hids), hlen, fun p hp => ?_, sel.map toInput, hins, hsub,
    fun a pre i hf => ?_⟩
  · rw [h3, sumOf_eq]
    exact ((hins.filter _).map _).sum_eq.symm
  · obtain ⟨q, hq, rfl⟩ := List.mem_map.1 (hins.subset hi)
    exact hsel.pos q hq
  · obtain ⟨q, hq, rfl⟩ := List.mem_map.1 (hzip.subset hp)
    exact ⟨q.1, hsel.sublist.subset (List.mem_map_of_mem _ hq), rfl, rfl, hsel.spend q hq⟩
  · rw [List.filter_map, List.map_eq_append_iff] at hf
    obtain ⟨l₁, l₂, hl, rfl, hl₂⟩ := hf
    obtain ⟨q, _, rfl, -, ht⟩ := List.map_eq_cons_iff.1 hl₂
    rw [List.map_eq_nil_iff] at ht
    subst ht
    simpa [List.map_map, Function.comp_def, toInput] using hsel.below a l₁ q hl

theorem spend_overflow_iff :
    spend kc time utxos amounts = .error .spendOverflow ↔
      ∃ a, 2 ^ 64 ≤ sumOf a (selection kc time amounts utxos fun _ => 0) := by
  rcases @spendLoop_cases ο σ kc time amounts utxos (fun _ => 0) (fun _ => 0) [] []
    (fun _ => rfl) with ⟨r, hr, -, -, h3⟩ | ⟨hr, a, ha⟩
  · refine ⟨fun h => ?_, fun ⟨a, ha⟩ => ?_⟩
    · rcases spend_eq_error h with h' | ⟨r', h', hc⟩
      · rw [hr] at h'; cases h'
      · rw [hr] at h'; cases h'; exact absurd rfl (checkAmounts_error hc)
    · have := (r.1 a).toNat_lt_size
      simp only [UInt64.size, h3, zero_add] at this
      omega
  · refine ⟨fun _ => ⟨a, by simpa using ha⟩, fun _ => ?_⟩
    unfold spend
    rw [hr]

theorem spend_sound (hids : (utxos.map UTXO.utxoID).Nodup) :
    (∀ spent ins keys, spend kc time utxos amounts = .ok (spent, ins, keys) →
      (∀ a, (spent a).toNat = ((ins.filter (·.assetID = a)).map (·.amount.toNat)).sum ∧
        amounts.get a ≤ spent a) ∧
      (∀ i ∈ ins, 0 < (amounts.get i.assetID).toNat) ∧
      (ins.map TransferableInput.utxoID).Nodup ∧ ins.length = keys.length ∧
      (∀ p ∈ ins.zip keys, ∃ u ∈ utxos, u.utxoID = p.1.utxoID ∧ u.assetID = p.1.assetID ∧
        kc.spend u.out time = some (some p.1.amount, p.2)) ∧
      ∃ chosen : List TransferableInput, ins.Perm chosen ∧
        (chosen.map TransferableInput.utxoID).Sublist (utxos.map UTXO.utxoID) ∧
        ∀ a pre i, chosen.filter (·.assetID = a) = pre ++ [i] →
          (pre.map (·.amount.toNat)).sum < (amounts.get a).toNat) ∧
    (spend kc time utxos amounts = .error .spendOverflow ↔
      ∃ a, 2 ^ 64 ≤ sumOf a (selection kc time amounts utxos fun _ => 0)) :=
  ⟨fun _ _ _ h => spend_ok_sound kc time utxos amounts hids h, spend_overflow_iff kc time utxos amounts⟩

end spend

/-- A keychain that spends every output, its amount being the output itself. -/
def ownAll : Keychain UInt64 UInt64 := ⟨fun o _ => some (some o, [o])⟩

def twoOfAsset : List (UTXO UInt64) := [⟨2, 0, 9⟩, ⟨1, 0, 4⟩]

def tenOfAsset : Amounts := ⟨[(0, 10)], by decide⟩

theorem twoOfAsset_no_overflow : (twoOfAsset.map UTXO.utxoID).Nodup ∧
    (spend ownAll 0 twoOfAsset tenOfAsset = .error .spendOverflow ↔
      ∃ a, 2 ^ 64 ≤ sumOf a (selection ownAll 0 tenOfAsset twoOfAsset fun _ => 0)) :=
  ⟨by decide, (spend_sound ownAll 0 twoOfAsset tenOfAsset (by decide)).2⟩

end Gecko.Avm
