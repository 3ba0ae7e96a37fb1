import Gecko.Conflicts.Blocker

/-! # The spender index

`utxos` is exact: an input is a key iff a processing tx consumes it, and its bucket holds
exactly those txs, once each. Every state the manager reaches keeps this, whatever its
queues hold, so `Conflicts` and `IsVirtuous` answer from the processing txs alone.
-/

namespace Gecko

namespace Conflicts

variable {ι : Type} {G : TxIndex ι} {c : Conflicts ι}

/-! ## The invariant -/

/-- The spender index as the spec describes it. -/
structure SpendersExact (G : TxIndex ι) (c : Conflicts ι) : Prop where
  txs_nodup : c.txs.Nodup
  key_iff : ∀ x, (c.utxos x).isSome ↔ ∃ t ∈ c.txs, x ∈ G.inputIDs t
  bucket : ∀ x s, c.utxos x = some s → s.Nodup ∧ ∀ t, t ∈ s ↔ t ∈ c.txs ∧ x ∈ G.inputIDs t

theorem SpendersExact.mem_bucket (h : SpendersExact G c) (x t : ι) :
    t ∈ (c.utxos x).getD [] ↔ t ∈ c.txs ∧ x ∈ G.inputIDs t := by
  cases hx : c.utxos x with
  | none =>
    have := (h.key_iff x).not.1 (by simp [hx])
    simp only [Option.getD_none, List.not_mem_nil, false_iff, not_and]
    exact fun ht hxt => this ⟨t, ht, hxt⟩
  | some s => exact (h.bucket x s hx).2 t

theorem SpendersExact.bucket_nodup (h : SpendersExact G c) (x : ι) :
    ((c.utxos x).getD []).Nodup := by
  cases hx : c.utxos x with
  | none => exact List.nodup_nil
  | some s => exact (h.bucket x s hx).1

theorem new_spendersExact : SpendersExact G (new : Conflicts ι) where
  txs_nodup := List.nodup_nil
  key_iff x := by simp [new]
  bucket x s h := by simp [new] at h

theorem SpendersExact.of_eq (h : SpendersExact G c) {c' : Conflicts ι} (ht : c'.txs = c.txs)
    (hu : c'.utxos = c.utxos) : SpendersExact G c' := by
  obtain ⟨h1, h2, h3⟩ := h
  exact ⟨ht ▸ h1, by rw [ht, hu]; exact h2, by rw [ht, hu]; exact h3⟩

theorem foldl_spendersExact {f : Conflicts ι → ι → Conflicts ι}
    (hf : ∀ c t, SpendersExact G c → SpendersExact G (f c t)) (L : List ι) (c : Conflicts ι)
    (h : SpendersExact G c) : SpendersExact G (L.foldl f c) := by
  induction L generalizing c with
  | nil => exact h
  | cons t L ih => exact ih _ (hf c t h)

variable [DecidableEq ι]

/-! ## The blocker operations leave the index alone -/

section frame

variable (c : Conflicts ι) (id : ι)

@[simp] theorem fulfillAccept_txs : (c.fulfillAccept id).txs = c.txs := rfl
@[simp] theorem fulfillAccept_utxos : (c.fulfillAccept id).utxos = c.utxos := rfl
@[simp] theorem fulfillAccept_pendingReject :
    (c.fulfillAccept id).pendingReject = c.pendingReject := rfl
@[simp] theorem fulfillAccept_rejectable : (c.fulfillAccept id).rejectable = c.rejectable := rfl
@[simp] theorem abandonAccept_txs : (c.abandonAccept id).txs = c.txs := rfl
@[simp] theorem abandonAccept_utxos : (c.abandonAccept id).utxos = c.utxos := rfl
@[simp] theorem abandonAccept_pendingReject :
    (c.abandonAccept id).pendingReject = c.pendingReject := rfl
@[simp] theorem abandonAccept_rejectable : (c.abandonAccept id).rejectable = c.rejectable := rfl
@[simp] theorem fulfillReject_txs : (c.fulfillReject id).txs = c.txs := rfl
@[simp] theorem fulfillReject_utxos : (c.fulfillReject id).utxos = c.utxos := rfl
@[simp] theorem fulfillReject_pendingAccept :
    (c.fulfillReject id).pendingAccept = c.pendingAccept := rfl
@[simp] theorem fulfillReject_acceptable : (c.fulfillReject id).acceptable = c.acceptable := rfl
@[simp] theorem abandonReject_txs : (c.abandonReject id).txs = c.txs := rfl
@[simp] theorem abandonReject_utxos : (c.abandonReject id).utxos = c.utxos := rfl
@[simp] theorem abandonReject_pendingAccept :
    (c.abandonReject id).pendingAccept = c.pendingAccept := rfl
@[simp] theorem abandonReject_acceptable : (c.abandonReject id).acceptable = c.acceptable := rfl
@[simp] theorem removeTx_txs : (c.removeTx G id).txs = c.txs.erase id := rfl
@[simp] theorem removeTx_utxos :
    (c.removeTx G id).utxos = (G.inputIDs id).foldl (removeSpender id) c.utxos := rfl
@[simp] theorem removeTx_pendingAccept : (c.removeTx G id).pendingAccept = c.pendingAccept := rfl
@[simp] theorem removeTx_pendingReject : (c.removeTx G id).pendingReject = c.pendingReject := rfl
@[simp] theorem removeTx_acceptable : (c.removeTx G id).acceptable = c.acceptable := rfl
@[simp] theorem removeTx_rejectable : (c.removeTx G id).rejectable = c.rejectable := rfl

end frame

theorem foldl_fulfillReject_frame (K : List ι) (c : Conflicts ι) :
    (K.foldl fulfillReject c).txs = c.txs ∧ (K.foldl fulfillReject c).utxos = c.utxos ∧
      (K.foldl fulfillReject c).pendingAccept = c.pendingAccept ∧
      (K.foldl fulfillReject c).acceptable = c.acceptable := by
  induction K generalizing c with
  | nil => simp
  | cons k K ih => simpa using ih (c.fulfillReject k)

@[simp] theorem drainAccepted_txs (o : MapOrder ι) (t : ι) :
    (c.drainAccepted G o t).txs = c.txs.erase t := by
  simp [drainAccepted, (foldl_fulfillReject_frame _ _).1]

@[simp] theorem drainAccepted_utxos (o : MapOrder ι) (t : ι) :
    (c.drainAccepted G o t).utxos = (G.inputIDs t).foldl (removeSpender t) c.utxos := by
  simp [drainAccepted, (foldl_fulfillReject_frame _ _).2.1]

@[simp] theorem drainRejected_txs (t : ι) : (c.drainRejected G t).txs = c.txs.erase t := rfl

@[simp] theorem drainRejected_utxos (t : ι) :
    (c.drainRejected G t).utxos = (G.inputIDs t).foldl (removeSpender t) c.utxos := rfl

/-! ## Marking and clearing inputs -/

theorem foldl_addSpender (t : ι) (l : List ι) (u : ι → Option (List ι)) (x : ι) :
    (l.foldl (addSpender t) u) x = if x ∈ l then some (((u x).getD []).insert t) else u x := by
  induction l generalizing u with
  | nil => simp
  | cons y l ih =>
    rw [List.foldl_cons, ih]
    by_cases hx : x = y
    · subst hx
      split <;> simp [addSpender, *]
    · simp [addSpender, hx]

theorem foldl_removeSpender (t : ι) (l : List ι) (u : ι → Option (List ι)) (x : ι)
    (hu : ((u x).getD []).Nodup) :
    (l.foldl (removeSpender t) u) x =
      if x ∈ l then
        (if ((u x).getD []).erase t = [] then none else some (((u x).getD []).erase t))
      else u x := by
  induction l generalizing u with
  | nil => simp
  | cons y l ih =>
    by_cases hx : x = y
    · subst hx
      have hs : ((removeSpender t u x x).getD []) = ((u x).getD []).erase t := by
        simp only [removeSpender, Function.update_same, List.length_eq_zero]
        split
        · simp [*]
        · rfl
      rw [List.foldl_cons, ih _ (hs ▸ hu.erase t), hs,
        List.erase_of_not_mem (fun h => (hu.mem_erase_iff.1 h).1 rfl)]
      simp only [removeSpender, Function.update_same, List.length_eq_zero, List.mem_cons, true_or,
        if_true]
      split <;> rfl
    · rw [List.foldl_cons, ih _ (by simpa [removeSpender, hx] using hu)]
      simp [removeSpender, hx]

theorem addTx_spendersExact (status : ι → Status) (t : ι) (h : SpendersExact G c) :
    SpendersExact G (c.addTx G status t) where
  txs_nodup := h.txs_nodup.insert
  key_iff x := by
    simp only [addTx, foldl_addSpender]
    by_cases hx : x ∈ G.inputIDs t
    · simp only [hx, if_true, Option.isSome_some, true_iff]
      exact ⟨t, List.mem_insert_self _ _, hx⟩
    · simp only [hx, if_false, h.key_iff, List.mem_insert_iff]
      constructor
      · rintro ⟨u, hu, hxu⟩; exact ⟨u, Or.inr hu, hxu⟩
      · rintro ⟨u, rfl | hu, hxu⟩
        · exact absurd hxu hx
        · exact ⟨u, hu, hxu⟩
  bucket x s hs := by
    simp only [addTx, foldl_addSpender] at hs ⊢
    by_cases hx : x ∈ G.inputIDs t
    · simp only [hx, if_true, Option.some.injEq] at hs
      subst hs
      refine ⟨(h.bucket_nodup x).insert, fun u => ?_⟩
      rw [List.mem_insert_iff, h.mem_bucket, List.mem_insert_iff]
      constructor
      · rintro (rfl | ⟨hu, hxu⟩)
        · exact ⟨Or.inl rfl, hx⟩
        · exact ⟨Or.inr hu, hxu⟩
      · rintro ⟨rfl | hu, hxu⟩
        · exact Or.inl rfl
        · exact Or.inr ⟨hu, hxu⟩
    · simp only [hx, if_false] at hs
      refine ⟨(h.bucket x s hs).1, fun u => ?_⟩
      rw [(h.bucket x s hs).2, List.mem_insert_iff]
      constructor
      · rintro ⟨hu, hxu⟩; exact ⟨Or.inr hu, hxu⟩
      · rintro ⟨rfl | hu, hxu⟩
        · exact absurd hxu hx
        · exact ⟨hu, hxu⟩

theorem removeTx_spendersExact (t : ι) (h : SpendersExact G c) :
    SpendersExact G (c.removeTx G t) := by
  have hmem : ∀ u, u ∈ c.txs.erase t ↔ u ≠ t ∧ u ∈ c.txs := fun u => h.txs_nodup.mem_erase_iff
  refine ⟨h.txs_nodup.erase t, fun x => ?_, fun x s hs => ?_⟩
  · simp only [removeTx_utxos, removeTx_txs, foldl_removeSpender _ _ _ _ (h.bucket_nodup x), hmem]
    by_cases hx : x ∈ G.inputIDs t
    · simp only [hx, if_true]
      split
      · rename_i he
        simp only [Option.isSome_none, Bool.false_eq_true, false_iff, not_exists, not_and]
        intro u hut hxu
        have : u ∈ ((c.utxos x).getD []).erase t := by
          rw [(h.bucket_nodup x).mem_erase_iff, h.mem_bucket]; exact ⟨hut.1, hut.2, hxu⟩
        simp [he] at this
      · rename_i he
        simp only [Option.isSome_some, true_iff]
        obtain ⟨u, hu⟩ := List.exists_mem_of_ne_nil _ he
        rw [(h.bucket_nodup x).mem_erase_iff, h.mem_bucket] at hu
        exact ⟨u, ⟨hu.1, hu.2.1⟩, hu.2.2⟩
    · simp only [hx, if_false, h.key_iff]
      constructor
      · rintro ⟨u, hu, hxu⟩; exact ⟨u, ⟨by rintro rfl; exact hx hxu, hu⟩, hxu⟩
      · rintro ⟨u, ⟨-, hu⟩, hxu⟩; exact ⟨u, hu, hxu⟩
  · simp only [removeTx_utxos, removeTx_txs, foldl_removeSpender _ _ _ _ (h.bucket_nodup x)] at hs
    by_cases hx : x ∈ G.inputIDs t
    · simp only [hx, if_true] at hs
      split at hs
      · cases hs
      · cases hs
        refine ⟨(h.bucket_nodup x).erase t, fun u => ?_⟩
        rw [(h.bucket_nodup x).mem_erase_iff, h.mem_bucket, removeTx_txs, hmem, and_assoc]
    · simp only [hx, if_false] at hs
      refine ⟨(h.bucket x s hs).1, fun u => ?_⟩
      rw [(h.bucket x s hs).2, removeTx_txs, hmem]
      constructor
      · rintro ⟨hu, hxu⟩; exact ⟨⟨by rintro rfl; exact hx hxu, hu⟩, hxu⟩
      · rintro ⟨⟨-, hu⟩, hxu⟩; exact ⟨hu, hxu⟩

/-! ## `Updateable` -/

theorem drainAccepted_spendersExact (o : MapOrder ι) (t : ι) (h : SpendersExact G c) :
    SpendersExact G (c.drainAccepted G o t) :=
  (removeTx_spendersExact t h).of_eq (by simp) (by simp)

theorem drainRejected_spendersExact (t : ι) (h : SpendersExact G c) :
    SpendersExact G (c.drainRejected G t) :=
  (removeTx_spendersExact t h).of_eq rfl rfl

theorem updateable_spendersExact (o : MapOrder ι) (h : SpendersExact G c) :
    SpendersExact G (c.updateable G o).1 := by
  have h1 := foldl_spendersExact (fun c t => drainAccepted_spendersExact o t) c.acceptable
    { c with acceptable := [] } (h.of_eq rfl rfl)
  exact foldl_spendersExact (fun c t => drainRejected_spendersExact t) _ _ (h1.of_eq rfl rfl)

theorem foldl_txs {f : Conflicts ι → ι → Conflicts ι} (hf : ∀ c t, (f c t).txs = c.txs.erase t)
    (L : List ι) (c : Conflicts ι) : (L.foldl f c).txs = L.foldl List.erase c.txs := by
  induction L generalizing c with
  | nil => rfl
  | cons t L ih => simp [ih, hf]

theorem mem_foldl_erase {l : List ι} (hl : l.Nodup) (L : List ι) (t : ι) :
    t ∈ L.foldl List.erase l ↔ t ∈ l ∧ t ∉ L := by
  induction L generalizing l with
  | nil => simp
  | cons y L ih =>
    rw [List.foldl_cons, ih (hl.erase y), hl.mem_erase_iff, List.mem_cons, not_or]
    tauto

theorem updateable_txs (o : MapOrder ι) (c : Conflicts ι) :
    (c.updateable G o).1.txs =
      ((c.updateable G o).2.1 ++ (c.updateable G o).2.2).foldl List.erase c.txs := by
  simp only [updateable, List.foldl_append]
  rw [foldl_txs (fun _ _ => drainRejected_txs _), foldl_txs (fun _ _ => drainAccepted_txs _ _)]

/-! ## `Conflicts` and `IsVirtuous` -/

theorem mem_foldl_union (b : ι → List ι) (l s : List ι) (k : ι) :
    k ∈ l.foldl (fun s x => s ∪ b x) s ↔ k ∈ s ∨ ∃ x ∈ l, k ∈ b x := by
  induction l generalizing s with
  | nil => simp
  | cons y l ih => simp only [List.foldl_cons, ih, List.mem_union_iff, List.mem_cons,
      exists_eq_or_imp, or_assoc]

theorem mem_conflictsTx (h : SpendersExact G c) (t k : ι) :
    k ∈ c.conflictsTx G t ↔ k ∈ c.txs ∧ ∃ x ∈ G.inputIDs t, x ∈ G.inputIDs k := by
  simp only [conflictsTx, mem_foldl_union, List.not_mem_nil, false_or, h.mem_bucket]
  constructor
  · rintro ⟨x, hx, hk, hxk⟩; exact ⟨hk, x, hx, hxk⟩
  · rintro ⟨hk, x, hx, hxk⟩; exact ⟨x, hx, hk, hxk⟩

theorem isVirtuous_iff (h : SpendersExact G c) (t : ι) :
    c.isVirtuous G (.tx t) = .ok true ↔ c.conflicts G (.tx t) = .ok [] := by
  simp only [isVirtuous, conflicts, Except.ok.injEq, List.all_eq_true, Option.isNone_iff_eq_none,
    List.eq_nil_iff_forall_not_mem, mem_conflictsTx h, not_and, not_exists]
  constructor
  · intro hn k _ x hx hxk
    exact absurd ((h.key_iff x).2 ⟨k, by assumption, hxk⟩) (by simp [hn x hx])
  · intro hn x hx
    by_contra hne
    obtain ⟨k, hk, hxk⟩ := (h.key_iff x).1 (Option.ne_none_iff_isSome.1 hne)
    exact hn k hk x hx hxk

/-! ## Every reachable state -/

/-- The states reached from `New()` by `Add` of a tx that is not processing, `Accept` of a
processing tx and `Updateable`, under any statuses and map orders, with the queues
overwritten by anything at any point. -/
inductive Reachable (G : TxIndex ι) : Conflicts ι → Prop
  | new : Reachable G new
  | add {c c' : Conflicts ι} {status : ι → Status} {t : ι} :
      Reachable G c → t ∉ c.txs → c.add G status (.tx t) = .ok c' → Reachable G c'
  | accept {c c' : Conflicts ι} {status : ι → Status} {t : ι} :
      Reachable G c → c.accept G status t = some c' → Reachable G c'
  | updateable {c : Conflicts ι} (o : MapOrder ι) :
      Reachable G c → Reachable G (c.updateable G o).1
  | queues {c : Conflicts ι} (acceptable rejectable : List ι) :
      Reachable G c → Reachable G { c with acceptable, rejectable }

theorem Reachable.spendersExact (h : Reachable G c) : SpendersExact G c := by
  induction h with
  | new => exact new_spendersExact
  | add _ _ hadd ih =>
    cases hadd
    exact addTx_spendersExact _ _ ih
  | accept _ hacc ih =>
    unfold Conflicts.accept at hacc
    split at hacc
    · cases hacc; exact ih.of_eq rfl rfl
    · cases hacc
  | updateable o _ ih => exact updateable_spendersExact o ih
  | queues _ _ _ ih => exact ih.of_eq rfl rfl

theorem spender_index_exact (h : Reachable G c) :
    SpendersExact G c ∧
    (∀ t, ∃ ks, c.conflicts G (.tx t) = .ok ks ∧
      ∀ k, k ∈ ks ↔ k ∈ c.txs ∧ ∃ x ∈ G.inputIDs t, x ∈ G.inputIDs k) ∧
    (∀ t, c.isVirtuous G (.tx t) = .ok true ↔ c.conflicts G (.tx t) = .ok []) ∧
    (∀ o, ∀ t ∈ (c.updateable G o).2.1 ++ (c.updateable G o).2.2,
      t ∉ (c.updateable G o).1.txs ∧ ∀ x, t ∉ ((c.updateable G o).1.utxos x).getD []) := by
  have hs := h.spendersExact
  refine ⟨hs, fun t => ⟨_, rfl, mem_conflictsTx hs t⟩, isVirtuous_iff hs, fun o t ht => ?_⟩
  have hout : t ∉ (c.updateable G o).1.txs := by
    rw [updateable_txs, mem_foldl_erase hs.txs_nodup]
    exact fun h' => h'.2 ht
  exact ⟨hout, fun x hx => hout ((updateable_spendersExact o hs).mem_bucket x t |>.1 hx).1⟩

/-- Txs 1 and 2 both spend input 0. -/
def twoSpenders : TxIndex Nat := ⟨fun t => if t = 1 ∨ t = 2 then [0] else [], fun _ => []⟩

/-- The manager after `Add` of txs 1 and 2. -/
def bothAdded : Conflicts Nat :=
  ((new : Conflicts Nat).addTx twoSpenders (fun _ => .processing) 1).addTx twoSpenders
    (fun _ => .processing) 2

theorem bothAdded_spenders :
    Reachable twoSpenders bothAdded ∧ SpendersExact twoSpenders bothAdded := by
  have h : Reachable twoSpenders bothAdded :=
    .add (.add .new (by decide) rfl) (by decide) rfl
  exact ⟨h, (spender_index_exact h).1⟩

end Conflicts

end Gecko
