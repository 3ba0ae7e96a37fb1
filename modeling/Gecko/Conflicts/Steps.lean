import Gecko.Conflicts.Spenders

/-! # What one operation of the manager does

Each operation is described once here, read off the state before it: which entries it
notifies, which txs it queues and which waiting lists it clears. The invariant of the
client's runs is derived from these descriptions only.
-/

namespace Gecko

variable {ι : Type}

theorem set_of_getElem? {α : Type} {es : List α} {i : Nat} {e : α} (h : es[i]? = some e) :
    es.set i e = es := by
  refine List.ext_getElem? fun j => ?_
  rw [List.getElem?_set]
  split
  · subst_vars; rw [if_pos (List.getElem?_eq_some_iff.1 h).1, h]
  · rfl

theorem notify_silent (is : List Nat) (es : List (Entry ι)) :
    notify (fun e => (e, false)) is es = (es, []) := by
  induction is with
  | nil => rfl
  | cons i is ih =>
    simp only [notify]
    split
    · exact ih
    · rename_i e he
      rw [set_of_getElem? he]; exact ih

namespace Conflicts

/-- The txs passed to `Add`: one rejector is registered per call. -/
def added (c : Conflicts ι) : List ι := c.pendingReject.entries.map Entry.tx

/-- The txs passed to `Accept`: one acceptor is registered per call. -/
def called (c : Conflicts ι) : List ι := c.pendingAccept.entries.map Entry.tx

theorem mem_map_tx {es : List (Entry ι)} {t : ι} :
    t ∈ es.map Entry.tx ↔ ∃ (i : Nat) (e : Entry ι), es[i]? = some e ∧ e.tx = t := by
  rw [List.mem_map]
  constructor
  · rintro ⟨e, he, rfl⟩
    obtain ⟨i, hi⟩ := List.mem_iff_getElem?.1 he
    exact ⟨i, e, hi, rfl⟩
  · rintro ⟨i, e, hi, rfl⟩
    exact ⟨e, List.mem_iff_getElem?.2 ⟨i, hi⟩, rfl⟩

variable {G : TxIndex ι}

/-- `a` and `b` spend a common input. -/
def Shares (G : TxIndex ι) (a b : ι) : Prop := ∃ x ∈ G.inputIDs a, x ∈ G.inputIDs b

theorem Shares.symm {a b : ι} (h : Shares G a b) : Shares G b a := by
  obtain ⟨x, ha, hb⟩ := h; exact ⟨x, hb, ha⟩

theorem fired_silent {step : Entry ι → Entry ι × Bool} (h : ∀ e, (step e).2 = false)
    (is : List Nat) (es : List (Entry ι)) : fired step is es = [] := by
  simp [fired, h]

theorem mapEntry_ite {p : Prop} [Decidable p] (f : Entry ι → Entry ι) (o : Option (Entry ι)) :
    (if p then o.map f else o) = o.map fun e => if p then f e else e := by
  cases o <;> split <;> rfl

variable [DecidableEq ι]

instance (a b : ι) : Decidable (Shares G a b) :=
  inferInstanceAs (Decidable (∃ x ∈ G.inputIDs a, x ∈ G.inputIDs b))

theorem mem_unaccepted {status : ι → Status} {deps s : List ι} {d : ι} :
    d ∈ unaccepted status deps s ↔ d ∈ s ∨ (d ∈ deps ∧ status d ≠ .accepted) := by
  induction deps generalizing s with
  | nil => simp [unaccepted]
  | cons d' deps ih =>
    simp only [unaccepted, List.foldl_cons] at ih ⊢
    rw [ih]
    by_cases hd : d = d'
    · subst hd
      by_cases hs : status d = .accepted <;> simp [hs, List.mem_insert_iff]
    · split <;> simp [List.mem_insert_iff, hd]

theorem unaccepted_nodup {status : ι → Status} {deps s : List ι} (h : s.Nodup) :
    (unaccepted status deps s).Nodup := by
  induction deps generalizing s with
  | nil => exact h
  | cons d deps ih =>
    simp only [unaccepted, List.foldl_cons] at ih ⊢
    split
    · exact ih h.insert
    · exact ih h

/-! ## The rejections of the acceptable loop -/

section fulfillReject

theorem foldl_fulfillReject_waiting (K : List ι) (c : Conflicts ι) (k : ι) :
    (K.foldl fulfillReject c).pendingReject.waiting k =
      if k ∈ K then [] else c.pendingReject.waiting k := by
  induction K generalizing c with
  | nil => simp
  | cons k' K ih =>
    rw [List.foldl_cons, ih]
    by_cases hk : k = k' <;>
      simp [hk, fulfillReject, Blocker.fulfill, Function.update_apply]

theorem foldl_fulfillReject_wellFormed (K : List ι) (c : Conflicts ι)
    (h : c.pendingReject.WellFormed) : (K.foldl fulfillReject c).pendingReject.WellFormed := by
  induction K generalizing c with
  | nil => exact h
  | cons k K ih => exact ih _ (Blocker.release_wellFormed h)

theorem foldl_fulfillReject_added (K : List ι) (c : Conflicts ι)
    (h : c.pendingReject.WellFormed) : (K.foldl fulfillReject c).added = c.added := by
  induction K generalizing c with
  | nil => rfl
  | cons k K ih =>
    rw [List.foldl_cons, ih _ (Blocker.release_wellFormed h)]
    exact Blocker.release_tx (fun _ => rfl) (h.nodup k)

theorem foldl_fulfillReject_entries (K : List ι) (c : Conflicts ι)
    (h : c.pendingReject.WellFormed) (j : Nat) :
    (K.foldl fulfillReject c).pendingReject.entries[j]? =
      (c.pendingReject.entries[j]?).map fun e =>
        { e with rejected := e.rejected || decide (∃ k ∈ K, j ∈ c.pendingReject.waiting k) } := by
  induction K generalizing c with
  | nil =>
    simp only [List.foldl_nil, List.not_mem_nil, false_and, exists_false, decide_False,
      Bool.or_false]
    cases c.pendingReject.entries[j]? <;> rfl
  | cons k K ih =>
    rw [List.foldl_cons, ih _ (Blocker.release_wellFormed h)]
    simp only [fulfillReject, Blocker.fulfill, Blocker.release_waiting,
      Blocker.release_getElem? (h.nodup k)]
    cases c.pendingReject.entries[j]? with
    | none => split <;> rfl
    | some e =>
      by_cases hj : j ∈ c.pendingReject.waiting k
      · simp [hj, rejector]
      · have : (∃ k' ∈ K, j ∈ Function.update c.pendingReject.waiting k [] k') ↔
            ∃ k' ∈ k :: K, j ∈ c.pendingReject.waiting k' := by
          simp only [List.mem_cons, exists_eq_or_imp, hj, false_or, Function.update_apply]
          constructor
          · rintro ⟨k', hk', hj'⟩; split at hj'
            · simp at hj'
            · exact ⟨k', hk', hj'⟩
          · rintro ⟨k', hk', hj'⟩
            exact ⟨k', hk', by rw [if_neg (by rintro rfl; exact hj hj')]; exact hj'⟩
        simp [hj, this]

theorem foldl_fulfillReject_rejectable (K : List ι) (c : Conflicts ι)
    (h : c.pendingReject.WellFormed) (htx : c.added.Nodup) :
    ∃ F, (K.foldl fulfillReject c).rejectable = c.rejectable ++ F ∧ F.Nodup ∧
      ∀ x, x ∈ F ↔ ∃ (j : Nat) (e : Entry ι), c.pendingReject.entries[j]? = some e ∧ e.rejected = false ∧
        (∃ k ∈ K, j ∈ c.pendingReject.waiting k) ∧ e.tx = x := by
  induction K generalizing c with
  | nil => exact ⟨[], by simp, List.nodup_nil, by simp⟩
  | cons k K ih =>
    have h' : (c.pendingReject.release k (rejector.fulfill k)).1.WellFormed :=
      Blocker.release_wellFormed h
    have htx' : (c.fulfillReject k).added.Nodup := by
      rw [added, fulfillReject, Blocker.fulfill, Blocker.release_tx (fun _ => rfl) (h.nodup k)]
      exact htx
    obtain ⟨F, hF, hnd, hmem⟩ := ih (c.fulfillReject k) h' htx'
    have hsnd : (c.pendingReject.fulfill rejector k).2 =
        fired (rejector.fulfill k) (c.pendingReject.waiting k) c.pendingReject.entries :=
      Blocker.release_snd (fun _ => rfl) (h.nodup k)
    -- after `k`, an entry that is still unrejected was not waiting on `k`
    have hmem' : ∀ x, x ∈ F ↔ ∃ (j : Nat) (e : Entry ι), c.pendingReject.entries[j]? = some e ∧
        e.rejected = false ∧ j ∉ c.pendingReject.waiting k ∧
        (∃ k' ∈ K, j ∈ c.pendingReject.waiting k') ∧ e.tx = x := by
      intro x
      rw [hmem]
      simp only [fulfillReject, Blocker.fulfill, Blocker.release_waiting,
        Blocker.release_getElem? (h.nodup k), Function.update_apply]
      constructor
      · rintro ⟨j, e, he, hr, ⟨k', hk', hj⟩, rfl⟩
        split at he
        · rename_i hjk
          obtain ⟨e0, -, rfl⟩ := Option.map_eq_some'.1 he
          simp [rejector] at hr
        · split at hj
          · simp at hj
          · exact ⟨j, e, he, hr, by assumption, ⟨k', hk', hj⟩, rfl⟩
      · rintro ⟨j, e, he, hr, hjk, ⟨k', hk', hj⟩, rfl⟩
        refine ⟨j, e, by simp [hjk, he], hr, ⟨k', hk', ?_⟩, rfl⟩
        rw [if_neg (by rintro rfl; exact hjk hj)]; exact hj
    refine ⟨fired (rejector.fulfill k) (c.pendingReject.waiting k) c.pendingReject.entries ++ F,
      by rw [List.foldl_cons, hF, fulfillReject, hsnd, List.append_assoc], ?_, fun x => ?_⟩
    · refine List.nodup_append.2 ⟨fired_nodup (h.nodup k) htx, hnd, fun x hx1 hx2 => ?_⟩
      obtain ⟨j, hj, e, he, -, rfl⟩ := mem_fired.1 hx1
      obtain ⟨j', e', he', -, hj', -, hx⟩ := (hmem' _).1 hx2
      exact hj' (index_eq_of_tx_eq htx he he' hx.symm ▸ hj)
    · rw [List.mem_append, mem_fired, hmem']
      constructor
      · rintro (⟨j, hj, e, he, hr, rfl⟩ | ⟨j, e, he, hr, -, ⟨k', hk', hj⟩, rfl⟩)
        · exact ⟨j, e, he, by simpa [rejector] using hr, ⟨k, List.mem_cons_self _ _, hj⟩, rfl⟩
        · exact ⟨j, e, he, hr, ⟨k', List.mem_cons_of_mem _ hk', hj⟩, rfl⟩
      · rintro ⟨j, e, he, hr, ⟨k', hk', hj⟩, rfl⟩
        by_cases hjk : j ∈ c.pendingReject.waiting k
        · exact Or.inl ⟨j, hjk, e, he, by simp [rejector, hr], rfl⟩
        · rcases List.mem_cons.1 hk' with rfl | hk'
          · exact absurd hj hjk
          · exact Or.inr ⟨j, e, he, hr, hjk, ⟨k', hk', hj⟩, rfl⟩

end fulfillReject

/-! ## `Add` and `Accept` -/

section register

variable (status : ι → Status) (c : Conflicts ι) (t : ι)

@[simp] theorem addTx_txs : (c.addTx G status t).txs = c.txs.insert t := rfl
@[simp] theorem addTx_pendingAccept : (c.addTx G status t).pendingAccept = c.pendingAccept := rfl
@[simp] theorem addTx_pendingReject : (c.addTx G status t).pendingReject =
    (c.pendingReject.register rejector ⟨t, unaccepted status (G.dependencies t) [t], false⟩).1 :=
  rfl
@[simp] theorem addTx_acceptable : (c.addTx G status t).acceptable = c.acceptable := rfl
@[simp] theorem addTx_rejectable : (c.addTx G status t).rejectable = c.rejectable := by
  simp [addTx, rejector]

@[simp] theorem acceptTx_txs : (c.acceptTx G status t).txs = c.txs := rfl
@[simp] theorem acceptTx_utxos : (c.acceptTx G status t).utxos = c.utxos := rfl
@[simp] theorem acceptTx_pendingAccept : (c.acceptTx G status t).pendingAccept =
    (c.pendingAccept.register acceptor ⟨t, unaccepted status (G.dependencies t) [], false⟩).1 :=
  rfl
@[simp] theorem acceptTx_pendingReject : (c.acceptTx G status t).pendingReject = c.pendingReject :=
  rfl
@[simp] theorem acceptTx_acceptable : (c.acceptTx G status t).acceptable =
    c.acceptable ++ if unaccepted status (G.dependencies t) [] = [] then [t] else [] := by
  simp [acceptTx, acceptor]
@[simp] theorem acceptTx_rejectable : (c.acceptTx G status t).rejectable = c.rejectable := rfl

end register

/-! ## The two loops of `Updateable` -/

/-- What `drainAccepted t` does. `K` holds the conflicts of `t`, `FA` the txs its
acceptors queue and `FR` the txs the rejectors of its conflicts queue. -/
structure AcceptedStep (G : TxIndex ι) (c c' : Conflicts ι) (t : ι) (K FA FR : List ι) :
    Prop where
  txs : c'.txs = c.txs.erase t
  spenders : SpendersExact G c'
  added : c'.added = c.added
  called : c'.called = c.called
  wfA : c'.pendingAccept.WellFormed
  wfR : c'.pendingReject.WellFormed
  mem_K : ∀ k, k ∈ K ↔ k ∈ c'.txs ∧ Shares G t k
  accWaiting : ∀ k, c'.pendingAccept.waiting k = if k = t then [] else c.pendingAccept.waiting k
  accEntry : ∀ i, c'.pendingAccept.entries[i]? = (c.pendingAccept.entries[i]?).map fun (e : Entry ι) =>
    if i ∈ c.pendingAccept.waiting t then { e with deps := e.deps.erase t } else e
  acceptable : c'.acceptable = c.acceptable ++ FA
  mem_FA : ∀ x, x ∈ FA ↔ ∃ i ∈ c.pendingAccept.waiting t, ∃ e : Entry ι,
    c.pendingAccept.entries[i]? = some e ∧ e.rejected = false ∧ e.deps.erase t = [] ∧ e.tx = x
  nodup_FA : FA.Nodup
  rejWaiting : ∀ k, c'.pendingReject.waiting k =
    if k = t ∨ k ∈ K then [] else c.pendingReject.waiting k
  rejEntry : ∀ j, c'.pendingReject.entries[j]? = (c.pendingReject.entries[j]?).map fun (e : Entry ι) =>
    { e with rejected := e.rejected || decide (∃ k ∈ K, j ∈ c.pendingReject.waiting k) }
  rejectable : c'.rejectable = c.rejectable ++ FR
  mem_FR : ∀ x, x ∈ FR ↔ ∃ (j : Nat) (e : Entry ι), c.pendingReject.entries[j]? = some e ∧
    e.rejected = false ∧ (∃ k ∈ K, j ∈ c.pendingReject.waiting k) ∧ e.tx = x
  nodup_FR : FR.Nodup

/-- What `drainRejected t` does. `FR` holds the txs its rejectors queue. -/
structure RejectedStep (G : TxIndex ι) (c c' : Conflicts ι) (t : ι) (FR : List ι) : Prop where
  txs : c'.txs = c.txs.erase t
  spenders : SpendersExact G c'
  added : c'.added = c.added
  called : c'.called = c.called
  wfA : c'.pendingAccept.WellFormed
  wfR : c'.pendingReject.WellFormed
  accWaiting : ∀ k, c'.pendingAccept.waiting k = if k = t then [] else c.pendingAccept.waiting k
  accEntry : ∀ i, c'.pendingAccept.entries[i]? = (c.pendingAccept.entries[i]?).map fun (e : Entry ι) =>
    if i ∈ c.pendingAccept.waiting t then { e with rejected := true } else e
  acceptable : c'.acceptable = c.acceptable
  rejWaiting : ∀ k, c'.pendingReject.waiting k = if k = t then [] else c.pendingReject.waiting k
  rejEntry : ∀ j, c'.pendingReject.entries[j]? = (c.pendingReject.entries[j]?).map fun (e : Entry ι) =>
    if j ∈ c.pendingReject.waiting t then { e with rejected := true } else e
  rejectable : c'.rejectable = c.rejectable ++ FR
  mem_FR : ∀ x, x ∈ FR ↔ ∃ j ∈ c.pendingReject.waiting t, ∃ e : Entry ι,
    c.pendingReject.entries[j]? = some e ∧ e.rejected = false ∧ e.tx = x
  nodup_FR : FR.Nodup

variable {c : Conflicts ι}

theorem abandonReject_pendingReject (id : ι) :
    (c.abandonReject id).pendingReject =
      ⟨Function.update c.pendingReject.waiting id [], c.pendingReject.entries⟩ := by
  simp only [abandonReject, Blocker.abandon, Blocker.release]
  rw [show rejector.abandon id = fun e : Entry ι => (e, false) from rfl, notify_silent]

theorem abandonReject_rejectable (id : ι) :
    (c.abandonReject id).rejectable = c.rejectable := by
  simp only [abandonReject, Blocker.abandon, Blocker.release]
  rw [show rejector.abandon id = fun e : Entry ι => (e, false) from rfl, notify_silent,
    List.append_nil]

theorem drainRejected_step (t : ι) (hs : SpendersExact G c) (hA : c.pendingAccept.WellFormed)
    (hR : c.pendingReject.WellFormed) (hadd : c.added.Nodup) :
    ∃ FR, RejectedStep G c (c.drainRejected G t) t FR := by
  have hsndA : (c.pendingAccept.abandon acceptor t).2 = [] := by
    rw [Blocker.abandon, Blocker.release_snd (fun _ => rfl) (hA.nodup t)]
    exact fired_silent (fun _ => rfl) _ _
  refine ⟨fired (rejector.fulfill t) (c.pendingReject.waiting t) c.pendingReject.entries,
    { txs := rfl
      spenders := drainRejected_spendersExact t hs
      added := Blocker.release_tx (fun _ => rfl) (hR.nodup t)
      called := Blocker.release_tx (fun _ => rfl) (hA.nodup t)
      wfA := Blocker.release_wellFormed hA
      wfR := Blocker.release_wellFormed hR
      accWaiting := fun k => Function.update_apply _ _ _ _
      accEntry := fun i => (Blocker.release_getElem? (hA.nodup t) i).trans (mapEntry_ite _ _)
      acceptable := by simp [drainRejected, abandonAccept, hsndA]
      rejWaiting := fun k => Function.update_apply _ _ _ _
      rejEntry := fun j => (Blocker.release_getElem? (hR.nodup t) j).trans (mapEntry_ite _ _)
      rejectable := by
        simp only [drainRejected, fulfillReject, abandonAccept_rejectable, removeTx_rejectable,
          abandonAccept_pendingReject, removeTx_pendingReject, Blocker.fulfill]
        rw [Blocker.release_snd (fun _ => rfl) (hR.nodup t)]
      mem_FR := fun x => by
        rw [mem_fired]
        simp only [rejector, Bool.not_eq_true']
      nodup_FR := fired_nodup (hR.nodup t) hadd }⟩

theorem drainAccepted_step (o : MapOrder ι) (t : ι) (hs : SpendersExact G c)
    (hA : c.pendingAccept.WellFormed) (hR : c.pendingReject.WellFormed) (hadd : c.added.Nodup)
    (hcall : c.called.Nodup) :
    ∃ K FA FR, AcceptedStep G c (c.drainAccepted G o t) t K FA FR := by
  set c3 := ((c.removeTx G t).fulfillAccept t).abandonReject t with hc3
  have hR3 : c3.pendingReject = ⟨Function.update c.pendingReject.waiting t [],
      c.pendingReject.entries⟩ := abandonReject_pendingReject t
  have hwf3 : c3.pendingReject.WellFormed := Blocker.release_wellFormed hR
  have hadd3 : c3.added = c.added := by rw [added, hR3]; rfl
  have hs3 : SpendersExact G c3 := (removeTx_spendersExact t hs).of_eq rfl rfl
  set K := o.arrange t (c3.conflictsTx G t) with hK
  have hc' : c.drainAccepted G o t = K.foldl fulfillReject c3 := rfl
  have hframe := foldl_fulfillReject_frame K c3
  have hmemK : ∀ k, k ∈ K ↔ k ∈ (c.drainAccepted G o t).txs ∧ Shares G t k := fun k => by
    rw [(o.perm t _).mem_iff, mem_conflictsTx hs3, drainAccepted_txs]; rfl
  have htK : ∀ k ∈ K, k ≠ t := fun k hk => by
    rintro rfl
    have := ((hmemK k).1 hk).1
    rw [drainAccepted_txs] at this
    exact (hs.txs_nodup.mem_erase_iff.1 this).1 rfl
  have hwait : ∀ j, (∃ k ∈ K, j ∈ Function.update c.pendingReject.waiting t [] k) ↔
      ∃ k ∈ K, j ∈ c.pendingReject.waiting k := fun j =>
    exists_congr fun k => and_congr_right fun hk => by rw [Function.update_noteq (htK k hk)]
  obtain ⟨FR, hFR, hndR, hmemR⟩ := foldl_fulfillReject_rejectable K c3 hwf3 (hadd3 ▸ hadd)
  have hsndA : (c.pendingAccept.fulfill acceptor t).2 =
      fired (acceptor.fulfill t) (c.pendingAccept.waiting t) c.pendingAccept.entries :=
    Blocker.release_snd (fun _ => rfl) (hA.nodup t)
  refine ⟨K, fired (acceptor.fulfill t) (c.pendingAccept.waiting t) c.pendingAccept.entries, FR,
    { txs := drainAccepted_txs o t
      spenders := drainAccepted_spendersExact o t hs
      added := by rw [hc', foldl_fulfillReject_added K c3 hwf3, hadd3]
      called := by
        rw [called, hc', hframe.2.2.1]
        exact Blocker.release_tx (fun _ => rfl) (hA.nodup t)
      wfA := by rw [hc', hframe.2.2.1]; exact Blocker.release_wellFormed hA
      wfR := by rw [hc']; exact foldl_fulfillReject_wellFormed K c3 hwf3
      mem_K := hmemK
      accWaiting := fun k => by
        rw [hc', hframe.2.2.1]; exact Function.update_apply _ _ _ _
      accEntry := fun i => by
        rw [hc', hframe.2.2.1]
        exact (Blocker.release_getElem? (hA.nodup t) i).trans (mapEntry_ite _ _)
      acceptable := by
        rw [hc', hframe.2.2.2, hc3, abandonReject_acceptable, fulfillAccept, removeTx_acceptable,
          removeTx_pendingAccept, hsndA]
      mem_FA := fun x => by
        rw [mem_fired]
        simp only [acceptor, Bool.and_eq_true, Bool.not_eq_true', List.isEmpty_iff, and_assoc]
      nodup_FA := fired_nodup (hA.nodup t) hcall
      rejWaiting := fun k => by
        rw [hc', foldl_fulfillReject_waiting, hR3]
        dsimp only
        by_cases hk : k ∈ K
        · simp [hk]
        · by_cases hkt : k = t
          · subst hkt; simp [hk]
          · simp [hk, hkt]
      rejEntry := fun j => by
        rw [hc', foldl_fulfillReject_entries K c3 hwf3, hR3]
        dsimp only
        simp only [hwait]
      rejectable := by
        rw [hc', hFR, hc3, abandonReject_rejectable]; rfl
      mem_FR := fun x => by
        rw [hmemR, hR3]
        dsimp only
        simp only [hwait]
      nodup_FR := hndR }⟩

end Conflicts

end Gecko
