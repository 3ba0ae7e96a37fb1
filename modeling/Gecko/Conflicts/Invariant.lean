import Gecko.Conflicts.Session

/-! # The invariant of the client's runs

`Inv G c DA QA DR QR` holds between any two rounds of the loops of `Updateable`: `DA` and
`DR` are the txs drained so far as acceptable and as rejectable, `QA` and `QR` those queued
to be. `Add`, `Accept` and each round keep it; the proofs read only the descriptions of
`Steps`.
-/

namespace Gecko

theorem getElem?_concat_eq_some {α : Type} {l : List α} {a x : α} {j : Nat} :
    (l ++ [a])[j]? = some x ↔ l[j]? = some x ∨ (j = l.length ∧ a = x) := by
  rcases Nat.lt_or_ge j l.length with hj | hj
  · rw [List.getElem?_append_left hj]; simp [Nat.ne_of_lt hj]
  · rw [List.getElem?_append_right hj, List.getElem?_eq_none hj]
    obtain ⟨k, rfl⟩ := Nat.exists_eq_add_of_le hj
    cases k <;> simp

theorem nodup_append_of {α : Type} {l F : List α} (hl : l.Nodup) (hF : F.Nodup)
    (hd : ∀ x ∈ F, x ∉ l) : (l ++ F).Nodup :=
  List.nodup_append.2 ⟨hl, hF, fun _ h1 h2 => hd _ h2 h1⟩

namespace Conflicts

variable {ι : Type} {G : TxIndex ι}

/-- What holds of the manager between two rounds of `Updateable`'s loops, given the txs
drained as acceptable (`DA`) and rejectable (`DR`) and those queued (`QA`, `QR`). -/
structure Inv (G : TxIndex ι) (c : Conflicts ι) (DA QA DR QR : List ι) : Prop where
  spenders : SpendersExact G c
  nodupA : (DA ++ QA).Nodup
  nodupR : (DR ++ QR).Nodup
  apart : ∀ t, t ∈ DA ∨ t ∈ QA → t ∈ DR ∨ t ∈ QR → False
  queued : ∀ t, t ∈ QA ∨ t ∈ QR → t ∈ c.txs
  drained : ∀ t, t ∈ DA ∨ t ∈ DR → t ∉ c.txs
  added_iff : ∀ t, t ∈ c.added ↔ t ∈ c.txs ∨ t ∈ DA ∨ t ∈ DR
  added_nodup : c.added.Nodup
  called_nodup : c.called.Nodup
  called_added : ∀ t ∈ c.called, t ∈ c.added
  accepted_called : ∀ t, t ∈ DA ∨ t ∈ QA → t ∈ c.called
  called_apart : ∀ a ∈ c.called, ∀ b ∈ c.called, a ≠ b → ¬ Shares G a b
  wfA : c.pendingAccept.WellFormed
  wfR : c.pendingReject.WellFormed
  /-- A rejector has fired exactly when its tx is rejectable. -/
  rej_iff : ∀ (j : Nat) (e : Entry ι), c.pendingReject.entries[j]? = some e →
    (e.rejected = true ↔ e.tx ∈ DR ∨ e.tx ∈ QR)
  rej_waiting : ∀ (k : ι) (j : Nat) (e : Entry ι), j ∈ c.pendingReject.waiting k → c.pendingReject.entries[j]? = some e →
    k = e.tx ∨ (k ∈ G.dependencies e.tx ∧ k ∉ DA)
  rej_own : ∀ (j : Nat) (e : Entry ι), c.pendingReject.entries[j]? = some e → e.rejected = false →
    e.tx ∈ c.txs → j ∈ c.pendingReject.waiting e.tx
  acc_deps : ∀ (i : Nat) (e : Entry ι), c.pendingAccept.entries[i]? = some e →
    ∀ d ∈ G.dependencies e.tx, d ∈ e.deps ∨ d ∈ DA
  acc_waiting : ∀ (i : Nat) (e : Entry ι), c.pendingAccept.entries[i]? = some e → e.rejected = false →
    ∀ k, i ∈ c.pendingAccept.waiting k ↔ k ∈ e.deps
  /-- An acceptor has fired exactly when its tx is acceptable. -/
  acc_fired : ∀ (i : Nat) (e : Entry ι), c.pendingAccept.entries[i]? = some e →
    (e.tx ∈ DA ∨ e.tx ∈ QA ↔ e.rejected = false ∧ e.deps = [])
  acc_nodup : ∀ (i : Nat) (e : Entry ι), c.pendingAccept.entries[i]? = some e → e.deps.Nodup
  /-- Every rejectable tx conflicts with a drained acceptable tx or has a rejectable
  dependency. -/
  justified : ∀ t, t ∈ DR ∨ t ∈ QR →
    (∃ a ∈ DA, a ≠ t ∧ Shares G a t) ∨ ∃ d ∈ G.dependencies t, d ∈ DR ∨ d ∈ QR
  conflict_rejected : ∀ a ∈ DA, ∀ t ∈ c.added, a ≠ t → Shares G a t → t ∈ DR ∨ t ∈ QR
  dep_waiting : ∀ (j : Nat) (e : Entry ι), c.pendingReject.entries[j]? = some e → ¬ (e.tx ∈ DR ∨ e.tx ∈ QR) →
    ∀ d ∈ G.dependencies e.tx, d ∈ DA ∨ j ∈ c.pendingReject.waiting d
  rejected_cleared : ∀ d ∈ DR, c.pendingReject.waiting d = []

variable {c c' : Conflicts ι} {DA QA DR QR : List ι}

theorem inv_new : Inv G (new : Conflicts ι) [] [] [] [] where
  spenders := new_spendersExact
  nodupA := List.nodup_nil
  nodupR := List.nodup_nil
  apart := by simp
  queued := by simp
  drained := by simp
  added_iff := by simp [added, new]
  added_nodup := List.nodup_nil
  called_nodup := List.nodup_nil
  called_added := by simp [called, new]
  accepted_called := by simp
  called_apart := by simp [called, new]
  wfA := ⟨by simp [new], fun _ => List.nodup_nil⟩
  wfR := ⟨by simp [new], fun _ => List.nodup_nil⟩
  rej_iff := by simp [new]
  rej_waiting := by simp [new]
  rej_own := by simp [new]
  acc_deps := by simp [new]
  acc_waiting := by simp [new]
  acc_fired := by simp [new]
  acc_nodup := by simp [new]
  justified := by simp
  conflict_rejected := by simp
  dep_waiting := by simp [new]
  rejected_cleared := by simp

theorem Inv.setQueues (h : Inv G c DA QA DR QR) (acceptable rejectable : List ι) :
    Inv G { c with acceptable, rejectable } DA QA DR QR :=
  { h with spenders := h.spenders.of_eq rfl rfl }

section derived

variable (h : Inv G c DA QA DR QR)
include h

theorem Inv.accepted_deps {t : ι} (ht : t ∈ DA ∨ t ∈ QA) : ∀ d ∈ G.dependencies t, d ∈ DA := by
  obtain ⟨i, e, he, rfl⟩ := mem_map_tx.1 (h.accepted_called t ht)
  intro d hd
  have hfired := (h.acc_fired i e he).1 ht
  simpa [hfired.2] using h.acc_deps i e he d hd

theorem Inv.own_waiting {k : ι} (hk : k ∈ c.txs) :
    k ∈ DR ∨ k ∈ QR ∨ ∃ (j : Nat) (e : Entry ι), c.pendingReject.entries[j]? = some e ∧
      e.rejected = false ∧ e.tx = k ∧ j ∈ c.pendingReject.waiting k := by
  obtain ⟨j, e, he, rfl⟩ := mem_map_tx.1 ((h.added_iff k).2 (.inl hk))
  cases hr : e.rejected
  · exact .inr (.inr ⟨j, e, he, hr, rfl, h.rej_own j e he hr hk⟩)
  · rcases (h.rej_iff j e he).1 hr with h' | h'
    · exact .inl h'
    · exact .inr (.inl h')

end derived

/-! ## `Add` and `Accept` -/

variable [DecidableEq ι]

theorem Inv.addTx (h : Inv G c DA QA DR QR) {status : ι → Status} {t : ι}
    (hfresh : t ∉ c.added) (hacc : ∀ d ∈ G.dependencies t, status d = .accepted → d ∈ DA)
    (hproc : ∀ d ∈ G.dependencies t, status d ≠ .accepted → d ∈ c.txs)
    (hin : ∀ a ∈ DA, ¬ Shares G a t) :
    Inv G (c.addTx G status t) DA QA DR QR := by
  set e0 : Entry ι := ⟨t, unaccepted status (G.dependencies t) [t], false⟩
  set R := c.pendingReject
  have hold : ∀ x, x ∈ DA ∨ x ∈ DR → x ≠ t := fun x hx hxt =>
    hfresh ((h.added_iff t).2 (.inr (hxt ▸ hx)))
  have hnew : ¬ (t ∈ DR ∨ t ∈ QR) := fun ht => ht.elim (fun hd => hold t (.inr hd) rfl)
    fun hq => hfresh ((h.added_iff t).2 (.inl (h.queued t (.inr hq))))
  have hadded : (c.addTx G status t).added = c.added ++ [t] := by simp [added]
  have hentry : ∀ j e, (c.addTx G status t).pendingReject.entries[j]? = some e ↔
      R.entries[j]? = some e ∨ (j = R.entries.length ∧ e0 = e) := fun j e => by
    rw [addTx_pendingReject, Blocker.register_entries, getElem?_concat_eq_some]
  have hwait : ∀ k j, j ∈ (c.addTx G status t).pendingReject.waiting k ↔
      j ∈ R.waiting k ∨ (k ∈ e0.deps ∧ j = R.entries.length) := fun k j => by
    rw [addTx_pendingReject, Blocker.register_waiting]
    split <;> simp [*]
  -- a dependency the new rejector waits on is the tx itself or processing
  have hdeps : ∀ d ∈ e0.deps, d = t ∨ (d ∈ G.dependencies t ∧ d ∈ c.txs) := fun d hd => by
    rcases mem_unaccepted.1 hd with hd | ⟨hd, hs⟩
    · exact .inl (List.mem_singleton.1 hd)
    · exact .inr ⟨hd, hproc d hd hs⟩
  have hlt : ∀ k j, j ∈ R.waiting k → j ≠ R.entries.length := fun k j hj =>
    Nat.ne_of_lt (h.wfR.lt k j hj)
  refine
    { h with
      spenders := addTx_spendersExact status t h.spenders
      queued := fun x hx => List.mem_insert_of_mem (h.queued x hx)
      drained := fun x hx => by
        rw [addTx_txs, List.mem_insert_iff, not_or]
        exact ⟨hold x hx, h.drained x hx⟩
      added_iff := fun x => by
        rw [hadded, List.mem_append, List.mem_singleton, h.added_iff, addTx_txs,
          List.mem_insert_iff]
        exact or_right_comm.trans (or_congr_left or_comm)
      added_nodup := by
        rw [hadded]
        exact nodup_append_of h.added_nodup (List.nodup_singleton t) (by simpa using hfresh)
      called_added := fun x hx => hadded ▸ List.mem_append_left _ (h.called_added x hx)
      wfR := by rw [addTx_pendingReject]; exact Blocker.register_wellFormed h.wfR
      rej_iff := fun j e he => by
        rcases (hentry j e).1 he with he | ⟨-, rfl⟩
        · exact h.rej_iff j e he
        · simpa [e0] using hnew
      rej_waiting := fun k j e hj he => by
        rcases (hwait k j).1 hj with hj | ⟨hk, rfl⟩
        · rcases (hentry j e).1 he with he | ⟨hjn, -⟩
          · exact h.rej_waiting k j e hj he
          · exact absurd hjn (hlt k j hj)
        · obtain ⟨-, rfl⟩ | he := ((hentry _ e).1 he).symm
          · rcases hdeps k hk with rfl | ⟨hk, hkt⟩
            · exact .inl rfl
            · exact .inr ⟨hk, fun hka => h.drained k (.inl hka) hkt⟩
          · exact absurd (List.getElem?_eq_some_iff.1 he).1 (Nat.lt_irrefl _)
      rej_own := fun j e he hr htx => by
        rcases (hentry j e).1 he with he | ⟨rfl, rfl⟩
        · have htx' : e.tx ∈ c.txs := by
            rcases List.mem_insert_iff.1 htx with hxt | hx
            · exact absurd (hxt ▸ mem_map_tx.2 ⟨j, e, he, rfl⟩) hfresh
            · exact hx
          exact (hwait _ _).2 (.inl (h.rej_own j e he hr htx'))
        · exact (hwait _ _).2 (.inr ⟨mem_unaccepted.2 (.inl (List.mem_singleton_self t)), rfl⟩)
      conflict_rejected := fun a ha x hx hax hs => by
        rcases List.mem_append.1 (hadded ▸ hx) with hx | hx
        · exact h.conflict_rejected a ha x hx hax hs
        · exact absurd (List.mem_singleton.1 hx ▸ hs) (hin a ha)
      dep_waiting := fun j e he hnr d hd => by
        rcases (hentry j e).1 he with he | ⟨rfl, rfl⟩
        · exact (h.dep_waiting j e he hnr d hd).imp_right fun hj => (hwait _ _).2 (.inl hj)
        · by_cases hs : status d = .accepted
          · exact .inl (hacc d hd hs)
          · exact .inr ((hwait _ _).2 (.inr ⟨mem_unaccepted.2 (.inr ⟨hd, hs⟩), rfl⟩))
      rejected_cleared := fun d hd => by
        have hd' : d ∉ e0.deps := fun hd' => by
          rcases hdeps d hd' with rfl | ⟨-, hdt⟩
          · exact hold d (.inr hd) rfl
          · exact h.drained d (.inr hd) hdt
        rw [addTx_pendingReject, Blocker.register_waiting, if_neg hd', h.rejected_cleared d hd] }

theorem Inv.acceptTx (h : Inv G c DA QA DR QR) {status : ι → Status} {t : ι}
    (hproc : t ∈ c.txs) (hfresh : t ∉ c.called) (hin : ∀ a ∈ c.called, ¬ Shares G a t)
    (hacc : ∀ d ∈ G.dependencies t, status d = .accepted → d ∈ DA) :
    Inv G (c.acceptTx G status t) DA
      (QA ++ if unaccepted status (G.dependencies t) [] = [] then [t] else []) DR QR := by
  set ds := unaccepted status (G.dependencies t) []
  set e0 : Entry ι := ⟨t, ds, false⟩
  set A := c.pendingAccept
  have hcalled : (c.acceptTx G status t).called = c.called ++ [t] := by simp [called]
  have hentry : ∀ i e, (c.acceptTx G status t).pendingAccept.entries[i]? = some e ↔
      A.entries[i]? = some e ∨ (i = A.entries.length ∧ e0 = e) := fun i e => by
    rw [acceptTx_pendingAccept, Blocker.register_entries, getElem?_concat_eq_some]
  have hwait : ∀ k i, i ∈ (c.acceptTx G status t).pendingAccept.waiting k ↔
      i ∈ A.waiting k ∨ (k ∈ ds ∧ i = A.entries.length) := fun k i => by
    rw [acceptTx_pendingAccept, Blocker.register_waiting]
    split <;> simp [*]
  have hFA : ∀ x, x ∈ (if ds = [] then [t] else []) ↔ x = t ∧ ds = [] := fun x => by
    split <;> simp [*]
  have hnotacc : ¬ (t ∈ DA ∨ t ∈ QA) := fun ht => hfresh (h.accepted_called t ht)
  -- with no dependency left to wait on, `t` has no reason to be rejectable
  have hnotrej : ds = [] → ¬ (t ∈ DR ∨ t ∈ QR) := fun hds ht => by
    rcases h.justified t ht with ⟨a, ha, -, hs⟩ | ⟨d, hd, hdr⟩
    · exact hin a (h.accepted_called a (.inl ha)) hs
    · have hs : status d = .accepted := by
        by_contra hs
        have hd' : d ∈ ds := mem_unaccepted.2 (.inr ⟨hd, hs⟩)
        rw [hds] at hd'; exact List.not_mem_nil d hd'
      exact h.apart d (.inl (hacc d hd hs)) hdr
  have hold : ∀ (i : Nat) (e : Entry ι), A.entries[i]? = some e → e.tx ≠ t := fun i e he het =>
    hfresh (het ▸ mem_map_tx.2 ⟨i, e, he, rfl⟩)
  have hlt : ∀ (i : Nat) (e : Entry ι), A.entries[i]? = some e → i ≠ A.entries.length :=
    fun i e he =>
    Nat.ne_of_lt (List.getElem?_eq_some_iff.1 he).1
  refine
    { h with
      spenders := h.spenders.of_eq rfl rfl
      nodupA := by
        rw [← List.append_assoc]
        split
        · exact nodup_append_of h.nodupA (List.nodup_singleton t) (by simpa using hnotacc)
        · simpa using h.nodupA
      apart := fun x hx hr => by
        rcases hx with hx | hx
        · exact h.apart x (.inl hx) hr
        · rcases List.mem_append.1 hx with hx | hx
          · exact h.apart x (.inr hx) hr
          · obtain ⟨rfl, hds⟩ := (hFA x).1 hx
            exact hnotrej hds hr
      queued := fun x hx => by
        rcases hx with hx | hx
        · rcases List.mem_append.1 hx with hx | hx
          · exact h.queued x (.inl hx)
          · exact ((hFA x).1 hx).1 ▸ hproc
        · exact h.queued x (.inr hx)
      called_nodup := by
        rw [hcalled]
        exact nodup_append_of h.called_nodup (List.nodup_singleton t) (by simpa using hfresh)
      called_added := fun x hx => by
        rcases List.mem_append.1 (hcalled ▸ hx) with hx | hx
        · exact h.called_added x hx
        · exact (h.added_iff x).2 (.inl (List.mem_singleton.1 hx ▸ hproc))
      accepted_called := fun x hx => by
        rw [hcalled, List.mem_append, List.mem_singleton]
        rcases hx with hx | hx
        · exact .inl (h.accepted_called x (.inl hx))
        · rcases List.mem_append.1 hx with hx | hx
          · exact .inl (h.accepted_called x (.inr hx))
          · exact .inr ((hFA x).1 hx).1
      called_apart := fun a ha b hb hab => by
        rw [hcalled, List.mem_append, List.mem_singleton] at ha hb
        rcases ha with ha | rfl <;> rcases hb with hb | rfl
        · exact h.called_apart a ha b hb hab
        · exact hin a ha
        · exact fun hs => hin b hb hs.symm
        · exact absurd rfl hab
      wfA := by rw [acceptTx_pendingAccept]; exact Blocker.register_wellFormed h.wfA
      acc_deps := fun i e he d hd => by
        rcases (hentry i e).1 he with he | ⟨-, rfl⟩
        · exact h.acc_deps i e he d hd
        · by_cases hs : status d = .accepted
          · exact .inr (hacc d hd hs)
          · exact .inl (mem_unaccepted.2 (.inr ⟨hd, hs⟩))
      acc_waiting := fun i e he hr k => by
        rw [hwait]
        rcases (hentry i e).1 he with he | ⟨rfl, rfl⟩
        · simpa [hlt i e he] using h.acc_waiting i e he hr k
        · simpa using fun hk => absurd (h.wfA.lt k _ hk) (Nat.lt_irrefl _)
      acc_fired := fun i e he => by
        rw [List.mem_append, hFA]
        rcases (hentry i e).1 he with he | ⟨-, rfl⟩
        · simpa [or_assoc, hold i e he] using h.acc_fired i e he
        · simp [e0, not_or.1 hnotacc]
      acc_nodup := fun i e he => by
        rcases (hentry i e).1 he with he | ⟨-, rfl⟩
        · exact h.acc_nodup i e he
        · exact unaccepted_nodup List.nodup_nil }

/-! ## The rounds of `Updateable` -/

theorem Inv.rejectedStep {t : ι} {FR : List ι} (h : Inv G c DA QA DR (t :: QR))
    (hs : RejectedStep G c c' t FR) : Inv G c' DA QA (DR ++ [t]) (QR ++ FR) := by
  set A := c.pendingAccept
  set R := c.pendingReject
  have ht : t ∈ c.txs := h.queued t (.inr (List.mem_cons_self _ _))
  have htR : t ∉ DR ∧ t ∉ QR := by
    simpa using (List.nodup_middle.1 h.nodupR).not_mem
  have htA : ¬ (t ∈ DA ∨ t ∈ QA) := fun hA => h.apart t hA (.inr (List.mem_cons_self _ _))
  have hmem' : ∀ x, x ∈ c'.txs ↔ x ≠ t ∧ x ∈ c.txs := fun x => by
    rw [hs.txs, h.spenders.txs_nodup.mem_erase_iff]
  have hR' : ∀ j e', c'.pendingReject.entries[j]? = some e' → ∃ e, R.entries[j]? = some e ∧
      e'.tx = e.tx ∧ (j ∈ R.waiting t → e'.rejected = true) ∧ (j ∉ R.waiting t → e' = e) :=
    fun j e' he' => by
      obtain ⟨e, he, rfl⟩ := Option.map_eq_some'.1 ((hs.rejEntry j).symm.trans he')
      refine ⟨e, he, ?_, fun hj => by simp [hj], fun hj => by simp [hj]⟩
      split <;> rfl
  have hA' : ∀ i e', c'.pendingAccept.entries[i]? = some e' → ∃ e, A.entries[i]? = some e ∧
      e'.tx = e.tx ∧ e'.deps = e.deps ∧ (i ∈ A.waiting t → e'.rejected = true) ∧
      (i ∉ A.waiting t → e' = e) := fun i e' he' => by
    obtain ⟨e, he, rfl⟩ := Option.map_eq_some'.1 ((hs.accEntry i).symm.trans he')
    refine ⟨e, he, ?_, ?_, fun hi => by simp [hi], fun hi => by simp [hi]⟩ <;> split <;> rfl
  -- what the rejectors waiting on `t` queue: dependents of `t`, still processing
  have hFR : ∀ y ∈ FR, t ∈ G.dependencies y ∧ y ∈ c'.txs ∧ ¬ (y ∈ DA ∨ y ∈ QA) ∧
      ¬ (y ∈ DR ∨ y ∈ t :: QR) := fun y hy => by
    obtain ⟨j, hj, e, he, hr, rfl⟩ := (hs.mem_FR y).1 hy
    have hnr : ¬ (e.tx ∈ DR ∨ e.tx ∈ t :: QR) := by
      rw [← h.rej_iff j e he, hr]; exact Bool.false_ne_true
    have hdep : t ∈ G.dependencies e.tx := by
      rcases h.rej_waiting t j e hj he with rfl | ⟨hd, -⟩
      · exact absurd (.inr (List.mem_cons_self _ _)) hnr
      · exact hd
    have hnA : ¬ (e.tx ∈ DA ∨ e.tx ∈ QA) := fun hA => htA (.inl (h.accepted_deps hA t hdep))
    have htx : e.tx ∈ c.txs := by
      rcases (h.added_iff e.tx).1 (mem_map_tx.2 ⟨j, e, he, rfl⟩) with hx | hx | hx
      · exact hx
      · exact absurd (.inl hx) hnA
      · exact absurd (.inl hx) hnr
    refine ⟨hdep, (hmem' _).2 ⟨fun het => hnr (.inr (het ▸ List.mem_cons_self _ _)), htx⟩,
      hnA, hnr⟩
  -- a rejector waiting on `t` was rejectable already or is queued now
  have hwt : ∀ j e, R.entries[j]? = some e → j ∈ R.waiting t →
      e.tx ∈ DR ∨ e.tx ∈ t :: QR ∨ e.tx ∈ FR := fun j e he hj => by
    cases hr : e.rejected
    · exact .inr (.inr ((hs.mem_FR _).2 ⟨j, hj, e, he, hr, rfl⟩))
    · exact ((h.rej_iff j e he).1 hr).elim .inl (.inr ∘ .inl)
  have hnFR : ∀ j e, R.entries[j]? = some e → j ∉ R.waiting t → e.tx ∉ FR := fun j e he hj hy => by
    obtain ⟨j', hj', e'', he'', -, hx⟩ := (hs.mem_FR _).1 hy
    exact hj (index_eq_of_tx_eq h.added_nodup he'' he hx ▸ hj')
  have hsplit : ∀ x, x ∈ DR ++ [t] ∨ x ∈ QR ++ FR ↔ (x ∈ DR ∨ x ∈ t :: QR) ∨ x ∈ FR :=
    fun x => by
      simp only [List.mem_append, List.mem_cons, List.not_mem_nil, false_or, or_assoc]
  refine
    { spenders := hs.spenders
      nodupA := h.nodupA
      nodupR := by
        rw [show DR ++ [t] ++ (QR ++ FR) = DR ++ t :: QR ++ FR by simp]
        exact nodup_append_of h.nodupR hs.nodup_FR fun y hy hy' =>
          (hFR y hy).2.2.2 (List.mem_append.1 hy')
      apart := fun x hA hR => ((hsplit x).1 hR).elim (h.apart x hA) fun hR => (hFR x hR).2.2.1 hA
      queued := fun x hx => by
        rcases hx with hx | hx
        · exact (hmem' x).2 ⟨fun hxt => htA (.inr (hxt ▸ hx)), h.queued x (.inl hx)⟩
        · rcases List.mem_append.1 hx with hx | hx
          · exact (hmem' x).2 ⟨fun hxt => htR.2 (hxt ▸ hx),
              h.queued x (.inr (List.mem_cons_of_mem _ hx))⟩
          · exact (hFR x hx).2.1
      drained := fun x hx hx' => by
        have hx' := (hmem' x).1 hx'
        simp only [List.mem_append, List.mem_singleton] at hx
        rcases hx with hx | hx | rfl
        · exact h.drained x (.inl hx) hx'.2
        · exact h.drained x (.inr hx) hx'.2
        · exact hx'.1 rfl
      added_iff := fun x => by
        rw [hs.added, h.added_iff, hmem', List.mem_append, List.mem_singleton]
        by_cases hx : x = t
        · subst hx; simp [ht]
        · simp [hx]
      added_nodup := hs.added ▸ h.added_nodup
      called_nodup := hs.called ▸ h.called_nodup
      called_added := fun x hx => hs.added ▸ h.called_added x (hs.called ▸ hx)
      accepted_called := fun x hx => hs.called ▸ h.accepted_called x hx
      called_apart := fun a ha b hb => h.called_apart a (hs.called ▸ ha) b (hs.called ▸ hb)
      wfA := hs.wfA
      wfR := hs.wfR
      rej_iff := fun j e' he' => by
        obtain ⟨e, he, hx, hrej, heq⟩ := hR' j e' he'
        rw [hsplit, hx]
        by_cases hj : j ∈ R.waiting t
        · simp only [hrej hj, true_iff]
          exact (hwt j e he hj).elim (.inl ∘ .inl) fun h' => h'.elim (.inl ∘ .inr) .inr
        · rw [heq hj, h.rej_iff j e he]
          simp only [hnFR j e he hj, or_false]
      rej_waiting := fun k j e' hj he' => by
        obtain ⟨e, he, hx, -⟩ := hR' j e' he'
        rw [hs.rejWaiting] at hj
        split at hj
        · simp at hj
        · rw [hx]; exact h.rej_waiting k j e hj he
      rej_own := fun j e' he' hr htx => by
        obtain ⟨e, he, hx, hrej, heq⟩ := hR' j e' he'
        have hj : j ∉ R.waiting t := fun hj => by simp [hrej hj] at hr
        obtain rfl := heq hj
        have htx' := (hmem' _).1 htx
        rw [hs.rejWaiting, if_neg htx'.1]
        exact h.rej_own j e' he hr htx'.2
      acc_deps := fun i e' he' d hd => by
        obtain ⟨e, he, hx, hdeps, -⟩ := hA' i e' he'
        rw [hdeps]; rw [hx] at hd; exact h.acc_deps i e he d hd
      acc_waiting := fun i e' he' hr k => by
        obtain ⟨e, he, hx, hdeps, hrej, heq⟩ := hA' i e' he'
        have hi : i ∉ A.waiting t := fun hi => by simp [hrej hi] at hr
        obtain rfl := heq hi
        rw [hs.accWaiting]
        split
        · subst_vars; simpa using (h.acc_waiting i e' he hr _).not.1 hi
        · exact h.acc_waiting i e' he hr k
      acc_fired := fun i e' he' => by
        obtain ⟨e, he, hx, hdeps, hrej, heq⟩ := hA' i e' he'
        by_cases hi : i ∈ A.waiting t
        · simp only [hrej hi, hx, Bool.true_eq_false, false_and, iff_false]
          intro hA
          have hf := (h.acc_fired i e he).1 hA
          simpa [hf.2] using (h.acc_waiting i e he hf.1 t).1 hi
        · obtain rfl := heq hi; exact h.acc_fired i e' he
      acc_nodup := fun i e' he' => by
        obtain ⟨e, he, -, hdeps, -⟩ := hA' i e' he'
        rw [hdeps]; exact h.acc_nodup i e he
      justified := fun x hx => by
        rcases (hsplit x).1 hx with hx | hx
        · exact (h.justified x hx).imp_right fun ⟨d, hd, hdr⟩ => ⟨d, hd, (hsplit d).2 (.inl hdr)⟩
        · exact .inr ⟨t, (hFR x hx).1, by simp⟩
      conflict_rejected := fun a ha x hx hax hsh =>
        (hsplit x).2 (.inl (h.conflict_rejected a ha x (hs.added ▸ hx) hax hsh))
      dep_waiting := fun j e' he' hnr d hd => by
        obtain ⟨e, he, hx, -⟩ := hR' j e' he'
        rw [hsplit, hx, not_or] at hnr
        rw [hx] at hd
        refine (h.dep_waiting j e he hnr.1 d hd).imp_right fun hj => ?_
        rw [hs.rejWaiting, if_neg]
        · exact hj
        · rintro rfl
          exact (hwt j e he hj).elim (hnr.1 ∘ .inl) fun h' => h'.elim (hnr.1 ∘ .inr) hnr.2
      rejected_cleared := fun d hd => by
        rw [hs.rejWaiting]
        split
        · rfl
        · rcases List.mem_append.1 hd with hd | hd
          · exact h.rejected_cleared d hd
          · exact absurd (List.mem_singleton.1 hd) ‹_› }

theorem Inv.acceptedStep {t : ι} {K FA FR : List ι} (h : Inv G c DA (t :: QA) DR QR)
    (hs : AcceptedStep G c c' t K FA FR) : Inv G c' (DA ++ [t]) (QA ++ FA) DR (QR ++ FR) := by
  set A := c.pendingAccept
  set R := c.pendingReject
  have ht : t ∈ c.txs := h.queued t (.inl (List.mem_cons_self _ _))
  have htA : t ∉ DA ∧ t ∉ QA := by
    simpa using (List.nodup_middle.1 h.nodupA).not_mem
  have htR : ¬ (t ∈ DR ∨ t ∈ QR) := h.apart t (.inr (List.mem_cons_self _ _))
  have htc : t ∈ c.called := h.accepted_called t (.inr (List.mem_cons_self _ _))
  have hmem' : ∀ x, x ∈ c'.txs ↔ x ≠ t ∧ x ∈ c.txs := fun x => by
    rw [hs.txs, h.spenders.txs_nodup.mem_erase_iff]
  have hK : ∀ k ∈ K, k ≠ t ∧ k ∈ c.txs ∧ Shares G t k := fun k hk => by
    obtain ⟨hk, hs'⟩ := (hs.mem_K k).1 hk
    exact ⟨((hmem' k).1 hk).1, ((hmem' k).1 hk).2, hs'⟩
  -- a conflict of `t` is rejectable already or queued now
  have hKrej : ∀ k ∈ K, k ∈ DR ∨ k ∈ QR ∨ k ∈ FR := fun k hk => by
    rcases h.own_waiting (hK k hk).2.1 with hk' | hk' | ⟨j, e, he, hr, rfl, hj⟩
    · exact .inl hk'
    · exact .inr (.inl hk')
    · exact .inr (.inr ((hs.mem_FR _).2 ⟨j, e, he, hr, ⟨e.tx, hk, hj⟩, rfl⟩))
  have hFAidx : ∀ i e, A.entries[i]? = some e → e.tx ∈ FA →
      i ∈ A.waiting t ∧ e.rejected = false ∧ e.deps.erase t = [] := fun i e he hx => by
    obtain ⟨i', hi', e'', he'', hr, hd, hx⟩ := (hs.mem_FA _).1 hx
    obtain rfl := index_eq_of_tx_eq h.called_nodup he'' he hx
    obtain rfl := Option.some.inj (he''.symm.trans he)
    exact ⟨hi', hr, hd⟩
  have hFRidx : ∀ j e, R.entries[j]? = some e → e.tx ∈ FR →
      e.rejected = false ∧ ∃ k ∈ K, j ∈ R.waiting k := fun j e he hx => by
    obtain ⟨j', e'', he'', hr, hk, hx⟩ := (hs.mem_FR _).1 hx
    obtain rfl := index_eq_of_tx_eq h.added_nodup he'' he hx
    obtain rfl := Option.some.inj (he''.symm.trans he)
    exact ⟨hr, hk⟩
  have hFAc : ∀ x ∈ FA, x ∈ c.called := fun x hx => by
    obtain ⟨i, -, e, he, -, -, rfl⟩ := (hs.mem_FA x).1 hx
    exact mem_map_tx.2 ⟨i, e, he, rfl⟩
  -- what the acceptors waiting on `t` queue: processing txs whose other dependencies are
  -- all accepted
  have hFA : ∀ x ∈ FA, x ∈ c'.txs ∧ ¬ (x ∈ DA ∨ x ∈ t :: QA) ∧ ¬ (x ∈ DR ∨ x ∈ QR) ∧
      ∀ d ∈ G.dependencies x, d ∈ DA ∨ d = t := fun x hx => by
    obtain ⟨i, hi, e, he, hr, hdeps, rfl⟩ := (hs.mem_FA x).1 hx
    have htin : t ∈ e.deps := (h.acc_waiting i e he hr t).1 hi
    have hnA : ¬ (e.tx ∈ DA ∨ e.tx ∈ t :: QA) := fun hA => by
      simp [((h.acc_fired i e he).1 hA).2] at htin
    have hdx : ∀ d ∈ G.dependencies e.tx, d ∈ DA ∨ d = t := fun d hd => by
      refine (h.acc_deps i e he d hd).elim (fun hd' => .inr ?_) .inl
      by_contra hdt
      simpa [hdeps] using (List.mem_erase_of_ne hdt).2 hd'
    have hcall : e.tx ∈ c.called := mem_map_tx.2 ⟨i, e, he, rfl⟩
    have hnR : ¬ (e.tx ∈ DR ∨ e.tx ∈ QR) := fun hR => by
      rcases h.justified e.tx hR with ⟨a, ha, hax, hsh⟩ | ⟨d, hd, hdr⟩
      · exact h.called_apart a (h.accepted_called a (.inl ha)) e.tx hcall hax hsh
      · rcases hdx d hd with hd | rfl
        · exact h.apart d (.inl hd) hdr
        · exact htR hdr
    refine ⟨(hmem' _).2 ⟨fun het => hnA (.inr (het ▸ List.mem_cons_self _ _)), ?_⟩, hnA, hnR, hdx⟩
    rcases (h.added_iff e.tx).1 (h.called_added _ hcall) with hx | hx | hx
    · exact hx
    · exact absurd (.inl hx) hnA
    · exact absurd (.inl hx) hnR
  -- what the rejectors of the conflicts queue: processing txs, each with a reason
  have hFR : ∀ y ∈ FR, y ∈ c'.txs ∧ ¬ (y ∈ DA ∨ y ∈ t :: QA) ∧ ¬ (y ∈ DR ∨ y ∈ QR) ∧ y ∉ FA ∧
      ((∃ a ∈ DA ++ [t], a ≠ y ∧ Shares G a y) ∨
        ∃ d ∈ G.dependencies y, d ∈ DR ∨ d ∈ QR ∨ d ∈ FR) := fun y hy => by
    obtain ⟨j, e, he, hr, ⟨k, hk, hj⟩, rfl⟩ := (hs.mem_FR y).1 hy
    have hnR : ¬ (e.tx ∈ DR ∨ e.tx ∈ QR) := by
      rw [← h.rej_iff j e he, hr]; exact Bool.false_ne_true
    obtain ⟨hkt, hkc, hsk⟩ := hK k hk
    have hnA : ¬ (e.tx ∈ DA ∨ e.tx ∈ t :: QA) := fun hA => by
      rcases h.rej_waiting k j e hj he with rfl | ⟨hd, hkA⟩
      · rcases hA with hA | hA
        · exact h.drained _ (.inl hA) hkc
        · exact h.called_apart t htc _ (h.accepted_called _ (.inr hA)) hkt.symm hsk
      · exact hkA (h.accepted_deps hA k hd)
    have hyc : e.tx ∈ c.txs := by
      rcases (h.added_iff e.tx).1 (mem_map_tx.2 ⟨j, e, he, rfl⟩) with hx | hx | hx
      · exact hx
      · exact absurd (.inl hx) hnA
      · exact absurd (.inl hx) hnR
    refine ⟨(hmem' _).2 ⟨fun het => hnA (.inr (het ▸ List.mem_cons_self _ _)), hyc⟩, hnA, hnR,
      ?_, ?_⟩
    · intro hFA'
      rcases h.rej_waiting k j e hj he with rfl | ⟨hd, hkA⟩
      · exact h.called_apart t htc _ (hFAc _ hFA') hkt.symm hsk
      · exact ((hFA _ hFA').2.2.2 k hd).elim hkA hkt
    · rcases h.rej_waiting k j e hj he with rfl | ⟨hd, -⟩
      · exact .inl ⟨t, by simp, hkt.symm, hsk⟩
      · exact .inr ⟨k, hd, hKrej k hk⟩
  have hsplitA : ∀ x, x ∈ DA ++ [t] ∨ x ∈ QA ++ FA ↔ (x ∈ DA ∨ x ∈ t :: QA) ∨ x ∈ FA :=
    fun x => by
      simp only [List.mem_append, List.mem_cons, List.not_mem_nil, false_or, or_assoc]
  have hsplitR : ∀ x, x ∈ DR ∨ x ∈ QR ++ FR ↔ (x ∈ DR ∨ x ∈ QR) ∨ x ∈ FR :=
    fun x => by simp only [List.mem_append, or_assoc]
  have hA' : ∀ i e', c'.pendingAccept.entries[i]? = some e' → ∃ e : Entry ι, A.entries[i]? = some e ∧
      e' = if i ∈ A.waiting t then { e with deps := e.deps.erase t } else e := fun i e' he' => by
    obtain ⟨e, he, h'⟩ := Option.map_eq_some'.1 ((hs.accEntry i).symm.trans he')
    exact ⟨e, he, h'.symm⟩
  have hR' : ∀ j e', c'.pendingReject.entries[j]? = some e' → ∃ e : Entry ι, R.entries[j]? = some e ∧
      e' = { e with rejected := e.rejected || decide (∃ k ∈ K, j ∈ R.waiting k) } :=
    fun j e' he' => by
      obtain ⟨e, he, h'⟩ := Option.map_eq_some'.1 ((hs.rejEntry j).symm.trans he')
      exact ⟨e, he, h'.symm⟩
  refine
    { spenders := hs.spenders
      nodupA := by
        rw [show DA ++ [t] ++ (QA ++ FA) = DA ++ t :: QA ++ FA by simp]
        exact nodup_append_of h.nodupA hs.nodup_FA fun x hx hx' =>
          (hFA x hx).2.1 (List.mem_append.1 hx')
      nodupR := by
        rw [← List.append_assoc]
        exact nodup_append_of h.nodupR hs.nodup_FR fun y hy hy' =>
          (hFR y hy).2.2.1 (List.mem_append.1 hy')
      apart := fun x hA hR => by
        rcases (hsplitA x).1 hA with hA | hA <;> rcases (hsplitR x).1 hR with hR | hR
        · exact h.apart x hA hR
        · exact (hFR x hR).2.1 hA
        · exact (hFA x hA).2.2.1 hR
        · exact (hFR x hR).2.2.2.1 hA
      queued := fun x hx => by
        rcases hx with hx | hx <;> rcases List.mem_append.1 hx with hx | hx
        · exact (hmem' x).2 ⟨fun hxt => htA.2 (hxt ▸ hx),
            h.queued x (.inl (List.mem_cons_of_mem _ hx))⟩
        · exact (hFA x hx).1
        · exact (hmem' x).2 ⟨fun hxt => htR (.inr (hxt ▸ hx)), h.queued x (.inr hx)⟩
        · exact (hFR x hx).1
      drained := fun x hx hx' => by
        have hx' := (hmem' x).1 hx'
        simp only [List.mem_append, List.mem_singleton] at hx
        rcases hx with (hx | rfl) | hx
        · exact h.drained x (.inl hx) hx'.2
        · exact hx'.1 rfl
        · exact h.drained x (.inr hx) hx'.2
      added_iff := fun x => by
        rw [hs.added, h.added_iff, hmem', List.mem_append, List.mem_singleton]
        by_cases hx : x = t
        · subst hx; simp [ht]
        · simp [hx]
      added_nodup := hs.added ▸ h.added_nodup
      called_nodup := hs.called ▸ h.called_nodup
      called_added := fun x hx => hs.added ▸ h.called_added x (hs.called ▸ hx)
      accepted_called := fun x hx => hs.called ▸ ((hsplitA x).1 hx).elim
        (h.accepted_called x) (hFAc x)
      called_apart := fun a ha b hb => h.called_apart a (hs.called ▸ ha) b (hs.called ▸ hb)
      wfA := hs.wfA
      wfR := hs.wfR
      rej_iff := fun j e' he' => by
        obtain ⟨e, he, rfl⟩ := hR' j e' he'
        rw [hsplitR]
        by_cases hw : ∃ k ∈ K, j ∈ R.waiting k
        · simp only [hw, decide_True, Bool.or_true, true_iff]
          cases hr : e.rejected
          · exact .inr ((hs.mem_FR _).2 ⟨j, e, he, hr, hw, rfl⟩)
          · exact .inl ((h.rej_iff j e he).1 hr)
        · simp only [hw, decide_False, Bool.or_false, h.rej_iff j e he]
          exact (or_iff_left fun hx => hw (hFRidx j e he hx).2).symm
      rej_waiting := fun k j e' hj he' => by
        obtain ⟨e, he, rfl⟩ := hR' j e' he'
        rw [hs.rejWaiting] at hj
        split at hj
        · simp at hj
        · rename_i hk
          rcases h.rej_waiting k j e hj he with hk' | ⟨hd, hkA⟩
          · exact .inl hk'
          · refine .inr ⟨hd, ?_⟩
            simp only [List.mem_append, List.mem_singleton, not_or]
            exact ⟨hkA, fun hkt => hk (.inl hkt)⟩
      rej_own := fun j e' he' hr htx => by
        obtain ⟨e, he, rfl⟩ := hR' j e' he'
        simp only [Bool.or_eq_false_iff, decide_eq_false_iff_not] at hr
        have htx' := (hmem' _).1 htx
        rw [hs.rejWaiting, if_neg]
        · exact h.rej_own j e he hr.1 htx'.2
        · rintro (hxt | hxK)
          · exact htx'.1 hxt
          · exact hr.2 ⟨e.tx, hxK, h.rej_own j e he hr.1 htx'.2⟩
      acc_deps := fun i e' he' d hd => by
        obtain ⟨e, he, rfl⟩ := hA' i e' he'
        rw [List.mem_append, List.mem_singleton]
        by_cases hi : i ∈ A.waiting t
        · simp only [hi, if_true] at hd ⊢
          by_cases hdt : d = t
          · exact .inr (.inr hdt)
          · exact (h.acc_deps i e he d hd).imp (List.mem_erase_of_ne hdt).2 .inl
        · simp only [hi, if_false] at hd ⊢
          exact (h.acc_deps i e he d hd).imp_right .inl
      acc_waiting := fun i e' he' hr k => by
        obtain ⟨e, he, rfl⟩ := hA' i e' he'
        have hr' : e.rejected = false := by split at hr <;> exact hr
        rw [hs.accWaiting]
        by_cases hi : i ∈ A.waiting t
        · simp only [hi, if_true]
          split
          · subst_vars; simpa using (h.acc_nodup i e he).not_mem_erase
          · rename_i hkt
            rw [List.mem_erase_of_ne hkt]; exact h.acc_waiting i e he hr' k
        · simp only [hi, if_false]
          split
          · subst_vars; simpa using (h.acc_waiting i e he hr' _).not.1 hi
          · exact h.acc_waiting i e he hr' k
      acc_fired := fun i e' he' => by
        obtain ⟨e, he, rfl⟩ := hA' i e' he'
        rw [apply_ite Entry.tx, ite_self, hsplitA]
        by_cases hi : i ∈ A.waiting t
        · simp only [hi, if_true]
          cases hr : e.rejected
          · have htin : t ∈ e.deps := (h.acc_waiting i e he hr t).1 hi
            have hold : ¬ (e.tx ∈ DA ∨ e.tx ∈ t :: QA) := fun hA => by
              simp [((h.acc_fired i e he).1 hA).2] at htin
            simp only [hold, false_or, true_and]
            exact ⟨fun hx => (hFAidx i e he hx).2.2,
              fun hd => (hs.mem_FA _).2 ⟨i, hi, e, he, hr, hd, rfl⟩⟩
          · simp only [Bool.true_eq_false, false_and, iff_false]
            rintro (hA | hx)
            · simpa [hr] using (h.acc_fired i e he).1 hA
            · simpa [hr] using (hFAidx i e he hx).2.1
        · simp only [hi, if_false]
          rw [or_iff_left fun hx => hi (hFAidx i e he hx).1]
          exact h.acc_fired i e he
      acc_nodup := fun i e' he' => by
        obtain ⟨e, he, rfl⟩ := hA' i e' he'
        split
        · exact (h.acc_nodup i e he).erase t
        · exact h.acc_nodup i e he
      justified := fun x hx => by
        rcases (hsplitR x).1 hx with hx | hx
        · rcases h.justified x hx with ⟨a, ha, hax, hsh⟩ | ⟨d, hd, hdr⟩
          · exact .inl ⟨a, List.mem_append_left _ ha, hax, hsh⟩
          · exact .inr ⟨d, hd, (hsplitR d).2 (.inl hdr)⟩
        · rcases (hFR x hx).2.2.2.2 with hj | ⟨d, hd, hdr⟩
          · exact .inl hj
          · exact .inr ⟨d, hd, (hsplitR d).2 (hdr.elim (.inl ∘ .inl) fun h' =>
              h'.elim (.inl ∘ .inr) .inr)⟩
      conflict_rejected := fun a ha x hx hax hsh => by
        rw [hsplitR]
        rcases List.mem_append.1 ha with ha | ha
        · exact .inl (h.conflict_rejected a ha x (hs.added ▸ hx) hax hsh)
        · obtain rfl := List.mem_singleton.1 ha
          rcases (h.added_iff x).1 (hs.added ▸ hx) with hxc | hxA | hxR
          · rcases hKrej x ((hs.mem_K x).2 ⟨(hmem' x).2 ⟨hax.symm, hxc⟩, hsh⟩) with h' | h' | h'
            · exact .inl (.inl h')
            · exact .inl (.inr h')
            · exact .inr h'
          · exact absurd hsh (h.called_apart a htc x (h.accepted_called x (.inl hxA)) hax)
          · exact .inl (.inl hxR)
      dep_waiting := fun j e' he' hnr d hd => by
        obtain ⟨e, he, rfl⟩ := hR' j e' he'
        rw [hsplitR, not_or] at hnr
        rw [List.mem_append, List.mem_singleton]
        refine (h.dep_waiting j e he hnr.1 d hd).elim (.inl ∘ .inl) fun hj => ?_
        rw [hs.rejWaiting]
        split
        · rename_i hdK
          rcases hdK with rfl | hdK
          · exact .inl (.inr rfl)
          · have hr : e.rejected = false := by
              cases hr : e.rejected
              · rfl
              · exact absurd ((h.rej_iff j e he).1 hr) hnr.1
            exact absurd ((hs.mem_FR _).2 ⟨j, e, he, hr, ⟨d, hdK, hj⟩, rfl⟩) hnr.2
        · exact .inr hj
      rejected_cleared := fun d hd => by
        rw [hs.rejWaiting]
        split
        · rfl
        · exact h.rejected_cleared d hd }

/-! ## The loops of `Updateable` -/

theorem Inv.foldl_drainAccepted (o : MapOrder ι) (L : List ι) {c : Conflicts ι} {DA DR : List ι}
    (h : Inv G c DA (L ++ c.acceptable) DR c.rejectable) :
    Inv G (L.foldl (drainAccepted G o) c) (DA ++ L) (L.foldl (drainAccepted G o) c).acceptable DR
      (L.foldl (drainAccepted G o) c).rejectable := by
  induction L generalizing c DA with
  | nil => simpa using h
  | cons t L ih =>
    obtain ⟨K, FA, FR, hs⟩ :=
      drainAccepted_step o t h.spenders h.wfA h.wfR h.added_nodup h.called_nodup
    have h' := h.acceptedStep hs
    rw [List.append_eq, List.append_assoc, ← hs.acceptable, ← hs.rejectable] at h'
    simpa using ih h'

theorem Inv.foldl_drainRejected (L : List ι) {c : Conflicts ι} {DR : List ι}
    (h : Inv G c DA c.acceptable DR (L ++ c.rejectable)) :
    Inv G (L.foldl (drainRejected G) c) DA (L.foldl (drainRejected G) c).acceptable (DR ++ L)
      (L.foldl (drainRejected G) c).rejectable := by
  induction L generalizing c DR with
  | nil => simpa using h
  | cons t L ih =>
    obtain ⟨FR, hs⟩ := drainRejected_step t h.spenders h.wfA h.wfR h.added_nodup
    have h' := h.rejectedStep hs
    rw [List.append_eq, List.append_assoc, ← hs.rejectable, ← hs.acceptable] at h'
    simpa using ih h'

theorem Inv.updateable_queues (o : MapOrder ι) (h : Inv G c DA c.acceptable DR c.rejectable) :
    let c1 := c.acceptable.foldl (drainAccepted G o) { c with acceptable := [] }
    Inv G { c with acceptable := [] } DA (c.acceptable ++ []) DR c.rejectable ∧
      Inv G { c1 with rejectable := [] } (DA ++ c.acceptable) c1.acceptable DR
        (c1.rejectable ++ []) := by
  have h0 : Inv G { c with acceptable := [] } DA (c.acceptable ++ []) DR c.rejectable := by
    simpa using h.setQueues [] c.rejectable
  exact ⟨h0, by simpa using (h0.foldl_drainAccepted o c.acceptable).setQueues _ []⟩

theorem Inv.updateable (o : MapOrder ι) (h : Inv G c DA c.acceptable DR c.rejectable) :
    Inv G (c.updateable G o).1 (DA ++ (c.updateable G o).2.1) (c.updateable G o).1.acceptable
      (DR ++ (c.updateable G o).2.2) (c.updateable G o).1.rejectable :=
  (h.updateable_queues o).2.foldl_drainRejected _

end Conflicts

end Gecko
