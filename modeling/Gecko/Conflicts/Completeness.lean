import Gecko.Conflicts.Decisions

/-! # No acceptor is lost

Beside `Inv`, the acceptor blocker keeps three facts between any two rounds of `Updateable`'s
loops. From them: once `Updateable` has nothing left to return, a tx is accepted exactly when
`Accept` was called on it and all its dependencies are accepted.
-/

namespace Gecko

namespace Conflicts

variable {ι : Type} {G : TxIndex ι} {c c' : Conflicts ι} {DA QA DR QR : List ι}

/-- What the acceptor blocker `A` keeps, given the txs drained as acceptable (`DA`) and as
rejectable (`DR`) and those queued to be rejectable (`QR`): no acceptor waits on an accepted
tx, an acceptor waits only on dependencies of its tx, and one that was abandoned has a
rejectable dependency. -/
structure AccInv (G : TxIndex ι) (A : Blocker ι) (DA DR QR : List ι) : Prop where
  accepted_cleared : ∀ d ∈ DA, A.waiting d = []
  deps_sub : ∀ (i : Nat) (e : Entry ι), A.entries[i]? = some e →
    ∀ k ∈ e.deps, k ∈ G.dependencies e.tx
  abandoned : ∀ (i : Nat) (e : Entry ι), A.entries[i]? = some e → e.rejected = true →
    ∃ d ∈ G.dependencies e.tx, d ∈ DR ∨ d ∈ QR

theorem accInv_new : AccInv G (new : Conflicts ι).pendingAccept [] [] [] where
  accepted_cleared := by simp
  deps_sub := by simp [new]
  abandoned := by simp [new]

variable [DecidableEq ι]

/-! ## `Accept` -/

theorem AccInv.acceptTx (h : AccInv G c.pendingAccept DA DR QR) {status : ι → Status} {t : ι}
    (hacc : ∀ d ∈ DA, status d = .accepted) :
    AccInv G (c.acceptTx G status t).pendingAccept DA DR QR := by
  set ds := unaccepted status (G.dependencies t) []
  have hentry : ∀ (i : Nat) (e : Entry ι), (c.acceptTx G status t).pendingAccept.entries[i]? =
      some e → c.pendingAccept.entries[i]? = some e ∨ e = ⟨t, ds, false⟩ := fun i e he => by
    rw [acceptTx_pendingAccept, Blocker.register_entries, getElem?_concat_eq_some] at he
    exact he.imp_right fun h => h.2.symm
  refine ⟨fun d hd => ?_, fun i e he k hk => ?_, fun i e he hr => ?_⟩
  · have hd' : d ∉ ds := by simp [ds, mem_unaccepted, hacc d hd]
    rw [acceptTx_pendingAccept, Blocker.register_waiting, if_neg hd', h.accepted_cleared d hd]
  · rcases hentry i e he with he | rfl
    · exact h.deps_sub i e he k hk
    · exact ((mem_unaccepted.1 hk).resolve_left (List.not_mem_nil k)).1
  · rcases hentry i e he with he | rfl
    · exact h.abandoned i e he hr
    · cases hr

/-! ## The rounds of `Updateable` -/

theorem AccInv.acceptedStep {t : ι} {K FA FR : List ι} (h : AccInv G c.pendingAccept DA DR QR)
    (hs : AcceptedStep G c c' t K FA FR) :
    AccInv G c'.pendingAccept (DA ++ [t]) DR (QR ++ FR) := by
  -- `Fulfill(t)` only drops `t` from the acceptors waiting on it
  have hentry : ∀ (i : Nat) (e : Entry ι), c'.pendingAccept.entries[i]? = some e → ∃ e₀,
      c.pendingAccept.entries[i]? = some e₀ ∧ e.tx = e₀.tx ∧ e.deps ⊆ e₀.deps ∧
        e.rejected = e₀.rejected := fun i e he => by
    rw [hs.accEntry] at he
    obtain ⟨e₀, he₀, rfl⟩ := Option.map_eq_some'.1 he
    refine ⟨e₀, he₀, ?_⟩
    split
    · exact ⟨rfl, List.erase_subset _ _, rfl⟩
    · exact ⟨rfl, List.Subset.refl _, rfl⟩
  refine ⟨fun d hd => ?_, fun i e he k hk => ?_, fun i e he hr => ?_⟩
  · rw [hs.accWaiting]
    split_ifs with hdt
    · rfl
    · exact h.accepted_cleared d (by simpa [hdt] using hd)
  · obtain ⟨e₀, he₀, htx, hsub, -⟩ := hentry i e he
    exact htx ▸ h.deps_sub i e₀ he₀ k (hsub hk)
  · obtain ⟨e₀, he₀, htx, -, hr₀⟩ := hentry i e he
    obtain ⟨d, hd, hdr⟩ := h.abandoned i e₀ he₀ (hr₀ ▸ hr)
    exact ⟨d, htx ▸ hd, hdr.imp_right (List.mem_append_left _)⟩

theorem AccInv.rejectedStep {t : ι} {FR : List ι} (h : AccInv G c.pendingAccept DA DR (t :: QR))
    (hi : Inv G c DA QA DR (t :: QR)) (hs : RejectedStep G c c' t FR) :
    AccInv G c'.pendingAccept DA (DR ++ [t]) (QR ++ FR) := by
  have hmove : ∀ d, d ∈ DR ∨ d ∈ t :: QR → d ∈ DR ++ [t] ∨ d ∈ QR ++ FR := by
    rintro d (hd | hd)
    · exact .inl (List.mem_append_left _ hd)
    · rcases List.mem_cons.1 hd with rfl | hd
      · exact .inl (List.mem_append_right _ (List.mem_singleton_self _))
      · exact .inr (List.mem_append_left _ hd)
  have hentry : ∀ (i : Nat) (e : Entry ι), c'.pendingAccept.entries[i]? = some e → ∃ e₀,
      c.pendingAccept.entries[i]? = some e₀ ∧ e.tx = e₀.tx ∧ e.deps = e₀.deps ∧
        (e.rejected = true → e₀.rejected = true ∨ i ∈ c.pendingAccept.waiting t) :=
    fun i e he => by
    rw [hs.accEntry] at he
    obtain ⟨e₀, he₀, rfl⟩ := Option.map_eq_some'.1 he
    refine ⟨e₀, he₀, ?_⟩
    split
    · exact ⟨rfl, rfl, fun _ => .inr ‹_›⟩
    · exact ⟨rfl, rfl, .inl⟩
  refine ⟨fun d hd => ?_, fun i e he k hk => ?_, fun i e he hr => ?_⟩
  · rw [hs.accWaiting]
    split
    · rfl
    · exact h.accepted_cleared d hd
  · obtain ⟨e₀, he₀, htx, hdeps, -⟩ := hentry i e he
    exact htx ▸ h.deps_sub i e₀ he₀ k (hdeps ▸ hk)
  · obtain ⟨e₀, he₀, htx, -, hr'⟩ := hentry i e he
    rw [htx]
    cases hr₀ : e₀.rejected
    · -- newly abandoned: it was waiting on `t`, so `t` is one of its dependencies
      have ht : t ∈ e₀.deps :=
        (hi.acc_waiting i e₀ he₀ hr₀ t).1 ((hr' hr).resolve_left (by simp [hr₀]))
      exact ⟨t, h.deps_sub i e₀ he₀ t ht, .inl (List.mem_append_right _ (List.mem_singleton_self t))⟩
    · obtain ⟨d, hd, hdr⟩ := h.abandoned i e₀ he₀ hr₀
      exact ⟨d, hd, hmove d hdr⟩

/-! ## The loops of `Updateable` -/

theorem AccInv.foldl_drainAccepted (o : MapOrder ι) (L : List ι) {c : Conflicts ι}
    {DA DR : List ι} (h : Inv G c DA (L ++ c.acceptable) DR c.rejectable)
    (ha : AccInv G c.pendingAccept DA DR c.rejectable) :
    AccInv G (L.foldl (drainAccepted G o) c).pendingAccept (DA ++ L) DR
      (L.foldl (drainAccepted G o) c).rejectable := by
  induction L generalizing c DA with
  | nil => simpa using ha
  | cons t L ih =>
    obtain ⟨K, FA, FR, hs⟩ :=
      drainAccepted_step o t h.spenders h.wfA h.wfR h.added_nodup h.called_nodup
    have h' := h.acceptedStep hs
    have ha' := ha.acceptedStep hs
    rw [List.append_eq, List.append_assoc, ← hs.acceptable, ← hs.rejectable] at h'
    rw [← hs.rejectable] at ha'
    simpa using ih h' ha'

theorem AccInv.foldl_drainRejected (L : List ι) {c : Conflicts ι} {DR : List ι}
    (h : Inv G c DA c.acceptable DR (L ++ c.rejectable))
    (ha : AccInv G c.pendingAccept DA DR (L ++ c.rejectable)) :
    AccInv G (L.foldl (drainRejected G) c).pendingAccept DA (DR ++ L)
      (L.foldl (drainRejected G) c).rejectable := by
  induction L generalizing c DR with
  | nil => simpa using ha
  | cons t L ih =>
    obtain ⟨FR, hs⟩ := drainRejected_step t h.spenders h.wfA h.wfR h.added_nodup
    have h' := h.rejectedStep hs
    have ha' := ha.rejectedStep h hs
    rw [List.append_eq, List.append_assoc, ← hs.rejectable, ← hs.acceptable] at h'
    rw [List.append_eq, List.append_assoc, ← hs.rejectable] at ha'
    simpa using ih h' ha'

theorem AccInv.updateable (o : MapOrder ι) (h : Inv G c DA c.acceptable DR c.rejectable)
    (ha : AccInv G c.pendingAccept DA DR c.rejectable) :
    AccInv G (c.updateable G o).1.pendingAccept (DA ++ (c.updateable G o).2.1)
      (DR ++ (c.updateable G o).2.2) (c.updateable G o).1.rejectable := by
  obtain ⟨h0, h1⟩ := h.updateable_queues o
  exact AccInv.foldl_drainRejected _ h1 (by simpa using AccInv.foldl_drainAccepted o _ h0 ha)

end Conflicts

namespace Session

open Conflicts

variable {ι : Type} [DecidableEq ι] {G : TxIndex ι} {s : Session ι}

theorem Good.accepted_status (h : Good G s) {d : ι} (hd : d ∈ s.acc) :
    s.status d = .accepted := by
  rw [h.status, if_neg fun hr => h.inv.apart d (.inl hd) (.inl hr), if_pos hd]

theorem Reach.accInv (hs : Reach G s) : AccInv G s.c.pendingAccept s.acc s.rej s.c.rejectable := by
  induction hs with
  | refl => exact accInv_new
  | tail hr hst ih =>
    cases hst with
    | add => simpa using ih
    | accept => simpa using ih.acceptTx fun d hd => (Reach.good hr).accepted_status hd
    | updateable o => exact ih.updateable o (Reach.good hr).inv

/-- Once `Updateable` has nothing left to return, the accepted txs are exactly those `Accept`
was called on whose dependencies are all accepted: no acceptor is lost, and none of them was
rejected. -/
theorem acceptance_complete (hs : Reach G s) (o : MapOrder ι)
    (ho : (s.c.updateable G o).2 = ([], [])) (t : ι) :
    t ∈ s.acc ↔ t ∈ s.c.called ∧ ∀ d ∈ G.dependencies t, d ∈ s.acc := by
  obtain ⟨hq, hr⟩ := (updateable_snd_eq_nil o).1 ho
  have h := hs.good.inv
  have ha := hs.accInv
  rw [hq] at h
  rw [hr] at h ha
  refine ⟨fun ht => ⟨h.accepted_called t (.inl ht), h.accepted_deps (.inl ht)⟩, ?_⟩
  rintro ⟨hc, hdeps⟩
  obtain ⟨i, e, he, rfl⟩ := mem_map_tx.1 hc
  cases hrej : e.rejected
  · cases hd : e.deps with
    | nil => simpa using (h.acc_fired i e he).2 ⟨hrej, hd⟩
    | cons k ks =>
      -- the acceptor still waits on `k`, an accepted dependency
      have hk : k ∈ e.deps := hd ▸ List.mem_cons_self k ks
      have hw := (h.acc_waiting i e he hrej k).2 hk
      rw [ha.accepted_cleared k (hdeps k (ha.deps_sub i e he k hk))] at hw
      exact absurd hw (List.not_mem_nil i)
  · -- an abandoned acceptor has a rejected dependency, which is accepted too
    obtain ⟨d, hd, hdr⟩ := ha.abandoned i e he hrej
    exact (h.apart d (.inl (hdeps d hd)) hdr).elim

/-- `chainRun` after one more `Updateable`, which returns `5`. -/
def chainDone : Session Nat := chainRun.updateable chain inOrder

theorem chainDone_complete :
    chainDone.acc = [4, 5] ∧ (chainDone.c.updateable chain inOrder).2 = ([], []) ∧
    ∀ t, t ∈ chainDone.acc ↔
      t ∈ chainDone.c.called ∧ ∀ d ∈ chain.dependencies t, d ∈ chainDone.acc :=
  ⟨by decide, by decide,
    acceptance_complete (chainRun_reach.tail (.updateable inOrder)) inOrder (by decide)⟩

end Session

end Gecko
