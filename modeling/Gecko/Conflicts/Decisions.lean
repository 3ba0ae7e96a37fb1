import Gecko.Conflicts.Invariant

/-! # What the conflict manager decides

Over every run of the client, `Updateable` returns each tx at most once, a tx it rejects has
a reason, the client's calls of `Updateable` run out, and an acceptable tx comes after its
dependencies.
-/

namespace Gecko

namespace Conflicts

variable {ι : Type} [DecidableEq ι] {G : TxIndex ι} {c : Conflicts ι}

theorem updateable_snd_eq_nil (o : MapOrder ι) :
    (c.updateable G o).2 = ([], []) ↔ c.acceptable = [] ∧ c.rejectable = [] := by
  constructor
  · intro h
    simp only [updateable, Prod.mk.injEq] at h
    obtain ⟨h1, h2⟩ := h
    rw [h1] at h2
    exact ⟨h1, h2⟩
  · rintro ⟨h1, h2⟩
    simp [updateable, h1, h2]

theorem foldl_erase_sublist (L l : List ι) : (L.foldl List.erase l).Sublist l := by
  induction L generalizing l with
  | nil => exact List.Sublist.refl l
  | cons a L ih => exact (ih _).trans (List.erase_sublist a l)

theorem Inv.updateable_txs_lt {DA DR : List ι} (h : Inv G c DA c.acceptable DR c.rejectable)
    (o : MapOrder ι) (hne : (c.updateable G o).2 ≠ ([], [])) :
    (c.updateable G o).1.txs.length < c.txs.length := by
  rw [Ne, updateable_snd_eq_nil, not_and_or] at hne
  -- a returned tx that was processing
  obtain ⟨x, hx, hxc⟩ : ∃ x ∈ (c.updateable G o).2.1 ++ (c.updateable G o).2.2, x ∈ c.txs := by
    by_cases ha : c.acceptable = []
    · obtain ⟨x, hx⟩ := List.exists_mem_of_ne_nil _ (hne.resolve_left (not_not.2 ha))
      exact ⟨x, by simp [Conflicts.updateable, ha, hx], h.queued x (.inr hx)⟩
    · obtain ⟨x, hx⟩ := List.exists_mem_of_ne_nil _ ha
      exact ⟨x, List.mem_append_left _ hx, h.queued x (.inl hx)⟩
  rw [updateable_txs]
  have hsub := foldl_erase_sublist ((c.updateable G o).2.1 ++ (c.updateable G o).2.2) c.txs
  refine lt_of_le_of_ne hsub.length_le fun hlen => ?_
  have hx' : x ∈ ((c.updateable G o).2.1 ++ (c.updateable G o).2.2).foldl List.erase c.txs := by
    rw [hsub.eq_of_length hlen]; exact hxc
  exact ((mem_foldl_erase h.spenders.txs_nodup _ x).1 hx').2 hx

end Conflicts

namespace Session

open Conflicts

variable {ι : Type} [DecidableEq ι] {G : TxIndex ι} {s s' : Session ι} {t : ι}

/-- The invariant of the client's runs: the manager's, with the lists returned so far as the
drained txs and the manager's queues as the queued ones, and the statuses as the client
marked them. -/
structure Good (G : TxIndex ι) (s : Session ι) : Prop where
  inv : Inv G s.c s.acc s.c.acceptable s.rej s.c.rejectable
  status : ∀ t, s.status t =
    if t ∈ s.rej then .rejected else if t ∈ s.acc then .accepted else .processing

theorem good_new : Good G (new : Session ι) := ⟨inv_new, fun _ => rfl⟩

theorem Good.accepted_of_status (h : Good G s) {d : ι} (hd : s.status d = .accepted) :
    d ∈ s.acc := by
  rw [h.status] at hd
  split_ifs at hd with h1 h2
  exact h2

theorem Good.add (h : Good G s) (hok : AddOk G s t) : Good G (s.add G t) where
  inv := by
    have hinv := h.inv.addTx hok.fresh (fun d _ hd => h.accepted_of_status hd)
      (fun d hd hs => (hok.deps d hd).resolve_left hs) hok.inputs
    have hr : (s.add G t).c.rejectable = s.c.rejectable := addTx_rejectable _ _ _
    rw [← hr] at hinv
    exact hinv
  status := h.status

theorem Good.accept (h : Good G s) (hok : AcceptOk G s t) : Good G (s.accept G t) where
  inv := by
    have hinv := h.inv.acceptTx hok.processing hok.fresh hok.inputs
      (fun d _ hd => h.accepted_of_status hd)
    rw [← acceptTx_acceptable] at hinv
    exact hinv
  status := h.status

theorem Good.updateable (h : Good G s) (o : MapOrder ι) : Good G (s.updateable G o) := by
  have hinv := h.inv.updateable o
  refine ⟨hinv, fun t => ?_⟩
  rw [updateable_status, updateable_acc, updateable_rej, mark, h.status t]
  by_cases h2 : t ∈ (s.c.updateable G o).2.2
  · simp [h2]
  · by_cases h1 : t ∈ (s.c.updateable G o).2.1
    · have hr : t ∉ s.rej := fun hr =>
        hinv.apart t (.inl (List.mem_append_right _ h1)) (.inl (List.mem_append_left _ hr))
      simp [h1, h2, hr]
    · simp [h1, h2]

theorem Good.step (h : Good G s) (hst : Step G s s') : Good G s' := by
  cases hst with
  | add hok => exact h.add hok
  | accept hok => exact h.accept hok
  | updateable o => exact h.updateable o

theorem Reach.good (hs : Reach G s) : Good G s := by
  induction hs with
  | refl => exact good_new
  | tail _ hst ih => exact ih.step hst

/-! ## Decision finality -/

/-- Txs `1` and `2` spend input `0`; tx `3` depends on `2`. -/
def doubleSpend : TxIndex Nat :=
  ⟨fun t => if t = 3 then [10] else if t = 1 ∨ t = 2 then [0] else [],
    fun t => if t = 3 then [2] else []⟩

/-- `range` visiting the conflicts in the order they are listed. -/
def inOrder : MapOrder Nat := ⟨fun _ l => l, fun _ _ => List.Perm.refl _⟩

/-- Add txs `1`, `2` and `3`, accept `1`, then call `Updateable`. -/
def doubleSpendRun : Session Nat :=
  ((((new.add doubleSpend 1).add doubleSpend 2).add doubleSpend 3).accept doubleSpend 1).updateable
    doubleSpend inOrder

theorem doubleSpendRun_reach : Reach doubleSpend doubleSpendRun :=
  (((((Relation.ReflTransGen.refl.tail (.add ⟨by decide, by decide, by decide⟩)).tail
    (.add ⟨by decide, by decide, by decide⟩)).tail (.add ⟨by decide, by decide, by decide⟩)).tail
    (.accept ⟨by decide, by decide, by decide, by decide⟩)).tail (.updateable inOrder))

theorem decisions_final (hs : Reach G s) :
    (s.acc ++ s.rej).Nodup ∧ ∀ t ∈ s.acc ++ s.rej, t ∉ s.c.txs := by
  have h := hs.good.inv
  refine ⟨List.nodup_append.2 ⟨(List.sublist_append_left _ _).nodup h.nodupA,
    (List.sublist_append_left _ _).nodup h.nodupR, fun x ha hr => h.apart x (.inl ha) (.inl hr)⟩,
    fun t ht => h.drained t (List.mem_append.1 ht)⟩

theorem doubleSpendRun_decided :
    doubleSpendRun.acc = [1] ∧ doubleSpendRun.rej = [2, 3] ∧
      ((doubleSpendRun.acc ++ doubleSpendRun.rej).Nodup ∧
        ∀ t ∈ doubleSpendRun.acc ++ doubleSpendRun.rej, t ∉ doubleSpendRun.c.txs) :=
  ⟨by decide, by decide, decisions_final doubleSpendRun_reach⟩

/-! ## Rejections are exactly justified -/

/-- The client calls `Updateable` `n` times, with map orders `os`. -/
def sweep (G : TxIndex ι) (os : Nat → MapOrder ι) : Nat → Session ι → Session ι
  | 0, s => s
  | n + 1, s => (sweep G os n s).updateable G (os n)

theorem Reach.sweep (hs : Reach G s) (os : Nat → MapOrder ι) (n : Nat) :
    Reach G (s.sweep G os n) := by
  induction n with
  | zero => exact hs
  | succ n ih => exact ih.tail (.updateable (os n))

theorem sweep_ends (hs : Reach G s) (os : Nat → MapOrder ι) :
    ∃ n ≤ s.c.txs.length, ((s.sweep G os n).c.updateable G (os n)).2 = ([], []) := by
  -- each call that returns something shrinks `txs`
  have key : ∀ n, (∃ m < n, ((s.sweep G os m).c.updateable G (os m)).2 = ([], [])) ∨
      (s.sweep G os n).c.txs.length + n ≤ s.c.txs.length := by
    intro n
    induction n with
    | zero => exact .inr (Nat.le_refl _)
    | succ n ih =>
      rcases ih with ⟨m, hm, hm'⟩ | ih
      · exact .inl ⟨m, by omega, hm'⟩
      · by_cases hn : ((s.sweep G os n).c.updateable G (os n)).2 = ([], [])
        · exact .inl ⟨n, by omega, hn⟩
        · have hlt := (hs.sweep os n).good.inv.updateable_txs_lt (os n) hn
          refine .inr ?_
          show ((s.sweep G os n).c.updateable G (os n)).1.txs.length + (n + 1) ≤ _
          omega
  rcases key (s.c.txs.length + 1) with ⟨m, hm, hm'⟩ | h
  · exact ⟨m, by omega, hm'⟩
  · omega

theorem Good.rejected_iff (h : Good G s) (hq : s.c.acceptable = []) (hr : s.c.rejectable = [])
    (t : ι) : t ∈ s.rej ↔ t ∈ s.c.added ∧
      ((∃ a ∈ s.acc, a ≠ t ∧ Shares G a t) ∨ ∃ d ∈ G.dependencies t, d ∈ s.rej) := by
  have hi := h.inv
  rw [hq, hr] at hi
  constructor
  · intro ht
    refine ⟨(hi.added_iff t).2 (.inr (.inr ht)), ?_⟩
    simpa using hi.justified t (.inl ht)
  · rintro ⟨hadd, ⟨a, ha, hat, hsh⟩ | ⟨d, hd, hdr⟩⟩
    · simpa using hi.conflict_rejected a ha t hadd hat hsh
    · by_contra htR
      rcases (hi.added_iff t).1 hadd with htc | htA | htR'
      · -- its rejector still waits on its own ID, so it waited on `d` until `d` was rejected
        rcases hi.own_waiting htc with h' | h' | ⟨j, e, he, -, rfl, -⟩
        · exact htR h'
        · simp at h'
        · rcases hi.dep_waiting j e he (by simpa using htR) d hd with hdA | hj
          · exact hi.apart d (.inl hdA) (.inl hdr)
          · simp [hi.rejected_cleared d hdr] at hj
      · exact hi.apart d (.inl (hi.accepted_deps (.inl htA) d hd)) (.inl hdr)
      · exact htR htR'

theorem rejection_exactly_justified (hs : Reach G s) :
    (∀ os : Nat → MapOrder ι, ∃ n ≤ s.c.txs.length,
      ((s.sweep G os n).c.updateable G (os n)).2 = ([], [])) ∧
    ∀ o : MapOrder ι, (s.c.updateable G o).2 = ([], []) →
      (∀ t, t ∈ s.rej ↔ t ∈ s.c.added ∧
        ((∃ a ∈ s.acc, a ≠ t ∧ Shares G a t) ∨ ∃ d ∈ G.dependencies t, d ∈ s.rej)) ∧
      ∀ t ∈ s.c.txs, (∀ a ∈ s.acc, ¬ Shares G a t) ∧ ∀ d ∈ G.dependencies t, d ∉ s.rej := by
  refine ⟨sweep_ends hs, fun o ho => ?_⟩
  obtain ⟨hq, hr⟩ := (updateable_snd_eq_nil o).1 ho
  have h := hs.good
  have hiff := h.rejected_iff hq hr
  refine ⟨hiff, fun t ht => ⟨fun a ha hsh => ?_, fun d hd hdr => ?_⟩⟩ <;>
    refine h.inv.drained t (.inr ((hiff t).2 ⟨(h.inv.added_iff t).2 (.inl ht), ?_⟩)) ht
  · exact .inl ⟨a, ha, fun hat => h.inv.drained a (.inl ha) (hat ▸ ht), hsh⟩
  · exact .inr ⟨d, hd, hdr⟩

theorem doubleSpendRun_justified :
    (doubleSpendRun.c.updateable doubleSpend inOrder).2 = ([], []) ∧
    ((∀ os : Nat → MapOrder Nat, ∃ n ≤ doubleSpendRun.c.txs.length,
      ((doubleSpendRun.sweep doubleSpend os n).c.updateable doubleSpend (os n)).2 = ([], [])) ∧
    ∀ o : MapOrder Nat, (doubleSpendRun.c.updateable doubleSpend o).2 = ([], []) →
      (∀ t, t ∈ doubleSpendRun.rej ↔ t ∈ doubleSpendRun.c.added ∧
        ((∃ a ∈ doubleSpendRun.acc, a ≠ t ∧ Shares doubleSpend a t) ∨
          ∃ d ∈ doubleSpend.dependencies t, d ∈ doubleSpendRun.rej)) ∧
      ∀ t ∈ doubleSpendRun.c.txs, (∀ a ∈ doubleSpendRun.acc, ¬ Shares doubleSpend a t) ∧
        ∀ d ∈ doubleSpend.dependencies t, d ∉ doubleSpendRun.rej) :=
  ⟨by decide, rejection_exactly_justified doubleSpendRun_reach⟩

/-! ## Acceptance respects dependencies -/

/-- Tx `5` depends on tx `4`. -/
def chain : TxIndex Nat := ⟨fun t => [t], fun t => if t = 5 then [4] else []⟩

/-- Add `4` and `5`, accept both, then call `Updateable`: it returns `4`, and queues `5`. -/
def chainRun : Session Nat :=
  ((((new.add chain 4).add chain 5).accept chain 4).accept chain 5).updateable chain inOrder

theorem chainRun_reach : Reach chain chainRun :=
  (((((Relation.ReflTransGen.refl.tail (.add ⟨by decide, by decide, by decide⟩)).tail
    (.add ⟨by decide, by decide, by decide⟩)).tail
    (.accept ⟨by decide, by decide, by decide, by decide⟩)).tail
    (.accept ⟨by decide, by decide, by decide, by decide⟩)).tail (.updateable inOrder))

theorem Step.acc_prefix (hst : Step G s s') : s.acc <+: s'.acc := by
  cases hst with
  | add => exact List.prefix_refl _
  | accept => exact List.prefix_refl _
  | updateable o => exact List.prefix_append _ _

theorem acc_prefix_of_reach {s₀ : Session ι} (hs : Relation.ReflTransGen (Step G) s₀ s) :
    s₀.acc <+: s.acc := by
  induction hs with
  | refl => exact List.prefix_refl _
  | tail _ hst ih => exact ih.trans hst.acc_prefix

theorem acceptance_respects_dependencies (hs : Reach G s) (o : MapOrder ι) :
    ∀ T ∈ (s.c.updateable G o).2.1, ∀ d ∈ G.dependencies T,
      d ∈ s.acc ∧ d ∉ (s.c.updateable G o).2.1 ∧
      ∀ s', Relation.ReflTransGen (Step G) (s.updateable G o) s' → d ∉ s'.rej := by
  intro T hT d hd
  have h := hs.good.inv
  have hdA : d ∈ s.acc := h.accepted_deps (.inr hT) d hd
  refine ⟨hdA, fun hd' => ?_, fun s' hs' hdr => ?_⟩
  · exact List.disjoint_of_nodup_append h.nodupA hdA hd'
  · have hreach : Reach G s' := (hs.tail (.updateable o)).trans hs'
    have hdA' : d ∈ s'.acc :=
      (List.prefix_append s.acc _ |>.trans (acc_prefix_of_reach hs')).subset hdA
    exact hreach.good.inv.apart d (.inl hdA') (.inl hdr)

theorem chainRun_dependencies :
    chainRun.acc = [4] ∧ (chainRun.c.updateable chain inOrder).2.1 = [5] ∧
    ∀ T ∈ (chainRun.c.updateable chain inOrder).2.1, ∀ d ∈ chain.dependencies T,
      d ∈ chainRun.acc ∧ d ∉ (chainRun.c.updateable chain inOrder).2.1 ∧
      ∀ s', Relation.ReflTransGen (Step chain) (chainRun.updateable chain inOrder) s' →
        d ∉ s'.rej :=
  ⟨by decide, by decide, acceptance_respects_dependencies chainRun_reach inOrder⟩

end Session

end Gecko
