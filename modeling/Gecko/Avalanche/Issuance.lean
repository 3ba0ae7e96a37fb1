import Gecko.Avalanche.Safety

/-! # Safety of vertex issuance

What every run of the issuers from a start does with `Consensus.Add` and `vtxBlocked`. The
blocker hands a vertex's waiting list to the first `Fulfill` or `Abandon` of the vertex, so an
issuer waiting on a vertex whose `Abandon` ran before any `Fulfill` is never released and never
reaches consensus; but an `Abandon` that a collaborator calls while the vertex's `Fulfill` still
runs finds no list, and the issuers that `Fulfill` has still to notify go on to consensus.
-/

namespace Gecko.Avalanche

variable {κ ι : Type} {V : Vertices κ ι} [DecidableEq ι]

/-! ## The issuers a running `Fulfill` or `Abandon` has still to notify -/

def Frame.pendingOn (f : Bool) (v : ι) : Frame κ ι → List κ
  | .notify f' w rest => if f' = f ∧ w = v then rest else []
  | _ => []

def pendingOn (f : Bool) (v : ι) (st : List (Frame κ ι)) : List κ :=
  st.flatMap (Frame.pendingOn f v)

section pending

variable (f : Bool) (v : ι) (st : List (Frame κ ι))

@[simp] theorem pendingOn_nil : pendingOn f v ([] : List (Frame κ ι)) = [] := rfl
@[simp] theorem pendingOn_append (st' : List (Frame κ ι)) :
    pendingOn f v (st ++ st') = pendingOn f v st ++ pendingOn f v st' := List.flatMap_append ..
@[simp] theorem pendingOn_enter (i : κ) : pendingOn f v (.enter i :: st) = pendingOn f v st := by
  simp [pendingOn, Frame.pendingOn]
@[simp] theorem pendingOn_update (i : κ) (obs : Observed ι) (ph : Phase ι) :
    pendingOn f v (.update i obs ph :: st) = pendingOn f v st := by
  simp [pendingOn, Frame.pendingOn]
@[simp] theorem pendingOn_notify (f' : Bool) (w : ι) (rest : List κ) :
    pendingOn f v (.notify f' w rest :: st) =
      (if f' = f ∧ w = v then rest else []) ++ pendingOn f v st := rfl

end pending

theorem mem_pendingOn {f : Bool} {v : ι} {st : List (Frame κ ι)} {i : κ} :
    i ∈ pendingOn f v st ↔ ∃ rest, .notify f v rest ∈ st ∧ i ∈ rest := by
  simp only [pendingOn, List.mem_flatMap]
  constructor
  · rintro ⟨x, hx, hi⟩
    cases x with
    | notify f' w rest =>
      simp only [Frame.pendingOn] at hi
      split_ifs at hi with hfw
      · obtain ⟨rfl, rfl⟩ := hfw; exact ⟨rest, hx, hi⟩
      · simp at hi
    | _ => simp [Frame.pendingOn] at hi
  · rintro ⟨rest, hx, hi⟩
    exact ⟨_, hx, by simpa [Frame.pendingOn] using hi⟩

theorem pendingOn_renotify (f f' : Bool) (v w : ι) (k : κ) (rest : List κ) (st : List (Frame κ ι)) :
    pendingOn f w (.notify f' v rest :: st) ⊆ pendingOn f w (.notify f' v (k :: rest) :: st) := by
  simp only [pendingOn_notify]
  split_ifs
  · exact List.append_subset.2 ⟨List.subset_append_of_subset_left _ (List.subset_cons_self _ _),
      List.subset_append_right _ _⟩
  · exact List.Subset.refl _

/-! ## What a call does to `vtxBlocked` -/

/-- The call may take waiting lists out of `vtxBlocked`, and the calls of `vtxBlocked.Fulfill`
and `Abandon` it starts notify only issuers it took out. -/
def Takes (e : Transitive κ ι) (r : Transitive κ ι × List (Frame κ ι)) : Prop :=
  ∀ f v, (r.1.vtxBlocked v = e.vtxBlocked v ∨ r.1.vtxBlocked v = []) ∧
    pendingOn f v r.2 ⊆ e.vtxBlocked v

theorem Takes.quiet {e : Transitive κ ι} {r : Transitive κ ι × List (Frame κ ι)}
    (hb : r.1.vtxBlocked = e.vtxBlocked) (hn : ∀ f v, pendingOn f v r.2 = []) : Takes e r :=
  fun f v => ⟨.inl (by rw [hb]), by simp [hn]⟩

theorem Takes.of_vtxBlocked {e e' : Transitive κ ι} {r : Transitive κ ι × List (Frame κ ι)}
    (h : Takes e' r) (hb : e'.vtxBlocked = e.vtxBlocked) : Takes e r := fun f v => by
  rw [← hb]; exact h f v

theorem takes_notifyBlocked (e : Transitive κ ι) (f : Bool) (v : ι) :
    Takes e (e.notifyBlocked f v) := fun g w => by
  by_cases hw : w = v
  · subst hw
    refine ⟨.inr (by simp [Transitive.notifyBlocked]), ?_⟩
    simp only [Transitive.notifyBlocked, pendingOn_notify, pendingOn_nil, List.append_nil]
    split_ifs
    · exact List.Subset.refl _
    · exact List.nil_subset _
  · exact ⟨.inl (by simp [Transitive.notifyBlocked, Function.update_noteq hw]),
      by simp [Transitive.notifyBlocked, Ne.symm hw]⟩

theorem takes_abandonVtx (e : Transitive κ ι) (v : ι) : Takes e (e.abandonVtx v) :=
  takes_notifyBlocked e false v

/-! ## Doomed issuers -/

/-- The issuer can no longer pass its guard: it is not issued, and it is abandoned, or it waits
on a vertex from which neither `vtxBlocked` nor a running `Fulfill` will release it. -/
def Doomed (c : Config κ ι) (i : κ) : Prop :=
  (c.eng.issuers i).issued = false ∧ ((c.eng.issuers i).abandoned = true ∨
    ∃ p ∈ (c.eng.issuers i).vtxDeps, i ∉ c.eng.vtxBlocked p ∧ i ∉ pendingOn true p c.stack)

theorem Inv.doomed {deps : κ → List ι} {c : Config κ ι} (h : Inv V deps c) {i : κ} {p : ι}
    (hp : p ∈ (c.eng.issuers i).vtxDeps) (ha : .abandoned p ∈ c.eng.log)
    (hf : .fulfilled p ∉ c.eng.log) : Doomed c i :=
  ⟨Bool.eq_false_iff.2 fun hi => by simp [h.issued_deps i hi] at hp,
    .inr ⟨p, hp, by simp [h.taken p (.inr ha)], fun hi => hf <| by
      obtain ⟨rest, hr, -⟩ := mem_pendingOn.1 hi
      exact h.frames _ hr rfl⟩⟩

theorem Doomed.not_added {deps : κ → List ι} {c : Config κ ι} {i : κ} (hd : Doomed c i)
    (h : Inv V deps c) : .added i ∉ c.eng.log := fun ha => by
  simpa [hd.1] using h.added_issued ha

theorem Doomed.of {c c' : Config κ ι} {i : κ} (h : Doomed c i)
    (hiss : (c'.eng.issuers i).issued = true → (c.eng.issuers i).issued = true ∨
      (c.eng.issuers i).abandoned = false ∧ (c.eng.issuers i).vtxDeps = [])
    (hab : (c.eng.issuers i).abandoned = true → (c'.eng.issuers i).abandoned = true)
    (hdeps : ∀ p ∈ (c.eng.issuers i).vtxDeps, i ∉ pendingOn true p c.stack →
      p ∈ (c'.eng.issuers i).vtxDeps)
    (hb : ∀ p, c'.eng.vtxBlocked p = c.eng.vtxBlocked p ∨ c'.eng.vtxBlocked p = [])
    (hpend : ∀ p, pendingOn true p c'.stack ⊆ c.eng.vtxBlocked p ++ pendingOn true p c.stack) :
    Doomed c' i := by
  obtain ⟨hnot, hab₀ | ⟨p, hp, hbl, hpe⟩⟩ := h
  · refine ⟨Bool.eq_false_iff.2 fun hi => ?_, .inl (hab hab₀)⟩
    rcases hiss hi with h | ⟨h, -⟩ <;> simp_all
  · refine ⟨Bool.eq_false_iff.2 fun hi => ?_, .inr ⟨p, hdeps p hp hpe, ?_, fun hm => ?_⟩⟩
    · rcases hiss hi with h | ⟨-, h⟩ <;> simp_all
    · rcases hb p with hb | hb <;> simp [hb, hbl]
    · rcases List.mem_append.1 (hpend p hm) with h | h
      exacts [hbl h, hpe h]

theorem Doomed.restack {e : Transitive κ ι} {st st' : List (Frame κ ι)} {i : κ}
    (h : Doomed ⟨e, st⟩ i) (hpend : ∀ p, pendingOn true p st' ⊆ pendingOn true p st) :
    Doomed ⟨e, st'⟩ i :=
  h.of (fun hi => .inl hi) id (fun _ hp _ => hp) (fun _ => .inl rfl)
    fun p => (hpend p).trans (List.subset_append_right _ _)

theorem Doomed.push {e : Transitive κ ι} {st : List (Frame κ ι)} {r : Transitive κ ι × List (Frame κ ι)}
    {i : κ} (h : Doomed ⟨e, st⟩ i) (ht : Takes e r)
    (hiss : (r.1.issuers i).issued = true → (e.issuers i).issued = true ∨
      (e.issuers i).abandoned = false ∧ (e.issuers i).vtxDeps = [])
    (hab : (e.issuers i).abandoned = true → (r.1.issuers i).abandoned = true)
    (hdeps : (r.1.issuers i).vtxDeps = (e.issuers i).vtxDeps) : Doomed (.push r st) i :=
  h.of hiss hab (fun p hp _ => by simpa [Config.push, hdeps] using hp) (fun p => (ht true p).1)
    fun p => by
      simp only [Config.push, pendingOn_append]
      exact List.append_subset.2 ⟨List.subset_append_of_subset_left _ (ht true p).2,
        List.subset_append_right _ _⟩

theorem takes_resume (e : Transitive κ ι) (i : κ) (obs : Observed ι) (ph : Phase ι)
    (err polled : Bool) : Takes e (e.resume V i obs ph err polled) := by
  have hissue : Takes e (e.issue V i obs) := fun f v => by
    obtain ⟨hb, hp⟩ := takes_notifyBlocked e true (V.vtxID i) f v
    exact ⟨hb, by simpa [Transitive.issue, Transitive.fulfillVtxBlocked] using hp⟩
  cases ph <;> simp only [Transitive.resume] <;> (try split_ifs) <;>
    first
    | exact .quiet rfl (by simp)
    | exact (takes_abandonVtx _ _).of_vtxBlocked rfl
    | exact hissue

variable [DecidableEq κ]

theorem takes_update (e : Transitive κ ι) (i : κ) (vi : Bool) (obs : Observed ι) :
    Takes e (e.update V i vi obs) := by
  rcases @update_cases _ _ V e _ _ i vi obs with hu | ⟨-, hu | ⟨ph, -, -, hu⟩ | hu⟩ <;>
    rw [hu]
  · exact .quiet rfl (by simp)
  · exact .quiet rfl (by simp)
  · exact .quiet rfl (by simp)
  · exact (takes_abandonVtx _ _).of_vtxBlocked rfl

theorem takes_abandon (e : Transitive κ ι) (k : κ) : Takes e (e.abandon V k) := by
  cases hk : (e.issuers k).abandoned
  · rw [Transitive.abandon_of_not_abandoned V e k hk]
    exact (takes_abandonVtx _ _).of_vtxBlocked rfl
  · rw [Transitive.abandon_of_abandoned V e k hk]
    exact .quiet rfl (by simp)

theorem takes_call (e : Transitive κ ι) (c : Call κ ι) : Takes e (e.call V c) := by
  cases c with
  | fulfillTr i id => exact .quiet rfl (by simp [Transitive.call, Transitive.fulfillTr])
  | abandon k => exact takes_abandon e k
  | update i => exact .quiet rfl (by simp [Transitive.call])

/-! ## Every step keeps a doomed issuer doomed -/

theorem update_issuers (V : Vertices κ ι) (e : Transitive κ ι) (i : κ) (vi : Bool)
    (obs : Observed ι) :
    (e.update V i vi obs).1.issuers = e.issuers ∨ GuardOk (e.issuers i) e.errored vi ∧
      (e.update V i vi obs).1.issuers =
        Function.update e.issuers i { e.issuers i with issued := true } := by
  rcases update_cases i vi obs with hu | ⟨hg, hu | ⟨_, -, -, hu⟩ | hu⟩ <;> rw [hu]
  · exact .inl rfl
  all_goals exact .inr ⟨hg, rfl⟩

theorem Doomed.step {c c' : Config κ ι} {i : κ} (h : Doomed c i) (hs : Step V c c') :
    Doomed c' i := by
  cases hs with
  | @call e st cl _ =>
    cases cl with
    | fulfillTr j id =>
      exact h.push (takes_call e _) (fun hi => .inl ((e.fulfillTr_issued j id i).symm.trans hi))
        (fun ha => (e.fulfillTr_abandoned j id i).trans ha) (e.fulfillTr_vtxDeps j id i)
    | abandon j =>
      exact h.push (takes_call e _) (fun hi => .inl ((e.abandon_issued V j i).symm.trans hi))
        (fun ha => e.abandon_abandoned V (.inr ha)) (e.abandon_vtxDeps V j i)
    | update j => exact h.push (takes_call e _) .inl id rfl
  | @update e st j vi obs =>
    have h' : Doomed ⟨e, st⟩ i := h.restack fun p => by simp
    rcases update_issuers V e j vi obs with hu | ⟨hg, hu⟩
    · exact h'.push (takes_update e j vi obs) (fun hi => .inl (by simpa [hu] using hi))
        (fun ha => by simpa [hu] using ha) (by rw [hu])
    · refine h'.push (takes_update e j vi obs) (fun hi => ?_) (fun ha => ?_) ?_
      · by_cases hij : i = j
        · subst hij; exact .inr ⟨hg.1, hg.2.2.1⟩
        · exact .inl (by simpa [hu, Function.update_noteq hij] using hi)
      · by_cases hij : i = j
        · subst hij; simp [hg.1] at ha
        · simpa [hu, Function.update_noteq hij] using ha
      · by_cases hij : i = j
        · subst hij; simp [hu]
        · simp [hu, Function.update_noteq hij]
  | @resume e st j obs ph err polled =>
    have hu := congrFun (e.resume_issuers V j obs ph err polled) i
    have h' : Doomed ⟨e, st⟩ i := h.restack fun p => by simp
    exact h'.push (takes_resume e j obs ph err polled) (fun hi => .inl (hu ▸ hi))
      (fun ha => hu ▸ ha) (by rw [hu])
  | @notify e st f v k rest =>
    cases f
    · have h' : Doomed ⟨e, .notify false v rest :: st⟩ i := h.restack fun p => by simp
      exact h'.push (takes_abandon e k) (fun hi => .inl ((e.abandon_issued V k i).symm.trans hi))
        (fun ha => e.abandon_abandoned V (.inr ha)) (e.abandon_vtxDeps V k i)
    · refine h.of (fun hi => .inl ((e.fulfillVtx_issued k v i).symm.trans hi))
        (fun ha => (e.fulfillVtx_abandoned k v i).trans ha) (fun p hp hpe => ?_)
        (fun _ => .inl rfl) (fun p => ?_)
      · show p ∈ ((e.fulfillVtx k v).1.issuers i).vtxDeps
        rw [e.fulfillVtx_vtxDeps]
        split
        · subst_vars
          refine (List.mem_erase_of_ne fun hpv => hpe ?_).2 hp
          subst hpv
          simp
        · exact hp
      · simp only [Config.push, Transitive.fulfillVtx, List.singleton_append, pendingOn_enter]
        exact (pendingOn_renotify true true v p k rest st).trans (List.subset_append_right _ _)
  | @drop e st f v => exact h.restack fun p => by cases f <;> simp

theorem Doomed.reach {c c' : Config κ ι} {i : κ} (h : Doomed c i)
    (hr : Relation.ReflTransGen (Step V) c c') : Doomed c' i := by
  induction hr with
  | refl => exact h
  | tail _ hs ih => exact ih.step hs

/-! ## Issuance -/

theorem issuance_safe {c₀ c : Config κ ι} (h0 : c₀.Start)
    (hr : Relation.ReflTransGen (Step V) c₀ c) :
    (c.eng.log.filterMap Event.addedBy).Nodup ∧
    (c.eng.log.filterMap Event.passedBy).Nodup ∧
    Preceded (AfterGuard V) c.eng.log ∧
    Preceded (AfterAdd V) c.eng.log ∧
    Preceded (AfterParents V fun i => (c₀.eng.issuers i).vtxDeps) c.eng.log ∧
    ∀ i p, p ∈ (c.eng.issuers i).vtxDeps → .abandoned p ∈ c.eng.log → .fulfilled p ∉ c.eng.log →
      ∀ c', Relation.ReflTransGen (Step V) c c' → .added i ∉ c'.eng.log := by
  have h := (Inv.start h0).reach hr
  exact ⟨h.added_nodup, h.passed_nodup, h.after_guard, h.after_add, h.after_parents,
    fun i p hp ha hf c' hr' => ((h.doomed hp ha hf).reach hr').not_added (h.reach hr')⟩

/-- Two vertices, the second waiting on the first. -/
def pair : Vertices Nat Nat := ⟨id, fun _ => []⟩

def pairStart : Config Nat Nat :=
  ⟨⟨fun i => ⟨false, false, if i = 1 then [0] else [], []⟩, [0, 1], false, false, 0,
    fun v => if v = 0 then [1] else [], []⟩, []⟩

/-- Reads that let an `Update` through to `Consensus.Add`. -/
def okObs : Observed Nat := ⟨false, fun _ => true, fun _ => false, false, 0, 0⟩

/-- Issuer `0` called, past its guard, and back from `Consensus.Add`. -/
def pairAdded : Config Nat Nat :=
  let c := Config.push (pairStart.eng.update pair 0 false okObs) []
  .push (c.eng.resume pair 0 okObs .consensusAdd false false) []

theorem pairStart_start : pairStart.Start where
  fresh _ := ⟨rfl, rfl⟩
  log := rfl
  stack := rfl

theorem pairAdded_reach : Relation.ReflTransGen (Step pair) pairStart pairAdded :=
  ((Relation.ReflTransGen.refl.tail (Step.call (.update 0) (by simp [pairStart]))).tail
    (Step.update false okObs)).tail (Step.resume false false)

theorem pairAdded_safe : pairStart.Start ∧
    Relation.ReflTransGen (Step pair) pairStart pairAdded ∧
    (pairAdded.eng.log.filterMap Event.addedBy).Nodup :=
  ⟨pairStart_start, pairAdded_reach, (issuance_safe pairStart_start pairAdded_reach).1⟩

/-- Issuers `1` and `2` wait on vertex `0`, and the tx of vertex `1` fails `Verify`. -/
def tri : Vertices Nat Nat := ⟨id, fun i => if i = 1 then [5] else []⟩

def triStart : Config Nat Nat :=
  ⟨⟨fun i => ⟨false, false, if i = 0 then [] else [0], []⟩, [0, 1, 2], false, false, 0,
    fun v => if v = 0 then [1, 2] else [], []⟩, []⟩

def badObs : Observed Nat := ⟨false, fun _ => false, fun _ => false, false, 0, 0⟩

theorem triStart_start : triStart.Start where
  fresh _ := ⟨rfl, rfl⟩
  log := rfl
  stack := rfl

/-- Vertex `0` is added and its `Fulfill` releases issuer `1`, whose `Update` waits on `batch`;
the collaborator calls `Abandon` on issuer `0`, whose `vtxBlocked.Abandon(0)` finds no list.
Issuer `2` still waits on vertex `0` then, and the `Fulfill` goes on to release it, so it is
added. -/
theorem reentrantAbandon_adds : triStart.Start ∧ ∃ c c' : Config Nat Nat,
    Relation.ReflTransGen (Step tri) triStart c ∧ 0 ∈ (c.eng.issuers 2).vtxDeps ∧
    Event.abandoned 0 ∈ c.eng.log ∧ Relation.ReflTransGen (Step tri) c c' ∧
    Event.added 2 ∈ c'.eng.log :=
  ⟨triStart_start, _, _, ((((((Relation.ReflTransGen.refl.tail
    (Step.call (.update 0) (by simp [triStart]))).tail (Step.update false okObs)).tail
    (Step.resume false false)).tail (Step.resume false false)).tail Step.notify).tail
    (Step.update false badObs)).tail (Step.call (.abandon 0) (by rintro _ ⟨⟩; rfl)),
    by decide, List.mem_append_right _ (List.mem_singleton_self _),
    (((((Relation.ReflTransGen.refl.tail Step.drop).tail (Step.resume false false)).tail
    Step.drop).tail Step.notify).tail (Step.update false okObs)).tail (Step.resume false false),
    List.mem_append_right _ (List.mem_singleton_self _)⟩

end Gecko.Avalanche
