import Gecko.Avalanche.Issuer
import Mathlib.Data.List.Nodup
import Mathlib.Data.List.Infix

/-! # Safety of vertex issuance

What holds of every configuration the issuers reach from a start, whatever the
collaborators do in between: the invariant `Inv`, and from it the order in which vertices
reach `Consensus.Add`.
-/

namespace Gecko.Avalanche

variable {κ ι : Type}

/-- Every entry of `l` meets `P` given the entries before it. -/
def Preceded {α : Type} (P : α → List α → Prop) (l : List α) : Prop :=
  ∀ k x, l[k]? = some x → P x (l.take k)

theorem preceded_nil {α : Type} {P : α → List α → Prop} : Preceded P [] := by
  simp [Preceded]

theorem preceded_concat {α : Type} {P : α → List α → Prop} {l : List α} {x : α} :
    Preceded P (l ++ [x]) ↔ Preceded P l ∧ P x l := by
  constructor
  · intro h
    refine ⟨fun k y hy => ?_, by simpa using h l.length x (by simp)⟩
    have hk := (List.getElem?_eq_some_iff.1 hy).1
    simpa [List.take_append_of_le_length hk.le, List.getElem?_append_left hk] using h k y
      (by rw [List.getElem?_append_left hk]; exact hy)
  · rintro ⟨h, hx⟩ k y hy
    rcases Nat.lt_or_ge k l.length with hk | hk
    · rw [List.getElem?_append_left hk] at hy
      rw [List.take_append_of_le_length hk.le]
      exact h k y hy
    · rw [List.getElem?_append_right hk] at hy
      obtain ⟨n, rfl⟩ := Nat.exists_eq_add_of_le hk
      cases n with
      | zero => simp at hy; subst hy; simpa using hx
      | succ n => simp at hy

def Frame.running : Frame κ ι → Option κ
  | .update i _ _ => some i
  | _ => none

def Event.passedBy : Event κ ι → Option κ
  | .passed i .. => some i
  | _ => none

def Event.addedBy : Event κ ι → Option κ
  | .added i => some i
  | _ => none

section reduce

variable (i : κ) (v : ι) (rest : List κ) (obs : Observed ι) (ph : Phase ι) (s : Issuer ι)
  (err vi : Bool)

@[simp] theorem running_enter : (Frame.enter i : Frame κ ι).running = none := rfl
@[simp] theorem running_update : (Frame.update i obs ph).running = some i := rfl
@[simp] theorem running_notify (f : Bool) : (Frame.notify f v rest).running = none := rfl

@[simp] theorem passedBy_passed : (Event.passed i s err vi obs).passedBy = some i := rfl
@[simp] theorem passedBy_added : (Event.added i : Event κ ι).passedBy = none := rfl
@[simp] theorem passedBy_fulfilled : (Event.fulfilled v : Event κ ι).passedBy = none := rfl
@[simp] theorem passedBy_abandoned : (Event.abandoned v : Event κ ι).passedBy = none := rfl
@[simp] theorem addedBy_passed : (Event.passed i s err vi obs).addedBy = none := rfl
@[simp] theorem addedBy_added : (Event.added i : Event κ ι).addedBy = some i := rfl
@[simp] theorem addedBy_fulfilled : (Event.fulfilled v : Event κ ι).addedBy = none := rfl
@[simp] theorem addedBy_abandoned : (Event.abandoned v : Event κ ι).addedBy = none := rfl

end reduce

/-- The guard of `Update` lets the call through. -/
def GuardOk (s : Issuer ι) (errored vertexIssued : Bool) : Prop :=
  s.abandoned = false ∧ s.issued = false ∧ s.vtxDeps = [] ∧ s.unfulfilledDeps = [] ∧
    vertexIssued = false ∧ errored = false

/-- The reads of an `Update` that let it go on to `Consensus.Add`. -/
def ObsOk (V : Vertices κ ι) (i : κ) (obs : Observed ι) : Prop :=
  obs.txsErr = false ∧ obs.epochErr = false ∧ (∀ t ∈ V.txs i, obs.verify t = true) ∧
    obs.epoch ≤ obs.currentEpoch

/-- The phases before `Consensus.Add` has returned. -/
def Phase.early : Phase ι → Bool
  | .batchInvalid | .batchReissue _ | .consensusAdd => true
  | _ => false

def PhaseOk (V : Vertices κ ι) (i : κ) (obs : Observed ι) : Phase ι → Prop
  | .batchReissue late => obs.txsErr = false ∧ obs.epochErr = false ∧
      (∀ t ∈ V.txs i, obs.verify t = true) ∧ (late = true ↔ obs.currentEpoch < obs.epoch)
  | .consensusAdd => ObsOk V i obs
  | _ => True

/-- What a frame on the stack needs of the engine. -/
def FrameOk (V : Vertices κ ι) (e : Transitive κ ι) : Frame κ ι → Prop
  | .enter _ => True
  | .update i obs ph => (e.issuers i).issued = true ∧
      (∃ s err vi, Event.passed i s err vi obs ∈ e.log ∧ GuardOk s err vi) ∧
      PhaseOk V i obs ph ∧ (ph.early = false → .added i ∈ e.log)
  | .notify f v _ => f = true → .fulfilled v ∈ e.log

/-- How the engine may change under a frame: its history grows, and issuers only become
issued. -/
structure Grows (e e' : Transitive κ ι) : Prop where
  log : e.log <+: e'.log
  issued : ∀ i, (e.issuers i).issued = true → (e'.issuers i).issued = true

theorem FrameOk.grows {V : Vertices κ ι} {e e' : Transitive κ ι} {f : Frame κ ι}
    (h : FrameOk V e f) (hg : Grows e e') : FrameOk V e' f := by
  cases f with
  | enter i => trivial
  | update i obs ph =>
    obtain ⟨hi, ⟨s, err, vi, hp, hs⟩, hph, ha⟩ := h
    exact ⟨hg.issued i hi, ⟨s, err, vi, hg.log.subset hp, hs⟩, hph,
      fun h' => hg.log.subset (ha h')⟩
  | notify f v rest => exact fun hf => hg.log.subset (h hf)

variable (V : Vertices κ ι)

/-- A `Consensus.Add` comes after its issuer's guard let it through, with every tx verified
and the vertex's epoch not in the future. -/
def AfterGuard (x : Event κ ι) (pre : List (Event κ ι)) : Prop :=
  ∀ i, x = .added i →
    ∃ s err vi obs, Event.passed i s err vi obs ∈ pre ∧ GuardOk s err vi ∧ ObsOk V i obs

/-- A `vtxBlocked.Fulfill(v)` comes after a `Consensus.Add` of `v`. -/
def AfterAdd (x : Event κ ι) (pre : List (Event κ ι)) : Prop :=
  ∀ v, x = .fulfilled v → ∃ j, .added j ∈ pre ∧ V.vtxID j = v

/-- A `Consensus.Add` comes after one of each parent the issuer started out waiting on. -/
def AfterParents (deps : κ → List ι) (x : Event κ ι) (pre : List (Event κ ι)) : Prop :=
  ∀ i, x = .added i → ∀ p ∈ deps i, ∃ j, .added j ∈ pre ∧ V.vtxID j = p

/-- The invariant of the issuers' runs; `deps` are the vertices each issuer waited on at the
start. -/
structure Inv (deps : κ → List ι) (c : Config κ ι) : Prop where
  issued_deps : ∀ i, (c.eng.issuers i).issued = true → (c.eng.issuers i).vtxDeps = []
  /-- The first `Fulfill` or `Abandon` of a vertex takes its waiting list out for good. -/
  taken : ∀ v, Event.fulfilled v ∈ c.eng.log ∨ Event.abandoned v ∈ c.eng.log →
    c.eng.vtxBlocked v = []
  parents : ∀ i p, p ∈ deps i → p ∉ (c.eng.issuers i).vtxDeps →
    ∃ j, .added j ∈ c.eng.log ∧ V.vtxID j = p
  frames : ∀ f ∈ c.stack, FrameOk V c.eng f
  frames_nodup : (c.stack.filterMap Frame.running).Nodup
  early : ∀ i obs ph, Frame.update i obs ph ∈ c.stack → ph.early = true →
    .added i ∉ c.eng.log
  passed_issued : ∀ i s err vi obs, Event.passed i s err vi obs ∈ c.eng.log →
    (c.eng.issuers i).issued = true
  passed_nodup : (c.eng.log.filterMap Event.passedBy).Nodup
  added_nodup : (c.eng.log.filterMap Event.addedBy).Nodup
  after_guard : Preceded (AfterGuard V) c.eng.log
  after_add : Preceded (AfterAdd V) c.eng.log
  after_parents : Preceded (AfterParents V deps) c.eng.log

variable {V}

theorem Inv.start {c : Config κ ι} (h : c.Start) :
    Inv V (fun i => (c.eng.issuers i).vtxDeps) c where
  issued_deps i hi := by simp [(h.fresh i).1] at hi
  taken := by simp [h.log]
  parents _ _ hp hp' := absurd hp hp'
  frames := by simp [h.stack]
  frames_nodup := by simp [h.stack]
  early := by simp [h.stack]
  passed_issued := by simp [h.log]
  passed_nodup := by simp [h.log]
  added_nodup := by simp [h.log]
  after_guard := by rw [h.log]; exact preceded_nil
  after_add := by rw [h.log]; exact preceded_nil
  after_parents := by rw [h.log]; exact preceded_nil

theorem mem_of_preceded {α : Type} {P : α → List α → Prop} {l : List α} (h : Preceded P l)
    {x : α} (hx : x ∈ l) : ∃ pre, pre <+: l ∧ P x pre := by
  obtain ⟨k, hk⟩ := List.mem_iff_getElem?.1 hx
  exact ⟨l.take k, List.take_prefix k l, h k x hk⟩

theorem Inv.added_issued {deps : κ → List ι} {c : Config κ ι} (h : Inv V deps c) {i : κ}
    (hi : .added i ∈ c.eng.log) : (c.eng.issuers i).issued = true := by
  obtain ⟨pre, hpre, hg⟩ := mem_of_preceded h.after_guard hi
  obtain ⟨s, err, vi, obs, hp, -⟩ := hg i rfl
  exact h.passed_issued i s err vi obs (hpre.subset hp)

theorem Inv.fulfilled_added {deps : κ → List ι} {c : Config κ ι} (h : Inv V deps c) {v : ι}
    (hv : .fulfilled v ∈ c.eng.log) : ∃ j, .added j ∈ c.eng.log ∧ V.vtxID j = v := by
  obtain ⟨pre, hpre, ha⟩ := mem_of_preceded h.after_add hv
  obtain ⟨j, hj, hjv⟩ := ha v rfl
  exact ⟨j, hpre.subset hj, hjv⟩

/-! ## One step -/

section step

variable {deps : κ → List ι} {e : Transitive κ ι} {st : List (Frame κ ι)}

theorem Inv.of_issuers {e' : Transitive κ ι} (h : Inv V deps ⟨e, st⟩) (hl : e'.log = e.log)
    (hb : e'.vtxBlocked = e.vtxBlocked)
    (hdeps : ∀ j, (e'.issuers j).vtxDeps ⊆ (e.issuers j).vtxDeps)
    (hpar : ∀ j p, p ∈ (e.issuers j).vtxDeps → p ∉ (e'.issuers j).vtxDeps →
      ∃ j', .added j' ∈ e.log ∧ V.vtxID j' = p)
    (hiss : ∀ j, (e.issuers j).issued = true → (e'.issuers j).issued = true)
    (hiss' : ∀ j, (e'.issuers j).issued = true →
      (e.issuers j).issued = true ∨ (e.issuers j).vtxDeps = []) :
    Inv V deps ⟨e', st⟩ where
  issued_deps j hj := List.subset_nil.1 fun p hp =>
    ((hiss' j hj).elim (h.issued_deps j) id) ▸ hdeps j hp
  taken := by rw [hl, hb]; exact h.taken
  parents j p hp hp' := by
    rw [hl]
    by_cases hm : p ∈ (e.issuers j).vtxDeps
    · exact hpar j p hm hp'
    · exact h.parents j p hp hm
  frames f hf := (h.frames f hf).grows ⟨hl ▸ List.prefix_refl _, hiss⟩
  frames_nodup := h.frames_nodup
  early := by rw [hl]; exact h.early
  passed_issued i s err vi obs hi := hiss i (h.passed_issued i s err vi obs (hl ▸ hi))
  passed_nodup := by rw [hl]; exact h.passed_nodup
  added_nodup := by rw [hl]; exact h.added_nodup
  after_guard := by rw [hl]; exact h.after_guard
  after_add := by rw [hl]; exact h.after_add
  after_parents := by rw [hl]; exact h.after_parents

theorem Inv.congr {e' : Transitive κ ι} (h : Inv V deps ⟨e, st⟩) (hi : e'.issuers = e.issuers)
    (hl : e'.log = e.log) (hb : e'.vtxBlocked = e.vtxBlocked) : Inv V deps ⟨e', st⟩ :=
  h.of_issuers hl hb (by simp [hi]) (fun _ _ hp hp' => absurd hp (by simpa [hi] using hp'))
    (by simp [hi]) (fun j hj => .inl (by simpa [hi] using hj))

theorem Inv.restack {st' : List (Frame κ ι)} (h : Inv V deps ⟨e, st⟩)
    (hframes : ∀ f ∈ st', FrameOk V e f) (hrun : (st'.filterMap Frame.running).Nodup)
    (hearly : ∀ i obs ph, Frame.update i obs ph ∈ st' → ph.early = true → .added i ∉ e.log) :
    Inv V deps ⟨e, st'⟩ :=
  { h with frames := hframes, frames_nodup := hrun, early := hearly }

theorem Inv.pop {f : Frame κ ι} (h : Inv V deps ⟨e, f :: st⟩) : Inv V deps ⟨e, st⟩ :=
  h.restack (fun g hg => h.frames g (.tail _ hg))
    (((List.sublist_cons_self f st).filterMap _).nodup h.frames_nodup)
    (fun i obs ph hg => h.early i obs ph (.tail _ hg))

theorem Inv.enter {i : κ} (h : Inv V deps ⟨e, st⟩) : Inv V deps ⟨e, .enter i :: st⟩ :=
  h.restack (List.forall_mem_cons.2 ⟨trivial, h.frames⟩)
    (by simpa using h.frames_nodup)
    (fun j obs ph hf => h.early j obs ph (by simpa using hf))

theorem Inv.renotify {f : Bool} {v : ι} {k : κ} {rest : List κ}
    (h : Inv V deps ⟨e, .notify f v (k :: rest) :: st⟩) :
    Inv V deps ⟨e, .notify f v rest :: st⟩ :=
  h.restack (List.forall_mem_cons.2 ⟨(h.frames _ (List.mem_cons_self _ _) :
      FrameOk V e (.notify f v (k :: rest))), fun g hg => h.frames g (.tail _ hg)⟩)
    (by simpa using h.frames_nodup) (fun i obs ph hf => h.early i obs ph (by simpa using hf))

theorem Inv.record {ev : Event κ ι} {B : ι → List κ} {fs : List (Frame κ ι)}
    (h : Inv V deps ⟨e, st⟩)
    (hp : ∀ j, ev.passedBy = some j →
      (e.issuers j).issued = true ∧ j ∉ e.log.filterMap Event.passedBy)
    (ha : ev.addedBy = none) (hadd : AfterAdd V ev e.log)
    (hB : ∀ v, Event.fulfilled v ∈ e.log ++ [ev] ∨ Event.abandoned v ∈ e.log ++ [ev] → B v = [])
    (hfs : ∀ f ∈ fs, FrameOk V { e.record ev with vtxBlocked := B } f ∧ f.running = none) :
    Inv V deps ⟨{ e.record ev with vtxBlocked := B }, fs ++ st⟩ := by
  have hg : Grows e { e.record ev with vtxBlocked := B } := ⟨List.prefix_append _ _, fun _ => id⟩
  have hne : ∀ i, ev ≠ .added i := fun i hi => by simp [hi] at ha
  have hfs' : fs.filterMap Frame.running = [] :=
    List.filterMap_eq_nil_iff.2 fun f hf => (hfs f hf).2
  refine
    { issued_deps := h.issued_deps
      taken := hB
      parents := fun i p hp hp' => (h.parents i p hp hp').imp fun j hj =>
        ⟨hg.log.subset hj.1, hj.2⟩
      frames := fun f hf => (List.mem_append.1 hf).elim (fun hf => (hfs f hf).1)
        fun hf => (h.frames f hf).grows hg
      frames_nodup := by simpa [List.filterMap_append, hfs'] using h.frames_nodup
      early := fun i obs ph hf hph hi => ?_
      passed_issued := fun i s err vi obs hi => ?_
      passed_nodup := ?_
      added_nodup := by simpa [ha] using h.added_nodup
      after_guard := preceded_concat.2 ⟨h.after_guard, fun i hi => absurd hi (hne i)⟩
      after_add := preceded_concat.2 ⟨h.after_add, hadd⟩
      after_parents := preceded_concat.2 ⟨h.after_parents, fun i hi => absurd hi (hne i)⟩ }
  · rcases List.mem_append.1 hf with hf | hf
    · exact absurd (hfs _ hf).2 (by simp)
    rcases List.mem_append.1 hi with hi | hi
    · exact h.early i obs ph hf hph hi
    · exact hne i (List.mem_singleton.1 hi).symm
  · rcases List.mem_append.1 hi with hi | hi
    · exact h.passed_issued i s err vi obs hi
    · exact (hp i (by rw [← List.mem_singleton.1 hi]; rfl)).1
  · cases hq : ev.passedBy with
    | none => simpa [hq] using h.passed_nodup
    | some j =>
      have hj : ∀ x ∈ e.log, ¬x.passedBy = some j := by simpa using (hp j hq).2
      simpa [hq, List.nodup_append] using And.intro h.passed_nodup hj

theorem markPhase_early (l : List ι) : (Transitive.markPhase l).early = false := by
  cases l <;> rfl

theorem markPhase_ok {i : κ} {obs : Observed ι} (l : List ι) :
    PhaseOk V i obs (Transitive.markPhase l) := by
  cases l <;> trivial

theorem Inv.rephase {i : κ} {obs : Observed ι} {ph ph' : Phase ι}
    (h : Inv V deps ⟨e, .update i obs ph :: st⟩) (hph : PhaseOk V i obs ph')
    (he : ph'.early = ph.early) : Inv V deps ⟨e, .update i obs ph' :: st⟩ := by
  obtain ⟨hiss, hpassed, -, hadded⟩ := h.frames _ (List.mem_cons_self _ _)
  refine h.restack (List.forall_mem_cons.2 ⟨⟨hiss, hpassed, hph, fun h' => hadded (he ▸ h')⟩,
      fun f hf => h.frames f (.tail _ hf)⟩) h.frames_nodup (fun j obs' ph'' hf hph'' => ?_)
  rcases List.mem_cons.1 hf with hf | hf
  · cases hf; exact h.early _ _ ph (List.mem_cons_self _ _) (he ▸ hph'')
  · exact h.early j obs' ph'' (.tail _ hf) hph''

theorem Inv.added {i : κ} {obs : Observed ι}
    (h : Inv V deps ⟨e, .update i obs .consensusAdd :: st⟩) :
    Inv V deps ⟨e.record (.added i), .update i obs .sample :: st⟩ := by
  obtain ⟨hiss, ⟨s, err, vi, hp, hs⟩, hobs, -⟩ := h.frames _ (List.mem_cons_self _ _)
  have hnew : .added i ∉ e.log := h.early i obs .consensusAdd (List.mem_cons_self _ _) rfl
  have hg : Grows e (e.record (.added i)) := ⟨List.prefix_append _ _, fun _ => id⟩
  refine
    { issued_deps := h.issued_deps
      taken := fun v hv => h.taken v (by simpa using hv)
      parents := fun j p hp hp' => (h.parents j p hp hp').imp fun j hj =>
        ⟨hg.log.subset hj.1, hj.2⟩
      frames := List.forall_mem_cons.2 ⟨⟨hiss, ⟨s, err, vi, hg.log.subset hp, hs⟩, trivial,
        fun _ => by simp⟩, fun f hf => (h.frames f (.tail _ hf)).grows hg⟩
      frames_nodup := h.frames_nodup
      early := fun j obs' ph hf hph hj => ?_
      passed_issued := fun j s err vi obs hj => h.passed_issued j s err vi obs (by simpa using hj)
      passed_nodup := by simpa using h.passed_nodup
      added_nodup := ?_
      after_guard := preceded_concat.2 ⟨h.after_guard, fun j hj => by
        cases hj; exact ⟨s, err, vi, obs, hp, hs, hobs⟩⟩
      after_add := preceded_concat.2 ⟨h.after_add, by simp [AfterAdd]⟩
      after_parents := preceded_concat.2 ⟨h.after_parents, fun j hj p hp => by
        cases hj
        refine h.parents i p hp ?_
        rw [(h.issued_deps i hiss : (e.issuers i).vtxDeps = [])]
        exact List.not_mem_nil p⟩ }
  · rcases List.mem_cons.1 hf with hf' | hf'
    · cases hf'; exact absurd hph Bool.false_ne_true
    · rcases List.mem_append.1 hj with hj' | hj'
      · exact h.early j obs' ph (.tail _ hf') hph hj'
      · obtain rfl : j = i := by simpa using hj'
        exact (List.nodup_cons.1 h.frames_nodup).1 (List.mem_filterMap.2 ⟨_, hf', rfl⟩)
  · have hi : i ∉ e.log.filterMap Event.addedBy := fun hm => by
      obtain ⟨ev, hev, hq⟩ := List.mem_filterMap.1 hm
      cases ev <;> simp only [Event.addedBy, Option.some.injEq, reduceCtorEq] at hq
      exact hnew (hq ▸ hev)
    simpa [List.nodup_append] using And.intro h.added_nodup hi

variable [DecidableEq ι]

theorem Inv.notifyBlocked {f : Bool} {v : ι} (h : Inv V deps ⟨e, st⟩)
    (hf : f = true → ∃ j, .added j ∈ e.log ∧ V.vtxID j = v) :
    Inv V deps (.push (e.notifyBlocked f v) st) := by
  refine h.record (by cases f <;> simp) (by cases f <;> rfl) ?_ (fun w hw => ?_) ?_
  · rintro w hw
    cases f
    · cases hw
    · cases hw; exact hf rfl
  · by_cases hwv : w = v
    · subst hwv; simp
    · rw [Function.update_noteq hwv]
      refine h.taken w ?_
      cases f <;> simpa [hwv] using hw
  · rintro g hg
    obtain rfl := List.mem_singleton.1 hg
    refine ⟨fun hf' => ?_, rfl⟩
    subst hf'
    simp

theorem Inv.abandonVtx {v : ι} (h : Inv V deps ⟨e, st⟩) :
    Inv V deps (.push (e.abandonVtx v) st) :=
  h.notifyBlocked nofun

theorem Inv.issue {i : κ} {obs : Observed ι} {ph : Phase ι}
    (h : Inv V deps ⟨e, .update i obs ph :: st⟩) (hph : ph.early = false) :
    Inv V deps (.push (e.issue V i obs) st) := by
  obtain ⟨-, -, -, hadded⟩ := h.frames _ (List.mem_cons_self _ _)
  exact (h.rephase (markPhase_ok (V.txs i)) ((markPhase_early _).trans hph.symm)).notifyBlocked
    fun _ => ⟨i, hadded hph, rfl⟩

theorem Inv.resume {i : κ} {obs : Observed ι} {ph : Phase ι} (err polled : Bool)
    (h : Inv V deps ⟨e, .update i obs ph :: st⟩) :
    Inv V deps (.push (e.resume V i obs ph err polled) st) := by
  have hpop := h.pop
  cases ph with
  | batchInvalid => refine Inv.abandonVtx ?_; exact hpop.congr rfl rfl rfl
  | batchReissue late =>
    obtain ⟨-, -, ⟨htx, hep, hv, hlate⟩, -⟩ := h.frames _ (List.mem_cons_self _ _)
    simp only [Transitive.resume]
    split
    · exact hpop.congr rfl rfl rfl
    · split
      · refine Inv.abandonVtx ?_; exact hpop.congr rfl rfl rfl
      · exact h.rephase ⟨htx, hep, hv, Nat.le_of_not_lt fun hlt => by simp_all⟩ rfl
  | consensusAdd =>
    cases err
    · exact h.added
    · exact hpop.congr rfl rfl rfl
  | sample =>
    have h' : Inv V deps ⟨{ e with requestID := e.requestID + 1 }, .update i obs .sample :: st⟩ :=
      h.congr rfl rfl rfl
    simp only [Transitive.resume]
    split
    · exact h'.rephase trivial rfl
    · exact h'.issue rfl
  | pushQuery => exact h.issue rfl
  | markIssued rest => exact h.rephase (markPhase_ok rest) (markPhase_early rest)
  | updateMissing => exact h.rephase trivial rfl
  | repoll => exact hpop.congr rfl rfl rfl

variable [DecidableEq κ]

omit [DecidableEq ι] in
theorem Inv.setAbandoned {k : κ} (P : List ι) (h : Inv V deps ⟨e, st⟩) :
    Inv V deps ⟨{ e.setIssuer k { e.issuers k with abandoned := true } with pending := P }, st⟩ :=
  have hiss : ∀ j, ((e.setIssuer k { e.issuers k with abandoned := true }).issuers j).issued =
      (e.issuers j).issued := fun j => update_apply_eq _ k j Issuer.issued rfl
  have hdeps : ∀ j, ((e.setIssuer k { e.issuers k with abandoned := true }).issuers j).vtxDeps =
      (e.issuers j).vtxDeps := fun j => update_apply_eq _ k j Issuer.vtxDeps rfl
  h.of_issuers rfl rfl (fun j => by rw [hdeps]; exact List.Subset.refl _)
    (fun j p hp hp' => absurd hp (by rwa [hdeps] at hp'))
    (fun j hj => (hiss j).trans hj) (fun j hj => .inl ((hiss j).symm.trans hj))

theorem Inv.abandon {k : κ} (h : Inv V deps ⟨e, st⟩) : Inv V deps (.push (e.abandon V k) st) := by
  cases hk : (e.issuers k).abandoned
  · rw [Transitive.abandon_of_not_abandoned V e k hk]
    exact (h.setAbandoned _).abandonVtx
  · rw [Transitive.abandon_of_abandoned V e k hk]
    exact h

theorem Inv.notifyAbandon {v : ι} {k : κ} {rest : List κ}
    (h : Inv V deps ⟨e, .notify false v (k :: rest) :: st⟩) :
    Inv V deps (.push (e.abandon V k) (.notify false v rest :: st)) :=
  h.renotify.abandon

theorem Inv.fulfillTr {i : κ} {id : ι} (h : Inv V deps ⟨e, st⟩) :
    Inv V deps (.push (e.fulfillTr i id) st) :=
  Inv.enter (h.of_issuers rfl rfl (fun j => by rw [e.fulfillTr_vtxDeps i id]; exact List.Subset.refl _)
    (fun j p hp hp' => absurd hp (by rwa [e.fulfillTr_vtxDeps i id] at hp'))
    (fun j hj => (e.fulfillTr_issued i id j).trans hj)
    (fun j hj => .inl ((e.fulfillTr_issued i id j).symm.trans hj)))

theorem Inv.fulfillVtx {v : ι} {k : κ} {rest : List κ}
    (h : Inv V deps ⟨e, .notify true v (k :: rest) :: st⟩) :
    Inv V deps (.push (e.fulfillVtx k v) (.notify true v rest :: st)) := by
  have hadded := h.fulfilled_added ((h.frames _ (List.mem_cons_self _ _)) rfl)
  have hiss := e.fulfillVtx_issued k v
  refine Inv.enter (h.renotify.of_issuers rfl rfl (fun j => ?_) (fun j p hp hp' => ?_)
    (fun j hj => (hiss j).trans hj) (fun j hj => .inl ((hiss j).symm.trans hj)))
  · rw [e.fulfillVtx_vtxDeps]
    split
    · subst_vars; exact List.erase_subset _ _
    · exact List.Subset.refl _
  · rw [e.fulfillVtx_vtxDeps] at hp'
    split at hp'
    · subst_vars
      by_cases hpv : p = v
      · exact hpv ▸ hadded
      · exact absurd ((List.mem_erase_of_ne hpv).2 hp) hp'
    · exact absurd hp hp'

theorem Inv.pass {i : κ} {vi : Bool} {obs : Observed ι} (h : Inv V deps ⟨e, st⟩)
    (hg : GuardOk (e.issuers i) e.errored vi) : Inv V deps ⟨e.pass V i vi obs, st⟩ := by
  obtain ⟨-, hnot, hdeps, -⟩ := hg
  have h₁ : Inv V deps ⟨{ e.setIssuer i { e.issuers i with issued := true } with
      pending := e.pending.erase (V.vtxID i) }, st⟩ := by
    have hd : ∀ j, ((e.setIssuer i { e.issuers i with issued := true }).issuers j).vtxDeps =
        (e.issuers j).vtxDeps := fun j => update_apply_eq _ i j Issuer.vtxDeps rfl
    refine h.of_issuers rfl rfl (fun j => by rw [hd]; exact List.Subset.refl _)
      (fun j p hp hp' => absurd hp (by rwa [hd] at hp')) (fun j hj => ?_) (fun j hj => ?_)
    · by_cases hji : j = i
      · subst hji; simp
      · simpa [Function.update_noteq hji] using hj
    · by_cases hji : j = i
      · subst hji; exact .inr hdeps
      · exact .inl (by simpa [Function.update_noteq hji] using hj)
  show Inv V deps ⟨_, [] ++ st⟩
  refine h₁.record (fun j hj => ?_) rfl (by simp [AfterAdd])
    (fun v hv => h₁.taken v (by simpa using hv)) (by simp)
  obtain rfl : j = i := by simpa using hj.symm
  refine ⟨by simp, fun hm => ?_⟩
  obtain ⟨ev, hev, hq⟩ := List.mem_filterMap.1 hm
  cases ev <;> simp only [Event.passedBy, Option.some.injEq, reduceCtorEq] at hq
  subst hq
  exact absurd (h.passed_issued _ _ _ _ _ hev) (by simp [hnot])

theorem update_cases (i : κ) (vi : Bool) (obs : Observed ι) :
    e.update V i vi obs = (e, []) ∨
    GuardOk (e.issuers i) e.errored vi ∧
      (e.update V i vi obs = ({ e.pass V i vi obs with errored := true }, []) ∨
       (∃ ph, PhaseOk V i obs ph ∧ ph.early = true ∧
         e.update V i vi obs = (e.pass V i vi obs, [.update i obs ph])) ∨
       e.update V i vi obs =
         { e.pass V i vi obs with abandonedVertices := true }.abandonVtx (V.vtxID i)) := by
  by_cases hg : GuardOk (e.issuers i) e.errored vi
  · obtain ⟨ha, hi, hd, hu, rfl, he⟩ := hg
    refine .inr ⟨⟨ha, hi, hd, hu, rfl, he⟩, ?_⟩
    generalize hr : e.update V i false obs = r
    simp only [Transitive.update, ha, hi, hd, hu, he, List.isEmpty_nil, Bool.not_true,
      Bool.or_self, Bool.false_eq_true, ↓reduceIte] at hr
    by_cases h1 : obs.txsErr = true
    · rw [if_pos h1] at hr
      exact .inl hr.symm
    rw [if_neg h1] at hr
    by_cases h2 : obs.epochErr = true
    · rw [if_pos h2] at hr
      exact .inl hr.symm
    rw [if_neg h2] at hr
    by_cases h3 : ((V.txs i).filter obs.verify).length ≠ (V.txs i).length
    · rw [if_pos h3] at hr
      exact .inr (.inl ⟨.batchInvalid, trivial, rfl, hr.symm⟩)
    rw [if_neg h3] at hr
    have hv := List.filter_length_eq_length.1 (not_not.1 h3)
    by_cases h4 : obs.epoch ≠ obs.currentEpoch ∧
        ((V.txs i).filter obs.verify).filter (fun t => !obs.processing t) ≠ []
    · rw [if_pos h4] at hr
      exact .inr (.inl ⟨.batchReissue _, ⟨by simpa using h1, by simpa using h2, hv, by simp⟩,
        rfl, hr.symm⟩)
    rw [if_neg h4] at hr
    by_cases h5 : obs.currentEpoch < obs.epoch
    · rw [if_pos h5] at hr
      exact .inr (.inr hr.symm)
    rw [if_neg h5] at hr
    exact .inr (.inl ⟨.consensusAdd, ⟨by simpa using h1, by simpa using h2, hv,
      Nat.le_of_not_lt h5⟩, rfl, hr.symm⟩)
  · refine .inl (if_pos ?_)
    simp only [GuardOk, not_and_or] at hg
    rcases hg with h | h | h | h | h | h <;> simp_all

theorem Inv.begin {i : κ} {vi : Bool} {obs : Observed ι} {ph : Phase ι}
    (h : Inv V deps ⟨e, .enter i :: st⟩) (hg : GuardOk (e.issuers i) e.errored vi)
    (hph : PhaseOk V i obs ph) (hearly : ph.early = true) :
    Inv V deps ⟨e.pass V i vi obs, .update i obs ph :: st⟩ := by
  have hnot : (e.issuers i).issued = false := hg.2.1
  have hp : Inv V deps ⟨e.pass V i vi obs, _⟩ := h.pass hg
  refine hp.restack (List.forall_mem_cons.2 ⟨⟨by simp [Transitive.pass],
      ⟨_, _, _, by simp [Transitive.pass], hg⟩, hph, by simp [hearly]⟩,
      fun f hf => hp.frames f (.tail _ hf)⟩) (List.nodup_cons.2 ⟨fun hm => ?_, ?_⟩)
    (fun j obs' ph' hf hph' => ?_)
  · obtain ⟨f, hf, hfi⟩ := List.mem_filterMap.1 hm
    cases f <;> simp only [Frame.running, Option.some.injEq, reduceCtorEq] at hfi
    subst hfi
    exact absurd (h.frames _ (.tail _ hf)).1 (by simp [hnot])
  · simpa using h.frames_nodup
  · rcases List.mem_cons.1 hf with hf | hf
    · cases hf
      intro hi
      have := h.added_issued (by simpa [Transitive.pass] using hi)
      simp [hnot] at this
    · exact hp.early j obs' ph' (.tail _ hf) hph'

theorem Inv.update {i : κ} {vi : Bool} {obs : Observed ι}
    (h : Inv V deps ⟨e, .enter i :: st⟩) : Inv V deps (.push (e.update V i vi obs) st) := by
  rcases update_cases i vi obs with hu | ⟨hg, hu | ⟨ph, hph, hearly, hu⟩ | hu⟩ <;> rw [hu]
  · exact h.pop
  · exact ((h.pass hg).pop).congr rfl rfl rfl
  · exact h.begin hg hph hearly
  · refine Inv.abandonVtx ?_
    exact ((h.pass hg).pop).congr rfl rfl rfl

theorem Inv.step {c c' : Config κ ι} (h : Inv V deps c) (hs : Step V c c') : Inv V deps c' := by
  cases hs with
  | call cl _ =>
    cases cl with
    | fulfillTr i id => exact h.fulfillTr
    | abandon i => exact h.abandon
    | update i => exact h.enter
  | update vi obs => exact h.update
  | resume err polled => exact h.resume err polled
  | @notify e st f v k rest =>
    cases f
    · exact h.notifyAbandon
    · exact h.fulfillVtx
  | drop => exact h.pop

theorem Inv.reach {c c' : Config κ ι} (h : Inv V deps c)
    (hr : Relation.ReflTransGen (Step V) c c') : Inv V deps c' := by
  induction hr with
  | refl => exact h
  | tail _ hs ih => exact ih.step hs

end step

end Gecko.Avalanche
