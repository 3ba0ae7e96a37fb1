import Mathlib.Logic.Function.Basic
import Mathlib.Logic.Relation

/-! # The vertex issuer (`snow/engine/avalanche/issuer.go`)

Issuers share the engine's `vtxBlocked` blocker, and call collaborators (`Consensus.Add`,
`batch`, `trBlocked`, `Validators`, `Sender`, `repoll`) that may call back into any issuer.
A configuration is the engine's state with the stack of calls in progress. A step runs the
call on top to its next collaborator call, lets the collaborator call in or return, or
moves a running `vtxBlocked.Fulfill`/`Abandon` to its next waiting issuer. The queries an
`Update` makes before its first collaborator call (`VertexIssued`, `Txs`, `Verify`,
`TransitionProcessing`, `Epoch`) do not call back and are answered arbitrarily.
-/

namespace Gecko.Avalanche

/-- `issuer`, without its engine and its vertex. -/
structure Issuer (ι : Type) where
  issued : Bool
  abandoned : Bool
  vtxDeps : List ι
  unfulfilledDeps : List ι

/-- The issuers' vertices: their IDs and their txs. -/
structure Vertices (κ ι : Type) where
  vtxID : κ → ι
  txs : κ → List ι

/-- What an `Update` reads from its guard to its first collaborator call. -/
structure Observed (ι : Type) where
  txsErr : Bool
  verify : ι → Bool
  processing : ι → Bool
  epochErr : Bool
  epoch : Nat
  currentEpoch : Nat

/-- The calls the safety of issuance is about: `Update` passing its guard (with what it
read there), `Consensus.Add` succeeding, and `vtxBlocked.Fulfill` and `Abandon`. -/
inductive Event (κ ι : Type) where
  | passed (i : κ) (entry : Issuer ι) (errored vertexIssued : Bool) (obs : Observed ι)
  | added (i : κ)
  | fulfilled (v : ι)
  | abandoned (v : ι)

/-- The part of `Transitive` the issuers use, and the history of their calls. -/
structure Transitive (κ ι : Type) where
  issuers : κ → Issuer ι
  pending : List ι
  errored : Bool
  abandonedVertices : Bool
  requestID : Nat
  vtxBlocked : ι → List κ
  log : List (Event κ ι)

/-- The collaborator call an `Update` is in. -/
inductive Phase (ι : Type) where
  | batchInvalid
  | batchReissue (late : Bool)
  | consensusAdd
  | sample
  | pushQuery
  | markIssued (rest : List ι)
  | updateMissing
  | repoll

inductive Frame (κ ι : Type) where
  /-- `Update` called, its guard not yet run. -/
  | enter (i : κ)
  | update (i : κ) (obs : Observed ι) (ph : Phase ι)
  /-- `vtxBlocked.Fulfill(v)` (or `Abandon(v)`), with the waiting issuers left to notify. -/
  | notify (fulfill : Bool) (v : ι) (rest : List κ)

/-- The calls a collaborator, or the engine, may make into an issuer. -/
inductive Call (κ ι : Type) where
  | fulfillTr (i : κ) (id : ι)
  | abandon (i : κ)
  | update (i : κ)

structure Config (κ ι : Type) where
  eng : Transitive κ ι
  stack : List (Frame κ ι)

variable {κ ι : Type}

theorem update_apply_eq [DecidableEq κ] {β : Type} (is : κ → Issuer ι) (k j : κ) {s : Issuer ι}
    (g : Issuer ι → β) (hs : g s = g (is k)) : g (Function.update is k s j) = g (is j) := by
  by_cases hj : j = k
  · subst hj; simpa
  · rw [Function.update_noteq hj]

namespace Transitive

def record (e : Transitive κ ι) (ev : Event κ ι) : Transitive κ ι := { e with log := e.log ++ [ev] }

/-- The loop marking the vertex's transitions issued, from `txs` on. -/
def markPhase : List ι → Phase ι
  | [] => .updateMissing
  | _ :: rest => .markIssued rest

@[simp] theorem record_issuers (e : Transitive κ ι) (ev : Event κ ι) :
    (e.record ev).issuers = e.issuers := rfl
@[simp] theorem record_log (e : Transitive κ ι) (ev : Event κ ι) :
    (e.record ev).log = e.log ++ [ev] := rfl
@[simp] theorem record_vtxBlocked (e : Transitive κ ι) (ev : Event κ ι) :
    (e.record ev).vtxBlocked = e.vtxBlocked := rfl

section blocker

variable [DecidableEq ι]

/-- `vtxBlocked.Fulfill(v)` (`fulfill`) or `vtxBlocked.Abandon(v)`: the blocker takes the list
of the issuers waiting on `v` out of its map, then notifies each of them in turn. -/
def notifyBlocked (e : Transitive κ ι) (fulfill : Bool) (v : ι) :
    Transitive κ ι × List (Frame κ ι) :=
  ({ e.record (if fulfill then .fulfilled v else .abandoned v) with
      vtxBlocked := Function.update e.vtxBlocked v [] }, [.notify fulfill v (e.vtxBlocked v)])

def abandonVtx (e : Transitive κ ι) (v : ι) : Transitive κ ι × List (Frame κ ι) :=
  e.notifyBlocked false v

def fulfillVtxBlocked (e : Transitive κ ι) (v : ι) : Transitive κ ι × List (Frame κ ι) :=
  e.notifyBlocked true v

@[simp] theorem notifyBlocked_issuers (e : Transitive κ ι) (f : Bool) (v : ι) :
    (e.notifyBlocked f v).1.issuers = e.issuers := rfl

end blocker

variable [DecidableEq κ]

def setIssuer (e : Transitive κ ι) (i : κ) (s : Issuer ι) : Transitive κ ι :=
  { e with issuers := Function.update e.issuers i s }

@[simp] theorem setIssuer_issuers (e : Transitive κ ι) (i : κ) (s : Issuer ι) :
    (e.setIssuer i s).issuers = Function.update e.issuers i s := rfl
@[simp] theorem setIssuer_log (e : Transitive κ ι) (i : κ) (s : Issuer ι) :
    (e.setIssuer i s).log = e.log := rfl
@[simp] theorem setIssuer_vtxBlocked (e : Transitive κ ι) (i : κ) (s : Issuer ι) :
    (e.setIssuer i s).vtxBlocked = e.vtxBlocked := rfl

variable [DecidableEq ι]

/-- `FulfillVtx`; the `Update` it ends with is pushed. -/
def fulfillVtx (e : Transitive κ ι) (i : κ) (id : ι) : Transitive κ ι × List (Frame κ ι) :=
  let s := e.issuers i
  (e.setIssuer i { s with vtxDeps := s.vtxDeps.erase id }, [.enter i])

/-- `FulfillTr`. -/
def fulfillTr (e : Transitive κ ι) (i : κ) (id : ι) : Transitive κ ι × List (Frame κ ι) :=
  let s := e.issuers i
  (e.setIssuer i { s with unfulfilledDeps := s.unfulfilledDeps.erase id }, [.enter i])

section fields

variable (e : Transitive κ ι) (k : κ) (v : ι) (j : κ)

theorem fulfillVtx_issued : ((e.fulfillVtx k v).1.issuers j).issued = (e.issuers j).issued :=
  update_apply_eq _ k j Issuer.issued rfl
theorem fulfillVtx_abandoned :
    ((e.fulfillVtx k v).1.issuers j).abandoned = (e.issuers j).abandoned :=
  update_apply_eq _ k j Issuer.abandoned rfl
theorem fulfillTr_issued : ((e.fulfillTr k v).1.issuers j).issued = (e.issuers j).issued :=
  update_apply_eq _ k j Issuer.issued rfl
theorem fulfillTr_abandoned :
    ((e.fulfillTr k v).1.issuers j).abandoned = (e.issuers j).abandoned :=
  update_apply_eq _ k j Issuer.abandoned rfl
theorem fulfillTr_vtxDeps : ((e.fulfillTr k v).1.issuers j).vtxDeps = (e.issuers j).vtxDeps :=
  update_apply_eq _ k j Issuer.vtxDeps rfl
theorem fulfillVtx_vtxDeps : ((e.fulfillVtx k v).1.issuers j).vtxDeps =
    if j = k then (e.issuers k).vtxDeps.erase v else (e.issuers j).vtxDeps := by
  by_cases hj : j = k
  · subst hj; simp [fulfillVtx]
  · simp [fulfillVtx, hj]

end fields

variable (V : Vertices κ ι)

/-- `Abandon`. -/
def abandon (e : Transitive κ ι) (i : κ) : Transitive κ ι × List (Frame κ ι) :=
  let s := e.issuers i
  if s.abandoned then (e, [])
  else { e.setIssuer i { s with abandoned := true } with
    pending := e.pending.erase (V.vtxID i) }.abandonVtx (V.vtxID i)

/-- `Update` past its guard: the issuer is marked issued and leaves `pending`. -/
def pass (e : Transitive κ ι) (i : κ) (vertexIssued : Bool) (obs : Observed ι) :
    Transitive κ ι :=
  let s := e.issuers i
  ({ e.setIssuer i { s with issued := true } with
    pending := e.pending.erase (V.vtxID i) }).record (.passed i s e.errored vertexIssued obs)

/-- `Update`, from its guard to its first collaborator call. -/
def update (e : Transitive κ ι) (i : κ) (vertexIssued : Bool) (obs : Observed ι) :
    Transitive κ ι × List (Frame κ ι) :=
  let s := e.issuers i
  if s.abandoned || s.issued || !s.vtxDeps.isEmpty || !s.unfulfilledDeps.isEmpty ||
      vertexIssued || e.errored then (e, [])
  else
    let e := e.pass V i vertexIssued obs
    if obs.txsErr then ({ e with errored := true }, [])
    else
      let valid := (V.txs i).filter obs.verify
      let unissued := valid.filter fun t => !obs.processing t
      if obs.epochErr then ({ e with errored := true }, [])
      else if valid.length ≠ (V.txs i).length then (e, [.update i obs .batchInvalid])
      else if obs.epoch ≠ obs.currentEpoch ∧ unissued ≠ [] then
        (e, [.update i obs (.batchReissue (obs.currentEpoch < obs.epoch))])
      else if obs.currentEpoch < obs.epoch then
        { e with abandonedVertices := true }.abandonVtx (V.vtxID i)
      else (e, [.update i obs .consensusAdd])

/-- Notify the vertices waiting on this one, then mark its transitions issued. -/
def issue (e : Transitive κ ι) (i : κ) (obs : Observed ι) : Transitive κ ι × List (Frame κ ι) :=
  let r := e.fulfillVtxBlocked (V.vtxID i)
  (r.1, r.2 ++ [.update i obs (markPhase (V.txs i))])

/-- `Update`, from the return of a collaborator to its next call. `err` is the collaborator's
error, `polled` whether `polls.Add` took the request. -/
def resume (e : Transitive κ ι) (i : κ) (obs : Observed ι) :
    Phase ι → Bool → Bool → Transitive κ ι × List (Frame κ ι)
  | .batchInvalid, err, _ =>
    { e with errored := e.errored || err, abandonedVertices := true }.abandonVtx (V.vtxID i)
  | .batchReissue late, err, _ =>
    if err then ({ e with errored := true }, [])
    else if late then { e with abandonedVertices := true }.abandonVtx (V.vtxID i)
    else (e, [.update i obs .consensusAdd])
  | .consensusAdd, err, _ =>
    if err then ({ e with errored := true }, []) else (e.record (.added i), [.update i obs .sample])
  | .sample, err, polled =>
    let e := { e with requestID := e.requestID + 1 }
    if !err && polled then (e, [.update i obs .pushQuery]) else e.issue V i obs
  | .pushQuery, _, _ => e.issue V i obs
  | .markIssued rest, _, _ => (e, [.update i obs (markPhase rest)])
  | .updateMissing, _, _ => (e, [.update i obs .repoll])
  | .repoll, err, _ => ({ e with errored := e.errored || err }, [])

def call (e : Transitive κ ι) : Call κ ι → Transitive κ ι × List (Frame κ ι)
  | .fulfillTr i id => e.fulfillTr i id
  | .abandon i => e.abandon V i
  | .update i => (e, [.enter i])

theorem abandon_of_abandoned (e : Transitive κ ι) (i : κ)
    (h : (e.issuers i).abandoned = true) : e.abandon V i = (e, []) := if_pos h

theorem abandon_of_not_abandoned (e : Transitive κ ι) (i : κ)
    (h : (e.issuers i).abandoned = false) :
    e.abandon V i = { e.setIssuer i { e.issuers i with abandoned := true } with
      pending := e.pending.erase (V.vtxID i) }.abandonVtx (V.vtxID i) :=
  if_neg (by simp [h])

theorem abandon_issued (e : Transitive κ ι) (k j : κ) :
    ((e.abandon V k).1.issuers j).issued = (e.issuers j).issued := by
  cases hk : (e.issuers k).abandoned
  · rw [abandon_of_not_abandoned V e k hk]
    exact update_apply_eq _ k j Issuer.issued rfl
  · rw [abandon_of_abandoned V e k hk]

theorem abandon_vtxDeps (e : Transitive κ ι) (k j : κ) :
    ((e.abandon V k).1.issuers j).vtxDeps = (e.issuers j).vtxDeps := by
  cases hk : (e.issuers k).abandoned
  · rw [abandon_of_not_abandoned V e k hk]
    exact update_apply_eq _ k j Issuer.vtxDeps rfl
  · rw [abandon_of_abandoned V e k hk]

theorem abandon_abandoned (e : Transitive κ ι) {k j : κ}
    (hj : j = k ∨ (e.issuers j).abandoned = true) :
    ((e.abandon V k).1.issuers j).abandoned = true := by
  cases hk : (e.issuers k).abandoned
  · rw [abandon_of_not_abandoned V e k hk]
    by_cases hjk : j = k
    · subst hjk; simp [abandonVtx]
    · simpa [abandonVtx, Function.update_noteq hjk, hjk] using hj
  · rw [abandon_of_abandoned V e k hk]
    rcases hj with rfl | hj
    · exact hk
    · exact hj

omit [DecidableEq κ] in
theorem resume_issuers (e : Transitive κ ι) (i : κ) (obs : Observed ι) (ph : Phase ι)
    (err polled : Bool) : (e.resume V i obs ph err polled).1.issuers = e.issuers := by
  cases ph <;> simp only [resume] <;> (try split_ifs) <;> rfl

end Transitive

variable [DecidableEq κ] [DecidableEq ι]

/-- A call can come in when nothing runs, or when the running `Update` waits on a
collaborator. -/
def Frame.reentrant : Frame κ ι → Bool
  | .update .. => true
  | _ => false

def Config.push (r : Transitive κ ι × List (Frame κ ι)) (st : List (Frame κ ι)) : Config κ ι :=
  ⟨r.1, r.2 ++ st⟩

inductive Step (V : Vertices κ ι) : Config κ ι → Config κ ι → Prop
  | call {e : Transitive κ ι} {st : List (Frame κ ι)} (c : Call κ ι)
      (h : ∀ f ∈ st.head?, f.reentrant = true) : Step V ⟨e, st⟩ (.push (e.call V c) st)
  | update {e : Transitive κ ι} {st : List (Frame κ ι)} {i : κ} (vertexIssued : Bool)
      (obs : Observed ι) : Step V ⟨e, .enter i :: st⟩ (.push (e.update V i vertexIssued obs) st)
  | resume {e : Transitive κ ι} {st : List (Frame κ ι)} {i : κ} {obs : Observed ι}
      {ph : Phase ι} (err polled : Bool) :
      Step V ⟨e, .update i obs ph :: st⟩ (.push (e.resume V i obs ph err polled) st)
  | notify {e : Transitive κ ι} {st : List (Frame κ ι)} {f : Bool} {v : ι} {k : κ}
      {rest : List κ} :
      Step V ⟨e, .notify f v (k :: rest) :: st⟩
        (.push (if f then e.fulfillVtx k v else e.abandon V k) (.notify f v rest :: st))
  | drop {e : Transitive κ ι} {st : List (Frame κ ι)} {f : Bool} {v : ι} :
      Step V ⟨e, .notify f v [] :: st⟩ ⟨e, st⟩

/-- A start: fresh issuers, registered in `vtxBlocked` in any way, and nothing running. -/
structure Config.Start (c : Config κ ι) : Prop where
  fresh : ∀ i, (c.eng.issuers i).issued = false ∧ (c.eng.issuers i).abandoned = false
  log : c.eng.log = []
  stack : c.stack = []

end Gecko.Avalanche
