import Mathlib.Logic.Relation

/-! # Batching issued txs (`vms/avm`: `issueTx`, `FlushTxs`, `Pending`)

`issueTx` buffers a tx in `vm.txs`. The buffer is announced to the engine by a `PendingTxs`
message, which `FlushTxs` sends when the buffer reaches `batchSize` or when the timer armed by
its first tx fires; a send that finds the engine's channel full arms the timer again. The engine
answers the message with `Pending`, which takes the buffer and cancels the timer. So a non-empty
buffer always has the timer armed or a message on its way to the engine.
-/

namespace Gecko.Avm

def batchSize : Nat := 30

/-- The VM's buffer `vm.txs`, its timer, and the `PendingTxs` messages waiting in its channel
`vm.toEngine`. -/
structure Batcher (τ : Type) where
  txs : List τ
  timer : Bool
  inFlight : Nat

variable {τ : Type}

/-- `FlushTxs`; `full` says whether the send finds the engine's channel full. -/
def flushTxs (s : Batcher τ) (full : Bool) : Batcher τ :=
  let s := { s with timer := false }
  if s.txs.length ≠ 0 then
    if full then { s with timer := true }
    else { s with inFlight := s.inFlight + 1 }
  else s

def issueTx (s : Batcher τ) (tx : τ) (full : Bool) : Batcher τ :=
  let s := { s with txs := s.txs ++ [tx] }
  if s.txs.length = batchSize then flushTxs s full
  else if s.txs.length = 1 then { s with timer := true }
  else s

/-- `Pending`: it cancels the timer and takes the buffer. -/
def pending (s : Batcher τ) : Batcher τ × List τ :=
  ({ s with timer := false, txs := [] }, s.txs)

/-- The timer fires, so it is no longer armed, and its handler runs `FlushTxs`. The handler
runs under the context lock, and a `Cancel` made while it waits for the lock does not stop it,
so it may also run when the timer is not armed. -/
def expire (s : Batcher τ) (full : Bool) : Batcher τ :=
  flushTxs { s with timer := false } full

/-- The engine takes a message from the channel. -/
def receive (s : Batcher τ) : Batcher τ := { s with inFlight := s.inFlight - 1 }

def Batcher.init : Batcher τ := ⟨[], false, 0⟩

/-- The batching with the engine's side: the messages the engine has taken from the channel
and owes a `Pending` call for, and whether a message was sent since the last `Pending` call.
No step of the VM reads these. -/
structure BatchSys (τ : Type) where
  vm : Batcher τ
  owed : Nat
  sent : Bool

/-- The engine's side after a step of the VM: a message was sent when the channel grew. -/
def BatchSys.after (s : BatchSys τ) (vm : Batcher τ) : BatchSys τ :=
  ⟨vm, s.owed, s.sent || decide (s.vm.inFlight < vm.inFlight)⟩

def BatchSys.init : BatchSys τ := ⟨Batcher.init, 0, false⟩

/-- Any interleaving of the VM's and the engine's steps. The engine answers each message it
takes with `Pending`, and may call `Pending` at other times too. -/
inductive BatchStep : BatchSys τ → BatchSys τ → Prop
  | issue (s : BatchSys τ) (tx : τ) (full : Bool) : BatchStep s (s.after (issueTx s.vm tx full))
  | expire (s : BatchSys τ) (full : Bool) : BatchStep s (s.after (expire s.vm full))
  | pending (s : BatchSys τ) : BatchStep s ⟨(pending s.vm).1, s.owed - 1, false⟩
  | receive (s : BatchSys τ) : 0 < s.vm.inFlight → BatchStep s ⟨receive s.vm, s.owed + 1, s.sent⟩

def BatchReach (s : BatchSys τ) : Prop := Relation.ReflTransGen BatchStep BatchSys.init s

@[simp] theorem flushTxs_txs (s : Batcher τ) (full : Bool) : (flushTxs s full).txs = s.txs := by
  unfold flushTxs
  dsimp only
  split_ifs <;> rfl

@[simp] theorem issueTx_txs (s : Batcher τ) (tx : τ) (full : Bool) :
    (issueTx s tx full).txs = s.txs ++ [tx] := by
  unfold issueTx
  dsimp only
  split_ifs <;> simp

theorem flushTxs_announces (s : Batcher τ) (full : Bool) :
    s.inFlight ≤ (flushTxs s full).inFlight ∧
      (s.txs ≠ [] → (flushTxs s full).timer = true ∨ s.inFlight < (flushTxs s full).inFlight) := by
  unfold flushTxs
  dsimp only
  split_ifs with hn hf
  · exact ⟨Nat.le_refl _, fun _ => .inl rfl⟩
  · exact ⟨Nat.le_succ _, fun _ => .inr (Nat.lt_succ_self _)⟩
  · exact ⟨Nat.le_refl _, fun ht => absurd (List.length_eq_zero.1 (not_not.1 hn)) ht⟩

theorem issueTx_announces (s : Batcher τ) (tx : τ) (full : Bool) :
    s.inFlight ≤ (issueTx s tx full).inFlight ∧ ((issueTx s tx full).timer = true ∨
      s.inFlight < (issueTx s tx full).inFlight ∨
      s.txs ≠ [] ∧ (issueTx s tx full).timer = s.timer) := by
  unfold issueTx
  dsimp only
  split_ifs with hb h1
  · obtain ⟨hle, ha⟩ := flushTxs_announces { s with txs := s.txs ++ [tx] } full
    exact ⟨hle, (ha (by simp)).imp_right .inl⟩
  · exact ⟨Nat.le_refl _, .inl rfl⟩
  · exact ⟨Nat.le_refl _, .inr (.inr ⟨fun he => h1 (by simp [he]), rfl⟩)⟩

/-- A non-empty buffer has the timer armed or a message sent since the last `Pending` call, and
such a message is still in the channel or taken and not yet answered. -/
structure Announced (s : BatchSys τ) : Prop where
  armed_or_sent : s.vm.txs ≠ [] → s.vm.timer = true ∨ s.sent = true
  sent_waiting : s.sent = true → 0 < s.vm.inFlight + s.owed

theorem Announced.after {s : BatchSys τ} {vm : Batcher τ}
    (h : s.sent = true → 0 < s.vm.inFlight + s.owed) (hle : s.vm.inFlight ≤ vm.inFlight)
    (ha : vm.txs ≠ [] → vm.timer = true ∨ s.sent = true ∨ s.vm.inFlight < vm.inFlight) :
    Announced (s.after vm) where
  armed_or_sent hne := by
    rcases ha hne with ht | hs | hlt
    · exact .inl ht
    · exact .inr (by simp [BatchSys.after, hs])
    · exact .inr (by simp [BatchSys.after, hlt])
  sent_waiting hs := by
    simp only [BatchSys.after, Bool.or_eq_true, decide_eq_true_eq] at hs ⊢
    rcases hs with hs | hlt
    · have := h hs; omega
    · omega

theorem Announced.step {s s' : BatchSys τ} (h : Announced s) (hs : BatchStep s s') :
    Announced s' := by
  cases hs with
  | issue tx full =>
    obtain ⟨hle, ha⟩ := issueTx_announces s.vm tx full
    refine Announced.after h.sent_waiting hle fun _ => ?_
    rcases ha with ht | hlt | ⟨hne, ht⟩
    · exact .inl ht
    · exact .inr (.inr hlt)
    · exact (h.armed_or_sent hne).imp (ht ▸ ·) .inl
  | expire full =>
    obtain ⟨hle, ha⟩ := flushTxs_announces { s.vm with timer := false } full
    exact Announced.after h.sent_waiting hle fun hne =>
      (ha (by simpa [expire] using hne)).imp id .inr
  | pending => exact ⟨fun ht => absurd rfl ht, nofun⟩
  | receive hpos =>
    refine ⟨h.armed_or_sent, fun hs => ?_⟩
    have := h.sent_waiting hs
    simp only [Gecko.Avm.receive]
    omega

theorem BatchReach.announced {s : BatchSys τ} (h : BatchReach s) : Announced s := by
  induction h with
  | refl => exact ⟨fun h => absurd rfl h, nofun⟩
  | tail _ hs ih => exact ih.step hs

/-- In every state reachable by any interleaving of `issueTx`, the timer's firing, `Pending`
and the engine's receipt of messages, a non-empty buffer has the timer armed, or a `PendingTxs`
message sent since the last `Pending` call that is still in the channel or taken and not yet
answered. -/
theorem batching_never_stalls {s : BatchSys τ} (h : BatchReach s) :
    s.vm.txs ≠ [] → s.vm.timer = true ∨ (s.sent = true ∧ 0 < s.vm.inFlight + s.owed) := fun hne =>
  have ha := h.announced
  (ha.armed_or_sent hne).imp id fun hs => ⟨hs, ha.sent_waiting hs⟩

/-- One tx issued, then the timer fires and its handler sends the message: the timer is off
and the message is in the channel. -/
theorem sentBatch_announced :
    let s₁ := (BatchSys.init : BatchSys Nat).after (issueTx Batcher.init 5 false)
    let s := s₁.after (expire s₁.vm false)
    s.vm.timer = true ∨ (s.sent = true ∧ 0 < s.vm.inFlight + s.owed) :=
  batching_never_stalls (.tail (.single (.issue _ 5 false)) (.expire _ false)) (by decide)

/-! ## No tx is lost, handed over twice or reordered -/

/-- What happens to the VM's batching: `issueTx`, a run of the timer's handler, the engine's
`Pending` call, or the engine taking a message from the channel. -/
inductive BatchEvent (τ : Type) where
  | issue (tx : τ) (full : Bool)
  | expire (full : Bool)
  | pending
  | receive
  deriving DecidableEq, Repr

/-- One event: the new state, and the txs it hands to the engine. -/
def BatchEvent.apply : BatchEvent τ → Batcher τ → Batcher τ × List τ
  | .issue tx full, s => (issueTx s tx full, [])
  | .expire full, s => (Gecko.Avm.expire s full, [])
  | .pending, s => Gecko.Avm.pending s
  | .receive, s => (Gecko.Avm.receive s, [])

/-- The tx an event hands to `issueTx`. -/
def BatchEvent.issued : BatchEvent τ → List τ
  | .issue tx _ => [tx]
  | _ => []

/-- Replay events in order: the final state, and what `Pending` handed to the engine. -/
def runEvents : Batcher τ → List (BatchEvent τ) → Batcher τ × List τ
  | s, [] => (s, [])
  | s, ev :: evs =>
    let r := runEvents (ev.apply s).1 evs
    (r.1, (ev.apply s).2 ++ r.2)

theorem BatchStep.exists_event {s s' : BatchSys τ} (h : BatchStep s s') :
    ∃ ev : BatchEvent τ, (ev.apply s.vm).1 = s'.vm := by
  cases h with
  | issue tx full => exact ⟨.issue tx full, rfl⟩
  | expire full => exact ⟨.expire full, rfl⟩
  | pending => exact ⟨.pending, rfl⟩
  | receive => exact ⟨.receive, rfl⟩

theorem exists_events_of_steps {s s' : BatchSys τ} (h : Relation.ReflTransGen BatchStep s s') :
    ∃ evs : List (BatchEvent τ), (runEvents s.vm evs).1 = s'.vm := by
  induction h using Relation.ReflTransGen.head_induction_on with
  | refl => exact ⟨[], rfl⟩
  | head hs _ ih =>
    obtain ⟨ev, hev⟩ := hs.exists_event
    obtain ⟨evs, hevs⟩ := ih
    exact ⟨ev :: evs, by simp only [runEvents, hev, hevs]⟩

theorem BatchEvent.apply_handover (ev : BatchEvent τ) (s : Batcher τ) :
    (ev.apply s).2 ++ (ev.apply s).1.txs = s.txs ++ ev.issued := by
  cases ev <;> simp [BatchEvent.apply, BatchEvent.issued, Gecko.Avm.pending, Gecko.Avm.receive,
    Gecko.Avm.expire]

/-- Over every interleaving of `issueTx`, the timer's handler (whether the channel is full or
not), `Pending` and the engine's receipts, what `Pending` hands to the engine, followed by the
buffer, is the buffer at the start followed by the txs issued, in the order issued: no tx is
lost, handed over twice or reordered. -/
theorem batching_hands_over_in_order : ∀ (s : Batcher τ) (evs : List (BatchEvent τ)),
    (runEvents s evs).2 ++ (runEvents s evs).1.txs = s.txs ++ evs.flatMap BatchEvent.issued
  | s, [] => by simp [runEvents]
  | s, ev :: evs => by
    simp only [runEvents, List.append_assoc, batching_hands_over_in_order _ evs,
      List.flatMap_cons]
    rw [← List.append_assoc, ev.apply_handover, List.append_assoc]

end Gecko.Avm
