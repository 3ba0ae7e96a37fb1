import Gecko.Avm.Batching

/-! # Issuing txs through the VM (`vms/avm`: `IssueTx`, `Bootstrapping`, `Bootstrapped`)

`IssueTx` refuses txs until the engine has marked the VM bootstrapped, which `Bootstrapped`
does once every fx has accepted the call; a tx that then parses and verifies is buffered by
`issueTx`. Over every run, the engine receives exactly the txs `IssueTx` accepted, in order,
and none before bootstrapping.
-/

namespace Gecko.Avm

variable {τ ι : Type}

/-- The loop `Bootstrapping` and `Bootstrapped` run over the fxs: each fx is called in turn,
and the first error is returned; `fxs` holds what each call returns. -/
def notifyFxs : List (Except String Unit) → Except String Unit
  | [] => .ok ()
  | .error err :: _ => .error err
  | .ok () :: fxs => notifyFxs fxs

/-- The VM's batching, and whether the engine has marked the VM bootstrapped. -/
structure VMState (τ : Type) where
  bootstrapped : Bool
  batcher : Batcher τ

def VMState.init : VMState τ := ⟨false, Batcher.init⟩

/-- `Bootstrapped`: the VM is marked bootstrapped only when every fx accepted the call. -/
def Bootstrapped (vm : VMState τ) (fxs : List (Except String Unit)) :
    Except String Unit × VMState τ :=
  match notifyFxs fxs with
  | .error err => (.error err, vm)
  | .ok () => (.ok (), { vm with bootstrapped := true })

inductive IssueError where
  | bootstrapping
  | parse (err : String)
  | verify (err : String)

/-- `IssueTx`. `parsed` is what `parseTx` returns for the bytes, `verify` is
`verifyWithoutCacheWrites` at the current epoch, and `full` says whether `FlushTxs`, if
`issueTx` calls it, finds the engine's channel full. -/
def IssueTx (txID : τ → ι) (verify : τ → Except String Unit) (vm : VMState τ)
    (parsed : Except String τ) (full : Bool) : Except IssueError ι × VMState τ :=
  if !vm.bootstrapped then (.error .bootstrapping, vm)
  else match parsed with
    | .error err => (.error (.parse err), vm)
    | .ok tx =>
      match verify tx with
      | .error err => (.error (.verify err), vm)
      | .ok () => (.ok (txID tx), { vm with batcher := issueTx vm.batcher tx full })

/-! ## Runs of the VM -/

/-- What happens to the VM: the engine's `Bootstrapped` call, an `IssueTx` call, a run of the
timer's handler, the engine's `Pending` call, or the engine taking a message from the channel.
-/
inductive VMEvent (τ : Type) where
  | bootstrapped (fxs : List (Except String Unit))
  | issue (parsed : Except String τ) (full : Bool)
  | expire (full : Bool)
  | pending
  | receive

/-- A batching event on the VM's batcher, with the txs it hands to the engine. -/
def VMState.batch (vm : VMState τ) (ev : BatchEvent τ) : VMState τ × List τ :=
  ({ vm with batcher := (ev.apply vm.batcher).1 }, (ev.apply vm.batcher).2)

section run

variable (txID : τ → ι) (verify : τ → Except String Unit)

/-- One event: the new state, the txs `Pending` hands to the engine, and the tx `IssueTx`
accepted. -/
def VMEvent.apply : VMEvent τ → VMState τ → VMState τ × List τ × List τ
  | .bootstrapped fxs, vm => ((Bootstrapped vm fxs).2, [], [])
  | .issue parsed full, vm =>
    let r := IssueTx txID verify vm parsed full
    (r.2, [], if r.1.isOk then parsed.toOption.toList else [])
  | .expire full, vm => ((vm.batch (.expire full)).1, (vm.batch (.expire full)).2, [])
  | .pending, vm => ((vm.batch .pending).1, (vm.batch .pending).2, [])
  | .receive, vm => ((vm.batch .receive).1, (vm.batch .receive).2, [])

/-- Replay events in order: the final state, what `Pending` handed to the engine, and what
`IssueTx` accepted. -/
def runVM : VMState τ → List (VMEvent τ) → VMState τ × List τ × List τ
  | vm, [] => (vm, [], [])
  | vm, ev :: evs =>
    let r := runVM (ev.apply txID verify vm).1 evs
    (r.1, (ev.apply txID verify vm).2.1 ++ r.2.1, (ev.apply txID verify vm).2.2 ++ r.2.2)

theorem IssueTx_cases (vm : VMState τ) (parsed : Except String τ) (full : Bool) :
    ((IssueTx txID verify vm parsed full).1.isOk = false ∧
      (IssueTx txID verify vm parsed full).2 = vm) ∨
    ∃ tx, vm.bootstrapped = true ∧ parsed = .ok tx ∧
      (IssueTx txID verify vm parsed full).1.isOk = true ∧
      (IssueTx txID verify vm parsed full).2 = { vm with batcher := issueTx vm.batcher tx full } := by
  unfold IssueTx
  split
  · exact .inl ⟨rfl, rfl⟩
  · rename_i hb
    split
    · exact .inl ⟨rfl, rfl⟩
    · rename_i tx
      split
      · exact .inl ⟨rfl, rfl⟩
      · exact .inr ⟨tx, by simpa using hb, rfl, rfl, rfl⟩

theorem VMEvent.apply_handover (ev : VMEvent τ) (vm : VMState τ) :
    (ev.apply txID verify vm).2.1 ++ (ev.apply txID verify vm).1.batcher.txs =
      vm.batcher.txs ++ (ev.apply txID verify vm).2.2 := by
  cases ev with
  | bootstrapped fxs =>
    simp only [VMEvent.apply, Bootstrapped]
    split <;> simp
  | issue parsed full =>
    simp only [VMEvent.apply]
    rcases IssueTx_cases txID verify vm parsed full with ⟨hok, hvm⟩ | ⟨tx, -, rfl, hok, hvm⟩
    · simp [hok, hvm]
    · simp [hok, hvm, Except.toOption]
  | expire full => exact (BatchEvent.expire full).apply_handover vm.batcher
  | pending => exact BatchEvent.pending.apply_handover vm.batcher
  | receive => exact BatchEvent.receive.apply_handover vm.batcher

theorem VMEvent.apply_bootstrapped (ev : VMEvent τ) (vm : VMState τ) :
    (vm.bootstrapped = true → (ev.apply txID verify vm).1.bootstrapped = true) ∧
      ((ev.apply txID verify vm).2.2 ≠ [] → vm.bootstrapped = true) := by
  cases ev with
  | bootstrapped fxs =>
    simp only [VMEvent.apply, Bootstrapped]
    split <;> simp
  | issue parsed full =>
    simp only [VMEvent.apply]
    rcases IssueTx_cases txID verify vm parsed full with ⟨hok, hvm⟩ | ⟨tx, hb, -, -, hvm⟩
    · simp [hok, hvm]
    · simp [hvm, hb]
  | expire full => simp [VMEvent.apply, VMState.batch]
  | pending => simp [VMEvent.apply, VMState.batch]
  | receive => simp [VMEvent.apply, VMState.batch]

theorem runVM_bootstrapped : ∀ (vm : VMState τ) (evs : List (VMEvent τ)),
    vm.bootstrapped = true → (runVM txID verify vm evs).1.bootstrapped = true
  | _, [], h => h
  | vm, ev :: evs, h => runVM_bootstrapped _ evs ((ev.apply_bootstrapped txID verify vm).1 h)

theorem runVM_accepted : ∀ (vm : VMState τ) (evs : List (VMEvent τ)),
    (runVM txID verify vm evs).2.2 ≠ [] → (runVM txID verify vm evs).1.bootstrapped = true
  | _, [], h => absurd rfl h
  | vm, ev :: evs, h => by
    by_cases h1 : (ev.apply txID verify vm).2.2 = []
    · exact runVM_accepted _ evs (by simpa [runVM, h1] using h)
    · have hb := (ev.apply_bootstrapped txID verify vm).1 ((ev.apply_bootstrapped txID verify vm).2 h1)
      exact runVM_bootstrapped txID verify _ evs hb

theorem runVM_handover : ∀ (vm : VMState τ) (evs : List (VMEvent τ)),
    (runVM txID verify vm evs).2.1 ++ (runVM txID verify vm evs).1.batcher.txs =
      vm.batcher.txs ++ (runVM txID verify vm evs).2.2
  | vm, [] => by simp [runVM]
  | vm, ev :: evs => by
    simp only [runVM, List.append_assoc, runVM_handover _ evs]
    rw [← List.append_assoc, ev.apply_handover, List.append_assoc]

/-- Over every run of the VM, what `Pending` hands to the engine, followed by the buffer, is the
buffer at the start followed by the txs `IssueTx` accepted, in the order accepted; and
`IssueTx` accepts nothing until a `Bootstrapped` call in which every fx succeeded. -/
theorem issued_txs_reach_engine_in_order (vm : VMState τ) (evs : List (VMEvent τ)) :
    (runVM txID verify vm evs).2.1 ++ (runVM txID verify vm evs).1.batcher.txs =
        vm.batcher.txs ++ (runVM txID verify vm evs).2.2 ∧
      ((runVM txID verify vm evs).1.bootstrapped = false → (runVM txID verify vm evs).2.2 = []) :=
  ⟨runVM_handover txID verify vm evs, fun hb => by
    by_contra h
    simp [runVM_accepted txID verify vm evs h] at hb⟩

end run

end Gecko.Avm
