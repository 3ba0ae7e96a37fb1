import Gecko.Conflicts.Steps
import Mathlib.Logic.Relation

/-! # The client's runs

The snowstorm graph adds a tx once, accepts a processing tx once, never accepts two txs that
spend one input, and marks what each `Updateable` returns. A `Session` is the manager with
the client's statuses and the lists `Updateable` has returned so far.
-/

namespace Gecko

variable {ι : Type} [DecidableEq ι]

/-- The client's marking after `Updateable`: it accepts the acceptable txs, then rejects the
rejectable ones. -/
def mark (status : ι → Status) (acc rej : List ι) : ι → Status :=
  fun t => if t ∈ rej then .rejected else if t ∈ acc then .accepted else status t

structure Session (ι : Type) where
  c : Conflicts ι
  status : ι → Status
  acc : List ι
  rej : List ι

namespace Session

open Conflicts

variable (G : TxIndex ι)

/-- `New()`; no tx is decided yet. -/
def new : Session ι := ⟨Conflicts.new, fun _ => .processing, [], []⟩

def add (s : Session ι) (t : ι) : Session ι := { s with c := s.c.addTx G s.status t }

def accept (s : Session ι) (t : ι) : Session ι := { s with c := s.c.acceptTx G s.status t }

def updateable (o : MapOrder ι) (s : Session ι) : Session ι :=
  let r := s.c.updateable G o
  ⟨r.1, mark s.status r.2.1 r.2.2, s.acc ++ r.2.1, s.rej ++ r.2.2⟩

section fields

variable (s : Session ι) (t : ι) (o : MapOrder ι)

@[simp] theorem add_c : (s.add G t).c = s.c.addTx G s.status t := rfl
@[simp] theorem add_status : (s.add G t).status = s.status := rfl
@[simp] theorem add_acc : (s.add G t).acc = s.acc := rfl
@[simp] theorem add_rej : (s.add G t).rej = s.rej := rfl
@[simp] theorem accept_c : (s.accept G t).c = s.c.acceptTx G s.status t := rfl
@[simp] theorem accept_status : (s.accept G t).status = s.status := rfl
@[simp] theorem accept_acc : (s.accept G t).acc = s.acc := rfl
@[simp] theorem accept_rej : (s.accept G t).rej = s.rej := rfl
@[simp] theorem updateable_c : (s.updateable G o).c = (s.c.updateable G o).1 := rfl
@[simp] theorem updateable_status :
    (s.updateable G o).status = mark s.status (s.c.updateable G o).2.1 (s.c.updateable G o).2.2 :=
  rfl
@[simp] theorem updateable_acc : (s.updateable G o).acc = s.acc ++ (s.c.updateable G o).2.1 := rfl
@[simp] theorem updateable_rej : (s.updateable G o).rej = s.rej ++ (s.c.updateable G o).2.2 := rfl

end fields

/-- `Add` as the client calls it: a new tx, each of whose dependencies is accepted or
processing, that spends no input of a tx already returned as acceptable. -/
structure AddOk (s : Session ι) (t : ι) : Prop where
  fresh : t ∉ s.c.added
  deps : ∀ d ∈ G.dependencies t, s.status d = .accepted ∨ d ∈ s.c.txs
  inputs : ∀ a ∈ s.acc, ¬ Shares G a t

/-- `Accept` as the client calls it: a processing tx, accepted once, not returned as
rejectable, that spends no input of a tx accepted before. -/
structure AcceptOk (s : Session ι) (t : ι) : Prop where
  processing : t ∈ s.c.txs
  fresh : t ∉ s.c.called
  notRejected : t ∉ s.rej
  inputs : ∀ a ∈ s.c.called, ¬ Shares G a t

inductive Step : Session ι → Session ι → Prop
  | add {s : Session ι} {t : ι} : AddOk G s t → Step s (s.add G t)
  | accept {s : Session ι} {t : ι} : AcceptOk G s t → Step s (s.accept G t)
  | updateable {s : Session ι} (o : MapOrder ι) : Step s (s.updateable G o)

/-- The sessions the client's runs reach. -/
def Reach (s : Session ι) : Prop := Relation.ReflTransGen (Step G) new s

theorem add_eq (s : Session ι) (t : ι) : s.c.add G s.status (.tx t) = .ok (s.add G t).c := rfl

theorem accept_eq (s : Session ι) {t : ι} (h : t ∈ s.c.txs) :
    s.c.accept G s.status t = some (s.accept G t).c := if_pos h

end Session

end Gecko
