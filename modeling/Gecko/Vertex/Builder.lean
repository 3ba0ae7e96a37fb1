import Mathlib.Data.List.Sort

/-! # The vertex builder (`snow/engine/avalanche/vertex/builder.go`)

`Build` sorts the parents, the transitions (by hash) and the restrictions before it
serializes the vertex, so the vertex it returns does not depend on the order of its inputs.
IDs are compared by their bytes, which we take as the number they spell.
-/

namespace Gecko.Vertex

/-- Serialized bytes. -/
abbrev Bytes := List UInt8

/-- Modelled from the spec: the vertex codec version before epochs. -/
def noEpochTransitionsCodecVersion : Nat := 0

/-- Modelled from the spec: the vertex codec version from the Apricot fork on. -/
def apricotCodecVersion : Nat := 1

structure InnerVertex where
  version : Nat
  chainID : Nat
  height : Nat
  epoch : Nat
  parentIDs : List Nat
  transitions : List Bytes
  restrictions : List Nat
  deriving DecidableEq

structure StatelessVertex where
  inner : InnerVertex
  id : Nat
  bytes : Bytes
  deriving DecidableEq

/-- What `Build` calls: `innerStatelessVertex.Verify`, `Codec.Marshal` and
`hashing.ComputeHash256`. -/
structure Codec where
  verify : InnerVertex → Except String Unit
  marshal : Nat → InnerVertex → Except String Bytes
  computeHash256 : Bytes → Nat

/-- Modelled from the spec: `ids.SortIDs` sorts IDs in ascending byte order. -/
def sortIDs (l : List Nat) : List Nat := l.mergeSort fun a b => a ≤ b

/-- Modelled from the spec: `SortHashOf` sorts byte strings by the bytes of their hash. -/
def sortHashOf (hash : Bytes → Nat) (l : List Bytes) : List Bytes :=
  l.mergeSort fun a b => hash a ≤ hash b

def build (C : Codec) (chainID height epoch : Nat) (parentIDs : List Nat) (trs : List Bytes)
    (restrictions : List Nat) : Except String StatelessVertex :=
  let parentIDs := sortIDs parentIDs
  let trs := sortHashOf C.computeHash256 trs
  let restrictions := sortIDs restrictions
  let version := if epoch = 0 then noEpochTransitionsCodecVersion else apricotCodecVersion
  let innerVtx : InnerVertex := ⟨version, chainID, height, epoch, parentIDs, trs, restrictions⟩
  match C.verify innerVtx with
  | .error err => .error err
  | .ok () =>
    match C.marshal innerVtx.version innerVtx with
    | .error err => .error err
    | .ok vtxBytes => .ok ⟨innerVtx, C.computeHash256 vtxBytes, vtxBytes⟩

/-! ## The sorts give one list per multiset -/

section sort

variable {α : Type}

theorem map_mergeSort_sorted (key : α → Nat) (l : List α) :
    ((l.mergeSort fun a b => key a ≤ key b).map key).Sorted (· ≤ ·) := by
  have h : (l.mergeSort fun a b => key a ≤ key b).Pairwise
      fun a b => decide (key a ≤ key b) = true :=
    List.sorted_mergeSort (fun a b c h₁ h₂ => by simp only [decide_eq_true_eq] at *; omega)
      (fun a b => by simpa using Nat.le_total (key a) (key b)) l
  simpa [List.Sorted, List.pairwise_map] using h

theorem eq_of_map_eq (f : α → Nat) :
    ∀ {s s' : List α}, (∀ a ∈ s, ∀ b ∈ s', f a = f b → a = b) → s.map f = s'.map f → s = s'
  | [], [], _, _ => rfl
  | a :: s, b :: s', hinj, h => by
    simp only [List.map_cons, List.cons.injEq] at h
    rw [hinj a (.head _) b (.head _) h.1,
      eq_of_map_eq f (fun x hx y hy => hinj x (.tail _ hx) y (.tail _ hy)) h.2]
  | [], _ :: _, _, h => by simp at h
  | _ :: _, [], _, h => by simp at h

theorem mergeSort_key_eq_of_perm (key : α → Nat) {l l' : List α} (h : l.Perm l')
    (hinj : ∀ a ∈ l, ∀ b ∈ l, key a = key b → a = b) :
    l.mergeSort (fun a b => key a ≤ key b) = l'.mergeSort (fun a b => key a ≤ key b) := by
  have hp : (l.mergeSort fun a b => key a ≤ key b).Perm (l'.mergeSort fun a b => key a ≤ key b) :=
    ((List.mergeSort_perm _ _).trans h).trans (List.mergeSort_perm _ _).symm
  refine eq_of_map_eq key (fun a ha b hb => hinj a ?_ b ?_) (List.eq_of_perm_of_sorted
    (hp.map key) (map_mergeSort_sorted key l) (map_mergeSort_sorted key l'))
  · exact (List.mergeSort_perm _ _).subset ha
  · exact h.symm.subset ((List.mergeSort_perm _ _).subset hb)

end sort

theorem sortIDs_eq_of_perm {l l' : List Nat} (h : l.Perm l') : sortIDs l = sortIDs l' :=
  mergeSort_key_eq_of_perm (fun x => x) h fun _ _ _ _ => id

theorem sortHashOf_eq_of_perm (hash : Bytes → Nat) {l l' : List Bytes} (h : l.Perm l')
    (hinj : ∀ a ∈ l, ∀ b ∈ l, hash a = hash b → a = b) : sortHashOf hash l = sortHashOf hash l' :=
  mergeSort_key_eq_of_perm hash h hinj

/-! ## Canonicity -/

/-- `Build` on permutations of its lists returns what it returns on the lists: the same error,
or a vertex with the same bytes and ID. -/
theorem build_perm (C : Codec) (chainID height epoch : Nat) {parentIDs parentIDs' : List Nat}
    {trs trs' : List Bytes} {restrictions restrictions' : List Nat}
    (hp : parentIDs.Perm parentIDs') (ht : trs.Perm trs') (hr : restrictions.Perm restrictions')
    (hinj : ∀ a ∈ trs, ∀ b ∈ trs, C.computeHash256 a = C.computeHash256 b → a = b) :
    build C chainID height epoch parentIDs' trs' restrictions' =
      build C chainID height epoch parentIDs trs restrictions := by
  unfold build
  rw [sortIDs_eq_of_perm hp, sortHashOf_eq_of_perm _ ht hinj, sortIDs_eq_of_perm hr]

/-- A codec that accepts every vertex, serializes its transitions, and hashes by length. -/
def lengthCodec : Codec := ⟨fun _ => .ok (), fun _ v => .ok v.transitions.flatten, List.length⟩

theorem build_swapped :
    List.Perm [1, 2] [2, 1] ∧ List.Perm ([[9], [7, 8]] : List Bytes) [[7, 8], [9]] ∧
    (∀ a ∈ ([[9], [7, 8]] : List Bytes), ∀ b ∈ ([[9], [7, 8]] : List Bytes),
      lengthCodec.computeHash256 a = lengthCodec.computeHash256 b → a = b) ∧
    build lengthCodec 0 1 1 [2, 1] [[7, 8], [9]] [] =
      build lengthCodec 0 1 1 [1, 2] [[9], [7, 8]] [] :=
  ⟨by decide, by decide, by decide,
    build_perm lengthCodec 0 1 1 (by decide) (by decide) .nil (by decide)⟩

end Gecko.Vertex
