import Mathlib.Data.List.Lex
import Mathlib.Data.List.Sort
import Mathlib.GroupTheory.Perm.List
import Mathlib.Logic.Relation

/-! # Sorting operations (`vms/avm`: `sortOperationsWithSigners`, `isSortedAndUniqueOperations`)

The builder sorts a tx's operations with `sort.Sort`, swapping the signers in lockstep, and the
verifier checks the order with `utils.IsSortedAndUnique`. Both compare two operations by their
bytes under the codec, and an operation that does not marshal is never `Less`. Bytes are compared
as unsigned numbers, so we keep them as `Nat`s.
-/

namespace Gecko.Avm

open Relation

/-! ## Swapping two positions -/

section swap

variable {α β : Type}

/-- `o[j], o[i] = o[i], o[j]`; Go panics on an index out of range, where this leaves the list. -/
def swapAt (l : List α) (i j : Nat) : List α :=
  match l[i]?, l[j]? with
  | some a, some b => (l.set j a).set i b
  | _, _ => l

variable {l : List α} {i j : Nat}

theorem swapAt_of_lt (hi : i < l.length) (hj : j < l.length) :
    swapAt l i j = (l.set j l[i]).set i l[j] := by
  simp [swapAt, List.getElem?_eq_getElem hi, List.getElem?_eq_getElem hj]

theorem swapAt_of_not_lt (h : ¬(i < l.length ∧ j < l.length)) : swapAt l i j = l := by
  rw [not_and_or, not_lt, not_lt] at h
  rcases h with h | h <;> simp [swapAt, List.getElem?_eq_none h]

@[simp] theorem length_swapAt (l : List α) (i j : Nat) : (swapAt l i j).length = l.length := by
  unfold swapAt; split <;> simp

theorem swapAt_cons (x : α) (l : List α) (i j : Nat) :
    swapAt (x :: l) (i + 1) (j + 1) = x :: swapAt l i j := by
  simp only [swapAt, List.getElem?_cons_succ]
  split <;> simp

theorem swapAt_eq_ofFn (hi : i < l.length) (hj : j < l.length) :
    swapAt l i j = List.ofFn (l.get ∘ Equiv.swap ⟨i, hi⟩ ⟨j, hj⟩) := by
  refine List.ext_getElem (by simp) fun k _ _ => ?_
  simp only [swapAt_of_lt hi hj, List.getElem_set, List.getElem_ofFn, Function.comp,
    Equiv.swap_apply_def, Fin.ext_iff, @eq_comm _ i k, @eq_comm _ j k]
  split_ifs <;> rfl

theorem swapAt_perm (l : List α) (i j : Nat) : (swapAt l i j).Perm l := by
  by_cases h : i < l.length ∧ j < l.length
  · rw [swapAt_eq_ofFn h.1 h.2]
    exact (Equiv.Perm.ofFn_comp_perm _ _).trans (by rw [List.ofFn_get])
  · rw [swapAt_of_not_lt h]

theorem zip_set (l : List α) (m : List β) (n : Nat) (a : α) (b : β) :
    (l.set n a).zip (m.set n b) = (l.zip m).set n (a, b) := by
  refine List.ext_getElem (by simp) fun k _ _ => ?_
  simp only [List.getElem_zip, List.getElem_set]
  split_ifs <;> rfl

theorem zip_swapAt (l : List α) (m : List β) (i j : Nat) (h : l.length = m.length) :
    (swapAt l i j).zip (swapAt m i j) = swapAt (l.zip m) i j := by
  by_cases hij : i < l.length ∧ j < l.length
  · have hz : i < (l.zip m).length ∧ j < (l.zip m).length := by simpa [h] using hij
    rw [swapAt_of_lt hij.1 hij.2, swapAt_of_lt (h ▸ hij.1) (h ▸ hij.2),
      swapAt_of_lt hz.1 hz.2, zip_set, zip_set]
    simp
  · rw [swapAt_of_not_lt hij, swapAt_of_not_lt (h ▸ hij),
      swapAt_of_not_lt (by simpa [h] using hij)]

/-- One swap of two positions in range. -/
def SwapsTo (l l' : List α) : Prop := ∃ i j, i < l.length ∧ j < l.length ∧ l' = swapAt l i j

theorem reflTransGen_swapsTo_of_perm {l l' : List α} (h : l.Perm l') :
    ReflTransGen SwapsTo l l' := by
  induction h with
  | nil => exact .refl
  | cons x _ ih =>
    refine ih.lift (x :: ·) fun a b ⟨i, j, hi, hj, hb⟩ => ⟨i + 1, j + 1, ?_, ?_, ?_⟩
    · simpa using hi
    · simpa using hj
    · rw [hb, swapAt_cons]
  | swap x y l => exact .single ⟨0, 1, by simp, by simp, by simp [swapAt]⟩
  | trans _ _ ih₁ ih₂ => exact ih₁.trans ih₂

end swap

/-! ## `sort.Interface`, `sort.Sort` and `utils.IsSortedAndUnique` -/

/-- A `sort.Interface` over the data it sorts: `Len`, `Less` and `Swap`. -/
structure SortInterface (α : Type) where
  len : α → Nat
  less : α → Nat → Nat → Bool
  swap : α → Nat → Nat → α

namespace SortInterface

variable {α : Type} (I : SortInterface α)

/-- `utils.IsSortedAndUnique`, which is not in the sources: from `Len() - 2` down to `0`, each
element is `Less` than the next. -/
def isSortedAndUniqueLoop (d : α) : Nat → Bool
  | 0 => true
  | i + 1 => I.less d i (i + 1) && isSortedAndUniqueLoop d i

def isSortedAndUnique (d : α) : Bool := I.isSortedAndUniqueLoop d (I.len d - 1)

/-- One `Swap` of two positions below `Len()`. -/
def Swaps (d d' : α) : Prop := ∃ i j, i < I.len d ∧ j < I.len d ∧ d' = I.swap d i j

/-- `sort.Sort`, which is not in the sources, by its contract: it changes the data only through
`Swap`, and on return no element is `Less` than the one before it. -/
def sort (d d' : α) : Prop :=
  ReflTransGen I.Swaps d d' ∧ ∀ k, k + 1 < I.len d' → I.less d' (k + 1) k = false

theorem isSortedAndUniqueLoop_iff (d : α) (n : Nat) :
    I.isSortedAndUniqueLoop d n = true ↔ ∀ k < n, I.less d k (k + 1) = true := by
  induction n with
  | zero => simp [isSortedAndUniqueLoop]
  | succ n ih =>
    simp only [isSortedAndUniqueLoop, Bool.and_eq_true, ih, Nat.forall_lt_succ_right]
    exact and_comm

theorem isSortedAndUnique_iff (d : α) :
    I.isSortedAndUnique d = true ↔ ∀ k, k + 1 < I.len d → I.less d k (k + 1) = true := by
  simp only [isSortedAndUnique, isSortedAndUniqueLoop_iff, Nat.lt_sub_iff_add_lt]

end SortInterface

/-! ## The two sorts of operations -/

section ops

variable {ω σ : Type} (codec : Nat → ω → Except String (List Nat)) (codecVersion : Nat)

/-- The `Less` of `innerSortOperation` and of `innerSortOperationsWithSigners`, which have one
body. An index out of range, where Go panics, is not `Less`. -/
def lessOps (ops : List ω) (i j : Nat) : Bool :=
  match ops[i]?, ops[j]? with
  | some iOp, some jOp =>
    match codec codecVersion iOp with
    | .error _ => false
    | .ok iBytes =>
      match codec codecVersion jOp with
      | .error _ => false
      | .ok jBytes => decide (iBytes < jBytes)
  | _, _ => false

def innerSortOperation : SortInterface (List ω) :=
  ⟨List.length, lessOps codec codecVersion, swapAt⟩

/-- The data is the pair of slices `ops` and `signers`; `Len` is the length of `ops`. -/
def innerSortOperationsWithSigners : SortInterface (List ω × List σ) :=
  ⟨fun d => d.1.length, fun d => lessOps codec codecVersion d.1,
    fun d i j => (swapAt d.1 i j, swapAt d.2 i j)⟩

/-- `sortOperations` sorts `ops` in place: it relates it to each slice `sort.Sort` may leave. -/
def sortOperations (ops r : List ω) : Prop :=
  (innerSortOperation codec codecVersion).sort ops r

def isSortedAndUniqueOperations (ops : List ω) : Bool :=
  (innerSortOperation codec codecVersion).isSortedAndUnique ops

/-- `sortOperationsWithSigners` sorts the two slices in place: it relates them to each pair of
slices `sort.Sort` may leave. -/
def sortOperationsWithSigners (ops : List ω) (signers : List σ) (r : List ω × List σ) : Prop :=
  (innerSortOperationsWithSigners codec codecVersion).sort (ops, signers) r

variable {codec codecVersion}

theorem lessOps_of_ok {ops : List ω} {i j : Nat} (hi : i < ops.length) (hj : j < ops.length)
    {x y : List Nat} (hx : codec codecVersion ops[i] = .ok x)
    (hy : codec codecVersion ops[j] = .ok y) :
    lessOps codec codecVersion ops i j = decide (x < y) := by
  simp [lessOps, List.getElem?_eq_getElem hi, List.getElem?_eq_getElem hj, hx, hy]

theorem isSortedAndUniqueOperations_of_not_less {ops : List ω}
    (hok : ∀ op ∈ ops, ∃ b, codec codecVersion op = .ok b)
    (hnd : (ops.map (codec codecVersion)).Nodup)
    (hs : ∀ k, k + 1 < ops.length → lessOps codec codecVersion ops (k + 1) k = false) :
    isSortedAndUniqueOperations codec codecVersion ops = true := by
  refine ((innerSortOperation codec codecVersion).isSortedAndUnique_iff ops).2
    fun k (hk : k + 1 < ops.length) => ?_
  have hk' : k < ops.length := by omega
  obtain ⟨x, hx⟩ := hok _ (List.getElem_mem hk')
  obtain ⟨y, hy⟩ := hok _ (List.getElem_mem hk)
  have hne : x ≠ y := fun he => by
    have h := List.inj_on_of_nodup_map hnd (List.getElem_mem hk') (List.getElem_mem hk)
      (by rw [hx, hy, he])
    have := (hnd.of_map _).getElem_inj_iff.1 h
    omega
  have hyx := hs k hk
  rw [lessOps_of_ok hk hk' hy hx, decide_eq_false_iff_not, not_lt] at hyx
  simpa [innerSortOperation, lessOps_of_ok hk' hk hx hy] using lt_of_le_of_ne hyx hne

/-! ## Runs of `sort.Sort` -/

theorem perm_of_zip_perm {l l' : List ω} {m m' : List σ} (hl : l.length = m.length)
    (hl' : l'.length = m'.length) (h : (l.zip m).Perm (l'.zip m')) : l.Perm l' := by
  have := h.map Prod.fst
  rwa [List.map_fst_zip _ _ hl.le, List.map_fst_zip _ _ hl'.le] at this

theorem swaps_aligned {d d' : List ω × List σ}
    (h : ReflTransGen (innerSortOperationsWithSigners codec codecVersion).Swaps d d')
    (hl : d.2.length = d.1.length) :
    d'.2.length = d'.1.length ∧ (d'.1.zip d'.2).Perm (d.1.zip d.2) := by
  induction h with
  | refl => exact ⟨hl, .refl _⟩
  | tail _ hs ih =>
    obtain ⟨i, j, -, -, rfl⟩ := hs
    refine ⟨by simpa [innerSortOperationsWithSigners] using ih.1, ?_⟩
    show (List.zip (swapAt _ i j) (swapAt _ i j)).Perm _
    rw [zip_swapAt _ _ _ _ ih.1.symm]
    exact (swapAt_perm _ _ _).trans ih.2

theorem swaps_of_swapsTo {d : List ω × List σ} (hl : d.2.length = d.1.length)
    {L : List (ω × σ)} (h : ReflTransGen SwapsTo (d.1.zip d.2) L) :
    ∃ d', ReflTransGen (innerSortOperationsWithSigners codec codecVersion).Swaps d d' ∧
      d'.2.length = d'.1.length ∧ d'.1.zip d'.2 = L := by
  induction h with
  | refl => exact ⟨d, .refl, hl, rfl⟩
  | tail _ hs ih =>
    obtain ⟨d', hd', hl', rfl⟩ := ih
    obtain ⟨i, j, hi, hj, rfl⟩ := hs
    have hz : (d'.1.zip d'.2).length = d'.1.length := by simp [hl']
    exact ⟨(swapAt d'.1 i j, swapAt d'.2 i j),
      hd'.tail ⟨i, j, show i < d'.1.length from hz ▸ hi, show j < d'.1.length from hz ▸ hj, rfl⟩,
      by simpa using hl', zip_swapAt _ _ _ _ hl'.symm⟩

theorem exists_sortOperationsWithSigners {ops : List ω} {signers : List σ}
    (hlen : signers.length = ops.length)
    (hok : ∀ op ∈ ops, ∃ b, codec codecVersion op = .ok b) :
    ∃ r, sortOperationsWithSigners codec codecVersion ops signers r := by
  let key : ω × σ → List Nat := fun p =>
    match codec codecVersion p.1 with
    | .ok b => b
    | .error _ => []
  obtain ⟨L, hp, hsorted⟩ :
      ∃ L, (ops.zip signers).Perm L ∧ L.Pairwise fun p q => key p ≤ key q :=
    ⟨_, (List.mergeSort_perm _ fun p q => decide (key p ≤ key q)).symm, by
      simpa using @List.sorted_mergeSort _ (fun p q => decide (key p ≤ key q))
        (fun a b c h₁ h₂ => by simp only [decide_eq_true_eq] at *; exact h₁.trans h₂)
        (fun a b => by simpa using le_total (key a) (key b)) (ops.zip signers)⟩
  obtain ⟨⟨o, s⟩, hd, hl, rfl⟩ :=
    @swaps_of_swapsTo _ _ codec codecVersion (ops, signers) hlen _ (reflTransGen_swapsTo_of_perm hp)
  change s.length = o.length at hl
  refine ⟨(o, s), hd, fun k (hk : k + 1 < o.length) => ?_⟩
  have hperm : o.Perm ops := perm_of_zip_perm hl.symm hlen.symm hp.symm
  obtain ⟨x, hx⟩ := hok _ (hperm.subset (List.getElem_mem (Nat.lt_of_succ_lt hk)))
  obtain ⟨y, hy⟩ := hok _ (hperm.subset (List.getElem_mem hk))
  have hk₀ : k < (o.zip s).length := by rw [List.length_zip]; omega
  have hk₁ : k + 1 < (o.zip s).length := by rw [List.length_zip]; omega
  have hxy := List.pairwise_iff_getElem.1 hsorted k (k + 1) hk₀ hk₁ (Nat.lt_succ_self k)
  simp only [List.getElem_zip, key, hx, hy] at hxy
  simpa [innerSortOperationsWithSigners, lessOps_of_ok hk (Nat.lt_of_succ_lt hk) hy hx] using hxy

/-- For operations that all marshal to bytes of their own and signers of the same length, the
two sorts agree: `sortOperationsWithSigners` can return, and whatever it returns keeps each
operation with its signers and passes `isSortedAndUniqueOperations`. -/
theorem sortOperationsWithSigners_aligned_sorted (ops : List ω) (signers : List σ)
    (hlen : signers.length = ops.length) (hok : ∀ op ∈ ops, ∃ b, codec codecVersion op = .ok b)
    (hnd : (ops.map (codec codecVersion)).Nodup) :
    (∃ r, sortOperationsWithSigners codec codecVersion ops signers r) ∧
      ∀ r, sortOperationsWithSigners codec codecVersion ops signers r →
        (r.1.zip r.2).Perm (ops.zip signers) ∧ r.2.length = r.1.length ∧
          isSortedAndUniqueOperations codec codecVersion r.1 = true := by
  refine ⟨exists_sortOperationsWithSigners hlen hok, fun r ⟨hrun, hs⟩ => ?_⟩
  obtain ⟨hl, hp⟩ := swaps_aligned hrun hlen
  have hperm : r.1.Perm ops := perm_of_zip_perm hl.symm hlen.symm hp
  exact ⟨hp, hl, isSortedAndUniqueOperations_of_not_less (fun op h => hok op (hperm.subset h))
    ((hperm.map _).nodup_iff.2 hnd) hs⟩

theorem sortOperationsWithSigners_singleton {op : ω} {signers : σ} {r : List ω × List σ}
    (h : sortOperationsWithSigners codec codecVersion [op] [signers] r) :
    r = ([op], [signers]) := by
  obtain ⟨hrun, -⟩ := h
  induction hrun with
  | refl => rfl
  | tail _ hs ih =>
    subst ih
    obtain ⟨i, j, hi, hj, rfl⟩ := hs
    change i < 1 at hi
    change j < 1 at hj
    obtain ⟨rfl, rfl⟩ : i = 0 ∧ j = 0 := by omega
    rfl

end ops

/-- A codec that writes an operation as its one byte. -/
def byteCodec (_ : Nat) (op : Nat) : Except String (List Nat) := .ok [op]

theorem threeOps_aligned_sorted :
    (∃ r, sortOperationsWithSigners byteCodec 0 [3, 1, 2] [30, 10, 20] r) ∧
      ∀ r, sortOperationsWithSigners byteCodec 0 [3, 1, 2] [30, 10, 20] r →
        (r.1.zip r.2).Perm ([3, 1, 2].zip [30, 10, 20]) ∧ r.2.length = r.1.length ∧
          isSortedAndUniqueOperations byteCodec 0 r.1 = true :=
  sortOperationsWithSigners_aligned_sorted [3, 1, 2] [30, 10, 20] rfl
    (fun op _ => ⟨[op], rfl⟩) (by simp [byteCodec])

end Gecko.Avm
