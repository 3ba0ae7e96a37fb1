import Gecko.Conflicts.Basic
import Mathlib.Data.List.Nodup

/-! # What notifying a blocker's entries does

When a waiting list holds each index at most once, `notify` moves each listed entry one step
and queues the txs of those that fire, in list order.
-/

namespace Gecko

variable {ι : Type}

/-- The txs queued by notifying the entries at `is`. -/
def fired (step : Entry ι → Entry ι × Bool) (is : List Nat) (es : List (Entry ι)) : List ι :=
  is.filterMap fun i => (es[i]?).bind fun e => if (step e).2 then some e.tx else none

theorem mem_fired {step : Entry ι → Entry ι × Bool} {is : List Nat} {es : List (Entry ι)}
    {x : ι} :
    x ∈ fired step is es ↔ ∃ i ∈ is, ∃ e, es[i]? = some e ∧ (step e).2 = true ∧ e.tx = x := by
  simp only [fired, List.mem_filterMap, Option.bind_eq_some]
  constructor
  · rintro ⟨i, hi, e, he, h⟩
    split at h
    · exact ⟨i, hi, e, he, by assumption, Option.some.inj h⟩
    · cases h
  · rintro ⟨i, hi, e, he, hf, rfl⟩
    exact ⟨i, hi, e, he, by simp [hf]⟩

theorem index_eq_of_tx_eq {es : List (Entry ι)} (h : (es.map Entry.tx).Nodup) {i j : Nat}
    {e f : Entry ι} (hi : es[i]? = some e) (hj : es[j]? = some f) (hef : e.tx = f.tx) :
    i = j := by
  obtain ⟨hi', rfl⟩ := List.getElem?_eq_some_iff.1 hi
  obtain ⟨hj', rfl⟩ := List.getElem?_eq_some_iff.1 hj
  exact (@List.Nodup.getElem_inj_iff _ _ h i (by simpa using hi') j (by simpa using hj')).1
    (by simpa using hef)

theorem fired_nodup {step : Entry ι → Entry ι × Bool} {is : List Nat} {es : List (Entry ι)}
    (his : is.Nodup) (hes : (es.map Entry.tx).Nodup) : (fired step is es).Nodup := by
  refine his.filterMap fun i j x hi hj => ?_
  simp only [Option.mem_def, Option.bind_eq_some, Option.ite_none_right_eq_some,
    Option.some.injEq] at hi hj
  obtain ⟨e, he, -, rfl⟩ := hi
  obtain ⟨f, hf, -, hfx⟩ := hj
  exact index_eq_of_tx_eq hes he hf hfx.symm

section notify

variable {step : Entry ι → Entry ι × Bool}

theorem notify_getElem? {is : List Nat} (h : is.Nodup) (es : List (Entry ι)) (j : Nat) :
    (notify step is es).1[j]? = if j ∈ is then es[j]?.map (fun e => (step e).1) else es[j]? := by
  induction is generalizing es with
  | nil => simp [notify]
  | cons i is ih =>
    rw [List.nodup_cons] at h
    simp only [notify]
    cases he : es[i]? with
    | none =>
      rw [ih h.2]
      by_cases hj : j = i
      · subst hj; simp [h.1, he]
      · simp [hj]
    | some e =>
      rw [ih h.2]
      by_cases hj : j = i
      · subst hj
        have hlt : j < es.length := (List.getElem?_eq_some_iff.1 he).1
        simp [h.1, he, List.getElem?_set, hlt]
      · simp [hj, List.getElem?_set_ne (Ne.symm hj)]

theorem notify_snd (htx : ∀ e, (step e).1.tx = e.tx) {is : List Nat} (h : is.Nodup)
    (es : List (Entry ι)) : (notify step is es).2 = fired step is es := by
  induction is generalizing es with
  | nil => rfl
  | cons i is ih =>
    rw [List.nodup_cons] at h
    simp only [notify, fired, List.filterMap_cons]
    cases he : es[i]? with
    | none => simpa using ih h.2 es
    | some e =>
      have hset : fired step is (es.set i (step e).1) = fired step is es :=
        List.filterMap_congr fun j hj => by
          rw [List.getElem?_set_ne (by rintro rfl; exact h.1 hj)]
      simp only [ih h.2, hset, Option.some_bind, htx]
      split <;> rfl

theorem notify_length (is : List Nat) (es : List (Entry ι)) :
    (notify step is es).1.length = es.length := by
  induction is generalizing es with
  | nil => rfl
  | cons i is ih =>
    simp only [notify]
    split
    · exact ih es
    · simp [ih]

end notify

namespace Blocker

variable [DecidableEq ι]

/-- Each waiting list holds indices of the arena, each at most once. -/
structure WellFormed (b : Blocker ι) : Prop where
  lt : ∀ id i, i ∈ b.waiting id → i < b.entries.length
  nodup : ∀ id, (b.waiting id).Nodup

variable {b : Blocker ι} {id : ι} {step : Entry ι → Entry ι × Bool}

@[simp] theorem release_waiting : (b.release id step).1.waiting = Function.update b.waiting id [] :=
  rfl

@[simp] theorem release_length : (b.release id step).1.entries.length = b.entries.length :=
  notify_length _ _

theorem release_getElem? (h : (b.waiting id).Nodup) (j : Nat) :
    (b.release id step).1.entries[j]? =
      if j ∈ b.waiting id then b.entries[j]?.map (fun e => (step e).1) else b.entries[j]? :=
  notify_getElem? h _ j

theorem release_snd (htx : ∀ e, (step e).1.tx = e.tx) (h : (b.waiting id).Nodup) :
    (b.release id step).2 = fired step (b.waiting id) b.entries :=
  notify_snd htx h _

theorem release_wellFormed (h : b.WellFormed) : (b.release id step).1.WellFormed where
  lt k i hi := by
    rw [release_length]
    by_cases hk : k = id
    · subst hk; simp at hi
    · exact h.lt k i (by simpa [hk] using hi)
  nodup k := by
    by_cases hk : k = id
    · subst hk; simp
    · simpa [hk] using h.nodup k

theorem release_tx (htx : ∀ e, (step e).1.tx = e.tx) (h : (b.waiting id).Nodup) :
    (b.release id step).1.entries.map Entry.tx = b.entries.map Entry.tx := by
  refine List.ext_getElem? fun j => ?_
  simp only [List.getElem?_map, release_getElem? h]
  split <;> cases b.entries[j]? <;> simp [htx]

@[simp] theorem register_waiting {k : Blockable ι} {e : Entry ι} (x : ι) :
    (b.register k e).1.waiting x =
      if x ∈ e.deps then b.waiting x ++ [b.entries.length] else b.waiting x := rfl

@[simp] theorem register_entries {k : Blockable ι} {e : Entry ι} :
    (b.register k e).1.entries = b.entries ++ [e] := rfl

@[simp] theorem register_snd {k : Blockable ι} {e : Entry ι} :
    (b.register k e).2 = if k.update e then [e.tx] else [] := rfl

theorem register_wellFormed {k : Blockable ι} {e : Entry ι} (h : b.WellFormed) :
    (b.register k e).1.WellFormed where
  lt x i hi := by
    simp only [register_waiting, register_entries, List.length_append, List.length_singleton] at hi ⊢
    split at hi
    · rcases List.mem_append.1 hi with hi | hi
      · exact Nat.lt_succ_of_lt (h.lt x i hi)
      · simp at hi; omega
    · exact Nat.lt_succ_of_lt (h.lt x i hi)
  nodup x := by
    simp only [register_waiting]
    split
    · refine List.nodup_append.2 ⟨h.nodup x, List.nodup_singleton _, ?_⟩
      intro i hi hj
      simp at hj; have := h.lt x i hi; omega
    · exact h.nodup x

end Blocker

end Gecko
