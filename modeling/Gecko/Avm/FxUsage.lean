import Mathlib.Logic.Relation
import Gecko.Avm.ManagedAsset

/-! # Which fxs an asset may use (`vms/avm`: `verifyFxUsage`)

`verifyFxUsage` answers from `assetToFxCache` when the asset has an entry there. Otherwise it
reads the tx that created the asset and caches the fxs it found among the tx's initial states,
but it only looks for the fx it was asked about: the entry holds that fx or nothing. An entry
is never wrong to approve, but it refuses every other fx of the asset until it is evicted.
The entry is an `ids.BitSet`, a `uint64`, so no fx of index 64 or more is ever approved.
-/

namespace Gecko.Avm

/-! ## `ids.BitSet` -/

/-- `ids.BitSet`, a `uint64`: `Add(i)` sets bit `i` and `Contains(i)` tests it. -/
abbrev BitSet := UInt64

/-- Go's `1 << i` on a `uint64`, which is `0` once `i ≥ 64` (`UInt64`'s own `<<<` would shift
by `i % 64`). -/
def BitSet.bit (i : Nat) : BitSet := ⟨1#64 <<< i⟩

def BitSet.add (bs : BitSet) (i : Nat) : BitSet := bs ||| BitSet.bit i

def BitSet.contains (bs : BitSet) (i : Nat) : Bool := bs &&& BitSet.bit i != 0

theorem BitSet.contains_eq (bs : BitSet) (i : Nat) : bs.contains i = bs.toBitVec.getLsbD i := by
  have h : bs.contains i = (bs.toBitVec &&& BitVec.twoPow 64 i != 0#64) := by
    rw [Bool.eq_iff_iff]
    simp only [BitSet.contains, bne_iff_ne, ne_eq]
    exact not_congr ⟨UInt64.toBitVec_eq_of_eq, UInt64.eq_of_toBitVec_eq⟩
  rw [h, BitVec.and_twoPow]
  cases hb : bs.toBitVec.getLsbD i
  · simp
  · have hi : i < 64 := BitVec.lt_of_getLsbD hb
    have nonzero : BitVec.twoPow 64 i ≠ 0#64 := fun h0 => by
      simpa [hi] using congrArg (BitVec.getLsbD · i) h0
    simp [nonzero]

theorem BitSet.lt_of_contains {bs : BitSet} {i : Nat} (h : bs.contains i = true) : i < 64 :=
  BitVec.lt_of_getLsbD (bs.contains_eq i ▸ h)

@[simp] theorem BitSet.contains_zero (i : Nat) : BitSet.contains 0 i = false := by
  simp [BitSet.contains_eq]

@[simp] theorem BitSet.contains_add (bs : BitSet) (i j : Nat) :
    (bs.add i).contains j = (bs.contains j || decide (j = i ∧ i < 64)) := by
  have h : (bs.add i).toBitVec = bs.toBitVec ||| BitVec.twoPow 64 i := rfl
  simp only [BitSet.contains_eq, h, BitVec.getLsbD_or, BitVec.getLsbD_twoPow]
  rw [Bool.decide_and, Bool.and_comm, decide_eq_decide.2 eq_comm]

/-! ## `verifyFxUsage` -/

/-- The fx set `verifyFxUsage` builds from an asset's initial states: the loop adds `fxID` for
each state of that fx. A state's `FxID` is a `uint32` compared with `uint32(fxID)`; the two
agree on every `fxID` below 64, and from 64 on the bit set holds nothing either way. -/
def fxIDsOf (fxID : Nat) (states : List Nat) : BitSet :=
  states.foldl (fun fxIDs fx => if fx = fxID then fxIDs.add fxID else fxIDs) 0

/-- `createAssetTx assetID` is the `FxID` of each initial state of the tx with that ID when it
is a `CreateAssetTx`, and `none` when it is another kind of tx. `fetched` is
`tx.Status().Fetched()` at the time of the call. -/
def verifyFxUsage (createAssetTx : Nat → Option (List Nat)) (cache : Nat → Option BitSet)
    (fetched : Bool) (fxID assetID : Nat) : Bool × (Nat → Option BitSet) :=
  match cache assetID with
  | some fxIDs => (fxIDs.contains fxID, cache)
  | none =>
    if !fetched then (false, cache)
    else match createAssetTx assetID with
      | none => (false, cache)
      | some states =>
        let fxIDs := fxIDsOf fxID states
        (fxIDs.contains fxID, Function.update cache assetID (some fxIDs))

theorem foldl_add_fxID (fxID g : Nat) :
    ∀ (states : List Nat) (acc : BitSet),
      (states.foldl (fun fxIDs fx => if fx = fxID then fxIDs.add fxID else fxIDs) acc).contains g =
        (acc.contains g || decide (g = fxID ∧ fxID < 64 ∧ fxID ∈ states))
  | [], acc => by simp
  | fx :: states, acc => by
    rw [List.foldl_cons, foldl_add_fxID fxID g states]
    by_cases h : fx = fxID
    · subst h
      by_cases hg : g = fx
      · subst hg; by_cases h64 : g < 64 <;> simp [h64]
      · simp [hg]
    · simp [h, Ne.symm h]

theorem fxIDsOf_contains (fxID : Nat) (states : List Nat) (g : Nat) :
    (fxIDsOf fxID states).contains g = decide (g = fxID ∧ fxID < 64 ∧ fxID ∈ states) := by
  rw [fxIDsOf, foldl_add_fxID]; simp

section cache

variable (createAssetTx : Nat → Option (List Nat))

theorem verifyFxUsage_hit {cache : Nat → Option BitSet} {assetID : Nat} {fxIDs : BitSet}
    (h : cache assetID = some fxIDs) (fetched : Bool) (fxID : Nat) :
    verifyFxUsage createAssetTx cache fetched fxID assetID = (fxIDs.contains fxID, cache) := by
  simp [verifyFxUsage, h]

theorem verifyFxUsage_miss {cache : Nat → Option BitSet} {assetID : Nat}
    {states : List Nat} (h : cache assetID = none) (hs : createAssetTx assetID = some states)
    (fxID : Nat) :
    verifyFxUsage createAssetTx cache true fxID assetID =
      (decide (fxID < 64 ∧ fxID ∈ states),
        Function.update cache assetID (some (fxIDsOf fxID states))) := by
  simp [verifyFxUsage, h, hs, fxIDsOf_contains]

theorem verifyFxUsage_cache (cache : Nat → Option BitSet) (fetched : Bool)
    (fxID assetID : Nat) :
    (verifyFxUsage createAssetTx cache fetched fxID assetID).2 = cache ∨
      cache assetID = none ∧ ∃ states, createAssetTx assetID = some states ∧
        (verifyFxUsage createAssetTx cache fetched fxID assetID).2 =
          Function.update cache assetID (some (fxIDsOf fxID states)) := by
  rcases hc : cache assetID with _ | fxIDs
  · rcases hs : createAssetTx assetID with _ | states
    · cases fetched <;> simp [verifyFxUsage, hc, hs]
    · cases fetched
      · simp [verifyFxUsage, hc]
      · exact .inr ⟨rfl, states, rfl, by rw [verifyFxUsage_miss _ hc hs]⟩
  · exact .inl (by rw [verifyFxUsage_hit _ hc])

theorem verifyFxUsage_true {cache : Nat → Option BitSet} {fetched : Bool} {fxID assetID : Nat}
    (h : (verifyFxUsage createAssetTx cache fetched fxID assetID).1 = true) :
    (∃ fxIDs, cache assetID = some fxIDs ∧ fxIDs.contains fxID = true) ∨
      fxID < 64 ∧ ∃ states, createAssetTx assetID = some states ∧ fxID ∈ states := by
  rcases hc : cache assetID with _ | fxIDs
  · rcases hs : createAssetTx assetID with _ | states
    · cases fetched <;> simp [verifyFxUsage, hc, hs] at h
    · cases fetched
      · simp [verifyFxUsage, hc] at h
      · rw [verifyFxUsage_miss _ hc hs] at h
        obtain ⟨h64, hm⟩ := of_decide_eq_true h
        exact .inr ⟨h64, states, rfl, hm⟩
  · rw [verifyFxUsage_hit _ hc] at h
    exact .inl ⟨fxIDs, rfl, h⟩

/-- The cache changes by `verifyFxUsage` calls, whatever the status of the asset's tx at the
time, and by the evictions of the LRU. -/
inductive FxStep : (Nat → Option BitSet) → (Nat → Option BitSet) → Prop
  | verify (cache fetched fxID assetID) :
      FxStep cache (verifyFxUsage createAssetTx cache fetched fxID assetID).2
  | evict (cache assetID) : FxStep cache (Function.update cache assetID none)

/-- The caches reachable from the empty LRU the VM starts with. -/
def FxReach (cache : Nat → Option BitSet) : Prop :=
  Relation.ReflTransGen (FxStep createAssetTx) (fun _ => none) cache

/-- An entry of an asset created by a `CreateAssetTx` that holds at most one fx, named by one of
the tx's states. -/
def EntryOk (assetID : Nat) (fxIDs : BitSet) : Prop :=
  ∃ states, createAssetTx assetID = some states ∧
    ∃ fxID, ∀ g, fxIDs.contains g = true → g = fxID ∧ fxID ∈ states

def CacheOk (cache : Nat → Option BitSet) : Prop :=
  ∀ assetID fxIDs, cache assetID = some fxIDs → EntryOk createAssetTx assetID fxIDs

theorem CacheOk.update {cache : Nat → Option BitSet} (h : CacheOk createAssetTx cache)
    {assetID : Nat} {entry : Option BitSet}
    (he : ∀ fxIDs, entry = some fxIDs → EntryOk createAssetTx assetID fxIDs) :
    CacheOk createAssetTx (Function.update cache assetID entry) := by
  intro a fxIDs ha
  by_cases hb : a = assetID
  · subst hb; exact he fxIDs (by simpa using ha)
  · exact h a fxIDs (by simpa [Function.update_noteq hb] using ha)

theorem CacheOk.step {cache cache' : Nat → Option BitSet} (h : CacheOk createAssetTx cache)
    (hs : FxStep createAssetTx cache cache') : CacheOk createAssetTx cache' := by
  cases hs with
  | verify fetched fxID assetID =>
    rcases verifyFxUsage_cache createAssetTx cache fetched fxID assetID with he | ⟨-, states, hs, he⟩
    · rwa [he]
    · rw [he]
      refine h.update createAssetTx fun fxIDs hf => ⟨states, hs, fxID, fun g hg => ?_⟩
      cases hf
      rw [fxIDsOf_contains] at hg
      obtain ⟨rfl, -, hm⟩ := of_decide_eq_true hg
      exact ⟨rfl, hm⟩
  | evict assetID => exact h.update createAssetTx nofun

theorem FxReach.cacheOk {cache : Nat → Option BitSet} (h : FxReach createAssetTx cache) :
    CacheOk createAssetTx cache := by
  induction h with
  | refl => exact fun _ _ h => nomatch h
  | tail _ hs ih => exact ih.step createAssetTx hs

theorem CacheOk.hit {cache : Nat → Option BitSet} (h : CacheOk createAssetTx cache)
    {assetID : Nat} {fxIDs : BitSet} (hc : cache assetID = some fxIDs) {f g : Nat}
    (hf : fxIDs.contains f = true) :
    (∃ states, createAssetTx assetID = some states ∧ f ∈ states) ∧
      (fxIDs.contains g = true → g = f) := by
  obtain ⟨states, hs, fxID, hok⟩ := h assetID fxIDs hc
  obtain ⟨rfl, hm⟩ := hok f hf
  exact ⟨⟨states, hs, hm⟩, fun hg => (hok g hg).1⟩

/-- On every reachable cache an approval is right: the fx's bit fits the `uint64` and the
asset's tx names the fx. But once the asset has an entry, at most one of its fxs is approved. -/
theorem fx_usage_sound {cache : Nat → Option BitSet} (hr : FxReach createAssetTx cache)
    (fetched : Bool) (assetID : Nat) :
    (∀ fxID, (verifyFxUsage createAssetTx cache fetched fxID assetID).1 = true →
      fxID < 64 ∧ ∃ states, createAssetTx assetID = some states ∧ fxID ∈ states) ∧
    (∀ fxIDs, cache assetID = some fxIDs → ∀ f g,
      (verifyFxUsage createAssetTx cache fetched f assetID).1 = true →
      (verifyFxUsage createAssetTx cache fetched g assetID).1 = true → f = g) := by
  have hok := hr.cacheOk
  refine ⟨fun fxID h => ?_, fun fxIDs hc f g hf hg => ?_⟩
  · rcases verifyFxUsage_true createAssetTx h with ⟨fxIDs, hc, hf⟩ | h
    · exact ⟨BitSet.lt_of_contains hf, (@CacheOk.hit createAssetTx _ hok _ _ hc _ fxID hf).1⟩
    · exact h
  · rw [verifyFxUsage_hit _ hc] at hf hg
    exact ((hok.hit createAssetTx hc hf).2 hg).symm

theorem verifyTransferOfUTXO_incompatible {ω : Type} {t : Transfer ω} {m : Managed ω}
    {e : UInt32} (h : verifyTransferOfUTXO { t with fxUsage := true } m e = .ok ()) :
    verifyTransferOfUTXO { t with fxUsage := false } m e = .error .incompatibleFx := by
  have h1 : t.fxFound = true := by by_contra h1; simp [verifyTransferOfUTXO, h1] at h
  have h2 : t.utxoAssetID = t.inAssetID := by by_contra h2; simp [verifyTransferOfUTXO, h1, h2] at h
  simp [verifyTransferOfUTXO, h1, h2]

theorem verifyOperation_incompatible {ω : Type} {o : Operation} {m : Managed ω} {e : UInt32}
    (h : verifyOperation { o with fxUsage := true } m e = .ok ()) :
    verifyOperation { o with fxUsage := false } m e = .error .incompatibleFx := by
  unfold verifyOperation at h ⊢
  split at h
  · cases h
  · rename_i hc
    have h1 : o.fxFound = true := by by_contra h1; simp [h1] at h
    simp only [hc, h1]
    rfl

/-- Two nodes judge a transfer or an operation of an asset whose tx names two fxs `f` and `g`:
one has no entry for the asset, the other's entry was stored by a query for `f`. Whatever the
rest of the transfer or operation of fx `g` (below 64, so that its bit fits the `uint64`), if it
passes its other checks the first node accepts it and the second refuses it as of an
incompatible fx. -/
theorem fx_usage_forgets {cache : Nat → Option BitSet} {assetID : Nat} {states : List Nat}
    (hc : cache assetID = none) (hs : createAssetTx assetID = some states) {f g : Nat}
    (hfg : f ≠ g) (hg : g ∈ states) (hg64 : g < 64) (fetched : Bool) {ω : Type} (m : Managed ω) (e : UInt32) :
    let fresh := (verifyFxUsage createAssetTx cache true g assetID).1
    let stale := (verifyFxUsage createAssetTx
      (verifyFxUsage createAssetTx cache true f assetID).2 fetched g assetID).1
    fresh = true ∧ stale = false ∧
    (∀ t : Transfer ω, verifyTransferOfUTXO { t with fxUsage := true } m e = .ok () →
      verifyTransferOfUTXO { t with fxUsage := fresh } m e = .ok () ∧
      verifyTransferOfUTXO { t with fxUsage := stale } m e = .error .incompatibleFx) ∧
    (∀ o : Operation, verifyOperation { o with fxUsage := true } m e = .ok () →
      verifyOperation { o with fxUsage := fresh } m e = .ok () ∧
      verifyOperation { o with fxUsage := stale } m e = .error .incompatibleFx) := by
  have hfresh : (verifyFxUsage createAssetTx cache true g assetID).1 = true := by
    rw [verifyFxUsage_miss _ hc hs]; simpa using ⟨hg64, hg⟩
  have hstale : (verifyFxUsage createAssetTx
      (verifyFxUsage createAssetTx cache true f assetID).2 fetched g assetID).1 = false := by
    rw [verifyFxUsage_miss _ hc hs, verifyFxUsage_hit _ (Function.update_same _ _ _),
      fxIDsOf_contains]
    simp [Ne.symm hfg]
  dsimp only
  rw [hfresh, hstale]
  exact ⟨rfl, rfl, fun t ht => ⟨ht, verifyTransferOfUTXO_incompatible ht⟩,
    fun o ho => ⟨ho, verifyOperation_incompatible ho⟩⟩

end cache

/-- Asset `0` is created with initial states of fxs `0` and `1`. -/
def twoFxAsset (assetID : Nat) : Option (List Nat) := if assetID = 0 then some [0, 1] else none

/-- The cache after a transfer of asset `0` with fx `0` was verified. -/
def afterFx0 : Nat → Option BitSet := (verifyFxUsage twoFxAsset (fun _ => none) true 0 0).2

theorem afterFx0_sound : FxReach twoFxAsset afterFx0 ∧
    (∀ fxID, (verifyFxUsage twoFxAsset afterFx0 true fxID 0).1 = true →
      fxID < 64 ∧ ∃ states, twoFxAsset 0 = some states ∧ fxID ∈ states) ∧
    (∀ fxIDs, afterFx0 0 = some fxIDs → ∀ f g,
      (verifyFxUsage twoFxAsset afterFx0 true f 0).1 = true →
      (verifyFxUsage twoFxAsset afterFx0 true g 0).1 = true → f = g) :=
  have hr : FxReach twoFxAsset afterFx0 := .single (.verify _ true 0 0)
  ⟨hr, fx_usage_sound twoFxAsset hr true 0⟩

theorem twoFxAsset_forgets : (fun _ => none : Nat → Option BitSet) 0 = none ∧
    twoFxAsset 0 = some [0, 1] ∧ (0 : Nat) ≠ 1 ∧ 1 ∈ [0, 1] ∧ 1 < 64 ∧
    let fresh := (verifyFxUsage twoFxAsset (fun _ => none) true 1 0).1
    let stale := (verifyFxUsage twoFxAsset afterFx0 true 1 0).1
    fresh = true ∧ stale = false ∧
    (∀ t : Transfer Nat, verifyTransferOfUTXO { t with fxUsage := true } .notFound 0 = .ok () →
      verifyTransferOfUTXO { t with fxUsage := fresh } .notFound 0 = .ok () ∧
      verifyTransferOfUTXO { t with fxUsage := stale } .notFound 0 = .error .incompatibleFx) ∧
    (∀ o : Operation, verifyOperation { o with fxUsage := true } (.notFound : Managed Nat) 0 = .ok () →
      verifyOperation { o with fxUsage := fresh } (.notFound : Managed Nat) 0 = .ok () ∧
      verifyOperation { o with fxUsage := stale } (.notFound : Managed Nat) 0 = .error .incompatibleFx) :=
  ⟨rfl, rfl, by decide, by decide, by decide,
    @fx_usage_forgets twoFxAsset (fun _ => none) 0 [0, 1] rfl rfl 0 1 (by decide) (by decide)
      (by decide) true Nat .notFound 0⟩

end Gecko.Avm
