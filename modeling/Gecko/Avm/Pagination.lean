import Gecko.Avm.AllUtxos

/-! # Paging through `GetUTXOs`

A client that calls `GetUTXOs` again from each returned cursor walks every position once: the
pages split the walk from the empty cursor. A page drops only the IDs met earlier in the same
page, so a UTXO of several queried addresses can come back on several pages; with repeats
dropped, the pages are the list of the non-paginated call.
-/

namespace Gecko.Avm

/-! ## Positions in walk order -/

/-- Position `q` comes after position `p`: a later address, or a later ID of the same one. -/
def after (p q : Nat × Nat) : Bool := p.1 < q.1 || (p.1 = q.1 && p.2 < q.2)

theorem after_trans {p q s : Nat × Nat} (h₁ : after p q) (h₂ : after q s) : after p s := by
  simp only [after, Bool.or_eq_true, Bool.and_eq_true, decide_eq_true_eq] at *
  omega

theorem after_irrefl (p : Nat × Nat) : ¬after p p := by simp [after]

/-! ## The walk from a cursor -/

theorem sortShortIDs_sorted (addrs : ShortSet) : (sortShortIDs addrs.list).Sorted (· < ·) :=
  (List.sorted_insertionSort _ _).lt_of_le ((List.perm_insertionSort _ _).nodup_iff.2 addrs.nodup)

theorem fst_mem_of_mem_walk {F : Funds} {sa su : Nat} {L : List Nat} {p : Nat × Nat}
    (h : p ∈ walk F sa su L) : p.1 ∈ L := by
  induction L with
  | nil => simp [walk] at h
  | cons a L ih =>
    unfold walk at h
    split at h
    · exact .tail _ (ih h)
    · rcases List.mem_append.1 h with h | h
      · obtain ⟨i, -, rfl⟩ := List.mem_map.1 h
        exact .head _
      · exact .tail _ (ih h)

theorem walk_pairwise (F : Funds) (sa su : Nat) {L : List Nat} (hL : L.Sorted (· < ·)) :
    (walk F sa su L).Pairwise fun p q => after p q := by
  induction L with
  | nil => exact .nil
  | cons a L ih =>
    obtain ⟨ha, hL⟩ := List.sorted_cons.1 hL
    unfold walk
    split
    · exact ih hL
    · refine List.pairwise_append.2 ⟨?_, ih hL, fun p hp q hq => ?_⟩
      · exact List.pairwise_map.2 (((F.sorted a).filter _).imp fun h => by simp [after, h])
      · obtain ⟨i, -, rfl⟩ := List.mem_map.1 hp
        simp [after, ha _ (fst_mem_of_mem_walk hq)]

theorem walk_eq_filter (F : Funds) (sa su : Nat) (L : List Nat) :
    walk F sa su L = (walk F shortEmpty empty L).filter (after (sa, su)) := by
  induction L with
  | nil => rfl
  | cons a L ih =>
    have hz : ¬a < shortEmpty := Nat.not_lt_zero a
    simp only [walk, hz, if_false, ite_self, List.filter_append, ← ih, List.filter_map]
    split
    · rw [List.filter_eq_nil_iff.2 fun i _ => ?_, List.map_nil, List.nil_append]
      simp [after]
      omega
    · rw [List.filter_filter]
      congr 2
      refine List.filter_congr fun i _ => ?_
      by_cases hs : a = sa <;> simp [after, hs, empty] <;> omega

theorem walk_of_getLast_take (F : Funds) {L : List Nat} (hL : L.Sorted (· < ·)) (sa su k : Nat)
    {c : Nat × Nat} (hc : ((walk F sa su L).take k).getLast? = some c) :
    walk F c.1 c.2 L = (walk F sa su L).drop k := by
  have hmem := List.mem_of_mem_take (List.mem_of_getLast?_eq_some hc)
  rw [walk_eq_filter F sa su] at hmem
  rw [← filter_getLast_take after after_trans after_irrefl (walk_pairwise F sa su hL) hc,
    walk_eq_filter F c.1 c.2, walk_eq_filter F sa su, List.filter_filter]
  refine List.filter_congr fun q _ => ?_
  cases h : after c q
  · rfl
  · simp [after_trans (List.mem_filter.1 hmem).2 h]

/-! ## Pages -/

/-- Modelled from the spec: the client of pagination. It calls `GetUTXOs` from a cursor, then
from the cursor each call returns, and stops after the first page with fewer than `limit`
UTXOs; `fuel` bounds the calls. -/
def pagesFrom (F : Funds) (addrs : ShortSet) (limit : Int) : Nat → Nat → Nat → List (List Nat)
  | 0, _, _ => []
  | fuel + 1, startAddr, startUTXOID =>
    let r := getUTXOs F addrs startAddr startUTXOID limit true
    if (r.1.length : Int) < limit then [r.1] else r.1 :: pagesFrom F addrs limit fuel r.2.1 r.2.2

/-- The pages from the empty cursor. Every page before the last walks at least one position,
so one call more than the walk has positions is enough. -/
def pages (F : Funds) (addrs : ShortSet) (limit : Int) : List (List Nat) :=
  pagesFrom F addrs limit ((walk F shortEmpty empty (sortShortIDs addrs.list)).length + 1)
    shortEmpty empty

section pages

variable (F : Funds) (addrs : ShortSet) {limit : Int}

theorem getUTXOs_paginate (h1 : 1 ≤ limit) (h2 : limit ≤ 1024) (sa su : Nat) :
    getUTXOs F addrs sa su limit true = getPaginatedUTXOs F addrs sa su limit.toNat := by
  have : ¬(limit ≤ 0 ∨ limit > (maxUTXOsToFetch : Int)) := by simp [maxUTXOsToFetch]; omega
  simp only [getUTXOs, if_neg this, if_true]

theorem pagesFrom_split (h1 : 1 ≤ limit) (h2 : limit ≤ 1024) :
    ∀ fuel sa su, (walk F sa su (sortShortIDs addrs.list)).length < fuel →
      let P := pagesFrom F addrs limit fuel sa su
      let w := walk F sa su (sortShortIDs addrs.list)
      keepFirst P.flatten = keepFirst (w.map Prod.snd) ∧ P.flatten.Sublist (w.map Prod.snd) ∧
      (∀ page ∈ P, page.Nodup) ∧ (∀ page ∈ P.dropLast, (page.length : Int) = limit) ∧
      ∃ last, P.getLast? = some last ∧ (last.length : Int) < limit
  | 0, _, _, h => absurd h (Nat.not_lt_zero _)
  | fuel + 1, sa, su, h => by
    dsimp only
    obtain ⟨hle, k, hk, hu, hcur, hshort⟩ :=
      getPaginatedUTXOs_split F addrs sa su limit.toNat (by omega)
    rw [pagesFrom, getUTXOs_paginate F addrs h1 h2]
    set w := walk F sa su (sortShortIDs addrs.list)
    set r := getPaginatedUTXOs F addrs sa su limit.toNat
    split
    · rename_i hlt
      rw [hshort (by omega), List.take_length] at hu
      exact ⟨by simp [hu, keepFirst_keepFirst], by simpa [hu] using keepFirst_sublist _,
        by simpa [hu] using keepFirst_nodup _, by simp, r.1, rfl, hlt⟩
    · rename_i hge
      have hk0 : k ≠ 0 := by
        rintro rfl
        rw [List.take_zero, List.map_nil, keepFirst_nil] at hu
        rw [hu] at hge
        simp at hge
        omega
      obtain ⟨c, hc⟩ : ∃ c, (w.take k).getLast? = some c :=
        Option.isSome_iff_exists.1 <| List.getLast?_isSome.2 fun h =>
          (List.take_eq_nil_iff.1 h).elim hk0 fun hw => hk0 (by simpa [hw] using hk)
      rw [hc, Option.getD_some] at hcur
      subst hcur
      have hnext : walk F r.2.1 r.2.2 (sortShortIDs addrs.list) = w.drop k :=
        walk_of_getLast_take F (sortShortIDs_sorted addrs) sa su k hc
      obtain ⟨ih1, ih2, ihn, ih3, last, ih4, ih5⟩ := pagesFrom_split h1 h2 fuel r.2.1 r.2.2
        (by rw [hnext, List.length_drop]; omega)
      rw [hnext] at ih1 ih2
      have hP : pagesFrom F addrs limit fuel r.2.1 r.2.2 ≠ [] := fun h => by simp [h] at ih4
      refine ⟨?_, ?_, List.forall_mem_cons.2 ⟨hu ▸ keepFirst_nodup _, ihn⟩, ?_, last,
        by rw [List.getLast?_cons, ih4]; rfl, ih5⟩
      · rw [List.flatten_cons, hu, keepFirst_keepFirst_append, keepFirst_append, ih1,
          ← keepFirst_append, ← List.map_append, List.take_append_drop]
      · have := (keepFirst_sublist ((w.take k).map Prod.snd)).append ih2
        rwa [← List.map_append, List.take_append_drop, ← hu] at this
      · rw [List.dropLast_cons_of_ne_nil hP]
        rintro page (_ | ⟨_, hp⟩)
        · omega
        · exact ih3 page hp

theorem walk_snd_nodup (h : ∀ a ∈ addrs.list, ∀ b ∈ addrs.list, a ≠ b → ∀ x ∈ F.ids a, x ∉ F.ids b) :
    ((walk F shortEmpty empty (sortShortIDs addrs.list)).map Prod.snd).Nodup := by
  have hmem : ∀ {a}, a ∈ sortShortIDs addrs.list → a ∈ addrs.list := fun ha =>
    (List.perm_insertionSort _ _).subset ha
  rw [walk_snd_empty, List.nodup_flatMap]
  refine ⟨fun a _ => (F.sorted a).nodup.filter _,
    (sortShortIDs_sorted addrs).imp_of_mem fun ha hb hab => ?_⟩
  intro x hxa hxb
  exact h _ (hmem ha) _ (hmem hb) (ne_of_lt hab) x (List.mem_filter.1 hxa).1 (List.mem_filter.1 hxb).1

end pages

/-- Paging from the empty cursor ends with a page of fewer than `limit` UTXOs, every page before
it being full. With repeats dropped, the pages are the non-paginated list. No page repeats a
UTXO, and all of them together repeat it at most as often as the walk meets it, once per queried
address owning it; so when no UTXO belongs to two queried addresses they are the non-paginated
list. -/
theorem pages_complete (F : Funds) (addrs : ShortSet) {limit : Int} (h1 : 1 ≤ limit)
    (h2 : limit ≤ 1024) :
    let P := pages F addrs limit
    let all := (getUTXOs F addrs shortEmpty empty limit false).1
    keepFirst P.flatten = all ∧
    P.flatten.Sublist ((walk F shortEmpty empty (sortShortIDs addrs.list)).map Prod.snd) ∧
    ((∀ a ∈ addrs.list, ∀ b ∈ addrs.list, a ≠ b → ∀ x ∈ F.ids a, x ∉ F.ids b) →
      P.flatten = all) ∧
    (∀ page ∈ P, page.Nodup) ∧ (∀ page ∈ P.dropLast, (page.length : Int) = limit) ∧
    ∃ last, P.getLast? = some last ∧ (last.length : Int) < limit := by
  intro P all
  have hall : all = keepFirst ((walk F shortEmpty empty (sortShortIDs addrs.list)).map Prod.snd) :=
    getAllUTXOs_fst F addrs
  obtain ⟨hk, hsub, hnd, hfull, hlast⟩ :=
    pagesFrom_split F addrs h1 h2 _ shortEmpty empty (Nat.lt_succ_self _)
  refine ⟨hk.trans hall.symm, hsub, fun hd => ?_, hnd, hfull, hlast⟩
  rw [hall, ← hk, keepFirst_of_nodup ((walk_snd_nodup F addrs hd).sublist hsub)]
  rfl

theorem pairAddrs_pages : 1 ≤ (1 : Int) ∧ (1 : Int) ≤ 1024 ∧
    keepFirst (pages twoOwners pairAddrs 1).flatten =
      (getUTXOs twoOwners pairAddrs shortEmpty empty 1 false).1 :=
  ⟨by decide, by decide, (pages_complete twoOwners pairAddrs (by decide) (by decide)).1⟩

/-- Two addresses own UTXO `7` and a page holds one UTXO: the second page returns it again. -/
theorem pages_repeat_shared :
    (pages twoOwners pairAddrs 1).flatten = [7, 7] ∧
      (getUTXOs twoOwners pairAddrs shortEmpty empty 1 false).1 = [7] := by
  decide

end Gecko.Avm
