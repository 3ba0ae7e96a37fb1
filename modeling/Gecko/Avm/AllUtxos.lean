import Gecko.Avm.PageWalk

/-! # Fetching all UTXOs (`vms/avm`: `getAllUTXOs`, `getAllUniqueAddressUTXOs`)

`getAllUniqueAddressUTXOs` asks `Funds` for the IDs of one address in rounds of
`maxUTXOsToFetch`, each round starting after the last ID of the one before. As `Funds` starts
after `lastIndex`, every round with an answer leaves fewer IDs to fetch, and the loop ends on
the first empty answer. `getAllUTXOs` runs it over the sorted addresses with one `seen` set and
one list, which start empty and so stay equal.
-/

namespace Gecko.Avm

/-! ## One round -/

theorem foldl_addUnseen (l : List Nat) (lastIndex : Nat) (seen utxos : List Nat) :
    l.foldl addUnseen (lastIndex, seen, utxos) =
      (l.getLast?.getD lastIndex, seen ++ (keepFirst l).filter (· ∉ seen),
        utxos ++ (keepFirst l).filter (· ∉ seen)) := by
  induction l using List.reverseRecOn with
  | nil => simp
  | append_singleton l x ih =>
    rw [List.foldl_append, List.foldl_cons, List.foldl_nil, ih, keepFirst_append_singleton]
    unfold addUnseen addNew
    by_cases hs : x ∈ seen <;> by_cases hk : x ∈ keepFirst l <;>
      simp [hs, hk, List.filter_append]

section funds

variable {F : Funds} {addr lastIndex c : Nat}

theorem filter_lt_of_funds_getLast
    (hc : (F.funds addr lastIndex maxUTXOsToFetch).getLast? = some c) :
    (F.ids addr).filter (c < ·) = ((F.ids addr).filter (lastIndex < ·)).drop maxUTXOsToFetch := by
  have hlt : lastIndex < c := of_decide_eq_true
    (List.mem_filter.1 (List.mem_of_mem_take (List.mem_of_getLast?_eq_some hc))).2
  rw [← filter_getLast_take (fun a b => decide (a < b)) (by simp only [decide_eq_true_eq]; omega)
    (by simp) (((F.sorted addr).filter _).imp (decide_eq_true ·)) hc, List.filter_filter]
  exact List.filter_congr fun y _ => by by_cases hy : c < y <;> simp [hy]; omega

theorem funds_round_lt (hc : (F.funds addr lastIndex maxUTXOsToFetch).getLast? = some c) :
    ((F.ids addr).filter (c < ·)).length < ((F.ids addr).filter (lastIndex < ·)).length := by
  have hpos : 0 < ((F.ids addr).filter (lastIndex < ·)).length :=
    List.length_pos.2 fun h => by simp [Funds.funds, h] at hc
  rw [filter_lt_of_funds_getLast hc, List.length_drop]
  simp only [maxUTXOsToFetch]
  omega

end funds

/-! ## The loop -/

theorem getAllUniqueAddressUTXOsLoop_enough (F : Funds) (addr : Nat) :
    ∀ fuel lastIndex seen utxos, ((F.ids addr).filter (lastIndex < ·)).length < fuel →
      getAllUniqueAddressUTXOsLoop F addr fuel lastIndex seen utxos =
        ((F.ids addr).filter (lastIndex < ·)).foldl addUnseen (lastIndex, seen, utxos)
  | 0, _, _, _, h => absurd h (Nat.not_lt_zero _)
  | fuel + 1, lastIndex, seen, utxos, h => by
    rw [getAllUniqueAddressUTXOsLoop]
    cases hc : F.funds addr lastIndex maxUTXOsToFetch with
    | nil =>
      have : (F.ids addr).filter (lastIndex < ·) = [] :=
        (List.take_eq_nil_iff.1 hc).resolve_left (by decide)
      simp [this]
    | cons x xs =>
      dsimp only
      obtain ⟨c, hcl⟩ : ∃ c, (F.funds addr lastIndex maxUTXOsToFetch).getLast? = some c :=
        Option.isSome_iff_exists.1 (by simp [hc])
      have h1 : ((x :: xs).foldl addUnseen (lastIndex, seen, utxos)).1 = c := by
        rw [foldl_addUnseen, ← hc, hcl]; rfl
      rw [getAllUniqueAddressUTXOsLoop_enough F addr fuel _ _ _
        (h1 ▸ (funds_round_lt hcl).trans_le (Nat.lt_succ_iff.1 h)), h1,
        filter_lt_of_funds_getLast hcl, ← h1, ← hc]
      show List.foldl _ (List.foldl _ _ (List.take _ _)) _ = _
      rw [← List.foldl_append, List.take_append_drop]

theorem getAllUniqueAddressUTXOs_eq (F : Funds) (addr : Nat) (seen utxos : List Nat) :
    getAllUniqueAddressUTXOs F addr seen utxos =
      (((F.ids addr).filter (empty < ·)).getLast?.getD empty,
        seen ++ ((F.ids addr).filter (empty < ·)).filter (· ∉ seen),
        utxos ++ ((F.ids addr).filter (empty < ·)).filter (· ∉ seen)) := by
  rw [getAllUniqueAddressUTXOs, getAllUniqueAddressUTXOsLoop_enough F addr _ _ _ _
    (Nat.lt_succ_of_le (List.length_filter_le _ _)), foldl_addUnseen,
    keepFirst_of_nodup ((F.sorted addr).filter _).nodup]

theorem le_of_getLast? {l : List Nat} (hl : l.Sorted (· < ·)) {m : Nat}
    (hm : l.getLast? = some m) : ∀ x ∈ l, x ≤ m := by
  obtain ⟨pre, rfl⟩ := List.getLast?_eq_some_iff.1 hm
  intro x hx
  rcases List.mem_append.1 hx with hx | hx
  · exact ((List.pairwise_append.1 hl).2.2 x hx m (.head _)).le
  · exact (List.mem_singleton.1 hx).le

theorem le_getLast_filter_empty (F : Funds) (addr : Nat) :
    ∀ x ∈ F.ids addr, x ≤ ((F.ids addr).filter (empty < ·)).getLast?.getD empty := by
  intro x hx
  rcases h : ((F.ids addr).filter (empty < ·)).getLast? with _ | m
  · have hx0 : ¬empty < x := by
      simpa using List.filter_eq_nil_iff.1 (List.getLast?_eq_none_iff.1 h) x hx
    exact Nat.le_of_not_lt hx0
  · by_cases hx0 : empty < x
    · exact le_of_getLast? ((F.sorted addr).filter _) h x (List.mem_filter.2 ⟨hx, by simpa⟩)
    · exact (Nat.le_of_not_lt hx0).trans (Nat.zero_le m)

/-- `getAllUniqueAddressUTXOs` ends, and does what its comment says, from every `seen` set and
every list: each round with an answer lowers the count of IDs above `lastIndex`, and the loop
stops on an empty answer, with the same result for any number of turns above that count. It
appends to `utxos`, in ascending order and each once, the IDs of the address above `Empty` that
`seen` did not hold, adds them to `seen`, and returns the address's largest ID, or `Empty`. -/
theorem getAllUniqueAddressUTXOs_exact (F : Funds) (addr : Nat) (seen utxos : List Nat) :
    let ids := (F.ids addr).filter (empty < ·)
    let r := getAllUniqueAddressUTXOs F addr seen utxos
    (∀ lastIndex seen' utxos', F.funds addr lastIndex maxUTXOsToFetch ≠ [] →
      ((F.ids addr).filter (((F.funds addr lastIndex maxUTXOsToFetch).foldl addUnseen
          (lastIndex, seen', utxos')).1 < ·)).length <
        ((F.ids addr).filter (lastIndex < ·)).length) ∧
    F.funds addr r.1 maxUTXOsToFetch = [] ∧
    (∀ fuel, ids.length < fuel → getAllUniqueAddressUTXOsLoop F addr fuel empty seen utxos = r) ∧
    r.2.2 = utxos ++ ids.filter (· ∉ seen) ∧ (ids.filter (· ∉ seen)).Sorted (· < ·) ∧
    r.2.1 = seen ++ ids.filter (· ∉ seen) ∧
    (∀ x ∈ F.ids addr, x ≤ r.1) ∧ (r.1 ∈ F.ids addr ∨ r.1 = empty) := by
  intro ids r
  have hr : r = (ids.getLast?.getD empty, seen ++ ids.filter (· ∉ seen),
      utxos ++ ids.filter (· ∉ seen)) := getAllUniqueAddressUTXOs_eq F addr seen utxos
  have hmax : ∀ x ∈ F.ids addr, x ≤ r.1 := hr ▸ le_getLast_filter_empty F addr
  refine ⟨fun lastIndex seen' utxos' hne => ?_, ?_, fun fuel hf => ?_, by rw [hr],
    ((F.sorted addr).filter _).filter _, by rw [hr], hmax, ?_⟩
  · obtain ⟨c, hc⟩ := Option.ne_none_iff_exists'.1 (mt List.getLast?_eq_none_iff.1 hne)
    rw [foldl_addUnseen, hc, Option.getD_some]
    exact funds_round_lt hc
  · rw [Funds.funds, List.filter_eq_nil_iff.2 fun x hx => by simpa using hmax x hx, List.take_nil]
  · rw [getAllUniqueAddressUTXOsLoop_enough F addr fuel empty seen utxos hf]
    exact (getAllUniqueAddressUTXOsLoop_enough F addr _ _ _ _
      (Nat.lt_succ_of_le (List.length_filter_le _ _))).symm
  · rw [hr]
    rcases h : ids.getLast? with _ | m
    · exact .inr rfl
    · exact .inl (List.mem_filter.1 (List.mem_of_getLast?_eq_some h)).1

/-! ## All addresses -/

theorem getAllUTXOsStep_synced (F : Funds) (K : List Nat) (lastAddr lastIndex addr : Nat) :
    getAllUTXOsStep F (K, K, lastAddr, lastIndex) addr =
      (((F.ids addr).filter (empty < ·)).foldl addNew K,
        ((F.ids addr).filter (empty < ·)).foldl addNew K,
        (getAllUTXOsStep F (K, K, lastAddr, lastIndex) addr).2.2) := by
  rw [foldl_addNew, keepFirst_of_nodup ((F.sorted addr).filter _).nodup, getAllUTXOsStep,
    getAllUniqueAddressUTXOs_eq]

theorem walk_snd_empty (F : Funds) (L : List Nat) :
    (walk F shortEmpty empty L).map Prod.snd =
      L.flatMap fun a => (F.ids a).filter (empty < ·) := by
  induction L with
  | nil => rfl
  | cons a L ih =>
    have hz : ¬a < shortEmpty := Nat.not_lt_zero a
    simp only [walk, hz, if_false, ite_self, List.map_append, List.map_map, ih, List.flatMap_cons,
      Function.comp_def, List.map_id']

theorem getAllUTXOs_fst (F : Funds) (addrs : ShortSet) :
    (getAllUTXOs F addrs).1 =
      keepFirst ((walk F shortEmpty empty (sortShortIDs addrs.list)).map Prod.snd) := by
  rw [getAllUTXOs, walk_snd_empty, keepFirst]
  suffices ∀ (L K : List Nat) (la li : Nat), (L.foldl (getAllUTXOsStep F) (K, K, la, li)).2.1 =
      (L.flatMap fun a => (F.ids a).filter (empty < ·)).foldl addNew K from this _ _ _ _
  intro L
  induction L with
  | nil => intro _ _ _; rfl
  | cons a L ih =>
    intro K la li
    rw [List.foldl_cons, getAllUTXOsStep_synced, ih, List.flatMap_cons, List.foldl_append]

theorem getLast_filter_empty_ne (F : Funds) (a : Nat) :
    (((F.ids a).filter (empty < ·)).getLast?.getD empty ≠ empty) =
      ((F.ids a).any (empty < ·) = true) := by
  rcases h : ((F.ids a).filter (empty < ·)).getLast? with _ | x
  · simp_all [List.getLast?_eq_none_iff, List.filter_eq_nil_iff]
  · have hx := List.mem_filter.1 (List.mem_of_getLast?_eq_some h)
    simp only [decide_eq_true_eq] at hx
    simp only [Option.getD_some, List.any_eq_true, decide_eq_true_eq, eq_iff_iff]
    exact ⟨fun _ => ⟨x, hx.1, hx.2⟩, fun _ => Nat.ne_of_gt hx.2⟩

/-- The cursor `getAllUTXOs` returns: `lastIndex` is the last ID above `Empty` of the last
address in byte order (`Empty` when it has none), but `lastAddr` is the last address that has
such an ID. When the last address owns nothing, the cursor pairs an earlier address with
`Empty`. -/
theorem getAllUTXOs_cursor (F : Funds) (addrs : ShortSet) :
    let L := sortShortIDs addrs.list
    (getAllUTXOs F addrs).2 =
      ((L.filter fun a => (F.ids a).any (empty < ·)).getLast?.getD shortEmpty,
        (L.getLast?.map fun a => ((F.ids a).filter (empty < ·)).getLast?.getD empty).getD empty) := by
  show (List.foldl (getAllUTXOsStep F)
      (([] : List Nat), ([] : List Nat), shortEmpty, empty) _).2.2 =
    (Option.getD _ (([] : List Nat), ([] : List Nat), shortEmpty, empty).2.2.1,
      Option.getD _ (([] : List Nat), ([] : List Nat), shortEmpty, empty).2.2.2)
  generalize (([] : List Nat), ([] : List Nat), shortEmpty, empty) = r
  induction sortShortIDs addrs.list generalizing r with
  | nil => rfl
  | cons a L ih =>
    rw [List.foldl_cons, ih, getAllUTXOsStep, getAllUniqueAddressUTXOs_eq]
    dsimp only
    simp only [getLast_filter_empty_ne, List.filter_cons, List.getLast?_cons]
    split_ifs
    · rw [List.getLast?_cons, Option.getD_some]
      cases L.getLast? <;> rfl
    · cases L.getLast? <;> rfl

end Gecko.Avm
