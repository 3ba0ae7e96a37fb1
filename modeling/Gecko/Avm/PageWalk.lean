import Gecko.Avm.Utxos

/-! # One page of `getPaginatedUTXOs`

A page walks the positions `(address, UTXO ID)` after its start in order and keeps each ID the
first time it meets it, until it has `limit` UTXOs. The `searchSize` bound on every `Funds`
call never cuts this walk short: an answer it truncates holds at least `limit` new IDs.
-/

namespace Gecko.Avm

/-! ## Keeping first occurrences -/

/-- The IDs of a list in order, each at its first place. -/
def keepFirst (l : List Nat) : List Nat := l.foldl addNew []

@[simp] theorem keepFirst_nil : keepFirst [] = [] := rfl

theorem keepFirst_append_singleton (l : List Nat) (x : Nat) :
    keepFirst (l ++ [x]) = addNew (keepFirst l) x := by
  simp [keepFirst, List.foldl_append]

theorem foldl_addNew (K l : List Nat) : l.foldl addNew K = K ++ (keepFirst l).filter (· ∉ K) := by
  induction l using List.reverseRecOn with
  | nil => simp
  | append_singleton l x ih =>
    rw [List.foldl_append, List.foldl_cons, List.foldl_nil, ih, keepFirst_append_singleton]
    unfold addNew
    by_cases hK : x ∈ K <;> by_cases hk : x ∈ keepFirst l <;> simp [hK, hk, List.filter_append]

theorem foldl_addNew_of_nodup {K l : List Nat} (h : (K ++ l).Nodup) : l.foldl addNew K = K ++ l := by
  induction l generalizing K with
  | nil => simp
  | cons x l ih =>
    have hx : x ∉ K := fun hx => (List.nodup_append.1 h).2.2 hx (.head _)
    rw [List.foldl_cons, addNew, if_neg hx, ih (by simpa using h), List.append_assoc,
      List.singleton_append]

theorem foldl_addNew_nodup {K : List Nat} (hK : K.Nodup) (l : List Nat) :
    (l.foldl addNew K).Nodup := by
  induction l generalizing K with
  | nil => exact hK
  | cons x l ih => exact ih (addNew_nodup hK x)

theorem keepFirst_nodup (l : List Nat) : (keepFirst l).Nodup := foldl_addNew_nodup .nil l

theorem keepFirst_of_nodup {l : List Nat} (h : l.Nodup) : keepFirst l = l :=
  foldl_addNew_of_nodup h

theorem keepFirst_keepFirst (l : List Nat) : keepFirst (keepFirst l) = keepFirst l :=
  keepFirst_of_nodup (keepFirst_nodup l)

theorem foldl_addNew_sublist (K l : List Nat) : (l.foldl addNew K).Sublist (K ++ l) := by
  induction l generalizing K with
  | nil => simp
  | cons x l ih =>
    refine (ih _).trans ?_
    rw [← List.singleton_append, ← List.append_assoc]
    refine List.Sublist.append_right ?_ l
    unfold addNew; split
    · exact List.sublist_append_left _ _
    · exact List.Sublist.refl _

theorem keepFirst_sublist (l : List Nat) : (keepFirst l).Sublist l := foldl_addNew_sublist [] l

theorem keepFirst_append (a b : List Nat) :
    keepFirst (a ++ b) = keepFirst a ++ (keepFirst b).filter (· ∉ keepFirst a) := by
  rw [keepFirst, List.foldl_append, foldl_addNew]
  rfl

theorem keepFirst_keepFirst_append (a b : List Nat) :
    keepFirst (keepFirst a ++ b) = keepFirst (a ++ b) := by
  rw [keepFirst_append, keepFirst_append, keepFirst_keepFirst]

/-! ## Lists ordered by a strict order -/

theorem filter_getLast_take {α : Type} (r : α → α → Bool) (htrans : ∀ {a b c}, r a b → r b c → r a c)
    (hirr : ∀ a, ¬r a a) {w : List α} (hw : w.Pairwise fun a b => r a b) {k : Nat} {x : α}
    (hx : (w.take k).getLast? = some x) : w.filter (r x) = w.drop k := by
  obtain ⟨pre, hpre⟩ := List.getLast?_eq_some_iff.1 hx
  have hw' := List.pairwise_append.1 ((List.take_append_drop k w).symm ▸ hw)
  have hx' : x ∈ w.take k := by simp [hpre]
  conv_lhs => rw [← List.take_append_drop k w]
  rw [List.filter_append, List.filter_eq_nil_iff.2 ?_, List.filter_eq_self.2 ?_, List.nil_append]
  · exact fun y hy => hw'.2.2 x hx' y hy
  · intro y hy hxy
    rw [hpre, List.mem_append, List.mem_singleton] at hy
    rcases hy with hy | rfl
    · have hyx : r y x := (List.pairwise_append.1 (hpre ▸ hw'.1)).2.2 y hy x (.head _)
      exact hirr y (htrans hyx hxy)
    · exact hirr y hxy

/-! ## The walk -/

/-- The positions `(address, UTXO ID)` a page from `(startAddr, startUTXOID)` walks: the
addresses from `startAddr` on, each through all its IDs above the start. -/
def walk (F : Funds) (startAddr startUTXOID : Nat) : List Nat → List (Nat × Nat)
  | [] => []
  | addr :: addrs =>
    if addr < startAddr then walk F startAddr startUTXOID addrs
    else ((F.ids addr).filter ((if addr = startAddr then startUTXOID else empty) < ·)).map
      (addr, ·) ++ walk F startAddr startUTXOID addrs

/-- One turn of the inner loop at a position: the cursor moves there, and a new ID is appended
and counted. -/
def Page.visit (p : Page) (pos : Nat × Nat) : Page :=
  { utxos := addNew p.utxos pos.2, limit := if pos.2 ∈ p.utxos then p.limit else p.limit - 1,
    lastAddr := pos.1, lastIndex := pos.2 }

/-- A page over positions: visit them in turn until `limit` is used up. -/
def walkPage : List (Nat × Nat) → Page → Page × Bool
  | [], p => (p, false)
  | pos :: w, p =>
    let q := p.visit pos
    if q.limit = 0 then (q, true) else walkPage w q

theorem visit_count (p : Page) (pos : Nat × Nat) (hp : 0 < p.limit) :
    (p.visit pos).utxos.length + (p.visit pos).limit = p.utxos.length + p.limit := by
  unfold Page.visit addNew; split <;> simp; omega

@[simp] theorem foldl_visit_utxos (l : List (Nat × Nat)) (p : Page) :
    (l.foldl Page.visit p).utxos = (l.map Prod.snd).foldl addNew p.utxos := by
  induction l generalizing p with
  | nil => rfl
  | cons pos l ih => exact ih _

theorem foldl_visit_cursor (l : List (Nat × Nat)) (p : Page) :
    ((l.foldl Page.visit p).lastAddr, (l.foldl Page.visit p).lastIndex) =
      l.getLast?.getD (p.lastAddr, p.lastIndex) := by
  induction l generalizing p with
  | nil => rfl
  | cons pos l ih => rw [List.foldl_cons, ih, List.getLast?_cons]; cases l.getLast? <;> rfl

theorem walkPage_eq (w : List (Nat × Nat)) (p : Page) : ∃ k ≤ w.length,
    (walkPage w p).1 = (w.take k).foldl Page.visit p ∧
    ((walkPage w p).2 = true → (walkPage w p).1.limit = 0) ∧
    ((walkPage w p).2 = false → k = w.length) := by
  induction w generalizing p with
  | nil => exact ⟨0, le_rfl, rfl, nofun, fun _ => rfl⟩
  | cons pos w ih =>
    by_cases h : (p.visit pos).limit = 0
    · exact ⟨1, by simp, by simp [walkPage, h], by simp [walkPage, h], by simp [walkPage, h]⟩
    · obtain ⟨k, hk, h1, h2, h3⟩ := ih (p.visit pos)
      simp only [walkPage, h, if_false]
      exact ⟨k + 1, by simpa using hk, h1, h2, fun h => by simpa using h3 h⟩

theorem walkPage_count (w : List (Nat × Nat)) (p : Page) (hp : 0 < p.limit) :
    (walkPage w p).1.utxos.length + (walkPage w p).1.limit = p.utxos.length + p.limit ∧
    ((walkPage w p).2 = false → 0 < (walkPage w p).1.limit) := by
  induction w generalizing p with
  | nil => exact ⟨rfl, fun _ => hp⟩
  | cons pos w ih =>
    by_cases h : (p.visit pos).limit = 0
    · simp only [walkPage, if_pos h]
      exact ⟨visit_count p pos hp, nofun⟩
    · simp only [walkPage, h, if_false]
      obtain ⟨h1, h2⟩ := ih (p.visit pos) (Nat.pos_of_ne_zero h)
      exact ⟨h1.trans (visit_count p pos hp), h2⟩

theorem walkPage_append (l r : List (Nat × Nat)) (p : Page) :
    walkPage (l ++ r) p = match walkPage l p with
      | (q, true) => (q, true)
      | (q, false) => walkPage r q := by
  induction l generalizing p with
  | nil => rfl
  | cons pos l ih =>
    simp only [List.cons_append, walkPage]
    split
    · rfl
    · exact ih _

/-! ## The `Funds` answers a page reads -/

theorem scanIDs_eq (addr : Nat) (ids : List Nat) (p : Page) (hp : 0 < p.limit) :
    scanIDs addr ids p = walkPage (ids.map (addr, ·)) p := by
  induction ids generalizing p with
  | nil => rfl
  | cons x ids ih =>
    by_cases hx : x ∈ p.utxos
    · simp only [scanIDs, walkPage, List.map_cons, Page.visit, addNew, hx, if_true,
        Nat.pos_iff_ne_zero.1 hp, if_false]
      exact ih _ hp
    · simp only [scanIDs, walkPage, List.map_cons, Page.visit, addNew, hx, if_false]
      split
      · rfl
      · exact ih _ (Nat.pos_of_ne_zero ‹_›)

theorem walkPage_stops (w : List (Nat × Nat)) (p : Page) (hw : (w.map Prod.snd).Nodup)
    (hp : 0 < p.limit) (h : p.limit ≤ ((w.map Prod.snd).filter (· ∉ p.utxos)).length) :
    (walkPage w p).2 = true := by
  induction w generalizing p with
  | nil => simp at h; omega
  | cons pos w ih =>
    obtain ⟨hpos, hw⟩ := List.nodup_cons.1 hw
    simp only [walkPage]
    split
    · rfl
    · rename_i hq
      have hf : (w.map Prod.snd).filter (· ∉ (p.visit pos).utxos) =
          (w.map Prod.snd).filter (· ∉ p.utxos) :=
        List.filter_congr fun y hy => by
          simp [Page.visit, show y ≠ pos.2 from fun e => hpos (e ▸ hy)]
      refine ih _ hw (Nat.pos_of_ne_zero hq) ?_
      rw [hf]
      by_cases hx : pos.2 ∈ p.utxos <;> simp [Page.visit, hx, List.filter_cons] at h ⊢ <;> omega

-- The counting behind `searchSize`.
theorem walkPage_take_stops (w : List (Nat × Nat)) (p : Page) (S : Nat)
    (hw : (w.map Prod.snd).Nodup) (hp : 0 < p.limit) (hS : p.utxos.length + p.limit = S)
    (hlen : S < w.length) : (walkPage (w.take S) p).2 = true := by
  have hnd : ((w.take S).map Prod.snd).Nodup := by
    rw [List.map_take]; exact hw.sublist (List.take_sublist _ _)
  refine walkPage_stops _ p hnd hp ?_
  have h1 : ((w.take S).map Prod.snd).length =
      (((w.take S).map Prod.snd).filter (· ∈ p.utxos)).length +
        (((w.take S).map Prod.snd).filter (· ∉ p.utxos)).length := by
    simpa only [← decide_not] using
      ((w.take S).map Prod.snd).length_eq_length_filter_add (· ∈ p.utxos)
  have h2 : (((w.take S).map Prod.snd).filter (· ∈ p.utxos)).length ≤ p.utxos.length :=
    (List.subperm_of_subset (hnd.filter _) fun x hx => by
      simpa using (List.mem_filter.1 hx).2).length_le
  simp only [List.length_map, List.length_take] at h1
  omega

theorem scanAddrs_eq (F : Funds) (startAddr startUTXOID S : Nat) (addrs : List Nat) (p : Page)
    (hS : p.utxos.length + p.limit = S) (hp : 0 < p.limit) :
    scanAddrs F startAddr startUTXOID S addrs p =
      (walkPage (walk F startAddr startUTXOID addrs) p).1 := by
  induction addrs generalizing p with
  | nil => rfl
  | cons addr addrs ih =>
    by_cases ha : addr < startAddr
    · simp only [scanAddrs, walk, if_pos ha]
      exact ih p hS hp
    · have hnd : ((((F.ids addr).filter ((if addr = startAddr then startUTXOID else empty) < ·)).map
          (addr, ·)).map Prod.snd).Nodup := by
        simpa [List.map_map, Function.comp_def] using (F.sorted addr).nodup.filter _
      simp only [scanAddrs, walk, if_neg ha, Funds.funds, scanIDs_eq _ _ _ hp, List.map_take]
      generalize ((F.ids addr).filter _).map (addr, ·) = seg at hnd ⊢
      rcases hq : walkPage (seg.take S) p with ⟨q, _ | _⟩
      · have hle : seg.length ≤ S := not_lt.1 fun hlt => by
          simpa [hq] using walkPage_take_stops seg p S hnd hp hS hlt
        rw [List.take_of_length_le hle] at hq
        obtain ⟨h1, h2⟩ := walkPage_count seg p hp
        rw [hq] at h1 h2
        rw [walkPage_append, hq]
        exact ih q (h1.trans hS) (h2 rfl)
      · have hw : walkPage (seg ++ walk F startAddr startUTXOID addrs) p = (q, true) := by
          rw [← List.take_append_drop S seg, List.append_assoc, walkPage_append, hq]
        rw [hw]

/-- The page of `getPaginatedUTXOs`, from the empty page over the walk. -/
def pageOf (F : Funds) (addrs : ShortSet) (startAddr startUTXOID limit : Nat) : Page × Bool :=
  walkPage (walk F startAddr startUTXOID (sortShortIDs addrs.list)) ⟨[], limit, shortEmpty, empty⟩

theorem getPaginatedUTXOs_eq (F : Funds) (addrs : ShortSet) (startAddr startUTXOID limit : Nat)
    (hl : 0 < limit) :
    getPaginatedUTXOs F addrs startAddr startUTXOID limit =
      ((pageOf F addrs startAddr startUTXOID limit).1.utxos,
        (pageOf F addrs startAddr startUTXOID limit).1.lastAddr,
        (pageOf F addrs startAddr startUTXOID limit).1.lastIndex) := by
  rw [getPaginatedUTXOs, scanAddrs_eq F startAddr startUTXOID limit _ _ (Nat.zero_add _) hl]
  rfl

/-! ## A page -/

theorem getPaginatedUTXOs_split (F : Funds) (addrs : ShortSet) (startAddr startUTXOID limit : Nat)
    (hl : 0 < limit) :
    let w := walk F startAddr startUTXOID (sortShortIDs addrs.list)
    let r := getPaginatedUTXOs F addrs startAddr startUTXOID limit
    r.1.length ≤ limit ∧ ∃ k ≤ w.length, r.1 = keepFirst ((w.take k).map Prod.snd) ∧
      (r.2.1, r.2.2) = (w.take k).getLast?.getD (shortEmpty, empty) ∧
      (r.1.length < limit → k = w.length) := by
  intro w r
  set P := pageOf F addrs startAddr startUTXOID limit
  obtain ⟨k, hk, h1, h2, h3⟩ : ∃ k ≤ w.length, P.1 = (w.take k).foldl Page.visit
      ⟨[], limit, shortEmpty, empty⟩ ∧ (P.2 = true → P.1.limit = 0) ∧ (P.2 = false → k = w.length) :=
    walkPage_eq w _
  have hc : P.1.utxos.length + P.1.limit = limit :=
    ((walkPage_count w _ hl).1).trans (Nat.zero_add _)
  have hr : r = (P.1.utxos, P.1.lastAddr, P.1.lastIndex) :=
    getPaginatedUTXOs_eq F addrs startAddr startUTXOID limit hl
  refine ⟨by simp only [hr]; omega, k, hk, ?_, by simp only [hr, h1, foldl_visit_cursor], ?_⟩
  · rw [hr, h1, foldl_visit_utxos]; rfl
  · intro hlt
    refine h3 ?_
    cases hb : P.2
    · rfl
    · have := h2 hb; simp only [hr] at hlt; omega

/-- A page is the first `limit` IDs of its walk, each at its first place. It is what the walk
gives up to the cursor it returns, and when it has fewer than `limit` UTXOs it walked every
position. -/
theorem paginated_walk (F : Funds) (addrs : ShortSet) (startAddr startUTXOID limit : Nat)
    (hl : 0 < limit) :
    let w := walk F startAddr startUTXOID (sortShortIDs addrs.list)
    let r := getPaginatedUTXOs F addrs startAddr startUTXOID limit
    r.1 = (keepFirst (w.map Prod.snd)).take limit ∧
    ∃ k ≤ w.length, r.1 = keepFirst ((w.take k).map Prod.snd) ∧
      (r.2.1, r.2.2) = (w.take k).getLast?.getD (shortEmpty, empty) ∧
      (r.1.length < limit → k = w.length) := by
  dsimp only
  obtain ⟨hle, hsplit⟩ := getPaginatedUTXOs_split F addrs startAddr startUTXOID limit hl
  refine ⟨?_, hsplit⟩
  obtain ⟨k, -, hu, -, hshort⟩ := hsplit
  set w := walk F startAddr startUTXOID (sortShortIDs addrs.list)
  set r := getPaginatedUTXOs F addrs startAddr startUTXOID limit
  rcases Nat.lt_or_ge r.1.length limit with hlt | hge
  · have hk := hshort hlt
    rw [hu, hk, List.take_length] at hlt ⊢
    exact (List.take_of_length_le hlt.le).symm
  · rw [← List.take_append_drop k w, List.map_append, keepFirst_append, ← hu,
      List.take_left' (by omega)]

/-- Addresses `1` and `2` both own UTXO `7`. -/
def twoOwners : Funds := ⟨fun a => if a = 1 ∨ a = 2 then [7] else [], fun a => by
  dsimp only; split <;> simp⟩

def pairAddrs : ShortSet := ⟨[2, 1], by decide⟩

theorem twoOwners_first_page : 0 < 1 ∧
    (getPaginatedUTXOs twoOwners pairAddrs shortEmpty empty 1).1 =
      (keepFirst ((walk twoOwners shortEmpty empty (sortShortIDs pairAddrs.list)).map
        Prod.snd)).take 1 :=
  ⟨by decide, (paginated_walk twoOwners pairAddrs shortEmpty empty 1 (by decide)).1⟩

end Gecko.Avm
