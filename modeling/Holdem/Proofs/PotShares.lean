import Holdem.Proofs.ChipMaps
import Holdem.Proofs.HandOrder
import Mathlib.Algebra.BigOperators.Group.List.Basic

/-!
# Where the chips of a pot go

The pots that are read off the stakes hold together what was put in, whoever folded. Each of them
has somebody to win it, and its shares add up to it. So handing out the pots pays exactly what was
put in, to players who are still standing, as long as one of the standing players put anything in
and all of them show a hand.
-/
namespace Holdem

namespace Stakes
variable {s : Stakes} {p q : PlayerId} {c : Chips}

@[simp] theorem contribution_contribute :
    (s.contribute p c).contribution q = s.contribution q + if q = p then c else 0 := by
  unfold contribute
  split
  · next h => simp [h]
  · exact NatMap.chips_addChips

@[simp] theorem total_contribute : (s.contribute p c).total = s.total + c := by
  unfold contribute
  split
  · next h => simp [h]
  · exact NatMap.totalChips_addChips _ _ _

@[simp] theorem folded_contribute : (s.contribute p c).folded = s.folded := by
  unfold contribute
  split <;> rfl

theorem contains_contribute (h : (s.contribute p c).contributions.contains q = true) :
    q = p ∨ s.contributions.contains q = true := by
  unfold contribute at h
  split at h
  · exact .inr h
  · exact NatMap.contains_addChips.mp h

theorem mem_standing : (p, c) ∈ s.standing ↔ s.contributions.get? p = some c ∧ p ∉ s.folded := by
  simp [standing, NatMap.mem_entries_iff]

theorem mem_levels : c ∈ s.levels ↔ ∃ p, (p, c) ∈ s.standing := by
  rw [levels, ← NatSet.mem_def, NatSet.mem_ofList, List.mem_map]
  constructor
  · rintro ⟨⟨p, b⟩, he, rfl⟩
    exact ⟨p, he⟩
  · rintro ⟨p, he⟩
    exact ⟨(p, c), he, rfl⟩

theorem mem_reaching : p ∈ s.reaching c ↔ ∃ b, (p, b) ∈ s.standing ∧ c ≤ b := by
  rw [reaching, NatSet.mem_ofList, List.mem_map]
  constructor
  · rintro ⟨⟨p, b⟩, he, rfl⟩
    have hf := List.mem_filter.mp he
    exact ⟨b, hf.1, of_decide_eq_true hf.2⟩
  · rintro ⟨b, he, hb⟩
    exact ⟨(p, b), List.mem_filter.mpr ⟨he, decide_eq_true hb⟩, rfl⟩

theorem above_zero : s.above 0 = s.total := by
  simp [above, total, NatMap.totalChips]

/-- What lies above a height is what lies up to a greater one and what lies above that. -/
theorem between_add_above {low high : Chips} (h : low ≤ high) :
    s.between low high + s.above high = s.above low := by
  unfold between above
  induction s.contributions.values with
  | nil => rfl
  | cons c rest ih =>
      simp only [List.map_cons, List.sum_cons]
      have hc : min c high - min c low + (c - min c high) = c - min c low := by lia
      lia

theorem sum_potsAbove {low : Chips} {levels : List Chips} (hne : levels ≠ [])
    (h : (low :: levels).Pairwise (· ≤ ·)) :
    ((s.potsAbove low levels).map Pot.amount).sum = s.above low := by
  induction levels generalizing low with
  | nil => exact absurd rfl hne
  | cons level rest ih =>
      have hlow := List.pairwise_cons.mp h
      cases rest with
      | nil => simp [potsAbove]
      | cons next more =>
          simp only [potsAbove, List.map_cons, List.sum_cons]
          rw [ih (List.cons_ne_nil _ _) hlow.2]
          exact between_add_above (hlow.1 level List.mem_cons_self)

/-- The pots hold everything that was put in. -/
theorem sum_pots (s : Stakes) : (s.pots.map Pot.amount).sum = s.total := by
  unfold pots
  split
  · next hlevels =>
      split
      · next h => simp [h]
      · simp
  · next hlevels =>
      rw [sum_potsAbove (fun h => hlevels h), above_zero]
      have hasc : s.levels.Pairwise (· ≤ ·) :=
        (NatSet.ofList _).ascending.imp fun h => Nat.le_of_lt h
      exact List.pairwise_cons.mpr ⟨fun l _ => Nat.zero_le l, hasc⟩

theorem exists_level_of_mem_potsAbove {low : Chips} {levels : List Chips} {pot : Pot}
    (h : pot ∈ s.potsAbove low levels) : ∃ l ∈ levels, pot.eligible = s.reaching l := by
  induction levels generalizing low with
  | nil => simp [potsAbove] at h
  | cons level rest ih =>
      cases rest with
      | nil =>
          rw [potsAbove, List.mem_singleton] at h
          exact ⟨level, List.mem_cons_self, by rw [h]⟩
      | cons next more =>
          simp only [potsAbove] at h
          rcases List.mem_cons.mp h with h | h
          · exact ⟨level, List.mem_cons_self, by rw [h]⟩
          · obtain ⟨l, hl, he⟩ := ih h
            exact ⟨l, List.mem_cons_of_mem _ hl, he⟩

/-- With anybody standing, every pot can be won, and only by those standing. -/
theorem eligible_of_mem_pots {pot : Pot} (hne : s.standing ≠ []) (h : pot ∈ s.pots) :
    (∃ p, p ∈ pot.eligible) ∧ ∀ p ∈ pot.eligible, ∃ c, (p, c) ∈ s.standing := by
  obtain ⟨⟨q, b⟩, hq⟩ := List.exists_mem_of_ne_nil _ hne
  have hb : b ∈ s.levels := mem_levels.mpr ⟨q, hq⟩
  have hpots : s.pots = s.potsAbove 0 s.levels := by
    unfold pots
    split
    · next hnil => simp [hnil] at hb
    · rfl
  obtain ⟨l, hl, he⟩ := exists_level_of_mem_potsAbove (hpots ▸ h)
  obtain ⟨p, hp⟩ := mem_levels.mp hl
  rw [he]
  refine ⟨⟨p, mem_reaching.mpr ⟨l, hp, Nat.le_refl l⟩⟩, fun p' hp' => ?_⟩
  obtain ⟨c, hc, _⟩ := mem_reaching.mp hp'
  exact ⟨c, hc⟩

@[simp] theorem totalChips_awardAll : (s.awardAll p).totalChips = s.total := by
  unfold awardAll
  split
  · next h => simp [h]
  · have h := NatMap.totalChips_insert ∅ p s.total
    simpa using h

theorem contains_awardAll (h : (s.awardAll p).contains q = true) : q = p := by
  unfold awardAll at h
  split at h
  · simp at h
  · simpa using h

end Stakes

namespace Pot
variable {pot : Pot} {hands : NatMap HandValue} {order ws : List PlayerId} {p : PlayerId}

theorem sum_extra (n m : Nat) (h : m ≤ n) :
    ((List.range n).map fun i => if i < m then 1 else 0).sum = m := by
  induction n generalizing m with
  | zero => simp; omega
  | succ n ih =>
      rw [List.range_succ, List.map_append, List.sum_append]
      by_cases hm : m ≤ n
      · rw [ih m hm]
        simp [Nat.not_lt.mpr hm]
      · have hm' : m = n + 1 := by omega
        have hall : ((List.range n).map fun i => if i < m then 1 else 0) =
            (List.range n).map fun i => if i < n then 1 else 0 := by
          apply List.map_congr_left
          intro i hi
          have hi' := List.mem_range.mp hi
          rw [if_pos hi', if_pos (by omega)]
        rw [hall, ih n (Nat.le_refl n)]
        simp [hm']

/-- The shares of a split add up to what is split. -/
theorem sum_split (amount : Chips) (h : ws ≠ []) :
    ((split amount ws).map Prod.snd).sum = amount := by
  have hpos : 0 < ws.length := List.length_pos_iff.mpr h
  have hshares : (split amount ws).map Prod.snd =
      (List.range ws.length).map fun i =>
        amount / ws.length + if i < amount % ws.length then 1 else 0 := by
    rw [split, List.map_map, List.range_eq_range', ← List.zipIdx_map_snd 0 ws, List.map_map]
    rfl
  rw [hshares, List.sum_map_add, sum_extra _ _ (Nat.le_of_lt (Nat.mod_lt _ hpos))]
  rw [List.map_const', List.sum_replicate_nat, List.length_range]
  exact Nat.div_add_mod amount ws.length

theorem fst_mem_of_mem_split {amount : Chips} {e : PlayerId × Chips} (h : e ∈ split amount ws) :
    e.1 ∈ ws := by
  rw [split, List.mem_map] at h
  obtain ⟨⟨w, i⟩, hw, rfl⟩ := h
  exact List.fst_mem_of_mem_zipIdx (x := (w, i)) hw

theorem pay_cons (paid : Payouts) (w : PlayerId) (won : Chips) (rest : List (PlayerId × Chips)) :
    pay paid ((w, won) :: rest) = pay (if won = 0 then paid else paid.addChips w won) rest :=
  rfl

theorem totalChips_pay (paid : Payouts) (shares : List (PlayerId × Chips)) :
    (pay paid shares).totalChips = paid.totalChips + (shares.map Prod.snd).sum := by
  induction shares generalizing paid with
  | nil => rfl
  | cons e rest ih =>
      obtain ⟨w, won⟩ := e
      rw [pay_cons, ih, List.map_cons, List.sum_cons]
      split
      · next h => rw [h, Nat.zero_add]
      · rw [NatMap.totalChips_addChips, Nat.add_assoc]

theorem contains_pay {paid : Payouts} {shares : List (PlayerId × Chips)}
    (h : (pay paid shares).contains p = true) :
    paid.contains p = true ∨ p ∈ shares.map Prod.fst := by
  induction shares generalizing paid with
  | nil => exact .inl h
  | cons e rest ih =>
      obtain ⟨w, won⟩ := e
      rw [pay_cons] at h
      rw [List.map_cons, List.mem_cons]
      rcases ih h with h | h
      · split at h
        · exact .inl h
        · rcases NatMap.contains_addChips.mp h with h | h
          · exact .inr (.inl h)
          · exact .inl h
      · exact .inr (.inr h)

theorem mem_eligible_of_mem_winners (h : p ∈ pot.winners hands order) : p ∈ pot.eligible :=
  of_decide_eq_true (List.mem_filter.mp (List.mem_filter.mp h).1).2

/-- A pot is won by somebody if anybody may win it and all who may have a hand and a place. -/
theorem winners_ne_nil (hany : ∃ p, p ∈ pot.eligible)
    (hplace : ∀ p ∈ pot.eligible, p ∈ order)
    (hhand : ∀ p ∈ pot.eligible, hands.contains p = true) : pot.winners hands order ≠ [] := by
  obtain ⟨p, hp⟩ := hany
  have hmem : ∀ {q}, q ∈ order.filter (· ∈ pot.eligible) ↔ q ∈ pot.eligible := fun {q} => by
    rw [List.mem_filter, decide_eq_true_eq]
    exact ⟨And.right, fun h => ⟨hplace q h, h⟩⟩
  obtain ⟨v, hv⟩ := NatMap.contains_iff.mp (hhand p hp)
  have hv' : v ∈ (order.filter (· ∈ pot.eligible)).filterMap hands.get? :=
    List.mem_filterMap.mpr ⟨p, hmem.mpr hp, hv⟩
  obtain ⟨x, hx, hmax⟩ := exists_isGreatest (List.ne_nil_of_mem hv')
  obtain ⟨q, hq, hqx⟩ := List.mem_filterMap.mp hx
  refine List.ne_nil_of_mem (a := q) (List.mem_filter.mpr ⟨hq, ?_⟩)
  rw [hqx, Option.any_some]
  exact hmax

/-- Awarding a pot adds its amount to the payouts, and pays only players who may win it. -/
theorem award_spec (paid : Payouts) (hany : ∃ p, p ∈ pot.eligible)
    (hplace : ∀ p ∈ pot.eligible, p ∈ order)
    (hhand : ∀ p ∈ pot.eligible, hands.contains p = true) :
    ∃ out, pot.award hands order paid = .ok out ∧
      out.totalChips = paid.totalChips + pot.amount ∧
      ∀ p, out.contains p = true → paid.contains p = true ∨ p ∈ pot.eligible := by
  have hfind : pot.eligible.members.find? (fun q => !hands.contains q) = none := by
    rw [List.find?_eq_none]
    intro q hq
    simp [hhand q hq]
  refine ⟨_, by rw [award, hfind], ?_, fun p hp => ?_⟩
  · rw [totalChips_pay, sum_split _ (winners_ne_nil hany hplace hhand)]
  · rcases contains_pay hp with h | h
    · exact .inl h
    · obtain ⟨e, he, rfl⟩ := List.mem_map.mp h
      exact .inr (mem_eligible_of_mem_winners (fst_mem_of_mem_split he))

end Pot

theorem foldlM_award_spec (hands : NatMap HandValue) (order : List PlayerId) {pots : List Pot}
    (hany : ∀ pot ∈ pots, ∃ p, p ∈ pot.eligible)
    (hplace : ∀ pot ∈ pots, ∀ p ∈ pot.eligible, p ∈ order)
    (hhand : ∀ pot ∈ pots, ∀ p ∈ pot.eligible, hands.contains p = true) (paid : Payouts) :
    ∃ out, pots.foldlM (fun payouts pot => pot.award hands order payouts) paid = .ok out ∧
      out.totalChips = paid.totalChips + (pots.map Pot.amount).sum ∧
      ∀ p, out.contains p = true → paid.contains p = true ∨ ∃ pot ∈ pots, p ∈ pot.eligible := by
  induction pots generalizing paid with
  | nil => exact ⟨paid, rfl, by simp, fun p h => .inl h⟩
  | cons pot rest ih =>
      obtain ⟨mid, hmid, hsum, hpaid⟩ := pot.award_spec paid (hany _ List.mem_cons_self)
        (hplace _ List.mem_cons_self) (hhand _ List.mem_cons_self)
      obtain ⟨out, hout, hsum', hpaid'⟩ := ih (fun x hx => hany x (List.mem_cons_of_mem _ hx))
        (fun x hx => hplace x (List.mem_cons_of_mem _ hx))
        (fun x hx => hhand x (List.mem_cons_of_mem _ hx)) mid
      refine ⟨out, ?_, ?_, fun p hp => ?_⟩
      · rw [List.foldlM_cons, hmid]
        exact hout
      · rw [hsum', hsum, List.map_cons, List.sum_cons, Nat.add_assoc]
      · rcases hpaid' p hp with h | ⟨x, hx, hp⟩
        · rcases hpaid p h with h | h
          · exact .inl h
          · exact .inr ⟨pot, List.mem_cons_self, h⟩
        · exact .inr ⟨x, List.mem_cons_of_mem _ hx, hp⟩

/-- Handing out the pots pays what was put in, to standing players. Nobody needs to be standing
when there is nothing to hand out. -/
theorem Stakes.distribute_spec (s : Stakes) (hands : NatMap HandValue) (order : List PlayerId)
    (hany : 0 < s.total → s.standing ≠ [])
    (hplace : ∀ p c, (p, c) ∈ s.standing → p ∈ order)
    (hhand : ∀ p c, (p, c) ∈ s.standing → hands.contains p = true) :
    ∃ payouts, s.distribute hands order = .ok payouts ∧ payouts.totalChips = s.total ∧
      ∀ p, payouts.contains p = true → ∃ c, (p, c) ∈ s.standing := by
  by_cases hne : s.standing = []
  · have hzero : s.total = 0 := Nat.eq_zero_of_not_pos fun h => hany h hne
    have hpots : s.pots = [] := by
      have hlevels : s.levels = [] := by simp [levels, hne]; rfl
      unfold pots
      rw [hlevels, if_pos hzero]
    refine ⟨∅, ?_, ?_, fun p h => ?_⟩
    · simp [distribute, hpots]; rfl
    · rw [hzero]; rfl
    · simp at h
  · have helig := fun pot (h : pot ∈ s.pots) => eligible_of_mem_pots hne h
    obtain ⟨out, hout, hsum, hpaid⟩ := foldlM_award_spec hands order
      (fun pot h => (helig pot h).1)
      (fun pot h p hp => ((helig pot h).2 p hp).elim fun c hc => hplace p c hc)
      (fun pot h p hp => ((helig pot h).2 p hp).elim fun c hc => hhand p c hc) ∅
    refine ⟨out, hout, ?_, fun p hp => ?_⟩
    · rw [hsum, sum_pots, NatMap.totalChips_empty, Nat.zero_add]
    · rcases hpaid p hp with h | ⟨pot, hpot, hp⟩
      · simp at h
      · exact (helig pot hpot).2 p hp

end Holdem
