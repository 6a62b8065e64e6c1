import Holdem.Proofs.PotShares
import Mathlib.Algebra.Order.BigOperators.Group.List
import Mathlib.Algebra.Order.Group.Nat
import Mathlib.Algebra.BigOperators.Group.Finset.Basic
import Mathlib.Data.Nat.Find

/-!
# Pots go to the best hands

A pot is shared as evenly as whole chips allow by those of its players whose hands nobody else who
can win it beats, and what a player is paid is what the shares of all the pots add up to. So nobody
wins more of another player's chips than they put in themselves, except for chips above every
standing contribution, which only those at the top can win. Whoever has the one best hand wins all
of that, and whoever put in the most gets the excess back.
-/
namespace Holdem

namespace Stakes

/-- A contributor who did not fold. -/
def InRunning (s : Stakes) (p : PlayerId) : Prop :=
  s.contributions.contains p = true ∧ p ∉ s.folded

/-- What a player can win at the most: of each contribution as much as they put in themselves,
and what lies above every contribution in the running if theirs is the highest of these. -/
def winnable (s : Stakes) (w : PlayerId) : Chips :=
  (s.contributions.values.map fun c => min c (s.contribution w)).sum +
    if ∀ e ∈ s.standing, e.2 ≤ s.contribution w then
      (s.contributions.values.map fun c => c - s.contribution w).sum
    else 0

end Stakes

namespace Pot

/-- A player who can win the pot and whose hand is beaten by nobody else who can. -/
def HasBest (pot : Pot) (hands : NatMap HandValue) (p : PlayerId) : Prop :=
  p ∈ pot.eligible ∧ ∃ v, hands.get? p = some v ∧
    ∀ q ∈ pot.eligible, ∀ w, hands.get? q = some w → (compare w v).isLE = true

/-- A pot is shared out whole, among the best hands alone, and evenly but for odd chips, which go
to the earliest in order. -/
structure FairlyShared (pot : Pot) (hands : NatMap HandValue) (order : List PlayerId)
    (share : PlayerId → Chips) : Prop where
  whole : (pot.eligible.members.map share).sum = pot.amount
  best : ∀ p, 0 < share p → pot.HasBest hands p
  even : ∀ p q, pot.HasBest hands p → pot.HasBest hands q → [p, q].Sublist order →
    share q ≤ share p ∧ share p ≤ share q + 1

/-! ## The shares of a pot -/

section Split
variable {amount : Chips} {ws : List PlayerId} {p : PlayerId} {shares : List (PlayerId × Chips)}

/-- What falls to `p` out of some shares. -/
def portion (shares : List (PlayerId × Chips)) (p : PlayerId) : Chips :=
  ((shares.filter fun e => e.1 = p).map Prod.snd).sum

theorem portion_cons (e : PlayerId × Chips) :
    portion (e :: shares) p = (if e.1 = p then e.2 else 0) + portion shares p := by
  unfold portion
  rw [List.filter_cons]
  by_cases he : e.1 = p
  · rw [decide_eq_true he, if_pos rfl, if_pos he, List.map_cons, List.sum_cons]
  · rw [decide_eq_false he, if_neg Bool.false_ne_true, if_neg he, Nat.zero_add]

theorem portion_of_not_mem (h : p ∉ shares.map Prod.fst) : portion shares p = 0 := by
  have hnone : shares.filter (fun e => e.1 = p) = [] := by
    rw [List.filter_eq_nil_iff]
    intro e he hp
    exact h (List.mem_map.mpr ⟨e, he, of_decide_eq_true hp⟩)
  rw [portion, hnone]
  rfl

theorem portion_of_mem {c : Chips} (hn : (shares.map Prod.fst).Nodup) (h : (p, c) ∈ shares) :
    portion shares p = c := by
  induction shares with
  | nil => cases h
  | cons e rest ih =>
      obtain ⟨hout, hrest⟩ := List.nodup_cons.mp hn
      rw [portion_cons]
      rcases List.mem_cons.mp h with rfl | h
      · rw [if_pos rfl, portion_of_not_mem hout, Nat.add_zero]
      · have hne : e.1 ≠ p := fun hep => hout (hep ▸ List.mem_map_of_mem h)
        rw [if_neg hne, ih hrest h, Nat.zero_add]

theorem chips_pay {paid : Payouts} :
    (pay paid shares).chips p = paid.chips p + portion shares p := by
  induction shares generalizing paid with
  | nil => rfl
  | cons e rest ih =>
      obtain ⟨w, won⟩ := e
      rw [pay_cons, ih, portion_cons, ← Nat.add_assoc]
      refine congrArg (· + portion rest p) ?_
      split
      · next hwon => simp [hwon]
      · rw [NatMap.chips_addChips]
        simp only [eq_comm]

theorem fst_split : (split amount ws).map Prod.fst = ws := by
  rw [split, List.map_map]
  exact List.zipIdx_map_fst 0 ws

theorem portion_split_getElem (hn : ws.Nodup) {i : Nat} (hi : i < ws.length) :
    portion (split amount ws) ws[i] =
      amount / ws.length + if i < amount % ws.length then 1 else 0 := by
  refine portion_of_mem (by rw [fst_split]; exact hn) ?_
  rw [split, List.mem_map]
  exact ⟨(ws[i], i), List.mem_zipIdx_iff_getElem?.mpr (List.getElem?_eq_getElem hi), rfl⟩

theorem sum_portion_split (amount : Chips) (hn : ws.Nodup) :
    (ws.map (portion (split amount ws))).sum = ((split amount ws).map Prod.snd).sum := by
  have hfst : (split amount ws).map Prod.fst = ws := fst_split
  have hportions : ws.map (portion (split amount ws)) = (split amount ws).map Prod.snd := by
    calc ws.map (portion (split amount ws))
        = ((split amount ws).map Prod.fst).map (portion (split amount ws)) := by rw [hfst]
      _ = (split amount ws).map Prod.snd := by
          rw [List.map_map]
          refine List.map_congr_left fun e he => ?_
          exact portion_of_mem (by rw [hfst]; exact hn) he
  rw [hportions]

end Split

section Shares
variable {pot : Pot} {hands : NatMap HandValue} {order : List PlayerId} {p : PlayerId}

/-- What a player wins of a pot. -/
def shareOf (pot : Pot) (hands : NatMap HandValue) (order : List PlayerId) (p : PlayerId) :
    Chips :=
  portion (split pot.amount (pot.winners hands order)) p

theorem mem_winners (hplace : ∀ q ∈ pot.eligible, q ∈ order) :
    p ∈ pot.winners hands order ↔ pot.HasBest hands p := by
  have hmem : ∀ {q}, q ∈ order.filter (· ∈ pot.eligible) ↔ q ∈ pot.eligible := fun {q} => by
    rw [List.mem_filter, decide_eq_true_eq]
    exact ⟨And.right, fun h => ⟨hplace q h, h⟩⟩
  simp only [winners, List.mem_filter (p := fun q => (hands.get? q).any _), hmem, HasBest,
    Option.any_eq_true, isGreatest, List.all_eq_true, List.mem_filterMap]
  refine and_congr_right fun _ => exists_congr fun v => and_congr_right fun _ => ?_
  constructor
  · intro h q hq w hw
    exact h w ⟨q, hq, hw⟩
  · rintro h w ⟨q, hq, hw⟩
    exact h q hq w hw

theorem winners_nodup (honce : ∀ q ∈ pot.eligible, order.count q = 1) :
    (pot.winners hands order).Nodup := by
  refine List.Nodup.filter _ (List.nodup_iff_count_le_one.mpr fun q => ?_)
  by_cases hq : q ∈ pot.eligible
  · exact Nat.le_trans (List.filter_sublist.count_le q) (Nat.le_of_eq (honce q hq))
  · rw [List.count_eq_zero_of_not_mem]
    · exact Nat.zero_le 1
    · exact fun h => hq (of_decide_eq_true (List.mem_filter.mp h).2)

theorem shareOf_of_not_mem (h : p ∉ pot.winners hands order) : pot.shareOf hands order p = 0 := by
  apply portion_of_not_mem
  rw [fst_split]
  exact h

theorem sum_shareOf (hn : (pot.winners hands order).Nodup) (hne : pot.winners hands order ≠ []) :
    (pot.eligible.members.map (pot.shareOf hands order)).sum = pot.amount := by
  have hmembers : pot.eligible.members.Nodup := pot.eligible.ascending.imp Nat.ne_of_lt
  have hsub : (pot.winners hands order).toFinset ⊆ pot.eligible.members.toFinset := fun q hq =>
    List.mem_toFinset.mpr (mem_eligible_of_mem_winners (List.mem_toFinset.mp hq))
  calc (pot.eligible.members.map (pot.shareOf hands order)).sum
      = ∑ q ∈ pot.eligible.members.toFinset, pot.shareOf hands order q :=
        (List.sum_toFinset _ hmembers).symm
    _ = ∑ q ∈ (pot.winners hands order).toFinset, pot.shareOf hands order q :=
        (Finset.sum_subset hsub fun q _ hq =>
          shareOf_of_not_mem fun h => hq (List.mem_toFinset.mpr h)).symm
    _ = ((pot.winners hands order).map (pot.shareOf hands order)).sum :=
        List.sum_toFinset _ hn
    _ = ((split pot.amount (pot.winners hands order)).map Prod.snd).sum :=
        sum_portion_split _ hn
    _ = pot.amount := sum_split _ hne

/-- The odd chips go to the first winners, one to each. -/
theorem pairwise_shareOf (hn : (pot.winners hands order).Nodup) :
    (pot.winners hands order).Pairwise fun p q =>
      pot.shareOf hands order q ≤ pot.shareOf hands order p ∧
        pot.shareOf hands order p ≤ pot.shareOf hands order q + 1 := by
  refine List.pairwise_iff_getElem.mpr fun i j hi hj hij => ?_
  rw [shareOf, shareOf, portion_split_getElem hn hi, portion_split_getElem hn hj]
  split <;> split <;> lia

/-- Winners stand as they do in the seat order. -/
theorem pair_sublist_winners {q : PlayerId} (hp : p ∈ pot.winners hands order)
    (hq : q ∈ pot.winners hands order) (hpq : [p, q].Sublist order) :
    [p, q].Sublist (pot.winners hands order) := by
  have hboth : ∀ r ∈ [p, q], r ∈ pot.winners hands order := by
    intro r hr
    rcases List.mem_pair.mp hr with rfl | rfl
    · exact hp
    · exact hq
  have hcontend : [p, q].Sublist (order.filter (· ∈ pot.eligible)) := by
    rw [← List.filter_eq_self.mpr fun r hr => (List.mem_filter.mp (List.mem_filter.mp
      (hboth r hr)).1).2]
    exact hpq.filter _
  rw [← List.filter_eq_self.mpr fun r hr => (List.mem_filter.mp (hboth r hr)).2]
  exact hcontend.filter _

/-- The pots are shared out fairly when all who can win them have a hand and one place. -/
theorem fairlyShared_shareOf (hany : ∃ p, p ∈ pot.eligible)
    (honce : ∀ q ∈ pot.eligible, order.count q = 1)
    (hhand : ∀ q ∈ pot.eligible, hands.contains q = true) :
    pot.FairlyShared hands order (pot.shareOf hands order) := by
  have hplace : ∀ q ∈ pot.eligible, q ∈ order := fun q hq =>
    List.count_pos_iff.mp (Nat.lt_of_lt_of_eq Nat.zero_lt_one (honce q hq).symm)
  have hn : (pot.winners hands order).Nodup := winners_nodup honce
  refine
    { whole := sum_shareOf hn (winners_ne_nil hany hplace hhand)
      best := fun p hp => ?_
      even := fun p q hp hq hpq => ?_ }
  · refine (mem_winners hplace).mp (Classical.byContradiction fun hout => ?_)
    rw [shareOf_of_not_mem hout] at hp
    exact Nat.lt_irrefl 0 hp
  · exact List.pairwise_iff_forall_sublist.mp (pairwise_shareOf hn)
      (pair_sublist_winners ((mem_winners hplace).mpr hp) ((mem_winners hplace).mpr hq) hpq)

/-- Of a pot that only one player can win, or has the best hand for, that player gets it all. -/
theorem FairlyShared.eq_amount {share : PlayerId → Chips} {w : PlayerId}
    (h : pot.FairlyShared hands order share) (hw : w ∈ pot.eligible)
    (hsole : ∀ q, pot.HasBest hands q → q = w) : share w = pot.amount := by
  have hmembers : pot.eligible.members.Nodup := pot.eligible.ascending.imp Nat.ne_of_lt
  have hsum : (pot.eligible.members.map share).sum = pot.eligible.members.count w • share w :=
    List.sum_map_eq_nsmul_single w share fun q hq _ =>
      Nat.eq_zero_of_not_pos fun hpos => hq (hsole q (h.best q hpos))
  rw [← h.whole, hsum, List.count_eq_one_of_mem hmembers hw, one_nsmul]

theorem FairlyShared.le_amount {share : PlayerId → Chips} (h : pot.FairlyShared hands order share)
    (p : PlayerId) : share p ≤ if p ∈ pot.eligible then pot.amount else 0 := by
  split
  · next hp =>
      rw [← h.whole]
      exact List.le_sum_of_mem (M := Nat) (List.mem_map_of_mem hp)
  · next hp => exact Nat.le_of_not_lt fun hpos => hp (h.best p hpos).1

end Shares

end Pot

namespace Stakes
variable {s : Stakes} {hands : NatMap HandValue} {order : List PlayerId} {p w : PlayerId}

theorem inRunning_iff : s.InRunning p ↔ (p, s.contribution p) ∈ s.standing := by
  rw [mem_standing, InRunning, NatMap.contains_iff]
  refine and_congr_left fun _ => ⟨?_, fun h => ⟨_, h⟩⟩
  rintro ⟨c, hc⟩
  rw [contribution, NatMap.chips, hc, Option.getD_some]

theorem inRunning_of_standing {c : Chips} (h : (p, c) ∈ s.standing) :
    s.InRunning p ∧ s.contribution p = c := by
  obtain ⟨hget, hfold⟩ := mem_standing.mp h
  refine ⟨⟨NatMap.contains_iff.mpr ⟨c, hget⟩, hfold⟩, ?_⟩
  rw [contribution, NatMap.chips, hget, Option.getD_some]

theorem mem_reaching_iff {c : Chips} :
    p ∈ s.reaching c ↔ s.InRunning p ∧ c ≤ s.contribution p := by
  rw [mem_reaching]
  constructor
  · rintro ⟨b, hb, hcb⟩
    obtain ⟨hp, rfl⟩ := inRunning_of_standing hb
    exact ⟨hp, hcb⟩
  · rintro ⟨hp, hc⟩
    exact ⟨_, inRunning_iff.mp hp, hc⟩

theorem mem_levels_iff {c : Chips} : c ∈ s.levels ↔ ∃ p, s.InRunning p ∧ s.contribution p = c := by
  rw [mem_levels]
  constructor
  · rintro ⟨p, hp⟩
    exact ⟨p, inRunning_of_standing hp⟩
  · rintro ⟨p, hp, rfl⟩
    exact ⟨p, inRunning_iff.mp hp⟩

theorem levels_ascending : s.levels.Pairwise (· < ·) := (NatSet.ofList _).ascending

theorem pots_eq (h : s.InRunning p) : s.pots = s.potsAbove 0 s.levels := by
  have hlevel : s.contribution p ∈ s.levels := mem_levels_iff.mpr ⟨p, h, rfl⟩
  unfold pots
  split
  · next hnil => simp [hnil] at hlevel
  · rfl

/-! ## Whose hand is missing -/

/-- The main pot can be won by everybody in the running. -/
theorem exists_main_pot (h : s.InRunning p) :
    ∃ main rest, s.pots = main :: rest ∧ ∀ q, q ∈ main.eligible ↔ s.InRunning q := by
  have hlevel : s.contribution p ∈ s.levels := mem_levels_iff.mpr ⟨p, h, rfl⟩
  rw [pots_eq h]
  cases hlevels : s.levels with
  | nil => simp [hlevels] at hlevel
  | cons lowest more =>
      have hall : ∀ q, q ∈ s.reaching lowest ↔ s.InRunning q := by
        refine fun q => mem_reaching_iff.trans (and_iff_left_of_imp fun hq => ?_)
        have hq' : s.contribution q ∈ s.levels := mem_levels_iff.mpr ⟨q, hq, rfl⟩
        have hasc := s.levels_ascending
        rw [hlevels] at hq' hasc
        rcases List.mem_cons.mp hq' with hq' | hq'
        · exact Nat.le_of_eq hq'.symm
        · exact Nat.le_of_lt (List.rel_of_pairwise_cons hasc hq')
      cases more with
      | nil => exact ⟨_, [], rfl, hall⟩
      | cons next more => exact ⟨_, _, rfl, hall⟩

theorem find?_ascending {l : List Nat} {f : Nat → Bool} {n : Nat} (hl : l.Pairwise (· < ·))
    (h : l.find? f = some n) : ∀ m ∈ l, f m = true → n ≤ m := by
  obtain ⟨-, before, after, rfl, hbefore⟩ := List.find?_eq_some_iff_append.mp h
  intro m hm hfm
  rcases List.mem_append.mp hm with hm | hm
  · have hnot := hbefore m hm
    rw [hfm] at hnot
    cases hnot
  · rcases List.mem_cons.mp hm with rfl | hm
    · exact Nat.le_refl m
    · exact Nat.le_of_lt (List.rel_of_pairwise_cons (List.pairwise_append.mp hl).2.1 hm)

theorem award_of_missing {pot : Pot} {paid : Payouts}
    (hp : p ∈ pot.eligible) (hnone : hands.contains p = false)
    (hleast : ∀ q ∈ pot.eligible, hands.contains q = false → p ≤ q) :
    pot.award hands order paid = .error (.missingHand p) := by
  have hsome : (pot.eligible.members.find? fun q => !hands.contains q).isSome = true := by
    rw [List.find?_isSome]
    exact ⟨p, hp, by rw [hnone]; rfl⟩
  obtain ⟨q, hq⟩ := Option.isSome_iff_exists.mp hsome
  have hqp : q ≤ p := find?_ascending pot.eligible.ascending hq p hp (by rw [hnone]; rfl)
  have hpq : p ≤ q := hleast q (List.mem_of_find?_eq_some hq) (by simpa using List.find?_some hq)
  rw [Pot.award, hq, Nat.le_antisymm hpq hqp]

/-- The least player without a hand is the one reported. -/
theorem distribute_of_missing (order : List PlayerId) (hp : s.InRunning p)
    (hnone : hands.contains p = false)
    (hleast : ∀ q, s.InRunning q → hands.contains q = false → p ≤ q) :
    s.distribute hands order = .error (.missingHand p) := by
  obtain ⟨main, rest, hpots, hmain⟩ := exists_main_pot hp
  rw [distribute, hpots, List.foldlM_cons, award_of_missing ((hmain p).mpr hp) hnone]
  · rfl
  · exact fun q hq => hleast q ((hmain q).mp hq)

/-! ## What the pots come to for one player -/

/-- Every pot is shared out on top of the earlier ones. -/
theorem foldlM_award_chips (order : List PlayerId) {pots : List Pot}
    (hhand : ∀ pot ∈ pots, ∀ p ∈ pot.eligible, hands.contains p = true) (paid : Payouts) :
    ∃ out, pots.foldlM (fun payouts pot => pot.award hands order payouts) paid = .ok out ∧
      ∀ p, out.chips p = paid.chips p + (pots.map fun pot => pot.shareOf hands order p).sum := by
  induction pots generalizing paid with
  | nil => exact ⟨paid, rfl, fun p => rfl⟩
  | cons pot rest ih =>
      have hfind : pot.eligible.members.find? (fun q => !hands.contains q) = none := by
        rw [List.find?_eq_none]
        intro q hq
        simp [hhand pot List.mem_cons_self q hq]
      obtain ⟨out, hout, hchips⟩ := ih (fun x hx => hhand x (List.mem_cons_of_mem _ hx))
        (Pot.pay paid (Pot.split pot.amount (pot.winners hands order)))
      refine ⟨out, ?_, fun p => ?_⟩
      · rw [List.foldlM_cons, Pot.award, hfind]
        exact hout
      · rw [hchips p, Pot.chips_pay, List.map_cons, List.sum_cons, Nat.add_assoc]
        rfl

theorem between_add_between {low mid high : Chips} (hlow : low ≤ mid) (hhigh : mid ≤ high) :
    s.between low mid + s.between mid high = s.between low high := by
  unfold between
  induction s.contributions.values with
  | nil => rfl
  | cons c rest ih =>
      simp only [List.map_cons, List.sum_cons]
      have hc : min c mid - min c low + (min c high - min c mid) = min c high - min c low := by lia
      lia

/-- The pots that a player can win hold what lies up to the height of their own contribution, and
what lies above it if it is the highest. The induction is over the heights above `low`. -/
theorem sum_winnable_potsAbove {low c : Chips} {levels : List Chips}
    (hlow : ∀ l ∈ levels, low ≤ l) (hasc : levels.Pairwise (· < ·)) (hc : c ∈ levels)
    (hw : ∀ l, w ∈ s.reaching l ↔ l ≤ c) :
    ((s.potsAbove low levels).map fun pot => if w ∈ pot.eligible then pot.amount else 0).sum =
      s.between low c + if ∀ l ∈ levels, l ≤ c then s.above c else 0 := by
  induction levels generalizing low with
  | nil => cases hc
  | cons level rest ih =>
      obtain ⟨hlevel, hrest⟩ := List.pairwise_cons.mp hasc
      have hlow' := hlow level List.mem_cons_self
      cases rest with
      | nil =>
          obtain rfl := List.mem_singleton.mp hc
          simp [potsAbove, (hw c).mpr (Nat.le_refl c), between_add_above hlow']
      | cons next more =>
          rw [potsAbove, List.map_cons, List.sum_cons]
          · by_cases htop : c = level
            · -- The player's contribution ends here, so no later pot can be won.
              subst htop
              have hnone : ((s.potsAbove c (next :: more)).map fun pot =>
                  if w ∈ pot.eligible then pot.amount else 0).sum = 0 := by
                refine List.sum_eq_zero fun x hx => ?_
                obtain ⟨pot, hpot, rfl⟩ := List.mem_map.mp hx
                obtain ⟨l, hl, he⟩ := exists_level_of_mem_potsAbove hpot
                rw [he, if_neg fun h => Nat.not_le_of_lt (hlevel l hl) ((hw l).mp h)]
              have hmore : ¬ ∀ l ∈ c :: next :: more, l ≤ c := fun h =>
                Nat.not_le_of_lt (hlevel next List.mem_cons_self) (h next (by simp))
              rw [hnone, if_pos ((hw c).mpr (Nat.le_refl c)), if_neg hmore]
            · have hc' := (List.mem_cons.mp hc).resolve_left htop
              have hlt := hlevel c hc'
              have hiff : (∀ l ∈ next :: more, l ≤ c) ↔ ∀ l ∈ level :: next :: more, l ≤ c := by
                rw [List.forall_mem_cons (a := level)]
                exact (and_iff_right (Nat.le_of_lt hlt)).symm
              rw [ih (fun l hl => Nat.le_of_lt (hlevel l hl)) hrest hc',
                if_pos ((hw level).mpr (Nat.le_of_lt hlt)), ← Nat.add_assoc,
                between_add_between hlow' (Nat.le_of_lt hlt), if_congr hiff rfl rfl]
          · exact List.cons_ne_nil _ _

/-- The pots that a player can win hold what that player can win at the most. -/
theorem sum_winnable_pots (h : s.InRunning w) :
    (s.pots.map fun pot => if w ∈ pot.eligible then pot.amount else 0).sum = s.winnable w := by
  have hlevel : s.contribution w ∈ s.levels := mem_levels_iff.mpr ⟨w, h, rfl⟩
  have hiff : (∀ l ∈ s.levels, l ≤ s.contribution w) ↔
      ∀ e ∈ s.standing, e.2 ≤ s.contribution w := by
    constructor
    · rintro htop ⟨p, c⟩ he
      exact htop c (mem_levels.mpr ⟨p, he⟩)
    · intro htop l hl
      obtain ⟨p, hp⟩ := mem_levels.mp hl
      exact htop (p, l) hp
  rw [pots_eq h, sum_winnable_potsAbove (fun l _ => Nat.zero_le l) levels_ascending hlevel
    fun l => mem_reaching_iff.trans (and_iff_right h), winnable, if_congr hiff rfl rfl]
  have hup : s.between 0 (s.contribution w) =
      (s.contributions.values.map fun c => min c (s.contribution w)).sum := by
    simp only [between, Nat.min_zero, Nat.sub_zero]
  have habove : s.above (s.contribution w) =
      (s.contributions.values.map fun c => c - s.contribution w).sum := by
    refine congrArg List.sum (List.map_congr_left fun c _ => ?_)
    lia
  rw [hup, habove]

theorem sub_le_above (h : s.InRunning w) (low : Chips) :
    s.contribution w - low ≤ s.above low := by
  obtain ⟨c, hc⟩ := NatMap.contains_iff.mp h.1
  have hmem : s.contribution w ∈ s.contributions.values := by
    rw [contribution, NatMap.chips, hc, Option.getD_some]
    exact List.mem_map_of_mem (NatMap.mem_entries_iff.mpr hc)
  refine Nat.le_trans ?_ (List.le_sum_of_mem (M := Nat) (List.mem_map_of_mem hmem))
  lia

/-- Whoever put in more than anybody else is alone in the last pot. The induction is over the
heights above `low`, all but the last of which are heights of others. -/
theorem exists_own_potsAbove {low rest : Chips} {levels : List Chips} (h : s.InRunning w)
    (hmost : rest < s.contribution w) (hothers : ∀ q, q ≠ w → s.contribution q ≤ rest)
    (hlow : low ≤ rest) (hasc : levels.Pairwise (· < ·)) (hw : s.contribution w ∈ levels)
    (hlevels : ∀ l ∈ levels, l = s.contribution w ∨ l ≤ rest) :
    ∃ pot ∈ s.potsAbove low levels, w ∈ pot.eligible ∧ (∀ q ∈ pot.eligible, q = w) ∧
      s.contribution w - rest ≤ pot.amount := by
  induction levels generalizing low with
  | nil => cases hw
  | cons level more ih =>
      obtain ⟨hlevel, hmore⟩ := List.pairwise_cons.mp hasc
      cases more with
      | nil =>
          obtain hw := List.mem_singleton.mp hw
          refine ⟨_, List.mem_singleton_self _, ?_, fun q hq => ?_, ?_⟩
          · exact mem_reaching_iff.mpr ⟨h, Nat.le_of_eq hw.symm⟩
          · refine Classical.byContradiction fun hne => ?_
            have hreach := (mem_reaching_iff.mp hq).2
            exact Nat.not_le_of_lt (hw ▸ hmost) (Nat.le_trans hreach (hothers q hne))
          · exact Nat.le_trans (Nat.sub_le_sub_left hlow _) (sub_le_above h low)
      | cons next later =>
          have hne : s.contribution w ≠ level := fun he => by
            have hnext := hlevel next List.mem_cons_self
            rcases hlevels next (by simp) with hn | hn
            · exact absurd (hn.trans he) (Nat.ne_of_gt hnext)
            · exact Nat.lt_asymm hmost (Nat.lt_of_lt_of_le (he ▸ hnext) hn)
          obtain ⟨pot, hpot, hrest⟩ := ih
            ((hlevels level List.mem_cons_self).resolve_left (Ne.symm hne)) hmore
            ((List.mem_cons.mp hw).resolve_left hne)
            (fun l hl => hlevels l (List.mem_cons_of_mem _ hl))
          refine ⟨pot, ?_, hrest⟩
          rw [potsAbove]
          · exact List.mem_cons_of_mem _ hpot
          · exact List.cons_ne_nil _ _

theorem exists_own_pot {rest : Chips} (h : s.InRunning w) (hmost : rest < s.contribution w)
    (hothers : ∀ q, q ≠ w → s.contribution q ≤ rest) :
    ∃ pot ∈ s.pots, w ∈ pot.eligible ∧ (∀ q ∈ pot.eligible, q = w) ∧
      s.contribution w - rest ≤ pot.amount := by
  rw [pots_eq h]
  refine exists_own_potsAbove h hmost hothers (Nat.zero_le _) levels_ascending
    (mem_levels_iff.mpr ⟨w, h, rfl⟩) fun l hl => ?_
  obtain ⟨q, -, rfl⟩ := mem_levels_iff.mp hl
  by_cases hq : q = w
  · exact .inl (hq ▸ rfl)
  · exact .inr (hothers q hq)

/-! ## Fair payouts -/

/-- What can be said of the payouts of all the pots. -/
structure FairlyPaid (s : Stakes) (hands : NatMap HandValue) (order : List PlayerId)
    (payouts : Payouts) : Prop where
  whole : payouts.totalChips = s.total
  running : ∀ p, payouts.contains p = true → s.InRunning p
  /-- Payouts are made up of fair shares of the pots. -/
  shared : ∃ share : Pot → PlayerId → Chips,
    (∀ pot ∈ s.pots, pot.FairlyShared hands order (share pot)) ∧
      ∀ p, payouts.chips p = (s.pots.map fun pot => share pot p).sum
  capped : ∀ w, s.InRunning w → payouts.chips w ≤ s.winnable w
  /-- The one best hand wins all that it can. -/
  unrivalled : ∀ w v, s.InRunning w → hands.get? w = some v →
    (∀ q x, s.InRunning q → q ≠ w → hands.get? q = some x → compare x v = .lt) →
    payouts.chips w = s.winnable w
  /-- What nobody else could match comes back. -/
  excess : ∀ w rest, s.InRunning w → (∀ q, q ≠ w → s.contribution q ≤ rest) →
    s.contribution w - rest ≤ payouts.chips w

section Paid
variable {payouts : Payouts} {share : Pot → PlayerId → Chips}

theorem capped_of_shared (hshare : ∀ pot ∈ s.pots, pot.FairlyShared hands order (share pot))
    (hpaid : ∀ p, payouts.chips p = (s.pots.map fun pot => share pot p).sum)
    (hw : s.InRunning w) : payouts.chips w ≤ s.winnable w := by
  rw [hpaid w, ← sum_winnable_pots hw]
  exact List.sum_le_sum (M := Nat) fun pot hpot => (hshare pot hpot).le_amount w

theorem unrivalled_of_shared (hshare : ∀ pot ∈ s.pots, pot.FairlyShared hands order (share pot))
    (hpaid : ∀ p, payouts.chips p = (s.pots.map fun pot => share pot p).sum) {v : HandValue}
    (hw : s.InRunning w) (hv : hands.get? w = some v)
    (hbeats : ∀ q x, s.InRunning q → q ≠ w → hands.get? q = some x → compare x v = .lt) :
    payouts.chips w = s.winnable w := by
  rw [hpaid w, ← sum_winnable_pots hw]
  refine congrArg List.sum (List.map_congr_left fun pot hpot => ?_)
  split
  · next hin =>
      refine (hshare pot hpot).eq_amount hin fun q hbest => ?_
      refine Classical.byContradiction fun hne => ?_
      obtain ⟨hq, x, hx, hmax⟩ := hbest
      have hstands := List.ne_nil_of_mem (inRunning_iff.mp hw)
      obtain ⟨c, hc⟩ := (eligible_of_mem_pots hstands hpot).2 q hq
      have hlt := hbeats q x (inRunning_of_standing hc).1 hne hx
      have hle := hmax w hin v hv
      rw [HandValue.compare_swap, hlt] at hle
      cases hle
  · next hout =>
      exact Nat.le_zero.mp (Nat.le_trans ((hshare pot hpot).le_amount w) (by simp [hout]))

theorem excess_of_shared (hshare : ∀ pot ∈ s.pots, pot.FairlyShared hands order (share pot))
    (hpaid : ∀ p, payouts.chips p = (s.pots.map fun pot => share pot p).sum) {rest : Chips}
    (hw : s.InRunning w) (hothers : ∀ q, q ≠ w → s.contribution q ≤ rest) :
    s.contribution w - rest ≤ payouts.chips w := by
  by_cases hmost : rest < s.contribution w
  · obtain ⟨pot, hpot, hin, hsole, hamount⟩ := exists_own_pot hw hmost hothers
    have hall := (hshare pot hpot).eq_amount hin fun q hbest => hsole q hbest.1
    rw [hpaid w]
    refine Nat.le_trans hamount (Nat.le_trans (Nat.le_of_eq hall.symm) ?_)
    exact List.le_sum_of_mem (M := Nat) (List.mem_map_of_mem hpot)
  · rw [Nat.sub_eq_zero_of_le (Nat.le_of_not_lt hmost)]
    exact Nat.zero_le _

end Paid

/-- If everybody in the running shows a hand, the pots are paid out fairly. -/
theorem fairlyPaid_of_shown (hany : ∃ p, s.InRunning p)
    (honce : ∀ p, s.InRunning p → order.count p = 1)
    (hhand : ∀ p, s.InRunning p → hands.contains p = true) :
    ∃ payouts, s.distribute hands order = .ok payouts ∧ s.FairlyPaid hands order payouts := by
  obtain ⟨first, hfirst⟩ := hany
  have hne : s.standing ≠ [] := List.ne_nil_of_mem (inRunning_iff.mp hfirst)
  have hplace : ∀ p c, (p, c) ∈ s.standing → p ∈ order := fun p c h =>
    List.count_pos_iff.mp
      (Nat.lt_of_lt_of_eq Nat.zero_lt_one (honce p (inRunning_of_standing h).1).symm)
  have helig : ∀ pot ∈ s.pots, ∀ p ∈ pot.eligible, s.InRunning p := fun pot hpot p hp =>
    ((eligible_of_mem_pots hne hpot).2 p hp).elim fun _ hc => (inRunning_of_standing hc).1
  obtain ⟨payouts, hok, hwhole, hrunning⟩ := s.distribute_spec hands order (fun _ => hne) hplace
    fun p c h => hhand p (inRunning_of_standing h).1
  obtain ⟨out, hout, hchips⟩ := foldlM_award_chips order
    (fun pot hpot p hp => hhand p (helig pot hpot p hp)) ∅
  obtain rfl : out = payouts := Except.ok.inj (hout.symm.trans hok)
  have hshare : ∀ pot ∈ s.pots, pot.FairlyShared hands order (pot.shareOf hands order) :=
    fun pot hpot => Pot.fairlyShared_shareOf (eligible_of_mem_pots hne hpot).1
      (fun q hq => honce q (helig pot hpot q hq)) fun q hq => hhand q (helig pot hpot q hq)
  have hpaid : ∀ p, out.chips p = (s.pots.map fun pot => pot.shareOf hands order p).sum :=
    fun p => (hchips p).trans (Nat.zero_add _)
  exact ⟨out, hok,
    { whole := hwhole
      running := fun p hp => (hrunning p hp).elim fun _ hc => (inRunning_of_standing hc).1
      shared := ⟨_, hshare, hpaid⟩
      capped := fun w hw => capped_of_shared hshare hpaid hw
      unrivalled := fun w v hw hv hbeats => unrivalled_of_shared hshare hpaid hw hv hbeats
      excess := fun w rest hw hothers => excess_of_shared hshare hpaid hw hothers }⟩

/-- If somebody shows none, there is a least player who does not. -/
theorem exists_least_missing (h : ¬ ∀ p, s.InRunning p → hands.contains p = true) :
    ∃ p, s.InRunning p ∧ hands.contains p = false ∧
      ∀ q, s.InRunning q → hands.contains q = false → p ≤ q := by
  classical
  have hex : ∃ p, s.InRunning p ∧ hands.contains p = false := by
    refine Classical.byContradiction fun hall => h fun p hp => ?_
    exact Bool.eq_true_of_not_eq_false fun hnone => hall ⟨p, hp, hnone⟩
  obtain ⟨hleast, hnone⟩ := Nat.find_spec hex
  exact ⟨Nat.find hex, hleast, hnone, fun q hq hqnone => Nat.find_min' hex ⟨hq, hqnone⟩⟩

/-- The pots can be paid out exactly if everybody in the running shows a hand, and then they are
paid out fairly. Otherwise the least player without one is reported. -/
theorem distribute_fairly (s : Stakes) (hands : NatMap HandValue) (order : List PlayerId)
    (hany : ∃ p, s.InRunning p) (honce : ∀ p, s.InRunning p → order.count p = 1) :
    (∀ p, s.distribute hands order = .error (.missingHand p) ↔
      s.InRunning p ∧ hands.contains p = false ∧
        ∀ q, s.InRunning q → hands.contains q = false → p ≤ q) ∧
    ((∀ p, s.InRunning p → hands.contains p = true) →
      ∃ payouts, s.distribute hands order = .ok payouts ∧ s.FairlyPaid hands order payouts) := by
  refine ⟨fun p => ⟨fun herr => ?_, ?_⟩, fairlyPaid_of_shown hany honce⟩
  · by_cases hall : ∀ q, s.InRunning q → hands.contains q = true
    · obtain ⟨payouts, hok, -⟩ := fairlyPaid_of_shown hany honce hall
      rw [hok] at herr
      cases herr
    · -- The least player without a hand is reported, and only one player is.
      obtain ⟨q, hq, hnone, hleast⟩ := exists_least_missing hall
      rw [distribute_of_missing order hq hnone hleast] at herr
      cases herr
      exact ⟨hq, hnone, hleast⟩
  · rintro ⟨hp, hnone, hleast⟩
    exact distribute_of_missing order hp hnone hleast

/-- Three players are in the running for two pots, and two that folded have left an odd chip in the
first of them and more than anybody could match. -/
def oddStakes : Stakes :=
  (((((({} : Stakes).contribute 1 5).contribute 2 5).contribute 3 9).contribute 4 12).contribute
    5 1 |>.fold 4).fold 5

/-- The players in the main pot alone have the same hand, which is the best. -/
def tiedHands : NatMap HandValue :=
  .ofList [(1, ⟨.onePair, [9, 14, 5, 3]⟩), (2, ⟨.onePair, [9, 14, 5, 3]⟩), (3, ⟨.highCard, [14]⟩)]

theorem distribute_fairly_odd :
    (∃ p, oddStakes.InRunning p) ∧
      (∀ p, oddStakes.InRunning p → [3, 2, 4, 1, 5].count p = 1) ∧
      (∀ p, oddStakes.InRunning p → tiedHands.contains p = true) ∧
      ∃ payouts, oddStakes.distribute tiedHands [3, 2, 4, 1, 5] = .ok payouts ∧
        oddStakes.FairlyPaid tiedHands [3, 2, 4, 1, 5] payouts := by
  have hstanding : oddStakes.standing = [(1, 5), (2, 5), (3, 9)] := by decide
  have hrunning : ∀ p, oddStakes.InRunning p → p ∈ [1, 2, 3] := fun p hp => by
    have hmem := List.mem_map_of_mem (f := Prod.fst) (inRunning_iff.mp hp)
    rwa [hstanding] at hmem
  have hany : ∃ p, oddStakes.InRunning p := ⟨1, by decide, by decide⟩
  have honce : ∀ p, oddStakes.InRunning p → [3, 2, 4, 1, 5].count p = 1 := fun p hp =>
    (by decide : ∀ q ∈ [1, 2, 3], [3, 2, 4, 1, 5].count q = 1) p (hrunning p hp)
  have hhand : ∀ p, oddStakes.InRunning p → tiedHands.contains p = true := fun p hp =>
    (by decide : ∀ q ∈ [1, 2, 3], tiedHands.contains q = true) p (hrunning p hp)
  exact ⟨hany, honce, hhand, (distribute_fairly oddStakes tiedHands _ hany honce).2 hhand⟩

/-- The odd chip of the main pot goes to the second player, who comes before the first in order. -/
example : (oddStakes.distribute tiedHands [3, 2, 4, 1, 5]).toOption.map NatMap.entries =
    some [(1, 10), (2, 11), (3, 11)] := by decide

end Stakes
end Holdem
