import Holdem.HandValue.Best
import Holdem.Proofs.Hand.Course
import Mathlib.Algebra.Order.BigOperators.Group.List
import Mathlib.Data.List.Perm.Subperm
import Mathlib.Tactic.GCongr
import Mathlib.Tactic.Ring

/-!
# Hands come to an end

What is left of a hand is measured by the streets that are still to be dealt, the chips that its
players have behind, and the actions they owe. A raise makes everybody owe an action again but
takes a chip at least from behind, and so does a new street but there is one less of them. With
streets and chips counted once for every player that was dealt in, each accepted action leaves
less, and nothing else that can happen leaves more.
-/
namespace Holdem

namespace NatSet
variable {s : NatSet} {n : Nat}

theorem size_le_of_mem {l : List Nat} (h : ∀ k ∈ s, k ∈ l) : s.size ≤ l.length :=
  (List.Nodup.subperm (s.ascending.imp Nat.ne_of_lt) h).length_le

theorem size_ofList_le (l : List Nat) : (ofList l).size ≤ l.length :=
  size_le_of_mem fun _ => mem_ofList.mp

theorem size_erase_le : (s.erase n).size ≤ s.size := List.length_filter_le _ _

theorem size_erase_lt (h : n ∈ s) : (s.erase n).size < s.size :=
  List.length_filter_lt_length_iff_exists.mpr ⟨n, h, by simp⟩

end NatSet

theorem Roster.chipsOf_sublist {r : Roster} {ids ids' : List PlayerId} (h : ids.Sublist ids') :
    r.chipsOf ids ≤ r.chipsOf ids' :=
  List.Sublist.sum_le_sum (M := Nat) (h.filterMap r.stack?) fun _ _ => Nat.zero_le _

theorem Phase.length_streets_le (p : Phase) : p.streets.length ≤ 3 := by
  cases p <;> decide

/-- No more have a turn than were dealt in. -/
theorem Hand.Places.length_turns_le {h : Hand} {r : Roster} (hp : h.Places r) :
    h.turns.order.length ≤ h.order.length :=
  (List.Nodup.subperm hp.turns_nodup fun p ht => hp.placed p (hp.turns_subset ht)).length_le

namespace Spot
variable {s s' mid : Spot} {p : PlayerId} {news : List GameEvent}

/-! ## What is left -/

/-- The chips of everybody standing that are not put in yet. -/
def chipsBehind (s : Spot) : Nat := s.roster.chipsOf s.hand.turns.order

/-- The actions that everybody may still be made to take: each player one for every street to come
and one for every chip behind, besides those that are owed already. -/
def budget (s : Spot) : Nat :=
  s.hand.order.length * (s.hand.phase.streets.length + s.chipsBehind) + s.hand.round.pending.size

/-- How many actions can be accepted at most until the hand is over. None can after that. -/
def actionsLeft (s : Spot) : Nat := if s.hand.isOver then 0 else s.budget

theorem actionsLeft_le_budget : s.actionsLeft ≤ s.budget := by
  unfold actionsLeft
  split
  · exact Nat.zero_le _
  · exact Nat.le_refl _

theorem actionsLeft_of_over (h : s.hand.isOver = true) : s.actionsLeft = 0 := if_pos h

theorem actionsLeft_of_steady (h : s.hand.Steady s.roster) : s.actionsLeft = s.budget := by
  rw [actionsLeft, h.not_over]
  rfl

/-- Only the stacks of players who have a turn count. -/
theorem actionsLeft_congr (hhand : s'.hand = s.hand)
    (hstacks : ∀ p ∈ s.hand.turns.order, s'.roster.stack? p = s.roster.stack? p) :
    s'.actionsLeft = s.actionsLeft := by
  have hchips : s'.chipsBehind = s.chipsBehind := by
    rw [chipsBehind, hhand, Roster.chipsOf_congr hstacks, chipsBehind]
  rw [actionsLeft, actionsLeft, budget, budget, hchips, hhand]

/-- Nobody owes an action but those who were dealt in. -/
theorem size_pending_le (hs : s.hand.Steady s.roster) :
    s.hand.round.pending.size ≤ s.hand.order.length :=
  Nat.le_trans (NatSet.size_le_of_mem fun p hp => (Hand.mem_ableToAct.mp (hs.bets.able p hp)).1)
    hs.places.length_turns_le

/-- In terms of the chips that the hand was started with. -/
theorem budget_le (hs : s.hand.Steady s.roster) :
    s.budget ≤ s.hand.order.length * (s.hand.startingChips + 4) := by
  have hstreets := s.hand.phase.length_streets_le
  have hpending := size_pending_le hs
  have hchips : s.chipsBehind ≤ s.hand.startingChips := by
    have hsum := hs.balanced.sum
    have hsub : s.hand.turns.order.Sublist s.hand.dealtIn.order :=
      hs.places.turns_eq ▸ List.filter_sublist
    have hle : s.chipsBehind ≤ s.roster.chipsOf s.hand.dealtIn.order := Roster.chipsOf_sublist hsub
    lia
  calc s.budget
      ≤ s.hand.order.length * (3 + s.hand.startingChips) + s.hand.order.length := by
        unfold budget
        gcongr
    _ = s.hand.order.length * (s.hand.startingChips + 4) := by ring

/-! ## Carrying out an action -/

/-- What an action takes from what is left: an answer that was owed, or a chip at least, in which
case everybody but the player may owe an answer again. -/
inductive Spends (s mid : Spot) : Prop
  | answer : mid.chipsBehind ≤ s.chipsBehind →
      mid.hand.round.pending.size < s.hand.round.pending.size → Spends s mid
  | raise : mid.chipsBehind < s.chipsBehind →
      mid.hand.round.pending.size < s.hand.order.length → Spends s mid

theorem Acts.order {plan : Plan} (h : s.Acts plan news mid) : mid.hand.order = s.hand.order := by
  cases h with
  | check | fold => rfl
  | commit => exact Hand.order_withBet

/-- Chips that are put in are no longer behind. -/
theorem chipsBehind_wagered {chips stack : Chips} (a : Action) (allIn : Bool) (i : Nat)
    (hn : s.hand.turns.order.Nodup) (hturn : p ∈ s.hand.turns.order)
    (hstack : s.roster.stack? p = some stack) (hle : chips ≤ stack) :
    ((s.wagered p a chips stack allIn).mapHand (·.turnTo i)).chipsBehind + chips =
      s.chipsBehind := by
  have hset := Roster.chipsOf_setStack (c := stack - chips) hn hturn hstack
  have hturns : ((s.wagered p a chips stack allIn).mapHand (·.turnTo i)).hand.turns.order =
      s.hand.turns.order := by
    show (s.hand.withBet p _ allIn).turns.order = _
    rw [Hand.turns_withBet]
  have hchips : ((s.wagered p a chips stack allIn).mapHand (·.turnTo i)).chipsBehind =
      (s.roster.setStack p (stack - chips)).chipsOf s.hand.turns.order := by
    rw [chipsBehind, hturns]
    rfl
  rw [hchips, chipsBehind]
  lia

theorem Acts.spends {plan : Plan} (h : s.Acts plan news mid) (hs : s.hand.Steady s.roster)
    (howes : plan.player ∈ s.hand.round.pending) : s.Spends mid := by
  have hround := h.alters.round
  have hable := hs.bets.able _ howes
  have hturn := (Hand.mem_ableToAct.mp hable).1
  cases h with
  | check p i => exact .answer (Nat.le_refl _) (NatSet.size_erase_lt howes)
  | fold p i =>
      have hchips : s.roster.chipsOf (s.hand.turns.order.filter (· ≠ p)) ≤ s.chipsBehind :=
        Roster.chipsOf_sublist List.filter_sublist
      exact .answer hchips (NatSet.size_erase_lt howes)
  | @commit p chips stack a allIn i hin hdealt hstack hle =>
      have hchips := chipsBehind_wagered (p := p) a allIn i hs.places.turns_nodup hturn
        hstack hle
      rcases Round.pending_raiseOrCall s.hand.round p chips s.hand.ableToAct with
        ⟨hraised, hpending⟩ | ⟨-, hpending⟩
      · -- Nobody had put in more than the highest bet before.
        have hput : 0 < chips := by
          have hhighest := hs.bets.highest p
          lia
        refine .raise (by lia) ?_
        rw [hround]
        show (NatSet.erase _ p).size < _
        rw [hpending]
        calc ((NatSet.ofList s.hand.ableToAct).erase p).size
            < (NatSet.ofList s.hand.ableToAct).size :=
              NatSet.size_erase_lt (NatSet.mem_ofList.mpr hable)
          _ ≤ s.hand.ableToAct.length := NatSet.size_ofList_le _
          _ ≤ s.hand.turns.order.length := List.length_filter_le _ _
          _ ≤ s.hand.order.length := hs.places.length_turns_le
      · refine .answer (by lia) ?_
        rw [hround]
        show (NatSet.erase _ p).size < _
        rw [hpending]
        exact NatSet.size_erase_lt howes

theorem Acts.budget_lt {plan : Plan} (h : s.Acts plan news mid) (hs : s.hand.Steady s.roster)
    (howes : plan.player ∈ s.hand.round.pending) : mid.budget < s.budget := by
  unfold budget
  rw [h.order, h.alters.phase]
  cases h.spends hs howes with
  | answer hchips hpending =>
      exact Nat.add_lt_add_of_le_of_lt
        (Nat.mul_le_mul_left _ (Nat.add_le_add_left hchips _)) hpending
  | raise hchips hpending =>
      calc s.hand.order.length * (s.hand.phase.streets.length + mid.chipsBehind) +
            mid.hand.round.pending.size
          < s.hand.order.length * (s.hand.phase.streets.length + mid.chipsBehind) +
            s.hand.order.length := by gcongr
        _ = s.hand.order.length * (s.hand.phase.streets.length + (mid.chipsBehind + 1)) := by ring
        _ ≤ s.hand.order.length * (s.hand.phase.streets.length + s.chipsBehind) := by
          gcongr
          exact hchips
        _ ≤ _ := Nat.le_add_right _ _

/-! ## Leaving and moving on -/

theorem Departs.budget_le (h : s.Departs p news mid) : mid.budget ≤ s.budget := by
  cases h with
  | absent | folded => exact Nat.le_refl _
  | standing i place next first =>
      have hchips : s.roster.chipsOf (s.hand.turns.order.filter (· ≠ p)) ≤ s.chipsBehind :=
        Roster.chipsOf_sublist List.filter_sublist
      exact Nat.add_le_add
        (Nat.mul_le_mul_left _ (Nat.add_le_add_left hchips _)) NatSet.size_erase_le

/-- A street that is dealt makes up for what its players owe in it. -/
theorem budget_onStreet_le {phase : Phase} {count i : Nat} {later : List (Phase × Nat)}
    {first : PlayerId} (hs : s.hand.Steady s.roster)
    (hstreets : s.hand.phase.streets = (phase, count) :: later) :
    (s.mapHand (·.onStreet phase count first i)).budget ≤ s.budget := by
  have hlater : phase.streets = later := Phase.streets_of_streets_eq_cons hstreets
  have hpending : (NatSet.ofList s.hand.ableToAct).size ≤ s.hand.order.length :=
    Nat.le_trans (NatSet.size_ofList_le _)
      (Nat.le_trans (List.length_filter_le _ _) hs.places.length_turns_le)
  show s.hand.order.length * (phase.streets.length + s.chipsBehind) +
    (NatSet.ofList s.hand.ableToAct).size ≤ s.budget
  calc s.hand.order.length * (phase.streets.length + s.chipsBehind) +
        (NatSet.ofList s.hand.ableToAct).size
      ≤ s.hand.order.length * (later.length + s.chipsBehind) + s.hand.order.length := by
        rw [hlater]
        gcongr
    _ = s.hand.order.length * (s.hand.phase.streets.length + s.chipsBehind) := by
        rw [hstreets, List.length_cons]
        ring
    _ ≤ s.budget := Nat.le_add_right _ _

/-- However many streets are dealt as a hand moves on, no more is left than before. -/
theorem MovesOn.actionsLeft_le (h : MovesOn s news s') : s'.actionsLeft ≤ s.budget := by
  induction h with
  | prompt => exact actionsLeft_le_budget
  | ended => exact (actionsLeft_of_over rfl).trans_le (Nat.zero_le _)
  | street hs hstreets _ _ ih => exact Nat.le_trans ih (budget_onStreet_le hs hstreets)

theorem Unfolds.actionsLeft_le (h : s.Unfolds news s') (hs : s.hand.Awake s.roster) :
    s'.actionsLeft ≤ s.actionsLeft := by
  rw [actionsLeft_of_steady hs.toSteady]
  cases h with
  | acts hcurrent hacts hon =>
      have hspent := hacts.budget_lt hs.toSteady (hs.owes_of_current hcurrent)
      exact Nat.le_trans hon.actionsLeft_le (Nat.le_of_lt hspent)
  | leaves hdeparts hon => exact Nat.le_trans hon.actionsLeft_le hdeparts.budget_le
  | stays hdeparts => exact Nat.le_trans actionsLeft_le_budget hdeparts.budget_le

/-! ## Move by move -/

/-- Whether a move is an action that goes through. -/
def accepts (s : Spot) : Move → Bool
  | .act player action => (s.act player action).2.isOk
  | _ => false

/-- How many of some moves, made one after another, are actions that go through. -/
def accepted (s : Spot) : List Move → Nat
  | [] => 0
  | m :: rest => (s.accepts m).toNat + (s.move m).1.accepted rest

/-- No move leaves more to be done, whether it is an action, a departure or somebody sitting
down. -/
theorem InPlay.actionsLeft_move_le (h : s.InPlay) (m : Move) :
    (s.move m).1.actionsLeft ≤ s.actionsLeft := by
  cases move_cases h.atRest m with
  | @unfolds news s' ha hunfolds _ hhand hstacks =>
      refine Nat.le_trans ?_ (hunfolds.actionsLeft_le ha)
      rcases hunfolds.goes with ha' | hover
      · refine Nat.le_of_eq (actionsLeft_congr hhand fun p hp => ?_)
        exact hstacks p (ha'.places.turns_subset hp)
      · rw [actionsLeft_of_over (hhand ▸ hover.ended)]
        exact Nat.zero_le _
  | same _ hhand hstacks =>
      rcases h.goes with hl | hover
      · refine Nat.le_of_eq (actionsLeft_congr hhand fun p hp => hstacks p (fun hover => ?_) ?_)
        · rw [hl.not_over] at hover
          cases hover
        · exact hl.places.seated p (hl.places.turns_subset hp)
      · rw [actionsLeft_of_over (hhand ▸ hover)]
        exact Nat.zero_le _
  | short _ hfault => exact absurd hfault (h.not_faulty m)

/-- Every accepted action leaves less to be done. -/
theorem InPlay.actionsLeft_move_lt (h : s.InPlay) {m : Move} (hm : s.accepts m = true) :
    (s.move m).1.actionsLeft < s.actionsLeft := by
  cases m with
  | act p a =>
      cases hv : s.validate p a with
      | error e =>
          simp only [accepts, act_eq_fail hv, fail] at hm
          cases hm
      | ok plan =>
          have hl := h.live (Hand.not_over_of_current (validate_ok hv).1)
          obtain ⟨hturn, hfit⟩ := fits_of_accepted hl.toAwake hv
          obtain ⟨told, mid, hcarry, hacts, hsteady⟩ := carryOut_spec hl.toAwake hturn hfit
          obtain ⟨news, s', hs', hon⟩ := advance_movesOn hsteady (hacts.alters.stocked hl.stocked)
          have hmove : (s.move (.act p a)).1 = s' := by
            rw [Spot.move, act_eq_apply hv, apply_eq, hcarry]
            exact congrArg Prod.fst hs'
          have howes := hl.toAwake.owes_of_current (validate_ok hv).1
          rw [hmove, actionsLeft_of_steady hl.toSteady]
          exact Nat.lt_of_le_of_lt hon.actionsLeft_le
            (hacts.budget_lt hl.toSteady (hfit.player_eq.symm ▸ howes))
  | leave p => cases hm
  | sitDown p name stack wanted => cases hm

/-- Over a whole run: no more actions are accepted than were left, less those left after it. The
induction is over the moves. -/
theorem InPlay.accepted_add_le (h : s.InPlay) (moves : List Move) :
    s.accepted moves + (s.play moves).actionsLeft ≤ s.actionsLeft := by
  induction moves generalizing s with
  | nil => exact Nat.le_of_eq (Nat.zero_add _)
  | cons m rest ih =>
      have hrest : (s.move m).1.accepted rest + (s.play (m :: rest)).actionsLeft ≤
          (s.move m).1.actionsLeft := ih (h.move m)
      rw [accepted]
      cases hm : s.accepts m with
      | false =>
          have hle := h.actionsLeft_move_le m
          rw [Bool.toNat_false]
          omega
      | true =>
          have hlt := h.actionsLeft_move_lt hm
          rw [Bool.toNat_true]
          omega

/-- A hand that is not over has something left to be done. -/
theorem InPlay.actionsLeft_pos (h : s.InPlay) (hlive : s.hand.isOver = false) :
    0 < s.actionsLeft := by
  have hl := h.live hlive
  obtain ⟨p, howes, -⟩ := hl.waits
  rw [actionsLeft_of_steady hl.toSteady]
  exact Nat.add_pos_right _ (List.length_pos_of_mem howes)

end Spot

/-! ## From the deal on -/

namespace Hand

namespace Opens
variable {s mid : Spot} {news : List GameEvent}

theorem order (h : Opens s news mid) : mid.hand.order = s.hand.order := by
  cases h
  exact order_withBet.trans order_withBet

theorem startingChips (h : Opens s news mid) :
    mid.hand.startingChips = s.hand.startingChips := by
  have hbet : ∀ {h : Hand} {p : PlayerId} {round : Round} {allIn : Bool},
      (h.withBet p round allIn).startingChips = h.startingChips := fun {_ _ _ allIn} => by
    cases allIn <;> rfl
  cases h
  exact hbet.trans hbet

end Opens

section Deal
variable {number : Nat} {r r' : Roster} {dealer : PlayerId} {blinds : Blinds} {deck : Deck}
  {ev ev' : Evaluator} {h : Hand}

/-- What is left of a hand when it was dealt. -/
theorem actionsLeft_of_deal (hv : r.Valid)
    (hdeal : deal number r dealer blinds deck ev = (r', ev', .ok h)) :
    Spot.actionsLeft ⟨h, r', ev'⟩ ≤ r.funded.length * (r.totalChips + 4) := by
  obtain ⟨htwo, hdealer, hdeck, hcount⟩ := canDeal_of_deal hv hdeal
  obtain ⟨pos, hlen, hsetUp⟩ := setUp_opened number blinds ev hv htwo hdealer hcount
  obtain ⟨hsetUp, news, hopened⟩ := hsetUp deck hdeck
  rw [deal_eq number blinds ev hsetUp] at hdeal
  obtain ⟨told, hon, -⟩ := hopened.movesOn hv (eq_done_of_dealOutcome hdeal)
  have horder : (opening (freshSpot number r dealer pos blinds deck ev) pos).hand.order.length =
      r.funded.length :=
    (congrArg List.length hopened.opens.order).trans hlen
  have hbudget := Spot.budget_le (hopened.opens.steady hopened.dealt)
  rw [horder, hopened.opens.startingChips] at hbudget
  exact Nat.le_trans hon.actionsLeft_le hbudget

end Deal

/-- No more actions are accepted in a hand than four for each of its players, and one for each of
them and each chip that they hold between them; fewer as long as the hand is not over. What is
left to be done gets less with every action that is accepted and never more. -/
theorem ends_in_bounded_actions (r r' : Roster) (dealer : PlayerId) (number : Nat)
    (blinds : Blinds) (deck : Deck) (ev ev' : Evaluator) (h : Hand) (hv : r.Valid)
    (hmost : r.funded.length ≤ maxSeats) (hdeck : Card.fullDeck.length ≤ deck.cards.size)
    (hstart : start number r dealer blinds deck ev = (r', ev', .ok h)) (moves : List Move) :
    Spot.accepted ⟨h, r', ev'⟩ moves ≤ r.funded.length * (r.totalChips + 4) ∧
      ((Spot.play ⟨h, r', ev'⟩ moves).hand.isOver = false →
        Spot.accepted ⟨h, r', ev'⟩ moves < r.funded.length * (r.totalChips + 4)) ∧
      ∀ m, ((Spot.play ⟨h, r', ev'⟩ moves).accepts m = true →
          ((Spot.play ⟨h, r', ev'⟩ moves).move m).1.actionsLeft <
            (Spot.play ⟨h, r', ev'⟩ moves).actionsLeft) ∧
        ((Spot.play ⟨h, r', ev'⟩ moves).move m).1.actionsLeft ≤
          (Spot.play ⟨h, r', ev'⟩ moves).actionsLeft := by
  have hsuffices := deckSuffices_reset hdeck hmost
  have hplay := Spot.InPlay.of_begun hv (begun_of_deal hv hsuffices hstart)
  have hfirst := actionsLeft_of_deal hv hstart
  have hrun := hplay.accepted_add_le moves
  refine ⟨by omega, fun hlive => ?_, fun m => ⟨(hplay.play moves).actionsLeft_move_lt, ?_⟩⟩
  · have hpos := (hplay.play moves).actionsLeft_pos hlive
    omega
  · exact (hplay.play moves).actionsLeft_move_le m

theorem ends_in_bounded_actions_without_blinds :
    ∃ s : Spot, start 1 unevenSeated 1 ⟨0, 0⟩ (.seeded 7) { value := fun _ => HandValue.best } =
        (s.roster, s.evaluator, .ok s.hand) ∧
      ∀ moves, s.accepted moves ≤ 2 * (65 + 4) ∧
        ((s.play moves).hand.isOver = false → s.accepted moves < 2 * (65 + 4)) ∧
        ∀ m, ((s.play moves).accepts m = true →
            ((s.play moves).move m).1.actionsLeft < (s.play moves).actionsLeft) ∧
          ((s.play moves).move m).1.actionsLeft ≤ (s.play moves).actionsLeft := by
  have hv : unevenSeated.Valid := by decide
  have hdeck : Card.fullDeck.length ≤ (Deck.seeded 7).cards.size := Nat.le_of_eq rfl
  have hdealer : 1 ∈ unevenSeated.funded := by decide
  obtain ⟨s, hs, -⟩ := deal_spec 1 ⟨0, 0⟩ { value := fun _ => HandValue.best } hv (by decide)
    hdealer (deckSuffices_reset hdeck (by decide)) (by decide)
  exact ⟨s, hs, ends_in_bounded_actions unevenSeated s.roster 1 1 ⟨0, 0⟩ (.seeded 7) _ s.evaluator
    s.hand hv (by decide) hdeck hs⟩

end Hand
end Holdem
