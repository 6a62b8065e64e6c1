import Holdem.HandValue.Best
import Holdem.Proofs.Hand.Bystanders

/-!
# Aborting a hand undoes it

Chips that a player puts into a hand go from their stack to a bet and from there into the pots, so
until the hand is over the three of them add up to the stack that the hand was dealt with. Aborting
it gives back what is in the pots and in the bets, which brings back exactly that stack.
-/
namespace Holdem

namespace Hand
variable {h : Hand} {p q : PlayerId} {round : Round} {chips : Chips} {allIn : Bool}

/-- All that a player has put into a hand. -/
def putIn (h : Hand) (p : PlayerId) : Chips := h.stakes.contribution p + h.round.contribution p

theorem putIn_withBet (hround : round.contributions = h.round.contributions.addChips p chips) :
    (h.withBet p round allIn).putIn q = h.putIn q + if q = p then chips else 0 := by
  rw [putIn, stakes_withBet, round_withBet, Round.contribution, hround, NatMap.chips_addChips,
    ← Nat.add_assoc]
  rfl

theorem putIn_onStreet {phase : Phase} {count : Nat} {first : PlayerId} {place : Nat} :
    (h.onStreet phase count first place).putIn p = h.putIn p :=
  contribution_collectRound (h := h)

/-- What is given back to a player is what they put in. -/
theorem chips_refunds : (Spot.refunds h).chips p = h.putIn p := by
  rw [Spot.refunds, NatMap.chips_foldl_addChips, List.filter_append, List.map_append,
    List.sum_append, NatMap.sum_entries_of, NatMap.sum_entries_of, NatMap.chips_empty,
    Nat.zero_add]
  rfl

/-- Whoever was not dealt in has put nothing in. -/
theorem Books.putIn_eq_zero (hb : h.Books) (hp : h.isDealtIn p = false) : h.putIn p = 0 := by
  have hnone : ∀ m : NatMap Chips, (m.contains p = true → h.isDealtIn p = true) →
      m.chips p = 0 := fun m hm => by
    refine Nat.eq_zero_of_not_pos fun hpos => ?_
    rw [hm (NatMap.contains_of_chips_pos hpos)] at hp
    cases hp
  rw [putIn, Stakes.contribution, Round.contribution, hnone _ (hb.stakers p),
    hnone _ (hb.bettors p)]

end Hand

namespace Spot
variable {s s' mid : Spot} {r : Roster} {p q : PlayerId} {plan : Plan} {news : List GameEvent}

/-! ## Stack, pots and bets -/

/-- Whoever is dealt in has the stack that they had at the deal, but for what they have put in. -/
def Accounts (s : Spot) (r : Roster) : Prop :=
  ∀ p ∈ s.hand.dealtIn.order, (s.roster.stack? p).map (· + s.hand.putIn p) = r.stack? p

/-- Chips that are put in go from the stack to the bet. -/
theorem Accounts.bet {chips stack : Chips} {round : Round} {allIn : Bool} (h : s.Accounts r)
    (hstack : s.roster.stack? p = some stack) (hle : chips ≤ stack)
    (hround : round.contributions = s.hand.round.contributions.addChips p chips) :
    Accounts
      { s with
        roster := s.roster.setStack p (stack - chips)
        hand := s.hand.withBet p round allIn } r := by
  intro q hq
  have hbefore := h q (Hand.dealtIn_withBet (h := s.hand) ▸ hq)
  show ((s.roster.setStack p (stack - chips)).stack? q).map _ = _
  rw [← hbefore, Roster.stack?_setStack, Hand.putIn_withBet hround]
  by_cases hqp : q = p
  · subst hqp
    rw [if_pos rfl, if_pos rfl, hstack]
    refine congrArg some ?_
    show stack - chips + (s.hand.putIn q + chips) = stack + s.hand.putIn q
    lia
  · rw [if_neg hqp, if_neg hqp]
    rfl

theorem Accounts.opens (h : s.Accounts r) (hopens : Hand.Opens s news mid) :
    mid.Accounts r := by
  cases hopens with
  | @blinds small big stack stack' first hsmall hbig =>
      have hposted : (Hand.posted s small stack).Accounts r :=
        h.bet hsmall.stack_eq hsmall.le rfl
      exact hposted.bet hbig.stack_eq hbig.le rfl

theorem Accounts.acts (h : s.Accounts r) (hacts : s.Acts plan news mid) : mid.Accounts r := by
  cases hacts with
  | check | fold => exact h
  | commit a allIn i hin hdealt hstack hle =>
      exact h.bet hstack hle Round.contributions_raiseOrCall

/-- Whoever leaves takes along what they have, and what they put in stays. -/
theorem Accounts.departs (h : s.Accounts r) (hdeparts : s.Departs q news mid) :
    mid.Accounts r := by
  cases hdeparts with
  | absent => exact h
  | folded | standing => exact fun p hp => h p (List.mem_filter.mp hp).1

/-- Bets that are collected go into the pots. Only when the hand ends are the pots paid out. -/
theorem Accounts.movesOn (h : s.Accounts r) (hon : MovesOn s news s')
    (hlive : s'.hand.isOver = false) : s'.Accounts r := by
  induction hon with
  | prompt => exact h
  | ended => cases hlive
  | street _ _ _ _ ih =>
      refine ih (fun p hp => ?_) hlive
      rw [← h p hp]
      exact congrArg (fun c => Option.map (· + c) _) Hand.putIn_onStreet

theorem Accounts.unfolds (h : s.Accounts r) (hunfolds : s.Unfolds news s')
    (hlive : s'.hand.isOver = false) : s'.Accounts r := by
  cases hunfolds with
  | acts _ hacts hon => exact (h.acts hacts).movesOn hon hlive
  | leaves hdeparts hon => exact (h.departs hdeparts).movesOn hon hlive
  | stays hdeparts => exact h.departs hdeparts

/-- A hand that was dealt to the players of a roster and is not over, after some moves. -/
structure Underway (r : Roster) (moves : List Move) (s : Spot) : Prop where
  valid : s.roster.Valid
  live : s.hand.Live s.roster
  accounts : s.Accounts r
  stays : ∀ p ∈ r.funded, .leave p ∉ moves → p ∈ s.hand.dealtIn.order

theorem Underway.inPlay {moves : List Move} (h : Underway r moves s) : s.InPlay :=
  ⟨h.valid, .inl h.live⟩

/-- A move that does not end the hand leaves it underway. -/
theorem Underway.move {moves : List Move} (h : Underway r moves s) (m : Move)
    (hlive : (s.move m).1.hand.isOver = false) : Underway r (moves ++ [m]) (s.move m).1 := by
  have hnext := h.inPlay.move m
  have hl := hnext.live hlive
  have hstayed : ∀ p ∈ r.funded, .leave p ∉ moves ++ [m] →
      p ∈ s.hand.dealtIn.order ∧ m ≠ .leave p := fun p hp hout => by
    rw [List.mem_append, List.mem_singleton, not_or] at hout
    exact ⟨h.stays p hp hout.1, Ne.symm hout.2⟩
  cases move_cases h.inPlay.atRest m with
  | unfolds _ hunfolds hvalid hhand hstacks hstay =>
      rw [hhand] at hlive
      refine ⟨hvalid, hl, fun p hp => ?_, fun p hp hout => ?_⟩
      · rw [hhand] at hp ⊢
        rw [hstacks p hp]
        exact h.accounts.unfolds hunfolds hlive p hp
      · obtain ⟨hin, hne⟩ := hstayed p hp hout
        exact hhand ▸ hstay p hin hne
  | same hvalid hhand hstacks =>
      refine ⟨hvalid, hl, fun p hp => ?_, fun p hp hout => hhand ▸ (hstayed p hp hout).1⟩
      rw [hhand] at hp hlive ⊢
      rw [hstacks p (fun hover => by rw [hlive] at hover; cases hover)
        (h.live.places.seated p hp)]
      exact h.accounts p hp
  | short _ hfault => exact absurd hfault (h.inPlay.not_faulty m)

/-- Once a hand is over it stays as it is. -/
theorem hand_play_of_over (h : s.hand.isOver = true) (moves : List Move) :
    (s.play moves).hand = s.hand := by
  induction moves generalizing s with
  | nil => rfl
  | cons m rest ih =>
      have hsame := hand_move_of_over h m
      exact (ih (hsame ▸ h)).trans hsame

theorem Underway.play {before : List Move} (h : Underway r before s) (moves : List Move)
    (hlive : (s.play moves).hand.isOver = false) :
    Underway r (before ++ moves) (s.play moves) := by
  induction moves generalizing s before with
  | nil => rwa [List.append_nil]
  | cons m rest ih =>
      have hfirst : (s.move m).1.hand.isOver = false := Bool.eq_false_iff.mpr fun hover => by
        rw [show s.play (m :: rest) = (s.move m).1.play rest from rfl,
          hand_play_of_over hover rest, hover] at hlive
        cases hlive
      rw [List.append_cons]
      exact ih (h.move m hfirst) hlive

/-- A hand that was dealt and waits for a player is underway. -/
theorem underway_of_start {number : Nat} {dealer : PlayerId} {blinds : Blinds} {deck : Deck}
    {ev ev' : Evaluator} {r' : Roster} {h : Hand} (hv : r.Valid)
    (hmost : r.funded.length ≤ maxSeats) (hdeck : Card.fullDeck.length ≤ deck.cards.size)
    (hstart : Hand.start number r dealer blinds deck ev = (r', ev', .ok h))
    (hlive : h.isOver = false) : Underway r [] ⟨h, r', ev'⟩ := by
  have hbegun := Hand.begun_of_deal hv (Hand.deckSuffices_reset hdeck hmost) hstart
  have hplay := InPlay.of_begun hv hbegun
  obtain ⟨pos, news, mid, told, hopened, hon, -, -⟩ := Hand.movesOn_of_deal hv hstart
  have hfresh : (Hand.freshSpot number r dealer pos blinds deck.reset ev).Accounts r := fun p _ =>
    Option.map_id_apply
  exact
    { valid := hplay.valid
      live := hplay.live hlive
      accounts := (hfresh.opens hopened.opens).movesOn hon hlive
      stays := fun p hp _ => hopened.dealtIn_eq hon ▸ hp }

/-! ## Giving everything back -/

/-- Everybody seated gets back what they have put in. -/
theorem stack?_abort (s : Spot) (reason : String) (p : PlayerId) :
    (s.abort reason).roster.stack? p = (s.roster.stack? p).map (· + s.hand.putIn p) := by
  show (credit s.roster _).stack? p = _
  rw [stack?_credit]
  cases hstack : s.roster.stack? p with
  | none => rfl
  | some stack =>
      -- Whoever is seated is not passed over.
      have hmine : ∀ e ∈ (refunds s.hand).entries,
          (decide (e.1 = p) && s.roster.contains e.1) = decide (e.1 = p) := fun e _ => by
        by_cases he : e.1 = p
        · rw [he, Roster.contains_of_stack hstack, Bool.and_true]
        · rw [decide_eq_false he, Bool.false_and]
      rw [List.filter_filter, List.filter_congr hmine, NatMap.sum_entries_of, Hand.chips_refunds]

/-- A hand that was called off: it is over with nothing in the middle, nobody is waited for, and
whatever happens later, no action is allowed any more. -/
structure CalledOff (s : Spot) : Prop where
  ended : s.hand.isOver = true
  pots : s.hand.pots = []
  total : s.hand.potTotal = 0
  bets : s.hand.round.contributions = ∅
  pending : s.hand.round.pending = ∅
  refuses : ∀ later p a, (s.play later).act p a = (s.play later).fail (.wrongPhase .showdown)

theorem calledOff_abort (s : Spot) (reason : String) : (s.abort reason).CalledOff where
  ended := rfl
  pots := rfl
  total := rfl
  bets := rfl
  pending := rfl
  refuses later p a := by
    have hsame := hand_play_of_over (s := s.abort reason) rfl later
    rw [act_of_over (by rw [hsame]; rfl), hsame]
    rfl

/-- As long as a hand is not over, whatever its players have done: the stack of whoever was dealt in
and has not left, with what is theirs in the pots and what they have bet in the round, is the stack
that they had at the deal. Aborting the hand gives exactly that stack back to each of them, changes
no stack of anybody who was not dealt in, and calls the hand off. -/
theorem abort_undoes (number : Nat) (r r' : Roster) (dealer : PlayerId) (blinds : Blinds)
    (deck : Deck) (ev ev' : Evaluator) (h : Hand) (hv : r.Valid)
    (hmost : r.funded.length ≤ maxSeats) (hdeck : Card.fullDeck.length ≤ deck.cards.size)
    (hstart : Hand.start number r dealer blinds deck ev = (r', ev', .ok h)) (moves : List Move)
    (hlive : (play ⟨h, r', ev'⟩ moves).hand.isOver = false) :
    let s := play ⟨h, r', ev'⟩ moves
    (∀ p, h.isDealtIn p = true → .leave p ∉ moves → ∃ stack, s.roster.stack? p = some stack ∧
        r.stack? p = some (stack + s.hand.stakes.contribution p + s.hand.round.contribution p)) ∧
      ∀ reason,
        (∀ p, h.isDealtIn p = true → .leave p ∉ moves →
          (s.abort reason).roster.stack? p = r.stack? p) ∧
        (∀ p, h.isDealtIn p = false →
          (s.abort reason).roster.stack? p = s.roster.stack? p) ∧
        (s.abort reason).CalledOff := by
  intro s
  have hstarted : h.isOver = false := Bool.eq_false_iff.mpr fun hover => by
    rw [hand_play_of_over (s := ⟨h, r', ev'⟩) hover, hover] at hlive
    cases hlive
  have hbegun := underway_of_start hv hmost hdeck hstart hstarted
  have hunder : Underway r moves s := hbegun.play moves hlive
  have hback : ∀ p, h.isDealtIn p = true → .leave p ∉ moves →
      p ∈ s.hand.dealtIn.order := fun p hdealt =>
    hunder.stays p ((Hand.isDealtIn_of_deal hv hstart p).mp hdealt)
  refine ⟨fun p hdealt hstays => ?_, fun reason => ⟨fun p hdealt hstays => ?_, fun p hout => ?_,
    calledOff_abort s reason⟩⟩
  · have hin := hback p hdealt hstays
    obtain ⟨stack, hstack⟩ := Roster.contains_iff.mp (hunder.live.places.seated p hin)
    refine ⟨stack, hstack, ?_⟩
    rw [← hunder.accounts p hin, hstack]
    exact congrArg some (Nat.add_assoc ..).symm
  · rw [stack?_abort]
    exact hunder.accounts p (hback p hdealt hstays)
  · have hdealt : s.hand.isDealtIn p = false := (isDealtIn_play hbegun.inPlay moves p).trans hout
    rw [stack?_abort, hunder.live.books.putIn_eq_zero hdealt]
    exact Option.map_id_apply

/-- Three players with chips, and one without. -/
def lateStage : Roster :=
  { seats := [some ⟨1, "ann", 500, 0⟩, some ⟨2, "bob", 25, 1⟩, some ⟨3, "carl", 40, 2⟩,
      some ⟨4, "dave", 0, 3⟩] }

/-- The first of them raises, and the second leaves. -/
def raiseAndLeave : List Move := [.act 1 (.raise 30), .leave 2]

theorem abort_undoes_raise_and_leave :
    ∃ s : Spot, Hand.start 1 lateStage 1 ⟨5, 10⟩ (.seeded 7)
        { value := fun _ => HandValue.best } = (s.roster, s.evaluator, .ok s.hand) ∧
      (s.play raiseAndLeave).hand.isOver = false ∧
      ∀ p ∈ [1, 3], (∃ stack, (s.play raiseAndLeave).roster.stack? p = some stack ∧
          lateStage.stack? p = some (stack + (s.play raiseAndLeave).hand.stakes.contribution p +
            (s.play raiseAndLeave).hand.round.contribution p)) ∧
        ∀ reason, ((s.play raiseAndLeave).abort reason).roster.stack? p = lateStage.stack? p ∧
          ((s.play raiseAndLeave).abort reason).roster.stack? 4 =
            (s.play raiseAndLeave).roster.stack? 4 ∧
          ((s.play raiseAndLeave).abort reason).CalledOff := by
  have hv : lateStage.Valid := by decide
  have hdeck : Card.fullDeck.length ≤ (Deck.seeded 7).cards.size := Nat.le_of_eq rfl
  have hdealer : 1 ∈ lateStage.funded := by decide
  obtain ⟨s, hs, -⟩ := Hand.deal_spec 1 ⟨5, 10⟩ { value := fun _ => HandValue.best } hv (by decide)
    hdealer (Hand.deckSuffices_reset hdeck (by decide)) (by decide)
  have hstart : Hand.start 1 lateStage 1 ⟨5, 10⟩ (.seeded 7)
      { value := fun _ => HandValue.best } = (s.roster, s.evaluator, .ok s.hand) := hs
  have hlive : (s.play raiseAndLeave).hand.isOver = false := by
    have hrun : (match Hand.start 1 lateStage 1 ⟨5, 10⟩ (.seeded 7)
        { value := fun _ => HandValue.best } with
      | (r, ev, .ok h) => (play ⟨h, r, ev⟩ raiseAndLeave).hand.isOver
      | _ => true) = false := by decide +kernel
    simpa only [hstart] using hrun
  have hdealt : ∀ p, s.hand.isDealtIn p = true ↔ p ∈ lateStage.funded :=
    Hand.isDealtIn_of_deal hv hs
  obtain ⟨haccounts, habort⟩ := abort_undoes 1 lateStage s.roster 1 ⟨5, 10⟩ (.seeded 7) _
    s.evaluator s.hand hv (by decide) hdeck hstart raiseAndLeave hlive
  have hfour : s.hand.isDealtIn 4 = false :=
    Bool.eq_false_iff.mpr fun h => absurd ((hdealt 4).mp h) (by decide)
  have hstays : ∀ p ∈ [1, 3], p ∈ lateStage.funded ∧ .leave p ∉ raiseAndLeave := by decide
  refine ⟨s, hstart, hlive, fun p hp => ?_⟩
  obtain ⟨hfunded, hstays⟩ := hstays p hp
  have hin := (hdealt p).mpr hfunded
  refine ⟨haccounts p hin hstays, fun reason => ?_⟩
  obtain ⟨hback, hothers, hoff⟩ := habort reason
  exact ⟨hback p hin hstays, hothers 4 hfour, hoff⟩

end Spot
end Holdem
