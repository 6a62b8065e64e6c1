import Holdem.Hand.State

/-!
# Moving a hand forward

After every step a hand moves on by itself until somebody has to act or it is over. With one
player left standing that player takes everything. While betting goes on the next player who owes
an action is prompted. Otherwise the bets are collected and the next street is dealt; after the
river the hands are shown and the pots paid out.
-/
namespace Holdem.Spot

/-- Credits winnings to stacks. -/
def credit (r : Roster) (winnings : List (PlayerId × Chips)) : Roster :=
  winnings.foldl (fun r (p, chips) => r.setStack p ((r.stack? p).getD 0 + chips)) r

/-- Pays out and ends the hand, provided every winner is there to be paid. -/
def settle (s : Spot) (payouts : Payouts) (shown : NatMap ShownHand) : Outcome :=
  match payouts.keys.find? fun p => !s.roster.contains p with
  | some p => s.fail (.internal s!"{playerText p} won chips but isn't seated")
  | none =>
      let h := s.hand
      let hand := { h with stakes := {}, round := { h.round with phase := .showdown } }
      done { s with
        roster := credit s.roster payouts.entries
        hand := hand.emit (.handEnded h.number payouts shown h.board) }

/-- Values the hands of some players, in turn. A player that was dealt nothing stops this. -/
def showHands (s : Spot) : List PlayerId → Spot × Except ActionError (NatMap ShownHand)
  | players => go players ∅ s
where
  go : List PlayerId → NatMap ShownHand → Spot → Spot × Except ActionError (NatMap ShownHand)
    | [], shown, s => (s, .ok shown)
    | p :: rest, shown, s =>
        match s.hand.pocket? p with
        | none => (s, .error .notInHand)
        | some pocket =>
            let value := s.evaluator.value s.evaluator.calls (pocket ++ s.hand.board)
            let evaluator := { s.evaluator with calls := s.evaluator.calls + 1 }
            go rest (shown.insert p ⟨pocket, value⟩) { s with evaluator }

/-- Shows the hands of all who have not folded and pays out the pots. -/
def showdown (s : Spot) : Outcome :=
  match s.showHands s.hand.turns.order with
  | (s, .error e) => s.fail e
  | (s, .ok shown) =>
      let hands : NatMap HandValue := .ofList (shown.entries.map fun e => (e.1, e.2.value))
      match s.hand.stakes.distribute hands s.hand.order with
      | .error e => s.fail (.internal e.message)
      | .ok payouts => s.settle payouts shown

/-- Gives everything to the last player standing. -/
def finishUncontested (s : Spot) : Outcome :=
  match s.hand.turns.now with
  | .error e => s.failTurn e
  | .ok winner =>
      let s := s.mapHand Hand.collectRound
      s.settle (s.hand.stakes.awardAll winner) ∅

/-- Passes the turn to the next player who owes an action and prompts them. -/
def prompt (s : Spot) : Outcome :=
  let h := s.hand
  match h.turns.lap.find? h.round.owesAction with
  | none => s.fail (.internal "nobody owes an action")
  | some p =>
      match h.turns.setCurrent p with
      | .error e => s.failTurn e
      | .ok turns =>
          let event := .nextPlayer p (h.round.toCall p) h.round.minRaiseTo
          done (s.mapHand fun h => { h with turns }.emit event)

/-- Opens the betting on a street. The first in seat order who owes an action begins. -/
def openStreet (h : Hand) (phase : Phase) : Hand :=
  let round : Round := { phase, minRaise := h.blinds.big, pending := .ofList h.ableToAct }
  match h.order.find? round.owesAction with
  | none => { h with round }
  | some first =>
      { h with
        round
        firstToAct := first
        turns := (h.turns.setCurrent first).toOption.getD h.turns }

/-- Only players with a turn are asked to act, so that the turn can be given to the first of them. -/
theorem setCurrent_openStreet {h : Hand} {phase : Phase} {first : PlayerId}
    (hfirst : h.order.find? (openStreet h phase).round.owesAction = some first) :
    h.turns.setCurrent first = .ok (openStreet h phase).turns := by
  have hround : (openStreet h phase).round =
      { phase, minRaise := h.blinds.big, pending := .ofList h.ableToAct } := by
    unfold openStreet
    dsimp only
    split <;> rfl
  rw [hround] at hfirst
  have hfound := List.find?_some hfirst
  have howes : first ∈ NatSet.ofList h.ableToAct := of_decide_eq_true hfound
  have hturn : first ∈ h.turns.order := (List.mem_filter.mp (NatSet.mem_ofList.mp howes)).1
  obtain ⟨i, hset, -⟩ := TurnOrder.setCurrent_of_mem hturn
  simp only [openStreet, hfirst, hset]
  rfl

/-- Deals the cards of a street. -/
def dealStreet (s : Spot) (phase : Phase) (count : Nat) : Outcome :=
  let (dealt, deck) := s.hand.deck.drawUpTo count
  let s := s.mapHand fun h => { h with deck }
  if dealt.length < count then s.fail (.internal DeckError.exhausted.message)
  else
    let board := s.hand.board ++ dealt
    done (s.mapHand fun h =>
      (openStreet { h with board } phase).emit (.roundAdvanced phase dealt board))

/-- Moves on, with the streets that are still to be dealt. -/
def advanceThrough : List (Phase × Nat) → Spot → Outcome
  | streets, s =>
      if s.hand.turns.size ≤ 1 then s.finishUncontested
      else if !s.hand.round.isClosed && !s.hand.bettingIsOver then s.prompt
      else
        match streets with
        | [] => (s.mapHand Hand.collectRound).showdown
        | (phase, count) :: later =>
            match (s.mapHand Hand.collectRound).dealStreet phase count with
            | (s, .ok ()) => advanceThrough later s
            | (s, .error e) => s.fail e

/-- Moves on until somebody has to act or the hand is over. -/
def advance (s : Spot) : Outcome := advanceThrough s.hand.phase.streets s

end Holdem.Spot
