import Holdem.Hand.Progress

/-!
# Dealing a hand

Everybody with chips is dealt two cards, one at a time from the left of the button. With two
players the dealer posts the small blind and acts first; with more the blinds are the two players
after the dealer, and the one after them acts first.
-/
namespace Holdem.Hand

/-- Where the button and the blinds fall. -/
structure Positions where
  dealtIn : TurnOrder
  order : List PlayerId
  nextDealer : PlayerId
  smallBlind : PlayerId
  bigBlind : PlayerId
  firstToAct : PlayerId
deriving Repr, DecidableEq

def positionsIn (dealtIn : TurnOrder) (dealer : PlayerId) : Except TurnError Positions := do
  let dealtIn ← dealtIn.setCurrent dealer
  let next ← dealtIn.nextTo dealer
  let (_, afterDealer) ← dealtIn.next
  let order := afterDealer.lap
  if dealtIn.size = 2 then
    return ⟨dealtIn, order, next, dealer, next, dealer⟩
  else
    let big ← dealtIn.nextTo next
    return ⟨dealtIn, order, next, next, big, ← dealtIn.nextTo big⟩

/-- Two cards for each player of `order`, the second one after everybody has the first. -/
def pockets (order : List PlayerId) (cards : List Card) : NatMap Holding :=
  let (first, second) := cards.splitAt order.length
  .ofList ((order.zip (first.zip second)).map fun (p, a, b) => (p, { pocket := [a, b] }))

/-- Takes a forced bet, or what there is of it. Whoever posts a blind is seated (`opening_exact`). -/
def postBlind (s : Spot) (player : PlayerId) (amount : Chips) : Spot × BlindPost :=
  let stack := (s.roster.stack? player).getD 0
  let chips := min amount stack
  let hand := { s.hand with round := s.hand.round.postBlind player chips }
  ({ s with
      roster := s.roster.setStack player (stack - chips)
      hand := if stack = chips then hand.markAllIn player else hand },
    ⟨player, chips⟩)

/-- Posts the blinds and tells of the hand, with everybody able to act owing an action. The first of
them has a turn (`opening_exact`). -/
def opening (s : Spot) (pos : Positions) : Spot :=
  let (s, small) := postBlind s pos.smallBlind s.hand.blinds.small
  let (s, big) := postBlind s pos.bigBlind s.hand.blinds.big
  s.mapHand fun h =>
    let h :=
      { h with
        round := { h.round with pending := .ofList h.ableToAct }
        turns := (h.turns.setCurrent pos.firstToAct).toOption.getD h.turns }
    (h.emit (.handStarted h.number h.dealer small big h.order)).emitPot

/-- A hand before the blinds, dealt from the top of a shuffled deck. -/
def dealt (number : Nat) (roster : Roster) (dealer : PlayerId) (pos : Positions) (blinds : Blinds)
    (deck : Deck) : Except ActionError Hand :=
  let players := pos.dealtIn.order
  let (cards, deck) := deck.drawUpTo (2 * players.length)
  let chips := (players.filterMap roster.stack?).sum
  if cards.length < 2 * players.length then .error (.internal DeckError.exhausted.message)
  else if maxChips < chips then .error (.internal "chips in play overflow")
  else .ok
    { number, dealer, blinds, deck
      nextDealer := pos.nextDealer
      firstToAct := pos.firstToAct
      turns := { order := players }
      dealtIn := pos.dealtIn
      order := pos.order
      holdings := pockets pos.order cards
      round := { phase := .preFlop, minRaise := blinds.big }
      startingChips := chips }

/-- Deals from a shuffled deck to every funded player, the spot before anything is posted. -/
def setUp (number : Nat) (roster : Roster) (dealer : PlayerId) (blinds : Blinds) (deck : Deck) :
    Except ActionError (Hand × Positions) :=
  if roster.funded.length < 2 then .error .notEnoughPlayers
  else
    match positionsIn { order := roster.funded } dealer with
    | .error e => .error (.internal e.message)
    | .ok pos => (dealt number roster dealer pos blinds deck).map fun hand => (hand, pos)

/-- Plays a hand from a shuffled deck up to the first prompt. -/
def deal (number : Nat) (roster : Roster) (dealer : PlayerId) (blinds : Blinds) (deck : Deck)
    (evaluator : Evaluator) : Roster × Evaluator × Except ActionError Hand :=
  match setUp number roster dealer blinds deck with
  | .error e => (roster, evaluator, .error e)
  | .ok (hand, pos) =>
      match (opening { hand, roster, evaluator } pos).advance with
      | (s, .error e) => (s.roster, s.evaluator, .error e)
      | (s, .ok ()) => (s.roster, s.evaluator, .ok s.hand)

/-- Shuffles the deck and starts a hand with `dealer` on the button. -/
def start (number : Nat) (roster : Roster) (dealer : PlayerId) (blinds : Blinds) (deck : Deck)
    (evaluator : Evaluator) : Roster × Evaluator × Except ActionError Hand :=
  deal number roster dealer blinds deck.reset evaluator

end Holdem.Hand
