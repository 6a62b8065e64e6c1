import Holdem.HandValue.Best
import Holdem.Proofs.Hand.Course

/-!
# What an observer makes of a hand

Somebody who knows the stacks that a hand is dealt to, and hears what is told of it, keeps books:
what everybody has behind and has bet, what is in the middle, the board, the phase, who has folded
and who was asked last. Each thing that happens changes the hand as hearing of it changes the books,
so after every move they agree.
-/
namespace Holdem

/-- The books of somebody who hears what is told. -/
structure Observer where
  behind : NatMap Chips
  bets : NatMap Chips := ∅
  pot : Chips := 0
  board : List Card := []
  phase : Phase := .waiting
  folded : NatSet := ∅
  prompted : Option PlayerId := none
deriving Repr, DecidableEq

namespace Observer

/-- The books at the deal. Nothing is known but the stacks of those who are dealt in. -/
def atDeal (r : Roster) : Observer where
  behind := .ofList (r.funded.map fun p => (p, (r.stack? p).getD 0))

/-- Moves chips from a stack to a bet. -/
def bet (o : Observer) (p : PlayerId) (chips : Chips) : Observer :=
  { o with
    behind := o.behind.modify p (· - chips)
    bets := o.bets.addChips p chips
    pot := o.pot + chips }

/-- Adds to stacks what is paid out. -/
def paid (behind : NatMap Chips) (payouts : List (PlayerId × Chips)) : NatMap Chips :=
  payouts.foldl (fun m e => m.addChips e.1 e.2) behind

/-- Takes note of what is told. -/
def hear (o : Observer) : GameEvent → Observer
  | .handStarted _ _ small big _ =>
      ({ o with phase := .preFlop }.bet small.player small.amount).bet big.player big.amount
  | .playerActed p _ chips | .playerAllIn p chips => o.bet p chips
  | .playerFolded p => { o with folded := o.folded.insert p }
  | .roundAdvanced phase _ board => { o with phase, board, bets := ∅ }
  | .nextPlayer p _ _ => { o with prompted := some p }
  | .handEnded _ payouts _ _ =>
      { o with
        behind := paid o.behind payouts.entries
        bets := ∅
        pot := 0
        phase := .showdown
        prompted := none }
  | .potChanged .. | .playerJoined .. | .playerLeft .. | .chatMessage .. | .handAborted .. => o

def hearAll (o : Observer) (told : List GameEvent) : Observer := told.foldl hear o

@[simp] theorem hearAll_snoc {o : Observer} {told : List GameEvent} {e : GameEvent} :
    o.hearAll (told ++ [e]) = (o.hearAll told).hear e := by
  rw [hearAll, List.foldl_append]
  rfl

end Observer

/-- The chips in the middle, when that is what is told. -/
def GameEvent.potTold : GameEvent → Option Chips
  | .potChanged total _ => some total
  | _ => none

namespace Observer

/-- What is told of the middle is what an observer has in the books, and what is paid out in the
end is what was told of it last. -/
def Counts (o : Observer) (told : List GameEvent) : GameEvent → Prop
  | .potChanged total _ => total = (o.hearAll told).pot
  | .handEnded _ payouts _ _ => latest GameEvent.potTold told = some payouts.totalChips
  | _ => True

/-! ## Books that agree -/

/-- The books of an observer agree with a hand. -/
structure Agrees (o : Observer) (h : Hand) : Prop where
  bets : ∀ p, o.bets.chips p = h.round.contribution p
  pot : o.pot = h.potTotal
  board : o.board = h.board
  phase : o.phase = h.phase
  folded : ∀ p, p ∈ o.folded ↔ h.isFolded p = true

/-- They also agree with the stacks of those who are still dealt in. -/
structure Mirrors (o : Observer) (s : Spot) : Prop extends o.Agrees s.hand where
  behind : ∀ p ∈ s.hand.dealtIn.order, s.roster.stack? p = some (o.behind.chips p)

/-- What was told by the time of a spot is all that an observer needs to know. -/
structure Replica (o : Observer) (told : List GameEvent) (s : Spot) : Prop where
  mirrors : (o.hearAll told).Mirrors s
  counts : Each o.Counts told
  counted : s.hand.isOver = false → latest GameEvent.potTold told = some s.hand.potTotal

section Chips
variable {m : NatMap Chips} {p q : PlayerId} {c : Chips}

theorem chips_modify_sub : (m.modify p (· - c)).chips q = m.chips q - if q = p then c else 0 := by
  simp only [NatMap.chips, NatMap.get?_modify]
  split
  · cases m.get? q <;> simp
  · rfl

/-- Paying out is the same for stacks at a table and for those in the books. -/
theorem stack?_credit {r : Roster} {payouts : List (PlayerId × Chips)}
    (hstack : r.stack? p = some (m.chips p)) :
    (Spot.credit r payouts).stack? p = some ((paid m payouts).chips p) := by
  rw [Spot.stack?_credit, hstack, paid, NatMap.chips_foldl_addChips]
  rfl

end Chips

section Steps
variable {o : Observer} {s s' mid : Spot} {p : PlayerId} {chips stack : Chips} {round : Round}
  {allIn : Bool} {plan : Plan} {told news : List GameEvent}

/-- Chips that are put in are moved in the books. -/
theorem Mirrors.bet (h : o.Mirrors s) (hstack : s.roster.stack? p = some stack)
    (hround : round.contributions = s.hand.round.contributions.addChips p chips)
    (hphase : round.phase = s.hand.round.phase) :
    (o.bet p chips).Mirrors
      { s with
        roster := s.roster.setStack p (stack - chips)
        hand := s.hand.withBet p round allIn } where
  behind := by
    intro q hq
    have hbefore := h.behind q (Hand.dealtIn_withBet (h := s.hand) ▸ hq)
    show (s.roster.setStack p (stack - chips)).stack? q =
      some ((o.behind.modify p (· - chips)).chips q)
    rw [Roster.stack?_setStack, chips_modify_sub]
    by_cases hqp : q = p
    · subst hqp
      have hsame : stack = o.behind.chips q := Option.some_inj.mp (hstack.symm.trans hbefore)
      rw [if_pos rfl, if_pos rfl, hstack, hsame]
      rfl
    · rw [if_neg hqp, if_neg hqp]
      exact hbefore
  bets := by
    intro q
    rw [Hand.round_withBet, Round.contribution, hround, NatMap.chips_addChips]
    exact NatMap.chips_addChips.trans (congrArg (· + _) (h.bets q))
  pot := (congrArg (· + chips) h.pot).trans (Hand.potTotal_withBet hround).symm
  board := h.board.trans Hand.board_withBet.symm
  phase := by
    rw [Hand.phase, Hand.round_withBet, hphase]
    exact h.phase
  folded := by
    intro q
    rw [Hand.isFolded_withBet]
    exact h.folded q

/-- Neither what was told nor whose turn it is matters. -/
theorem Mirrors.emit {e : GameEvent} (h : o.Mirrors s) : o.Mirrors (s.mapHand (·.emit e)) :=
  { h with }

theorem Mirrors.turnTo {i : Nat} (h : o.Mirrors s) : o.Mirrors (s.mapHand (·.turnTo i)) :=
  { h with }

theorem Mirrors.posted {b : BlindPost} (h : o.Mirrors s)
    (hstack : s.roster.stack? b.player = some stack) :
    (o.bet b.player b.amount).Mirrors (Hand.posted s b stack) := by
  unfold Hand.posted
  exact h.bet hstack rfl rfl

theorem Mirrors.wagered {a : Action} (h : o.Mirrors s)
    (hstack : s.roster.stack? p = some stack) :
    (o.bet p chips).Mirrors (s.wagered p a chips stack allIn) := by
  have hbet : (o.bet p chips).Mirrors
      { s with
        roster := s.roster.setStack p (stack - chips)
        hand := s.hand.withBet p (Spot.roundAfter s.hand (.commit p a chips allIn)) allIn } :=
    h.bet hstack Round.contributions_raiseOrCall Round.phase_raiseOrCall
  exact hbet.emit.emit

theorem Mirrors.asked {first : PlayerId} {small big : BlindPost} (h : o.Mirrors s) :
    o.Mirrors (s.mapHand (·.asked first small big)) :=
  { h with }

/-- By a check nothing is moved. -/
theorem Mirrors.checked (h : o.Mirrors s) : (o.bet p 0).Mirrors (s.checked p) where
  behind := by
    intro q hq
    have hbefore := h.behind q hq
    show s.roster.stack? q = some ((o.behind.modify p (· - 0)).chips q)
    rw [hbefore, chips_modify_sub, ite_self, Nat.sub_zero]
  bets := by
    intro q
    have hbefore := h.bets q
    show (o.bets.addChips p 0).chips q = s.hand.round.contribution q
    rw [← hbefore, NatMap.chips_addChips, ite_self, Nat.add_zero]
  pot := h.pot
  board := h.board
  phase := h.phase
  folded := h.folded

theorem Mirrors.fold (h : o.Mirrors s) (i : Nat) (hdealt : s.hand.isDealtIn p = true) :
    Mirrors { o with folded := o.folded.insert p } (s.mapHand (·.withFold p i)) where
  behind := h.behind
  bets := h.bets
  pot := h.pot
  board := h.board
  phase := h.phase
  folded := by
    intro q
    show q ∈ o.folded.insert p ↔ (s.hand.withFold p i).isFolded q = true
    rw [NatSet.mem_insert, Hand.isFolded_withFold hdealt, Bool.or_eq_true, decide_eq_true_eq,
      h.folded q]

/-- Who is struck off is no longer looked at. -/
theorem Mirrors.strike (h : o.Mirrors s) {r : Roster} {place : Nat} {next first : PlayerId} :
    o.Mirrors (s.mapHand (·.strike r p place next first)) where
  behind := by
    intro q hq
    exact h.behind q (List.mem_filter.mp hq).1
  bets := h.bets
  pot := h.pot
  board := h.board
  phase := h.phase
  folded := h.folded

/-! ## What happens is heard -/

theorem hear_betTold {a : Action} : o.hear (Spot.betTold p a chips allIn) = o.bet p chips := by
  cases allIn <;> rfl

/-- An action is heard of. -/
theorem Replica.acts (h : Replica o told s) (hlive : s.hand.isOver = false)
    (hacts : s.Acts plan news mid) : Replica o (told ++ news) mid := by
  have hcounted := h.counted hlive
  cases hacts with
  | check p i =>
      refine ⟨?_, each_snoc.mpr ⟨h.counts, trivial⟩, fun _ => ?_⟩
      · rw [hearAll_snoc]
        exact h.mirrors.checked.turnTo
      · rw [latest_snoc]
        exact hcounted
  | @commit p chips stack a allIn i hin hdealt hstack hle =>
      have hbet : ((o.hearAll told).bet p chips).Mirrors (s.wagered p a chips stack allIn) :=
        h.mirrors.wagered hstack
      have htotal : (s.wagered p a chips stack allIn).hand.potTotal = s.hand.potTotal + chips :=
        Spot.potTotal_wagered stack
      rw [List.append_cons]
      refine ⟨?_, ?_, fun _ => ?_⟩
      · rw [hearAll_snoc, hearAll_snoc, hear_betTold]
        exact hbet.turnTo
      · refine each_snoc.mpr ⟨each_snoc.mpr ⟨h.counts, ?_⟩, ?_⟩
        · cases allIn <;> trivial
        · rw [Counts, hearAll_snoc, hear_betTold, hbet.pot, htotal]
      · rw [latest_snoc]
        exact congrArg some htotal.symm
  | fold p i hdealt =>
      refine ⟨?_, each_snoc.mpr ⟨h.counts, trivial⟩, fun _ => ?_⟩
      · rw [hearAll_snoc]
        exact h.mirrors.fold i hdealt
      · rw [latest_snoc]
        exact hcounted

/-- So is a departure. -/
theorem Replica.departs (h : Replica o told s) (hlive : s.hand.isOver = false)
    (hdeparts : s.Departs p news mid) : Replica o (told ++ news) mid := by
  have hcounted := h.counted hlive
  cases hdeparts with
  | absent => rwa [List.append_nil]
  | folded place next =>
      rw [List.append_nil]
      exact ⟨h.mirrors.strike, h.counts, fun _ => hcounted⟩
  | standing i place next first hturn hdealt =>
      refine ⟨?_, each_snoc.mpr ⟨h.counts, trivial⟩, fun _ => ?_⟩
      · rw [hearAll_snoc]
        exact (h.mirrors.fold i hdealt).strike (s := s.mapHand (·.withFold p i))
      · rw [latest_snoc]
        exact hcounted

/-- So are the blinds, by somebody who knows the stacks. -/
theorem Replica.opens (h : Mirrors { o with phase := .preFlop } s)
    (hopens : Hand.Opens s news mid) : Replica o news mid := by
  cases hopens with
  | @blinds small big stack stack' first hsmall hbig =>
      let posted := Hand.posted (Hand.posted s small stack) big stack'
      have hposted : (o.hear (.handStarted s.hand.number s.hand.dealer small big
          s.hand.order)).Mirrors posted :=
        (h.posted hsmall.stack_eq).posted hbig.stack_eq
      have htotal : posted.hand.potTotal = s.hand.potTotal + small.amount + big.amount := by
        rw [Hand.potTotal_posted, Hand.potTotal_posted]
      refine ⟨hposted.asked, ?_, fun _ => congrArg some htotal.symm⟩
      rw [← List.nil_append [_, _], List.append_cons]
      exact each_snoc.mpr
        ⟨each_snoc.mpr ⟨each_nil, trivial⟩, htotal.symm.trans hposted.pot.symm⟩

/-- And so is all that a hand goes through as it moves on. Who was asked last is waited for. -/
theorem Replica.movesOn (hon : Spot.MovesOn s news s') (h : Replica o told s) :
    Replica o (told ++ news) s' ∧
      (o.hearAll (told ++ news)).prompted = s'.hand.currentPlayer := by
  induction hon generalizing told with
  | @prompt s p i hs hcontested howes hip =>
      have hcounted := h.counted hs.not_over
      refine ⟨⟨?_, each_snoc.mpr ⟨h.counts, trivial⟩, fun _ => ?_⟩, ?_⟩
      · rw [hearAll_snoc]
        exact { h.mirrors with }
      · rw [latest_snoc]
        exact hcounted
      · rw [hearAll_snoc]
        exact (Hand.currentPlayer_eq (h := (s.prompted p i).hand) hs.betting howes
          (TurnOrder.now_eq_ok_iff.mpr hip)).symm
  | @ended s payouts shown evaluator hs hpay =>
      have hcounted := h.counted hs.not_over
      refine ⟨⟨?_, each_snoc.mpr ⟨h.counts, ?_⟩, fun hlive => absurd hlive Bool.noConfusion⟩, ?_⟩
      · rw [hearAll_snoc]
        refine
          { bets := fun p => rfl
            pot := rfl
            board := h.mirrors.board
            phase := rfl
            folded := h.mirrors.folded
            behind := fun p hp => stack?_credit (h.mirrors.behind p hp) }
      · exact hcounted.trans (congrArg some hpay.total.symm)
      · rw [hearAll_snoc]
        rfl
  | @street s s' news phase count later first i hs hstreets hlen hon ih =>
      have hcounted := h.counted hs.not_over
      rw [List.append_cons]
      apply ih
      refine ⟨?_, each_snoc.mpr ⟨h.counts, trivial⟩, fun _ => ?_⟩
      · rw [hearAll_snoc]
        exact
          { bets := fun p => rfl
            pot := h.mirrors.pot.trans Spot.potTotal_onStreet.symm
            board := rfl
            phase := rfl
            folded := h.mirrors.folded
            behind := h.mirrors.behind }
      · rw [latest_snoc]
        exact hcounted.trans (congrArg some Spot.potTotal_onStreet.symm)

/-- And so is all that a hand goes through with an action or a departure. -/
theorem Replica.unfolds (h : Replica o told s) (hlive : s.hand.isOver = false)
    (hprompted : (o.hearAll told).prompted = s.hand.currentPlayer)
    (hunfolds : s.Unfolds news s') :
    Replica o (told ++ news) s' ∧
      (o.hearAll (told ++ news)).prompted = s'.hand.currentPlayer := by
  cases hunfolds with
  | @acts plan news news' mid s' _ hacts hon =>
      rw [← List.append_assoc]
      exact (h.acts hlive hacts).movesOn hon
  | @leaves p news news' mid s' hdeparts hon =>
      rw [← List.append_assoc]
      exact (h.departs hlive hdeparts).movesOn hon
  | stays hdeparts hawake hsame =>
      refine ⟨h.departs hlive hdeparts, ?_⟩
      rw [hsame, ← hprompted]
      cases hdeparts with
      | absent | folded => rw [List.append_nil]
      | standing => rw [hearAll_snoc]; rfl

end Steps

/-! ## From move to move -/

/-- What an observer knows of a spot by what was told there. Whoever left after the end of the hand
took along a stack that is still in the books. -/
structure Observed (o : Observer) (made : List Move) (s : Spot) : Prop where
  agrees : (o.hearAll s.hand.events).Agrees s.hand
  behind : ∀ p ∈ s.hand.dealtIn.order, (s.hand.isOver = true → .leave p ∉ made) →
    s.roster.stack? p = some ((o.hearAll s.hand.events).behind.chips p)
  prompted : (o.hearAll s.hand.events).prompted = s.hand.currentPlayer
  counts : Each o.Counts s.hand.events

/-- Between two moves the observer also knows what will be paid out. -/
structure Watched (o : Observer) (made : List Move) (s : Spot) : Prop
    extends Observed o made s where
  counted : s.hand.isOver = false →
    latest GameEvent.potTold s.hand.events = some s.hand.potTotal
  rest : s.AtRest

section Runs
variable {o : Observer} {s : Spot} {made : List Move} {m : Move}

theorem Watched.replica (h : o.Watched made s) (hlive : s.hand.isOver = false) :
    Replica o s.hand.events s where
  mirrors :=
    { h.agrees with
      behind := fun p hp => h.behind p hp fun hover => by rw [hlive] at hover; cases hover }
  counts := h.counts
  counted := h.counted

theorem Watched.move (h : o.Watched made s) (hm : ¬ Spot.Faulty (s.move m)) :
    o.Watched (made ++ [m]) (s.move m).1 := by
  have hrest := h.rest.move hm
  cases Spot.move_cases h.rest m with
  | @unfolds news s' hawake hunfolds _ hhand hstacks =>
      have hlive := hawake.not_over
      obtain ⟨hreplica, hprompted⟩ := (h.replica hlive).unfolds hlive h.prompted hunfolds
      rw [← hunfolds.events] at hreplica hprompted
      refine ⟨⟨?_, fun p hp _ => ?_, ?_, ?_⟩, ?_, hrest⟩
      · rw [hhand]
        exact hreplica.mirrors.toAgrees
      · rw [hhand] at hp ⊢
        rw [hstacks p hp]
        exact hreplica.mirrors.behind p hp
      · rw [hhand]
        exact hprompted
      · rw [hhand]
        exact hreplica.counts
      · rw [hhand]
        exact hreplica.counted
  | same _ hhand hstacks =>
      refine ⟨⟨?_, fun p hp haway => ?_, ?_, ?_⟩, ?_, hrest⟩
      · rw [hhand]
        exact h.agrees
      · rw [hhand] at hp haway ⊢
        have hbefore := h.behind p hp fun hover hleft =>
          haway hover (List.mem_append_left _ hleft)
        rw [hstacks p _ (Roster.contains_of_stack hbefore)]
        · exact hbefore
        · intro hover hleave
          exact haway hover (hleave ▸ List.mem_append_right _ List.mem_cons_self)
      · rw [hhand]
        exact h.prompted
      · rw [hhand]
        exact h.counts
      · rw [hhand]
        exact h.counted
  | short _ hfault => exact absurd hfault hm

theorem Watched.play {moves : List Move} (h : o.Watched made s) (hsmooth : s.Smooth moves) :
    o.Watched (made ++ moves) (s.play moves) := by
  induction moves generalizing made s with
  | nil => rwa [List.append_nil]
  | cons m rest ih =>
      obtain ⟨hm, hrest⟩ := Spot.smooth_cons.mp hsmooth
      rw [List.append_cons]
      exact ih (h.move hm) hrest

end Runs

end Observer

namespace Hand
section Deal
variable {number : Nat} {r : Roster} {dealer : PlayerId} {pos : Positions} {blinds : Blinds}
  {deck : Deck}

/-- Before the blinds there is nothing to know but the stacks. -/
theorem mirrors_fresh (ev : Evaluator)
    (hdealt : (fresh number r dealer pos blinds deck).Dealt r)
    (horder : (fresh number r dealer pos blinds deck).dealtIn.order = r.funded) :
    Observer.Mirrors { Observer.atDeal r with phase := .preFlop }
      (freshSpot number r dealer pos blinds deck ev) where
  behind := by
    intro p hp
    have hfunded : p ∈ r.funded := horder ▸ hp
    obtain ⟨stack, hstack⟩ := Roster.contains_iff.mp (Roster.contains_of_mem_funded hfunded)
    have hknown : (Observer.atDeal r).behind.chips p = stack := by
      rw [Observer.atDeal, NatMap.chips, NatMap.get?_ofList_map hfunded, hstack]
      rfl
    exact hstack.trans (congrArg some hknown.symm)
  bets := fun _ => rfl
  pot := rfl
  board := rfl
  phase := rfl
  folded := hdealt.books.folded

/-- Whatever happens in a hand, whoever knew the stacks at the deal and heard all that was told
knows how the hand stands: what is behind and what is bet, the middle, the board, the phase, who has
folded and who is waited for. This ends with a fault, which takes more players than can be seated at
a table. -/
theorem observed_of_start (r r' : Roster) (dealer : PlayerId) (number : Nat) (blinds : Blinds)
    (deck : Deck) (ev ev' : Evaluator) (h : Hand) (hv : r.Valid)
    (hstart : start number r dealer blinds deck ev = (r', ev', .ok h)) (moves : List Move) :
    (r.funded.length ≤ maxSeats → Card.fullDeck.length ≤ deck.cards.size →
      Spot.Smooth ⟨h, r', ev'⟩ moves) ∧
      (Spot.Smooth ⟨h, r', ev'⟩ moves →
        (Observer.atDeal r).Observed moves (Spot.play ⟨h, r', ev'⟩ moves)) := by
  constructor
  · intro hmost hdeck
    have hbegun := begun_of_deal hv (deckSuffices_reset hdeck hmost) hstart
    exact (Spot.InPlay.of_begun hv hbegun).smooth moves
  · intro hsmooth
    obtain ⟨pos, news, mid, told, hopened, hon, hevents, hrest⟩ := movesOn_of_deal hv hstart
    have hknown := mirrors_fresh ev hopened.dealt hopened.order
    obtain ⟨hreplica, hprompted⟩ := (Observer.Replica.opens hknown hopened.opens).movesOn hon
    rw [← hevents] at hreplica hprompted
    have hwatched : (Observer.atDeal r).Watched [] ⟨h, r', ev'⟩ :=
      { agrees := hreplica.mirrors.toAgrees
        behind := fun p hp _ => hreplica.mirrors.behind p hp
        prompted := hprompted
        counts := hreplica.counts
        counted := hreplica.counted
        rest := hrest }
    exact (hwatched.play hsmooth).toObserved

theorem observed_of_start_uneven :
    ∃ s : Spot, start 1 unevenSeated 1 ⟨5, 10⟩ (.seeded 7) { value := fun _ => HandValue.best } =
        (s.roster, s.evaluator, .ok s.hand) ∧
      ∀ moves, s.Smooth moves ∧
        (Observer.atDeal unevenSeated).Observed moves (s.play moves) := by
  have hv : unevenSeated.Valid := by decide
  have hdeck : Card.fullDeck.length ≤ (Deck.seeded 7).cards.size := Nat.le_of_eq rfl
  obtain ⟨s, hs, -⟩ := deal_spec 1 ⟨5, 10⟩ { value := fun _ => HandValue.best } hv (by decide)
    (show 1 ∈ unevenSeated.funded by decide) (deckSuffices_reset hdeck (by decide)) (by decide)
  refine ⟨s, hs, fun moves => ?_⟩
  obtain ⟨hsmooth, hobserved⟩ := observed_of_start unevenSeated s.roster 1 1 ⟨5, 10⟩ (.seeded 7) _
    s.evaluator s.hand hv hs moves
  exact ⟨hsmooth (by decide) hdeck, hobserved (hsmooth (by decide) hdeck)⟩

/-- Twenty-six players, whose pockets take the whole deck. -/
def packed : Roster :=
  { seats := (List.range 26).map fun i => some ⟨i + 1, "", 100, i⟩ }

/-- Everybody but the blinds folds, and the blinds are to see a flop. -/
def toTheFlop : List Move :=
  ((List.range 23).map fun i => .act (i + 4) .fold) ++ [.act 1 .fold, .act 2 .call, .act 3 .check]

/-- The spot that a start leads to. -/
def spotOf? : Roster × Evaluator × Except ActionError Hand → Option Spot
  | (roster, evaluator, .ok hand) => some ⟨hand, roster, evaluator⟩
  | (_, _, .error _) => none

theorem eq_of_spotOf? {o : Roster × Evaluator × Except ActionError Hand} {s : Spot}
    (h : spotOf? o = some s) : o = (s.roster, s.evaluator, .ok s.hand) := by
  obtain ⟨roster, evaluator, e | hand⟩ := o
  · cases h
  · cases h
    rfl

/-- Without the cards for a street the bets are collected, and nobody is told. -/
theorem not_observed_of_short_deck :
    packed.Valid ∧
      ∃ s : Spot, start 1 packed 1 ⟨5, 10⟩ (.seeded 7) { value := fun _ => HandValue.best } =
          (s.roster, s.evaluator, .ok s.hand) ∧
        ¬ (Observer.atDeal packed).Observed toTheFlop (s.play toTheFlop) := by
  have hend : (spotOf? (start 1 packed 1 ⟨5, 10⟩ (.seeded 7)
      { value := fun _ => HandValue.best })).map (fun s =>
        (((Observer.atDeal packed).hearAll (s.play toTheFlop).hand.events).prompted,
          (s.play toTheFlop).hand.currentPlayer)) = some (some 3, none) := by decide +kernel
  obtain ⟨s, hs, hasked⟩ := Option.map_eq_some_iff.mp hend
  obtain ⟨hprompted, hcurrent⟩ := Prod.mk.inj hasked
  refine ⟨by decide +kernel, s, eq_of_spotOf? hs, fun hobserved => ?_⟩
  have hsame := hobserved.prompted
  rw [hprompted, hcurrent] at hsame
  cases hsame

end Deal
end Hand
end Holdem
