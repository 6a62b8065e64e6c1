import Holdem.Proofs.Hand.Observer

/-!
# What a prompt promises

Whoever is waited for was asked last, and what they were told of the bet and of the least raise
still holds: until they act others can only leave, and that changes no bet. So the prompt decides
what they can do, and at which amounts.
-/
namespace Holdem

/-- What a player is asked: there is so much to call, and a bet or a raise has to reach this. -/
structure Prompt where
  player : PlayerId
  toCall : Chips
  least : Chips
deriving DecidableEq

def GameEvent.asked : GameEvent → Option Prompt
  | .nextPlayer player toCall least => some ⟨player, toCall, least⟩
  | _ => none

/-- The chips that a plan takes from a stack. -/
def Plan.chips : Plan → Chips
  | .check _ | .fold _ => 0
  | .commit _ _ chips _ => chips

namespace Hand

/-- Whoever is waited for was asked last, and for what they would be asked now. -/
def Asking (h : Hand) : Prop :=
  ∃ p, h.currentPlayer = some p ∧
    latest GameEvent.asked h.events = some ⟨p, h.round.toCall p, h.round.minRaiseTo⟩

end Hand

namespace Spot
variable {s s' mid : Spot} {p : PlayerId} {a : Action} {plan : Plan} {told news : List GameEvent}
  {stack amount : Chips}

/-! ## The latest prompt -/

theorem MovesOn.asking (h : MovesOn s news s') (hlive : s'.hand.isOver = false) :
    s'.hand.Asking := by
  induction h with
  | @prompt s p i hs _ howes hip =>
      refine ⟨p, ?_, latest_snoc⟩
      exact Hand.currentPlayer_eq (h := (s.prompted p i).hand) hs.betting howes
        (TurnOrder.now_eq_ok_iff.mpr hip)
  | ended => cases hlive
  | street _ _ _ _ ih => exact ih hlive

/-- A departure is not a prompt. -/
theorem Departs.asked (h : s.Departs p told mid) :
    latest GameEvent.asked mid.hand.events = latest GameEvent.asked s.hand.events := by
  cases h with
  | absent | folded => rfl
  | standing => exact latest_snoc

/-- Somebody who leaves also leaves the bets as they are. -/
theorem Departs.asking (h : s.Departs p told mid) (hask : s.hand.Asking)
    (hsame : mid.hand.currentPlayer = s.hand.currentPlayer) : mid.hand.Asking := by
  obtain ⟨q, hcurrent, hasked⟩ := hask
  refine ⟨q, hsame.trans hcurrent, h.asked.trans (hasked.trans ?_)⟩
  rcases h.alters with halters | halters
  · rw [halters.round]
  · rw [halters.round]
    rfl

theorem Unfolds.asking (h : s.Unfolds news s') (hask : s.hand.Asking)
    (hlive : s'.hand.isOver = false) : s'.hand.Asking := by
  cases h with
  | acts _ _ hon | leaves _ hon => exact hon.asking hlive
  | stays hdeparts _ hsame => exact hdeparts.asking hask hsame

/-- A hand at rest that waits for a player asks them. -/
structure Asks (s : Spot) : Prop where
  rest : s.AtRest
  asking : s.hand.isOver = false → s.hand.Asking

theorem Asks.move {m : Move} (h : s.Asks) (hm : ¬ Faulty (s.move m)) : (s.move m).1.Asks := by
  refine ⟨h.rest.move hm, fun hlive => ?_⟩
  cases move_cases h.rest m with
  | unfolds hawake hunfolds _ hhand _ =>
      rw [hhand] at hlive ⊢
      exact hunfolds.asking (h.asking hawake.not_over) hlive
  | same _ hhand _ =>
      rw [hhand] at hlive ⊢
      exact h.asking hlive
  | short _ hfault => exact absurd hfault hm

theorem Asks.play {moves : List Move} (h : s.Asks) (hsmooth : s.Smooth moves) :
    (s.play moves).Asks := by
  induction moves generalizing s with
  | nil => exact h
  | cons m rest ih =>
      obtain ⟨hm, hrest⟩ := smooth_cons.mp hsmooth
      exact ih (h.move hm) hrest

/-! ## What an accepted action takes -/

/-- A player puts in some chips of their stack, and nobody else does. -/
structure Pays (s : Spot) (p : PlayerId) (chips : Chips) (mid : Spot) : Prop where
  covered : ∃ stack, s.roster.stack? p = some stack ∧ chips ≤ stack
  behind : ∀ q, mid.roster.stack? q = (s.roster.stack? q).map (· - if q = p then chips else 0)
  bets : ∀ q,
    mid.hand.round.contribution q = s.hand.round.contribution q + if q = p then chips else 0

/-- An action is accepted and takes some chips. The hand moves on from there, which may bring
winnings, and fails if there are too few cards for what is to come. -/
structure Takes (s : Spot) (p : PlayerId) (a : Action) (chips : Chips) : Prop where
  answer : (s.act p a).2 = .ok () ∨ ¬ s.hand.Stocked ∧ (s.act p a).2 = .error exhausted
  pays : ∃ mid, s.Pays p chips mid ∧ s.act p a = mid.advance

theorem pays_nothing (hstack : s.roster.stack? p = some stack) (hroster : mid.roster = s.roster)
    (hbets : mid.hand.round.contributions = s.hand.round.contributions) : s.Pays p 0 mid where
  covered := ⟨stack, hstack, Nat.zero_le _⟩
  behind q := by simp [hroster]
  bets q := by simp [Round.contribution, hbets]

theorem pays_wagered {chips : Chips} {allIn : Bool} (hstack : s.roster.stack? p = some stack)
    (hle : chips ≤ stack) : s.Pays p chips (s.wagered p a chips stack allIn) where
  covered := ⟨stack, hstack, hle⟩
  behind q := by
    refine Roster.stack?_setStack.trans ?_
    by_cases hq : q = p
    · subst hq
      simp [hstack]
    · simp [hq]
  bets q := by
    have hround : (s.wagered p a chips stack allIn).hand.round =
      roundAfter s.hand (.commit p a chips allIn) := Hand.round_withBet
    rw [hround]
    simp only [roundAfter, Round.contribution, Round.settleAction, Round.contributions_raiseOrCall]
    exact NatMap.chips_addChips

theorem Acts.pays (h : s.Acts plan told mid) (hstack : s.roster.stack? plan.player = some stack) :
    s.Pays plan.player plan.chips mid := by
  cases h with
  | check | fold => exact pays_nothing hstack rfl rfl
  | @commit p chips stack a allIn i _ _ hheld hle =>
      have hpaid : s.Pays p chips (s.wagered p a chips stack allIn) := pays_wagered hheld hle
      exact { hpaid with }

theorem takes_of_accepted (ha : s.hand.Awake s.roster) (h : s.validate p a = .ok plan) :
    s.Takes p a plan.chips := by
  obtain ⟨stack, hstack, -⟩ := (validate_ok h).2
  obtain ⟨told, mid, hact, rfl, hacts, hsteady⟩ := act_carries ha h
  refine ⟨?_, mid, hacts.pays hstack, hact⟩
  rw [hact]
  rcases advance_cases hsteady with ⟨news, s', hs', -⟩ | ⟨hshort, s', hfail⟩
  · exact .inl (by rw [hs']; rfl)
  · exact .inr ⟨fun hst => hshort (hacts.alters.stocked hst), by rw [hfail]; rfl⟩

/-! ## What a prompt decides -/

/-- The action that names an amount: a raise if there is a bet in the round, and else a bet. -/
def sizing (s : Spot) (amount : Chips) : Action :=
  if s.hand.round.highestBet = 0 then .bet amount else .raise amount

/-- What the player who is asked can do, and at which amounts. None of these is below what they
have put in, so the differences are exact. -/
structure Decides (s : Spot) (c : Prompt) (stack : Chips) : Prop where
  check : c.toCall = 0 → s.Takes c.player .check 0
  noCheck : 0 < c.toCall → s.act c.player .check = s.fail (.cannotCheck c.toCall)
  call : 0 < c.toCall → s.Takes c.player .call (min c.toCall stack)
  noCall : c.toCall = 0 → s.act c.player .call = s.fail .nothingToCall
  noRaise : s.hand.round.highestBet = 0 →
    ∀ amount, s.act c.player (.raise amount) = s.fail .noBetToRaise
  noBet : 0 < s.hand.round.highestBet →
    ∀ amount, s.act c.player (.bet amount) = s.fail .betAlreadyMade
  above : s.hand.round.contribution c.player ≤ c.least
  tooSmall : ∀ amount < c.least,
    s.act c.player (s.sizing amount) = s.fail (.raiseTooSmall c.least)
  tooLarge : ∀ amount ≥ c.least, s.hand.round.contribution c.player + stack < amount →
    s.act c.player (s.sizing amount) =
      s.fail (.insufficientChips (amount - s.hand.round.contribution c.player) stack)
  sized : ∀ amount ≥ c.least, amount ≤ s.hand.round.contribution c.player + stack →
    s.Takes c.player (s.sizing amount) (amount - s.hand.round.contribution c.player)

/-- The latest prompt names whom the hand waits for, and decides what they can do. -/
def Prompted (s : Spot) : Prop :=
  ∃ c stack, latest GameEvent.asked s.hand.events = some c ∧
    s.hand.currentPlayer = some c.player ∧ s.roster.stack? c.player = some stack ∧ 0 < stack ∧
    s.Decides c stack

theorem planFor_sizing : s.planFor p stack (s.sizing amount) =
    s.sizingPlan p (s.sizing amount) amount stack := by
  unfold sizing
  by_cases hbet : s.hand.round.highestBet = 0
  · rw [if_pos hbet, planFor, hbet, if_neg (Nat.lt_irrefl 0)]
  · rw [if_neg hbet, planFor, if_neg hbet]

/-- Whoever is waited for has what they would be asked now to go by. -/
theorem decides_of_current (ha : s.hand.Awake s.roster) (hcur : s.hand.currentPlayer = some p)
    (hstack : s.roster.stack? p = some stack) :
    s.Decides ⟨p, s.hand.round.toCall p, s.hand.round.minRaiseTo⟩ stack := by
  have hdealt := ha.places.dealt p (ha.places.turns_subset (ha.mem_turns_of_current hcur))
  have hheard : ∀ a, s.validate p a = s.planFor p stack a := fun _ =>
    validate_of_current ha.betting hdealt hcur hstack
  have hsized : ∀ amount, s.validate p (s.sizing amount) =
    s.sizingPlan p (s.sizing amount) amount stack := fun amount =>
      (hheard _).trans planFor_sizing
  constructor
  case check =>
    intro hcall
    have hplan : s.validate p .check = .ok (.check p) := by
      rw [hheard, planFor, if_neg (Nat.not_lt.mpr (Nat.le_of_eq hcall))]
    exact takes_of_accepted ha hplan
  case noCheck =>
    intro hcall
    exact act_eq_fail (by rw [hheard, planFor, if_pos hcall])
  case call =>
    intro hcall
    have hplan : s.validate p .call =
        .ok (s.commitPlan p .call (min (s.hand.round.toCall p) stack)) := by
      rw [hheard, planFor, if_neg (Nat.ne_of_gt hcall)]
    exact takes_of_accepted ha hplan
  case noCall =>
    intro hcall
    exact act_eq_fail (by rw [hheard, planFor, if_pos hcall])
  case noRaise =>
    intro hbet amount
    exact act_eq_fail (by rw [hheard, planFor, if_pos hbet])
  case noBet =>
    intro hbet amount
    exact act_eq_fail (by rw [hheard, planFor, if_pos hbet])
  case above =>
    -- Even where the least raise is cut off at what can be counted, no bet is above it.
    have hbet := ha.bets.highest p
    have hcount := ha.bets.countable
    simp only [Round.minRaiseTo, cappedAdd]
    lia
  case tooSmall =>
    intro amount hless
    exact act_eq_fail (by rw [hsized, sizingPlan, if_pos hless])
  case tooLarge =>
    intro amount hleast hmost
    have hshort : stack < amount - s.hand.round.contribution p := by lia
    exact act_eq_fail (by rw [hsized, sizingPlan, if_neg (Nat.not_lt.mpr hleast), if_pos hshort])
  case sized =>
    intro amount hleast hmost
    have hcover : ¬ stack < amount - s.hand.round.contribution p := by lia
    have hplan : s.validate p (s.sizing amount) =
        .ok (s.commitPlan p (s.sizing amount) (amount - s.hand.round.contribution p)) := by
      rw [hsized, sizingPlan, if_neg (Nat.not_lt.mpr hleast), if_neg hcover]
    exact takes_of_accepted ha hplan

theorem Asks.prompted (h : s.Asks) (hlive : s.hand.isOver = false) : s.Prompted := by
  obtain ⟨p, hcur, hasked⟩ := h.asking hlive
  have ha := h.rest.awake hlive
  obtain ⟨stack, hstack, hpos⟩ := ha.places.stack_pos (ha.bets.able p (ha.owes_of_current hcur))
  exact ⟨_, stack, hasked, hcur, hstack, hpos, decides_of_current ha hcur hstack⟩

end Spot

namespace Hand

/-- Whenever a hand waits for a player, the latest prompt names them and decides what they can do,
whoever left since. This ends with a fault, which takes more players than can be seated at a
table. -/
theorem prompts_hold_good (r r' : Roster) (dealer : PlayerId) (number : Nat) (blinds : Blinds)
    (deck : Deck) (ev ev' : Evaluator) (h : Hand) (hv : r.Valid)
    (hstart : start number r dealer blinds deck ev = (r', ev', .ok h)) (moves : List Move)
    (s : Spot) (hs : Spot.play ⟨h, r', ev'⟩ moves = s) :
    (r.funded.length ≤ maxSeats → Card.fullDeck.length ≤ deck.cards.size →
      Spot.Smooth ⟨h, r', ev'⟩ moves ∧ (s.hand.isOver = false → s.hand.Stocked)) ∧
      (Spot.Smooth ⟨h, r', ev'⟩ moves → s.hand.isOver = false → s.Prompted) := by
  subst hs
  constructor
  · intro hmost hdeck
    have hplay := Spot.InPlay.of_begun hv
      (begun_of_deal hv (deckSuffices_reset hdeck hmost) hstart)
    exact ⟨hplay.smooth moves, fun hlive => ((hplay.play moves).live hlive).stocked⟩
  · intro hsmooth hlive
    obtain ⟨_, _, _, _, -, hon, -, hrest⟩ := movesOn_of_deal hv hstart
    have hasks : Spot.Asks ⟨h, r', ev'⟩ := ⟨hrest, hon.asking⟩
    exact (hasks.play hsmooth).prompted hlive

/-- Two players, the first of whom is asked for the rest of the big blind. -/
theorem prompts_hold_good_uneven :
    ∃ s : Spot, start 1 unevenSeated 1 ⟨5, 10⟩ (.seeded 7) { value := fun _ => HandValue.best } =
        (s.roster, s.evaluator, .ok s.hand) ∧
      s.hand.isOver = false ∧ latest GameEvent.asked s.hand.events = some ⟨1, 5, 20⟩ ∧
      ∀ moves, s.Smooth moves ∧ ((s.play moves).hand.isOver = false →
        (s.play moves).hand.Stocked ∧ (s.play moves).Prompted) := by
  have hasked : (spotOf? (start 1 unevenSeated 1 ⟨5, 10⟩ (.seeded 7)
      { value := fun _ => HandValue.best })).map (fun s =>
        (s.hand.isOver, latest GameEvent.asked s.hand.events)) =
      some (false, some ⟨1, 5, 20⟩) := by decide +kernel
  obtain ⟨s, hspot, hboth⟩ := Option.map_eq_some_iff.mp hasked
  obtain ⟨hlive, hprompt⟩ := Prod.mk.inj hboth
  have hs := eq_of_spotOf? hspot
  refine ⟨s, hs, hlive, hprompt, fun moves => ?_⟩
  obtain ⟨hfew, hprompted⟩ := prompts_hold_good unevenSeated s.roster 1 1 ⟨5, 10⟩ (.seeded 7) _
    s.evaluator s.hand (by decide) hs moves _ rfl
  obtain ⟨hsmooth, hstocked⟩ := hfew (by decide) (Nat.le_of_eq rfl)
  exact ⟨hsmooth, fun hlive => ⟨hstocked hlive, hprompted hsmooth hlive⟩⟩

/-- Without the cards for a street a check is not accepted although there is nothing to call, and
after it nobody is waited for. -/
theorem not_accepted_of_short_deck :
    packed.Valid ∧
      ∃ s t : Spot, start 1 packed 1 ⟨5, 10⟩ (.seeded 7) { value := fun _ => HandValue.best } =
          (s.roster, s.evaluator, .ok s.hand) ∧
        s.play toTheFlop.dropLast = t ∧ t.hand.isOver = false ∧
        latest GameEvent.asked t.hand.events = some ⟨3, 0, 20⟩ ∧
        t.hand.currentPlayer = some 3 ∧ (t.act 3 .check).2 ≠ .ok () ∧
        (t.act 3 .check).1.hand.isOver = false ∧
        latest GameEvent.asked (t.act 3 .check).1.hand.events = some ⟨3, 0, 20⟩ ∧
        (t.act 3 .check).1.hand.currentPlayer = none := by
  have hend : (spotOf? (start 1 packed 1 ⟨5, 10⟩ (.seeded 7)
      { value := fun _ => HandValue.best })).map (fun s =>
        let t := s.play toTheFlop.dropLast
        let t' := t.act 3 .check
        ((t.hand.isOver, latest GameEvent.asked t.hand.events, t.hand.currentPlayer), t'.2.toBool,
          t'.1.hand.isOver, latest GameEvent.asked t'.1.hand.events, t'.1.hand.currentPlayer)) =
      some ((false, some ⟨3, 0, 20⟩, some 3), false, false, some ⟨3, 0, 20⟩, none) := by
    decide +kernel
  obtain ⟨s, hs, hall⟩ := Option.map_eq_some_iff.mp hend
  simp only [Prod.mk.injEq] at hall
  obtain ⟨⟨hlive, hasked, hcurrent⟩, hanswer, hafter⟩ := hall
  refine ⟨by decide +kernel, s, _, eq_of_spotOf? hs, rfl, hlive, hasked, hcurrent, fun hok => ?_,
    hafter⟩
  rw [hok] at hanswer
  cases hanswer

end Hand
end Holdem
