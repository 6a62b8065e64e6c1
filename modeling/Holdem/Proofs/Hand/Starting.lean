import Holdem.Proofs.Hand.Bystanders
import Holdem.Proofs.Hand.Rounds

/-!
# Starting a hand is all or nothing

A hand is started with everybody who has chips, or nothing has changed. Whatever could be in the way
is met before the blinds are posted. From then on nothing can go wrong: for up to twenty-three
players there are cards for every street, and with four players or more the blinds leave two who can
still bet, so that somebody is asked to act before a street is dealt.
-/
namespace Holdem

/-- A player is waited for, who has not folded, has chips left and owes an action. -/
structure Spot.Awaits (s : Spot) (p : PlayerId) : Prop where
  current : s.hand.currentPlayer = some p
  standing : s.hand.isFolded p = false
  behind : s.hand.isAllIn p = false
  funded : ∃ stack, s.roster.stack? p = some stack ∧ 0 < stack
  owes : s.hand.round.owesAction p = true

namespace Hand
variable {number : Nat} {r : Roster} {dealer : PlayerId} {blinds : Blinds} {deck : Deck}
  {ev : Evaluator} {d mid s : Spot} {news : List GameEvent} {p : PlayerId}

/-! ## What is in the way of a hand -/

theorem deckDeals_reset {players : Nat} (hd : deck.cards.size = Card.fullDeck.length) :
    deckDeals deck.reset players ↔ players ≤ 26 := by
  have hcards : Card.fullDeck.length = 52 := by decide
  have hsize := size_reset deck
  show 0 + _ ≤ _ ↔ _
  omega

/-- What keeps a hand from being dealt from a full deck. -/
theorem not_canDeal_reset (hv : r.Valid) (hd : deck.cards.size = Card.fullDeck.length) :
    ¬ CanDeal r dealer deck.reset ↔
      r.funded.length < 2 ∨ dealer ∉ r.funded ∨ 26 < r.funded.length ∨
        maxChips < r.chipsOf r.funded := by
  rw [CanDeal, deckDeals_reset hd, Roster.chipsOf_funded hv]
  simp only [not_and_or, Nat.not_le]

/-! ## Two players who can still bet -/

/-- Of four players or more, two are neither of two given ones. -/
theorem exists_two_others {l : List PlayerId} (hn : l.Nodup) (hfour : 4 ≤ l.length)
    (a b : PlayerId) : ∃ p q, p ≠ q ∧ p ∈ l ∧ q ∈ l ∧ p ∉ [a, b] ∧ q ∉ [a, b] := by
  have hothers : ((l.erase a).erase b).Nodup := (hn.erase a).erase b
  have hmem : ∀ p ∈ (l.erase a).erase b, p ∈ l ∧ p ∉ [a, b] := fun p hp => by
    obtain ⟨hpb, hp⟩ := (hn.erase a).mem_erase_iff.mp hp
    obtain ⟨hpa, hp⟩ := hn.mem_erase_iff.mp hp
    exact ⟨hp, by simp [hpa, hpb]⟩
  have htwo : 2 ≤ ((l.erase a).erase b).length := by
    rw [List.length_erase, List.length_erase]
    split <;> split <;> omega
  match hleft : (l.erase a).erase b, htwo with
  | p :: q :: rest, _ =>
      rw [hleft] at hothers hmem
      obtain ⟨hp, hpout⟩ := hmem p (by simp)
      obtain ⟨hq, hqout⟩ := hmem q (by simp)
      have hpq : p ≠ q := fun h => (List.nodup_cons.mp hothers).1 (h ▸ List.mem_cons_self)
      exact ⟨p, q, hpq, hp, hq, hpout, hqout⟩

/-- The blinds take what they have from two players at most. Everybody else with a turn can act, and
whoever can act owes an action. -/
theorem Opens.able (h : Opens d news mid) (hp : d.hand.Places d.roster)
    (hunmarked : ∀ p, d.hand.isAllIn p = false) :
    ∃ a b, ∀ p ∈ d.hand.turns.order, p ∉ [a, b] →
      p ∈ mid.hand.ableToAct ∧ p ∈ mid.hand.round.pending := by
  cases h with
  | @blinds small big stack stack' first hsmall hbig hfirst =>
      let blinded := (posted (posted d small stack) big stack').hand
      have hdealt : d.hand.isDealtIn small.player = true :=
        hp.dealt _ (hp.turns_subset hsmall.turn)
      have hdealt' : (posted d small stack).hand.isDealtIn big.player = true :=
        isDealtIn_withBet.trans (hp.dealt _ (hp.turns_subset (turns_posted ▸ hbig.turn)))
      refine ⟨small.player, big.player, fun p hturn hout => ?_⟩
      obtain ⟨hpsmall, hpbig⟩ : p ≠ small.player ∧ p ≠ big.player := by simpa using hout
      have hable : p ∈ blinded.ableToAct :=
        (mem_ableToAct_withBet hdealt').mpr
          ⟨(mem_ableToAct_withBet hdealt).mpr
            ⟨mem_ableToAct.mpr ⟨hturn, hunmarked p⟩, fun h => absurd h hpsmall⟩,
            fun h => absurd h hpbig⟩
      have horder : (blinded.asked first small big).ableToAct = blinded.ableToAct := by
        show ((blinded.turns.setCurrent first).toOption.getD blinded.turns).order.filter _ = _
        rw [TurnOrder.order_turnedTo]
        rfl
      exact ⟨horder ▸ hable, NatSet.mem_ofList.mpr hable⟩

/-- With four players or more somebody has to act after the blinds. -/
theorem Opens.stops (h : Opens d news mid) (hp : d.hand.Places d.roster)
    (hunmarked : ∀ p, d.hand.isAllIn p = false) (hfour : 4 ≤ d.hand.turns.order.length) :
    mid.hand.round.isClosed = false ∧ mid.hand.bettingIsOver = false := by
  obtain ⟨a, b, hable⟩ := h.able hp hunmarked
  obtain ⟨p, q, hpq, hpturn, hqturn, hpout, hqout⟩ := exists_two_others hp.turns_nodup hfour a b
  obtain ⟨hpable, howes⟩ := hable p hpturn hpout
  constructor
  · refine Bool.eq_false_iff.mpr fun hclosed => ?_
    exact NatSet.isEmpty_iff.mp hclosed p howes
  · refine Bool.eq_false_iff.mpr fun hover => ?_
    exact hpq (Spot.eq_of_bettingIsOver hover hpable (hable q hqturn hqout).1)

/-- A hand that can be dealt from a full deck is dealt, opens and moves on. -/
theorem deal_of_canDeal (number : Nat) (blinds : Blinds) (ev : Evaluator) (hv : r.Valid)
    (hd : deck.cards.size = Card.fullDeck.length) (hcan : CanDeal r dealer deck.reset) :
    ∃ h r' ev', start number r dealer blinds deck ev = (r', ev', .ok h) := by
  obtain ⟨htwo, hdealer, hdeals, hcount⟩ := hcan
  obtain ⟨pos, hlen, hopened⟩ := setUp_opened number blinds ev hv htwo hdealer hcount
  obtain ⟨hsetUp, news, hopened⟩ := hopened deck.reset hdeals
  let mid := opening (freshSpot number r dealer pos blinds deck.reset ev) pos
  have hsteady : mid.hand.Steady mid.roster := hopened.opens.steady hopened.dealt
  have hadvance : ∃ told s, mid.advance = Spot.done s ∧ Spot.MovesOn mid told s := by
    rcases Nat.lt_or_ge r.funded.length 4 with hfew | hmany
    · have hsuffices : deckSuffices deck.reset r.funded.length :=
        deckSuffices_reset (Nat.le_of_eq hd.symm)
          (Nat.le_trans (Nat.le_of_lt hfew) (by decide))
      have hstocked : (freshSpot number r dealer pos blinds deck.reset ev).hand.Stocked :=
        Nat.le_trans (Nat.le_of_eq (Nat.add_assoc _ _ _)) hsuffices
      exact Spot.advance_movesOn hsteady (hopened.opens.stocked hstocked)
    · refine Spot.advanceThrough_of_stop _ hsteady (.inr ?_)
      exact hopened.opens.stops hopened.dealt.places
        (fun p => (fresh_unmarked hlen hdeals p).2) hmany
  obtain ⟨told, s, hadvance, -⟩ := hadvance
  exact ⟨s.hand, s.roster, s.evaluator, by
    rw [start, deal_eq number blinds ev hsetUp, hadvance]; rfl⟩

/-! ## A hand that is started -/

theorem Awake.awaits (ha : s.hand.Awake s.roster) : ∃ p, s.Awaits p := by
  obtain ⟨p, howes, -, hcur⟩ := ha.currentPlayer
  have hable := ha.bets.able p howes
  obtain ⟨hturn, hbehind⟩ := mem_ableToAct.mp hable
  exact ⟨p,
    { current := hcur
      standing := (ha.places.mem_turns.mp hturn).2
      behind := hbehind
      funded := ha.places.stack_pos hable
      owes := Round.owesAction_iff.mpr howes }⟩

/-- What starting a hand with the players of a roster leads to. -/
structure Started (r : Roster) (s : Spot) : Prop where
  dealtIn : ∀ p, s.hand.isDealtIn p = true ↔ p ∈ r.funded
  others : ∀ p, p ∉ r.funded → s.roster.get? p = r.get? p
  balanced : s.checkConservation = .ok ()
  goes : (s.hand.isOver = true ∧ s.hand.potTotal = 0 ∧ s.roster.totalChips = r.totalChips) ∨
    (s.hand.isOver = false ∧ ∃ p, s.Awaits p)

theorem started_of_deal {r' : Roster} {ev' : Evaluator} {h : Hand} (hv : r.Valid)
    (hdeal : deal number r dealer blinds deck ev = (r', ev', .ok h)) :
    Started r ⟨h, r', ev'⟩ := by
  obtain ⟨pos, news, mid, told, hopened, hon, -, -⟩ := movesOn_of_deal hv hdeal
  have hmoves := (hopened.opens.moves hopened.dealt).trans hon.moves
  have hrestacked : r.Restacked r.funded r' := hopened.order ▸ hmoves.restacked
  have hchips : r'.totalChips + h.potTotal = r.totalChips := by
    rw [Roster.totalChips_eq_chipsOf (hrestacked.valid hv), Roster.totalChips_eq_chipsOf hv,
      hrestacked.ids_eq]
    exact hmoves.pooled r.ids hv.distinct
      (hopened.order ▸ (Roster.funded_sublist r).subset)
  refine ⟨isDealtIn_of_deal hv hdeal, fun p hp => hrestacked.get?_eq hp, ?_, ?_⟩
  · exact hon.goes.elim (·.balanced.checkConservation) (·.balanced.checkConservation)
  · rcases hon.goes with ha | hsettled
    · exact .inr ⟨ha.not_over, ha.awaits⟩
    · refine .inl ⟨hsettled.ended, hsettled.empty, ?_⟩
      rw [← hchips, hsettled.empty, Nat.add_zero]

/-- With any roster that came about by its own operations, any deck of fifty-two cards and whoever
is to have the button: a hand is refused if and only if fewer than two players or more than
twenty-six have chips, the dealer has none, or the chips can not be counted. Then nothing has
changed. Otherwise the players with chips are dealt in and nobody else is touched, the chips add up,
and the hand is over with every chip back in a stack or waits for a player. -/
theorem starts_all_or_nothing (hr : r.Built) (hd : deck.cards.size = Card.fullDeck.length)
    (number : Nat) (dealer : PlayerId) (blinds : Blinds) (ev : Evaluator) (r' : Roster)
    (ev' : Evaluator) (result : Except ActionError Hand)
    (hstart : start number r dealer blinds deck ev = (r', ev', result)) :
    ((∃ e, result = .error e) ↔
      r.funded.length < 2 ∨ dealer ∉ r.funded ∨ 26 < r.funded.length ∨
        maxChips < r.chipsOf r.funded) ∧
      (∀ e, result = .error e → r' = r ∧ ev' = ev) ∧
      ∀ h, result = .ok h → Started r ⟨h, r', ev'⟩ := by
  have hv := hr.valid
  rw [← not_canDeal_reset hv hd]
  by_cases hcan : CanDeal r dealer deck.reset
  · obtain ⟨h, r₁, ev₁, hok⟩ := deal_of_canDeal number blinds ev hv hd hcan
    obtain ⟨rfl, rfl, rfl⟩ : r₁ = r' ∧ ev₁ = ev' ∧ .ok h = result := by
      simpa using hok.symm.trans hstart
    refine ⟨iff_of_false (fun ⟨e, he⟩ => ?_) (not_not_intro hcan), fun e he => ?_, fun h' hh' => ?_⟩
    · cases he
    · cases he
    · cases hh'
      exact started_of_deal hv hok
  · obtain ⟨e, herror⟩ := setUp_error number blinds hv hcan
    have hrefused : start number r dealer blinds deck ev = (r, ev, .error e) := by
      rw [start, deal, herror deck.reset Iff.rfl]
    obtain ⟨rfl, rfl, rfl⟩ : r = r' ∧ ev = ev' ∧ .error e = result := by
      simpa using hrefused.symm.trans hstart
    exact ⟨iff_of_true ⟨e, rfl⟩ hcan, fun _ _ => ⟨rfl, rfl⟩, fun h hh => by cases hh⟩

/-- Blinds that neither of two players can pay decide their hand at once. With stacks that can not
be counted together they are refused, and left as they are. -/
theorem starts_all_or_nothing_uneven :
    let rich := (unevenSeated.setStack 1 4000000000).setStack 2 4000000000
    let evaluator : Evaluator := { value := fun _ => HandValue.best }
    (∃ s : Spot, start 1 unevenSeated 1 ⟨50, 100⟩ (.seeded 7) evaluator =
        (s.roster, s.evaluator, .ok s.hand) ∧ Started unevenSeated s) ∧
      ∃ e, start 1 rich 1 ⟨50, 100⟩ (.seeded 7) evaluator = (rich, evaluator, .error e) := by
  intro rich evaluator
  have hann : (Roster.empty 2).add 1 "ann" 40 none =
      .ok (0, ⟨[some ⟨1, "ann", 40, 0⟩, none], false⟩) := rfl
  have hbob : (Roster.mk [some ⟨1, "ann", 40, 0⟩, none] false).add 2 "bob" 25 none =
      .ok (1, unevenSeated) := rfl
  have huneven : unevenSeated.Built := ((Roster.Built.empty 2).added hann).added hbob
  have hrich : rich.Built := (huneven.restacked 1 _).restacked 2 _
  have hcards : (Deck.seeded 7).cards.size = Card.fullDeck.length := rfl
  constructor
  · cases hstart : start 1 unevenSeated 1 ⟨50, 100⟩ (.seeded 7) evaluator with
    | mk r' rest =>
        obtain ⟨hiff, -, hstarted⟩ := starts_all_or_nothing huneven hcards _ _ _ _ _ _ _ hstart
        cases hresult : rest.2 with
        | error e => exact absurd (hiff.mp ⟨e, hresult⟩) (by decide)
        | ok h => exact ⟨⟨h, r', rest.1⟩, by rw [← hresult], hstarted h hresult⟩
  · cases hstart : start 1 rich 1 ⟨50, 100⟩ (.seeded 7) evaluator with
    | mk r' rest =>
        obtain ⟨hiff, hback, -⟩ := starts_all_or_nothing hrich hcards _ _ _ _ _ _ _ hstart
        obtain ⟨e, he⟩ := hiff.mpr (by decide)
        obtain ⟨rfl, hev⟩ := hback e he
        exact ⟨e, by rw [← hev, ← he]⟩

end Hand
end Holdem
