import Holdem.HandValue.Best
import Holdem.Proofs.Hand.Solvency
import Mathlib.Algebra.Order.BigOperators.Group.List
import Mathlib.Algebra.Order.Ring.Nat

/-!
# Played with words or with numbers

A hand that is dealt with words is the hand that is dealt, since the chips that are dealt in were
added up before. It begins solvent and stays so, so whatever is worked out at any point of it comes
to the same with words as with numbers of any size.
-/
namespace Holdem

namespace Spot
variable {s : Spot}

/-! ## Giving chips back -/

theorem totalChips_foldl_addChips (m : NatMap Chips) (es : List (PlayerId × Chips)) :
    (es.foldl (fun m e => m.addChips e.1 e.2) m).totalChips =
      m.totalChips + (es.map Prod.snd).sum := by
  induction es generalizing m with
  | nil => rfl
  | cons e rest ih =>
      rw [List.foldl_cons, ih, NatMap.totalChips_addChips, List.map_cons, List.sum_cons,
        Nat.add_assoc]

theorem totalChips_refunds (h : Hand) : (refunds h).totalChips = h.potTotal := by
  rw [refunds, totalChips_foldl_addChips, List.map_append, List.sum_append]
  exact Nat.zero_add _

theorem Solvent.abort?_eq (hs : s.Solvent) (reason : String) :
    s.abort? reason = some (s.abort reason) := by
  have hrefunds : refunds? s.hand = some (refunds s.hand) := by
    refine foldlM_counted (fun _ => True) NatMap.totalChips Prod.snd
      (fun m e _ hle => ⟨NatMap.addChips?_eq hle, trivial,
        Nat.le_of_eq (NatMap.totalChips_addChips ..)⟩) trivial ?_
    rw [List.map_append, List.sum_append, NatMap.totalChips_empty, Nat.zero_add]
    exact hs.potTotal_le
  have hless : (((refunds s.hand).entries.filter fun e => s.roster.contains e.1).map
      Prod.snd).sum ≤ s.hand.potTotal := by
    rw [← totalChips_refunds]
    exact (List.filter_sublist.map _).sum_le_sum fun _ _ => Nat.zero_le _
  rw [abort?, hrefunds]
  simp only [Option.bind_eq_bind, Option.bind_some]
  rw [credit?_eq hs.valid (Nat.le_trans (Nat.add_le_add_left hless _) hs.seats)]
  rfl

/-- Whatever is worked out at a spot comes to the same with words: what can be read off it, whether
an action is allowed, what moves and an end before time lead to, and what the pots would pay. -/
structure Exact (s : Spot) : Prop where
  potTotal : s.hand.potTotal? = some s.hand.potTotal
  pots : s.hand.stakes.pots? = some s.hand.pots
  chipsInPlay : s.chipsInPlay? = some s.chipsInPlay
  toCall : ∀ p, s.hand.round.toCall? p = some (s.hand.round.toCall p)
  validate : ∀ p a, s.validate? p a = some (s.validate p a)
  awardAll : ∀ p, s.hand.stakes.awardAll? p = some (s.hand.stakes.awardAll p)
  distribute : ∀ hands order,
    s.hand.stakes.distribute? hands order = some (s.hand.stakes.distribute hands order)
  move : ∀ m : Move, m.inHand = true → s.move? m = some (s.move m)
  abort : ∀ reason, s.abort? reason = some (s.abort reason)

theorem Solvent.exact (hs : s.Solvent) : s.Exact where
  potTotal := hs.potTotal?_eq
  pots := hs.pots?_eq
  chipsInPlay := hs.chipsInPlay?_eq
  toCall := hs.toCall?_eq
  validate := hs.validate?_eq
  awardAll _ := Stakes.awardAll?_eq hs.stakes_le
  distribute _ _ := Stakes.distribute?_eq hs.stakes_le
  move _ hm := (hs.move_agrees hm).same
  abort := hs.abort?_eq

end Spot

namespace Hand
variable {s : Spot} {p : PlayerId}

/-! ## The deal -/

theorem postBlind?_eq {stack : Chips} (hs : s.Solvent) (hstack : s.roster.stack? p = some stack)
    (amount : Chips) : postBlind? s p amount = some (postBlind s p amount) := by
  have hround : s.hand.round.postBlind? p (min amount stack) =
      some (s.hand.round.postBlind p (min amount stack)) := by
    rw [Round.postBlind?, hs.commit?_eq hstack (Nat.min_le_right _ _)]
    rfl
  simp only [postBlind?, hstack, Option.getD_some, diff?_eq (Nat.min_le_right amount stack), hround,
    Option.bind_eq_bind, Option.bind_some, postBlind]
  rfl

theorem postBlind_solvent {stack : Chips} (hs : s.Solvent) (hp : p ∈ s.hand.turns.order)
    (hstack : s.roster.stack? p = some stack) (amount : Chips) :
    (postBlind s p amount).1.Solvent := by
  let chips := min amount stack
  have hhighest : (s.hand.round.postBlind p chips).highestBet =
      max s.hand.round.highestBet (s.hand.round.contribution p + chips) := by
    show max _ ((s.hand.round.commit p chips).contribution p) = _
    rw [Round.contribution_commit, if_pos rfl]
    rfl
  have hbet := hs.bet hp hstack (Nat.min_le_right amount stack) rfl hhighest
  simp only [postBlind, hstack, Option.getD_some]
  split
  · exact hbet.markAllIn p
  · exact hbet

/-- A hand in which everybody who can act is asked to. -/
theorem asking_solvent (hs : s.Solvent) (first : PlayerId) (e : GameEvent) :
    (s.mapHand fun h =>
      Hand.emit
        { h with
          round := { h.round with pending := .ofList h.ableToAct }
          turns := (h.turns.setCurrent first).toOption.getD h.turns } e).Solvent :=
  { hs.turned (TurnOrder.order_turnedTo s.hand.turns first) with }

/-- A blind is posted the same with words, and leaves everybody where they are. -/
theorem postBlind_agrees (hs : s.Solvent) (hp : p ∈ s.hand.turns.order)
    (hseated : s.roster.contains p = true) (amount : Chips) :
    ∃ t post, postBlind s p amount = (t, post) ∧ postBlind? s p amount = some (t, post) ∧
      t.Solvent ∧ t.hand.turns = s.hand.turns ∧ ∀ q, t.roster.contains q = s.roster.contains q := by
  obtain ⟨stack, hstack⟩ := Roster.contains_iff.mp hseated
  have hpost := postBlind_eq (s := s) amount (show _ = stack by rw [hstack]; rfl)
  refine ⟨_, _, hpost, hpost ▸ postBlind?_eq hs hstack amount, ?_, turns_posted, fun q =>
    Roster.contains_setStack⟩
  have hsolvent := postBlind_solvent hs hp hstack amount
  rw [hpost] at hsolvent
  exact hsolvent

theorem opening_agrees {pos : Positions} (hs : s.Solvent)
    (hseated : ∀ p ∈ s.hand.turns.order, s.roster.contains p = true)
    (hsmall : pos.smallBlind ∈ s.hand.turns.order) (hbig : pos.bigBlind ∈ s.hand.turns.order) :
    opening? s pos = some (opening s pos) ∧ (opening s pos).Solvent := by
  obtain ⟨t, small, hpost, hpost?, ht, hturns, hstay⟩ :=
    postBlind_agrees hs hsmall (hseated _ hsmall) s.hand.blinds.small
  obtain ⟨u, big, hpost', hpost'?, hu, -⟩ :=
    postBlind_agrees ht (hturns ▸ hbig) ((hstay _).trans (hseated _ hbig)) t.hand.blinds.big
  have hasked := asking_solvent hu pos.firstToAct
    (.handStarted u.hand.number u.hand.dealer small big u.hand.order)
  simp only [opening?, opening, hpost, hpost?, hpost', hpost'?, Option.bind_eq_bind,
    Option.bind_some]
  exact ⟨Spot.mapHand?_eq hasked.emitPot?_eq, hasked.emit _⟩

section Start
variable {number : Nat} {r : Roster} {dealer : PlayerId} {pos : Positions} {blinds : Blinds}
  {deck : Deck} {ev : Evaluator}

theorem fresh_solvent (ev : Evaluator) (hv : r.Valid) (hcount : r.totalChips ≤ maxChips)
    (hd : (freshSpot number r dealer pos blinds deck ev).hand.Dealt r) :
    (freshSpot number r dealer pos blinds deck ev).Solvent where
  valid := hv
  nodup := hd.places.nodup
  standing := hd.places.turns_nodup
  within := hd.places.turns_subset
  dealt p hp := hd.places.dealt p (hd.places.turns_subset hp)
  highest := hd.highest
  seats := hcount
  places := Nat.le_trans (Nat.le_of_eq hd.balanced.sum) hd.balanced.countable

/-- Dealing with words deals the same hand, or refuses to for the same reason. -/
theorem deal_agrees (number : Nat) (dealer : PlayerId) (blinds : Blinds) (deck : Deck)
    (ev : Evaluator) (hv : r.Valid) :
    deal? number r dealer blinds deck ev = some (deal number r dealer blinds deck ev) ∧
      ∀ r' ev' h, deal number r dealer blinds deck ev = (r', ev', .ok h) →
        Spot.Solvent ⟨h, r', ev'⟩ := by
  by_cases hcan : CanDeal r dealer deck
  · obtain ⟨htwo, hdealer, hdeck, hcount⟩ := hcan
    obtain ⟨pos, -, hsmall, hbig, -, hsetUp⟩ := setUp_eq number blinds hv htwo hdealer
    obtain ⟨hfresh, hsetUp⟩ := hsetUp deck hdeck
    obtain ⟨hdealt, -⟩ := hfresh hcount
    rw [if_neg (Nat.not_lt.mpr hcount)] at hsetUp
    have hsolvent := fresh_solvent ev hv hcount hdealt
    obtain ⟨hopening, hopened⟩ := opening_agrees hsolvent
      (fun p hp => hdealt.places.seated p (hdealt.places.turns_subset hp)) hsmall hbig
    have hadvance := hopened.advance_agrees
    have hdeal := deal_eq number blinds ev hsetUp
    constructor
    · rw [hdeal]
      simp only [deal?, hsetUp]
      rw [show opening? ⟨fresh number r dealer pos blinds deck, r, ev⟩ pos = _ from hopening]
      simp only [Option.bind_eq_bind, Option.bind_some, hadvance.same]
      generalize Spot.advance _ = o
      obtain ⟨t, e | ⟨⟩⟩ := o <;> rfl
    · intro r' ev' h hok
      rw [hdeal] at hok
      have hsame := eq_done_of_dealOutcome hok
      have hmoved := hadvance.solvent
      rw [hsame] at hmoved
      exact hmoved
  · obtain ⟨e, herror⟩ := setUp_error number blinds hv hcan
    have hsetUp := herror deck Iff.rfl
    refine ⟨by rw [deal?, deal, hsetUp], fun r' ev' h hdeal => ?_⟩
    rw [deal, hsetUp] at hdeal
    cases hdeal

/-- No sum or difference of chips fails at any point of any hand. Whatever the blinds, a hand starts
with words as it does with numbers, or is refused for the same reason. From there on every action of
any amount and every departure leads to the same, and so does whatever can be asked on the way. -/
theorem counting_never_fails (number : Nat) (r : Roster) (dealer : PlayerId) (blinds : Blinds)
    (deck : Deck) (ev : Evaluator) (hv : r.Valid) :
    start? number r dealer blinds deck ev = some (start number r dealer blinds deck ev) ∧
    ∀ (r' : Roster) (ev' : Evaluator) (h : Hand),
      start number r dealer blinds deck ev = (r', ev', .ok h) →
      ∀ moves : List Move, (∀ m ∈ moves, m.inHand = true) →
        Spot.play? ⟨h, r', ev'⟩ moves = some (Spot.play ⟨h, r', ev'⟩ moves) ∧
          (Spot.play ⟨h, r', ev'⟩ moves).Exact := by
  obtain ⟨hsame, hsolvent⟩ := deal_agrees number dealer blinds deck.reset ev hv
  refine ⟨hsame, fun r' ev' h hstart moves hmoves => ?_⟩
  obtain ⟨hplay, hplayed⟩ := (hsolvent r' ev' h hstart).play_agrees hmoves
  exact ⟨hplay, hplayed.exact⟩

/-- Three players who have all the chips that can be counted, and next to nothing. -/
def fullSeated : Roster :=
  { seats := [some ⟨1, "ann", 4294967285, 0⟩, some ⟨2, "bob", 7, 1⟩, some ⟨3, "carl", 3, 2⟩] }

theorem counting_never_fails_at_the_limit :
    ∃ s : Spot, start 1 fullSeated 1 ⟨maxChips, 1⟩ (.seeded 7) { value := fun _ => HandValue.best } =
        (s.roster, s.evaluator, .ok s.hand) ∧
      start? 1 fullSeated 1 ⟨maxChips, 1⟩ (.seeded 7) { value := fun _ => HandValue.best } =
        some (s.roster, s.evaluator, .ok s.hand) ∧
      s.play? [.act 1 (.raise maxChips), .act 1 .allIn, .leave 3, .leave 2] =
        some (s.play [.act 1 (.raise maxChips), .act 1 .allIn, .leave 3, .leave 2]) ∧
      (s.play [.act 1 (.raise maxChips), .act 1 .allIn, .leave 3, .leave 2]).Exact := by
  have hv : fullSeated.Valid := by decide
  have hdeck : Card.fullDeck.length ≤ (Deck.seeded 7).cards.size := Nat.le_of_eq rfl
  have hdealer : 1 ∈ fullSeated.funded := by decide
  obtain ⟨s, hs, -⟩ := deal_spec 1 ⟨maxChips, 1⟩ { value := fun _ => HandValue.best } hv (by decide)
    hdealer (deckSuffices_reset hdeck (by decide)) (by decide)
  obtain ⟨hsame, hplay⟩ := counting_never_fails 1 fullSeated 1 ⟨maxChips, 1⟩ (.seeded 7)
    { value := fun _ => HandValue.best } hv
  obtain ⟨hplayed, hexact⟩ := hplay s.roster s.evaluator s.hand hs
    [.act 1 (.raise maxChips), .act 1 .allIn, .leave 3, .leave 2] (by decide)
  exact ⟨s, hs, hsame.trans (congrArg some hs), hplayed, hexact⟩

-- With everybody all in, all the chips there are have been in the middle, and none is missing.
example :
    (do
      let (r, ev, started) ← start? 1 fullSeated 1 ⟨maxChips, 1⟩ (.seeded 7)
        { value := fun _ => HandValue.best }
      let s ← Spot.play? ⟨← started.toOption, r, ev⟩ [.act 1 .allIn, .act 3 .allIn]
      return (s.hand.isOver, ← s.chipsInPlay?)) = some (true, maxChips) := by decide +kernel

end Start

end Hand
end Holdem
