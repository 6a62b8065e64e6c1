import Holdem.Proofs.Hand.Rounds
import Holdem.Proofs.Hand.Turn

/-!
# The turn goes clockwise

While a street goes on, the turn passes from whoever acts or gives up to the first player to their
left who owes an action. A street is opened by the first player left of the button who can bet, and
the hand by the first left of the big blind. Nobody else's departure takes the turn away.
-/
namespace Holdem

/-! ## Seats -/

/-- The players of a hand sit as they did when it was dealt, in order from the left of the button.
Some may have left. -/
structure Hand.AtSeats (seats : List PlayerId) (dealer : PlayerId) (h : Hand) : Prop where
  nodup : seats.Nodup
  order : h.order = leftOf seats dealer
  dealtIn : h.dealtIn.order.Sublist seats

namespace Spot
variable {s s' mid : Spot} {p : PlayerId} {plan : Plan} {news : List GameEvent}
  {seats : List PlayerId} {dealer : PlayerId}

theorem MovesOn.sameSeats (h : MovesOn s news s') :
    s'.hand.order = s.hand.order ∧ s'.hand.dealtIn = s.hand.dealtIn ∧
      s'.hand.leader? = s.hand.leader? := by
  induction h with
  | prompt | ended => exact ⟨rfl, rfl, rfl⟩
  | street _ _ _ _ ih => exact ih

theorem Acts.sameSeats (h : s.Acts plan news mid) :
    mid.hand.order = s.hand.order ∧ mid.hand.dealtIn = s.hand.dealtIn := by
  cases h with
  | check | fold => exact ⟨rfl, rfl⟩
  | commit => exact ⟨Hand.order_withBet, Hand.dealtIn_withBet⟩

theorem Departs.sameSeats (h : s.Departs p news mid) :
    mid.hand.order = s.hand.order ∧ mid.hand.dealtIn.order.Sublist s.hand.dealtIn.order := by
  cases h with
  | absent => exact ⟨rfl, List.Sublist.refl _⟩
  | folded | standing => exact ⟨rfl, List.filter_sublist⟩

/-- Everybody keeps their place in the order as a hand goes on. -/
theorem Unfolds.atSeats (h : s.Unfolds news s') (hseats : s.hand.AtSeats seats dealer) :
    s'.hand.AtSeats seats dealer := by
  have hsame : s'.hand.order = s.hand.order ∧
      s'.hand.dealtIn.order.Sublist s.hand.dealtIn.order := by
    cases h with
    | acts _ hacts hon =>
        obtain ⟨horder, hdealtIn, -⟩ := hon.sameSeats
        rw [horder, hdealtIn, hacts.sameSeats.1, hacts.sameSeats.2]
        exact ⟨rfl, List.Sublist.refl _⟩
    | leaves hdeparts hon =>
        obtain ⟨horder, hdealtIn, -⟩ := hon.sameSeats
        rw [horder, hdealtIn]
        exact hdeparts.sameSeats
    | stays hdeparts => exact hdeparts.sameSeats
  exact ⟨hseats.nodup, hsame.1.trans hseats.order, hsame.2.trans hseats.dealtIn⟩

theorem atSeats_move (hplay : s.InPlay) (hseats : s.hand.AtSeats seats dealer) (m : Move) :
    (s.move m).1.hand.AtSeats seats dealer := by
  cases move_cases hplay.atRest m with
  | unfolds _ hunfolds _ hhand => exact hhand ▸ hunfolds.atSeats hseats
  | same _ hhand => exact hhand ▸ hseats
  | short _ hfault => exact absurd hfault (hplay.not_faulty m)

theorem atSeats_play (hplay : s.InPlay) (hseats : s.hand.AtSeats seats dealer)
    (moves : List Move) : (s.play moves).hand.AtSeats seats dealer := by
  induction moves generalizing s with
  | nil => exact hseats
  | cons m rest ih => exact ih (hplay.move m) (atSeats_move hplay hseats m)

/-! ## Steps -/

/-- Somebody who was dealt in, has not folded and has chips. -/
def canBet (s : Spot) (p : PlayerId) : Bool :=
  s.hand.isDealtIn p && !s.hand.isFolded p && decide (0 < (s.roster.stack? p).getD 0)

theorem canBet_iff (hp : s.hand.Places s.roster) : s.canBet p = true ↔ p ∈ s.hand.ableToAct := by
  rw [← behind_iff hp]
  constructor
  · intro h
    simp only [canBet, Bool.and_eq_true, Bool.not_eq_true', decide_eq_true_eq] at h
    obtain ⟨⟨hdealt, hstands⟩, hpos⟩ := h
    cases hstack : s.roster.stack? p with
    | none => simp [hstack] at hpos
    | some stack => exact ⟨hdealt, hstands, stack, hstack, by simpa [hstack] using hpos⟩
  · rintro ⟨hdealt, hstands, stack, hstack, hpos⟩
    simp [canBet, hdealt, hstands, hstack, hpos]

/-- If a step from `s` to `s'` opens another street, its leader is the first left of the button who
can bet. -/
def OpensStreet (seats : List PlayerId) (dealer : PlayerId) (s s' : Spot) : Prop :=
  s'.hand.phase ≠ s.hand.phase → s'.hand.isOver = false →
    ∃ p, (leftOf seats dealer).find? s'.canBet = some p ∧ s.hand.Asks s'.hand p

/-- A step from `s` to `s'` that passes the turn on from a player to the first left of them who owes
an action, unless it ends the street. -/
structure PassesOn (seats : List PlayerId) (dealer p : PlayerId) (s s' : Spot) : Prop where
  sameStreet : s'.hand.phase = s.hand.phase →
    ∃ q, (leftOf seats p).find? s'.hand.round.owesAction = some q ∧ s.hand.Asks s'.hand q
  newStreet : OpensStreet seats dealer s s'

/-- A step from `s` to `s'` that leaves the turn where it is, unless it ends the street. -/
structure LeavesTurn (seats : List PlayerId) (dealer : PlayerId) (s s' : Spot) : Prop where
  sameStreet : s'.hand.phase = s.hand.phase →
    s'.hand.currentPlayer = s.hand.currentPlayer ∧ s'.hand.prompts = s.hand.prompts
  newStreet : OpensStreet seats dealer s s'

theorem acts_prompts (h : s.Acts plan news mid) : mid.hand.prompts = s.hand.prompts := by
  rw [Hand.prompts, h.events, List.filterMap_append]
  cases h with
  | check | fold => exact List.append_nil _
  | commit a allIn => cases allIn <;> exact List.append_nil _

theorem departs_prompts (h : s.Departs p news mid) : mid.hand.prompts = s.hand.prompts := by
  rw [Hand.prompts, h.events, List.filterMap_append]
  cases h with
  | absent | folded | standing => exact List.append_nil _

/-- What is known of a spot from which a hand moves on within a step from `s`. -/
structure Midway (s mid : Spot) : Prop where
  steady : mid.hand.Steady mid.roster
  phase : mid.hand.phase = s.hand.phase
  prompts : mid.hand.prompts = s.hand.prompts
  able : mid.hand.ableToAct ⊆ s.hand.ableToAct

theorem Acts.midway (h : s.Acts plan news mid) (hs : mid.hand.Steady mid.roster) :
    s.Midway mid :=
  ⟨hs, h.alters.phase, acts_prompts h, h.alters.able⟩

theorem Departs.midway (h : s.Departs p news mid) (hs : mid.hand.Steady mid.roster) :
    s.Midway mid :=
  ⟨hs, h.alters.elim (·.phase) (·.phase), departs_prompts h, h.alters.elim (·.able) (·.able)⟩

theorem not_mem_streets (phase : Phase) : phase ∉ phase.streets.map Prod.fst := by
  cases phase <;> decide

section Step
variable {t : Spot}

/-- A step that moves on from `mid` to a new street leaves the turn with the first left of the
button who can bet. -/
theorem Midway.opensStreet (hmid : s.Midway mid) (hturn : mid.hand.TurnMoves t.hand)
    (hseats : t.hand.AtSeats seats dealer) (hleader : t.hand.leader? = mid.hand.leader?)
    (hplay : t.InPlay) : OpensStreet seats dealer s t := by
  intro hphase hlive
  cases hturn with
  | sameStreet hsame => exact absurd (hsame.trans hmid.phase) hphase
  | @newStreet p _ hfirst hasks =>
      have hl := hplay.live hlive
      refine ⟨p, ?_, hasks.current, hmid.prompts ▸ hasks.prompted⟩
      rw [← hfirst, ← hleader, Hand.leader?, hseats.order]
      congr 1
      funext q
      exact Bool.eq_iff_iff.mpr ((canBet_iff hl.places).trans (decide_eq_true_iff).symm)
  | ended hended =>
      rw [hlive] at hended
      cases hended

/-- A step that moves on from `mid` on the same street leaves the turn with the first in turn there
who owes an action. -/
theorem Midway.sameStreet (hmid : s.Midway mid) (hturn : mid.hand.TurnMoves t.hand)
    (hphase : t.hand.phase = s.hand.phase) :
    1 < mid.hand.turns.order.length ∧ mid.hand.bettingIsOver = false ∧
      ∃ p, mid.hand.turns.lap.find? mid.hand.round.owesAction = some p ∧
        t.hand.round = mid.hand.round ∧ s.hand.Asks t.hand p := by
  cases hturn with
  | @sameStreet p _ hround hcontested hbetting hfind hasks =>
      exact ⟨hcontested, hbetting, p, hfind, hround,
        hasks.current, hmid.prompts ▸ hasks.prompted⟩
  | newStreet hlater =>
      rw [hphase, ← hmid.phase] at hlater
      exact absurd hlater (not_mem_streets _)
  | ended hended =>
      have hbetting := hmid.steady.betting
      rw [hmid.phase, ← hphase, Hand.phase, of_decide_eq_true hended] at hbetting
      cases hbetting

/-- If in turn the first to owe an action is the first left of `p`, so it is at the table. -/
theorem Midway.passesOn (hmid : s.Midway mid) (hturn : mid.hand.TurnMoves t.hand)
    (hseats : t.hand.AtSeats seats dealer) (hleader : t.hand.leader? = mid.hand.leader?)
    (hplay : t.InPlay) (hin : p ∈ s.hand.turns.order)
    (hsub : s.hand.turns.order.Sublist seats)
    (hleft : mid.hand.turns.lap.find? mid.hand.round.owesAction =
      (leftOf s.hand.turns.order p).find? mid.hand.round.owesAction) :
    PassesOn seats dealer p s t where
  newStreet := hmid.opensStreet hturn hseats hleader hplay
  sameStreet hphase := by
    obtain ⟨-, -, q, hfind, hround, hasks⟩ := hmid.sameStreet hturn hphase
    refine ⟨q, ?_, hasks⟩
    have hwanted : ∀ x, mid.hand.round.owesAction x = true → x ∈ s.hand.turns.order := fun x hx =>
      (Hand.mem_ableToAct.mp (hmid.able (hmid.steady.bets.able x (Round.owesAction_iff.mp hx)))).1
    rw [hround, ← find?_leftOf_of_sublist hsub hseats.nodup hin hwanted, ← hleft, hfind]

end Step

theorem turns_sublist (hseats : s.hand.AtSeats seats dealer)
    (hp : s.hand.Places s.roster) : s.hand.turns.order.Sublist seats := by
  rw [hp.turns_eq]
  exact List.filter_sublist.trans hseats.dealtIn

/-- An accepted action passes the turn on from the player who acted. -/
theorem act_passesOn (hplay : s.InPlay) (hseats : s.hand.AtSeats seats dealer) (a : Action)
    (hok : (s.act p a).2 = .ok ()) : PassesOn seats dealer p s (s.move (.act p a)).1 := by
  cases hv : s.validate p a with
  | error e =>
      rw [act_eq_fail hv] at hok
      cases hok
  | ok plan =>
      have hl := hplay.live (Hand.not_over_of_current (validate_ok hv).1)
      obtain ⟨hin, hfit⟩ := fits_of_accepted hl.toAwake hv
      obtain ⟨told, mid, hcarry, hacts, hsteady⟩ := carryOut_spec hl.toAwake hin hfit
      obtain ⟨news, s', hs', hon⟩ := advance_movesOn hsteady (hacts.alters.stocked hl.stocked)
      have hmove : (s.move (.act p a)).1 = s' := by
        rw [move, act_eq_apply hv, apply_eq, hcarry]
        exact congrArg Prod.fst hs'
      obtain rfl : plan.player = p := hfit.player_eq
      obtain ⟨q, -, hnow, hq⟩ := hl.toAwake.currentPlayer
      obtain rfl : q = plan.player := Option.some_inj.mp (hq.symm.trans (validate_ok hv).1)
      have hnext := hplay.move (.act plan.player a)
      have hstay := atSeats_move hplay hseats (.act plan.player a)
      rw [hmove] at hnext hstay ⊢
      exact (hacts.midway hsteady).passesOn (advance_turn hsteady hs') hstay hon.sameSeats.2.2 hnext
        hin (turns_sublist hseats hl.places)
        (carryOut_turn hl.places.turns_nodup hnow hcarry)

/-- A departure from a live hand, and what is known of the hand then. -/
theorem leave_goesOn (hl : s.hand.Live s.roster) (p : PlayerId) :
    ∃ mid goesOn, s.takeOut p = (mid.done, goesOn) ∧ s.Midway mid ∧
      if goesOn then mid.hand.TurnMoves (s.move (.leave p)).1.hand ∧
        (s.move (.leave p)).1.hand.leader? = mid.hand.leader?
      else mid.hand.currentPlayer = s.hand.currentPlayer ∧
        (s.move (.leave p)).1.hand = mid.hand := by
  obtain ⟨mid, goesOn, htakeOut, htakes⟩ := takeOut_spec hl.toAwake p
  obtain ⟨news, hdeparts⟩ := htakes.departs
  have hremove : s.removePlayer p = goOn (mid.done, goesOn) := by
    rw [removePlayer_goesOn, htakeOut]
  refine ⟨mid, goesOn, htakeOut, hdeparts.midway htakes.steady, ?_⟩
  cases goesOn with
  | true =>
      obtain ⟨told, s', hs', hon⟩ := advance_movesOn htakes.steady (hdeparts.stocked hl.stocked)
      have hhand : (s.move (.leave p)).1.hand = s'.hand := by
        simp only [move, hremove, goOn, andThen, done, hs']
      rw [hhand]
      exact ⟨advance_turn htakes.steady hs', hon.sameSeats.2.2⟩
  | false =>
      refine ⟨(htakes.waits rfl).2, ?_⟩
      simp only [move, hremove, goOn, done]

/-- The departure of the player on turn passes it on from them. -/
theorem leave_passesOn (hplay : s.InPlay) (hseats : s.hand.AtSeats seats dealer)
    (hp : s.hand.currentPlayer = some p) : PassesOn seats dealer p s (s.move (.leave p)).1 := by
  have hl := hplay.live (Hand.not_over_of_current hp)
  obtain ⟨mid, goesOn, htakeOut, hmid, hgoes⟩ := leave_goesOn hl p
  obtain ⟨rfl, hleft⟩ := (takeOut_turn hl.toAwake htakeOut).1 hp
  obtain ⟨hturn, hleader⟩ := hgoes
  exact hmid.passesOn hturn (atSeats_move hplay hseats _) hleader (hplay.move _)
    (hl.toAwake.mem_turns_of_current hp) (turns_sublist hseats hl.places) hleft

/-- The departure of anybody else leaves it where it is. -/
theorem leave_leavesTurn (hplay : s.InPlay) (hseats : s.hand.AtSeats seats dealer)
    (hp : s.hand.currentPlayer ≠ some p) : LeavesTurn seats dealer s (s.move (.leave p)).1 := by
  rcases hplay.goes with hl | hended
  · obtain ⟨mid, goesOn, htakeOut, hmid, hgoes⟩ := leave_goesOn hl p
    cases goesOn with
    | true =>
        obtain ⟨hturn, hleader⟩ := hgoes
        refine ⟨fun hphase => ?_,
          hmid.opensStreet hturn (atSeats_move hplay hseats _) hleader (hplay.move _)⟩
        -- The hand only moved on because nobody is left to wait for.
        obtain ⟨hcontested, hbetting, -⟩ := hmid.sameStreet hturn hphase
        rcases (takeOut_turn hl.toAwake htakeOut).2 hp rfl with hsize | hended
        · exact absurd hcontested (Nat.not_lt.mpr hsize)
        · rw [hbetting] at hended
          cases hended
    | false =>
        obtain ⟨hsame, hhand⟩ := hgoes
        refine ⟨fun _ => ?_, fun hphase => ?_⟩
        · rw [hhand]
          exact ⟨hsame, hmid.prompts⟩
        · rw [hhand] at hphase
          exact absurd hmid.phase hphase
  · have hhand := hand_move_of_over hended (.leave p)
    refine ⟨fun _ => ?_, fun hphase => ?_⟩
    · rw [hhand]
      exact ⟨rfl, rfl⟩
    · rw [hhand] at hphase
      exact absurd rfl hphase

end Spot

/-! ## From the deal on -/

namespace Hand

/-- Where the blinds are. With two players the dealer posts the small one, and comes first after
the big one. -/
structure BlindsAt (seats : List PlayerId) (dealer small big : PlayerId) : Prop where
  first : if seats.length = 2 then small = dealer else (leftOf seats dealer).head? = some small
  second : (leftOf seats small).head? = some big
  headsUp : seats.length = 2 → (leftOf seats big).head? = some dealer

/-- The first prompt of a hand goes to the first left of the big blind who owes an action, before
the flop, and to the first left of the button who can bet, if the blinds let streets be dealt. -/
structure Starts (seats : List PlayerId) (dealer big : PlayerId) (s : Spot) : Prop where
  preFlop : s.hand.phase = .preFlop → ∃ p, (leftOf seats big).find? s.hand.round.owesAction =
    some p ∧ s.hand.currentPlayer = some p ∧ s.hand.prompts = [p]
  later : s.hand.phase ≠ .preFlop → s.hand.isOver = false →
    ∃ p, (leftOf seats dealer).find? s.canBet = some p ∧ s.hand.currentPlayer = some p ∧
      s.hand.prompts = [p]

section Positions
variable {seats : List PlayerId} {dealer p q : PlayerId} {pos : Positions}

/-- Of two players each is to the left of the other. -/
theorem leftOf_two (hn : seats.Nodup) (htwo : seats.length = 2) (hp : p ∈ seats)
    {rest : List PlayerId} (hnext : leftOf seats p = q :: rest) :
    ∃ rest, leftOf seats q = p :: rest := by
  obtain ⟨x, y, rfl⟩ := List.length_eq_two.mp htwo
  have hxy : x ≠ y := by simpa using hn
  have hx : leftOf [x, y] x = [y, x] :=
    show leftOf ([] ++ x :: [y]) x = _ from leftOf_append_cons List.not_mem_nil
  have hy : leftOf [x, y] y = [x, y] :=
    show leftOf ([x] ++ y :: []) y = _ from leftOf_append_cons (by simpa using hxy.symm)
  rcases List.mem_pair.mp hp with rfl | rfl
  · rw [hx] at hnext
    cases hnext
    exact ⟨_, hy⟩
  · rw [hy] at hnext
    cases hnext
    exact ⟨_, hx⟩

/-- Everybody is placed clockwise from the button. -/
theorem positionsIn_clockwise (hn : seats.Nodup) (hd : dealer ∈ seats)
    (h : positionsIn { order := seats } dealer = .ok pos) :
    pos.order = leftOf seats dealer ∧ BlindsAt seats dealer pos.smallBlind pos.bigBlind ∧
      (leftOf seats dealer).head? = some pos.nextDealer ∧
      ∃ rest, leftOf seats pos.bigBlind = pos.firstToAct :: rest := by
  obtain ⟨i, hset, hi, hip⟩ := TurnOrder.setCurrent_of_mem (t := { order := seats }) hd
  obtain ⟨next, hnextIn, hnext⟩ := TurnOrder.nextTo_of_mem (t := ⟨seats, i⟩) hd
  obtain ⟨x, j, hturn, -⟩ := TurnOrder.next_of_pos (t := ⟨seats, i⟩) (Nat.zero_lt_of_lt hi)
  obtain ⟨big, hbigIn, hbig⟩ := TurnOrder.nextTo_of_mem (t := ⟨seats, i⟩) hnextIn
  obtain ⟨first, -, hfirst⟩ := TurnOrder.nextTo_of_mem (t := ⟨seats, i⟩) hbigIn
  have hlap := TurnOrder.lap_next hn (t := ⟨seats, i⟩) (TurnOrder.now_eq_ok_iff.mpr hip) hturn
  obtain ⟨rest, hleft⟩ := TurnOrder.leftOf_of_nextTo (t := ⟨seats, i⟩) hd hnext
  obtain ⟨rest', hleft'⟩ := TurnOrder.leftOf_of_nextTo (t := ⟨seats, i⟩) hnextIn hbig
  obtain ⟨rest'', hleft''⟩ := TurnOrder.leftOf_of_nextTo (t := ⟨seats, i⟩) hbigIn hfirst
  simp only [positionsIn, hset, hnext, hturn, bind, Except.bind] at h
  by_cases htwo : seats.length = 2
  · rw [if_pos (show TurnOrder.size ⟨seats, i⟩ = 2 from htwo)] at h
    cases h
    obtain ⟨others, hback⟩ := leftOf_two hn htwo hd hleft
    refine ⟨hlap, ⟨?_, ?_, fun _ => ?_⟩, by rw [hleft]; rfl, others, hback⟩
    · rw [if_pos htwo]
    · rw [hleft]
      rfl
    · rw [hback]
      rfl
  · rw [if_neg (show TurnOrder.size ⟨seats, i⟩ ≠ 2 from htwo), hbig] at h
    simp only [hfirst] at h
    cases h
    refine ⟨hlap, ⟨?_, ?_, fun h => absurd h htwo⟩, by rw [hleft]; rfl, rest'', hleft''⟩
    · rw [if_neg htwo, hleft]
      rfl
    · rw [hleft']
      rfl

end Positions

section Opening
variable {s : Spot} {pos : Positions}

/-- The blinds are posted by whoever is to, and then everybody is asked. -/
theorem opening_eq (s : Spot) (pos : Positions) :
    ∃ (small big : BlindPost) (stack stack' : Chips), small.player = pos.smallBlind ∧
      big.player = pos.bigBlind ∧ opening s pos =
        (posted (posted s small stack) big stack').mapHand (·.asked pos.firstToAct small big) := by
  let stack := (s.roster.stack? pos.smallBlind).getD 0
  let small : BlindPost := ⟨pos.smallBlind, min s.hand.blinds.small stack⟩
  have hsmall : postBlind s pos.smallBlind s.hand.blinds.small = (posted s small stack, small) :=
    postBlind_eq _ rfl
  let t := posted s small stack
  let stack' := (t.roster.stack? pos.bigBlind).getD 0
  let big : BlindPost := ⟨pos.bigBlind, min t.hand.blinds.big stack'⟩
  have hbig : postBlind t pos.bigBlind t.hand.blinds.big = (posted t big stack', big) :=
    postBlind_eq _ rfl
  refine ⟨small, big, stack, stack', rfl, rfl, ?_⟩
  simp only [opening, hsmall]
  rw [hbig]
  rfl

/-- The turn begins to the left of the big blind, and nobody was prompted yet. -/
theorem opening_turn {rest : List PlayerId} (hn : s.hand.turns.order.Nodup)
    (hleft : leftOf s.hand.turns.order pos.bigBlind = pos.firstToAct :: rest) :
    (opening s pos).hand.turns.lap = leftOf s.hand.turns.order pos.bigBlind ∧
      (opening s pos).hand.turns.order = s.hand.turns.order ∧
      ∃ (small big : BlindPost) (total : Chips) (pots : List Pot),
        small.player = pos.smallBlind ∧ big.player = pos.bigBlind ∧
        (opening s pos).hand.events = s.hand.events ++
          [.handStarted s.hand.number s.hand.dealer small big s.hand.order,
            .potChanged total pots] := by
  obtain ⟨small, big, stack, stack', hsmall, hbig, heq⟩ := opening_eq s pos
  let blinds := (posted (posted s small stack) big stack').hand
  have hturns : blinds.turns = s.hand.turns := turns_posted.trans turns_posted
  have hin : pos.firstToAct ∈ s.hand.turns.order :=
    mem_leftOf.mp (hleft ▸ List.mem_cons_self)
  obtain ⟨i, hset, -⟩ := TurnOrder.setCurrent_of_mem hin
  have hasked : (blinds.asked pos.firstToAct small big).turns = ⟨s.hand.turns.order, i⟩ := by
    show (blinds.turns.setCurrent pos.firstToAct).toOption.getD blinds.turns = _
    rw [hturns, hset]
    rfl
  rw [heq]
  refine ⟨?_, ?_, small, big, blinds.potTotal, blinds.pots, hsmall, hbig, ?_⟩
  · show (blinds.asked pos.firstToAct small big).turns.lap = _
    rw [hasked, hleft]
    exact TurnOrder.lap_setCurrent hn hleft hset
  · show (blinds.asked pos.firstToAct small big).turns.order = _
    rw [hasked]
  · have hevents : blinds.events = s.hand.events := events_withBet.trans events_withBet
    have hnumber : blinds.number = s.hand.number := number_withBet.trans number_withBet
    have hdealer : blinds.dealer = s.hand.dealer := dealer_withBet.trans dealer_withBet
    have horder : blinds.order = s.hand.order := order_withBet.trans order_withBet
    show (blinds.events ++ [.handStarted blinds.number blinds.dealer small big blinds.order]) ++
      [.potChanged blinds.potTotal blinds.pots] = _
    rw [hevents, hnumber, hdealer, horder]
    exact List.append_assoc _ _ _

theorem Opens.sameSeats {news : List GameEvent} {mid : Spot} (h : Opens s news mid) :
    mid.hand.order = s.hand.order ∧ mid.hand.dealtIn = s.hand.dealtIn := by
  cases h
  exact ⟨order_withBet.trans order_withBet, dealtIn_withBet.trans dealtIn_withBet⟩

end Opening

section Deal
variable {number : Nat} {r r' : Roster} {dealer : PlayerId} {blinds : Blinds} {deck : Deck}
  {ev ev' : Evaluator} {h : Hand}

theorem positions_of_setUp {hand : Hand} {pos : Positions}
    (h : setUp number r dealer blinds deck = .ok (hand, pos)) :
    positionsIn { order := r.funded } dealer = .ok pos := by
  unfold setUp at h
  split at h
  · cases h
  · cases hpos : positionsIn { order := r.funded } dealer with
    | error e =>
        rw [hpos] at h
        cases h
    | ok pos' =>
        simp only [hpos] at h
        cases hdealt : dealt number r dealer pos' blinds deck with
        | error e =>
            rw [hdealt] at h
            cases h
        | ok dealt =>
            rw [hdealt] at h
            cases h
            rfl

/-- Those who are dealt in sit clockwise from the button as the hand moves on from its opening. -/
theorem Opened.atSeats {d mid s : Spot} {news told : List GameEvent} (h : Opened r d news mid)
    (hv : r.Valid) (horder : d.hand.order = leftOf r.funded dealer) (hon : mid.MovesOn told s) :
    s.hand.AtSeats r.funded dealer := by
  obtain ⟨hsame, hsame', -⟩ := hon.sameSeats
  obtain ⟨hopen, hopen'⟩ := h.opens.sameSeats
  refine ⟨Roster.funded_nodup hv, (hsame.trans hopen).trans horder, ?_⟩
  rw [hsame', hopen', h.order]

/-- Whoever can bet after the blinds could bet before, and nobody was prompted yet. -/
theorem Opened.midway {pos : Positions} {news : List GameEvent} {rest : List PlayerId}
    (h : Opened r (freshSpot number r dealer pos blinds deck ev) news
      (opening (freshSpot number r dealer pos blinds deck ev) pos))
    (hv : r.Valid) (hlen : pos.order.length = r.funded.length)
    (hdeck : deckDeals deck r.funded.length)
    (hleft : leftOf r.funded pos.bigBlind = pos.firstToAct :: rest) :
    (freshSpot number r dealer pos blinds deck ev).Midway
      (opening (freshSpot number r dealer pos blinds deck ev) pos) := by
  obtain ⟨-, hturns, small, big, total, pots, -, -, htold⟩ :=
    opening_turn (s := freshSpot number r dealer pos blinds deck ev) (Roster.funded_nodup hv) hleft
  refine ⟨h.opens.steady h.dealt, h.opens.phase, ?_, fun q hq => ?_⟩
  · rw [prompts, htold]
    rfl
  · have hturn := hturns ▸ (mem_ableToAct.mp hq).1
    exact mem_ableToAct.mpr ⟨hturn, (fresh_unmarked hlen hdeck q).2⟩

/-- A hand that moves on from its opening to where it waits for somebody has started. -/
theorem starts_of_opening {d s : Spot} {seats rest : List PlayerId} {pos : Positions}
    (hn : seats.Nodup) (hturns : d.hand.turns.order = seats) (hphase : d.hand.phase = .preFlop)
    (hprompts : d.hand.prompts = []) (hleft : leftOf seats pos.bigBlind = pos.firstToAct :: rest)
    (hmid : d.Midway (opening d pos)) (hturn : (opening d pos).hand.TurnMoves s.hand)
    (hseats : s.hand.AtSeats seats dealer)
    (hleader : s.hand.leader? = (opening d pos).hand.leader?) (hplay : s.InPlay) :
    Starts seats dealer pos.bigBlind s where
  preFlop hflop := by
    obtain ⟨-, -, p, hfind, hround, hasks⟩ := hmid.sameStreet hturn (hflop.trans hphase.symm)
    subst hturns
    have hlap := (opening_turn hn hleft).1
    refine ⟨p, ?_, hasks.current, hasks.prompted.trans (congrArg (· ++ [p]) hprompts)⟩
    rw [hround, ← hlap, hfind]
  later hflop hlive := by
    obtain ⟨p, hfind, hasks⟩ :=
      hmid.opensStreet hturn hseats hleader hplay (hphase ▸ hflop) hlive
    exact ⟨p, hfind, hasks.current, hasks.prompted.trans (congrArg (· ++ [p]) hprompts)⟩

/-- In every hand the turn goes clockwise and skips nobody. Before the flop the first left of the
big blind who owes an action is prompted first, on a later street the first left of the button who
can bet. While a street goes on, an action or the departure of the player on turn passes the turn to
the first left of them who owes an action, and the departure of anybody else leaves it alone. -/
theorem turn_goes_clockwise (r r' : Roster) (dealer : PlayerId) (number : Nat) (blinds : Blinds)
    (deck : Deck) (ev ev' : Evaluator) (h : Hand) (hv : r.Valid)
    (hmost : r.funded.length ≤ maxSeats) (hdeck : Card.fullDeck.length ≤ deck.cards.size)
    (hstart : start number r dealer blinds deck ev = (r', ev', .ok h)) :
    (∃ (small big : BlindPost) (told : List GameEvent),
      h.events = .handStarted number dealer small big (leftOf r.funded dealer) :: told ∧
        BlindsAt r.funded dealer small.player big.player ∧
        Starts r.funded dealer big.player ⟨h, r', ev'⟩) ∧
    ∀ (moves : List Move) (s : Spot), Spot.play ⟨h, r', ev'⟩ moves = s →
      (∀ p a, (s.act p a).2 = .ok () → s.PassesOn r.funded dealer p (s.move (.act p a)).1) ∧
      (∀ p, s.hand.currentPlayer = some p →
        s.PassesOn r.funded dealer p (s.move (.leave p)).1) ∧
      ∀ p, s.hand.currentPlayer ≠ some p →
        s.LeavesTurn r.funded dealer (s.move (.leave p)).1 := by
  have hplay : Spot.InPlay ⟨h, r', ev'⟩ :=
    .of_begun hv (begun_of_deal hv (deckSuffices_reset hdeck hmost) hstart)
  obtain ⟨pos, news, hsetUp, hopened, hadvance⟩ := opened_of_deal hv hstart
  obtain ⟨told, hon, -, -⟩ := hopened.movesOn hv hadvance
  obtain ⟨-, hdealer, hcan, -⟩ := canDeal_of_deal hv hstart
  have hn : r.funded.Nodup := Roster.funded_nodup hv
  obtain ⟨horder, hblinds, -, rest, hleft⟩ :=
    positionsIn_clockwise hn hdealer (positions_of_setUp hsetUp)
  have hseats : h.AtSeats r.funded dealer := hopened.atSeats hv horder hon
  have hlen : pos.order.length = r.funded.length := by
    rw [horder]
    exact List.length_rotate _ _
  have hmid := hopened.midway hv hlen hcan hleft
  obtain ⟨-, -, small, big, total, pots, hsmall, hbig, htold⟩ :=
    opening_turn (s := freshSpot number r dealer pos blinds deck.reset ev) hn hleft
  refine ⟨⟨small, big, .potChanged total pots :: told, ?_, hsmall ▸ hbig ▸ hblinds, ?_⟩, ?_⟩
  · rw [hon.events, htold, ← horder]
    rfl
  · exact hbig ▸ starts_of_opening hn rfl rfl rfl hleft hmid
      (Spot.advance_turn hmid.steady hadvance) hseats hon.sameSeats.2.2 hplay
  · rintro moves s rfl
    have hnow := hplay.play moves
    have hstill := Spot.atSeats_play hplay hseats moves
    exact ⟨fun p a => Spot.act_passesOn hnow hstill a, fun p => Spot.leave_passesOn hnow hstill,
      fun p => Spot.leave_leavesTurn hnow hstill⟩

theorem turn_goes_clockwise_short_stack :
    ∃ s : Spot, start 1 shortSeated 1 ⟨5, 10⟩ (.seeded 7) { value := fun _ => HandValue.best } =
        (s.roster, s.evaluator, .ok s.hand) ∧
      (∃ (small big : BlindPost) (told : List GameEvent),
        s.hand.events = .handStarted 1 1 small big (leftOf shortSeated.funded 1) :: told ∧
          BlindsAt shortSeated.funded 1 small.player big.player ∧
          Starts shortSeated.funded 1 big.player s) ∧
      ∀ (moves : List Move) (t : Spot), s.play moves = t →
        (∀ p a, (t.act p a).2 = .ok () →
          t.PassesOn shortSeated.funded 1 p (t.move (.act p a)).1) ∧
        (∀ p, t.hand.currentPlayer = some p →
          t.PassesOn shortSeated.funded 1 p (t.move (.leave p)).1) ∧
        ∀ p, t.hand.currentPlayer ≠ some p →
          t.LeavesTurn shortSeated.funded 1 (t.move (.leave p)).1 := by
  have hv : shortSeated.Valid := by decide
  have hdeck : Card.fullDeck.length ≤ (Deck.seeded 7).cards.size := Nat.le_of_eq rfl
  have hdealer : 1 ∈ shortSeated.funded := by decide
  obtain ⟨s, hs, -⟩ := deal_spec 1 ⟨5, 10⟩ { value := fun _ => HandValue.best } hv (by decide)
    hdealer (deckSuffices_reset hdeck (by decide)) (by decide)
  exact ⟨s, hs, turn_goes_clockwise shortSeated s.roster 1 1 ⟨5, 10⟩ (.seeded 7) _ s.evaluator
    s.hand hv (by decide) hdeck hs⟩

end Deal

end Hand
end Holdem
