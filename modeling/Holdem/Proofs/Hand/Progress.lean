import Holdem.Hand.Progress
import Holdem.Proofs.Hand.Steady

/-!
# Moving on keeps a hand in order

From a hand in order, moving on succeeds unless the deck runs out of cards. It leads to a player
who has to act, or it ends the hand with every chip of the middle paid out to players still seated.
On the way only stacks of players of the hand change, chips pass between those stacks and the
middle and go nowhere else, and nothing is told of a hand being aborted.
-/
namespace Holdem

def GameEvent.isAbort : GameEvent → Bool
  | .handAborted .. => true
  | _ => false

/-- A hand that is over, with its bets collected and the middle empty. -/
def Hand.concluded (h : Hand) (payouts : Payouts) (shown : NatMap ShownHand) : Hand :=
  Hand.emit
    { h with
      stakes := {}
      round := { h.round with contributions := ∅, phase := .showdown } }
    (.handEnded h.number payouts shown h.board)

/-- A hand with some cards of the deck more on the board and a new round, in which everybody able
is asked. -/
def Hand.onStreet (h : Hand) (phase : Phase) (count : Nat) (first : PlayerId) (place : Nat) : Hand :=
  let (dealt, deck) := h.deck.drawUpTo count
  Hand.emit
    { h.collectRound with
      deck
      board := h.board ++ dealt
      round := { phase, minRaise := h.blinds.big, pending := .ofList h.ableToAct }
      firstToAct := first
      turns := { h.turns with current := place } }
    (.roundAdvanced phase dealt (h.board ++ dealt))

namespace Spot

/-- What a step of a hand may do to a spot. The chips of any players that include those of the
hand are the same before and after, together with what is in the middle. -/
structure Moves (s s' : Spot) : Prop where
  restacked : s.roster.Restacked s.hand.dealtIn.order s'.roster
  pooled : ∀ ids : List PlayerId, ids.Nodup → s.hand.dealtIn.order ⊆ ids →
    s'.roster.chipsOf ids + s'.hand.potTotal = s.roster.chipsOf ids + s.hand.potTotal
  remain : s'.hand.dealtIn.order ⊆ s.hand.dealtIn.order
  told : ∃ news, s'.hand.events = s.hand.events ++ news ∧ ∀ e ∈ news, e.isAbort = false

namespace Moves
variable {s s' s'' : Spot}

theorem trans (h : Moves s s') (h' : Moves s' s'') : Moves s s'' where
  restacked := h.restacked.trans (h'.restacked.mono h.remain)
  pooled ids hn hsub :=
    (h'.pooled ids hn (List.Subset.trans h.remain hsub)).trans (h.pooled ids hn hsub)
  remain := List.Subset.trans h'.remain h.remain
  told := by
    obtain ⟨news, he, hnews⟩ := h.told
    obtain ⟨news', he', hnews'⟩ := h'.told
    refine ⟨news ++ news', by rw [he', he, List.append_assoc], fun e hm => ?_⟩
    rcases List.mem_append.mp hm with hm | hm
    · exact hnews e hm
    · exact hnews' e hm

theorem refl : Moves s s where
  restacked := .same
  pooled _ _ _ := rfl
  remain := List.Subset.refl _
  told := ⟨[], (List.append_nil _).symm, by simp⟩

/-- A change to the hand alone that leaves the middle and the players as they are. -/
theorem of_mapHand {f : Hand → Hand} (hpot : (f s.hand).potTotal = s.hand.potTotal)
    (hdealt : (f s.hand).dealtIn.order ⊆ s.hand.dealtIn.order)
    (htold : ∃ news, (f s.hand).events = s.hand.events ++ news ∧ ∀ e ∈ news, e.isAbort = false) :
    Moves s (s.mapHand f) where
  restacked := .same
  pooled _ _ _ := by rw [mapHand, hpot]
  remain := hdealt
  told := htold

/-- The same, when nothing is told of it. -/
theorem of_silent {f : Hand → Hand} (hpot : (f s.hand).potTotal = s.hand.potTotal)
    (hdealt : (f s.hand).dealtIn.order ⊆ s.hand.dealtIn.order)
    (hsilent : (f s.hand).events = s.hand.events) : Moves s (s.mapHand f) :=
  of_mapHand hpot hdealt ⟨[], by rw [hsilent, List.append_nil], by simp⟩

/-- The same, when one thing is told. -/
theorem of_event {f : Hand → Hand} {e : GameEvent}
    (hpot : (f s.hand).potTotal = s.hand.potTotal)
    (hdealt : (f s.hand).dealtIn.order ⊆ s.hand.dealtIn.order)
    (htold : (f s.hand).events = s.hand.events ++ [e]) (he : e.isAbort = false) :
    Moves s (s.mapHand f) :=
  of_mapHand hpot hdealt ⟨[e], htold, by simpa using he⟩

end Moves

/-- A step that goes through and leaves a hand that waits for somebody or is settled. -/
def Proceeds (s : Spot) (o : Outcome) : Prop :=
  ∃ s', o = s'.done ∧ s.Moves s' ∧ (s'.hand.Live s'.roster ∨ s'.hand.Settled s'.roster)

theorem Proceeds.after {s mid : Spot} {o : Outcome} (h : mid.Proceeds o) (hm : s.Moves mid) :
    s.Proceeds o := by
  obtain ⟨s', ho, hmoves, hend⟩ := h
  exact ⟨s', ho, hm.trans hmoves, hend⟩

theorem checkConservation_of_goes {s : Spot}
    (h : s.hand.Live s.roster ∨ s.hand.Settled s.roster) :
    s.checkConservation = .ok () := by
  rcases h with hl | hs
  · exact hl.balanced.checkConservation
  · exact hs.balanced.checkConservation

/-! ## Paying out -/

/-- A spot whose hand is over, with everything collected and paid out. -/
def concluded (s : Spot) (payouts : Payouts) (shown : NatMap ShownHand) (evaluator : Evaluator) :
    Spot :=
  { hand := s.hand.concluded payouts shown
    roster := credit s.roster payouts.entries
    evaluator }

section Pay
variable {s : Spot} {r : Roster} {winnings : List (PlayerId × Chips)} {ids : List PlayerId}

theorem credit_cons (p : PlayerId) (c : Chips) :
    credit r ((p, c) :: winnings) =
      credit (r.setStack p ((r.stack? p).getD 0 + c)) winnings :=
  rfl

theorem credit_restacked (h : ∀ e ∈ winnings, e.1 ∈ ids) : r.Restacked ids (credit r winnings) := by
  induction winnings generalizing r with
  | nil => exact .same
  | cons e rest ih =>
      obtain ⟨p, c⟩ := e
      have hp : p ∈ ids := h (p, c) List.mem_cons_self
      rw [credit_cons]
      refine (Roster.Restacked.same.write _ hp).trans (ih fun e he => ?_)
      exact h e (List.mem_cons_of_mem _ he)

theorem chipsOf_credit (hn : ids.Nodup)
    (h : ∀ e ∈ winnings, e.1 ∈ ids ∧ r.contains e.1 = true) :
    (credit r winnings).chipsOf ids = r.chipsOf ids + (winnings.map Prod.snd).sum := by
  induction winnings generalizing r with
  | nil => rfl
  | cons e rest ih =>
      obtain ⟨p, c⟩ := e
      obtain ⟨hp, hseat⟩ := h (p, c) List.mem_cons_self
      obtain ⟨stack, hstack⟩ := Roster.contains_iff.mp hseat
      have hset := Roster.chipsOf_setStack (c := stack + c) hn hp hstack
      rw [credit_cons, hstack, Option.getD_some, ih]
      · rw [List.map_cons, List.sum_cons]
        lia
      · intro e he
        rw [Roster.contains_setStack]
        exact h e (List.mem_cons_of_mem _ he)

/-- Everybody seated gets what is handed out to them. -/
theorem stack?_credit (r : Roster) (winnings : List (PlayerId × Chips)) (p : PlayerId) :
    (credit r winnings).stack? p =
      (r.stack? p).map (· + ((winnings.filter (·.1 = p)).map Prod.snd).sum) := by
  induction winnings generalizing r with
  | nil => exact Option.map_id_apply.symm
  | cons e rest ih =>
      obtain ⟨q, c⟩ := e
      rw [credit_cons, ih, Roster.stack?_setStack, List.filter_cons]
      by_cases hq : p = q
      · subst hq
        rw [if_pos rfl, if_pos (decide_eq_true rfl)]
        cases r.stack? p with
        | none => rfl
        | some stack => exact congrArg some (Nat.add_assoc ..)
      · rw [if_neg hq, if_neg (by simpa using Ne.symm hq)]

theorem credit_restacks : r.Restacked (winnings.map Prod.fst) (credit r winnings) :=
  credit_restacked fun _ he => List.mem_map_of_mem he

/-- Whoever is credited, no more chips arrive than are handed out. -/
theorem chipsOf_credit_le (r : Roster) (winnings : List (PlayerId × Chips)) (hn : ids.Nodup) :
    (credit r winnings).chipsOf ids ≤ r.chipsOf ids + (winnings.map Prod.snd).sum := by
  induction winnings generalizing r with
  | nil => exact Nat.le_refl _
  | cons e rest ih =>
      obtain ⟨p, c⟩ := e
      have hraise := Roster.chipsOf_raise_le (r := r) (p := p) (c := c) hn
      have hrest := ih (r := r.setStack p ((r.stack? p).getD 0 + c))
      rw [credit_cons, List.map_cons, List.sum_cons]
      lia

theorem totalChips_credit_le (winnings : List (PlayerId × Chips)) (hv : r.Valid) :
    (credit r winnings).totalChips ≤ r.totalChips + (winnings.map Prod.snd).sum := by
  rw [Roster.totalChips_eq_chipsOf (credit_restacks.valid hv), Roster.totalChips_eq_chipsOf hv,
    credit_restacks.ids_eq]
  exact chipsOf_credit_le r winnings hv.distinct

/-- What can be paid out and shown when a hand ends. All of the middle goes to players of the hand.
Nothing is shown if at most one of them is left standing; otherwise it takes the last street, and
then everybody standing shows their pocket and nobody else does. -/
structure Payoff (s : Spot) (payouts : Payouts) (shown : NatMap ShownHand) : Prop where
  total : payouts.totalChips = s.hand.potTotal
  paid : ∀ p, payouts.contains p = true → p ∈ s.hand.dealtIn.order
  shows : s.hand.turns.size ≤ 1 ∧ shown = ∅ ∨
    1 < s.hand.turns.size ∧ s.hand.phase.streets = [] ∧
      ∀ p, (shown.get? p).map ShownHand.cards =
        if p ∈ s.hand.turns.order then s.hand.pocket? p else none

section Payoff
variable {payouts : Payouts} {shown : NatMap ShownHand} {evaluator : Evaluator}

/-- With all bets collected, what was won can be paid out to players who are seated. -/
theorem settle_eq (shown : NatMap ShownHand)
    (hseated : ∀ p, payouts.contains p = true → s.roster.contains p = true) :
    (s.mapHand Hand.collectRound).settle payouts shown =
      done (s.concluded payouts shown s.evaluator) := by
  have hfind : payouts.keys.find? (fun p => !s.roster.contains p) = none := by
    rw [List.find?_eq_none]
    intro p hk
    simp [hseated p (NatMap.mem_keys_iff.mp hk)]
  have hroster : (s.mapHand Hand.collectRound).roster = s.roster := rfl
  simp only [settle, hroster, hfind]
  rfl

theorem potTotal_concluded : (s.hand.concluded payouts shown).potTotal = 0 := rfl

/-- What is paid out is all that was in the middle. -/
theorem Payoff.chipsOf (h : s.Payoff payouts shown) (hp : s.hand.Places s.roster)
    (hn : ids.Nodup) (hsub : s.hand.dealtIn.order ⊆ ids) :
    (credit s.roster payouts.entries).chipsOf ids = s.roster.chipsOf ids + s.hand.potTotal := by
  rw [← h.total]
  refine chipsOf_credit hn fun e he => ?_
  have hpaid := h.paid e.1 (NatMap.mem_keys_iff.mp (List.mem_map_of_mem he))
  exact ⟨hsub hpaid, hp.seated _ hpaid⟩

theorem Payoff.moves (h : s.Payoff payouts shown) (hp : s.hand.Places s.roster) :
    s.Moves (s.concluded payouts shown evaluator) where
  restacked := credit_restacked fun e he =>
    h.paid e.1 (NatMap.mem_keys_iff.mp (List.mem_map_of_mem he))
  pooled ids hn hsub := by
    show (credit s.roster payouts.entries).chipsOf ids + 0 = _
    exact h.chipsOf hp hn hsub
  remain := List.Subset.refl _
  told := ⟨_, rfl, by simp [GameEvent.isAbort]⟩

/-- Paying out what is in the middle, to players of the hand, settles it. -/
theorem Payoff.settled (h : s.Payoff payouts shown) (hp : s.hand.Places s.roster)
    (hb : s.hand.Balanced s.roster) :
    (s.concluded payouts shown evaluator).hand.Settled
      (s.concluded payouts shown evaluator).roster where
  ended := rfl
  empty := potTotal_concluded
  balanced :=
    { sum := by
        have hpaid := h.chipsOf hp hp.nodup (List.Subset.refl _)
        exact (congrArg (· + s.hand.departedChips) hpaid).trans hb.sum
      countable := hb.countable }

end Payoff

/-- The pockets of some players are shown on top of those shown before. -/
theorem showHandsGo_spec {players : List PlayerId}
    (h : ∀ p ∈ players, s.hand.isDealtIn p = true) (evaluator : Evaluator)
    (shown : NatMap ShownHand) :
    ∃ evaluator' shown',
      showHands.go players shown { s with evaluator } =
        ({ s with evaluator := evaluator' }, .ok shown') ∧
      ∀ p, (shown'.get? p).map ShownHand.cards =
        if p ∈ players then s.hand.pocket? p else (shown.get? p).map ShownHand.cards := by
  induction players generalizing evaluator shown with
  | nil => exact ⟨evaluator, shown, rfl, by simp⟩
  | cons q rest ih =>
      obtain ⟨pocket, hpocket⟩ := Hand.exists_pocket (h q List.mem_cons_self)
      obtain ⟨evaluator', shown', hgo, hshown⟩ :=
        ih (fun p hp => h p (List.mem_cons_of_mem _ hp))
          { evaluator with calls := evaluator.calls + 1 }
          (shown.insert q ⟨pocket, evaluator.value evaluator.calls (pocket ++ s.hand.board)⟩)
      refine ⟨evaluator', shown', ?_, fun p => (hshown p).trans ?_⟩
      · simp only [showHands.go, hpocket]
        exact hgo
      · by_cases hpq : p = q
        · simp [hpq, hpocket]
        · simp [hpq, NatMap.get?_insert]

/-- The hands of some players are shown, if everybody of them was dealt one. Valuing hands changes
nothing else. -/
theorem showHands_spec {players : List PlayerId}
    (h : ∀ p ∈ players, s.hand.isDealtIn p = true) :
    ∃ evaluator shown, s.showHands players = ({ s with evaluator }, .ok shown) ∧
      ∀ p, (shown.get? p).map ShownHand.cards =
        if p ∈ players then s.hand.pocket? p else none :=
  showHandsGo_spec h s.evaluator ∅

/-- Somebody who was dealt a hand shows it. -/
theorem contains_of_shown {shown : NatMap ShownHand} {players : List PlayerId} {p : PlayerId}
    (hshown : (shown.get? p).map ShownHand.cards =
      if p ∈ players then s.hand.pocket? p else none)
    (hp : p ∈ players) (hdealt : s.hand.isDealtIn p = true) : shown.contains p = true := by
  obtain ⟨pocket, hpocket⟩ := Hand.exists_pocket hdealt
  rw [if_pos hp, hpocket, Option.map_eq_some_iff] at hshown
  obtain ⟨hand, hget, -⟩ := hshown
  exact NatMap.contains_iff.mpr ⟨hand, hget⟩

/-- Chips that are still in the running were put in by players who are standing. -/
theorem mem_turns_of_standing {p : PlayerId} {c : Chips} (hp : s.hand.Places s.roster)
    (hbooks : s.hand.Books) (h : (p, c) ∈ s.hand.stakes.standing) : p ∈ s.hand.turns.order := by
  obtain ⟨hget, hfold⟩ := Stakes.mem_standing.mp h
  refine hp.mem_turns_iff.mpr ⟨hbooks.stakers p (NatMap.contains_iff.mpr ⟨c, hget⟩), ?_⟩
  exact Bool.eq_false_iff.mpr fun hf => hfold ((hbooks.folded p).mpr hf)

/-- Chips in the middle were put in by everybody standing. -/
theorem standing_ne_nil (hp : s.hand.Places s.roster) (hbooks : s.hand.Books)
    (hpos : 0 < s.hand.stakes.total) : s.hand.stakes.standing ≠ [] := by
  obtain ⟨p, ht, -, -⟩ := TurnOrder.player_of_lt hp.pointer
  have hstake := hbooks.invested hpos p ht
  obtain ⟨c, hc⟩ := NatMap.contains_iff.mp (NatMap.contains_of_chips_pos hstake)
  refine List.ne_nil_of_mem (a := (p, c)) (Stakes.mem_standing.mpr ⟨hc, fun hf => ?_⟩)
  have hstands := (hp.mem_turns.mp ht).2
  rw [(hbooks.folded p).mp hf] at hstands
  cases hstands

/-- When betting is over on the last street, the hands are shown and the middle is paid out. -/
theorem showdown_eq (hs : s.hand.Steady s.roster)
    (hdone : s.hand.round.isClosed = false → s.hand.bettingIsOver = true)
    (hcontested : 1 < s.hand.turns.size) (hlast : s.hand.phase.streets = []) :
    ∃ payouts shown evaluator, (s.mapHand Hand.collectRound).showdown =
      done (s.concluded payouts shown evaluator) ∧ s.Payoff payouts shown := by
  let c := s.mapHand Hand.collectRound
  have hp : c.hand.Places c.roster := hs.places.collectRound
  have hbooks : c.hand.Books := hs.books_collectRound hdone
  obtain ⟨evaluator, shown, hshow, hcards⟩ :=
    showHands_spec (s := c) fun p ht => hp.dealt p (hp.turns_subset ht)
  have hstanding : ∀ p k, (p, k) ∈ c.hand.stakes.standing → p ∈ c.hand.turns.order :=
    fun p k => mem_turns_of_standing hp hbooks
  have hshown : ∀ p k, (p, k) ∈ c.hand.stakes.standing → shown.contains p = true := fun p k h =>
    contains_of_shown (hcards p) (hstanding p k h) (hp.dealt p (hp.turns_subset (hstanding p k h)))
  obtain ⟨payouts, hdist, htotal, hpaid⟩ :=
    c.hand.stakes.distribute_spec (.ofList (shown.entries.map fun e => (e.1, e.2.value)))
      c.hand.order (standing_ne_nil hp hbooks)
      (fun p k h => hp.placed p (hp.turns_subset (hstanding p k h)))
      (fun p k h => by
        rw [NatMap.contains_ofList, List.map_map]
        exact NatMap.mem_keys_iff.mpr (hshown p k h))
  have hwon : ∀ p, payouts.contains p = true → p ∈ s.hand.dealtIn.order := fun p h => by
    obtain ⟨k, hk⟩ := hpaid p h
    exact hp.turns_subset (hstanding p k hk)
  refine ⟨payouts, shown, evaluator, ?_, ?_⟩
  · have hsettle := settle_eq (s := { s with evaluator }) shown fun p h =>
      hs.places.seated p (hwon p h)
    simp only [showdown, hshow, hdist, c]
    exact hsettle
  · exact
      { total := htotal.trans (Hand.total_collectRound ..)
        paid := hwon
        shows := .inr ⟨hcontested, hlast, hcards⟩ }

/-- Whoever is left when nobody contests the hand is given everything. -/
theorem finishUncontested_eq (hp : s.hand.Places s.roster) (hsize : s.hand.turns.size ≤ 1) :
    ∃ payouts, s.finishUncontested = done (s.concluded payouts ∅ s.evaluator) ∧
      s.Payoff payouts ∅ := by
  obtain ⟨winner, hwin, hnow, -⟩ := TurnOrder.player_of_lt hp.pointer
  have hwon : ∀ p, (s.hand.collectRound.stakes.awardAll winner).contains p = true →
      p ∈ s.hand.dealtIn.order := fun p h => by
    rw [Stakes.contains_awardAll h]
    exact hp.turns_subset hwin
  refine ⟨s.hand.collectRound.stakes.awardAll winner, ?_, ?_⟩
  · rw [finishUncontested, TurnOrder.now, hnow]
    exact settle_eq ∅ fun p h => hp.seated p (hwon p h)
  · exact
      { total := Stakes.totalChips_awardAll.trans (Hand.total_collectRound ..)
        paid := hwon
        shows := .inl ⟨hsize, rfl⟩ }

end Pay

/-! ## Going on -/

section Step
variable {s : Spot}

/-- What is told to prompt a player. -/
def promptOf (h : Hand) (p : PlayerId) : GameEvent :=
  .nextPlayer p (h.round.toCall p) h.round.minRaiseTo

/-- A spot in which the player at a place has the turn and was prompted. -/
def prompted (s : Spot) (p : PlayerId) (place : Nat) : Spot :=
  s.mapHand fun h => (h.turnTo place).emit (promptOf h p)

/-- Somebody who owes an action can be prompted. -/
theorem prompt_eq (hs : s.hand.Steady s.roster) (hopen : s.hand.round.isClosed = false) :
    ∃ p i, s.prompt = done (s.prompted p i) ∧ p ∈ s.hand.round.pending ∧
      s.hand.turns.order[i]? = some p := by
  obtain ⟨q, hq⟩ : ∃ q, q ∈ s.hand.round.pending := by
    apply Classical.byContradiction
    intro hnone
    rw [Round.isClosed, NatSet.isEmpty_iff.mpr fun k hk => hnone ⟨k, hk⟩] at hopen
    cases hopen
  have hfound : (s.hand.turns.lap.find? s.hand.round.owesAction).isSome = true := by
    rw [List.find?_isSome]
    exact ⟨q, TurnOrder.mem_lap.mpr (Hand.mem_ableToAct.mp (hs.bets.able q hq)).1,
      Round.owesAction_iff.mpr hq⟩
  obtain ⟨p, hfind⟩ := Option.isSome_iff_exists.mp hfound
  have howes := Round.owesAction_iff.mp (List.find?_some hfind)
  have hturn : p ∈ s.hand.turns.order := TurnOrder.mem_lap.mp (List.mem_of_find?_eq_some hfind)
  obtain ⟨i, hset, -, hip⟩ := TurnOrder.setCurrent_of_mem hturn
  exact ⟨p, i, by simp only [prompt, hfind, hset]; rfl, howes, hip⟩

/-- As many cards are drawn as there are. -/
theorem drawUpTo_eq (d : Deck) (n : Nat) :
    (d.drawUpTo n).1.length = min n (d.cards.size - d.drawn) ∧
      (d.drawUpTo n).2 = { d with drawn := d.drawn + min n (d.cards.size - d.drawn) } := by
  induction n generalizing d with
  | zero => simp [Deck.drawUpTo]
  | succ n ih =>
      rcases Nat.lt_or_ge d.drawn d.cards.size with hlt | hge
      · have hdraw : d.draw = .ok (d.cards[d.drawn], { d with drawn := d.drawn + 1 }) := by
          rw [Deck.draw, Array.getElem?_eq_getElem hlt]
        obtain ⟨hlen, hrest⟩ := ih { d with drawn := d.drawn + 1 }
        have hmin : min (n + 1) (d.cards.size - d.drawn) =
            1 + min n (d.cards.size - (d.drawn + 1)) := by
          omega
        simp only [Deck.drawUpTo, hdraw, hrest, List.length_cons, hlen, hmin]
        exact ⟨Nat.add_comm _ _, by rw [Nat.add_assoc]⟩
      · have hdraw : d.draw = .error .exhausted := by
          rw [Deck.draw, Array.getElem?_eq_none hge]
        have hzero : d.cards.size - d.drawn = 0 := Nat.sub_eq_zero_of_le hge
        simp only [Deck.drawUpTo, hdraw, hzero, Nat.min_zero]
        exact ⟨rfl, rfl⟩

theorem drawUpTo_spec {d : Deck} {n : Nat} (h : d.drawn + n ≤ d.cards.size) :
    (d.drawUpTo n).1.length = n ∧ (d.drawUpTo n).2 = { d with drawn := d.drawn + n } := by
  obtain ⟨hlen, hrest⟩ := drawUpTo_eq d n
  rw [Nat.min_eq_left (by omega)] at hlen hrest
  exact ⟨hlen, hrest⟩

theorem isBetting_of_streets_eq_cons {p q : Phase} {n : Nat} {rest : List (Phase × Nat)}
    (h : p.streets = (q, n) :: rest) : q.isBetting = true := by
  cases p
  all_goals simp only [Phase.streets, List.cons.injEq, Prod.mk.injEq, reduceCtorEq] at h
  all_goals
    obtain ⟨⟨hq, _⟩, _⟩ := h
    rw [← hq]
    rfl

/-- Opening a street starts a round in which whoever can act owes an action. -/
theorem openStreet_eq {h : Hand} {r : Roster} (phase : Phase) (hp : h.Places r) :
    ∃ (first : PlayerId) (i : Nat), i < h.turns.order.length ∧
      openStreet h phase =
        { h with
          round := { phase, minRaise := h.blinds.big, pending := .ofList h.ableToAct }
          firstToAct := first
          turns := { h.turns with current := i } } := by
  simp only [openStreet]
  split
  · exact ⟨h.firstToAct, h.turns.current, hp.pointer, rfl⟩
  · next first hfind =>
      have howes := Round.owesAction_iff.mp (List.find?_some hfind)
      have hable : first ∈ h.ableToAct := NatSet.mem_ofList.mp howes
      obtain ⟨i, hset, hi, -⟩ := TurnOrder.setCurrent_of_mem (Hand.mem_ableToAct.mp hable).1
      exact ⟨first, i, hi, by rw [hset]; rfl⟩

/-- With all bets collected a street can be opened. -/
theorem openStreet_steady {h : Hand} {r : Roster} {phase : Phase} (hp : h.Places r)
    (hbooks : h.Books) (hb : h.Balanced r) (hround : h.round.contributions = ∅)
    (hphase : phase.isBetting = true) : (openStreet h phase).Steady r := by
  obtain ⟨first, i, hi, hopen⟩ := openStreet_eq phase hp
  have hbet : ∀ p, h.round.contribution p = 0 := fun p => by
    rw [Round.contribution, hround]
    rfl
  rw [hopen]
  refine ⟨{ hp with pointer := hi }, ?bets, ?books, { hb with sum := ?sum }, hphase⟩
  case bets =>
    exact
      { able := fun p hpend => NatSet.mem_ofList.mp hpend
        matched := fun p hable hnot => absurd (NatSet.mem_ofList.mpr hable) hnot
        highest := fun p => Nat.le_refl 0
        countable := Nat.zero_le _ }
  case books =>
    exact
      { hbooks with
        bettors := fun p hbet => by cases hbet
        allIn := fun p ht hall => by
          have hin := hbooks.allIn p ht hall
          rw [hbet p] at hin
          exact hin }
  case sum =>
    have hsum := hb.sum
    rw [Hand.potTotal, Round.total, hround] at hsum
    exact hsum

/-- When betting is over for the round, a street that is still to come can be dealt if there are
the cards for it. -/
theorem dealStreet_eq {phase : Phase} {count : Nat} {later : List (Phase × Nat)}
    (hs : s.hand.Steady s.roster)
    (hdone : s.hand.round.isClosed = false → s.hand.bettingIsOver = true)
    (hstreets : s.hand.phase.streets = (phase, count) :: later)
    (hlen : (s.hand.deck.drawUpTo count).1.length = count) :
    ∃ first i, (s.mapHand Hand.collectRound).dealStreet phase count =
        done (s.mapHand (·.onStreet phase count first i)) ∧
      (s.hand.onStreet phase count first i).Steady s.roster := by
  let dealt := (s.hand.deck.drawUpTo count).1
  let h : Hand :=
    { s.hand.collectRound with
      board := s.hand.board ++ dealt
      deck := (s.hand.deck.drawUpTo count).2 }
  have hplaces : h.Places s.roster := { hs.places with }
  have hopened : (openStreet h phase).Steady s.roster :=
    openStreet_steady hplaces { hs.books_collectRound hdone with }
      { hs.balanced.collectRound with } rfl (isBetting_of_streets_eq_cons hstreets)
  obtain ⟨first, i, -, hopen⟩ := openStreet_eq phase hplaces
  have hstreet : s.hand.onStreet phase count first i =
      (openStreet h phase).emit (.roundAdvanced phase dealt (s.hand.board ++ dealt)) := by
    rw [hopen]
    rfl
  refine ⟨first, i, ?_, hstreet ▸ hopened.emit⟩
  have hmid : s.mapHand (·.onStreet phase count first i) =
      s.mapHand fun _ =>
        (openStreet h phase).emit (.roundAdvanced phase dealt (s.hand.board ++ dealt)) :=
    congrArg (fun hand => { s with hand }) hstreet
  have hsame : (s.mapHand Hand.collectRound).hand.deck = s.hand.deck := rfl
  rw [hmid]
  simp only [dealStreet, hsame]
  rw [if_neg (by rw [hlen]; exact Nat.lt_irrefl _)]
  rfl

section Street
variable {h : Hand} {phase : Phase} {count : Nat} {first : PlayerId} {place : Nat}

theorem potTotal_onStreet : (h.onStreet phase count first place).potTotal = h.potTotal :=
  Hand.potTotal_collectRound (h := h)

/-- A deck that suffices for the streets to come suffices for the first of them. -/
theorem drawUpTo_of_stocked {later : List (Phase × Nat)} (hst : h.Stocked)
    (hstreets : h.phase.streets = (phase, count) :: later) :
    (h.deck.drawUpTo count).1.length = count ∧
      (h.deck.drawUpTo count).2 = { h.deck with drawn := h.deck.drawn + count } := by
  unfold Hand.Stocked at hst
  rw [hstreets, List.map_cons, List.sum_cons] at hst
  exact drawUpTo_spec (by omega)

/-- It also suffices for those after it. -/
theorem stocked_onStreet {later : List (Phase × Nat)} (hst : h.Stocked)
    (hstreets : h.phase.streets = (phase, count) :: later) :
    (h.onStreet phase count first place).Stocked := by
  obtain ⟨-, hdeck⟩ := drawUpTo_of_stocked hst hstreets
  unfold Hand.Stocked at hst ⊢
  rw [hstreets, List.map_cons, List.sum_cons] at hst
  show (h.deck.drawUpTo count).2.drawn + (phase.streets.map (·.2)).sum ≤
    (h.deck.drawUpTo count).2.cards.size
  rw [hdeck, Phase.streets_of_streets_eq_cons hstreets]
  show h.deck.drawn + count + _ ≤ h.deck.cards.size
  omega

end Street

/-- The fault of a deck that ran out of cards. -/
def exhausted : ActionError := .internal DeckError.exhausted.message

/-- Without the cards for a street moving on fails. -/
theorem dealStreet_short (phase : Phase) {count : Nat}
    (hlen : (s.hand.deck.drawUpTo count).1.length ≠ count) :
    ∃ s' : Spot, (s.mapHand Hand.collectRound).dealStreet phase count = s'.fail exhausted := by
  have hless : (s.hand.deck.drawUpTo count).1.length < count := by
    apply Nat.lt_of_le_of_ne _ hlen
    rw [(drawUpTo_eq s.hand.deck count).1]
    exact Nat.min_le_left _ _
  have hsame : (s.mapHand Hand.collectRound).hand.deck = s.hand.deck := rfl
  simp only [dealStreet, hsame]
  rw [if_pos hless]
  exact ⟨_, rfl⟩

/-! ## What a hand goes through as it moves on -/

/-- How a hand in order moves on, and what is told of it: a player is prompted, the hand ends, or
a street is dealt and the hand moves on from there. -/
inductive MovesOn : Spot → List GameEvent → Spot → Prop
  | prompt {s : Spot} {p : PlayerId} {i : Nat} :
      s.hand.Steady s.roster → 1 < s.hand.turns.order.length → p ∈ s.hand.round.pending →
      s.hand.turns.order[i]? = some p →
      MovesOn s [promptOf s.hand p] (s.prompted p i)
  | ended {s : Spot} {payouts : Payouts} {shown : NatMap ShownHand} {evaluator : Evaluator} :
      s.hand.Steady s.roster → s.Payoff payouts shown →
      MovesOn s [.handEnded s.hand.number payouts shown s.hand.board]
        (s.concluded payouts shown evaluator)
  | street {s s' : Spot} {news : List GameEvent} {phase : Phase} {count : Nat}
      {later : List (Phase × Nat)} {first : PlayerId} {i : Nat} :
      s.hand.Steady s.roster → s.hand.phase.streets = (phase, count) :: later →
      (s.hand.deck.drawUpTo count).1.length = count →
      MovesOn (s.mapHand (·.onStreet phase count first i)) news s' →
      MovesOn s
        (.roundAdvanced phase (s.hand.deck.drawUpTo count).1
          (s.hand.board ++ (s.hand.deck.drawUpTo count).1) :: news) s'

namespace MovesOn
variable {s' : Spot} {news : List GameEvent}

theorem moves (h : MovesOn s news s') : s.Moves s' := by
  induction h with
  | prompt hs => exact .of_event rfl (List.Subset.refl _) rfl rfl
  | ended hs hpay => exact hpay.moves hs.places
  | @street s _ _ phase count _ first i hs hstreets hlen _ ih =>
      have hstreet : s.Moves (s.mapHand (·.onStreet phase count first i)) :=
        .of_event potTotal_onStreet (List.Subset.refl _) rfl rfl
      exact hstreet.trans ih

theorem events (h : MovesOn s news s') : s'.hand.events = s.hand.events ++ news := by
  induction h with
  | prompt | ended => rfl
  | street hs hstreets hlen _ ih => rw [ih]; exact List.append_assoc _ _ _

theorem number (h : MovesOn s news s') : s'.hand.number = s.hand.number := by
  induction h with
  | prompt | ended => rfl
  | street _ _ _ _ ih => exact ih

/-- Moving on leads to somebody who is waited for, or the hand is settled. -/
theorem goes (h : MovesOn s news s') :
    s'.hand.Awake s'.roster ∨ s'.hand.Settled s'.roster := by
  induction h with
  | prompt hs hcontested howes hip =>
      obtain ⟨hi, -⟩ := List.getElem?_eq_some_iff.mp hip
      exact .inl
        { (hs.turnTo hi).emit with
          contested := hcontested
          waits := ⟨_, howes, TurnOrder.now_eq_ok_iff.mpr hip⟩ }
  | ended hs hpay => exact .inr (hpay.settled hs.places hs.balanced)
  | street _ _ _ _ ih => exact ih

/-- A deck that suffices for a hand does so as the hand moves on. -/
theorem stocked (h : MovesOn s news s') (hst : s.hand.Stocked) : s'.hand.Stocked := by
  induction h with
  | prompt => exact hst
  | ended => exact Nat.le_trans (Nat.le_add_right _ _) hst
  | street _ hstreets _ _ ih => exact ih (stocked_onStreet hst hstreets)

end MovesOn

/-- No street is dealt when nobody is left to contest the hand or somebody has to act. -/
theorem advanceThrough_of_stop (streets : List (Phase × Nat)) (hs : s.hand.Steady s.roster)
    (hstop : s.hand.turns.size ≤ 1 ∨
      s.hand.round.isClosed = false ∧ s.hand.bettingIsOver = false) :
    ∃ news s', advanceThrough streets s = s'.done ∧ MovesOn s news s' := by
  unfold advanceThrough
  by_cases hsize : s.hand.turns.size ≤ 1
  · obtain ⟨payouts, hfinish, hpay⟩ := finishUncontested_eq hs.places hsize
    rw [if_pos hsize]
    exact ⟨_, _, hfinish, .ended hs hpay⟩
  · obtain ⟨hopen, hbetting⟩ := hstop.resolve_left hsize
    obtain ⟨p, i, hprompt, howes, hip⟩ := prompt_eq hs hopen
    rw [if_neg hsize, hopen, hbetting]
    exact ⟨_, _, hprompt, .prompt hs (Nat.lt_of_not_le hsize) howes hip⟩

/-- From a hand in order, moving on succeeds unless there are too few cards. The induction is over
the streets still to be dealt, and between two of them the hand is in order. -/
theorem advanceThrough_cases {streets : List (Phase × Nat)} (hs : s.hand.Steady s.roster)
    (hstreets : s.hand.phase.streets = streets) :
    (∃ news s', advanceThrough streets s = s'.done ∧ MovesOn s news s') ∨
      ¬ s.hand.Stocked ∧ ∃ s' : Spot, advanceThrough streets s = s'.fail exhausted := by
  induction streets generalizing s with
  | nil =>
      left
      by_cases hstop : s.hand.turns.size ≤ 1 ∨
          s.hand.round.isClosed = false ∧ s.hand.bettingIsOver = false
      · exact advanceThrough_of_stop [] hs hstop
      · obtain ⟨hsize, hclosed⟩ := not_or.mp hstop
        obtain ⟨payouts, shown, evaluator, hshow, hpay⟩ :=
          showdown_eq hs (by simpa using hclosed) (Nat.lt_of_not_le hsize) hstreets
        rw [advanceThrough, if_neg hsize, if_neg (by simpa using hclosed)]
        exact ⟨_, _, hshow, .ended hs hpay⟩
  | cons street later ih =>
      obtain ⟨phase, count⟩ := street
      by_cases hstop : s.hand.turns.size ≤ 1 ∨
          s.hand.round.isClosed = false ∧ s.hand.bettingIsOver = false
      · exact .inl (advanceThrough_of_stop _ hs hstop)
      · obtain ⟨hsize, hclosed⟩ := not_or.mp hstop
        rw [advanceThrough, if_neg hsize, if_neg (by simpa using hclosed)]
        by_cases hlen : (s.hand.deck.drawUpTo count).1.length = count
        · obtain ⟨first, i, hdeal, hsteady⟩ :=
            dealStreet_eq hs (by simpa using hclosed) hstreets hlen
          rw [hdeal]
          have hrest := ih (s := s.mapHand (·.onStreet phase count first i)) hsteady
            (Phase.streets_of_streets_eq_cons hstreets)
          rcases hrest with ⟨news, s', hrest, hon⟩ | ⟨hshort, s', hrest⟩
          · exact .inl ⟨_, s', hrest, .street hs hstreets hlen hon⟩
          · exact .inr ⟨fun hst => hshort (stocked_onStreet hst hstreets), s', hrest⟩
        · obtain ⟨s', hdeal⟩ := dealStreet_short phase hlen
          rw [hdeal]
          exact .inr ⟨fun hst => hlen (drawUpTo_of_stocked hst hstreets).1, s', rfl⟩

theorem advance_cases (hs : s.hand.Steady s.roster) :
    (∃ news s', s.advance = s'.done ∧ MovesOn s news s') ∨
      ¬ s.hand.Stocked ∧ ∃ s' : Spot, s.advance = s'.fail exhausted :=
  advanceThrough_cases hs rfl

/-- With the cards of all streets to come, moving on always succeeds. -/
theorem advance_movesOn (hs : s.hand.Steady s.roster) (hst : s.hand.Stocked) :
    ∃ news s', s.advance = s'.done ∧ MovesOn s news s' :=
  (advance_cases hs).resolve_right fun h => h.1 hst

theorem advance_spec (hs : s.hand.Steady s.roster) (hst : s.hand.Stocked) :
    s.Proceeds s.advance := by
  obtain ⟨news, s', hs', hon⟩ := advance_movesOn hs hst
  exact ⟨s', hs', hon.moves, hon.goes.imp_left fun ha => { ha with stocked := hon.stocked hst }⟩

end Step

end Spot
end Holdem
