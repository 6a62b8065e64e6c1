import Holdem.HandValue.Best
import Holdem.Proofs.Hand.Redeal

/-!
# Betting reveals nothing about the pockets

Two hands that are dealt to the same players, with the same cards to come, are one hand redealt.
They stay so whatever happens, as long as no pockets have to be shown, and so nobody can tell them
apart.
When pockets are shown it is in both of them, and then they are those of everybody standing. In a
hand whose deck has too few cards none ever are.
-/
namespace Holdem

variable {c : Redeal}

namespace Hand
variable {h h' h'' : Hand} {r : Roster} {p : PlayerId}

/-! ## Cards that are used up -/

/-- How many cards are out when a hand is played to the end. -/
def reach (h : Hand) : Nat := h.deck.drawn + (h.phase.streets.map (·.2)).sum

/-- A hand that ended with nobody left to contest it, and without any pocket being shown. -/
structure Uncontested (h : Hand) : Prop where
  left : h.turns.size ≤ 1
  told : ∃ told payouts, h.events = told ++ [.handEnded h.number payouts ∅ h.board]

/-- A hand has used up its deck no more than there is. -/
def Within (h : Hand) : Prop := h.deck.drawn ≤ h.deck.cards.size

/-- A step by which a hand does not end. Cards may have been drawn. -/
structure Draws (h h' : Hand) : Prop where
  cards : h'.deck.cards = h.deck.cards
  drawn : h.deck.drawn ≤ h'.deck.drawn
  within : h.Within → h'.Within
  reach : h.reach ≤ h'.reach
  live : h'.isOver = h.isOver

theorem Draws.of_same (hround : h'.round.phase = h.round.phase) (hdeck : h'.deck = h.deck) :
    Draws h h' where
  cards := by rw [hdeck]
  drawn := by rw [hdeck]
  within := by rw [Within, Within, hdeck]; exact id
  reach := by rw [Hand.reach, Hand.reach, phase, phase, hround, hdeck]
  live := by rw [isOver, isOver, hround]

/-- Drawing cards uses up no more than there are. -/
theorem Draws.of_drawn {n : Nat} (hdeck : h'.deck = (h.deck.drawUpTo n).2)
    (hreach : h.reach ≤ h'.reach) (hover : h'.isOver = h.isOver) : Draws h h' := by
  have hdrawn := hdeck.trans (Spot.drawUpTo_eq h.deck n).2
  refine ⟨by rw [hdrawn], by rw [hdrawn]; exact Nat.le_add_right _ _, fun hin => ?_, hreach, hover⟩
  unfold Within at hin ⊢
  rw [hdrawn]
  dsimp only
  omega

theorem Draws.trans (h₁ : Draws h h') (h₂ : Draws h' h'') : Draws h h'' where
  cards := h₂.cards.trans h₁.cards
  drawn := Nat.le_trans h₁.drawn h₂.drawn
  within := fun hin => h₂.within (h₁.within hin)
  reach := Nat.le_trans h₁.reach h₂.reach
  live := h₂.live.trans h₁.live

/-- Too few cards are too few for good. -/
theorem Draws.not_stocked (hd : Draws h h') (hshort : ¬ h.Stocked) : ¬ h'.Stocked := by
  intro hst
  apply hshort
  have hreach := hd.reach
  have hcards := hd.cards
  unfold Stocked at hst ⊢
  unfold Hand.reach at hreach
  rw [hcards] at hst
  exact Nat.le_trans hreach hst

/-- A step after which a hand is either still played or has ended with no pocket shown. -/
inductive Continues (h h' : Hand) : Prop
  | draws : Draws h h' → Continues h h'
  | ends : h'.isOver = true → h'.Uncontested → Continues h h'

theorem Continues.after (hc : Continues h' h'') (hd : Draws h h') : Continues h h'' := by
  cases hc with
  | draws hdraws => exact .draws (hd.trans hdraws)
  | ends hover hnone => exact .ends hover hnone

/-! ## Pockets that are shown -/

/-- The pockets of all who have not folded are shown, and no others. -/
def Shows (h : Hand) (shown : NatMap ShownHand) : Prop :=
  ∀ p, (shown.get? p).map ShownHand.cards = if h.isFolded p = true then none else h.pocket? p

/-- Two hands that ended by a showdown, of which the same was told before. -/
structure ShownAlike (h h' : Hand) : Prop where
  ended : h.isOver = true
  ended' : h'.isOver = true
  left : 1 < h.turns.size
  left' : 1 < h'.turns.size
  told : ∃ told number board payouts payouts' shown shown',
    h.events = told ++ [.handEnded number payouts shown board] ∧ h.Shows shown ∧
      h'.events = told ++ [.handEnded number payouts' shown' board] ∧ h'.Shows shown'

theorem shows_of_standing {shown : NatMap ShownHand} (hp : h.Places r)
    (hshown : ∀ p, (shown.get? p).map ShownHand.cards =
      if p ∈ h.turns.order then h.pocket? p else none) : h.Shows shown := by
  intro p
  rw [hshown p]
  by_cases hturn : p ∈ h.turns.order
  · obtain ⟨-, hstands⟩ := hp.mem_turns_iff.mp hturn
    rw [if_pos hturn, hstands, if_neg Bool.false_ne_true]
  · rw [if_neg hturn]
    cases hfold : h.isFolded p with
    | true => rw [if_pos rfl]
    | false =>
        have hnone : h.holdings.get? p = none := by
          apply Classical.byContradiction
          intro hsome
          have hdealt : h.isDealtIn p = true := Option.isSome_iff_ne_none.mpr hsome
          exact hturn (hp.mem_turns_iff.mpr ⟨hdealt, hfold⟩)
        rw [if_neg Bool.false_ne_true, pocket?, hnone]
        rfl

/-- The cards do not matter to whether a hand is in order. -/
theorem Steady.redeal (hs : h.Steady r) : (h.redeal c).Steady r where
  places :=
    { hs.places with
      dealt := fun p hp => isDealtIn_redeal.trans (hs.places.dealt p hp)
      gone := fun p hp hout =>
        isFolded_redeal.trans (hs.places.gone p (isDealtIn_redeal.symm.trans hp) hout)
      turns_eq := by
        simp only [isFolded_redeal]
        exact hs.places.turns_eq
      allIn_iff := fun p hp => by
        rw [isAllIn_redeal]
        exact hs.places.allIn_iff p hp }
  bets :=
    { hs.bets with
      able := fun p hp => ableToAct_redeal.symm ▸ hs.bets.able p hp
      matched := fun p hp hnot => hs.bets.matched p (ableToAct_redeal ▸ hp) hnot }
  books :=
    { hs.books with
      folded := fun p => by
        rw [isFolded_redeal]
        exact hs.books.folded p
      stakers := fun p hp => isDealtIn_redeal.trans (hs.books.stakers p hp)
      bettors := fun p hp => isDealtIn_redeal.trans (hs.books.bettors p hp)
      allIn := fun p hp hall => hs.books.allIn p hp (isAllIn_redeal.symm.trans hall) }
  balanced := { hs.balanced with }
  betting := hs.betting

end Hand

namespace Spot
variable {s s' : Spot} {p : PlayerId} {a : Action} {plan : Plan}

/-! ## Steps that use up cards, or end the hand -/

theorem settle_continues (payouts : Payouts) (hsize : s.hand.turns.size ≤ 1) :
    s.hand.Continues (s.settle payouts ∅).1.hand := by
  unfold settle
  split
  · exact .draws (.of_same rfl rfl)
  · exact .ends rfl ⟨hsize, s.hand.events, payouts, rfl⟩

theorem finishUncontested_continues (hsize : s.hand.turns.size ≤ 1) :
    s.hand.Continues s.finishUncontested.1.hand := by
  unfold finishUncontested
  split
  · exact .draws (.of_same rfl rfl)
  · exact (settle_continues (s := s.mapHand Hand.collectRound) _ hsize).after (.of_same rfl rfl)

theorem prompt_draws : s.hand.Draws s.prompt.1.hand := by
  unfold prompt
  dsimp only
  split
  · exact .of_same rfl rfl
  · split <;> exact .of_same rfl rfl

theorem openStreet_frame (h : Hand) (phase : Phase) :
    (openStreet h phase).round.phase = phase ∧ (openStreet h phase).deck = h.deck := by
  unfold openStreet
  dsimp only
  split <;> exact ⟨rfl, rfl⟩

theorem turnPassed_draws : s.hand.Draws s.turnPassed.1.hand := by
  unfold turnPassed
  split <;> exact .of_same rfl rfl

theorem foldOut_draws : s.hand.Draws (s.foldOut p).1.hand := by
  unfold foldOut
  split
  · dsimp only
    split <;> exact .of_same rfl rfl
  · exact .of_same rfl rfl

theorem carryOut_draws : s.hand.Draws (s.carryOut plan).1.hand := by
  cases plan with
  | check p =>
      have hchecked : s.hand.Draws (s.checked p).hand := .of_same rfl rfl
      exact hchecked.trans turnPassed_draws
  | commit p a chips allIn =>
      simp only [carryOut]
      split
      · exact .of_same rfl rfl
      · next stack hcover =>
          have hbet : s.hand.Draws (commitChips s.hand p chips) :=
            .of_same Round.phase_raiseOrCall rfl
          refine .trans (hbet.trans ?_) turnPassed_draws
          cases allIn <;> exact .of_same rfl rfl
  | fold p => exact foldOut_draws

theorem foldedOut_draws : s.hand.Draws (s.foldedOut p).1.1.hand := by
  unfold foldedOut
  refine Hand.Draws.trans (.of_same ?_ ?_) foldOut_draws
  · dsimp only [mapHand]
    split <;> rfl
  · dsimp only [mapHand]
    split <;> rfl

theorem takeOut_draws : s.hand.Draws (s.takeOut p).1.1.hand := by
  unfold takeOut
  split
  · exact .of_same rfl rfl
  · split
    · exact .of_same rfl rfl
    · next dealtIn _ =>
        have hstruck : s.hand.Draws (s.strikeOff p dealtIn).hand := .of_same rfl rfl
        dsimp only
        split
        · exact hstruck.trans foldedOut_draws
        · exact hstruck

theorem not_over_of_streets {h : Hand} {street : Phase × Nat} {later : List (Phase × Nat)}
    (hstreets : h.phase.streets = street :: later) : h.isOver = false := by
  unfold Hand.phase at hstreets
  unfold Hand.isOver
  cases hphase : h.round.phase
  all_goals simp [hphase, Phase.streets] at hstreets ⊢

/-- A street is dealt, or there are too few cards for it. -/
theorem dealStreet_frame (s : Spot) (phase : Phase) (count : Nat) :
    ∃ s' r, (s.mapHand Hand.collectRound).dealStreet phase count = (s', r) ∧
      s'.hand.deck = (s.hand.deck.drawUpTo count).2 ∧
      (r = .ok () ∧ (s.hand.deck.drawUpTo count).1.length = count ∧
          s'.hand.round.phase = phase ∨
        (∃ e, r = .error e) ∧ s'.hand.round.phase = s.hand.round.phase) := by
  have hle : (s.hand.deck.drawUpTo count).1.length ≤ count := by
    rw [(drawUpTo_eq s.hand.deck count).1]
    exact Nat.min_le_left _ _
  unfold dealStreet
  dsimp only
  split
  · exact ⟨_, _, rfl, rfl, .inr ⟨⟨_, rfl⟩, rfl⟩⟩
  · next hfull =>
      obtain ⟨hphase, hdeck⟩ := openStreet_frame
        { (s.mapHand Hand.collectRound).hand with
          deck := (s.hand.deck.drawUpTo count).2
          board := s.hand.board ++ (s.hand.deck.drawUpTo count).1 } phase
      exact ⟨_, _, rfl, hdeck, .inl ⟨rfl, Nat.le_antisymm hle (Nat.le_of_not_lt hfull), hphase⟩⟩

/-- Dealing a street uses up its cards, or all there are. -/
theorem dealStreet_draws {phase : Phase} {count : Nat} {later : List (Phase × Nat)}
    (hstreets : s.hand.phase.streets = (phase, count) :: later) :
    s.hand.Draws ((s.mapHand Hand.collectRound).dealStreet phase count).1.hand := by
  obtain ⟨s', r, hdeal, hdeck, hcase⟩ := dealStreet_frame s phase count
  have hdrawn := hdeck.trans (drawUpTo_eq s.hand.deck count).2
  rw [hdeal]
  rcases hcase with ⟨-, hlen, hphase⟩ | ⟨-, hphase⟩
  · have hlater : s'.hand.phase.streets = later := by
      rw [Hand.phase, hphase]
      exact Phase.streets_of_streets_eq_cons hstreets
    apply Hand.Draws.of_drawn hdeck
    · rw [(drawUpTo_eq s.hand.deck count).1] at hlen
      unfold Hand.reach
      rw [hlater, hstreets, hdrawn, hlen, List.map_cons, List.sum_cons, Nat.add_assoc]
    · rw [not_over_of_streets hstreets]
      apply Hand.isOver_eq_false_of_betting
      rw [Hand.phase, hphase]
      exact isBetting_of_streets_eq_cons hstreets
  · apply Hand.Draws.of_drawn hdeck
    · unfold Hand.reach Hand.phase
      rw [hphase, hdrawn]
      exact Nat.add_le_add_right (Nat.le_add_right _ _) _
    · rw [Hand.isOver, Hand.isOver, hphase]

/-! ## Two hands side by side -/

/-- How a step goes in a hand and in the hand redealt. Either the answers are the same and so are
the hands, but for the cards, or there is a showdown in both. -/
inductive Agree (c : Redeal) (h : Hand) : Outcome → Outcome → Prop
  | same {o : Outcome} : h.Continues o.1.hand → Agree c h o (redealt o c)
  | shown {s s' : Spot} : s.hand.ShownAlike s'.hand → Agree c h s.done s'.done

theorem Agree.after {h h' : Hand} {o o' : Outcome} (ha : Agree c h' o o') (hd : h.Draws h') :
    Agree c h o o' := by
  cases ha with
  | same hgoes => exact .same (hgoes.after hd)
  | shown hshown => exact .shown hshown

theorem Agree.answer {h : Hand} {o o' : Outcome} (ha : Agree c h o o') : o'.2 = o.2 := by
  cases ha <;> rfl

/-- What is shown by those who are left to contest a hand. -/
theorem Payoff.shows_pockets {payouts : Payouts} {shown : NatMap ShownHand} {ev : Evaluator}
    (hpay : s.Payoff payouts shown) (hp : s.hand.Places s.roster)
    (hcontested : 1 < s.hand.turns.size) : (s.concluded payouts shown ev).hand.Shows shown := by
  rcases hpay.shows with ⟨hfew, -⟩ | ⟨-, -, hcards⟩
  · exact absurd hcontested (Nat.not_lt.mpr hfew)
  · exact Hand.shows_of_standing (h := s.hand) hp hcards

/-- Where a showdown is due in a hand in order, it is held whatever the cards. -/
theorem showdown_agrees (hs : s.hand.Steady s.roster)
    (hdone : s.hand.round.isClosed = false → s.hand.bettingIsOver = true)
    (hcontested : 1 < s.hand.turns.size) (hlast : s.hand.phase.streets = []) :
    Agree c s.hand (s.mapHand Hand.collectRound).showdown
      ((s.redeal c).mapHand Hand.collectRound).showdown := by
  have hs' : (s.redeal c).hand.Steady (s.redeal c).roster := hs.redeal
  have hdone' : (s.redeal c).hand.round.isClosed = false →
      (s.redeal c).hand.bettingIsOver = true := fun hopen =>
    Hand.bettingIsOver_redeal.trans (hdone hopen)
  obtain ⟨payouts, shown, ev, hshow, hpay⟩ := showdown_eq hs hdone hcontested hlast
  obtain ⟨payouts', shown', ev', hshow', hpay'⟩ := showdown_eq hs' hdone' hcontested hlast
  rw [hshow, hshow']
  exact .shown
    { ended := rfl
      ended' := rfl
      left := hcontested
      left' := hcontested
      told := ⟨s.hand.events, s.hand.number, s.hand.board, payouts, payouts', shown, shown', rfl,
        hpay.shows_pockets hs.places hcontested, rfl, hpay'.shows_pockets hs'.places hcontested⟩ }

/-- As long as no street is dealt nothing depends on the cards. -/
theorem advanceThrough_agrees_of_stop (streets : List (Phase × Nat))
    (hstop : s.hand.turns.size ≤ 1 ∨
      (!s.hand.round.isClosed && !s.hand.bettingIsOver) = true) :
    Agree c s.hand (advanceThrough streets s) (advanceThrough streets (s.redeal c)) := by
  unfold advanceThrough
  rw [hand_redeal, Hand.turns_redeal, Hand.round_redeal, Hand.bettingIsOver_redeal]
  by_cases hsize : s.hand.turns.size ≤ 1
  · rw [if_pos hsize, if_pos hsize, finishUncontested_redeal]
    exact .same (finishUncontested_continues hsize)
  · have hopen := hstop.resolve_left hsize
    rw [if_neg hsize, if_neg hsize, if_pos hopen, if_pos hopen, prompt_redeal]
    exact .same (.draws prompt_draws)

/-- A hand and the hand redealt move on side by side, be it that they are in order or that there are
too few cards for a showdown. The induction is over the streets still to be dealt. -/
theorem advanceThrough_agrees {streets : List (Phase × Nat)} (hc : c.Agrees s.hand.deck)
    (hin : s.hand.Within) (hgood : s.hand.Steady s.roster ∨ ¬ s.hand.Stocked)
    (hstreets : s.hand.phase.streets = streets) :
    Agree c s.hand (advanceThrough streets s) (advanceThrough streets (s.redeal c)) := by
  induction streets generalizing s with
  | nil =>
      by_cases hstop : s.hand.turns.size ≤ 1 ∨
          (!s.hand.round.isClosed && !s.hand.bettingIsOver) = true
      · exact advanceThrough_agrees_of_stop [] hstop
      · obtain ⟨hsize, hclosed⟩ := not_or.mp hstop
        have hst : s.hand.Stocked := by
          unfold Hand.Stocked
          rw [hstreets]
          exact hin
        have hs := hgood.resolve_right fun hshort => hshort hst
        unfold advanceThrough
        rw [hand_redeal, Hand.turns_redeal, Hand.round_redeal, Hand.bettingIsOver_redeal,
          if_neg hsize, if_neg hsize, if_neg hclosed, if_neg hclosed]
        exact showdown_agrees hs (by simpa using hclosed) (Nat.lt_of_not_le hsize) hstreets
  | cons street later ih =>
      obtain ⟨phase, count⟩ := street
      by_cases hstop : s.hand.turns.size ≤ 1 ∨
          (!s.hand.round.isClosed && !s.hand.bettingIsOver) = true
      · exact advanceThrough_agrees_of_stop _ hstop
      · obtain ⟨hsize, hclosed⟩ := not_or.mp hstop
        have hdraws := dealStreet_draws hstreets
        have hdealt := dealStreet_redeal (s := s.mapHand Hand.collectRound) phase count hc
        unfold advanceThrough
        rw [hand_redeal, Hand.turns_redeal, Hand.round_redeal, Hand.bettingIsOver_redeal,
          if_neg hsize, if_neg hsize, if_neg hclosed, if_neg hclosed,
          show (s.redeal c).mapHand Hand.collectRound = (s.mapHand Hand.collectRound).redeal c from
            rfl]
        dsimp only
        rw [hdealt]
        obtain ⟨s', r, hdeal, -, hcase⟩ := dealStreet_frame s phase count
        rw [hdeal] at hdraws ⊢
        rcases hcase with ⟨rfl, hlen, hphase⟩ | ⟨⟨e, rfl⟩, -⟩
        · have hlater : s'.hand.phase.streets = later := by
            rw [Hand.phase, hphase]
            exact Phase.streets_of_streets_eq_cons hstreets
          have hnext : s'.hand.Steady s'.roster ∨ ¬ s'.hand.Stocked := by
            apply hgood.imp _ hdraws.not_stocked
            intro hs
            obtain ⟨first, i, hstreet, hsteady⟩ :=
              dealStreet_eq hs (by simpa using hclosed) hstreets hlen
            obtain rfl := congrArg Prod.fst (hdeal.symm.trans hstreet)
            exact hsteady
          exact (ih (hc.of_drawn hdraws.cards hdraws.drawn) (hdraws.within hin) hnext hlater).after
            hdraws
        · exact .same (.draws hdraws)

theorem advance_agrees (hc : c.Agrees s.hand.deck) (hin : s.hand.Within)
    (hgood : s.hand.Steady s.roster ∨ ¬ s.hand.Stocked) :
    Agree c s.hand s.advance (s.redeal c).advance :=
  advanceThrough_agrees hc hin hgood rfl

/-- So do they after a step that went alike. -/
theorem andThen_agrees {o : Outcome} (hc : c.Agrees s.hand.deck) (hin : s.hand.Within)
    (hdraws : s.hand.Draws o.1.hand) (hgood : o.1.hand.Steady o.1.roster ∨ ¬ s.hand.Stocked) :
    Agree c s.hand (andThen o advance) (andThen (redealt o c) advance) := by
  obtain ⟨mid, e | ⟨⟩⟩ := o
  · exact .same (.draws hdraws)
  · have hmid := advance_agrees (hc.of_drawn hdraws.cards hdraws.drawn) (hdraws.within hin)
      (hgood.imp_right hdraws.not_stocked)
    exact hmid.after hdraws

/-- An action is refused, or goes through, in both. -/
theorem act_agrees (hc : c.Agrees s.hand.deck) (hin : s.hand.Within)
    (hgood : s.AtRest ∨ ¬ s.hand.Stocked) :
    Agree c s.hand (s.act p a) ((s.redeal c).act p a) := by
  cases hv : s.validate p a with
  | error e =>
      rw [act_eq_fail hv, act_eq_fail (validate_redeal.trans hv)]
      exact .same (.draws (.of_same rfl rfl))
  | ok plan =>
      rw [act_eq_apply hv, act_eq_apply (validate_redeal.trans hv), apply_eq, apply_eq,
        carryOut_redeal]
      apply andThen_agrees hc hin carryOut_draws
      apply hgood.imp_left
      intro hrest
      have ha := hrest.awake (Hand.not_over_of_current (validate_ok hv).1)
      obtain ⟨hturn, hfit⟩ := fits_of_accepted ha hv
      obtain ⟨news, mid, hcarry, -, hs⟩ := carryOut_spec ha hturn hfit
      rw [hcarry]
      exact hs

/-- So is a departure. -/
theorem removePlayer_agrees (hc : c.Agrees s.hand.deck) (hin : s.hand.Within)
    (hgood : s.AtRest ∨ ¬ s.hand.Stocked) (hlive : s.hand.isOver = false) :
    Agree c s.hand (s.removePlayer p) ((s.redeal c).removePlayer p) := by
  rw [removePlayer_goesOn, removePlayer_goesOn, takeOut_redeal]
  have hdraws : s.hand.Draws (s.takeOut p).1.1.hand := takeOut_draws
  have hsteady : s.AtRest → (s.takeOut p).1.1.hand.Steady (s.takeOut p).1.1.roster := by
    intro hrest
    have ha := hrest.awake hlive
    obtain ⟨mid, goesOn, htakeOut, htakes⟩ := takeOut_spec ha p
    rw [htakeOut]
    exact htakes.steady
  generalize s.takeOut p = taken at hdraws hsteady
  obtain ⟨o, goesOn⟩ := taken
  cases goesOn with
  | false => exact .same (.draws hdraws)
  | true => exact andThen_agrees hc hin hdraws (hgood.imp_left hsteady)

theorem move_agrees (hc : c.Agrees s.hand.deck) (hin : s.hand.Within)
    (hgood : s.AtRest ∨ ¬ s.hand.Stocked) (hlive : s.hand.isOver = false) (m : Move) :
    Agree c s.hand (s.move m) ((s.redeal c).move m) := by
  cases m with
  | act p a => exact act_agrees hc hin hgood
  | leave p =>
      have hleave := removePlayer_agrees (p := p) hc hin hgood hlive
      simp only [move]
      generalize s.removePlayer p = o at hleave
      generalize (s.redeal c).removePlayer p = o' at hleave
      cases hleave with
      | same hgoes =>
          obtain ⟨s', e | ⟨⟩⟩ := o
          · exact .same hgoes
          · exact .same hgoes
      | shown hshown => exact .shown hshown
  | sitDown p name stack wanted =>
      simp only [move, roster_redeal]
      cases s.roster.add p name stack wanted with
      | error e => exact .same (.draws (.of_same rfl rfl))
      | ok added => exact .same (.draws (.of_same rfl rfl))

theorem move_redeal_of_over (hover : s.hand.isOver = true) (m : Move) :
    (s.redeal c).move m = redealt (s.move m) c := by
  have hover' : (s.redeal c).hand.isOver = true := hover
  cases m with
  | act p a =>
      rw [move, move, act_of_over hover, act_of_over hover']
      rfl
  | leave p =>
      simp only [move, removePlayer_of_over hover, removePlayer_of_over hover']
      rfl
  | sitDown p name stack wanted =>
      simp only [move, roster_redeal]
      cases s.roster.add p name stack wanted <;> rfl

/-! ## From move to move -/

/-- Two spots of which one is the other redealt, as long as no pockets were shown. -/
inductive Paired (s t : Spot) : Prop
  | playing (c : Redeal) : t = s.redeal c → s.hand.isOver = false → c.Agrees s.hand.deck →
      s.hand.Within → s.AtRest ∨ ¬ s.hand.Stocked → Paired s t
  | uncontested (c : Redeal) : t = s.redeal c → s.hand.isOver = true → s.hand.Uncontested →
      Paired s t
  | shown : s.hand.ShownAlike t.hand → Paired s t

theorem Agree.paired {h : Hand} {o o' : Outcome} (ha : Agree c h o o') (hlive : h.isOver = false)
    (hc : c.Agrees h.deck) (hin : h.Within) (hgood : o.1.AtRest ∨ ¬ h.Stocked) :
    Paired o.1 o'.1 := by
  cases ha with
  | same hgoes =>
      cases hgoes with
      | draws hdraws =>
          exact .playing c rfl (hdraws.live.trans hlive) (hc.of_drawn hdraws.cards hdraws.drawn)
            (hdraws.within hin) (hgood.imp_right hdraws.not_stocked)
      | ends hover hnone => exact .uncontested c rfl hover hnone
  | shown hshown => exact .shown hshown

section Moves
variable {t : Spot}

theorem Paired.move (h : Paired s t) (m : Move) : Paired (s.move m).1 (t.move m).1 := by
  cases h with
  | playing c heq hlive hc hin hgood =>
      subst heq
      apply (move_agrees hc hin hgood hlive m).paired hlive hc hin
      rcases hgood with hrest | hshort
      · exact (hrest.move_or_short m).imp_right (·.1)
      · exact .inr hshort
  | uncontested c heq hover hnone =>
      subst heq
      have hsame := hand_move_of_over hover m
      rw [move_redeal_of_over hover]
      exact .uncontested c rfl (hsame.symm ▸ hover) (hsame.symm ▸ hnone)
  | shown hshown =>
      apply Paired.shown
      rw [hand_move_of_over hshown.ended m, hand_move_of_over hshown.ended' m]
      exact hshown

theorem Paired.answer (h : Paired s t) (hlive : s.hand.isOver = false) (m : Move) :
    (t.move m).2 = (s.move m).2 := by
  cases h with
  | playing c heq _ hc hin hgood =>
      subst heq
      exact (move_agrees hc hin hgood hlive m).answer
  | uncontested c heq hover =>
      rw [hlive] at hover
      cases hover
  | shown hshown =>
      rw [hshown.ended] at hlive
      cases hlive

theorem Paired.play (h : Paired s t) (moves : List Move) :
    Paired (s.play moves) (t.play moves) := by
  induction moves generalizing s t with
  | nil => exact h
  | cons m rest ih => exact ih (h.move m)

end Moves

/-- A spot with all pockets and the deck face down. -/
def faceDown (s : Spot) : Spot := s.redeal ⟨fun _ => [], #[], { word := fun _ => 0 }⟩

/-- What cannot be told from two spots. While the hand is played they look the same and answer the
same, and it ends in both or in neither. If it ended without a showdown they still look the same,
and nothing was shown; by a showdown, the same was told before it, and just the pockets of those
who had not folded were shown. -/
structure Undisclosed (s t : Spot) : Prop where
  together : t.hand.isOver = s.hand.isOver
  looks : s.hand.isOver = false → t.faceDown = s.faceDown
  answers : s.hand.isOver = false → ∀ m, (t.move m).2 = (s.move m).2
  ended : s.hand.isOver = true →
    t.faceDown = s.faceDown ∧ s.hand.Uncontested ∨ s.hand.ShownAlike t.hand

theorem faceDown_redeal : (s.redeal c).faceDown = s.faceDown := by
  have hholdings : (s.redeal c).faceDown.hand.holdings = s.faceDown.hand.holdings := by
    apply NatMap.ext_get?
    intro p
    simp only [faceDown, redeal, Hand.redeal, NatMap.get?_mapValues, Option.map_map,
      Function.comp_def]
  exact congrArg (fun holdings => { s with hand := { s.faceDown.hand with holdings } }) hholdings

theorem Paired.undisclosed {t : Spot} (h : Paired s t) : Undisclosed s t := by
  have hanswers := h.answer
  cases h with
  | playing c heq hlive =>
      subst heq
      exact
        { together := rfl
          looks := fun _ => faceDown_redeal
          answers := hanswers
          ended := fun hover => by rw [hlive] at hover; cases hover }
  | uncontested c heq hover hnone =>
      subst heq
      exact
        { together := rfl
          looks := fun _ => faceDown_redeal
          answers := hanswers
          ended := fun _ => .inl ⟨faceDown_redeal, hnone⟩ }
  | shown hshown =>
      exact
        { together := hshown.ended'.trans hshown.ended.symm
          looks := fun hlive => by rw [hshown.ended] at hlive; cases hlive
          answers := hanswers
          ended := fun _ => .inr hshown }

end Spot

/-! ## From the deal on -/

namespace Hand
section Deal
variable {number : Nat} {r : Roster} {dealer : PlayerId} {pos : Positions} {blinds : Blinds}
  {deck deck' : Deck} {ev : Evaluator}

/-- Other cards in other pockets, and nothing else. -/
theorem pockets_redeal {order : List PlayerId} {cards cards' : List Card}
    (hlen : cards.length = 2 * order.length) (hlen' : cards'.length = 2 * order.length) :
    pockets order cards' = (pockets order cards).mapValues fun p held =>
      { held with pocket := (((pockets order cards').get? p).map (·.pocket)).getD [] } := by
  obtain ⟨hin, hfresh⟩ := pockets_spec order cards hlen
  obtain ⟨hin', hfresh'⟩ := pockets_spec order cards' hlen'
  apply NatMap.ext_get?
  intro p
  rw [NatMap.get?_mapValues]
  have hsame : (pockets order cards').contains p = (pockets order cards).contains p :=
    Bool.eq_iff_iff.mpr ((hin' p).trans (hin p).symm)
  unfold NatMap.contains at hsame
  cases hget : (pockets order cards).get? p with
  | none =>
      rw [hget] at hsame
      exact Option.not_isSome_iff_eq_none.mp (hsame ▸ Bool.false_ne_true)
  | some held =>
      rw [hget] at hsame
      obtain ⟨held', hget'⟩ := Option.isSome_iff_exists.mp hsame
      obtain ⟨hfolded, hallIn⟩ := hfresh p held hget
      obtain ⟨hfolded', hallIn'⟩ := hfresh' p held' hget'
      rw [hget', Option.map_some, Option.map_some, Option.getD_some]
      obtain ⟨pocket, folded, allIn⟩ := held
      obtain ⟨pocket', folded', allIn'⟩ := held'
      cases hfolded
      cases hallIn
      cases hfolded'
      cases hallIn'
      rfl

/-- Dealt from another deck, a hand is the same but for the cards. -/
theorem freshSpot_redeal (number : Nat) (dealer : PlayerId) (blinds : Blinds) (ev : Evaluator)
    (hlen : pos.order.length = r.funded.length)
    (hdeck : deckDeals deck r.funded.length) (hdeck' : deckDeals deck' r.funded.length)
    (hdrawn : deck'.drawn = deck.drawn) :
    ∃ c : Redeal, c.cards = deck'.cards ∧ freshSpot number r dealer pos blinds deck' ev =
      (freshSpot number r dealer pos blinds deck ev).redeal c := by
  have hpockets := pockets_redeal (length_pocketCards hlen hdeck) (length_pocketCards hlen hdeck')
  refine ⟨⟨fun p => ((pockets pos.order (deck'.drawUpTo (2 * r.funded.length)).1).get? p).map
    (·.pocket) |>.getD [], deck'.cards, deck'.words⟩, rfl, ?_⟩
  unfold freshSpot fresh Spot.redeal redeal Deck.redeal
  rw [← hpockets, hdrawn]

/-- A hand that opens and the hand redealt move on to their first prompt side by side. -/
theorem Opened.agrees {d mid : Spot} {news : List GameEvent} {c : Redeal}
    (h : Opened r d news mid) (hc : c.Agrees d.hand.deck) (hin : d.hand.Within) :
    Spot.Agree c mid.hand mid.advance (mid.redeal c).advance ∧
      (d.roster.Valid → ∀ s : Spot, mid.advance = s.done →
        Spot.Paired s (mid.redeal c).advance.1) := by
  have hs := h.opens.steady h.dealt
  have hc' : c.Agrees mid.hand.deck := by
    rw [h.opens.deck]
    exact hc
  have hin' : mid.hand.Within := by
    rw [Within, h.opens.deck]
    exact hin
  have hagrees := Spot.advance_agrees hc' hin' (.inl hs)
  refine ⟨hagrees, fun hv s hadvance => ?_⟩
  obtain ⟨told, -, -, hrest⟩ := h.movesOn hv hadvance
  rw [hadvance] at hagrees
  exact hagrees.paired hs.not_over hc' hin' (.inl hrest)

/-- From two decks of one size with the same cards after the pockets, two hands are dealt or none
is, and then for the same reason. -/
theorem deal_paired (number : Nat) (dealer : PlayerId) (blinds : Blinds) (ev : Evaluator)
    (hv : r.Valid) (hsize : deck'.cards.size = deck.cards.size)
    (hdrawn : deck'.drawn = deck.drawn)
    (hagree : ∀ i, deck.drawn + 2 * r.funded.length ≤ i → deck'.cards[i]? = deck.cards[i]?) :
    (∃ r' ev' e, deal number r dealer blinds deck ev = (r', ev', .error e) ∧
        deal number r dealer blinds deck' ev = (r', ev', .error e)) ∨
      ∃ s t : Spot, deal number r dealer blinds deck ev = (s.roster, s.evaluator, .ok s.hand) ∧
        deal number r dealer blinds deck' ev = (t.roster, t.evaluator, .ok t.hand) ∧
        Spot.Paired s t := by
  have hsame : deckDeals deck' r.funded.length ↔ deckDeals deck r.funded.length := by
    rw [deckDeals, deckDeals, hsize, hdrawn]
  by_cases hcan : CanDeal r dealer deck
  · obtain ⟨htwo, hdealer, hdeals, hcount⟩ := hcan
    obtain ⟨pos, hlen, hopened⟩ := setUp_opened number blinds ev hv htwo hdealer hcount
    obtain ⟨hsetUp, news, hopened'⟩ := hopened deck hdeals
    obtain ⟨hsetUp', -⟩ := hopened deck' (hsame.mpr hdeals)
    obtain ⟨c, hcards, hredeal⟩ := freshSpot_redeal number dealer blinds ev hlen hdeals
      (hsame.mpr hdeals) hdrawn
    rw [deal_eq number blinds ev hsetUp, deal_eq number blinds ev hsetUp', hredeal, opening_redeal]
    have hc : c.Agrees (freshSpot number r dealer pos blinds deck ev).hand.deck := by
      intro i hi
      rw [hcards]
      exact hagree i hi
    obtain ⟨hagrees, hpaired⟩ := hopened'.agrees hc hdeals
    have hpaired := hpaired hv
    generalize (opening (freshSpot number r dealer pos blinds deck ev) pos).advance = o at *
    generalize ((opening (freshSpot number r dealer pos blinds deck ev) pos).redeal c).advance = o'
      at *
    cases hagrees with
    | same =>
        obtain ⟨s, e | ⟨⟩⟩ := o
        · exact .inl ⟨s.roster, s.evaluator, e, rfl, rfl⟩
        · exact .inr ⟨s, s.redeal c, rfl, rfl, hpaired s rfl⟩
    | @shown s t hshown => exact .inr ⟨s, t, rfl, rfl, .shown hshown⟩
  · obtain ⟨e, herror⟩ := setUp_error number blinds hv hcan
    refine .inl ⟨r, ev, e, ?_, ?_⟩
    · rw [deal, herror deck Iff.rfl]
    · rw [deal, herror deck' hsame]

/-- Betting reveals nothing about the pockets. From decks that are shuffled into the same cards
after the pockets, two hands are dealt or refused alike, and then whatever happens in both they can
not be told apart. -/
theorem pockets_undisclosed (r : Roster) (dealer : PlayerId) (number : Nat) (blinds : Blinds)
    (deck deck' : Deck) (ev : Evaluator) (hv : r.Valid)
    (hsize : deck'.cards.size = deck.cards.size)
    (hagree : ∀ i, 2 * r.funded.length ≤ i → deck'.reset.cards[i]? = deck.reset.cards[i]?) :
    (∃ r' ev' e, start number r dealer blinds deck ev = (r', ev', .error e) ∧
        start number r dealer blinds deck' ev = (r', ev', .error e)) ∨
      ∃ s t : Spot, start number r dealer blinds deck ev = (s.roster, s.evaluator, .ok s.hand) ∧
        start number r dealer blinds deck' ev = (t.roster, t.evaluator, .ok t.hand) ∧
        ∀ moves, Spot.Undisclosed (s.play moves) (t.play moves) := by
  have hsize' : deck'.reset.cards.size = deck.reset.cards.size := by
    rw [size_reset, size_reset, hsize]
  have hagree' : ∀ i, deck.reset.drawn + 2 * r.funded.length ≤ i →
      deck'.reset.cards[i]? = deck.reset.cards[i]? := by
    intro i hi
    exact hagree i (Nat.le_trans (Nat.le_add_left _ _) hi)
  rcases deal_paired number dealer blinds ev hv hsize' rfl hagree' with
    hrefused | ⟨s, t, hs, ht, hpaired⟩
  · exact .inl hrefused
  · exact .inr ⟨s, t, hs, ht, fun moves => (hpaired.play moves).undisclosed⟩

/-- A deck to be shuffled with the multiples of a number. -/
def multiples : Deck := .ofWords fun i => (2654435769 * (i + 1)).toUInt32

/-- The same, but the two cards have changed places that the shuffle brings to the top. -/
def topSwapped : Deck := { multiples with cards := multiples.cards.swapIfInBounds 50 7 }

theorem pockets_undisclosed_top_swapped :
    topSwapped.reset.cards ≠ multiples.reset.cards ∧
      ∃ s t : Spot, start 1 unevenSeated 1 ⟨5, 10⟩ multiples
          { value := fun _ => HandValue.best } = (s.roster, s.evaluator, .ok s.hand) ∧
        start 1 unevenSeated 1 ⟨5, 10⟩ topSwapped
          { value := fun _ => HandValue.best } = (t.roster, t.evaluator, .ok t.hand) ∧
        ∀ moves, Spot.Undisclosed (s.play moves) (t.play moves) := by
  have hshuffled : topSwapped.reset.cards.toList.take 4 ≠ multiples.reset.cards.toList.take 4 ∧
      topSwapped.reset.cards.toList.drop 4 = multiples.reset.cards.toList.drop 4 := by
    decide +kernel
  have hv : unevenSeated.Valid := by decide
  have hsize : topSwapped.cards.size = multiples.cards.size := by decide +kernel
  have hagree : ∀ i, 2 * unevenSeated.funded.length ≤ i →
      topSwapped.reset.cards[i]? = multiples.reset.cards[i]? := by
    intro i hi
    obtain ⟨k, rfl⟩ := Nat.exists_eq_add_of_le hi
    rw [← Array.getElem?_toList, ← Array.getElem?_toList, ← List.getElem?_drop,
      ← List.getElem?_drop]
    exact congrArg (·[k]?) hshuffled.2
  have hdealt := pockets_undisclosed unevenSeated 1 1 ⟨5, 10⟩ multiples topSwapped
    { value := fun _ => HandValue.best } hv hsize hagree
  obtain ⟨s, hs, -⟩ := deal_spec 1 ⟨5, 10⟩ { value := fun _ => HandValue.best } hv (by decide)
    (show 1 ∈ unevenSeated.funded by decide)
    (deckSuffices_reset (d := multiples) (Nat.le_of_eq rfl) (by decide)) (by decide)
  refine ⟨fun hsame => hshuffled.1 (by rw [hsame]), hdealt.resolve_left ?_⟩
  rintro ⟨r', ev', e, hrefused, -⟩
  rw [start, hs] at hrefused
  cases hrefused

end Deal
end Hand
end Holdem
