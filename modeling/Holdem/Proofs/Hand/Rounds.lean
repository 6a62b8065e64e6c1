import Holdem.HandValue.Best
import Holdem.Proofs.Hand.Closings
import Holdem.Proofs.Hand.Runs

/-!
# Betting rounds close when the bets are matched

A round is closed, for a street or a showdown, only when everybody standing has put in the highest
bet of the round or all they had. If two of them or more could still bet, each has acted in this
round since it was last raised. To say so, the actions of the round in progress are written down
along the way, and at every moment at which a round closes the spot and what was written down are
kept.
-/
namespace Holdem

/-! ## What is written down -/

/-- An accepted action, and whether it increased the highest bet of its round. -/
structure Deed where
  player : PlayerId
  raised : Bool
deriving Repr, DecidableEq

/-- Somebody has acted with or after the last raise. -/
def Answered (deeds : List Deed) (p : PlayerId) : Prop :=
  ∃ earlier d later, deeds = earlier ++ d :: later ∧ d.player = p ∧ ∀ e ∈ later, e.raised = false

/-- A round about to close: the spot, with the bets still in front of the players, and the actions
of the round, first to last. -/
structure Moment where
  spot : Spot
  deeds : List Deed

namespace Spot

/-- The spot from which the hand moves on in a move, if it does: what an accepted action or a
departure has changed by itself. -/
def movesOnFrom (s : Spot) : Move → Option Spot
  | .act p a =>
      match s.validate p a with
      | .error _ => none
      | .ok plan =>
          match s.carryOut plan with
          | (mid, .ok ()) => some mid
          | (_, .error _) => none
  | .leave p =>
      match s.takeOut p with
      | ((mid, .ok ()), true) => some mid
      | _ => none
  | .sitDown .. => none

/-- What is written down of a move: nothing but accepted actions. -/
def deed? (s : Spot) (m : Move) : Option Deed :=
  match m with
  | .act p _ => (s.movesOnFrom m).map fun mid =>
      { player := p, raised := s.hand.round.highestBet < mid.hand.round.highestBet }
  | _ => none

/-- The rounds that close in a move. -/
def closedBy (s : Spot) (m : Move) : List Spot := ((s.movesOnFrom m).map closings).getD []

/-- Rounds that close one right after the other. The deeds are those of the first one. -/
def momentsOf (deeds : List Deed) : List Spot → List Moment
  | [] => []
  | c :: rest => ⟨c, deeds⟩ :: rest.map fun c => ⟨c, []⟩

/-- The moments at which rounds close while some moves are made. -/
def moments (s : Spot) (deeds : List Deed) : List Move → List Moment
  | [] => []
  | m :: rest =>
      let deeds := deeds ++ (s.deed? m).toList
      let closed := s.closedBy m
      momentsOf deeds closed ++ (s.move m).1.moments (if closed.isEmpty then deeds else []) rest

end Spot

/-- The moments at which rounds close in a hand, from the deal on. -/
def Hand.moments (number : Nat) (r : Roster) (dealer : PlayerId) (blinds : Blinds) (deck : Deck)
    (ev : Evaluator) (moves : List Move) : List Moment :=
  match setUp number r dealer blinds deck.reset with
  | .error _ => []
  | .ok (hand, pos) =>
      let s := opening { hand, roster := r, evaluator := ev } pos
      Spot.momentsOf [] s.closings ++ s.advance.1.moments [] moves

/-! ## Matched bets -/

namespace Spot

/-- Somebody who has not folded and has chips behind. -/
structure Behind (s : Spot) (p : PlayerId) : Prop where
  dealt : s.hand.isDealtIn p = true
  standing : s.hand.isFolded p = false
  chips : ∃ stack, s.roster.stack? p = some stack ∧ 0 < stack

/-- The highest bet is the largest, and whoever could bet and owes no action has put it in. -/
structure BetsStand (s : Spot) : Prop where
  highest : s.hand.round.highestBet = s.hand.round.contributions.values.foldr max 0
  matched : ∀ p, s.Behind p → s.hand.round.owesAction p = false →
    s.hand.round.contribution p = s.hand.round.highestBet

end Spot

/-- A moment at which the bets are matched: everybody standing has put in the highest bet, or is
all in for no more than that. Of two or more who could still bet, each has answered the last raise,
or acted if there was none. -/
structure Moment.Fair (m : Moment) : Prop where
  matched : ∀ p, m.spot.hand.isDealtIn p = true → m.spot.hand.isFolded p = false →
    m.spot.hand.round.contribution p = m.spot.hand.round.highestBet ∨
      m.spot.hand.isAllIn p = true ∧ m.spot.roster.stack? p = some 0 ∧
        m.spot.hand.round.contribution p ≤ m.spot.hand.round.highestBet
  answered : ∀ p q, p ≠ q → m.spot.Behind p → m.spot.Behind q → Answered m.deeds p

/-! ## What carries over from move to move -/

section Answered
variable {deeds : List Deed} {d : Deed} {p : PlayerId}

theorem answered_last (hp : d.player = p) : Answered (deeds ++ [d]) p :=
  ⟨deeds, d, [], rfl, hp, by simp⟩

theorem Answered.append (h : Answered deeds p) (hd : d.raised = false) :
    Answered (deeds ++ [d]) p := by
  obtain ⟨earlier, e, later, rfl, hp, hlater⟩ := h
  refine ⟨earlier, e, later ++ [d], by simp, hp, fun x hx => ?_⟩
  rcases List.mem_append.mp hx with hx | hx
  · exact hlater x hx
  · rw [List.mem_singleton.mp hx, hd]

end Answered

/-- Somebody has put in the highest bet. -/
def Round.Attained (b : Round) : Prop := ∃ p, b.contribution p = b.highestBet

/-- It takes a bet that is as high to make it the highest. -/
theorem Round.Attained.of_bet {b b' : Round} {p : PlayerId} {chips : Chips} (h : b.Attained)
    (hbets : b'.contributions = b.contributions.addChips p chips)
    (hhighest : b'.highestBet = max b.highestBet (b.contribution p + chips)) : b'.Attained := by
  have hbet : ∀ q, b'.contribution q = b.contribution q + if q = p then chips else 0 := fun q => by
    rw [contribution, hbets]
    exact NatMap.chips_addChips
  rcases Nat.le_total b.highestBet (b.contribution p + chips) with hle | hle
  · exact ⟨p, by rw [hbet, if_pos rfl, hhighest, Nat.max_eq_right hle]⟩
  · obtain ⟨q, hq⟩ := h
    refine ⟨q, ?_⟩
    rw [hbet, hhighest, Nat.max_eq_left hle]
    split
    · next heq => subst heq; lia
    · exact hq

/-- What holds of a round and the deeds in it: somebody has put in the highest bet, and whoever can
act and owes no action has answered. -/
structure Hand.Follows (h : Hand) (deeds : List Deed) : Prop where
  attained : h.round.Attained
  answered : ∀ p ∈ h.ableToAct, p ∉ h.round.pending → Answered deeds p

theorem Hand.Untouched.follows {h : Hand} (hu : h.Untouched) : h.Follows [] where
  attained := ⟨0, by rw [Round.contribution, hu.bets, hu.highest]; rfl⟩
  answered p hp hnot := absurd (hu.asked p hp) hnot

namespace Spot
variable {s s' mid : Spot} {p q : PlayerId} {plan : Plan} {deeds : List Deed}

/-- After a plan of `p` nobody else is through who was not before, and then the bet is as it was. -/
theorem pending_roundAfter {h : Hand} (hfit : s.Fits p plan) (hable : q ∈ h.ableToAct)
    (hnot : q ∉ (roundAfter h plan).pending) :
    q = p ∨ q ∉ h.round.pending ∧ (roundAfter h plan).highestBet = h.round.highestBet := by
  have hsettled : ∀ {b : Round}, q ∉ (b.settleAction p).pending → q = p ∨ q ∉ b.pending :=
    fun hq => or_iff_not_imp_left.mpr fun hne hin => hq (NatSet.mem_erase.mpr ⟨hin, hne⟩)
  cases plan with
  | check r =>
      obtain rfl : r = p := hfit.1
      exact (hsettled hnot).imp_right fun hq => ⟨hq, rfl⟩
  | fold r =>
      obtain rfl : r = p := hfit
      exact (hsettled hnot).imp_right fun hq => ⟨hq, rfl⟩
  | commit r a chips allIn =>
      obtain rfl : r = p := hfit.1
      refine (hsettled hnot).imp_right fun hq => ?_
      -- A raise asks everybody who is able, so nobody else is through after one.
      rcases Round.pending_raiseOrCall h.round r chips h.ableToAct with ⟨-, hask⟩ | ⟨hle, hsame⟩
      · exact absurd (hask ▸ NatSet.mem_ofList.mpr hable) hq
      · exact ⟨hsame ▸ hq, (Round.highestBet_raiseOrCall ..).trans (Nat.max_eq_left hle)⟩

theorem attained_roundAfter {h : Hand} (hatt : h.round.Attained) :
    (roundAfter h plan).Attained := by
  cases plan with
  | check p | fold p => exact hatt
  | commit p a chips allIn =>
      exact hatt.of_bet (Round.contributions_raiseOrCall ..) (Round.highestBet_raiseOrCall ..)

/-- An accepted action carries over what holds of a round, and is written down. -/
theorem Alters.follows (ha : s.Alters mid (roundAfter s.hand plan)) (hfit : s.Fits p plan)
    (hf : s.hand.Follows deeds) :
    mid.hand.Follows (deeds ++
      [{ player := p, raised := s.hand.round.highestBet < mid.hand.round.highestBet }]) where
  attained := ha.round ▸ attained_roundAfter hf.attained
  answered q hq hnot := by
    have hable := ha.able hq
    rw [ha.round] at hnot ⊢
    rcases pending_roundAfter hfit hable hnot with rfl | ⟨hthrough, hsame⟩
    · exact answered_last rfl
    · exact (hf.answered q hable hthrough).append (by simp [hsame])

/-- So does a departure, of which nothing is written down. -/
theorem TakesOut.follows {goesOn : Bool} (ht : s.TakesOut p mid goesOn)
    (hf : s.hand.Follows deeds) : mid.hand.Follows deeds := by
  obtain ⟨news, hdeparts⟩ := ht.departs
  rcases hdeparts.alters with ha | ha
  · exact
      { attained := ha.round ▸ hf.attained
        answered := fun q hq hnot => hf.answered q (ha.able hq) (ha.round ▸ hnot) }
  · -- Whoever else was asked still is, and the leaver cannot act any more.
    refine { attained := ha.round ▸ hf.attained, answered := fun q hq hnot => ?_ }
    refine hf.answered q (ha.able hq) fun hpend => hnot ?_
    have hin := ht.steady.places.turns_subset (Hand.mem_ableToAct.mp hq).1
    rw [ha.round]
    exact NatSet.mem_erase.mpr ⟨hpend, ne_of_mem_of_not_mem hin hdeparts.out⟩

/-- Moving on carries it over too, into a new round if the old one was closed. -/
theorem Advances.follows {closings : List Spot} (h : Advances s s' closings)
    (hf : s.hand.Follows deeds) (hover : s'.hand.isOver = false) :
    s'.hand.Follows (if closings.isEmpty then deeds else []) := by
  rcases h.ends with hend | ⟨rfl, hround, hable⟩ | ⟨hne, huntouched⟩
  · rw [hover] at hend
    cases hend
  · exact
      { attained := hround ▸ hf.attained
        answered := fun p hp hnot => hf.answered p (hable ▸ hp) (hround ▸ hnot) }
  · rw [if_neg (by simpa using hne)]
    exact huntouched.follows

/-! ## Rounds are fair when they close -/

theorem behind_iff (hp : s.hand.Places s.roster) : s.Behind p ↔ p ∈ s.hand.ableToAct := by
  constructor
  · rintro ⟨hdealt, hstands, stack, hstack, hpos⟩
    have hturn := hp.mem_turns_iff.mpr ⟨hdealt, hstands⟩
    refine Hand.mem_ableToAct.mpr ⟨hturn, Bool.eq_false_iff.mpr fun hall => ?_⟩
    rw [(hp.allIn_iff p hturn).mp hall, Option.some_inj] at hstack
    lia
  · intro hable
    obtain ⟨hdealt, hstands⟩ := hp.mem_turns_iff.mp (Hand.mem_ableToAct.mp hable).1
    exact ⟨hdealt, hstands, hp.stack_pos hable⟩

/-- If betting is over there are no two who could still bet. -/
theorem eq_of_bettingIsOver {h : Hand} (hover : h.bettingIsOver = true) (hp : p ∈ h.ableToAct)
    (hq : q ∈ h.ableToAct) : p = q := by
  unfold Hand.bettingIsOver at hover
  split at hover
  · next hnil => simp [hnil] at hp
  · next r hone =>
      rw [hone, List.mem_singleton] at hp hq
      rw [hp, hq]
  · cases hover

theorem Closes.fair (hc : s.Closes) (hf : s.hand.Follows deeds) : Moment.Fair ⟨s, deeds⟩ where
  matched p hdealt hstands := by
    have hturn := hc.steady.places.mem_turns_iff.mpr ⟨hdealt, hstands⟩
    cases hall : s.hand.isAllIn p with
    | true =>
        exact .inr ⟨rfl, (hc.steady.places.allIn_iff p hturn).mp hall, hc.steady.bets.highest p⟩
    | false =>
        exact .inl (hc.steady.bets.matched_of_done hc.idle (Hand.mem_ableToAct.mpr ⟨hturn, hall⟩))
  answered p q hne hp hq := by
    have hpable := (behind_iff hc.steady.places).mp hp
    have hqable := (behind_iff hc.steady.places).mp hq
    -- Betting is not over while two could bet, so it is that nobody owes an action.
    have hclosed : s.hand.round.isClosed = true := by
      cases hopen : s.hand.round.isClosed with
      | true => rfl
      | false => exact absurd (eq_of_bettingIsOver (hc.idle hopen) hpable hqable) hne
    exact hf.answered p hpable (NatSet.isEmpty_iff.mp hclosed p)

/-- Every round that closes as a hand moves on is fair: the first one by what was done in it, the
later ones since nobody was left to bet. -/
theorem Advances.fair {closings : List Spot} (h : Advances s s' closings)
    (hf : s.hand.Follows deeds) : ∀ m ∈ momentsOf deeds closings, m.Fair := by
  intro m hm
  rcases h.later with rfl | ⟨rest, rfl, hrest⟩
  · cases hm
  · rcases List.mem_cons.mp hm with rfl | hm
    · exact (h.closes s List.mem_cons_self).fair hf
    · obtain ⟨c, hc, rfl⟩ := List.mem_map.mp hm
      exact (h.closes c (List.mem_cons_of_mem _ hc)).fair (hrest c hc).follows

theorem map_upNext_momentsOf (deeds : List Deed) (closings : List Spot) :
    (momentsOf deeds closings).map (fun m => m.spot.upNext) = closings.map upNext := by
  cases closings with
  | nil => rfl
  | cons c rest => simp [momentsOf, Function.comp_def]

/-! ## From move to move -/

/-- What a move leaves behind of a hand and of what was written down. -/
structure Records (s : Spot) (deeds : List Deed) (m : Move) : Prop where
  fair : ∀ x ∈ momentsOf (deeds ++ (s.deed? m).toList) (s.closedBy m), x.Fair
  told : (s.move m).1.hand.closed = s.hand.closed ++ (s.closedBy m).map upNext
  follows : (s.move m).1.hand.isOver = false →
    (s.move m).1.hand.Follows
      (if (s.closedBy m).isEmpty then deeds ++ (s.deed? m).toList else [])

variable {a : Action} {m : Move}

/-- Where the hand does not move on, no round closes and nothing is written down. -/
theorem records_of_stay (hnone : s.movesOnFrom m = none)
    (htold : (s.move m).1.hand.closed = s.hand.closed)
    (hf : (s.move m).1.hand.isOver = false → (s.move m).1.hand.Follows deeds) :
    Records s deeds m := by
  have hclosed : s.closedBy m = [] := by rw [closedBy, hnone]; rfl
  have hdeed : s.deed? m = none := by
    cases m <;> simp [deed?, hnone]
  constructor
  · rw [hclosed]
    simp [momentsOf]
  · rw [hclosed, htold]
    simp
  · rw [hclosed, hdeed]
    simpa using hf

/-- Where the hand moves on, what it goes through is written down. -/
theorem records_of_goesOn (hmid : s.movesOnFrom m = some mid) (hs : mid.hand.Steady mid.roster)
    (hadvance : mid.advance = s'.done) (hmove : (s.move m).1.hand = s'.hand)
    (htold : mid.hand.closed = s.hand.closed)
    (hf : mid.hand.Follows (deeds ++ (s.deed? m).toList)) : Records s deeds m := by
  have hclosed : s.closedBy m = mid.closings := by rw [closedBy, hmid]; rfl
  have hadv := advance_advances hs hadvance
  constructor
  · rw [hclosed]
    exact hadv.fair hf
  · rw [hclosed, hmove, hadv.told, htold]
  · rw [hclosed, hmove]
    exact hadv.follows hf

/-- An accepted action is carried out, and then the hand moves on. -/
theorem act_goesOn (hl : s.hand.Live s.roster) (hv : s.validate p a = .ok plan) :
    ∃ mid s' : Spot, s.movesOnFrom (.act p a) = some mid ∧
      s.Alters mid (roundAfter s.hand plan) ∧ mid.hand.Steady mid.roster ∧
      mid.advance = s'.done ∧ s.act p a = s'.done := by
  obtain ⟨hturn, hfit⟩ := fits_of_accepted hl.toAwake hv
  obtain ⟨news, mid, hcarry, hacts, hsteady⟩ := carryOut_spec hl.toAwake hturn hfit
  obtain ⟨s', hs', -⟩ := advance_spec hsteady (hacts.alters.stocked hl.stocked)
  refine ⟨mid, s', by simp [movesOnFrom, hv, hcarry, done], hacts.alters, hsteady, hs', ?_⟩
  rw [act_eq_apply hv, apply_eq, hcarry, ← hs']
  rfl

theorem records_of_act (hl : s.hand.Live s.roster) (hf : s.hand.Follows deeds) (p : PlayerId)
    (a : Action) : Records s deeds (.act p a) := by
  cases hv : s.validate p a with
  | error e =>
      have hmove : s.move (.act p a) = s.fail e := act_eq_fail hv
      refine records_of_stay (by simp [movesOnFrom, hv]) ?_ fun _ => ?_
      · rw [hmove]; rfl
      · rw [hmove]; exact hf
  | ok plan =>
      obtain ⟨mid, s', hmid, halters, hsteady, hs', hact⟩ := act_goesOn hl hv
      refine records_of_goesOn hmid hsteady hs' (by rw [move, hact]; rfl) halters.closed ?_
      simp only [deed?, hmid]
      exact halters.follows (fits_of_accepted hl.toAwake hv).2 hf

theorem records_of_leave (hl : s.hand.Live s.roster) (hf : s.hand.Follows deeds)
    (p : PlayerId) : Records s deeds (.leave p) := by
  obtain ⟨mid, goesOn, htakeOut, htakes⟩ := takeOut_spec hl.toAwake p
  obtain ⟨news, hdeparts⟩ := htakes.departs
  have hclosed : mid.hand.closed = s.hand.closed :=
    hdeparts.alters.elim (·.closed) (·.closed)
  have hremove : s.removePlayer p = goOn (mid.done, goesOn) := by
    rw [removePlayer_goesOn, htakeOut]
  cases goesOn with
  | false =>
      have hmove : (s.move (.leave p)).1.hand = mid.hand := by
        simp only [move, hremove, goOn, done]
      refine records_of_stay (by simp [movesOnFrom, htakeOut]) (by rw [hmove, hclosed]) fun _ => ?_
      rw [hmove]
      exact htakes.follows hf
  | true =>
      obtain ⟨s', hs', -⟩ := advance_spec htakes.steady
        (hdeparts.alters.elim (·.stocked hl.stocked) (·.stocked hl.stocked))
      have hmove : (s.move (.leave p)).1.hand = s'.hand := by
        simp only [move, hremove, goOn, andThen, done, hs']
      refine records_of_goesOn (by simp [movesOnFrom, htakeOut, done]) htakes.steady hs' hmove
        hclosed ?_
      simpa [deed?] using htakes.follows hf

theorem records_of_live (hl : s.hand.Live s.roster) (hf : s.hand.Follows deeds) (m : Move) :
    Records s deeds m := by
  cases m with
  | act p a => exact records_of_act hl hf p a
  | leave p => exact records_of_leave hl hf p
  | sitDown p name stack wanted =>
      have hsame : (s.move (.sitDown p name stack wanted)).1.hand = s.hand := by
        simp only [move]
        split <;> rfl
      exact records_of_stay rfl (by rw [hsame]) fun _ => hsame ▸ hf

/-- Nothing more happens in a hand that is over. -/
theorem records_of_over (hv : s.roster.Valid) (hover : s.hand.isOver = true) (m : Move) :
    Records s deeds m := by
  have hsame := (move_of_over hv hover m).2
  refine records_of_stay ?_ (by rw [hsame]) fun hlive => ?_
  · cases m with
    | act p a => simp only [movesOnFrom, validate_of_over hover]
    | leave p => simp only [movesOnFrom, takeOut, if_pos hover, done]
    | sitDown p name stack wanted => rfl
  · rw [hsame, hover] at hlive
    cases hlive

/-- The actions that are written down are those that are accepted. -/
theorem isSome_deed?_act (hplay : s.InPlay) (p : PlayerId) (a : Action) :
    (s.deed? (.act p a)).isSome = true ↔ ∃ s' : Spot, s.act p a = s'.done := by
  cases hv : s.validate p a with
  | error e =>
      have hnone : s.deed? (.act p a) = none := by simp [deed?, movesOnFrom, hv]
      rw [hnone, act_eq_fail hv]
      constructor
      · intro h; cases h
      · rintro ⟨s', h⟩; cases h
  | ok plan =>
      have hl := hplay.live (Hand.not_over_of_current (validate_ok hv).1)
      obtain ⟨mid, s', hmid, -, -, -, hact⟩ := act_goesOn hl hv
      exact iff_of_true (by simp [deed?, hmid]) ⟨s', hact⟩

/-- A round closes at a spot in a move. The spot is one that the hand comes to, once the move has
changed what it changes by itself, and what becomes of the move is what becomes of the hand from
there on. -/
structure ClosesIn (s : Spot) (m : Move) (c : Spot) : Prop where
  done : c.RoundDone
  comes : ∃ mid, s.movesOnFrom m = some mid ∧ mid.ComesTo c
  acts : ∀ p a, m = .act p a → s.act p a = c.advance
  leaves : ∀ p, m = .leave p → s.removePlayer p = c.advance

/-- A move from which the hand moves on leaves it to that. -/
theorem advance_of_movesOnFrom (hmid : s.movesOnFrom m = some mid) :
    (∀ p a, m = .act p a → s.act p a = mid.advance) ∧
      ∀ p, m = .leave p → s.removePlayer p = mid.advance := by
  constructor
  · rintro p a rfl
    unfold movesOnFrom at hmid
    dsimp only at hmid
    split at hmid
    · cases hmid
    · next plan hv =>
        split at hmid
        · next hcarry =>
            cases hmid
            rw [act_eq_apply hv, apply_eq, hcarry]
            rfl
        · cases hmid
  · rintro p rfl
    unfold movesOnFrom at hmid
    dsimp only at hmid
    split at hmid
    · next htakes =>
        cases hmid
        rw [removePlayer_goesOn, htakes]
        rfl
    · cases hmid

theorem closesIn_of_mem {c : Spot} (hc : c ∈ s.closedBy m) : s.ClosesIn m c := by
  unfold closedBy at hc
  cases hmid : s.movesOnFrom m with
  | none => rw [hmid] at hc; cases hc
  | some mid =>
      rw [hmid] at hc
      obtain ⟨hcomes, hdone, hsame⟩ := comesTo_of_mem_closings hc
      obtain ⟨hacts, hleaves⟩ := advance_of_movesOnFrom hmid
      exact ⟨hdone, ⟨mid, hmid, hcomes⟩, fun p a hm => (hacts p a hm).trans hsame,
        fun p hm => (hleaves p hm).trans hsame⟩

theorem spot_mem_of_mem_momentsOf {closings : List Spot} {x : Moment}
    (hx : x ∈ momentsOf deeds closings) : x.spot ∈ closings := by
  cases closings with
  | nil => cases hx
  | cons c rest =>
      rcases List.mem_cons.mp hx with rfl | hx
      · exact List.mem_cons_self
      · obtain ⟨c, hc, rfl⟩ := List.mem_map.mp hx
        exact List.mem_cons_of_mem _ hc

/-- Every round that closes does so in one of the moves. -/
theorem closesIn_of_mem_moments {moves : List Move} {x : Moment} (hx : x ∈ s.moments deeds moves) :
    ∃ before m after, moves = before ++ m :: after ∧ (s.play before).ClosesIn m x.spot := by
  induction moves generalizing s deeds with
  | nil => cases hx
  | cons m rest ih =>
      rcases List.mem_append.mp hx with hnow | hlater
      · exact ⟨[], m, rest, rfl, closesIn_of_mem (spot_mem_of_mem_momentsOf hnow)⟩
      · obtain ⟨before, m', after, rfl, hcloses⟩ := ih hlater
        exact ⟨m :: before, m', after, rfl, hcloses⟩

/-- Over a whole run: every round that closes is fair, and those are the rounds that are told to
have closed. The induction is over the moves, and what is written down goes along. -/
theorem play_records (hplay : s.InPlay) (hf : s.hand.isOver = false → s.hand.Follows deeds)
    (moves : List Move) :
    (∀ x ∈ s.moments deeds moves, x.Fair) ∧
      (s.play moves).hand.closed =
        s.hand.closed ++ (s.moments deeds moves).map (fun x => x.spot.upNext) ∧
      ((s.play moves).hand.isOver = false → ∃ deeds, (s.play moves).hand.Follows deeds) := by
  induction moves generalizing s deeds with
  | nil => exact ⟨by simp [moments], by simp [moments, play], fun hlive => ⟨deeds, hf hlive⟩⟩
  | cons m rest ih =>
      have hrec : Records s deeds m := by
        rcases hplay.goes with hl | hover
        · exact records_of_live hl (hf hl.not_over) m
        · exact records_of_over hplay.valid hover m
      obtain ⟨hfair, htold, hfollows⟩ := ih (hplay.move m) hrec.follows
      refine ⟨fun x hx => ?_, ?_, hfollows⟩
      · exact (List.mem_append.mp hx).elim (hrec.fair x) (hfair x)
      · rw [moments, List.map_append, map_upNext_momentsOf, ← List.append_assoc, ← hrec.told]
        exact htold

/-- Between two actions the bets stand. -/
theorem betsStand_of_follows (hl : s.hand.Live s.roster) (hf : s.hand.Follows deeds) :
    s.BetsStand where
  highest := NatMap.eq_largest hl.bets.highest hf.attained
  matched p hbehind hsettled := by
    refine hl.bets.matched p ((behind_iff hl.places).mp hbehind) fun hpend => ?_
    rw [Round.owesAction_iff.mpr hpend] at hsettled
    cases hsettled

end Spot

/-! ## From the deal on -/

namespace Hand
variable {s : Spot}

/-- A blind is a bet, of which nothing is told yet. -/
theorem postBlind_follows (p : PlayerId) (amount : Chips) (hatt : s.hand.round.Attained) :
    (postBlind s p amount).1.hand.round.Attained ∧
      (postBlind s p amount).1.hand.closed = s.hand.closed := by
  have hround : (postBlind s p amount).1.hand.round =
      s.hand.round.postBlind p (min amount ((s.roster.stack? p).getD 0)) := by
    simp only [postBlind]
    split <;> rfl
  constructor
  · rw [hround]
    refine hatt.of_bet rfl ?_
    simp only [Round.postBlind, Round.contribution_commit, if_true]
    rfl
  · simp only [postBlind]
    split <;> rfl

/-- With the blinds posted, everybody able is asked. -/
theorem opening_follows (pos : Positions) (hatt : s.hand.round.Attained) :
    (opening s pos).hand.Follows [] ∧ (opening s pos).hand.closed = s.hand.closed := by
  obtain ⟨hsmall, htold⟩ := postBlind_follows pos.smallBlind s.hand.blinds.small hatt
  obtain ⟨hbig, htold'⟩ := postBlind_follows pos.bigBlind
    (postBlind s pos.smallBlind s.hand.blinds.small).1.hand.blinds.big hsmall
  refine ⟨⟨hbig, fun p hp hnot => absurd (NatSet.mem_ofList.mpr ?_) hnot⟩, ?_⟩
  · obtain ⟨hturn, hall⟩ := mem_ableToAct.mp hp
    exact mem_ableToAct.mpr ⟨(TurnOrder.order_turnedTo ..) ▸ hturn, hall⟩
  · refine (closed_emitPot _).trans ((closed_emit _ _).trans ((List.append_nil _).trans ?_))
    exact htold'.trans htold

/-- A round closes at a spot of a run: as the hand that was opened moves on to its first prompt, or in
one of the moves after it. -/
inductive ClosesAt (number : Nat) (r : Roster) (dealer : PlayerId) (blinds : Blinds) (deck : Deck)
    (ev : Evaluator) (s : Spot) (moves : List Move) (c : Spot) : Prop
  | opening {hand : Hand} {pos : Positions} :
      setUp number r dealer blinds deck.reset = .ok (hand, pos) →
      (opening { hand, roster := r, evaluator := ev } pos).ComesTo c → c.RoundDone →
      c.advance = s.done → ClosesAt number r dealer blinds deck ev s moves c
  | move {before after : List Move} {m : Move} : moves = before ++ m :: after →
      (s.play before).ClosesIn m c → ClosesAt number r dealer blinds deck ev s moves c

/-- Every round of a hand that closes, for a street or for hands to be shown, is fair, and it is
told what it made way for. As long as the hand is played its bets stand. The spots at which rounds
close are those of the run, and what is written down are the actions that are accepted. -/
theorem rounds_close_matched (r r' : Roster) (dealer : PlayerId) (number : Nat) (blinds : Blinds)
    (deck : Deck) (ev ev' : Evaluator) (h : Hand) (hv : r.Valid)
    (hmost : r.funded.length ≤ maxSeats) (hdeck : Card.fullDeck.length ≤ deck.cards.size)
    (hstart : start number r dealer blinds deck ev = (r', ev', .ok h)) (moves : List Move) :
    (∀ x ∈ moments number r dealer blinds deck ev moves, x.Fair) ∧
      (Spot.play ⟨h, r', ev'⟩ moves).hand.closed =
        (moments number r dealer blinds deck ev moves).map (fun x => x.spot.upNext) ∧
      ((Spot.play ⟨h, r', ev'⟩ moves).hand.isOver = false →
        (Spot.play ⟨h, r', ev'⟩ moves).BetsStand) ∧
      (∀ x ∈ moments number r dealer blinds deck ev moves,
        ClosesAt number r dealer blinds deck ev ⟨h, r', ev'⟩ moves x.spot) ∧
      ∀ p a, ((Spot.play ⟨h, r', ev'⟩ moves).deed? (.act p a)).isSome = true ↔
        ∃ s : Spot, (Spot.play ⟨h, r', ev'⟩ moves).act p a = s.done := by
  have hsuffices := deckSuffices_reset hdeck hmost
  have hplay := Spot.InPlay.of_begun hv (begun_of_deal hv hsuffices hstart)
  obtain ⟨pos, news, hsetUp, hopened, hadvance⟩ := opened_of_deal hv hstart
  let d := freshSpot number r dealer pos blinds deck.reset ev
  obtain ⟨hfollows, hclosed⟩ := opening_follows (s := d) pos ⟨0, rfl⟩
  have hadv := Spot.advance_advances (hopened.opens.steady hopened.dealt) hadvance
  have hstarted : h.isOver = false → h.Follows [] := fun hlive => by
    simpa only [ite_self] using hadv.follows hfollows hlive
  obtain ⟨hfair, htold, hends⟩ := Spot.play_records hplay hstarted moves
  have hmoments : moments number r dealer blinds deck ev moves =
      Spot.momentsOf [] (opening d pos).closings ++ Spot.moments ⟨h, r', ev'⟩ [] moves := by
    simp only [moments, hsetUp]
    unfold freshSpot at hadvance
    rw [hadvance]
    rfl
  refine ⟨fun x hx => ?_, ?_, fun hlive => ?_, fun x hx => ?_, Spot.isSome_deed?_act (hplay.play moves)⟩
  · rw [hmoments] at hx
    exact (List.mem_append.mp hx).elim (hadv.fair hfollows x) (hfair x)
  · rw [hmoments, List.map_append, Spot.map_upNext_momentsOf, htold, hadv.told, hclosed]
    rfl
  · obtain ⟨deeds, hf⟩ := hends hlive
    refine Spot.betsStand_of_follows ((hplay.play moves).goes.resolve_right fun hover => ?_) hf
    rw [hlive] at hover
    cases hover
  · rw [hmoments] at hx
    rcases List.mem_append.mp hx with hopening | hlater
    · obtain ⟨hcomes, hdone, hsame⟩ :=
        Spot.comesTo_of_mem_closings (Spot.spot_mem_of_mem_momentsOf hopening)
      exact .opening hsetUp hcomes hdone (hsame.symm.trans hadvance)
    · obtain ⟨before, m, after, hmoves, hcloses⟩ := Spot.closesIn_of_mem_moments hlater
      exact .move hmoves hcloses

/-- Three players, of whom the second has less than the big blind. -/
def shortSeated : Roster :=
  { seats := [some ⟨1, "ann", 500, 0⟩, some ⟨2, "bob", 7, 1⟩, some ⟨3, "carl", 700, 2⟩] }

theorem rounds_close_matched_short_stack :
    ∃ s : Spot, start 1 shortSeated 1 ⟨5, 10⟩ (.seeded 7) { value := fun _ => HandValue.best } =
        (s.roster, s.evaluator, .ok s.hand) ∧
      ∀ moves, (∀ x ∈ moments 1 shortSeated 1 ⟨5, 10⟩ (.seeded 7)
          { value := fun _ => HandValue.best } moves, x.Fair) ∧
        (s.play moves).hand.closed = (moments 1 shortSeated 1 ⟨5, 10⟩ (.seeded 7)
          { value := fun _ => HandValue.best } moves).map (fun x => x.spot.upNext) ∧
        ((s.play moves).hand.isOver = false → (s.play moves).BetsStand) ∧
        (∀ x ∈ moments 1 shortSeated 1 ⟨5, 10⟩ (.seeded 7)
          { value := fun _ => HandValue.best } moves,
          ClosesAt 1 shortSeated 1 ⟨5, 10⟩ (.seeded 7) { value := fun _ => HandValue.best } s moves
            x.spot) ∧
        ∀ p a, ((s.play moves).deed? (.act p a)).isSome = true ↔
          ∃ s' : Spot, (s.play moves).act p a = s'.done := by
  have hv : shortSeated.Valid := by decide
  have hdeck : Card.fullDeck.length ≤ (Deck.seeded 7).cards.size := Nat.le_of_eq rfl
  have hdealer : 1 ∈ shortSeated.funded := by decide
  obtain ⟨s, hs, -⟩ := deal_spec 1 ⟨5, 10⟩ { value := fun _ => HandValue.best } hv (by decide)
    hdealer (deckSuffices_reset hdeck (by decide)) (by decide)
  exact ⟨s, hs, rounds_close_matched shortSeated s.roster 1 1 ⟨5, 10⟩ (.seeded 7) _ s.evaluator
    s.hand hv (by decide) hdeck hs⟩

-- The second is all in for less, and when the third gets up the first has nobody to bet against.
example : (moments 1 shortSeated 1 ⟨5, 10⟩ (.seeded 7) { value := fun _ => HandValue.best }
    [.act 1 (.raise 30), .act 2 .allIn, .act 3 .call, .act 3 .check, .act 1 (.bet 20),
      .leave 3]).map (fun x => (x.spot.upNext, x.deeds)) =
    [(.flop, [⟨1, true⟩, ⟨2, false⟩, ⟨3, false⟩]), (.turn, [⟨3, false⟩, ⟨1, true⟩]), (.river, []),
      (.showdown, [])] := by decide +kernel

end Hand
end Holdem
