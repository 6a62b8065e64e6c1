import Holdem.Proofs.Hand.Progress
import Holdem.Proofs.Hand.Stages

/-!
# Rounds that close while a hand moves on

A hand that moves on may close several rounds at once: once nobody is left to bet, the streets that
remain are dealt one after the other. Here are the spots at which this happens, what is told of
it, and in which state a new round begins.
-/
namespace Holdem

theorem TurnOrder.order_setCurrent {t t' : TurnOrder} {p : PlayerId}
    (h : t.setCurrent p = .ok t') : t'.order = t.order := by
  unfold setCurrent at h
  cases hplace : t.place p with
  | error e => rw [hplace] at h; cases h
  | ok i => rw [hplace] at h; cases h; rfl

theorem TurnOrder.order_turnedTo (t : TurnOrder) (p : PlayerId) :
    ((t.setCurrent p).toOption.getD t).order = t.order := by
  cases hset : t.setCurrent p with
  | error e => rfl
  | ok t' => exact order_setCurrent hset

namespace Hand

/-- A round in which nobody has acted yet and nothing was put in. -/
structure Untouched (h : Hand) : Prop where
  bets : h.round.contributions = ∅
  highest : h.round.highestBet = 0
  asked : ∀ p ∈ h.ableToAct, p ∈ h.round.pending

theorem Untouched.of_same {h h' : Hand} (hu : h.Untouched) (hround : h'.round = h.round)
    (hable : h'.ableToAct = h.ableToAct) : h'.Untouched where
  bets := hround ▸ hu.bets
  highest := hround ▸ hu.highest
  asked p hp := by
    rw [hround]
    exact hu.asked p (hable ▸ hp)

end Hand

namespace Spot

/-- The spots at which rounds close on the way through the streets, in turn. -/
def closingsThrough : List (Phase × Nat) → Spot → List Spot
  | streets, s =>
      if s.hand.turns.size ≤ 1 then []
      else if !s.hand.round.isClosed && !s.hand.bettingIsOver then []
      else
        s :: match streets with
          | [] => []
          | (phase, count) :: later =>
              match (s.mapHand Hand.collectRound).dealStreet phase count with
              | (s, .ok ()) => closingsThrough later s
              | (_, .error _) => []

/-- The spots at which rounds close while a hand moves on, each with all the bets of its round. -/
def closings (s : Spot) : List Spot := closingsThrough s.hand.phase.streets s

/-- What a round makes way for. -/
def upNext (s : Spot) : Phase := (s.hand.phase.nextStreet.map Prod.fst).getD .showdown

/-- A contested hand whose round is done collects the bets, as the first thing it does to move on. -/
def RoundDone (s : Spot) : Prop :=
  ¬ s.hand.turns.size ≤ 1 ∧ (s.hand.round.isClosed = true ∨ s.hand.bettingIsOver = true)

/-- A hand that moves on from a spot comes to another one. In between streets are dealt, each when
the round before it is done. -/
inductive ComesTo : Spot → Spot → Prop
  | here {s : Spot} : ComesTo s s
  | street {s mid c : Spot} {phase : Phase} {count : Nat} :
      s.RoundDone → s.hand.phase.nextStreet = some (phase, count) →
      (s.mapHand Hand.collectRound).dealStreet phase count = mid.done → ComesTo mid c → ComesTo s c

/-- A contested hand in order whose round is done. -/
structure Closes (s : Spot) : Prop where
  steady : s.hand.Steady s.roster
  contested : 1 < s.hand.turns.order.length
  idle : s.hand.round.isClosed = false → s.hand.bettingIsOver = true

theorem phase_of_dealStreet {s s' : Spot} {phase : Phase} {count : Nat}
    (h : s.dealStreet phase count = s'.done) : s'.hand.phase = phase := by
  unfold dealStreet at h
  dsimp only at h
  split at h
  · cases h
  · cases h
    show (openStreet _ phase).round.phase = phase
    unfold openStreet
    dsimp only
    split <;> rfl

/-- No round closes but when it is done. -/
theorem roundDone_of_mem_closingsThrough {streets : List (Phase × Nat)} {s c : Spot}
    (hc : c ∈ closingsThrough streets s) : s.RoundDone ∧ ¬ s.hand.turns.size ≤ 1 ∧
      ¬ (!s.hand.round.isClosed && !s.hand.bettingIsOver) = true := by
  unfold closingsThrough at hc
  split at hc
  · cases hc
  · next hsize =>
      split at hc
      · cases hc
      · next hidle => exact ⟨⟨hsize, by simpa [or_iff_not_imp_left] using hidle⟩, hsize, hidle⟩

/-- The hand comes to every spot at which a round closes, and from there it moves on just as it does
from the spot where it began. The induction is over the streets still to be dealt. -/
theorem comesTo_of_mem_closingsThrough {streets : List (Phase × Nat)} {s c : Spot}
    (hstreets : s.hand.phase.streets = streets) (hc : c ∈ closingsThrough streets s) :
    s.ComesTo c ∧ c.RoundDone ∧ advanceThrough streets s = c.advance := by
  induction streets generalizing s with
  | nil =>
      obtain ⟨hdone, hsize, hidle⟩ := roundDone_of_mem_closingsThrough hc
      rw [closingsThrough, if_neg hsize, if_neg hidle] at hc
      cases List.mem_singleton.mp hc
      exact ⟨.here, hdone, by rw [advance, hstreets]⟩
  | cons street later ih =>
      obtain ⟨phase, count⟩ := street
      obtain ⟨hdone, hsize, hidle⟩ := roundDone_of_mem_closingsThrough hc
      rw [closingsThrough, if_neg hsize, if_neg hidle] at hc
      rcases List.mem_cons.mp hc with rfl | hlater
      · exact ⟨.here, hdone, by rw [advance, hstreets]⟩
      · split at hlater
        · next mid hdeal =>
            have hphase : mid.hand.phase.streets = later := by
              rw [phase_of_dealStreet hdeal]
              exact Phase.streets_of_streets_eq_cons hstreets
            obtain ⟨hcomes, hround, hsame⟩ := ih hphase hlater
            refine ⟨.street hdone (congrArg List.head? hstreets) hdeal hcomes, hround, ?_⟩
            rw [← hsame, advanceThrough, if_neg hsize, if_neg hidle]
            simp only [hdeal]
        · cases hlater

/-- What becomes of a hand that moves on is what becomes of it from any spot on its way. -/
theorem comesTo_of_mem_closings {s c : Spot} (hc : c ∈ s.closings) :
    s.ComesTo c ∧ c.RoundDone ∧ s.advance = c.advance :=
  comesTo_of_mem_closingsThrough rfl hc

/-! ## What is told -/

section Told
variable {s s' : Spot}

theorem settle_told {payouts : Payouts} {shown : NatMap ShownHand}
    (h : s.settle payouts shown = s'.done) :
    s'.hand.isOver = true ∧
      s'.hand.closed = s.hand.closed ++ if shown.entries.isEmpty then [] else [.showdown] := by
  unfold settle at h
  split at h
  · cases h
  · cases h
    refine ⟨rfl, (Hand.closed_emit ..).trans ?_⟩
    rw [GameEvent.closes?]
    split <;> rfl

theorem finishUncontested_told (h : s.finishUncontested = s'.done) :
    s'.hand.isOver = true ∧ s'.hand.closed = s.hand.closed := by
  unfold finishUncontested at h
  split at h
  · cases h
  · obtain ⟨hover, htold⟩ := settle_told h
    exact ⟨hover, htold.trans (List.append_nil _)⟩

/-- Hands are shown if there is anybody to show one. -/
theorem showdown_told (hp : s.hand.Places s.roster) (h : s.showdown = s'.done) :
    s'.hand.isOver = true ∧ s'.hand.closed = s.hand.closed ++ [.showdown] := by
  obtain ⟨evaluator, shown, hshow, hshown⟩ :=
    showHands_spec fun p ht => hp.dealt p (hp.turns_subset ht)
  obtain ⟨p, ht, -, -⟩ := TurnOrder.player_of_lt hp.pointer
  have hsome : shown.entries.isEmpty = false := by
    have hmem := NatMap.mem_keys_iff.mpr
      (contains_of_shown (hshown p) ht (hp.dealt p (hp.turns_subset ht)))
    cases hentries : shown.entries with
    | nil => simp [NatMap.keys, hentries] at hmem
    | cons e rest => rfl
  simp only [showdown, hshow] at h
  split at h
  · cases h
  · obtain ⟨hover, htold⟩ := settle_told h
    rw [hsome] at htold
    exact ⟨hover, htold⟩

/-- A prompt changes nothing but whose turn it is. -/
theorem prompt_told (h : s.prompt = s'.done) :
    s'.hand.round = s.hand.round ∧ s'.hand.ableToAct = s.hand.ableToAct ∧
      s'.hand.closed = s.hand.closed := by
  unfold prompt at h
  dsimp only at h
  split at h
  · cases h
  · split at h
    · cases h
    · next p turns hset =>
        cases h
        refine ⟨rfl, ?_, (Hand.closed_emit ..).trans (List.append_nil _)⟩
        show turns.order.filter _ = _
        rw [TurnOrder.order_setCurrent hset]
        rfl

/-- Opening a street changes whose turn it is and the round, in which everybody able is asked. -/
theorem openStreet_told (h : Hand) (phase : Phase) :
    (openStreet h phase).round =
        { phase, minRaise := h.blinds.big, pending := .ofList h.ableToAct } ∧
      (openStreet h phase).ableToAct = h.ableToAct ∧
      (openStreet h phase).events = h.events := by
  simp only [openStreet]
  split
  · exact ⟨rfl, rfl, rfl⟩
  · next first hfind =>
      refine ⟨rfl, ?_, rfl⟩
      show (((h.turns.setCurrent first).toOption.getD h.turns).order).filter _ = _
      rw [TurnOrder.order_turnedTo]
      rfl

/-- A street begins with a round in which nobody has acted. -/
theorem dealStreet_told {phase : Phase} {count : Nat}
    (h : s.dealStreet phase count = s'.done) :
    s'.hand.Untouched ∧ s'.hand.closed = s.hand.closed ++ [phase] := by
  unfold dealStreet at h
  dsimp only at h
  split at h
  · cases h
  · cases h
    obtain ⟨hround, hable, hevents⟩ := openStreet_told
      { s.hand with
        deck := (s.hand.deck.drawUpTo count).2
        board := s.hand.board ++ (s.hand.deck.drawUpTo count).1 } phase
    refine ⟨⟨congrArg Round.contributions hround, congrArg Round.highestBet hround, fun p hp => ?_⟩,
      (Hand.closed_emit ..).trans ?_⟩
    · refine (congrArg (p ∈ ·.pending) hround).mpr (NatSet.mem_ofList.mpr ?_)
      exact hable ▸ hp
    · exact congrArg (·.filterMap GameEvent.closes? ++ [phase]) hevents

end Told

/-! ## What a hand goes through as it moves on -/

/-- A hand that moves on from `s` to `s'` closes the rounds at `closings`. All but the first of
these are rounds in which nobody acted, and so is the round it ends up in if any was closed. -/
structure Advances (s s' : Spot) (closings : List Spot) : Prop where
  closes : ∀ c ∈ closings, c.Closes
  told : s'.hand.closed = s.hand.closed ++ closings.map upNext
  later : closings = [] ∨
    ∃ rest, closings = s :: rest ∧ ∀ c ∈ rest, c.hand.Untouched
  ends : s'.hand.isOver = true ∨
    closings = [] ∧ s'.hand.round = s.hand.round ∧ s'.hand.ableToAct = s.hand.ableToAct ∨
    closings ≠ [] ∧ s'.hand.Untouched

section Advance
variable {s s' : Spot}

/-- One more round before those that a hand closes on its way on. -/
theorem Advances.cons {mid : Spot} {closings : List Spot} (hs : s.Closes)
    (hmid : mid.hand.Untouched) (htold : mid.hand.closed = s.hand.closed ++ [s.upNext])
    (h : Advances mid s' closings) : Advances s s' (s :: closings) where
  closes c hc := by
    rcases List.mem_cons.mp hc with rfl | hc
    · exact hs
    · exact h.closes c hc
  told := by rw [h.told, htold, List.append_assoc]; rfl
  later := .inr ⟨closings, rfl, fun c hc => by
    rcases h.later with rfl | ⟨rest, rfl, hrest⟩
    · cases hc
    · rcases List.mem_cons.mp hc with rfl | hc
      · exact hmid
      · exact hrest c hc⟩
  ends := by
    rcases h.ends with hover | ⟨-, hround, hable⟩ | ⟨-, huntouched⟩
    · exact .inl hover
    · exact .inr (.inr ⟨List.cons_ne_nil _ _, .of_same hmid hround hable⟩)
    · exact .inr (.inr ⟨List.cons_ne_nil _ _, huntouched⟩)

/-- Where a hand stops at once, no round is closed. -/
theorem advances_of_stop {streets : List (Phase × Nat)}
    (hstop : s.hand.turns.size ≤ 1 ∨
      s.hand.round.isClosed = false ∧ s.hand.bettingIsOver = false)
    (h : advanceThrough streets s = s'.done) : Advances s s' (closingsThrough streets s) := by
  unfold advanceThrough at h
  unfold closingsThrough
  by_cases hsize : s.hand.turns.size ≤ 1
  · rw [if_pos hsize] at h ⊢
    obtain ⟨hover, htold⟩ := finishUncontested_told h
    exact ⟨by simp, by simpa using htold, .inl rfl, .inl hover⟩
  · obtain ⟨hopen, hbetting⟩ := hstop.resolve_left hsize
    rw [if_neg hsize, if_pos (by rw [hopen, hbetting]; rfl)] at h ⊢
    obtain ⟨hround, hable, htold⟩ := prompt_told h
    exact ⟨by simp, by simpa using htold, .inl rfl, .inr (.inl ⟨rfl, hround, hable⟩)⟩

/-- Where a hand does not stop, its round is done. -/
theorem stops_or_closes (hs : s.hand.Steady s.roster) :
    (s.hand.turns.size ≤ 1 ∨ s.hand.round.isClosed = false ∧ s.hand.bettingIsOver = false) ∨
      s.Closes := by
  refine or_iff_not_imp_left.mpr fun hstop => ?_
  obtain ⟨hsize, hopen⟩ := not_or.mp hstop
  refine ⟨hs, Nat.lt_of_not_le hsize, fun hround => ?_⟩
  cases hover : s.hand.bettingIsOver with
  | true => rfl
  | false => exact absurd ⟨hround, hover⟩ hopen

theorem Closes.not_stop (hc : s.Closes) : ¬ s.hand.turns.size ≤ 1 ∧
    ¬ (!s.hand.round.isClosed && !s.hand.bettingIsOver) = true := by
  refine ⟨Nat.not_le_of_lt hc.contested, fun hopen => ?_⟩
  rw [Bool.and_eq_true, Bool.not_eq_true', Bool.not_eq_true'] at hopen
  rw [hc.idle hopen.1] at hopen
  cases hopen.2

/-- The induction is over the streets still to be dealt, as it is for the hand itself. -/
theorem advances_through {streets : List (Phase × Nat)} (hs : s.hand.Steady s.roster)
    (hstreets : s.hand.phase.streets = streets) (h : advanceThrough streets s = s'.done) :
    Advances s s' (closingsThrough streets s) := by
  induction streets generalizing s with
  | nil =>
      rcases stops_or_closes hs with hstop | hcloses
      · exact advances_of_stop hstop h
      · obtain ⟨hsize, hidle⟩ := hcloses.not_stop
        rw [advanceThrough, if_neg hsize, if_neg hidle] at h
        rw [closingsThrough, if_neg hsize, if_neg hidle]
        obtain ⟨hover, htold⟩ := showdown_told hs.places.collectRound h
        have hnext : s.upNext = .showdown := by
          rw [upNext, Phase.nextStreet, hstreets]
          rfl
        exact
          { closes := by simpa using hcloses
            told := by rw [htold, List.map_singleton, hnext]; rfl
            later := .inr ⟨[], rfl, by simp⟩
            ends := .inl hover }
  | cons street later ih =>
      obtain ⟨phase, count⟩ := street
      rcases stops_or_closes hs with hstop | hcloses
      · exact advances_of_stop hstop h
      · obtain ⟨hsize, hidle⟩ := hcloses.not_stop
        have hlater := Phase.streets_of_streets_eq_cons hstreets
        have hnext : s.upNext = phase := by
          rw [upNext, Phase.nextStreet, hstreets]
          rfl
        rw [advanceThrough, if_neg hsize, if_neg hidle] at h
        rw [closingsThrough, if_neg hsize, if_neg hidle]
        by_cases hlen : (s.hand.deck.drawUpTo count).1.length = count
        · obtain ⟨first, i, hdeal, hsteady⟩ := dealStreet_eq hs hcloses.idle hstreets hlen
          obtain ⟨huntouched, htold⟩ := dealStreet_told hdeal
          simp only [hdeal, done] at h ⊢
          exact .cons hcloses huntouched (by rw [htold, hnext]; rfl) (ih hsteady hlater h)
        · obtain ⟨s'', hdeal⟩ := dealStreet_short phase hlen
          rw [hdeal] at h
          cases h

/-- What a hand that moves on goes through. -/
theorem advance_advances (hs : s.hand.Steady s.roster) (h : s.advance = s'.done) :
    Advances s s' s.closings :=
  advances_through hs rfl h

end Advance

end Spot
end Holdem
