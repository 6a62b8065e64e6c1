import Holdem.Proofs.Clockwise
import Holdem.Proofs.Hand.Chronicle
import Holdem.Proofs.Hand.Closings

/-!
# Where the turn is

A hand that moves on prompts the first in turn who owes an action, or it is over, or it opens
another street, which begins with the first in its order who can bet. In turn means from the player
left of whoever acted or gave up, as the turn has been passed on from them by then.
-/
namespace Holdem

namespace Hand

/-- Who was asked to act so far, one after another. -/
def prompts (h : Hand) : List PlayerId := h.events.filterMap GameEvent.promptTold

/-- From a hand `h` to `h'`, the player that is waited for was asked to act, and nobody else was. -/
structure Asks (h h' : Hand) (p : PlayerId) : Prop where
  current : h'.currentPlayer = some p
  prompted : h'.prompts = h.prompts ++ [p]

/-- The first player in the order of the hand who can still bet. -/
def leader? (h : Hand) : Option PlayerId := h.order.find? (· ∈ h.ableToAct)

/-- Where the turn is after a hand moved on: with the first in turn who owes an action, if the
street goes on, and otherwise with the leader of another street, if the hand goes on. -/
inductive TurnMoves (h h' : Hand) : Prop
  | sameStreet {p : PlayerId} : h'.phase = h.phase → h'.round = h.round →
      1 < h.turns.order.length → h.bettingIsOver = false →
      h.turns.lap.find? h.round.owesAction = some p → Asks h h' p → TurnMoves h h'
  | newStreet {p : PlayerId} : h'.phase ∈ h.phase.streets.map Prod.fst →
      h.leader? = some p → Asks h h' p → TurnMoves h h'
  | ended : h'.isOver = true → TurnMoves h h'

end Hand

namespace Spot
variable {s s' : Spot} {p q : PlayerId}

/-! ## Moving on -/

/-- A prompt goes to the first in turn who owes an action. -/
theorem prompt_turn (h : s.prompt = s'.done) :
    ∃ p i, s.hand.turns.lap.find? s.hand.round.owesAction = some p ∧
      s.hand.turns.order[i]? = some p ∧ s' = s.prompted p i := by
  cases hfind : s.hand.turns.lap.find? s.hand.round.owesAction with
  | none =>
      simp only [prompt, hfind] at h
      cases h
  | some p =>
      obtain ⟨i, hset, -, hip⟩ := TurnOrder.setCurrent_of_mem
        (TurnOrder.mem_lap.mp (List.mem_of_find?_eq_some hfind))
      simp only [prompt, hfind, hset] at h
      cases h
      exact ⟨p, i, rfl, hip, rfl⟩

theorem prompts_prompted (i : Nat) : (s.prompted p i).hand.prompts = s.hand.prompts ++ [p] :=
  List.filterMap_append

/-- Where a prompt ends the way of a hand, the street goes on. -/
theorem turnMoves_prompt (hs : s.hand.Steady s.roster) (hcontested : ¬ s.hand.turns.size ≤ 1)
    (hbetting : s.hand.bettingIsOver = false) (h : s.prompt = s'.done) :
    s.hand.TurnMoves s'.hand := by
  obtain ⟨p, i, hfind, hip, rfl⟩ := prompt_turn h
  have howes := Round.owesAction_iff.mp (List.find?_some hfind)
  have hcurrent : (s.prompted p i).hand.currentPlayer = some p :=
    Hand.currentPlayer_eq hs.betting howes (TurnOrder.now_eq_ok_iff.mpr hip)
  exact .sameStreet rfl rfl (Nat.lt_of_not_le hcontested) hbetting hfind
    ⟨hcurrent, prompts_prompted i⟩

theorem leader?_congr {h h' : Hand} (horder : h'.order = h.order)
    (hable : h'.ableToAct = h.ableToAct) : h'.leader? = h.leader? := by
  rw [Hand.leader?, Hand.leader?, horder, hable]

theorem able_of_leader {h : Hand} (hleader : h.leader? = some p) : p ∈ h.ableToAct := by
  have hable := List.find?_some hleader
  exact of_decide_eq_true hable

/-- The first who is asked on a new street is its leader. -/
theorem find?_asked {h : Hand} (phase : Phase) (hleader : h.leader? = some p) :
    h.order.find? (Round.owesAction
      { phase, minRaise := h.blinds.big, pending := .ofList h.ableToAct }) = some p := by
  rw [← hleader, Hand.leader?]
  congr 1
  funext q
  exact decide_eq_decide.mpr NatSet.mem_ofList

/-- The turn on a new street begins with its leader. -/
theorem openStreet_turn {h : Hand} {r : Roster} (phase : Phase) (hp : h.Places r)
    (hleader : h.leader? = some p) : ∃ rest, (openStreet h phase).turns.lap = p :: rest := by
  have hturn := (Hand.mem_ableToAct.mp (able_of_leader hleader)).1
  obtain ⟨i, hset, -⟩ := TurnOrder.setCurrent_of_mem hturn
  simp only [openStreet, find?_asked phase hleader, hset]
  exact TurnOrder.head_lap_setCurrent hp.turns_nodup hturn hset

/-- A street that is dealt has the same leader as the one before, and the turn is theirs. -/
theorem dealStreet_turn {phase : Phase} {count : Nat} (hp : s.hand.Places s.roster)
    (h : s.dealStreet phase count = s'.done) :
    s'.hand.phase = phase ∧ s'.hand.prompts = s.hand.prompts ∧
      s'.hand.leader? = s.hand.leader? ∧
      ∀ p, s.hand.leader? = some p → ∃ rest, s'.hand.turns.lap = p :: rest := by
  unfold dealStreet at h
  dsimp only at h
  split at h
  · cases h
  · cases h
    let dealt : Hand :=
      { s.hand with
        deck := (s.hand.deck.drawUpTo count).2
        board := s.hand.board ++ (s.hand.deck.drawUpTo count).1 }
    obtain ⟨hround, hable, hevents⟩ := openStreet_told dealt phase
    have horder : (openStreet dealt phase).order = s.hand.order := by
      simp only [openStreet]
      split <;> rfl
    refine ⟨congrArg Round.phase hround, ?_, leader?_congr horder hable, fun p hleader => ?_⟩
    · show List.filterMap _ ((openStreet dealt phase).events ++ [_]) = _
      rw [List.filterMap_append, hevents]
      exact List.append_nil _
    · exact openStreet_turn (h := dealt) phase { hp with } hleader

/-- Whoever owes an action is led by somebody. -/
theorem exists_leader {h : Hand} {r : Roster} (hp : h.Places r) (hable : p ∈ h.ableToAct) :
    ∃ q, h.leader? = some q := by
  refine Option.isSome_iff_exists.mp (List.find?_isSome.mpr ⟨p, ?_, decide_eq_true hable⟩)
  exact hp.placed p (hp.turns_subset (Hand.mem_ableToAct.mp hable).1)

/-- Where a hand that was dealt a street stops, it is with the leader. -/
theorem turnMoves_street {phase : Phase} {count : Nat} {later : List (Phase × Nat)} {mid : Spot}
    (hs : s.hand.Steady s.roster) (hstreets : s.hand.phase.streets = (phase, count) :: later)
    (hmid : mid.hand.Steady mid.roster)
    (hdeal : (s.mapHand Hand.collectRound).dealStreet phase count = mid.done)
    (h : mid.hand.TurnMoves s'.hand) : s.hand.TurnMoves s'.hand := by
  obtain ⟨hphase, hprompts, hleader, hlap⟩ := dealStreet_turn hs.places.collectRound hdeal
  have huntouched := (dealStreet_told hdeal).1
  have hsame : s.hand.prompts = mid.hand.prompts := hprompts.symm
  have hled : mid.hand.leader? = s.hand.leader? := hleader
  cases h with
  | @sameStreet p hstays _ _ _ hfind hasks =>
      have howes := Round.owesAction_iff.mp (List.find?_some hfind)
      obtain ⟨l, hl⟩ := exists_leader hmid.places (hmid.bets.able p howes)
      obtain ⟨rest, hrest⟩ := hlap l (hled ▸ hl)
      have hasked := huntouched.asked l (able_of_leader hl)
      rw [hrest, List.find?_cons_of_pos (Round.owesAction_iff.mpr hasked),
        Option.some_inj] at hfind
      refine .newStreet (p := p) ?_ (hled ▸ hfind ▸ hl) ⟨hasks.current, hsame ▸ hasks.prompted⟩
      rw [hstays, hphase, hstreets]
      exact List.mem_cons_self
  | @newStreet p hlater hl hasks =>
      refine .newStreet (p := p) ?_ (hled ▸ hl) ⟨hasks.current, hsame ▸ hasks.prompted⟩
      rw [hphase, Phase.streets_of_streets_eq_cons hstreets] at hlater
      rw [hstreets]
      exact List.mem_cons_of_mem _ hlater
  | ended hended => exact .ended hended

/-- A hand that stops at once is over or prompts somebody. -/
theorem stop_cases {streets : List (Phase × Nat)}
    (hstop : s.hand.turns.size ≤ 1 ∨
      s.hand.round.isClosed = false ∧ s.hand.bettingIsOver = false)
    (h : advanceThrough streets s = s'.done) :
    s'.hand.isOver = true ∨
      ¬ s.hand.turns.size ≤ 1 ∧ s.hand.bettingIsOver = false ∧ s.prompt = s'.done := by
  unfold advanceThrough at h
  by_cases hsize : s.hand.turns.size ≤ 1
  · rw [if_pos hsize] at h
    exact .inl (finishUncontested_told h).1
  · obtain ⟨hopen, hbetting⟩ := hstop.resolve_left hsize
    rw [if_neg hsize, if_pos (by rw [hopen, hbetting]; rfl)] at h
    exact .inr ⟨hsize, hbetting, h⟩

/-- To follow a hand as it moves on it is enough to know of its end, of a prompt, and of a street
that is dealt together with what comes after it. The induction is over the streets still to be
dealt. -/
theorem advance_induct {P : Spot → Spot → Prop}
    (hended : ∀ {s s' : Spot}, s'.hand.isOver = true → P s s')
    (hprompt : ∀ {s s' : Spot}, s.hand.Steady s.roster → ¬ s.hand.turns.size ≤ 1 →
      s.hand.bettingIsOver = false → s.prompt = s'.done → P s s')
    (hstreet : ∀ {s mid s' : Spot} {phase : Phase} {count : Nat} {later : List (Phase × Nat)},
      s.hand.Steady s.roster → s.hand.phase.streets = (phase, count) :: later →
      mid.hand.Steady mid.roster →
      (s.mapHand Hand.collectRound).dealStreet phase count = mid.done →
      mid.advance = s'.done → P mid s' → P s s')
    (hs : s.hand.Steady s.roster) (h : s.advance = s'.done) : P s s' := by
  obtain ⟨streets, hstreets⟩ : ∃ streets, s.hand.phase.streets = streets := ⟨_, rfl⟩
  rw [advance, hstreets] at h
  induction streets generalizing s with
  | nil =>
      rcases stops_or_closes hs with hstop | hcloses
      · rcases stop_cases hstop h with hover | ⟨hsize, hbetting, hprompted⟩
        · exact hended hover
        · exact hprompt hs hsize hbetting hprompted
      · obtain ⟨hsize, hidle⟩ := hcloses.not_stop
        rw [advanceThrough, if_neg hsize, if_neg hidle] at h
        exact hended (showdown_told hs.places.collectRound h).1
  | cons street later ih =>
      obtain ⟨phase, count⟩ := street
      rcases stops_or_closes hs with hstop | hcloses
      · rcases stop_cases hstop h with hover | ⟨hsize, hbetting, hprompted⟩
        · exact hended hover
        · exact hprompt hs hsize hbetting hprompted
      · obtain ⟨hsize, hidle⟩ := hcloses.not_stop
        rw [advanceThrough, if_neg hsize, if_neg hidle] at h
        by_cases hlen : (s.hand.deck.drawUpTo count).1.length = count
        · obtain ⟨first, i, hdeal, hsteady⟩ := dealStreet_eq hs hcloses.idle hstreets hlen
          rw [hdeal] at h
          let mid := s.mapHand (·.onStreet phase count first i)
          have hlater : mid.hand.phase.streets = later :=
            Phase.streets_of_streets_eq_cons hstreets
          have hrest : mid.advance = s'.done := by rw [advance, hlater]; exact h
          exact hstreet hs hstreets hsteady hdeal hrest (ih hsteady h hlater)
        · obtain ⟨s'', hdeal⟩ := dealStreet_short phase hlen
          rw [hdeal] at h
          cases h

/-- Where the turn is after a hand moved on. -/
theorem advance_turn (hs : s.hand.Steady s.roster) (h : s.advance = s'.done) :
    s.hand.TurnMoves s'.hand := by
  refine advance_induct (P := fun s s' => s.hand.TurnMoves s'.hand) .ended ?_ ?_ hs h
  · intro s s' hs hsize hbetting hprompted
    exact turnMoves_prompt hs hsize hbetting hprompted
  · intro s mid s' phase count later hs hstreets hmid hdeal _ hmoves
    exact turnMoves_street hs hstreets hmid hdeal hmoves

/-! ## Passing the turn -/

variable {mid : Spot} {plan : Plan} {news : List GameEvent}

/-- With the turn passed on, the first to owe an action is the first to the left. -/
theorem turnPassed_turn (hn : s.hand.turns.order.Nodup) (hnow : s.hand.turns.now = .ok p)
    (h : s.turnPassed = mid.done) :
    mid.hand.turns.lap = leftOf s.hand.turns.order p ∧ mid.hand.round = s.hand.round := by
  unfold turnPassed at h
  cases hnext : s.hand.turns.next with
  | error e =>
      rw [hnext] at h
      cases h
  | ok passed =>
      rw [hnext] at h
      cases h
      exact ⟨TurnOrder.lap_next hn hnow hnext, rfl⟩

/-- With the player on turn folded, too. -/
theorem foldOut_turn (hn : s.hand.turns.order.Nodup) (hnow : s.hand.turns.now = .ok p)
    (h : s.foldOut p = mid.done) :
    mid.hand.turns.lap = (leftOf s.hand.turns.order p).filter (· ≠ p) ∧
      mid.hand.round = s.hand.round.settleAction p := by
  unfold foldOut at h
  split at h
  · cases hremove : s.hand.turns.remove p with
    | error e =>
        simp only [mapHand, Hand.markFolded, hremove] at h
        cases h
    | ok turns =>
        simp only [mapHand, Hand.markFolded, hremove] at h
        cases h
        exact ⟨TurnOrder.lap_remove hn hnow hremove, rfl⟩
  · cases h

/-- Whoever just acted is not looked for. -/
theorem find?_left_settled {l : List PlayerId} {b : Round} :
    (l.filter (· ≠ p)).find? (b.settleAction p).owesAction =
      l.find? (b.settleAction p).owesAction := by
  refine find?_filter_of_imp l fun q hq => decide_eq_true ?_
  exact (NatSet.mem_erase.mp (Round.owesAction_iff.mp hq)).2

theorem carryOut_wagers {a : Action} {chips stack : Chips} {allIn : Bool}
    (hcover : (s.roster.stack? p).filter (chips ≤ ·) = some stack) :
    s.carryOut (.commit p a chips allIn) = (s.wagered p a chips stack allIn).turnPassed := by
  simp only [carryOut, hcover]
  cases allIn <;> rfl

/-- After an action the first in turn to owe another is the first to the left of who acted. -/
theorem carryOut_turn (hn : s.hand.turns.order.Nodup) (hnow : s.hand.turns.now = .ok plan.player)
    (h : s.carryOut plan = mid.done) :
    mid.hand.turns.lap.find? mid.hand.round.owesAction =
      (leftOf s.hand.turns.order plan.player).find? mid.hand.round.owesAction := by
  cases plan with
  | check p =>
      obtain ⟨hlap, -⟩ := turnPassed_turn (s := s.checked p) hn hnow h
      rw [hlap]
      rfl
  | commit p a chips allIn =>
      cases hcover : (s.roster.stack? p).filter (chips ≤ ·) with
      | none =>
          simp only [carryOut, hcover] at h
          cases h
      | some stack =>
          rw [carryOut_wagers hcover] at h
          have hsame : (s.wagered p a chips stack allIn).hand.turns = s.hand.turns :=
            Hand.turns_withBet
          obtain ⟨hlap, -⟩ := turnPassed_turn (p := p) (hsame ▸ hn) (hsame ▸ hnow) h
          rw [hlap, hsame]
          rfl
  | fold p =>
      obtain ⟨hlap, hround⟩ := foldOut_turn hn hnow h
      rw [hlap, hround]
      exact find?_left_settled

/-- When somebody leaves who is on turn, they are folded and the hand moves on. Otherwise it does so
if at most one is left standing or betting is over. -/
theorem foldedOut_turn {goesOn : Bool} (h : s.foldedOut p = (mid.done, goesOn)) :
    goesOn = decide (s.hand.currentPlayer = some p ∨ mid.hand.turns.size ≤ 1 ∨
        mid.hand.bettingIsOver = true) ∧
      (s.hand.turns.order.Nodup → s.hand.turns.now = .ok p →
        mid.hand.turns.lap = (leftOf s.hand.turns.order p).filter (· ≠ p) ∧
          mid.hand.round = s.hand.round.settleAction p) := by
  simp only [foldedOut, Prod.mk.injEq] at h
  obtain ⟨hfold, rfl⟩ := h
  rw [hfold]
  refine ⟨rfl, fun hn hnow => ?_⟩
  by_cases hfirst : s.hand.firstToAct = p
  · simp only [mapHand, if_pos hfirst] at hfold
    exact foldOut_turn (s := s.mapHand fun h =>
      { h with firstToAct := (h.turns.nextTo p).toOption.getD h.firstToAct }) hn hnow hfold
  · simp only [mapHand, if_neg hfirst] at hfold
    exact foldOut_turn hn hnow hfold

/-- Where the turn is after a departure. If it was the leaver's, it is with the first to their left
who owes an action. Otherwise it stays, unless the street is over. -/
theorem takeOut_turn {goesOn : Bool} (ha : s.hand.Awake s.roster)
    (h : s.takeOut p = (mid.done, goesOn)) :
    (s.hand.currentPlayer = some p → goesOn = true ∧
      mid.hand.turns.lap.find? mid.hand.round.owesAction =
        (leftOf s.hand.turns.order p).find? mid.hand.round.owesAction) ∧
    (s.hand.currentPlayer ≠ some p → goesOn = true →
      mid.hand.turns.order.length ≤ 1 ∨ mid.hand.bettingIsOver = true) := by
  rw [takeOut, if_neg (by rw [ha.not_over]; exact Bool.false_ne_true)] at h
  by_cases hturn : p ∈ s.hand.turns.order
  · obtain ⟨place, hremove, -⟩ :=
      TurnOrder.remove_of_mem ha.places.nodup (ha.places.turns_subset hturn)
    have hheld : ∀ dealtIn, (s.strikeOff p dealtIn).hand.turns.contains p = true := fun _ =>
      List.contains_iff_mem.mpr hturn
    simp only [hremove, hheld, if_true] at h
    obtain ⟨hgoes, hfolded⟩ := foldedOut_turn h
    have hcurrent : ∀ dealtIn, (s.strikeOff p dealtIn).hand.currentPlayer =
      s.hand.currentPlayer := fun _ => rfl
    rw [hcurrent] at hgoes
    refine ⟨fun hp => ?_, fun hp hon => ?_⟩
    · obtain ⟨q, -, hnow, hq⟩ := ha.currentPlayer
      obtain rfl : q = p := Option.some_inj.mp (hq.symm.trans hp)
      obtain ⟨hlap, hround⟩ := hfolded ha.places.turns_nodup hnow
      rw [hlap, hround]
      exact ⟨hgoes.trans (decide_eq_true (.inl hp)), find?_left_settled⟩
    · exact (of_decide_eq_true (hgoes.symm.trans hon)).resolve_left hp
  · have hstays : goesOn = false := by
      have hheld : ∀ dealtIn, (s.strikeOff p dealtIn).hand.turns.contains p = false := fun _ =>
        Bool.eq_false_iff.mpr fun hin => hturn (List.contains_iff_mem.mp hin)
      split at h
      · cases h
        rfl
      · simp only [hheld] at h
        cases h
        rfl
    refine ⟨fun hp => absurd (ha.mem_turns_of_current hp) hturn, fun _ hon => ?_⟩
    rw [hstays] at hon
    cases hon

end Spot
end Holdem
