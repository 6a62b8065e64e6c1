import Holdem.Proofs.Hand.Course

/-!
# The chronicle of a hand

What is told of a hand can be read by itself. It opens with the start of the hand and its first pot,
deals the streets in turn, and ends with the payout. Whoever acts was asked to, nobody is heard of
after folding, and cards are shown after the river only. Each step of a hand adds to the chronicle
what may follow there, since the chronicle has kept the hand's phase, its board, and who has folded
and who is asked.
-/
namespace Holdem

namespace GameEvent

/-- Whether this is told of a hand, and not of who sits at the table or talks there. -/
def ofHand : GameEvent → Bool
  | .playerJoined .. | .playerLeft .. | .chatMessage .. => false
  | _ => true

/-- Whether a hand ends with this. -/
def ends : GameEvent → Bool
  | .handEnded .. => true
  | _ => false

/-- Who is asked to act. -/
def promptTold : GameEvent → Option PlayerId
  | .nextPlayer player _ _ => some player
  | _ => none

/-- The street that is dealt, with the number of its cards. -/
def streetTold : GameEvent → Option (Phase × Nat)
  | .roundAdvanced phase dealt _ => some (phase, dealt.length)
  | _ => none

/-- The board as it lies when a street was dealt. -/
def boardTold : GameEvent → Option (List Card)
  | .roundAdvanced _ _ board => some board
  | _ => none

end GameEvent

/-! ## What is told of a hand -/

/-- What may follow in the chronicle of a hand. -/
def MayFollow (number : Nat) (before : List GameEvent) : GameEvent → Prop
  | .handStarted hand .. => hand = number ∧ before = []
  | .potChanged .. => True
  | .nextPlayer p _ _ | .playerFolded p => .playerFolded p ∉ before
  | .playerActed p _ _ | .playerAllIn p _ =>
      latest GameEvent.promptTold before = some p ∧ .playerFolded p ∉ before
  | .roundAdvanced _ dealt board =>
      board = (latest GameEvent.boardTold before).getD [] ++ dealt
  | .handEnded hand _ shown _ =>
      hand = number ∧ (shown ≠ ∅ → (.river, 1) ∈ before.filterMap GameEvent.streetTold)
  | .playerJoined .. | .playerLeft .. | .chatMessage .. | .handAborted .. => False

/-- What is told of a hand, up to some point. -/
structure Chapter (number : Nat) (told : List GameEvent) : Prop where
  opens : ∃ dealer small big players total pots,
    [.handStarted number dealer small big players, .potChanged total pots] <+: told
  follows : Each (MayFollow number) told
  streets : told.filterMap GameEvent.streetTold <+: [(.flop, 3), (.turn, 1), (.river, 1)]

/-- What is told of a hand ends with its end, and only there. -/
def Finished (number : Nat) (told : List GameEvent) : Prop :=
  ∃ earlier payouts shown board, told = earlier ++ [.handEnded number payouts shown board] ∧
    ∀ e ∈ earlier, e.ends = false

/-- The chronicle of a hand agrees with it. -/
structure Chronicle (told : List GameEvent) (h : Hand) : Prop extends Chapter h.number told where
  toCome : h.isOver = false →
    told.filterMap GameEvent.streetTold ++ h.phase.streets = [(.flop, 3), (.turn, 1), (.river, 1)]
  board : (latest GameEvent.boardTold told).getD [] = h.board
  folded : ∀ p, .playerFolded p ∈ told → h.isFolded p = true
  goesOn : h.isOver = false → ∀ e ∈ told, e.ends = false
  ended : h.isOver = true → Finished h.number told

/-- Whoever is waited for was asked last. -/
structure Recounts (told : List GameEvent) (h : Hand) : Prop extends Chronicle told h where
  prompted : ∀ p, h.currentPlayer = some p → latest GameEvent.promptTold told = some p

section Chapter
variable {number : Nat} {told : List GameEvent} {e : GameEvent}

theorem ofHand_of_mayFollow (h : MayFollow number told e) : e.ofHand = true := by
  cases e with
  | playerJoined | playerLeft | chatMessage => exact h.elim
  | _ => rfl

/-- All of it is told of the hand. -/
theorem Chapter.ofHand (h : Chapter number told) : ∀ e ∈ told, e.ofHand = true := by
  intro e he
  obtain ⟨before, after, rfl⟩ := List.append_of_mem he
  exact ofHand_of_mayFollow (h.follows before e after rfl)

theorem Chapter.snoc (h : Chapter number told) (hnext : MayFollow number told e)
    (hstreets : (told ++ [e]).filterMap GameEvent.streetTold <+:
      [(.flop, 3), (.turn, 1), (.river, 1)]) : Chapter number (told ++ [e]) where
  opens := by
    obtain ⟨dealer, small, big, players, total, pots, hopens⟩ := h.opens
    exact ⟨dealer, small, big, players, total, pots, hopens.trans (List.prefix_append _ _)⟩
  follows := each_snoc.mpr ⟨h.follows, hnext⟩
  streets := hstreets

end Chapter

/-! ## What changes nothing -/

/-- A change of a hand that makes no difference to what was told of it. -/
structure Hand.Retains (h h' : Hand) : Prop where
  number : h'.number = h.number
  phase : h'.phase = h.phase
  board : h'.board = h.board
  folded : ∀ p, h.isFolded p = true → h'.isFolded p = true

section Hand
variable {told : List GameEvent} {h h' : Hand} {e : GameEvent}

theorem isOver_of_phase (hphase : h'.phase = h.phase) : h'.isOver = h.isOver :=
  congrArg (fun phase : Phase => decide (phase = .showdown)) hphase

theorem Chronicle.retain (hc : Chronicle told h) (hr : h.Retains h') : Chronicle told h' := by
  have hover := isOver_of_phase hr.phase
  refine { toChapter := ?_, toCome := ?_, board := ?_, folded := ?_, goesOn := ?_, ended := ?_ }
  · rw [hr.number]
    exact hc.toChapter
  · rw [hover, hr.phase]
    exact hc.toCome
  · rw [hr.board]
    exact hc.board
  · intro p hp
    exact hr.folded p (hc.folded p hp)
  · rw [hover]
    exact hc.goesOn
  · rw [hover, hr.number]
    exact hc.ended

/-- Nothing that is told of a hand ends it or deals a street. -/
def GameEvent.isPlain (e : GameEvent) : Prop :=
  e.ends = false ∧ e.streetTold = none ∧ e.boardTold = none

/-- While a hand goes on something can be told that neither ends it nor deals a street. -/
theorem Chronicle.tell (hc : Chronicle told h) (hlive : h.isOver = false)
    (hnext : MayFollow h.number told e) (hplain : e.isPlain)
    (hfold : ∀ p, e = .playerFolded p → h.isFolded p = true) : Chronicle (told ++ [e]) h := by
  obtain ⟨hends, hstreet, hboard⟩ := hplain
  have hsame : (told ++ [e]).filterMap GameEvent.streetTold =
      told.filterMap GameEvent.streetTold := by
    rw [List.filterMap_append, List.filterMap_cons_none hstreet]
    exact List.append_nil _
  refine { toChapter := ?_, toCome := ?_, board := ?_, folded := ?_, goesOn := ?_, ended := ?_ }
  · exact hc.toChapter.snoc hnext (hsame ▸ hc.streets)
  · rw [hsame]
    exact hc.toCome
  · rw [latest_snoc, hboard]
    exact hc.board
  · intro p hp
    rcases List.mem_append.mp hp with hp | hp
    · exact hc.folded p hp
    · exact hfold p (List.mem_singleton.mp hp).symm
  · intro _ x hx
    rcases List.mem_append.mp hx with hx | hx
    · exact hc.goesOn hlive x hx
    · rw [List.mem_singleton.mp hx]
      exact hends
  · intro hover
    rw [hlive] at hover
    cases hover

/-- Who has not folded was not heard to fold. -/
theorem Chronicle.not_folded {p : PlayerId} (hc : Chronicle told h) (hp : h.isFolded p = false) :
    .playerFolded p ∉ told := by
  intro hmem
  rw [hc.folded p hmem] at hp
  cases hp

end Hand

/-! ## What a hand goes through -/

namespace Spot
variable {s s' mid : Spot} {p : PlayerId} {plan : Plan} {told news : List GameEvent}

/-- With the blinds a chronicle begins. -/
theorem chronicle_opens (hopens : Hand.Opens s news mid) (hphase : s.hand.phase = .preFlop)
    (hboard : s.hand.board = []) : Chronicle news mid.hand := by
  have hnumber := hopens.number
  have hbetting : mid.hand.phase = .preFlop := hopens.phase.trans hphase
  have hlive : mid.hand.isOver = false := Hand.isOver_eq_false_of_betting (by rw [hbetting]; rfl)
  cases hopens with
  | @blinds small big stack stack' first hsmall hbig =>
      have hposted : (Hand.posted (Hand.posted s small stack) big stack').hand.board = [] :=
        (Hand.board_withBet.trans Hand.board_withBet).trans hboard
      refine
        { opens := ?_, follows := ?_, streets := ?_, toCome := ?_, board := hposted.symm,
          folded := ?_, goesOn := ?_, ended := ?_ }
      · rw [hnumber]
        exact ⟨_, _, _, _, _, _, List.prefix_refl _⟩
      · rw [← List.nil_append [_, _], List.append_cons]
        exact each_snoc.mpr ⟨each_snoc.mpr ⟨each_nil, hnumber.symm, rfl⟩, trivial⟩
      · exact List.nil_prefix
      · intro _
        rw [hbetting]
        rfl
      · intro p hp
        simp at hp
      · intro _ e he
        simp only [List.mem_cons, List.not_mem_nil, or_false] at he
        rcases he with rfl | rfl <;> rfl
      · intro hover
        rw [hlive] at hover
        cases hover

/-- An action is told of whoever was asked last. -/
theorem chronicle_acts (h : Recounts told s.hand) (ha : s.hand.Awake s.roster)
    (hcurrent : s.hand.currentPlayer = some plan.player) (hacts : s.Acts plan news mid) :
    Chronicle (told ++ news) mid.hand := by
  have hlive := ha.not_over
  have hasked := h.prompted _ hcurrent
  have hstands : s.hand.isFolded plan.player = false :=
    (ha.places.mem_turns.mp (ha.mem_turns_of_current hcurrent)).2
  have hquiet := h.not_folded hstands
  cases hacts with
  | check p i =>
      have hmid : Chronicle told ((s.checked p).mapHand (·.turnTo i)).hand :=
        h.retain ⟨rfl, rfl, rfl, fun _ => id⟩
      exact hmid.tell hlive ⟨hasked, hquiet⟩ ⟨rfl, rfl, rfl⟩ nofun
  | @commit p chips stack a allIn i hin hdealt hstack hle =>
      have hphase : (s.wagered p a chips stack allIn).hand.phase = s.hand.phase :=
        (wagered_alters hin hdealt hstack hle).phase
      have hmid : Chronicle told ((s.wagered p a chips stack allIn).mapHand (·.turnTo i)).hand :=
        h.retain
          { number := Hand.number_withBet
            phase := hphase
            board := Hand.board_withBet
            folded := fun q hq => Hand.isFolded_withBet.trans hq }
      have hgoes := (isOver_of_phase hphase).trans hlive
      rw [List.append_cons]
      refine Chronicle.tell ?_ hgoes trivial ⟨rfl, rfl, rfl⟩ nofun
      cases allIn with
      | false => exact hmid.tell hgoes ⟨hasked, hquiet⟩ ⟨rfl, rfl, rfl⟩ nofun
      | true => exact hmid.tell hgoes ⟨hasked, hquiet⟩ ⟨rfl, rfl, rfl⟩ nofun
  | fold p i hdealt =>
      have hfolded : ∀ q, (s.hand.withFold p i).isFolded q =
          (decide (q = p) || s.hand.isFolded q) := fun q => Hand.isFolded_withFold hdealt
      have hmid : Chronicle told (s.mapHand (·.withFold p i)).hand :=
        h.retain ⟨rfl, rfl, rfl, fun q hq => by rw [mapHand, hfolded q, hq, Bool.or_true]⟩
      refine hmid.tell hlive hquiet ⟨rfl, rfl, rfl⟩ fun q hq => ?_
      cases hq
      rw [mapHand, hfolded p, decide_eq_true rfl, Bool.true_or]

/-- Of a departure it is told that the player folds, unless they have before. -/
theorem chronicle_departs (h : Chronicle told s.hand) (ha : s.hand.Awake s.roster)
    (hdeparts : s.Departs p news mid) : Chronicle (told ++ news) mid.hand := by
  cases hdeparts with
  | absent => rwa [List.append_nil]
  | folded place next =>
      rw [List.append_nil]
      exact h.retain ⟨rfl, rfl, rfl, fun _ => id⟩
  | standing i place next first hturn hdealt =>
      have hfolded : ∀ q, (s.hand.withFold p i).isFolded q =
          (decide (q = p) || s.hand.isFolded q) := fun q => Hand.isFolded_withFold hdealt
      have hmid : Chronicle told
          (s.mapHand fun h => (h.withFold p i).strike s.roster p place next first).hand := by
        refine h.retain ⟨rfl, rfl, rfl, fun q hq => ?_⟩
        exact (hfolded q).trans (by rw [hq, Bool.or_true])
      refine hmid.tell ha.not_over (h.not_folded (ha.places.mem_turns.mp hturn).2)
        ⟨rfl, rfl, rfl⟩ fun q hq => ?_
      cases hq
      exact (hfolded p).trans (by rw [decide_eq_true rfl, Bool.true_or])

/-- Cards are shown when there is no street to come, which is after the river. -/
theorem river_of_shown {payouts : Payouts} {shown : NatMap ShownHand}
    (h : Chronicle told s.hand) (hlive : s.hand.isOver = false) (hpay : s.Payoff payouts shown)
    (hshown : shown ≠ ∅) : (.river, 1) ∈ told.filterMap GameEvent.streetTold := by
  rcases hpay.shows with ⟨-, hnone⟩ | ⟨-, hlast, -⟩
  · exact absurd hnone hshown
  · have hall := h.toCome hlive
    rw [hlast, List.append_nil] at hall
    rw [hall]
    simp

/-- The chronicle goes on as the hand does, and whoever is waited for in the end was asked. -/
theorem recounts_movesOn (hon : MovesOn s news s') (h : Chronicle told s.hand) :
    Recounts (told ++ news) s'.hand := by
  induction hon generalizing told with
  | @prompt s p i hs hcontested howes hip =>
      have hstands := (hs.places.mem_turns.mp
        (Hand.mem_ableToAct.mp (hs.bets.able p howes)).1).2
      have hmid : Chronicle told (s.prompted p i).hand := h.retain ⟨rfl, rfl, rfl, fun _ => id⟩
      have hwaits : (s.prompted p i).hand.currentPlayer = some p :=
        Hand.currentPlayer_eq hs.betting howes (TurnOrder.now_eq_ok_iff.mpr hip)
      have htold : Chronicle (told ++ [promptOf s.hand p]) (s.prompted p i).hand :=
        hmid.tell (e := promptOf s.hand p) hs.not_over (h.not_folded hstands) ⟨rfl, rfl, rfl⟩ nofun
      refine { htold with prompted := fun q hq => ?_ }
      cases hwaits.symm.trans hq
      exact latest_snoc
  | @ended s payouts shown evaluator hs hpay =>
      have hlive := hs.not_over
      let last := GameEvent.handEnded s.hand.number payouts shown s.hand.board
      have hsame : (told ++ [last]).filterMap GameEvent.streetTold =
          told.filterMap GameEvent.streetTold := by
        rw [List.filterMap_append]
        exact List.append_nil _
      have hnext : MayFollow s.hand.number told last := ⟨rfl, river_of_shown h hlive hpay⟩
      refine
        { toChapter := h.toChapter.snoc hnext (hsame ▸ h.streets)
          toCome := nofun
          board := ?_
          folded := fun p hp => h.folded p (by simpa using hp)
          goesOn := nofun
          ended := fun _ => ⟨told, payouts, shown, s.hand.board, rfl, h.goesOn hlive⟩
          prompted := nofun }
      rw [latest_snoc]
      exact h.board
  | @street s s' news phase count later first i hs hstreets hlen hon ih =>
      have hlive := hs.not_over
      have hall := h.toCome hlive
      rw [hstreets] at hall
      let dealt := (s.hand.deck.drawUpTo count).1
      let street := GameEvent.roundAdvanced phase dealt (s.hand.board ++ dealt)
      have hmore : (told ++ [street]).filterMap GameEvent.streetTold =
          told.filterMap GameEvent.streetTold ++ [(phase, count)] := by
        rw [List.filterMap_append, ← hlen]
        rfl
      have hnext : MayFollow s.hand.number told street := by
        rw [MayFollow, h.board]
      rw [List.append_cons]
      apply ih
      refine
        { toChapter := h.toChapter.snoc hnext ?_
          toCome := ?_
          board := by rw [latest_snoc]; rfl
          folded := fun p hp => h.folded p (by simpa using hp)
          goesOn := ?_
          ended := ?_ }
      · rw [hmore, ← hall]
        exact (List.prefix_append_right_inj _).mpr (List.prefix_append [(phase, count)] later)
      · intro _
        have hlater : phase.streets = later := Phase.streets_of_streets_eq_cons hstreets
        rw [hmore, ← hall, ← hlater]
        exact List.append_assoc _ _ _
      · intro _ e he
        rcases List.mem_append.mp he with he | he
        · exact h.goesOn hlive e he
        · rw [List.mem_singleton.mp he]
          rfl
      · intro hover
        have hbetting : (s.mapHand (·.onStreet phase count first i)).hand.isOver = false :=
          Hand.isOver_eq_false_of_betting (isBetting_of_streets_eq_cons hstreets)
        rw [hbetting] at hover
        cases hover

/-- So does the chronicle of a hand that waits for a player. -/
theorem recounts_unfolds (h : Recounts told s.hand) (ha : s.hand.Awake s.roster)
    (hunfolds : s.Unfolds news s') : Recounts (told ++ news) s'.hand := by
  cases hunfolds with
  | acts hcurrent hacts hon =>
      rw [← List.append_assoc]
      exact recounts_movesOn hon (chronicle_acts h ha hcurrent hacts)
  | leaves hdeparts hon =>
      rw [← List.append_assoc]
      exact recounts_movesOn hon (chronicle_departs h.toChronicle ha hdeparts)
  | stays hdeparts hawake hsame =>
      refine { chronicle_departs h.toChronicle ha hdeparts with prompted := fun p hp => ?_ }
      rw [hsame] at hp
      have hasked := h.prompted p hp
      cases hdeparts with
      | absent | folded => rwa [List.append_nil]
      | standing => rwa [latest_snoc]

end Spot

namespace Hand
variable {number : Nat} {r r' : Roster} {dealer : PlayerId} {blinds : Blinds} {deck : Deck}
  {ev ev' : Evaluator} {h : Hand}

/-- All that is told by the first prompt begins the chronicle of a hand that is dealt. -/
theorem recounts_deal (hv : r.Valid)
    (hdeal : deal number r dealer blinds deck ev = (r', ev', .ok h)) :
    Recounts h.events h ∧ h.number = number := by
  obtain ⟨pos, news, mid, told, hopened, hon, hevents, -⟩ := movesOn_of_deal hv hdeal
  have hrecounts := Spot.recounts_movesOn hon (Spot.chronicle_opens hopened.opens rfl rfl)
  rw [← hevents] at hrecounts
  exact ⟨hrecounts, hon.number.trans hopened.opens.number⟩

end Hand
end Holdem
