import Holdem.Proofs.Hand.Runs

/-!
# The course of a hand

Whatever happens in a hand is told, one thing after another, and nothing else is. An action of the
player on turn is told first, then what the hand goes through as it moves on. A departure may leave
the hand waiting for whom it waited before. What holds of everything that was told is shown along
this course.
-/
namespace Holdem

/-! ## What was told before -/

/-- Everything that is told has a property, given what was told before it. -/
def Each (P : List GameEvent → GameEvent → Prop) (told : List GameEvent) : Prop :=
  ∀ before e after, told = before ++ e :: after → P before e

/-- The last that was told of something. -/
def latest {α : Type} (about : GameEvent → Option α) (told : List GameEvent) : Option α :=
  (told.filterMap about).getLast?

section Told
variable {P : List GameEvent → GameEvent → Prop} {told : List GameEvent} {e : GameEvent}

theorem each_nil : Each P [] := by
  intro before e after h
  simp at h

theorem each_snoc : Each P (told ++ [e]) ↔ Each P told ∧ P told e := by
  constructor
  · intro h
    refine ⟨fun before x after hsplit => h before x (after ++ [e]) ?_, h told e [] rfl⟩
    rw [hsplit, List.append_assoc, List.cons_append]
  · rintro ⟨hall, hlast⟩ before x after hsplit
    rcases List.eq_nil_or_concat after with rfl | ⟨rest, y, rfl⟩
    · obtain ⟨rfl, hx⟩ := List.append_inj' hsplit rfl
      cases hx
      exact hlast
    · rw [List.concat_eq_append, ← List.cons_append, ← List.append_assoc] at hsplit
      exact hall before x rest (List.append_inj' hsplit rfl).1

theorem each_append {news : List GameEvent} (h : Each P told)
    (hnews : ∀ before e after, news = before ++ e :: after → P (told ++ before) e) :
    Each P (told ++ news) := by
  intro before e after hsplit
  rcases List.append_eq_append_iff.mp hsplit with ⟨mid, rfl, hafter⟩ | ⟨mid, htold, hafter⟩
  · exact hnews mid e after hafter
  · cases mid with
    | nil =>
        have hnow := hnews [] e after hafter.symm
        rw [htold] at hnow
        simpa using hnow
    | cons x rest =>
        obtain ⟨rfl, -⟩ := List.cons.inj hafter
        exact h before e rest htold

@[simp] theorem latest_snoc {α : Type} {about : GameEvent → Option α} :
    latest about (told ++ [e]) = (about e).or (latest about told) := by
  unfold latest
  rw [List.filterMap_append]
  cases he : about e <;> simp [he]

end Told

/-! ## How a hand goes on -/

/-- Whose plan it is. -/
def Plan.player : Plan → PlayerId
  | .check p | .commit p _ _ _ | .fold p => p

namespace Spot
variable {s s' mid : Spot} {p : PlayerId} {a : Action} {plan : Plan} {news : List GameEvent}

theorem Fits.player_eq (h : s.Fits p plan) : plan.player = p := by
  cases plan with
  | check q | commit q a chips allIn => exact h.1
  | fold q => exact h

theorem Acts.events (h : s.Acts plan news mid) : mid.hand.events = s.hand.events ++ news := by
  cases h with
  | check | fold => rfl
  | @commit p chips stack => exact events_wagered stack

theorem Acts.number (h : s.Acts plan news mid) : mid.hand.number = s.hand.number := by
  cases h with
  | check | fold => rfl
  | commit => exact Hand.number_withBet

theorem Departs.number (h : s.Departs p news mid) : mid.hand.number = s.hand.number := by
  cases h <;> rfl

theorem Departs.events (h : s.Departs p news mid) : mid.hand.events = s.hand.events ++ news := by
  cases h with
  | absent | folded => exact (List.append_nil _).symm
  | standing => rfl

theorem Acts.keepsButton (h : s.Acts plan news mid) : s.hand.KeepsButton mid.hand := by
  cases h with
  | check | fold => exact ⟨rfl, rfl⟩
  | commit => exact ⟨Hand.dealtIn_withBet, Hand.nextDealer_withBet⟩

theorem MovesOn.keepsButton (h : MovesOn s news s') : s.hand.KeepsButton s'.hand := by
  induction h with
  | prompt | ended => exact ⟨rfl, rfl⟩
  | street _ _ _ _ ih => exact ⟨ih.dealtIn, ih.button⟩

/-- How a hand that waits for a player goes on with an action or a departure, and what is told of
it. -/
inductive Unfolds (s : Spot) : List GameEvent → Spot → Prop
  | acts {plan : Plan} {told news : List GameEvent} {mid s' : Spot} :
      s.hand.currentPlayer = some plan.player → s.Acts plan told mid → MovesOn mid news s' →
      Unfolds s (told ++ news) s'
  | leaves {p : PlayerId} {told news : List GameEvent} {mid s' : Spot} :
      s.Departs p told mid → MovesOn mid news s' → Unfolds s (told ++ news) s'
  | stays {p : PlayerId} {told : List GameEvent} {mid : Spot} :
      s.Departs p told mid → mid.hand.Awake mid.roster →
      mid.hand.currentPlayer = s.hand.currentPlayer → Unfolds s told mid

theorem Departs.moves (h : s.Departs p news mid) : s.Moves mid :=
  h.alters.elim (·.moves) (·.moves)

theorem Departs.stocked (h : s.Departs p news mid) (hst : s.hand.Stocked) : mid.hand.Stocked :=
  h.alters.elim (·.stocked hst) (·.stocked hst)

namespace Unfolds

theorem events (h : s.Unfolds news s') : s'.hand.events = s.hand.events ++ news := by
  cases h with
  | acts _ hacts hon => rw [hon.events, hacts.events, List.append_assoc]
  | leaves hdeparts hon => rw [hon.events, hdeparts.events, List.append_assoc]
  | stays hdeparts => exact hdeparts.events

theorem number (h : s.Unfolds news s') : s'.hand.number = s.hand.number := by
  cases h with
  | acts _ hacts hon => exact hon.number.trans hacts.number
  | leaves hdeparts hon => exact hon.number.trans hdeparts.number
  | stays hdeparts => exact hdeparts.number

theorem moves (h : s.Unfolds news s') : s.Moves s' := by
  cases h with
  | acts _ hacts hon => exact hacts.alters.moves.trans hon.moves
  | leaves hdeparts hon => exact hdeparts.moves.trans hon.moves
  | stays hdeparts => exact hdeparts.moves

theorem stocked (h : s.Unfolds news s') (hst : s.hand.Stocked) : s'.hand.Stocked := by
  cases h with
  | acts _ hacts hon => exact hon.stocked (hacts.alters.stocked hst)
  | leaves hdeparts hon => exact hon.stocked (hdeparts.stocked hst)
  | stays hdeparts => exact hdeparts.stocked hst

theorem goes (h : s.Unfolds news s') :
    s'.hand.Awake s'.roster ∨ s'.hand.Settled s'.roster := by
  cases h with
  | acts _ _ hon | leaves _ hon => exact hon.goes
  | stays _ hawake => exact .inl hawake

end Unfolds

/-- An action that is accepted is carried out, and the hand moves on from there. -/
theorem act_carries (ha : s.hand.Awake s.roster) (h : s.validate p a = .ok plan) :
    ∃ told mid, s.act p a = mid.advance ∧ plan.player = p ∧ s.Acts plan told mid ∧
      mid.hand.Steady mid.roster := by
  obtain ⟨hturn, hfit⟩ := fits_of_accepted ha h
  obtain ⟨told, mid, hcarry, hacts, hsteady⟩ := carryOut_spec ha hturn hfit
  refine ⟨told, mid, ?_, hfit.player_eq, hacts, hsteady⟩
  rw [act_eq_apply h, apply_eq, hcarry]
  rfl

/-- A hand that waits for a player goes on with every action that is accepted, unless there are
too few cards. -/
theorem act_unfolds (ha : s.hand.Awake s.roster) (h : s.validate p a = .ok plan) :
    (∃ news s', s.act p a = s'.done ∧ s.Unfolds news s' ∧ s.hand.KeepsButton s'.hand) ∨
      ¬ s.hand.Stocked ∧ ∃ s' : Spot, s.act p a = s'.fail exhausted := by
  obtain ⟨told, mid, hact, hplayer, hacts, hsteady⟩ := act_carries ha h
  have hcurrent : s.hand.currentPlayer = some plan.player := hplayer.symm ▸ (validate_ok h).1
  rw [hact]
  rcases advance_cases hsteady with ⟨news, s', hs', hon⟩ | ⟨hshort, hfail⟩
  · exact .inl ⟨told ++ news, s', hs', .acts hcurrent hacts hon,
      hacts.keepsButton.trans hon.keepsButton⟩
  · exact .inr ⟨fun hst => hshort (hacts.alters.stocked hst), hfail⟩

/-- So it does without anybody who leaves. -/
theorem removePlayer_unfolds (ha : s.hand.Awake s.roster) (p : PlayerId) :
    (∃ news s', s.removePlayer p = s'.done ∧ s.Unfolds news s' ∧ p ∉ s'.hand.dealtIn.order ∧
        s.hand.Without s'.hand p) ∨
      ¬ s.hand.Stocked ∧ ∃ s' : Spot, s.removePlayer p = s'.fail exhausted := by
  obtain ⟨mid, goesOn, htakeOut, ⟨told, hdeparts⟩, hsteady, hwaits, hwithout⟩ := takeOut_spec ha p
  rw [removePlayer_goesOn, htakeOut]
  cases goesOn with
  | false =>
      obtain ⟨hawake, hsame⟩ := hwaits rfl
      exact .inl ⟨told, mid, rfl, .stays hdeparts hawake hsame, hdeparts.out, hwithout⟩
  | true =>
      show (∃ (news : _) (s' : Spot), mid.advance = s'.done ∧ _) ∨
        _ ∧ ∃ s' : Spot, mid.advance = s'.fail exhausted
      rcases advance_cases hsteady with ⟨news, s', hs', hon⟩ | ⟨hshort, hfail⟩
      · exact .inl ⟨told ++ news, s', hs', .leaves hdeparts hon,
          fun h => hdeparts.out (hon.moves.remain h), hwithout.keeps hon.keepsButton⟩
      · exact .inr ⟨fun hst => hshort (hdeparts.stocked hst), hfail⟩

/-! ## Moves -/

/-- An answer that is nobody's mistake. -/
def Faulty (o : Outcome) : Prop := ∃ reason, o.2 = .error (.internal reason)

/-- A hand that waits for a player or is over, at a roster in order. It may lack cards. -/
structure AtRest (s : Spot) : Prop where
  valid : s.roster.Valid
  goes : s.hand.Awake s.roster ∨ s.hand.isOver = true

theorem AtRest.awake (h : s.AtRest) (hlive : s.hand.isOver = false) : s.hand.Awake s.roster :=
  h.goes.resolve_right fun hover => Bool.false_ne_true (hlive.symm.trans hover)

/-- A move lets a hand go on, or it leaves the hand as it is, unless there are too few cards. It
changes no stack that belongs to the hand but by what happens in the hand, except that somebody may
take theirs away when the hand is over. Nobody else is struck off than whoever leaves. -/
inductive MoveCase (s : Spot) (m : Move) : Prop
  | unfolds {news : List GameEvent} {s' : Spot} : s.hand.Awake s.roster → s.Unfolds news s' →
      (s.move m).1.roster.Valid → (s.move m).1.hand = s'.hand →
      (∀ p ∈ s'.hand.dealtIn.order, (s.move m).1.roster.stack? p = s'.roster.stack? p) →
      (∀ p ∈ s.hand.dealtIn.order, m ≠ .leave p → p ∈ s'.hand.dealtIn.order) →
      MoveCase s m
  | same : (s.move m).1.roster.Valid → (s.move m).1.hand = s.hand →
      (∀ p, (s.hand.isOver = true → m ≠ .leave p) → s.roster.contains p = true →
        (s.move m).1.roster.stack? p = s.roster.stack? p) →
      MoveCase s m
  | short : ¬ s.hand.Stocked → Faulty (s.move m) → MoveCase s m

theorem act_case (hrest : s.AtRest) (p : PlayerId) (a : Action) : s.MoveCase (.act p a) := by
  cases hv : s.validate p a with
  | error e =>
      have hmove : (s.move (.act p a)).1 = s := by
        rw [move, act_eq_fail hv]
        rfl
      exact .same (hmove.symm ▸ hrest.valid) (by rw [hmove]) fun _ _ _ => by rw [hmove]
  | ok plan =>
      have ha := hrest.awake (Hand.not_over_of_current (validate_ok hv).1)
      rcases act_unfolds ha hv with ⟨news, s', hact, hunfolds, hkeeps⟩ | ⟨hshort, s', hact⟩
      · have hmove : (s.move (.act p a)).1 = s' := by
          rw [move, hact]
          rfl
        refine .unfolds ha hunfolds ?_ (by rw [hmove]) (fun _ _ => by rw [hmove]) fun q hq _ => ?_
        · exact hmove.symm ▸ hunfolds.moves.restacked.valid hrest.valid
        · rw [hkeeps.dealtIn]
          exact hq
      · exact .short hshort ⟨_, by rw [move, hact]; rfl⟩

theorem leave_case (hrest : s.AtRest) (p : PlayerId) : s.MoveCase (.leave p) := by
  rcases hrest.goes with ha | hover
  · rcases removePlayer_unfolds ha p with
      ⟨news, s', hremove, hunfolds, hout, hwithout⟩ | ⟨hshort, s', hfail⟩
    · have hmove : (s.move (.leave p)).1 =
          { s' with roster := Table.vacate s'.roster p } := by
        simp only [move, hremove, done]
      have hvalid := hunfolds.moves.restacked.valid hrest.valid
      refine .unfolds ha hunfolds ?_ (by rw [hmove]) (fun q hq => ?_) fun q hq hne => ?_
      · exact hmove.symm ▸ valid_vacate hvalid
      · rw [hmove]
        exact stack?_vacate hvalid (ne_of_mem_of_not_mem hq hout)
      · rw [hwithout.dealtIn]
        exact List.mem_filter.mpr ⟨hq, decide_eq_true fun hqp => hne (hqp ▸ rfl)⟩
    · refine .short hshort ⟨DeckError.exhausted.message, ?_⟩
      simp only [move, hfail, fail, exhausted]
  · have hmove : (s.move (.leave p)).1 = { s with roster := Table.vacate s.roster p } := by
      simp only [move, removePlayer_of_over hover, done]
    refine .same ?_ (by rw [hmove]) fun q hq _ => ?_
    · exact hmove.symm ▸ valid_vacate hrest.valid
    · rw [hmove]
      exact stack?_vacate hrest.valid fun h => hq hover (h ▸ rfl)

theorem sitDown_case (hrest : s.AtRest) (p : PlayerId) (name : String) (stack : Chips)
    (wanted : Option SeatIndex) : s.MoveCase (.sitDown p name stack wanted) := by
  cases hadd : s.roster.add p name stack wanted with
  | error e =>
      have hmove : (s.move (.sitDown p name stack wanted)).1 = s := by
        simp only [move, hadd, done]
      exact .same (hmove.symm ▸ hrest.valid) (by rw [hmove]) fun _ _ _ => by rw [hmove]
  | ok added =>
      have hmove : (s.move (.sitDown p name stack wanted)).1 = { s with roster := added.2 } := by
        simp only [move, hadd, done]
      refine .same ?_ (by rw [hmove]) fun q _ hseated => ?_
      · exact hmove.symm ▸ (Roster.add_spec hrest.valid hadd).2.2.1
      · rw [hmove]
        exact Roster.stack?_add hrest.valid hadd hseated

theorem move_cases (hrest : s.AtRest) (m : Move) : s.MoveCase m := by
  cases m with
  | act p a => exact act_case hrest p a
  | leave p => exact leave_case hrest p
  | sitDown p name stack wanted => exact sitDown_case hrest p name stack wanted

/-- A hand waits for a player or is over, unless a fault was met for too few cards. -/
theorem AtRest.move_or_short (hrest : s.AtRest) (m : Move) :
    (s.move m).1.AtRest ∨ ¬ s.hand.Stocked ∧ Faulty (s.move m) := by
  cases move_cases hrest m with
  | unfolds _ hunfolds hvalid hhand hstacks =>
      exact .inl ⟨hvalid, hhand ▸ hunfolds.goes.imp (·.of_stacks hstacks) (·.ended)⟩
  | same hvalid hhand hstacks =>
      refine .inl ⟨hvalid, hhand ▸ hrest.goes.imp_left fun ha => ha.of_stacks fun p hp => ?_⟩
      apply hstacks p _ (ha.places.seated p hp)
      intro hover
      rw [ha.not_over] at hover
      cases hover
  | short hshort hfault => exact .inr ⟨hshort, hfault⟩

theorem AtRest.move {m : Move} (hrest : s.AtRest) (hm : ¬ Faulty (s.move m)) :
    (s.move m).1.AtRest :=
  (hrest.move_or_short m).resolve_right fun h => hm h.2

/-- None of some moves, made one after another, meets a fault. -/
def Smooth (s : Spot) (moves : List Move) : Prop :=
  ∀ before m after, moves = before ++ m :: after → ¬ Faulty ((s.play before).move m)

theorem smooth_cons {m : Move} {rest : List Move} :
    s.Smooth (m :: rest) ↔ ¬ Faulty (s.move m) ∧ (s.move m).1.Smooth rest := by
  constructor
  · intro h
    refine ⟨h [] m rest rfl, fun before x after hsplit => h (m :: before) x after ?_⟩
    rw [hsplit, List.cons_append]
  · rintro ⟨hfirst, hrest⟩ before x after hsplit
    cases before with
    | nil =>
        cases hsplit
        exact hfirst
    | cons y before =>
        obtain ⟨rfl, hafter⟩ := List.cons.inj hsplit
        exact hrest before x after hafter

theorem InPlay.atRest (h : s.InPlay) : s.AtRest := ⟨h.valid, h.goes.imp_left (·.toAwake)⟩

/-- While the deck suffices nothing can go wrong. -/
theorem InPlay.not_faulty (h : s.InPlay) (m : Move) : ¬ Faulty (s.move m) := by
  rintro ⟨reason, hfault⟩
  cases m with
  | act p a =>
      rcases h.sound.acts p a with ⟨s', hact⟩ | ⟨e, hact, he⟩
      · rw [Spot.move, hact] at hfault
        cases hfault
      · rw [Spot.move, hact] at hfault
        cases hfault
        cases he
  | leave p =>
      obtain ⟨s', hremove⟩ := h.sound.leaves p
      simp [Spot.move, hremove, done] at hfault
  | sitDown p name stack wanted =>
      cases hadd : s.roster.add p name stack wanted <;> simp [Spot.move, hadd, done] at hfault

theorem InPlay.smooth (h : s.InPlay) (moves : List Move) : s.Smooth moves :=
  fun before m _ _ => (h.play before).not_faulty m

end Spot

namespace Hand
section Deal
variable {number : Nat} {r : Roster} {dealer : PlayerId} {blinds : Blinds} {deck : Deck}
  {ev : Evaluator} {d mid s : Spot} {news : List GameEvent}

theorem Opens.keepsButton (h : Opens d news mid) : d.hand.KeepsButton mid.hand := by
  cases h with
  | blinds =>
      exact ⟨dealtIn_withBet.trans dealtIn_withBet, nextDealer_withBet.trans nextDealer_withBet⟩

/-- A hand that opened and moved on waits for a player, or it is over. -/
theorem Opened.movesOn (h : Opened r d news mid) (hv : d.roster.Valid)
    (hadvance : mid.advance = s.done) :
    ∃ told, Spot.MovesOn mid told s ∧ s.hand.events = d.hand.events ++ (news ++ told) ∧
      s.AtRest := by
  rcases Spot.advance_cases (h.opens.steady h.dealt) with ⟨told, s', hs', hon⟩ | ⟨-, s', hfail⟩
  · obtain rfl : s' = s := congrArg Prod.fst (hs'.symm.trans hadvance)
    have hmoves := (h.opens.moves h.dealt).trans hon.moves
    refine ⟨told, hon, ?_, hmoves.restacked.valid hv, hon.goes.imp_right (·.ended)⟩
    rw [hon.events, h.opens.events, List.append_assoc]
  · rw [hfail] at hadvance
    cases congrArg Prod.snd hadvance

/-- So does a hand that is dealt. -/
theorem movesOn_of_deal {r' : Roster} {ev' : Evaluator} {h : Hand} (hv : r.Valid)
    (hdeal : deal number r dealer blinds deck ev = (r', ev', .ok h)) :
    ∃ pos news mid told, Opened r (freshSpot number r dealer pos blinds deck ev) news mid ∧
      Spot.MovesOn mid told ⟨h, r', ev'⟩ ∧ h.events = news ++ told ∧
      Spot.AtRest ⟨h, r', ev'⟩ := by
  obtain ⟨pos, news, -, hopened, hadvance⟩ := opened_of_deal hv hdeal
  obtain ⟨told, hon, hevents, hrest⟩ := hopened.movesOn hv hadvance
  exact ⟨pos, news, _, told, hopened, hon, hevents, hrest⟩

/-- Everybody who is dealt in is so when a hand has opened and moved on. -/
theorem Opened.dealtIn_eq {told : List GameEvent} (h : Opened r d news mid)
    (hon : Spot.MovesOn mid told s) : s.hand.dealtIn.order = r.funded := by
  rw [hon.keepsButton.dealtIn, h.opens.keepsButton.dealtIn, h.order]

end Deal
end Hand
end Holdem
