import Holdem.Proofs.Hand.Bystanders
import Holdem.Proofs.Table.Chronicle
import Holdem.Proofs.Table.Counting
import Holdem.Proofs.Table.Views

/-!
# Sitting down during a hand

Whoever sits down while a hand is played watches it until it is over, as long as they do not leave.
What the table shows of them and answers them depends on one thing only. If they were never dealt
in, they sit out: the table treats them as if no hand were played. If they were dealt in, left and
came back, the hand still has what they hold, and the table treats them as somebody who has folded.
-/
namespace Holdem.Table
variable {t : Table} {f : Floor} {p : PlayerId} {x : Player} {held : Option Holding} {number : Nat}

/-- The hand with a number is in play, and a player watches it. -/
def Watched (t : Table) (x : Player) (held : Option Holding) (number : Nat) : Prop :=
  number ≤ t.handsPlayed ∧ ∃ h, t.hand = some h ∧ h.number = number ∧ h.Bystander t.roster x held

/-- The hand with a number is over. If one is in play, it is a later one. -/
def Past (t : Table) (number : Nat) : Prop :=
  number ≤ t.handsPlayed ∧ ∀ h, t.hand = some h → number < h.number

/-! ## When the hand is over -/

theorem past_endHand (h : number ≤ t.handsPlayed) : t.endHand.Past number := by
  refine ⟨h.trans_eq handsPlayed_endHand.symm, fun hand hhand => ?_⟩
  rw [hand_endHand] at hhand
  cases hhand

/-- What is over stays over. -/
theorem Happens.past {a b : Table × Floor} (h : Happens a b) (hp : a.1.Past number) :
    b.1.Past number := by
  cases h with
  | deals _ hv _ hdeals =>
      have hnumber := (Hand.recounts_deal hv hdeals.start).2
      refine ⟨Nat.le_succ_of_le hp.1, fun hand hhand => ?_⟩
      cases hhand
      exact Nat.lt_of_lt_of_eq (Nat.lt_succ_of_le hp.1) hnumber.symm
  | goesOn hh _ _ hunfolds =>
      refine ⟨hp.1, fun hand hhand => ?_⟩
      cases hhand
      exact Nat.lt_of_lt_of_eq (hp.2 _ hh) hunfolds.number.symm
  | clears => exact past_endHand hp.1
  | sitsDown | standsUp | talks | stops => exact hp

/-! ## While the hand is played -/

theorem Watched.wentOn {h : Hand} {told : List GameEvent} {s : Spot}
    (hwatched : t.Watched x held number) (hw : t.Waiting) (hh : t.hand = some h)
    (hunfolds : Spot.Unfolds ⟨h, t.roster, f.evaluator⟩ told s) :
    (t.wentOn s).Watched x held number := by
  obtain ⟨hplayed, h', hh', hnumber, hb⟩ := hwatched
  cases hh'.symm.trans hh
  have hafter := hb.unfolds (hw.live h hh).toAwake hunfolds
  exact ⟨hplayed, _, rfl, hunfolds.number.trans hnumber, { hafter with }⟩

/-- Others may sit down or stand up. -/
theorem Watched.of_seats {t' : Table} (h : t.Watched x held number) (hhand : t'.hand = t.hand)
    (hplayed : t'.handsPlayed = t.handsPlayed)
    (hseat : t'.roster.get? x.id = t.roster.get? x.id) : t'.Watched x held number := by
  obtain ⟨hcount, hand, hh, hnumber, hb⟩ := h
  exact ⟨hplayed ▸ hcount, hand, hhand.trans hh, hnumber, hb.reseat hseat⟩

theorem Watched.finishIfOver (h : t.Watched x held number) (f : Floor) (hi : t.InOrder) :
    (t.finishIfOver f).1.Watched x held number ∨ (t.finishIfOver f).1.Past number := by
  have hcleared : t.endHand.Past number := past_endHand h.1
  unfold Table.finishIfOver
  split
  · exact .inl h
  · next hover =>
      rw [Bool.not_eq_true', Bool.not_eq_false] at hover
      split
      · exact .inr hcleared
      · have hgoes := dealHands_goes maxUnattendedHands false f (hi.endHand hover).1.toInOrder
          hand_endHand
        exact .inr (hgoes.keeps (P := fun a => a.1.Past number) (·.past) hcleared)

/-- An action lets the hand go on or is refused. -/
theorem Watched.act (h : t.Watched x held number) (hr : t.Ready) (p : PlayerId) (a : Action) :
    (t.respondAct f p a).table.Watched x held number ∨
      (t.respondAct f p a).table.Past number := by
  obtain ⟨hand, hh, -⟩ := h.2
  cases hv : Spot.validate ⟨hand, t.roster, f.evaluator⟩ p a with
  | error e =>
      rw [respondAct_refused hr.quiet hh hv]
      exact .inl h
  | ok plan =>
      obtain ⟨told, s, hunfolds, -, hafter⟩ := respondAct_accepted hr.toWaiting hh hv
      rw [show (t.respondAct f p a).table = _ from congrArg Prod.fst hafter]
      exact (h.wentOn hr.toWaiting hh hunfolds).finishIfOver _ (hr.wentOn hh hunfolds).1

/-- Others take their leave of the hand. -/
theorem Watched.leave (h : t.Watched x held number) (hr : t.Ready) (hp : p ≠ x.id) :
    (t.respondLeave f p).table.Watched x held number ∨
      (t.respondLeave f p).table.Past number := by
  obtain ⟨hand, hh, -⟩ := h.2
  cases hin : t.roster.contains p with
  | false =>
      rw [respondLeave, hin]
      exact .inl h
  | true =>
      obtain ⟨mid, f', y, r, hplays, hremove, hleft, heq⟩ :=
        respondLeave_seated (f := f) hr.toWaiting hr.quiet hin
      obtain ⟨hi, -⟩ := hplays.inOrder hr.toWaiting hr.quiet
      have hmid : mid.Watched x held number := by
        cases hplays with
        | idle hnone =>
            rw [hnone] at hh
            cases hh
        | goesOn hplaying _ _ hunfolds => exact h.wentOn hr.toWaiting hplaying hunfolds
      obtain ⟨hget, hv, -, -, hperm⟩ := Roster.remove_spec hi.valid hremove
      have hid : y.id = p := ((Roster.get?_eq_some_iff hi.valid).mp hget).2
      have hsame : r.get? x.id = mid.roster.get? x.id :=
        (Roster.get?_of_perm_cons hv hi.valid hperm (hid ▸ hp.symm)).symm
      have hstood : (mid.leftBy r p y.stack).Watched x held number := hmid.of_seats rfl rfl hsame
      rw [heq]
      exact hstood.finishIfOver _ hleft

/-- Whoever joins takes a seat that nobody has. -/
theorem Watched.join (h : t.Watched x held number) (hr : t.Ready) (p : PlayerId) (name : String)
    (stack : Chips) (wanted : Option SeatIndex) :
    (t.respondJoin f p name stack wanted).table.Watched x held number := by
  obtain ⟨hand, hh, -, hb⟩ := h.2
  rcases respondJoin_cases hr.valid f p name stack wanted with
    ⟨e, heq⟩ | ⟨seat, r, before, lobby, hseat, -, heq⟩
  · rw [heq]
    exact h
  · obtain ⟨hnew, -, hv, -, -, hperm⟩ := Roster.add_spec hr.valid (takeSeat_ok hseat)
    have hne : x.id ≠ p := fun hsame => by
      rw [Roster.contains, ← hsame, hb.seated] at hnew
      cases hnew
    rw [heq, welcome_during hh]
    exact h.of_seats rfl rfl (Roster.get?_of_perm_cons hr.valid hv hperm hne)

/-- Whatever message but their own leave-taking comes, a player goes on watching the hand until it
is over. -/
theorem Watched.respond (h : t.Watched x held number) (hr : t.Ready) {m : Message}
    (hm : m ≠ .leave x.id) :
    (t.respond f m).table.Watched x held number ∨ (t.respond f m).table.Past number := by
  cases m with
  | act p a => exact h.act hr p a
  | deal p =>
      obtain ⟨hand, hh, -⟩ := h.2
      refine .inl ?_
      simp only [Table.respond, respondDeal, hh]
      split <;> exact h
  | join p name stack wanted => exact .inl (h.join hr p name stack wanted)
  | leave p => exact h.leave hr fun hp => hm (hp ▸ rfl)
  | say p message =>
      refine .inl ?_
      simp only [Table.respond, respondSay]
      split <;> exact h
  | pocket p =>
      refine .inl ?_
      simp only [Table.respond, respondPocket]
      split <;> exact h
  | close => exact .inl h

/-! ## From one message to the next -/

theorem Past.handle (h : t.Past number) (hr : t.Ready) (f : Floor) (m : Message) :
    (t.handle f m).1.Past number := by
  have hafter := (respond_goes (f := f) hr.toWaiting hr.quiet m).keeps
    (P := fun a => a.1.Past number) (·.past) h
  rw [Past, handsPlayed_handle, hand_handle]
  exact hafter

theorem Watched.handle (h : t.Watched x held number) (hr : t.Ready) (f : Floor) {m : Message}
    (hm : m ≠ .leave x.id) :
    (t.handle f m).1.Watched x held number ∨ (t.handle f m).1.Past number := by
  rw [Watched, Past, handsPlayed_handle, hand_handle, roster_handle]
  exact h.respond hr hm

/-- A player who does not leave watches the hand until it is over. -/
theorem run_watched (h : t.Watched x held number ∨ t.Past number) (hr : t.Ready)
    {visits : List Visit} (hstays : ∀ v ∈ visits, v.message ≠ .leave x.id) :
    (t.run visits).1.Watched x held number ∨ (t.run visits).1.Past number := by
  induction visits generalizing t with
  | nil => exact h
  | cons v rest ih =>
      refine ih ?_ (hr.handle v.floor v.message) fun w hw => hstays w (List.mem_cons_of_mem v hw)
      exact h.elim (·.handle hr v.floor (hstays v List.mem_cons_self))
        fun hpast => .inr (hpast.handle hr v.floor v.message)

/-- Whoever sits down during a hand watches it, with what they hold in it if they were dealt in
before. -/
theorem watched_of_join {hand : Hand} {wanted : Option SeatIndex} (hr : t.Ready)
    (hh : t.hand = some hand) (hplayed : hand.number ≤ t.handsPlayed)
    (hreply : (t.handle f (.join x.id x.name x.stack wanted)).2.2 = .ok (.seat x.seat)) :
    (t.handle f (.join x.id x.name x.stack wanted)).1.Watched x (hand.holdings.get? x.id)
      hand.number := by
  rw [Watched, handsPlayed_handle, hand_handle, roster_handle]
  rw [reply_handle] at hreply
  simp only [Table.respond] at hreply ⊢
  rcases respondJoin_cases hr.valid f x.id x.name x.stack wanted with
    ⟨e, heq⟩ | ⟨seat, r, before, lobby, hseat, -, heq⟩
  · rw [heq] at hreply
    cases hreply
  · obtain ⟨hnew, -, hv, -, -, hperm⟩ := Roster.add_spec hr.valid (takeSeat_ok hseat)
    rw [heq] at hreply ⊢
    obtain rfl : seat = x.seat := by
      injection hreply with hanswer
      injection hanswer
    have hget : r.get? x.id = some x :=
      (Roster.get?_eq_some_iff hv).mpr ⟨hperm.mem_iff.mpr List.mem_cons_self, rfl⟩
    have hout : x.id ∉ hand.dealtIn.order := fun hin => by
      rw [(hr.live hand hh).places.seated x.id hin] at hnew
      cases hnew
    rw [welcome_during hh]
    exact ⟨hplayed, hand, hh, rfl, hout, hget, rfl⟩

/-! ## What is shown and answered -/

/-- The table shows a player, and answers them, as if no hand were played. -/
structure SitsOut (t : Table) (x : Player) : Prop where
  shown : t.snapshot.seatOf x.id =
    some
      { player := x.id
        name := x.name
        seat := x.seat
        stack := x.stack
        bet := 0
        dealtIn := false
        folded := false
        allIn := false }
  pocket : ∀ f, (t.handle f (.pocket x.id)).2.2 = .error (.action .notInHand)
  act : ∀ f a, (t.handle f (.act x.id a)).2.2 = .error (.action .notInHand)

/-- The table shows a player, and answers them, as somebody who was dealt some cards and folded. -/
structure HasFolded (t : Table) (x : Player) (cards : List Card) : Prop where
  shown : ∃ bet allIn, t.snapshot.seatOf x.id =
    some
      { player := x.id
        name := x.name
        seat := x.seat
        stack := x.stack
        bet
        dealtIn := true
        folded := true
        allIn }
  pocket : ∀ f, (t.handle f (.pocket x.id)).2.2 = .ok (.cards cards)
  act : ∀ f a, (t.handle f (.act x.id a)).2.2 = .error (.action .outOfTurn)

theorem HasFolded.not_sitsOut {cards : List Card} (h : t.HasFolded x cards) : ¬ t.SitsOut x := by
  intro hout
  obtain ⟨bet, allIn, hshown⟩ := h.shown
  cases hout.shown.symm.trans hshown

section Bystander
variable {h : Hand}

theorem seatOf_bystander (hshown : t.snapshot = t.view) (hh : t.hand = some h)
    (hb : h.Bystander t.roster x held) : t.snapshot.seatOf x.id = some (seatView (some h) x) := by
  rw [hshown, view, seatOf_publicView, hb.seated, hh]
  rfl

theorem act_bystander (hr : t.Ready) (hh : t.hand = some h) (hb : h.Bystander t.roster x held)
    (f : Floor) (a : Action) :
    (t.handle f (.act x.id a)).2.2 =
      .error (.action (if held.isSome then .outOfTurn else .notInHand)) := by
  rw [reply_handle, Table.respond,
    respondAct_refused hr.quiet hh (hb.validate_eq (hr.live h hh) a)]

theorem pocket_bystander (hh : t.hand = some h) (hb : h.Bystander t.roster x held) (f : Floor) :
    (t.handle f (.pocket x.id)).2.2 =
      held.elim (.error (.action .notInHand)) fun holding => .ok (.cards holding.pocket) := by
  have hcards : t.hand.bind (·.pocket? x.id) = held.map (·.pocket) := by
    rw [hh]
    exact hb.pocket?_eq
  rw [reply_handle, Table.respond, respondPocket, hcards]
  cases held <;> rfl

theorem sitsOut_of_newcomer (hr : t.Ready) (hshown : t.snapshot = t.view) (hh : t.hand = some h)
    (hb : h.Bystander t.roster x none) : t.SitsOut x where
  shown := by
    have hl := hr.live h hh
    rw [seatOf_bystander hshown hh hb, seatView]
    simp [hb.isDealtIn_eq, hb.isFolded_eq hl, hb.isAllIn_newcomer, hb.contribution_newcomer hl]
  pocket f := pocket_bystander hh hb f
  act f a := act_bystander hr hh hb f a

theorem hasFolded_of_returned {holding : Holding} (hr : t.Ready) (hshown : t.snapshot = t.view)
    (hh : t.hand = some h) (hb : h.Bystander t.roster x (some holding)) :
    t.HasFolded x holding.pocket where
  shown := by
    refine ⟨h.round.contribution x.id, h.isAllIn x.id, ?_⟩
    rw [seatOf_bystander hshown hh hb, seatView]
    simp [hb.isDealtIn_eq, hb.isFolded_eq (hr.live h hh)]
  pocket f := pocket_bystander hh hb f
  act f a := act_bystander hr hh hb f a

end Bystander

/-- A player who sat down during a hand watches it as long as it is played. -/
theorem run_bystander {hand now : Hand} {arrival : Visit} {wanted : Option SeatIndex}
    {during : List Visit} (hr : t.Ready) (hh : t.hand = some hand)
    (hplayed : hand.number ≤ t.handsPlayed)
    (hjoin : arrival.message = .join x.id x.name x.stack wanted)
    (hseat : (t.visit arrival).2.reply = .ok (.seat x.seat))
    (hstays : ∀ v ∈ during, v.message ≠ .leave x.id)
    (hnow : (t.run (arrival :: during)).1.hand = some now) (hsame : now.number = hand.number) :
    now.Bystander (t.run (arrival :: during)).1.roster x (hand.holdings.get? x.id) := by
  have hafter := hr.handle arrival.floor arrival.message
  rcases run_watched (.inl (watched_of_join hr hh hplayed (hjoin ▸ hseat))) (hjoin ▸ hafter) hstays
    with hwatched | hpast
  · obtain ⟨-, h, hh', -, hb⟩ := hwatched
    rw [← hjoin] at hh' hb
    cases hh'.symm.trans hnow
    exact hb
  · rw [← hjoin] at hpast
    exact absurd hsame (Nat.ne_of_gt (hpast.2 now hnow))

/-- Somebody who sits down during a hand keeps their seat and stack until it is over, as long as
they do not leave. They sit out exactly if they were not dealt in. Otherwise they have left that
very hand, and the table treats them as somebody who has folded the cards they were dealt. -/
theorem sits_out_iff_not_dealt_in {id : TableId} {config : TableConfig}
    (h : config.validate = .ok ()) (before during : List Visit) (arrival : Visit) (x : Player)
    (wanted : Option SeatIndex) (hand now : Hand)
    (hh : ((create id config).run before).1.hand = some hand)
    (hjoin : arrival.message = .join x.id x.name x.stack wanted)
    (hseat : (((create id config).run before).1.visit arrival).2.reply = .ok (.seat x.seat))
    (hstays : ∀ v ∈ during, v.message ≠ .leave x.id)
    (hnow : ((create id config).run (before ++ arrival :: during)).1.hand = some now)
    (hsame : now.number = hand.number) :
    ((create id config).run (before ++ arrival :: during)).1.roster.get? x.id = some x ∧
      (((create id config).run (before ++ arrival :: during)).1.SitsOut x ↔
        hand.isDealtIn x.id = false) ∧
      ∀ cards, hand.pocket? x.id = some cards →
        ((create id config).run (before ++ arrival :: during)).1.HasFolded x cards := by
  have hopened : (create id config).Chronicled [] := ⟨create_ready id h, .between rfl .nil⟩
  have hbefore := hopened.run before
  have hafter := (hopened.run (before ++ arrival :: during)).toReady
  have hshown := snapshot_run hopened.toWaiting snapshot_create (before ++ arrival :: during)
  have hb : now.Bystander ((create id config).run (before ++ arrival :: during)).1.roster x
      (hand.holdings.get? x.id) := by
    rw [run_append] at hnow ⊢
    exact run_bystander hbefore.toReady hh (hbefore.narrated.number_le hh) hjoin hseat hstays hnow
      hsame
  refine ⟨hb.seated, ?_⟩
  rw [Hand.isDealtIn, NatMap.contains, Hand.pocket?]
  cases hheld : hand.holdings.get? x.id with
  | none =>
      rw [hheld] at hb
      refine ⟨iff_of_true (sitsOut_of_newcomer hafter hshown hnow hb) rfl, fun cards hcards => ?_⟩
      cases hcards
  | some holding =>
      rw [hheld] at hb
      have hfolded := hasFolded_of_returned hafter hshown hnow hb
      refine ⟨iff_of_false hfolded.not_sitsOut Bool.noConfusion, fun cards hcards => ?_⟩
      cases hcards
      exact hfolded

/-- Somebody sits down next to two players who were dealt a hand. -/
def lateArrival : Visit := ⟨threeKnown, .join 3 "carl" 300 none⟩

/-- What happens after that. -/
def meanwhile : List Visit := [⟨threeKnown, .act 1 .call⟩, ⟨threeKnown, .pocket 3⟩]

theorem sits_out_iff_not_dealt_in_late_arrival :
    ∃ hand now : Hand, ((create 1 {}).run headsUp).1.hand = some hand ∧
      ((create 1 {}).run (headsUp ++ lateArrival :: meanwhile)).1.hand = some now ∧
      now.number = hand.number ∧
      ((create 1 {}).run (headsUp ++ lateArrival :: meanwhile)).1.roster.get? 3 =
        some ⟨3, "carl", 300, 2⟩ ∧
      (((create 1 {}).run (headsUp ++ lateArrival :: meanwhile)).1.SitsOut ⟨3, "carl", 300, 2⟩ ↔
        hand.isDealtIn 3 = false) ∧
      ∀ cards, hand.pocket? 3 = some cards →
        ((create 1 {}).run (headsUp ++ lateArrival :: meanwhile)).1.HasFolded
          ⟨3, "carl", 300, 2⟩ cards := by
  have hnumbers : ((create 1 {}).run headsUp).1.hand.map Hand.number = some 1 ∧
      ((create 1 {}).run (headsUp ++ lateArrival :: meanwhile)).1.hand.map Hand.number =
        some 1 := by
    decide +kernel
  obtain ⟨hand, hh, hnumber⟩ := Option.map_eq_some_iff.mp hnumbers.1
  obtain ⟨now, hnow, hsame⟩ := Option.map_eq_some_iff.mp hnumbers.2
  exact ⟨hand, now, hh, hnow, hsame.trans hnumber.symm,
    sits_out_iff_not_dealt_in (by decide) headsUp meanwhile lateArrival ⟨3, "carl", 300, 2⟩ none
      hand now hh rfl (by decide +kernel) (by decide) hnow (hsame.trans hnumber.symm)⟩

/-- A table for three where a hand is dealt when somebody asks for it. -/
def threeSeats : TableConfig := { maxPlayers := 3, autoStart := false, shuffleSeed := some 7 }

/-- Three players are dealt a hand, and one of them leaves and sits down again. -/
def comingBack : List Message :=
  [.join 1 "ann" 500 none, .join 2 "bob" 500 none, .join 3 "carl" 500 none, .deal 1, .leave 2,
    .join 2 "bob" 500 none]

theorem returned_player_seen_in_hand :
    threeSeats.validate = .ok () ∧
      ((create 1 threeSeats).run ((create 1 threeSeats).undisturbed threeKnown
        (comingBack.take 5))).1.hand.map Hand.number = some 1 ∧
      (((create 1 threeSeats).run ((create 1 threeSeats).undisturbed threeKnown
        comingBack)).2.map Entry.reply)[5]? = some (.ok (.seat 1)) ∧
      ((create 1 threeSeats).run ((create 1 threeSeats).undisturbed threeKnown
        comingBack)).1.hand.map Hand.number = some 1 ∧
      ((create 1 threeSeats).run ((create 1 threeSeats).undisturbed threeKnown
        comingBack)).1.snapshot.seatOf 2 =
        some
          { player := 2
            name := "bob"
            seat := 1
            stack := 500
            bet := 5
            dealtIn := true
            folded := true
            allIn := false } := by
  decide +kernel

end Holdem.Table
