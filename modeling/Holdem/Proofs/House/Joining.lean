import Holdem.Proofs.House.Changes

/-!
# Sitting down is all or nothing

Whoever asks for a seat gets it, or nothing has happened at all. A refusal leaves the whole house as
it was, also where a seat was taken that had to be given up again. Otherwise the player was at no
table and the seat was open, and besides the player with their stack only hands that are dealt
there and then change the roster.
-/
namespace Holdem

namespace Table
variable {t : Table} {f : Floor} {p : PlayerId} {name : String} {stack : Chips}
  {wanted : Option SeatIndex} {seat : SeatIndex}

/-! ## Hands that are dealt in between -/

/-- What becomes of a roster when so many hands more are dealt to it, one after another. -/
inductive AfterHands (played : Nat) (blinds : Blinds) (deck : Nat → Deck) (r : Roster) :
    Nat → Roster → Prop
  | none : AfterHands played blinds deck r 0 r
  | dealt {n : Nat} {mid after : Roster} {dealer : PlayerId} {ev ev' : Evaluator} {h : Hand} :
      AfterHands played blinds deck r n mid →
      Hand.start (played + n + 1) mid dealer blinds (deck (played + n + 1)) ev =
        (after, ev', .ok h) →
      AfterHands played blinds deck r (n + 1) after

/-- The roster of a table after so many hands more were dealt there. -/
abbrev RosterAfter (t : Table) (f : Floor) (r : Roster) : Nat → Roster → Prop :=
  AfterHands t.handsPlayed t.config.blinds (t.deck f) r

/-- A table at which so many hands were dealt since, and nothing else happened. -/
structure DealtSince (a : Table × Floor) (n : Nat) (b : Table × Floor) : Prop where
  config : b.1.config = a.1.config
  id : b.1.id = a.1.id
  chance : b.2.chance = a.2.chance
  count : b.1.handsPlayed = a.1.handsPlayed + n
  roster : a.1.RosterAfter a.2 a.1.roster n b.1.roster

/-- The induction is over what happened, of which clearing away a hand deals no other one. -/
theorem DealtOn.dealtSince {a b : Table × Floor} (h : DealtOn a b) : ∃ n, DealtSince a n b := by
  induction h with
  | refl => exact ⟨0, rfl, rfl, rfl, rfl, .none⟩
  | tail _ hlast ih =>
      obtain ⟨n, hs⟩ := ih
      cases hlast with
      | @deals t f dealer s news _ _ _ hdeals =>
          have hdeck : t.deck f (a.1.handsPlayed + n + 1) =
              a.1.deck a.2 (a.1.handsPlayed + n + 1) := by
            rw [deck, deck, hs.config, hs.id, hs.chance]
          have hstart := hdeals.start
          rw [hs.count, hs.config, hdeck] at hstart
          exact ⟨n + 1, hs.config, hs.id, hs.chance, congrArg (· + 1) hs.count,
            .dealt hs.roster hstart⟩
      | clears =>
          refine ⟨n, config_endHand.trans hs.config, id_endHand.trans hs.id, hs.chance,
            handsPlayed_endHand.trans hs.count, ?_⟩
          rw [roster_endHand]
          exact hs.roster

/-! ## At a table -/

/-- Whoever may sit down at a table, and where. -/
structure Admits (t : Table) (l : Lobby) (p : PlayerId) (stack : Chips)
    (wanted : Option SeatIndex) (seat : SeatIndex) : Prop where
  affordable : t.config.minBuyIn ≤ stack ∧ stack ≤ t.config.maxBuyIn
  running : t.stopped = false
  unclosed : t.roster.closed = false
  unseated : t.roster.contains p = false
  idle : l.stateOf p = .ok .idle
  free : t.roster.seats[seat]? = some none
  asked : ∀ w, wanted = some w → seat = w
  lowest : wanted = none → ∀ lower < seat, t.roster.seats[lower]? ≠ some none

/-- The roster with a player in a seat. -/
def withPlayer (t : Table) (p : PlayerId) (name : String) (stack : Chips) (seat : SeatIndex) :
    Roster :=
  { t.roster with seats := t.roster.seats.set seat (some { id := p, name, stack, seat }) }

/-- Only somebody who is at no table may join one. -/
theorem idle_of_joins {l l' : Lobby} {before next : SessionState}
    (h : l.transition p .joinTable next = .ok (before, l')) : l.stateOf p = .ok .idle := by
  obtain ⟨hbefore, hpermits, -⟩ := Lobby.transition_ok h
  refine Lobby.stateOf_eq_ok.mpr (hbefore.trans (congrArg some ?_))
  cases before with
  | idle => rfl
  | seatedWaiting | playing => cases hpermits

/-- Whoever gets a seat is admitted to it. -/
theorem admits_of_takeSeat {r : Roster} {l l' : Lobby} {before next : SessionState}
    (hrun : t.stopped = false) (h : t.takeSeat f p name stack wanted = .ok (seat, r))
    (hstate : l.transition p .joinTable next = .ok (before, l')) :
    t.Admits l p stack wanted seat ∧ r = t.withPlayer p name stack seat := by
  obtain ⟨hnew, -, hopen, hr⟩ := Roster.add_ok (takeSeat_ok h)
  unfold takeSeat at h
  split at h
  · cases h
  · next hbuyIn =>
      split at h
      · cases h
      · split at h
        · cases h
        · next hunclosed =>
            exact
              ⟨{ affordable := TableConfig.checkBuyIn_eq_ok_iff.mp hbuyIn
                 running := hrun
                 unclosed := Bool.eq_false_iff.mpr hunclosed
                 unseated := hnew
                 idle := idle_of_joins hstate
                 free := Roster.openSeat_spec hopen
                 asked := fun w hw => Roster.openSeat_some (hw ▸ hopen)
                 lowest := fun hw => Roster.openSeat_none (hw ▸ hopen) }, hr⟩

/-- A refused join changes nothing of a table that has nothing to tell. -/
theorem Ready.handle_join_error {e : SessionError} (hr : t.Ready) (htold : t.announcements = [])
    (h : (t.handle f (.join p name stack wanted)).2.2 = .error e) :
    (t.handle f (.join p name stack wanted)).1 = t ∧
      (t.handle f (.join p name stack wanted)).2.1 = f := by
  have hnone : t.tellAll f = (t, f) := by
    unfold tellAll
    rw [hr.noted, htold]
    exact congrArg (·, f) (by rw [← hr.noted, ← htold])
  rcases respondJoin_cases hr.valid f p name stack wanted with
    ⟨e', heq⟩ | ⟨seat, r, before, lobby, -, -, heq⟩
  · have hsame : t.handle f (.join p name stack wanted) = (t, f, .error e') := by
      simp only [Table.handle, Table.respond, heq, refuse]
      exact congrArg (fun o : Table × Floor => (o.1, o.2, _)) hnone
    rw [hsame]
    exact ⟨rfl, rfl⟩
  · rw [reply_handle, Table.respond, heq] at h
    cases h

/-- Whoever gets a seat is admitted to it, and hands are dealt to all who are seated then. -/
theorem Ready.handle_join_ok {answer : Answer} (hr : t.Ready) (hrun : t.stopped = false)
    (h : (t.handle f (.join p name stack wanted)).2.2 = .ok answer) :
    ∃ seat hands, answer = .seat seat ∧ t.Admits f.lobby p stack wanted seat ∧
      (t.handle f (.join p name stack wanted)).1.handsPlayed = t.handsPlayed + hands ∧
      t.RosterAfter f (t.withPlayer p name stack seat) hands
        (t.handle f (.join p name stack wanted)).1.roster := by
  rw [reply_handle] at h
  rw [handsPlayed_handle, roster_handle]
  simp only [Table.respond] at h ⊢
  rcases respondJoin_cases hr.valid f p name stack wanted with
    ⟨e, heq⟩ | ⟨seat, r, before, lobby, hseat, hstate, heq⟩
  · rw [heq] at h
    cases h
  · rw [heq] at h ⊢
    cases h
    obtain ⟨hadmits, rfl⟩ := admits_of_takeSeat hrun hseat hstate
    obtain ⟨hands, hsince⟩ := (welcome_dealtOn (f := { f with lobby })
      (hr.toWaiting.seatedAt (takeSeat_ok hseat)).toInOrder).dealtSince
    exact ⟨seat, hands, rfl, hadmits, hsince.count, hsince.roster⟩

end Table

namespace House
variable {h h' : House} {id : TableId}

/-! ## In a house -/

/-- Whatever has happened in a house before, and whoever asks for whichever seat: if the answer is a
refusal nothing has changed, neither the tables with their rosters, hands and views, nor the
sessions, nor who listens or what they were told. Otherwise the table runs and admits the player to
the seat answered; its roster is the one with the player in that seat and their stack, after the
hands that were dealt with the message; and no other table has changed. -/
theorem joins_all_or_nothing (evaluator : Evaluator) (chance : TableId → Nat → Nat → UInt32)
    (h : House) (hreached : Evolves (opening evaluator chance) h) (id : TableId) (p : PlayerId)
    (name : String) (stack : Chips) (wanted : Option SeatIndex) (after : House) (reply : Reply)
    (hsent : h.send id (.join p name stack wanted) = (after, reply)) :
    (∀ e, reply = .error e → after = h) ∧
      ∀ answer, reply = .ok answer → ∃ t t' seat hands,
        h.tables.get? id = some t ∧ after.tables = h.tables.insert id t' ∧
        answer = .seat seat ∧ t.Admits h.floor.lobby p stack wanted seat ∧
        t'.handsPlayed = t.handsPlayed + hands ∧
        t.RosterAfter h.floor (t.withPlayer p name stack seat) hands t'.roster := by
  cases ht : h.tables.get? id with
  | none =>
      rw [send, ht] at hsent
      cases hsent
      exact ⟨fun _ _ => rfl, fun _ hanswer => by cases hanswer⟩
  | some t =>
      cases hrun : t.stopped with
      | true =>
          simp only [send, ht, hrun] at hsent
          cases hsent
          exact ⟨fun _ _ => rfl, fun _ hanswer => by cases hanswer⟩
      | false =>
          have hready := hreached.ready id t ht
          have htold := hreached.allTold id t ht
          rw [send_eq ht hrun] at hsent
          cases hsent
          refine ⟨fun e he => ?_, fun answer hanswer => ?_⟩
          · obtain ⟨htable, hfloor⟩ := hready.handle_join_error htold he
            rw [htable, hfloor, NatMap.insert_of_get? ht]
          · obtain ⟨seat, hands, rfl, hadmits, hcount, hroster⟩ :=
              hready.handle_join_ok hrun hanswer
            exact ⟨t, _, seat, hands, rfl, rfl, rfl, hadmits, hcount, hroster⟩

/-- Somebody who waits at one table can not sit down at another one as well, and gets up again. The
next player to sit down where they wait is dealt a hand with them. -/
theorem joins_all_or_nothing_two_tables :
    let quiet := Traffic.opening { value := fun _ => HandValue.best } fun _ _ _ => 0
    let waiting := (quiet.run [.register "ann", .register "bob", .openTable {}, .carryOn 1,
      .carryOn 1, .openTable {}, .carryOn 2, .carryOn 2, .ask 1 (.joinTable 1 500 none),
      .arrive 0]).house
    (waiting.send 2 (.join 1 "ann" 500 none)).1 = waiting ∧
      ∃ t t' hands, waiting.tables.get? 1 = some t ∧
        (waiting.send 1 (.join 2 "bob" 700 none)).1.tables = waiting.tables.insert 1 t' ∧
        t.Admits waiting.floor.lobby 2 700 none 1 ∧ t'.handsPlayed = t.handsPlayed + hands ∧
        t.RosterAfter waiting.floor (t.withPlayer 2 "bob" 700 1) hands t'.roster := by
  intro quiet waiting
  have hreached : Evolves quiet.house waiting := quiet.evolves_run _
  obtain ⟨hrefused, -⟩ :=
    joins_all_or_nothing _ _ waiting hreached 2 1 "ann" 500 none _ _ Prod.mk.eta.symm
  obtain ⟨-, hseated⟩ :=
    joins_all_or_nothing _ _ waiting hreached 1 2 "bob" 700 none _ _ Prod.mk.eta.symm
  refine ⟨hrefused (.notAllowed .joinTable .seatedWaiting) (by decide +kernel), ?_⟩
  obtain ⟨t, t', seat, hands, ht, hafter, hseat, hadmits, hcount, hroster⟩ :=
    hseated (.seat 1) (by decide +kernel)
  cases hseat
  exact ⟨t, t', hands, ht, hafter, hadmits, hcount, hroster⟩

end House
end Holdem
