import Holdem.Proofs.Hand.Waiting
import Holdem.Proofs.Table.Dealing
import Holdem.Table.Message

/-!
# What messages do to a table

Every message leaves a table in order, with no hand or one that waits for a player. The chips at
the table change by the stack that a player brings or takes along and by nothing else, no action
is answered with a fault, and nobody is told of a hand being aborted.
-/
namespace Holdem

/-- The stack that comes to a table with a message. -/
def Message.broughtIn : Message → Reply → Chips
  | .join _ _ stack _, .ok _ => stack
  | _, _ => 0

/-- The stack that leaves a table with a message. -/
def Message.takenAway : Message → Reply → Chips
  | .leave _, .ok (.chips stack) => stack
  | _, _ => 0

/-- An answer that blames the table and not the player. -/
def Reply.isFault : Reply → Bool
  | .error (.action e) => e.isInternal
  | _ => false

namespace Table
variable {t : Table} {f : Floor} {p : PlayerId}

/-! ## Changes to a table in order -/

/-- A step of the hand is a step of the table. -/
theorem InOrder.step {h : Hand} {s : Spot} {ev : Evaluator} (hi : t.InOrder)
    (hh : t.hand = some h) (hl : h.Live t.roster) (hmoves : Spot.Moves ⟨h, t.roster, ev⟩ s)
    (hgoes : s.hand.Live s.roster ∨ s.hand.Settled s.roster) :
    ({ t with hand := some s.hand, roster := s.roster } : Table).InOrder ∧
      ({ t with hand := some s.hand, roster := s.roster } : Table).onTable = t.onTable := by
  have hv := hmoves.restacked.valid hi.valid
  constructor
  · refine ⟨hv, ?_, fun h' hh' => ?_, fun h' hh' => ?_, hi.told⟩
    · exact Nat.le_trans (Nat.le_of_eq hmoves.restacked.capacity_eq) hi.seats
    · cases hh'
      exact hgoes
    · cases hh'
      obtain ⟨news, hnews, htold⟩ := hmoves.told
      rw [hnews]
      intro e he
      rcases List.mem_append.mp he with he | he
      · exact hi.heard h hh e he
      · exact htold e he
  · have hseated : h.dealtIn.order ⊆ t.roster.ids := fun q hq =>
      Roster.mem_ids_iff.mpr (hl.places.seated q hq)
    have hpool := hmoves.pooled t.roster.ids hi.valid.distinct hseated
    rw [onTable, onTable, middle, middle, hh, Roster.totalChips_eq_chipsOf hv,
      Roster.totalChips_eq_chipsOf hi.valid, hmoves.restacked.ids_eq]
    exact hpool

/-- Other seats may change as long as the stacks of the hand stay. -/
theorem InOrder.reseat {r : Roster} (hi : t.InOrder) (hv : r.Valid)
    (hcap : r.capacity = t.roster.capacity)
    (hsame : ∀ h, t.hand = some h → ∀ q ∈ h.dealtIn.order, r.stack? q = t.roster.stack? q) :
    ({ t with roster := r } : Table).InOrder :=
  { hi with
    valid := hv
    seats := Nat.le_trans (Nat.le_of_eq hcap) hi.seats
    goes := fun h hh =>
      (hi.goes h hh).imp (·.of_stacks (hsame h hh)) (·.of_stacks (hsame h hh)) }

theorem Waiting.reseat {r : Roster} (hw : t.Waiting) (hv : r.Valid)
    (hcap : r.capacity = t.roster.capacity)
    (hsame : ∀ h, t.hand = some h → ∀ q ∈ h.dealtIn.order, r.stack? q = t.roster.stack? q) :
    ({ t with roster := r } : Table).Waiting :=
  { hw.toInOrder.reseat hv hcap hsame with
    live := fun h hh => (hw.live h hh).of_stacks (hsame h hh) }

/-- Telling of something else than an aborted hand changes nothing. -/
theorem InOrder.tell {e : GameEvent} (hi : t.InOrder) (news : List ServerEvent)
    (he : e.isAbort = false) :
    ({ t with outbox := t.outbox ++ [e], announcements := news } : Table).InOrder :=
  { hi with
    told := fun x hx => by
      rcases List.mem_append.mp hx with hx | hx
      · exact hi.told x hx
      · rw [List.mem_singleton.mp hx]
        exact he }

theorem Waiting.tell {e : GameEvent} (hw : t.Waiting) (news : List ServerEvent)
    (he : e.isAbort = false) :
    ({ t with outbox := t.outbox ++ [e], announcements := news } : Table).Waiting :=
  { hw.toInOrder.tell news he with live := hw.live }

/-! ## Message by message -/

/-- What a message comes to before anybody is told of it. -/
structure Settles (t : Table) (m : Message) (r : Response) : Prop where
  waiting : r.table.Waiting
  chips : r.table.onTable + m.takenAway r.reply = t.onTable + m.broughtIn r.reply
  faultless : ∀ p a, m = .act p a → r.reply.isFault = false
  unseen : r.renew = false → r.table.snapshot = t.snapshot ∧ r.table.onTable = t.onTable

/-- Where the view is renewed, it does not matter what was seen before. -/
theorem Settles.of_renew {m : Message} {r : Response} (hw : r.table.Waiting)
    (hchips : r.table.onTable + m.takenAway r.reply = t.onTable + m.broughtIn r.reply)
    (hfault : ∀ p a, m = .act p a → r.reply.isFault = false) (hrenew : r.renew = true) :
    t.Settles m r where
  waiting := hw
  chips := hchips
  faultless := hfault
  unseen := fun h => by
    rw [hrenew] at h
    cases h

theorem refuse_settles {e : SessionError} {m : Message} (hw : t.Waiting)
    (he : ∀ p a, m = .act p a → Reply.isFault (.error e) = false) :
    t.Settles m (t.refuse f e) where
  waiting := hw
  chips := by cases m <;> rfl
  faultless := he
  unseen := fun _ => ⟨rfl, rfl⟩

theorem respondAct_settles {a : Action} (hw : t.Waiting) :
    t.Settles (.act p a) (t.respondAct f p a) := by
  unfold respondAct
  split
  · exact refuse_settles hw fun _ _ _ => rfl
  · next h hh =>
      have hl := hw.live h hh
      rcases Spot.act_spec (s := ⟨h, t.roster, f.evaluator⟩) (p := p) (a := a) hl with
        ⟨s, hact, hmoves, hgoes⟩ | ⟨e, hact, hblame⟩
      · obtain ⟨hstep, hchips⟩ := hw.toInOrder.step hh hl hmoves hgoes
        obtain ⟨hdrained, hkept⟩ := hstep.drain rfl
        have habsorb := absorb_ok (f := { f with evaluator := s.evaluator })
          (t := { t with hand := some s.hand, roster := s.roster }) rfl hgoes
        obtain ⟨hfinished, hsame⟩ := finishIfOver_spec (f := { f with evaluator := s.evaluator })
          hdrained
        simp only [hact, Spot.done, habsorb]
        exact .of_renew hfinished (hsame.trans (hkept.trans hchips)) (fun _ _ _ => rfl) rfl
      · have hback : ({ t with hand := some h, roster := t.roster } : Table) = t := by
          rw [← hh]
        have habsorb := absorb_error (f := f) hh hblame
        obtain ⟨hdrained, hkept⟩ := hw.toInOrder.drain hh
        simp only [hact, Spot.fail]
        rw [hback, habsorb]
        have hwaits : (t.drain h).Waiting :=
          { hdrained with
            live := fun h' hh' => by
              cases hh'
              exact hl.quiet }
        exact .of_renew hwaits hkept (fun _ _ _ => hblame) rfl

theorem respondDeal_settles (hw : t.Waiting) : t.Settles (.deal p) (t.respondDeal f p) := by
  unfold respondDeal
  split
  · exact refuse_settles hw nofun
  · split
    · exact refuse_settles hw nofun
    · next hnone =>
        obtain ⟨hdealt, hchips⟩ := dealHands_spec maxUnattendedHands true f
          hw.toInOrder (Option.not_isSome_iff_eq_none.mp hnone)
        exact .of_renew hdealt hchips nofun rfl

/-- Whoever gets a seat brings their stack. -/
theorem takeSeat_ok {name : String} {stack : Chips} {wanted : Option SeatIndex} {seat : SeatIndex}
    {r : Roster} (h : t.takeSeat f p name stack wanted = .ok (seat, r)) :
    t.roster.add p name stack wanted = .ok (seat, r) := by
  unfold takeSeat at h
  split at h
  · cases h
  · split at h
    · cases h
    · split at h
      · cases h
      · cases hadd : t.roster.add p name stack wanted with
        | error e =>
            rw [hadd] at h
            cases h
        | ok s =>
            rw [hadd] at h
            cases h
            rfl

/-- A seat that was just taken can be given up, and then all is as before. -/
theorem vacate_of_takeSeat {f : Floor} {p : PlayerId} {name : String} {stack : Chips}
    {wanted : Option SeatIndex} {seat : SeatIndex} {r : Roster} (hv : t.roster.Valid)
    (hseat : t.takeSeat f p name stack wanted = .ok (seat, r)) : vacate r p = t.roster := by
  rw [vacate, Roster.remove_of_add hv (takeSeat_ok hseat)]

/-- A join is refused and changes nothing, or the player gets a seat and is welcomed. -/
theorem respondJoin_cases (hv : t.roster.Valid) (f : Floor) (p : PlayerId) (name : String)
    (stack : Chips) (wanted : Option SeatIndex) :
    (∃ e, t.respondJoin f p name stack wanted = t.refuse f e) ∨
      ∃ seat r before lobby, t.takeSeat f p name stack wanted = .ok (seat, r) ∧
        f.lobby.transition p .joinTable (.seatedWaiting t.id) = .ok (before, lobby) ∧
        t.respondJoin f p name stack wanted =
          { table := (welcome { t with roster := r } { f with lobby } p name stack seat).1
            floor := (welcome { t with roster := r } { f with lobby } p name stack seat).2
            reply := .ok (.seat seat)
            renew := true } := by
  unfold respondJoin
  split
  · exact .inl ⟨_, rfl⟩
  · next seat r hseat =>
      split
      · -- The seat is given up again, and the roster is the one before.
        rw [vacate_of_takeSeat hv hseat]
        exact .inl ⟨_, rfl⟩
      · next before lobby hstate => exact .inr ⟨seat, r, before, lobby, hseat, hstate, rfl⟩

theorem welcome_spec (f : Floor) (p : PlayerId) (name : String) (stack : Chips)
    (seat : SeatIndex) (hw : t.Waiting) :
    (t.welcome f p name stack seat).1.Waiting ∧
      (t.welcome f p name stack seat).1.onTable = t.onTable := by
  have htold := hw.tell (e := .playerJoined p name seat stack)
    (t.announcements ++ [.playerJoinedTable p name t.id]) rfl
  unfold welcome
  simp only
  split
  · next hstart =>
      exact dealHands_spec _ _ _ htold.toInOrder (Option.isNone_iff_eq_none.mp hstart.1)
  · exact ⟨htold, rfl⟩

theorem respondJoin_settles {name : String} {stack : Chips} {wanted : Option SeatIndex}
    (hw : t.Waiting) :
    t.Settles (.join p name stack wanted) (t.respondJoin f p name stack wanted) := by
  rcases respondJoin_cases hw.valid f p name stack wanted with
    ⟨e, heq⟩ | ⟨seat, r, before, lobby, hseat, -, heq⟩
  · rw [heq]
    exact refuse_settles hw nofun
  · have hadd := takeSeat_ok hseat
    obtain ⟨-, -, hv, hcap, -, hperm⟩ := Roster.add_spec hw.valid hadd
    have hseated := hw.reseat hv hcap fun h hh q hq =>
      Roster.stack?_add hw.valid hadd ((hw.live h hh).places.seated q hq)
    obtain ⟨hwelcome, hchips⟩ := welcome_spec { f with lobby } p name stack seat hseated
    rw [heq]
    refine .of_renew hwelcome (hchips.trans ?_) nofun rfl
    show r.totalChips + t.middle = t.roster.totalChips + t.middle + stack
    rw [Roster.totalChips_of_perm_cons hperm]
    lia

/-- Taking somebody out of the hand keeps their stack and leaves no hand that needs them. -/
theorem takeOut_spec (hw : t.Waiting) :
    ∃ t' f', t.takeOut f p = (t', f', .ok ()) ∧ t'.InOrder ∧ t'.onTable = t.onTable ∧
      t'.roster.get? p = t.roster.get? p ∧
      ∀ h, t'.hand = some h → p ∉ h.dealtIn.order := by
  unfold takeOut
  split
  · next hnone =>
      exact ⟨t, f, rfl, hw.toInOrder, rfl, rfl, fun h hh => by rw [hnone] at hh; cases hh⟩
  · next h hh =>
      have hl := hw.live h hh
      obtain ⟨s, hremove, hmoves, hgoes, hout, hget⟩ :=
        Spot.removePlayer_spec (s := ⟨h, t.roster, f.evaluator⟩) hl p
      obtain ⟨hstep, hchips⟩ := hw.toInOrder.step hh hl hmoves hgoes
      simp only [hremove, Spot.done]
      refine ⟨_, _, rfl, hstep, hchips, hget, fun h' hh' => ?_⟩
      cases hh'
      exact hout

theorem absorb_spec (hi : t.InOrder) :
    ∃ t', t.absorb f (.ok ()) = (t', .ok ()) ∧ t'.InOrder ∧ t'.onTable = t.onTable := by
  cases hh : t.hand with
  | none => exact ⟨t, by simp only [absorb, hh], hi, rfl⟩
  | some h => exact ⟨t.drain h, absorb_ok hh (hi.goes h hh), hi.drain hh⟩

theorem respondLeave_settles (hw : t.Waiting) : t.Settles (.leave p) (t.respondLeave f p) := by
  unfold respondLeave
  split
  · exact refuse_settles hw nofun
  · next hseated =>
      have hin : t.roster.contains p = true := by simpa using hseated
      obtain ⟨t', f', hout, hi, hchips, hget, hgone⟩ := takeOut_spec (f := f) (p := p) hw
      obtain ⟨x, hx⟩ : ∃ x, t'.roster.get? p = some x := by
        rw [hget]
        exact Option.isSome_iff_exists.mp hin
      let r : Roster := { t'.roster with seats := t'.roster.seats.set x.seat none }
      have hremove : t'.roster.remove p = .ok (x, r) := by
        simp only [Roster.remove, hx]
        rfl
      obtain ⟨-, hv, hcap, -, hperm⟩ := Roster.remove_spec hi.valid hremove
      have hreseated := hi.reseat hv hcap fun h hh q hq =>
        Roster.stack?_remove hi.valid hremove (ne_of_mem_of_not_mem hq (hgone h hh))
      obtain ⟨t'', habsorb, hi'', hchips''⟩ := absorb_spec (f := f') hreseated
      have htold := hi''.tell (e := .playerLeft p x.stack)
        (t''.announcements ++ [.playerLeftTable p t''.id x.stack]) rfl
      obtain ⟨hfinished, hsame⟩ :=
        finishIfOver_spec (f := { f' with lobby := dismiss f'.lobby p }) htold
      simp only [hout, hremove, habsorb]
      refine .of_renew hfinished ?_ nofun rfl
      refine (congrArg (· + x.stack) (hsame.trans hchips'')).trans (Eq.trans ?_ hchips)
      show r.totalChips + t'.middle + x.stack = t'.roster.totalChips + t'.middle
      rw [Roster.totalChips_of_perm_cons hperm]
      lia

theorem respondSay_settles {message : String} (hw : t.Waiting) :
    t.Settles (.say p message) (t.respondSay f p message) := by
  unfold respondSay
  split
  · exact refuse_settles hw nofun
  · exact ⟨hw.tell _ rfl, rfl, nofun, fun _ => ⟨rfl, rfl⟩⟩

theorem respondPocket_settles (hw : t.Waiting) : t.Settles (.pocket p) (t.respondPocket f p) := by
  unfold respondPocket
  split
  · exact ⟨hw, rfl, nofun, fun _ => ⟨rfl, rfl⟩⟩
  · exact refuse_settles hw nofun

theorem respond_settles (hw : t.Waiting) (m : Message) : t.Settles m (t.respond f m) := by
  cases m with
  | act p a => exact respondAct_settles hw
  | deal p => exact respondDeal_settles hw
  | join p name stack wanted => exact respondJoin_settles hw
  | leave p => exact respondLeave_settles hw
  | say p message => exact respondSay_settles hw
  | pocket p => exact respondPocket_settles hw
  | close => exact ⟨{ hw with }, rfl, nofun, fun _ => ⟨rfl, rfl⟩⟩

end Table
end Holdem
