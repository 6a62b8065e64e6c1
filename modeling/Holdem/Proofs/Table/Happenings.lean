import Holdem.Proofs.Hand.Course
import Holdem.Proofs.Table.Runs

/-!
# What happens at a table

Whatever a message leads to is made up of single happenings: a hand is dealt, goes on, or is cleared
away, and somebody sits down, stands up or talks. A table that deals with a message goes through
some of them, one after the other, each in due form: the button goes to whoever is to have it, and
whoever stands up is taken out of the hand first. What each of them preserves is preserved by every
message.
-/
namespace Holdem.Table

/-- What a hand had to tell was noted. -/
def Quiet (t : Table) : Prop := ∀ h, t.hand = some h → h.events = []

/-- A table after somebody sat down. -/
def seatedAt (t : Table) (r : Roster) (p : PlayerId) (name : String) (stack : Chips)
    (seat : SeatIndex) : Table :=
  { t with
    roster := r
    outbox := t.outbox ++ [.playerJoined p name seat stack]
    announcements := t.announcements ++ [.playerJoinedTable p name t.id] }

/-- A table after somebody stood up. -/
def leftBy (t : Table) (r : Roster) (p : PlayerId) (stack : Chips) : Table :=
  { t with
    roster := r
    outbox := t.outbox ++ [.playerLeft p stack]
    announcements := t.announcements ++ [.playerLeftTable p t.id stack] }

/-- A table after its hand went on, with what it had to tell noted. -/
def wentOn (t : Table) (s : Spot) : Table := drain { t with roster := s.roster } s.hand

/-- The floor after a hand valued some cards. -/
def valued (f : Floor) (s : Spot) : Floor := { f with evaluator := s.evaluator }

/-- A single thing that happens at a table. -/
inductive Happens : Table × Floor → Table × Floor → Prop
  | deals {t : Table} {f : Floor} {dealer : PlayerId} {s : Spot} (news : List ServerEvent) :
      t.roster.Valid → t.hand = none → t.Deals f dealer s →
      Happens (t, f) (t.dealtTo s news, joined f t.id s)
  | goesOn {t : Table} {f : Floor} {h : Hand} {told : List GameEvent} {s : Spot} :
      t.hand = some h → h.events = [] → h.Awake t.roster →
      Spot.Unfolds ⟨h, t.roster, f.evaluator⟩ told s → Happens (t, f) (t.wentOn s, valued f s)
  | clears {t : Table} {f : Floor} {h : Hand} :
      t.hand = some h → h.events = [] → h.isOver = true → Happens (t, f) (t.endHand, f)
  | sitsDown {t : Table} {f : Floor} {p : PlayerId} {name : String} {stack : Chips}
      {wanted : Option SeatIndex} {seat : SeatIndex} {r : Roster} {before : SessionState}
      {lobby : Lobby} :
      t.roster.Valid → t.roster.add p name stack wanted = .ok (seat, r) →
      f.lobby.transition p .joinTable (.seatedWaiting t.id) = .ok (before, lobby) →
      Happens (t, f) (t.seatedAt r p name stack seat, { f with lobby })
  | standsUp {t : Table} {f : Floor} {p : PlayerId} {x : Player} {r : Roster} :
      t.roster.Valid → t.roster.remove p = .ok (x, r) →
      Happens (t, f) (t.leftBy r p x.stack, { f with lobby := dismiss f.lobby p })
  | talks {t : Table} {f : Floor} (p : PlayerId) (message : String) :
      Happens (t, f) ({ t with outbox := t.outbox ++ [.chatMessage p message] }, f)
  | stops {t : Table} {f : Floor} : Happens (t, f) ({ t with stopped := true }, f)

/-- One thing after another. -/
abbrev Goes : Table × Floor → Table × Floor → Prop := Relation.ReflTransGen Happens

/-- Whoever is to have the button deals a hand, or a hand that is over is cleared away. -/
inductive DealsOn : Table × Floor → Table × Floor → Prop
  | deals {t : Table} {f : Floor} {dealer : PlayerId} {s : Spot} (news : List ServerEvent) :
      t.roster.Valid → t.hand = none → t.chooseDealer = some dealer → t.Deals f dealer s →
      DealsOn (t, f) (t.dealtTo s news, joined f t.id s)
  | clears {t : Table} {f : Floor} {h : Hand} :
      t.hand = some h → h.events = [] → h.isOver = true → DealsOn (t, f) (t.endHand, f)

/-- The hand at a table goes on without a player, if there is one. -/
inductive PlaysOn (t : Table) (f : Floor) (p : PlayerId) : Table → Floor → Prop
  | idle : t.hand = none → PlaysOn t f p t f
  | goesOn {h : Hand} {told : List GameEvent} {s : Spot} : t.hand = some h → h.events = [] →
      h.Awake t.roster → Spot.Unfolds ⟨h, t.roster, f.evaluator⟩ told s → h.Without s.hand p →
      PlaysOn t f p (t.wentOn s) (valued f s)

/-- What happens in due form. -/
inductive Duly : Table × Floor → Table × Floor → Prop
  | dealsOn {a b : Table × Floor} : DealsOn a b → Duly a b
  | goesOn {t : Table} {f : Floor} {h : Hand} {told : List GameEvent} {s : Spot} :
      t.hand = some h → h.events = [] → h.Awake t.roster →
      Spot.Unfolds ⟨h, t.roster, f.evaluator⟩ told s → h.KeepsButton s.hand →
      Duly (t, f) (t.wentOn s, valued f s)
  | sitsDown {t : Table} {f : Floor} {p : PlayerId} {name : String} {stack : Chips}
      {wanted : Option SeatIndex} {seat : SeatIndex} {r : Roster} {before : SessionState}
      {lobby : Lobby} :
      t.roster.Valid → t.roster.add p name stack wanted = .ok (seat, r) →
      f.lobby.transition p .joinTable (.seatedWaiting t.id) = .ok (before, lobby) →
      Duly (t, f) (t.seatedAt r p name stack seat, { f with lobby })
  | leaves {t mid : Table} {f f' : Floor} {p : PlayerId} {x : Player} {r : Roster} :
      t.PlaysOn f p mid f' → mid.roster.Valid → mid.roster.remove p = .ok (x, r) →
      Duly (t, f) (mid.leftBy r p x.stack, { f' with lobby := dismiss f'.lobby p })
  | talks {t : Table} {f : Floor} (p : PlayerId) (message : String) :
      Duly (t, f) ({ t with outbox := t.outbox ++ [.chatMessage p message] }, f)
  | stops {t : Table} {f : Floor} : Duly (t, f) ({ t with stopped := true }, f)

theorem DealsOn.happens {a b : Table × Floor} (h : DealsOn a b) : Happens a b := by
  cases h with
  | deals news hv hnone hchosen hdeals => exact .deals news hv hnone hdeals
  | clears hh hquiet hover => exact .clears hh hquiet hover

theorem PlaysOn.goes {t mid : Table} {f f' : Floor} {p : PlayerId} (h : t.PlaysOn f p mid f') :
    Goes (t, f) (mid, f') := by
  cases h with
  | idle => exact .refl
  | goesOn hh hquiet ha hunfolds => exact .single (.goesOn hh hquiet ha hunfolds)

theorem Duly.goes {a b : Table × Floor} (h : Duly a b) : Goes a b := by
  cases h with
  | dealsOn h => exact .single h.happens
  | goesOn hh hquiet ha hunfolds => exact .single (.goesOn hh hquiet ha hunfolds)
  | sitsDown hv hadd hstate => exact .single (.sitsDown hv hadd hstate)
  | leaves hplays hv hremove => exact hplays.goes.tail (.standsUp hv hremove)
  | talks p message => exact .single (.talks p message)
  | stops => exact .single .stops

/-- One hand after another. -/
abbrev DealtOn : Table × Floor → Table × Floor → Prop := Relation.ReflTransGen DealsOn

/-- One thing after another, in due form. -/
abbrev DulyGoes : Table × Floor → Table × Floor → Prop := Relation.ReflTransGen Duly

theorem DealtOn.duly {a b : Table × Floor} (h : DealtOn a b) : DulyGoes a b :=
  Relation.ReflTransGen.mono (fun _ _ => Duly.dealsOn) _ _ h

theorem DulyGoes.goes {a b : Table × Floor} (h : DulyGoes a b) : Goes a b := by
  induction h with
  | refl => exact .refl
  | tail _ hlast ih => exact ih.trans hlast.goes

variable {t : Table} {f : Floor} {p : PlayerId}

/-! ## Hands -/

theorem Quiet.clears (hq : t.Quiet) (f : Floor) (hover : t.hand.any Hand.isOver = true) :
    DealsOn (t, f) (t.endHand, f) := by
  cases hh : t.hand with
  | none => simp [hh] at hover
  | some h => exact .clears hh (hq h hh) (by simpa [hh] using hover)

theorem quiet_drain (t : Table) (h : Hand) : (t.drain h).Quiet := by
  intro h' hh'
  cases hh'
  rfl

theorem Quiet.drain_eq {h : Hand} (hq : t.Quiet) (hh : t.hand = some h) : t.drain h = t := by
  have hevents := hq h hh
  have hsame : { h with events := [] } = h := by rw [← hevents]
  simp only [drain, hsame, hevents, List.append_nil, ← hh]

/-- The induction is over the hands that may still be dealt. -/
theorem dealHands_dealtOn (n : Nat) (fromWaiting : Bool) (f : Floor) (hi : t.InOrder)
    (hnone : t.hand = none) :
    DealtOn (t, f) ((dealHands n fromWaiting t f).1, (dealHands n fromWaiting t f).2.1) := by
  induction n generalizing t f fromWaiting with
  | zero => exact .refl
  | succ n ih =>
      rcases Nat.lt_or_ge t.roster.funded.length 2 with hfew | htwo
      · simp only [dealHands, startHand_of_few hfew hnone]
        exact .refl
      · rcases Nat.lt_or_ge maxChips t.roster.totalChips with hmany | hcount
        · simp only [dealHands, startHand_of_uncountable hi htwo hnone hmany]
          exact .refl
        · obtain ⟨dealer, s, news, hchosen, hdeals, hstart, hi', -⟩ :=
            startHand_spec f fromWaiting hi htwo hnone hcount
          have hdealt : DealtOn (t, f) (t.dealtTo s news, joined f t.id s) :=
            .single (.deals news hi.valid hnone hchosen hdeals)
          simp only [dealHands, hstart]
          split
          · exact hdealt
          · next hover =>
              rw [Bool.not_eq_true', Bool.not_eq_false] at hover
              have hcleared := hdealt.tail ((quiet_drain _ _).clears (joined f t.id s) hover)
              split
              · exact hcleared
              · exact hcleared.trans (ih false _ (hi'.endHand hover).1.toInOrder hand_endHand)

theorem dealHands_goes (n : Nat) (fromWaiting : Bool) (f : Floor) (hi : t.InOrder)
    (hnone : t.hand = none) :
    Goes (t, f) ((dealHands n fromWaiting t f).1, (dealHands n fromWaiting t f).2.1) :=
  (dealHands_dealtOn n fromWaiting f hi hnone).duly.goes

theorem finishIfOver_dealtOn (f : Floor) (hi : t.InOrder) (hq : t.Quiet) :
    DealtOn (t, f) (t.finishIfOver f) := by
  unfold finishIfOver
  split
  · exact .refl
  · next hover =>
      rw [Bool.not_eq_true', Bool.not_eq_false] at hover
      have hcleared : DealtOn (t, f) (t.endHand, f) := .single (hq.clears f hover)
      split
      · exact hcleared
      · exact hcleared.trans (dealHands_dealtOn maxUnattendedHands false f
          (hi.endHand hover).1.toInOrder hand_endHand)

/-- A live hand that goes on leaves the table in order. -/
theorem Waiting.wentOn {h : Hand} {told : List GameEvent} {s : Spot} (hw : t.Waiting)
    (hh : t.hand = some h) (hunfolds : Spot.Unfolds ⟨h, t.roster, f.evaluator⟩ told s) :
    (t.wentOn s).InOrder ∧ (s.hand.Live s.roster ∨ s.hand.Settled s.roster) := by
  have hl := hw.live h hh
  have hgoes := hunfolds.goes.imp_left fun ha =>
    ({ ha with stocked := hunfolds.stocked hl.stocked } : s.hand.Live s.roster)
  exact ⟨((hw.toInOrder.step hh hl hunfolds.moves hgoes).1.drain rfl).1, hgoes⟩

/-! ## Messages -/

/-- A refused action changes nothing. -/
theorem respondAct_refused {h : Hand} {a : Action} {e : ActionError} (hq : t.Quiet)
    (hh : t.hand = some h) (hv : Spot.validate ⟨h, t.roster, f.evaluator⟩ p a = .error e) :
    t.respondAct f p a =
      { table := t, floor := f, reply := .error (.action e), renew := true } := by
  have hback : ({ t with hand := some h, roster := t.roster } : Table) = t := by
    rw [← hh]
  have habsorb := absorb_error (f := f) hh (Spot.validate_error hv)
  rw [hq.drain_eq hh] at habsorb
  simp only [respondAct, hh, Spot.act_eq_fail hv, Spot.fail]
  simp only [hback, habsorb]
  rfl

/-- With an accepted action the hand goes on, and the table moves on if it is over. -/
theorem respondAct_accepted {h : Hand} {a : Action} {plan : Plan} (hw : t.Waiting)
    (hh : t.hand = some h) (hv : Spot.validate ⟨h, t.roster, f.evaluator⟩ p a = .ok plan) :
    ∃ told s, Spot.Unfolds ⟨h, t.roster, f.evaluator⟩ told s ∧ h.KeepsButton s.hand ∧
      ((t.respondAct f p a).table, (t.respondAct f p a).floor) =
        (t.wentOn s).finishIfOver (valued f s) := by
  have hl := hw.live h hh
  obtain ⟨told, s, hact, hunfolds, hkeeps⟩ := (Spot.act_unfolds hl.toAwake hv).resolve_right
    fun hshort => hshort.1 hl.stocked
  have habsorb := absorb_ok (f := valued f s)
    (t := { t with hand := some s.hand, roster := s.roster }) rfl (hw.wentOn hh hunfolds).2
  refine ⟨told, s, hunfolds, hkeeps, ?_⟩
  simp only [valued] at habsorb
  simp only [respondAct, hh, hact, Spot.done, habsorb]
  rfl

theorem respondAct_duly (hw : t.Waiting) (hq : t.Quiet) (a : Action) :
    DulyGoes (t, f) ((t.respondAct f p a).table, (t.respondAct f p a).floor) := by
  cases hh : t.hand with
  | none =>
      rw [respondAct, hh]
      exact .refl
  | some h =>
      cases hv : Spot.validate ⟨h, t.roster, f.evaluator⟩ p a with
      | error e =>
          rw [respondAct_refused hq hh hv]
      | ok plan =>
          obtain ⟨told, s, hunfolds, hkeeps, hafter⟩ := respondAct_accepted hw hh hv
          rw [hafter]
          have hfirst : DulyGoes (t, f) (t.wentOn s, valued f s) :=
            .single (.goesOn hh (hq h hh) (hw.live h hh).toAwake hunfolds hkeeps)
          exact hfirst.trans (finishIfOver_dealtOn _ (hw.wentOn hh hunfolds).1
            (quiet_drain _ _)).duly

theorem respondDeal_duly (hw : t.Waiting) :
    DulyGoes (t, f) ((t.respondDeal f p).table, (t.respondDeal f p).floor) := by
  unfold respondDeal
  split
  · exact .refl
  · split
    · exact .refl
    · next hnone =>
        exact (dealHands_dealtOn maxUnattendedHands true f hw.toInOrder
          (Option.not_isSome_iff_eq_none.mp hnone)).duly

/-- Nothing is dealt to somebody who sits down during a hand. -/
theorem welcome_during {h : Hand} (hh : t.hand = some h) (r : Roster) (f : Floor) (p : PlayerId)
    (name : String) (stack : Chips) (seat : SeatIndex) :
    welcome { t with roster := r } f p name stack seat =
      (t.seatedAt r p name stack seat, f) := by
  simp only [welcome, hh, Option.isNone_some, Bool.false_eq_true, false_and, if_false]
  rw [seatedAt, hh]

/-- Whoever sat down is dealt a hand at most. -/
theorem welcome_dealtOn {name : String} {stack : Chips} {seat : SeatIndex} {r : Roster}
    (hi : (t.seatedAt r p name stack seat).InOrder) :
    DealtOn (t.seatedAt r p name stack seat, f)
      (welcome { t with roster := r } f p name stack seat) := by
  simp only [welcome]
  split
  · next hstart =>
      exact dealHands_dealtOn maxUnattendedHands true f hi
        (Option.isNone_iff_eq_none.mp hstart.1)
  · exact .refl

/-- A table stays in order when somebody sits down. -/
theorem Waiting.seatedAt {name : String} {stack : Chips} {wanted : Option SeatIndex}
    {seat : SeatIndex} {r : Roster} (hw : t.Waiting)
    (hadd : t.roster.add p name stack wanted = .ok (seat, r)) :
    (t.seatedAt r p name stack seat).Waiting := by
  obtain ⟨-, -, hv, hcap, -, -⟩ := Roster.add_spec hw.valid hadd
  exact (hw.reseat hv hcap fun h hh q hq =>
    Roster.stack?_add hw.valid hadd ((hw.live h hh).places.seated q hq)).tell _ rfl

theorem respondJoin_duly {name : String} {stack : Chips} {wanted : Option SeatIndex}
    (hw : t.Waiting) :
    DulyGoes (t, f) ((t.respondJoin f p name stack wanted).table,
      (t.respondJoin f p name stack wanted).floor) := by
  rcases respondJoin_cases hw.valid f p name stack wanted with
    ⟨e, heq⟩ | ⟨seat, r, before, lobby, hseat, hstate, heq⟩
  · rw [heq]
    exact .refl
  · have hadd := takeSeat_ok hseat
    have hfirst : DulyGoes (t, f) (t.seatedAt r p name stack seat, { f with lobby }) :=
      .single (.sitsDown hw.valid hadd hstate)
    rw [heq]
    exact hfirst.trans (welcome_dealtOn (hw.seatedAt hadd).toInOrder).duly

theorem PlaysOn.inOrder {mid : Table} {f' : Floor} (h : t.PlaysOn f p mid f') (hw : t.Waiting)
    (hq : t.Quiet) : mid.InOrder ∧ mid.Quiet := by
  cases h with
  | idle => exact ⟨hw.toInOrder, hq⟩
  | goesOn hh _ _ hunfolds => exact ⟨(hw.wentOn hh hunfolds).1, quiet_drain _ _⟩

/-- A player who is to stand up is taken out of the hand first. What the hand has to tell may be
noted before they stand up as well as after it. -/
theorem takeOut_playsOn (hw : t.Waiting) (hq : t.Quiet) (hin : t.roster.contains p = true) :
    ∃ t' mid f', t.takeOut f p = (t', f', .ok ()) ∧ t.PlaysOn f p mid f' ∧
      t'.roster = mid.roster ∧ mid.roster.contains p = true ∧
      (∀ h, mid.hand = some h → p ∉ h.dealtIn.order) ∧
      ∀ r, (∀ h, mid.hand = some h → ∀ q ∈ h.dealtIn.order,
          r.stack? q = mid.roster.stack? q) →
        absorb { t' with roster := r } f' (.ok ()) = ({ mid with roster := r }, .ok ()) := by
  unfold takeOut
  split
  · next hnone =>
      refine ⟨t, t, f, rfl, .idle hnone, rfl, hin, fun h hh => ?_, fun r _ => ?_⟩
      · rw [hnone] at hh
        cases hh
      · simp only [absorb, hnone]
  · next h hh =>
      have hl := hw.live h hh
      obtain ⟨told, s, hremove, hunfolds, hout, hwithout⟩ := (Spot.removePlayer_unfolds
        (s := ⟨h, t.roster, f.evaluator⟩) hl.toAwake p).resolve_right fun hshort =>
          hshort.1 hl.stocked
      obtain ⟨-, hgoes⟩ := hw.wentOn hh hunfolds
      have hids : s.roster.ids = t.roster.ids := hunfolds.moves.restacked.ids_eq
      simp only [hremove, Spot.done]
      refine ⟨_, t.wentOn s, valued f s, rfl,
        .goesOn hh (hq h hh) hl.toAwake hunfolds hwithout, rfl, ?_, fun h' hh' => ?_,
        fun r hstacks => ?_⟩
      · exact Roster.mem_ids_iff.mp (hids ▸ Roster.mem_ids_iff.mpr hin)
      · cases hh'
        exact hout
      · have hsame := hstacks _ rfl
        exact absorb_ok (t := { t with hand := some s.hand, roster := r }) rfl
          (hgoes.imp (·.of_stacks hsame) (·.of_stacks hsame))

/-- A seated player who leaves stands up after the hand went on without them, and the table moves
on if it is over. -/
theorem respondLeave_seated (hw : t.Waiting) (hq : t.Quiet) (hin : t.roster.contains p = true) :
    ∃ mid f' x r, t.PlaysOn f p mid f' ∧ mid.roster.remove p = .ok (x, r) ∧
      (mid.leftBy r p x.stack).InOrder ∧
      t.respondLeave f p =
        { table := ((mid.leftBy r p x.stack).finishIfOver
            { f' with lobby := dismiss f'.lobby p }).1
          floor := ((mid.leftBy r p x.stack).finishIfOver
            { f' with lobby := dismiss f'.lobby p }).2
          reply := .ok (.chips x.stack)
          renew := true } := by
  obtain ⟨t', mid, f', hout, hplays, hroster, hstill, hgone, habsorb⟩ :=
    takeOut_playsOn (f := f) hw hq hin
  obtain ⟨hi, -⟩ := hplays.inOrder hw hq
  obtain ⟨x, hx⟩ := Option.isSome_iff_exists.mp hstill
  let r : Roster := { mid.roster with seats := mid.roster.seats.set x.seat none }
  have hremove : mid.roster.remove p = .ok (x, r) := by
    simp only [Roster.remove, hx]
    rfl
  obtain ⟨-, hv, hcap, -, -⟩ := Roster.remove_spec hi.valid hremove
  have hstacks : ∀ h, mid.hand = some h → ∀ q ∈ h.dealtIn.order,
      r.stack? q = mid.roster.stack? q := fun h hh q hq =>
    Roster.stack?_remove hi.valid hremove (ne_of_mem_of_not_mem hq (hgone h hh))
  have hreseated : ({ mid with roster := r } : Table).InOrder := hi.reseat hv hcap hstacks
  refine ⟨mid, f', x, r, hplays, hremove, hreseated.tell (e := .playerLeft p x.stack) _ rfl, ?_⟩
  rw [respondLeave, hin]
  simp only [hout, hroster, hremove, habsorb r hstacks]
  rfl

theorem respondLeave_duly (hw : t.Waiting) (hq : t.Quiet) :
    DulyGoes (t, f) ((t.respondLeave f p).table, (t.respondLeave f p).floor) := by
  cases hin : t.roster.contains p with
  | false =>
      rw [respondLeave, hin]
      exact .refl
  | true =>
      obtain ⟨mid, f', x, r, hplays, hremove, hleft, heq⟩ :=
        respondLeave_seated (f := f) hw hq hin
      obtain ⟨hi, hquiet⟩ := hplays.inOrder hw hq
      have hfirst : DulyGoes (t, f)
          (mid.leftBy r p x.stack, { f' with lobby := dismiss f'.lobby p }) :=
        .single (.leaves hplays hi.valid hremove)
      rw [heq]
      exact hfirst.trans (finishIfOver_dealtOn _ hleft hquiet).duly

/-- Whatever a message leads to is made up of single happenings. -/
theorem respond_duly (hw : t.Waiting) (hq : t.Quiet) (m : Message) :
    DulyGoes (t, f) ((t.respond f m).table, (t.respond f m).floor) := by
  cases m with
  | act p a => exact respondAct_duly hw hq a
  | deal p => exact respondDeal_duly hw
  | join p name stack wanted => exact respondJoin_duly hw
  | leave p => exact respondLeave_duly hw hq
  | say p message =>
      show DulyGoes (t, f) ((t.respondSay f p message).table, (t.respondSay f p message).floor)
      unfold respondSay
      split
      · exact .refl
      · exact .single (.talks p message)
  | pocket p =>
      show DulyGoes (t, f) ((t.respondPocket f p).table, (t.respondPocket f p).floor)
      unfold respondPocket
      split
      · exact .refl
      · exact .refl
  | close => exact .single .stops

theorem respond_goes (hw : t.Waiting) (hq : t.Quiet) (m : Message) :
    Goes (t, f) ((t.respond f m).table, (t.respond f m).floor) :=
  (respond_duly hw hq m).goes

/-! ## What is preserved -/

section Keeps
variable {a b : Table × Floor}

/-- What every single happening preserves is preserved. -/
theorem Goes.keeps {P : Table × Floor → Prop} (h : Goes a b)
    (hstep : ∀ {a b : Table × Floor}, Happens a b → P a → P b) (hP : P a) : P b := by
  induction h with
  | refl => exact hP
  | tail _ hlast ih => exact hstep hlast ih

/-- So is what is preserved by everything that happens in due form. -/
theorem DulyGoes.keeps {P : Table × Floor → Prop} (h : DulyGoes a b)
    (hstep : ∀ {a b : Table × Floor}, Duly a b → P a → P b) (hP : P a) : P b := by
  induction h with
  | refl => exact hP
  | tail _ hlast ih => exact hstep hlast ih

/-- After a happening the hand has nothing left to tell. -/
theorem Happens.quiet (h : Happens a b) (hq : a.1.Quiet) : b.1.Quiet := by
  cases h with
  | deals | goesOn => exact quiet_drain _ _
  | clears =>
      intro h hh
      rw [hand_endHand] at hh
      cases hh
  | sitsDown | standsUp | talks | stops => exact hq

end Keeps

/-- A table between two messages. -/
structure Ready (t : Table) : Prop extends t.Waiting where
  quiet : t.Quiet
  noted : t.outbox = []

theorem create_ready {config : TableConfig} (id : TableId) (h : config.validate = .ok ()) :
    (create id config).Ready :=
  { create_waiting id h with quiet := nofun, noted := rfl }

theorem Ready.handle (h : t.Ready) (f : Floor) (m : Message) : (t.handle f m).1.Ready where
  toWaiting := h.toWaiting.handle f m
  quiet := by
    have hgoes := respond_goes (f := f) h.toWaiting h.quiet m
    rw [Quiet, hand_handle]
    exact hgoes.keeps (P := fun a => a.1.Quiet) (·.quiet) h.quiet
  noted := outbox_handle

end Holdem.Table
