import Holdem.Proofs.Hand.Button
import Holdem.Proofs.Table.Happenings
import Holdem.Proofs.Table.Seats
import Mathlib.Data.List.Perm.Subperm

/-!
# The button goes round the table

From one hand to the next the button moves clockwise to the first seat with chips, whoever leaves or
goes broke in between, as long as nobody sits down. During a hand it is kept for the first player
left of the dealer who is still dealt in, and between hands for a player with their seat. Players
that stand up leave gaps, so that everybody else is still met in the same order.
-/
namespace Holdem

namespace Table

/-- Where the button of a hand goes that was dealt to the players of a roster: during the hand to
the next of those dealt in, and afterwards to whoever that was, or past their seat. -/
inductive Heading (r : Roster) (dealer : PlayerId) (t : Table) : Prop
  | during {h : Hand} : t.hand = some h → h.PassesButton r.funded dealer →
      (∀ p ∈ h.dealtIn.order, t.roster.contains p = true) →
      (∀ p ∈ t.roster.funded, p ∈ h.dealtIn.order) → Heading r dealer t
  | between {x : Player} {kept : PlayerId → Bool} : t.hand = none →
      t.button = some (x.id, x.seat) → x ∈ r.players → x.id ∈ r.funded →
      (leftOf r.funded dealer).find? kept = some x.id →
      (∀ p ∈ t.roster.funded, kept p = true) → Heading r dealer t

/-- A table at which nobody has sat down since a hand was dealt to the players of a roster. -/
structure Since (r : Roster) (dealer : PlayerId) (t : Table) : Prop where
  valid : r.Valid
  held : dealer ∈ r.funded
  thinned : r.Thinned t.roster
  funded : ∀ p ∈ t.roster.funded, p ∈ r.funded
  heading : t.Heading r dealer

section Steps
variable {t t' mid : Table} {f f' : Floor} {r r' : Roster} {dealer p q : PlayerId} {x : Player}
  {h : Hand} {s : Spot} {told : List GameEvent}

theorem since_deal (hv : t.roster.Valid) (hdeals : t.Deals f dealer s) (news : List ServerEvent) :
    (t.dealtTo s news).Since t.roster dealer := by
  have hall := Hand.dealtIn_of_deal hv hdeals.start
  have hrestacked := hdeals.begun.restacked
  have hfunded : ∀ p ∈ s.roster.funded, p ∈ t.roster.funded := fun p hp =>
    Classical.byContradiction fun hout => hout ((hrestacked.mem_funded hv hout).mp hp)
  obtain ⟨hsub, hnext⟩ := Hand.passesButton_of_deal hv hdeals.start
  refine
    { valid := hv
      held := (Hand.canDeal_of_deal hv hdeals.start).2.1
      thinned := hrestacked.thinned
      funded := hfunded
      heading := .during rfl ⟨hsub, hnext⟩ (fun p hp => ?_) fun p hp => ?_ }
  · exact hrestacked.contains_eq.trans (Roster.contains_of_mem_funded (hall ▸ hp))
  · exact hall.symm ▸ hfunded p hp

theorem Since.of_same (hs : t.Since r dealer) (hroster : t'.roster = t.roster)
    (hhand : t'.hand = t.hand) (hbutton : t'.button = t.button) : t'.Since r dealer := by
  refine { hs with
    thinned := hroster ▸ hs.thinned
    funded := hroster ▸ hs.funded
    heading := ?_ }
  cases hs.heading with
  | during hh hpasses hseated hfunded =>
      exact .during (hhand.trans hh) hpasses (hroster ▸ hseated) (hroster ▸ hfunded)
  | between hnone hb hx hpos hfind hkept =>
      exact .between (hhand.trans hnone) (hbutton.trans hb) hx hpos hfind (hroster ▸ hkept)

/-- Chips go to nobody but those dealt in. -/
theorem mem_funded_unfolds (hv : t.roster.Valid)
    (hfunded : ∀ p ∈ t.roster.funded, p ∈ h.dealtIn.order)
    (hunfolds : Spot.Unfolds ⟨h, t.roster, f.evaluator⟩ told s) :
    ∀ p ∈ s.roster.funded, p ∈ h.dealtIn.order := fun p hp =>
  Classical.byContradiction fun hout =>
    hout (hfunded p ((hunfolds.moves.restacked.mem_funded hv hout).mp hp))

theorem Since.goesOn (hs : t.Since r dealer) (hv : t.roster.Valid) (hh : t.hand = some h)
    (hunfolds : Spot.Unfolds ⟨h, t.roster, f.evaluator⟩ told s) (hk : h.KeepsButton s.hand) :
    (t.wentOn s).Since r dealer := by
  cases hs.heading with
  | between hnone =>
      rw [hnone] at hh
      cases hh
  | during hh' hpasses hseated hfunded =>
      cases hh'.symm.trans hh
      have hrestacked := hunfolds.moves.restacked
      have hin := mem_funded_unfolds hv hfunded hunfolds
      obtain ⟨hsub, hnext⟩ := hpasses.keeps hk
      refine { hs with
        thinned := hs.thinned.trans hrestacked.thinned
        funded := fun p hp => hpasses.dealtIn.subset (hin p hp)
        heading := .during rfl ⟨hsub, hnext⟩ (fun p hp => ?_) fun p hp => ?_ }
      · exact hrestacked.contains_eq.trans (hseated p (hk.dealtIn ▸ hp))
      · exact hk.dealtIn ▸ hin p hp

theorem Since.leaves (hs : t.Since r dealer) (hv : t.roster.Valid) (hplays : t.PlaysOn f p mid f')
    (hremove : mid.roster.remove p = .ok (x, r')) :
    (mid.leftBy r' p x.stack).Since r dealer := by
  cases hplays with
  | idle hnone =>
      have hmem := fun q => Roster.mem_funded_remove (q := q) hv hremove
      cases hs.heading with
      | during hh =>
          rw [hnone] at hh
          cases hh
      | between _ hb hy hpos hfind hkept =>
          exact { hs with
            thinned := hs.thinned.trans (Roster.thinned_of_remove hremove)
            funded := fun q hq => hs.funded q ((hmem q).mp hq).1
            heading := .between hnone hb hy hpos hfind fun q hq => hkept q ((hmem q).mp hq).1 }
  | @goesOn h told s hh _ ha hunfolds hwithout =>
      cases hs.heading with
      | between hnone =>
          rw [hnone] at hh
          cases hh
      | during hh' hpasses hseated hfunded =>
          cases hh'.symm.trans hh
          have hrestacked := hunfolds.moves.restacked
          have hv' : s.roster.Valid := hrestacked.valid hv
          have hmem := fun q => Roster.mem_funded_remove (q := q) hv' hremove
          have hin := mem_funded_unfolds hv hfunded hunfolds
          have hothers : ∀ q, q ∈ s.hand.dealtIn.order ↔ q ∈ h.dealtIn.order ∧ q ≠ p := fun q => by
            rw [hwithout.dealtIn, List.mem_filter, decide_eq_true_eq]
          obtain ⟨hsub, hnext⟩ :=
            hpasses.without (Roster.funded_nodup hs.valid) ha.two_dealtIn hwithout
          refine { hs with
            thinned := (hs.thinned.trans hrestacked.thinned).trans
              (Roster.thinned_of_remove hremove)
            funded := fun q hq => hpasses.dealtIn.subset (hin q ((hmem q).mp hq).1)
            heading := .during rfl ⟨hsub, hnext⟩ (fun q hq => ?_) fun q hq => ?_ }
          · obtain ⟨hq, hne⟩ := (hothers q).mp hq
            refine (Roster.contains_remove hv' hremove hne).trans ?_
            exact hrestacked.contains_eq.trans (hseated q hq)
          · obtain ⟨hq, hne⟩ := (hmem q).mp hq
            exact (hothers q).mpr ⟨hin q hq, hne⟩

theorem Since.clears (hs : t.Since r dealer) (hv : t.roster.Valid) (hh : t.hand = some h) :
    t.endHand.Since r dealer := by
  cases hs.heading with
  | between hnone =>
      rw [hnone] at hh
      cases hh
  | during hh' hpasses hseated hfunded =>
      cases hh'.symm.trans hh
      obtain ⟨y, hy⟩ := Option.isSome_iff_exists.mp (hseated _ hpasses.next_dealtIn)
      obtain ⟨hplayer, hid⟩ := (Roster.get?_eq_some_iff hv).mp hy
      obtain ⟨x, hx, hxid, hxseat⟩ := hs.thinned.exists_player hv hs.valid hplayer
      have hbutton : t.endHand.button = some (x.id, x.seat) := by
        simp only [endHand, hh, hy, Option.map_some, Option.getD_some, hxid, hxseat, hid]
      have hsame := roster_endHand (t := t)
      refine { hs with
        thinned := hsame.symm ▸ hs.thinned
        funded := hsame.symm ▸ hs.funded
        heading := .between hand_endHand hbutton hx ?_ ?_ (hsame.symm ▸ fun p hp =>
          decide_eq_true (hfunded p hp)) }
      · exact hpasses.dealtIn.subset ((hxid.trans hid) ▸ hpasses.next_dealtIn)
      · rw [hpasses.next, hxid, hid]

/-- Whoever is to have the button is the first left of the one who had it who has chips. -/
theorem Since.chosen (hs : t.Since r dealer) (hv : t.roster.Valid) (hnone : t.hand = none)
    (hchosen : t.chooseDealer = some q) :
    (leftOf r.funded dealer).find? (· ∈ t.roster.funded) = some q := by
  cases hs.heading with
  | during hh =>
      rw [hnone] at hh
      cases hh
  | @between x kept _ hb hx hpos hfind hkept =>
      have hn : r.funded.Nodup := Roster.funded_nodup hs.valid
      have hfunded : 0 < (t.roster.stack? x.id).getD 0 ↔ x.id ∈ t.roster.funded := by
        rw [Roster.mem_funded_iff hv]
        cases t.roster.stack? x.id <;> simp
      rw [find?_of_find? hfind fun p (hp : decide (p ∈ t.roster.funded) = true) =>
        hkept p (of_decide_eq_true hp), leftOf_leftOf hn hpos, ← hchosen, chooseDealer, hb]
      simp only [hfunded, decide_eq_true_eq]
      rw [hs.thinned.fundedAfter hs.valid hv hs.funded hx hpos]

/-- So the button goes to the first player with chips past the seat of whoever had it. -/
theorem Since.passed (hs : t.Since r dealer) (hv : t.roster.Valid) (hnone : t.hand = none)
    (hchosen : t.chooseDealer = some q) (htwo : 2 ≤ t.roster.funded.length) (hx : x ∈ r.players)
    (hid : x.id = dealer) : t.roster.FirstFunded x.seat q ∧ q ≠ dealer := by
  have hfind := hs.chosen hv hnone hchosen
  have hafter := hs.thinned.fundedAfter hs.valid hv hs.funded hx (hid ▸ hs.held)
  obtain ⟨other, hother, hne⟩ : ∃ p ∈ t.roster.funded, p ≠ dealer := by
    by_contra hall
    have hsub : t.roster.funded ⊆ [dealer] := fun p hp =>
      List.mem_singleton.mpr (Classical.byContradiction fun hne => hall ⟨p, hp, hne⟩)
    have hone := (List.Nodup.subperm (Roster.funded_nodup hv) hsub).length_le
    exact Nat.not_succ_le_self 1 (Nat.le_trans htwo hone)
  constructor
  · exact Roster.firstFunded_of_fundedAfter (hafter.trans (hid ▸ hfind))
  · exact ne_of_find?_leftOf (Roster.funded_nodup hs.valid) hs.held hfind (hs.funded other hother)
      hne (decide_eq_true hother)

end Steps

/-! ## What is told of it -/

/-- The seat that somebody was last said to take. -/
def seatTold (p : PlayerId) : List GameEvent → Option SeatIndex :=
  latest fun
    | .playerJoined q _ seat _ => if q = p then some seat else none
    | _ => none

/-- A hand that is told of after something else was started with the players of a roster, which is
the one of the table. They sit where they were last said to, and those with chips are dealt in. -/
structure StartedFrom (config : TableConfig) (before : List GameEvent) (number : Nat)
    (dealer : PlayerId) (small big : BlindPost) (players : List PlayerId) (r : Roster) : Prop where
  valid : r.Valid
  capacity : r.capacity = config.maxPlayers
  seats : ∀ x ∈ r.players, seatTold x.id before = some x.seat
  funded : ∀ p, p ∈ players ↔ p ∈ r.funded
  starts : ∃ deck ev r' ev' h, Hand.start number r dealer config.blinds deck ev = (r', ev', .ok h) ∧
    h.events.head? = some (.handStarted number dealer small big players)

/-- If nobody has sat down since the hand before, the button of a hand that is told of goes to the
first player with chips past the seat of the last dealer, which is somebody else. -/
def PassedOn (config : TableConfig) (before : List GameEvent) (e : GameEvent) : Prop :=
  ∀ earlier since n d d' small big players small' big' players',
    e = .handStarted (n + 1) d' small' big' players' →
    before = earlier ++ .handStarted n d small big players :: since →
    (∀ e ∈ since, e.isJoin = false) →
    ∃ seat r, seatTold d earlier = some seat ∧
      StartedFrom config before (n + 1) d' small' big' players' r ∧
      r.FirstFunded seat d' ∧ d' ≠ d

/-- What was told at a table agrees with where its players sit and its button goes. -/
structure Recorded (config : TableConfig) (told : List GameEvent) (t : Table) : Prop where
  settings : t.config = config
  valid : t.roster.Valid
  capacity : t.roster.capacity = config.maxPlayers
  seats : ∀ x ∈ t.roster.players, seatTold x.id told = some x.seat
  counted : ∀ e ∈ told, ∀ n, e.startTold = some n → n ≤ t.handsPlayed
  since : ∀ earlier d small big players after,
    told = earlier ++ .handStarted t.handsPlayed d small big players :: after →
    (∀ e ∈ after, e.isJoin = false) →
    ∃ r x, x ∈ r.players ∧ x.id = d ∧ seatTold d earlier = some x.seat ∧ t.Since r d
  passes : Each (PassedOn config) told

section Record
variable {t t' : Table} {f : Floor} {config : TableConfig} {told news past : List GameEvent}
  {p dealer : PlayerId} {s : Spot}

/-- Nobody takes another seat while nobody sits down. -/
theorem seatTold_append (hnews : ∀ e ∈ news, e.isJoin = false) :
    seatTold p (told ++ news) = seatTold p told := by
  rw [seatTold, latest, latest, List.filterMap_append]
  refine congrArg List.getLast? (List.append_right_eq_self.mpr ?_)
  refine List.filterMap_eq_nil_iff.mpr fun e he => ?_
  have hjoin := hnews e he
  cases e <;> first | rfl | cases hjoin

/-- Anything but a passing event can be told apart from what is told after it. -/
theorem split_passing {earlier after : List GameEvent} {e : GameEvent} {n : Nat}
    (hnews : ∀ e ∈ news, e.Passing) (he : e.startTold = some n)
    (hsplit : told ++ news = earlier ++ e :: after) :
    ∃ rest, told = earlier ++ e :: rest ∧ after = rest ++ news := by
  have hout : e ∉ news := fun hin => by
    rw [(hnews e hin).1] at he
    cases he
  rcases List.append_eq_append_iff.mp hsplit with ⟨mid, -, rfl⟩ | ⟨mid, htold, hafter⟩
  · exact absurd (List.mem_append_right _ List.mem_cons_self) hout
  · cases mid with
    | nil => exact absurd (show e ∈ [] ++ news from hafter ▸ List.mem_cons_self) hout
    | cons x rest =>
        obtain ⟨rfl, rfl⟩ := List.cons.inj hafter
        exact ⟨rest, htold, rfl⟩

/-- Nothing is said of the button while no hand starts. -/
theorem passedOn_of_none {e : GameEvent} (he : e.startTold = none) : PassedOn config told e := by
  rintro _ _ _ _ _ _ _ _ _ _ _ rfl
  cases he

/-- Whoever stays is still where they were last said to sit. -/
theorem Recorded.seats_append (hr : t.Recorded config told) (hnews : ∀ e ∈ news, e.isJoin = false)
    (hvalid : t'.roster.Valid) (hthinned : t.roster.Thinned t'.roster) :
    ∀ x ∈ t'.roster.players, seatTold x.id (told ++ news) = some x.seat := by
  intro x hx
  obtain ⟨y, hy, hid, hseat⟩ := hthinned.exists_player hvalid hr.valid hx
  rw [seatTold_append hnews, ← hid, ← hseat]
  exact hr.seats y hy

/-- While a hand is played, or nothing happens, the record is kept. -/
theorem Recorded.tells (hr : t.Recorded config told) (hnews : ∀ e ∈ news, e.Passing)
    (hconfig : t'.config = t.config) (hplayed : t'.handsPlayed = t.handsPlayed)
    (hvalid : t'.roster.Valid) (hthinned : t.roster.Thinned t'.roster)
    (hsince : ∀ r d, t.Since r d → t'.Since r d) : t'.Recorded config (told ++ news) where
  settings := hconfig.trans hr.settings
  valid := hvalid
  capacity := hthinned.capacity_eq.trans hr.capacity
  seats := hr.seats_append (fun e he => (hnews e he).2) hvalid hthinned
  counted e he n hn := by
    rw [hplayed]
    rcases List.mem_append.mp he with he | he
    · exact hr.counted e he n hn
    · rw [(hnews e he).1] at hn
      cases hn
  since earlier d small big players after hsplit hjoin := by
    rw [hplayed] at hsplit
    obtain ⟨rest, htold, rfl⟩ := split_passing hnews rfl hsplit
    obtain ⟨r, x, hx, hid, hseat, hs⟩ := hr.since earlier d small big players rest htold
      fun e he => hjoin e (List.mem_append_left _ he)
    exact ⟨r, x, hx, hid, hseat, hsince r d hs⟩
  passes := each_append hr.passes fun before e after hsplit =>
    passedOn_of_none (hnews e (hsplit ▸ List.mem_append_right _ List.mem_cons_self)).1

/-- Whoever sits down is said to. From then on the button is not followed until the next hand. -/
theorem Recorded.sitsDown (hr : t.Recorded config told) {name : String} {stack : Chips}
    {wanted : Option SeatIndex} {seat : SeatIndex} {r : Roster}
    (hadd : t.roster.add p name stack wanted = .ok (seat, r)) :
    (t.seatedAt r p name stack seat).Recorded config
      (told ++ [.playerJoined p name seat stack]) := by
  obtain ⟨hnew, -, hv, hcap, -, hperm⟩ := Roster.add_spec hr.valid hadd
  have hpassing : GameEvent.startTold (.playerJoined p name seat stack) = none := rfl
  refine ⟨hr.settings, hv, hcap.trans hr.capacity, fun x hx => ?_, fun e he n hn => ?_, ?_, ?_⟩
  · rw [seatTold, latest_snoc]
    rcases List.mem_cons.mp (hperm.mem_iff.mp hx) with rfl | hx
    · simp
    · have hne : p ≠ x.id := fun h => by
        have hin := Roster.mem_ids_iff.mp (List.mem_map_of_mem hx : x.id ∈ t.roster.ids)
        rw [← h, hnew] at hin
        cases hin
      simp only [if_neg hne, Option.none_or]
      exact hr.seats x hx
  · rcases List.mem_append.mp he with he | he
    · exact hr.counted e he n hn
    · rw [List.mem_singleton.mp he] at hn
      cases hn
  · intro earlier d small big players after hsplit hjoin
    rcases List.eq_nil_or_concat after with rfl | ⟨rest, e, rfl⟩
    · cases (List.append_inj' hsplit rfl).2
    · rw [List.concat_eq_append, ← List.cons_append, ← List.append_assoc] at hsplit
      cases (List.append_inj' hsplit rfl).2
      cases hjoin (.playerJoined p name seat stack) (by simp)
  · exact each_snoc.mpr ⟨hr.passes, passedOn_of_none hpassing⟩

/-- No hand was told of before with the number of the one that starts next. -/
theorem Recorded.next_start (hr : t.Recorded config told) {rest earlier after : List GameEvent}
    {d d' : PlayerId} {small big small' big' : BlindPost} {players players' : List PlayerId}
    (hrest : ∀ e ∈ rest, e.Passing)
    (hsplit : told ++ .handStarted (t.handsPlayed + 1) d small big players :: rest =
      earlier ++ .handStarted (t.handsPlayed + 1) d' small' big' players' :: after) :
    earlier = told ∧ d' = d := by
  rw [List.append_cons told] at hsplit
  obtain ⟨later, htold, -⟩ := split_passing hrest rfl hsplit
  rcases List.eq_nil_or_concat later with rfl | ⟨later, e, rfl⟩
  · obtain ⟨rfl, hstart⟩ := List.append_inj' htold rfl
    cases hstart
    exact ⟨rfl, rfl⟩
  · rw [List.concat_eq_append, ← List.cons_append, ← List.append_assoc] at htold
    have hin := (List.append_inj' htold rfl).1
    have hcount := hr.counted _ (hin ▸ List.mem_append_right _ List.mem_cons_self) _ rfl
    exact absurd hcount (Nat.not_succ_le_self _)

/-- The hand that is dealt next starts with whoever was to have the button. -/
theorem Recorded.deals (hr : t.Recorded config told) (hnone : t.hand = none)
    (hchosen : t.chooseDealer = some dealer) (hdeals : t.Deals f dealer s)
    (announced : List ServerEvent) :
    (t.dealtTo s announced).Recorded config (told ++ s.hand.events) := by
  obtain ⟨small, big, rest, hevents, hpassing⟩ := Hand.told_of_deal hr.valid hdeals.start
  obtain ⟨htwo, hdealer, -, -⟩ := Hand.canDeal_of_deal hr.valid hdeals.start
  have hrestacked := hdeals.begun.restacked
  have hvalid : s.roster.Valid := hrestacked.valid hr.valid
  have hjoins : ∀ e ∈ s.hand.events, e.isJoin = false := by
    rw [hevents]
    exact List.forall_mem_cons.mpr ⟨rfl, fun e he => (hpassing e he).2⟩
  have hstarted : StartedFrom config told (t.handsPlayed + 1) dealer small big
      (leftOf t.roster.funded dealer) t.roster :=
    { valid := hr.valid
      capacity := hr.capacity
      seats := hr.seats
      funded := fun p => mem_leftOf
      starts := ⟨_, _, _, _, _, hr.settings ▸ hdeals.start, by rw [hevents]; rfl⟩ }
  refine
    { settings := hr.settings
      valid := hvalid
      capacity := hrestacked.capacity_eq.trans hr.capacity
      seats := hr.seats_append hjoins hvalid hrestacked.thinned
      counted := fun e he n hn => ?counted
      since := fun earlier d small' big' players' after hsplit hjoin => ?since
      passes := each_append hr.passes fun before e after hsplit => ?passes }
  case counted =>
    rw [hevents, List.mem_append, List.mem_cons] at he
    rcases he with he | rfl | he
    · exact Nat.le_succ_of_le (hr.counted e he n hn)
    · cases hn
      exact Nat.le_refl _
    · rw [(hpassing e he).1] at hn
      cases hn
  case since =>
    rw [hevents] at hsplit
    obtain ⟨rfl, rfl⟩ := hr.next_start hpassing hsplit
    obtain ⟨x, hx, hid⟩ := List.mem_map.mp hdealer
    have hplayer := (List.mem_filter.mp hx).1
    exact ⟨t.roster, x, hplayer, hid, hid ▸ hr.seats x hplayer, since_deal hr.valid hdeals _⟩
  case passes =>
    rw [hevents] at hsplit
    cases before with
    | nil =>
        obtain ⟨rfl, -⟩ := List.cons.inj hsplit
        rintro earlier since n d d' small₁ big₁ players₁ small₂ big₂ players₂ hstart hbefore hjoin
        cases hstart
        rw [List.append_nil] at hbefore ⊢
        obtain ⟨r, x, hx, hid, hseat, hs⟩ := hr.since _ _ _ _ _ _ hbefore hjoin
        obtain ⟨hfirst, hne⟩ := hs.passed hr.valid hnone hchosen htwo hx hid
        exact ⟨x.seat, t.roster, hseat, hstarted, hfirst, hne⟩
    | cons _ before =>
        obtain ⟨-, hrest⟩ := List.cons.inj hsplit
        exact passedOn_of_none
          (hpassing e (hrest ▸ List.mem_append_right _ List.mem_cons_self)).1

/-- The record is kept with whatever happens in due form. -/
theorem Duly.recorded {a b : Table × Floor} (h : Duly a b)
    (hr : a.1.Recorded config (past ++ a.1.outbox)) :
    b.1.Recorded config (past ++ b.1.outbox) := by
  have hnothing : ∀ e ∈ ([] : List GameEvent), e.Passing := List.forall_mem_nil _
  cases h with
  | dealsOn h =>
      cases h with
      | @deals t f dealer s news hv hnone hchosen hdeals =>
          show (t.dealtTo s news).Recorded config (past ++ (t.outbox ++ s.hand.events))
          rw [← List.append_assoc]
          exact hr.deals hnone hchosen hdeals news
      | @clears t f h hh =>
          have hcleared : t.endHand.Recorded config ((past ++ t.outbox) ++ []) :=
            hr.tells hnothing config_endHand handsPlayed_endHand (roster_endHand.symm ▸ hr.valid)
              (roster_endHand.symm ▸ Roster.Thinned.refl _) fun _ _ hs => hs.clears hr.valid hh
          rw [List.append_nil] at hcleared
          rw [outbox_endHand]
          exact hcleared
  | @goesOn t f h told s hh hquiet ha hunfolds hkeeps =>
      have hevents : s.hand.events = told := by rw [hunfolds.events, hquiet, List.nil_append]
      have hrestacked := hunfolds.moves.restacked
      show (t.wentOn s).Recorded config (past ++ (t.outbox ++ s.hand.events))
      rw [hevents, ← List.append_assoc]
      exact hr.tells hunfolds.passing rfl rfl (hrestacked.valid hr.valid) hrestacked.thinned
        fun _ _ hs => hs.goesOn hr.valid hh hunfolds hkeeps
  | @sitsDown t f p name stack wanted seat r before lobby hv hadd hstate =>
      show (t.seatedAt r p name stack seat).Recorded config
        (past ++ (t.outbox ++ [.playerJoined p name seat stack]))
      rw [← List.append_assoc]
      exact hr.sitsDown hadd
  | @leaves t mid f f' p x r hplays hv hremove =>
      have hpassing : GameEvent.Passing (.playerLeft p x.stack) := ⟨rfl, rfl⟩
      have hsince : ∀ r' d, t.Since r' d → (mid.leftBy r p x.stack).Since r' d := fun _ _ hs =>
        hs.leaves hr.valid hplays hremove
      have hvalid : r.Valid := (Roster.remove_spec hv hremove).2.1
      have hthinned := Roster.thinned_of_remove hremove
      cases hplays with
      | idle hnone =>
          show (t.leftBy r p x.stack).Recorded config
            (past ++ (t.outbox ++ [.playerLeft p x.stack]))
          rw [← List.append_assoc]
          exact hr.tells (List.forall_mem_singleton.mpr hpassing) rfl rfl hvalid hthinned hsince
      | @goesOn h told s hh hquiet ha hunfolds hwithout =>
          have hevents : s.hand.events = told := by rw [hunfolds.events, hquiet, List.nil_append]
          have hnews : ∀ e ∈ told ++ [.playerLeft p x.stack], e.Passing :=
            List.forall_mem_append.mpr
              ⟨hunfolds.passing, List.forall_mem_singleton.mpr hpassing⟩
          show ((t.wentOn s).leftBy r p x.stack).Recorded config
            (past ++ (t.outbox ++ s.hand.events ++ [.playerLeft p x.stack]))
          rw [hevents, List.append_assoc, ← List.append_assoc]
          exact hr.tells hnews rfl rfl hvalid
            (hunfolds.moves.restacked.thinned.trans hthinned) hsince
  | @talks t f p message =>
      show Recorded config (past ++ (t.outbox ++ [.chatMessage p message])) _
      rw [← List.append_assoc]
      exact hr.tells (List.forall_mem_singleton.mpr ⟨rfl, rfl⟩) rfl rfl hr.valid (.refl _)
        fun _ _ hs => hs.of_same rfl rfl rfl
  | @stops t f =>
      have hstopped : Recorded config ((past ++ t.outbox) ++ []) { t with stopped := true } :=
        hr.tells hnothing rfl rfl hr.valid (.refl _) fun _ _ hs => hs.of_same rfl rfl rfl
      rw [List.append_nil] at hstopped
      exact hstopped

/-- A table between two messages, with the record up to then. -/
structure Recording (config : TableConfig) (past : List GameEvent) (t : Table) : Prop
    extends t.Ready where
  recorded : t.Recorded config past

theorem Recording.handle (hr : t.Recording config past) (f : Floor) (m : Message) :
    (t.handle f m).1.Recording config (past ++ (t.respond f m).table.outbox) := by
  have hduly := respond_duly (f := f) hr.toWaiting hr.quiet m
  have hbefore : t.Recorded config (past ++ t.outbox) := by
    rw [hr.noted, List.append_nil]
    exact hr.recorded
  have hafter : (t.respond f m).table.Recorded config (past ++ (t.respond f m).table.outbox) :=
    hduly.keeps (P := fun a => a.1.Recorded config (past ++ a.1.outbox)) (·.recorded) hbefore
  refine ⟨hr.toReady.handle f m, ?_⟩
  have hsame : (t.handle f m).1.Recorded config (_ ++ []) :=
    hafter.tells (List.forall_mem_nil _) config_handle handsPlayed_handle
      (roster_handle.symm ▸ hafter.valid) (roster_handle.symm ▸ .refl _)
      fun _ _ hs => hs.of_same roster_handle hand_handle button_handle
  rwa [List.append_nil] at hsame

/-- The record of a table goes on with every message. -/
theorem Recording.run (hr : t.Recording config past) (visits : List Visit) :
    (t.run visits).1.Recording config (past ++ (t.run visits).2.flatMap Entry.told) := by
  induction visits generalizing t past with
  | nil => exact (List.append_nil past).symm ▸ hr
  | cons v rest ih =>
      have hrest := ih (hr.handle v.floor v.message)
      rw [List.append_assoc] at hrest
      exact hrest

theorem create_recording (id : TableId) (h : config.validate = .ok ()) :
    (create id config).Recording config [] where
  toReady := create_ready id h
  recorded :=
    { settings := rfl
      valid := Roster.valid_empty config.maxPlayers
      capacity := List.length_replicate
      seats := fun x hx => by
        rw [show (create id config).roster.players = [] from Roster.players_empty _] at hx
        cases hx
      counted := fun e he => by cases he
      since := fun earlier _ _ _ _ _ hsplit => by simp at hsplit
      passes := each_nil }

/-- Whatever messages a table deals with: if nobody has sat down between two hands, the button of
the second goes to the first player with chips met clockwise from the seat after the dealer of the
first. So nobody has it twice in a row. The roster meant is the one the second hand starts with, in
which everybody sits where they were last said to. -/
theorem button_moves_clockwise {id : TableId} {config : TableConfig}
    (h : config.validate = .ok ()) (visits : List Visit) (n : Nat) (d d' : PlayerId)
    (small big small' big' : BlindPost) (players players' : List PlayerId)
    (before between after : List GameEvent)
    (htold : ((create id config).run visits).2.flatMap Entry.told =
      before ++ .handStarted n d small big players ::
        (between ++ .handStarted (n + 1) d' small' big' players' :: after))
    (hnobody : ∀ e ∈ between, e.isJoin = false) :
    ∃ seat r, seatTold d before = some seat ∧
      StartedFrom config (before ++ .handStarted n d small big players :: between) (n + 1)
        d' small' big' players' r ∧
      r.FirstFunded seat d' ∧ d' ≠ d := by
  have hpasses := ((create_recording id h).run visits).recorded.passes
  rw [List.nil_append, htold] at hpasses
  refine hpasses _ _ after ?_ before between n d d' small big players small' big' players' rfl rfl
    hnobody
  rw [List.append_assoc]
  rfl

/-- Three players are dealt a hand. The one who is to have the button next leaves, and then the
dealer folds, so that the next hand is dealt. -/
def nextDealerLeaves : List Visit :=
  [⟨threeKnown, .join 1 "ann" 500 none⟩, ⟨threeKnown, .join 2 "bob" 500 none⟩,
    ⟨threeKnown, .join 3 "carl" 500 none⟩, ⟨threeKnown, .deal 1⟩, ⟨threeKnown, .leave 2⟩,
    ⟨threeKnown, .act 1 .fold⟩]

theorem button_moves_clockwise_past_an_empty_seat :
    let told := ((create 1 { autoStart := false }).run nextDealerLeaves).2.flatMap Entry.told
    let first := GameEvent.handStarted 1 1 ⟨2, 5⟩ ⟨3, 10⟩ [2, 3, 1]
    let second := GameEvent.handStarted 2 3 ⟨3, 5⟩ ⟨1, 10⟩ [1, 3]
    told = told.take 3 ++ first :: ((told.drop 4).take 6 ++ second :: told.drop 11) ∧
      ∃ seat r, seatTold 1 (told.take 3) = some seat ∧
        StartedFrom { autoStart := false } (told.take 3 ++ first :: (told.drop 4).take 6) 2 3
          ⟨3, 5⟩ ⟨1, 10⟩ [1, 3] r ∧
        r.FirstFunded seat 3 ∧ 3 ≠ 1 := by
  intro told first second
  obtain ⟨htold, hnobody⟩ :
      told = told.take 3 ++ first :: ((told.drop 4).take 6 ++ second :: told.drop 11) ∧
        ∀ e ∈ (told.drop 4).take 6, e.isJoin = false := by
    decide +kernel
  exact ⟨htold, button_moves_clockwise (by decide) nextDealerLeaves 1 1 3 _ _ _ _ _ _ _ _ _ htold
    hnobody⟩

end Record
end Table
end Holdem
