import Holdem.Proofs.Table.Runs

/-!
# What a table publishes

The published view of a table is renewed with every message that may have changed what it shows.
The other messages leave the seats and the hand as they are, so between two messages the view that
was published last is that of the table as it is. It shows every taken seat in the order of the
seats, and while a hand is played all that is in the middle, whoever put it there.
-/
namespace Holdem.Table
variable {t : Table} {f : Floor} {p : PlayerId}

/-- What is seen of a table when the view is renewed. -/
def view (t : Table) : Snapshot := publicView t.id t.config.name t.roster t.hand

theorem seatOf_publicView {id : TableId} {name : String} {r : Roster} {hand : Option Hand} :
    (publicView id name r hand).seatOf p = (r.get? p).map (seatView hand) := by
  have hseats : (publicView id name r hand).seats = r.players.map (seatView hand) := by
    cases hand <;> rfl
  rw [Snapshot.seatOf, hseats, List.find?_map, Roster.get?]
  rfl

theorem respondLeave_renews (hw : t.Waiting) (hin : t.roster.contains p = true) :
    (t.respondLeave f p).renew = true := by
  obtain ⟨t', f', hout, -, -, hget, -⟩ := takeOut_spec (f := f) (p := p) hw
  obtain ⟨x, hx⟩ := Option.isSome_iff_exists.mp hin
  rw [← hget] at hx
  rw [respondLeave, hin]
  simp only [hout, Roster.remove, hx]
  rfl

/-- A message after which the view is not renewed changes nothing that is seen. -/
theorem view_of_unrenewed (hw : t.Waiting) (m : Message) (h : (t.respond f m).renew = false) :
    (t.respond f m).table.view = t.view := by
  cases m with
  | act p a =>
      simp only [respond, respondAct] at h ⊢
      split at h
      · rfl
      · cases h
  | deal p =>
      simp only [respond, respondDeal] at h ⊢
      split at h
      · next hout => rw [if_pos hout]; rfl
      · next hin =>
          split at h
          · next hplaying => rw [if_neg hin, if_pos hplaying]; rfl
          · cases h
  | join p name stack wanted =>
      simp only [respond] at h ⊢
      rcases respondJoin_cases hw.valid f p name stack wanted with ⟨e, heq⟩ | ⟨_, _, _, _, -, -, heq⟩
      · rw [heq]
        rfl
      · rw [heq] at h
        cases h
  | leave p =>
      cases hin : t.roster.contains p with
      | false =>
          simp only [respond, respondLeave, hin]
          rfl
      | true =>
          rw [respond, respondLeave_renews hw hin] at h
          cases h
  | say p message =>
      simp only [respond, respondSay]
      split <;> rfl
  | pocket p =>
      simp only [respond, respondPocket]
      split <;> rfl
  | close => rfl

theorem snapshot_handle (hw : t.Waiting) (hshown : t.snapshot = t.view) (m : Message) :
    (t.handle f m).1.snapshot = (t.handle f m).1.view := by
  simp only [handle, tellAll]
  split
  · rfl
  · next hrenew =>
      have hunseen := Bool.eq_false_iff.mpr hrenew
      have hsame := ((respond_settles (f := f) hw m).unseen hunseen).1
      exact (hsame.trans hshown).trans (view_of_unrenewed hw m hunseen).symm

theorem snapshot_run (hw : t.Waiting) (hshown : t.snapshot = t.view) (visits : List Visit) :
    (t.run visits).1.snapshot = (t.run visits).1.view := by
  induction visits generalizing t with
  | nil => exact hshown
  | cons v rest ih =>
      exact ih (hw.handle v.floor v.message) (snapshot_handle hw hshown v.message)

theorem snapshot_create {id : TableId} {config : TableConfig} :
    (create id config).snapshot = (create id config).view := by
  simp only [view, publicView, create, Roster.players_empty]
  rfl

/-! ## What is seen -/

/-- A view shows a table as it is. In the middle is what the pots hold with all bets of the round,
which are those in front of the players seated and those of players who are gone. -/
structure ShownBy (t : Table) (v : Snapshot) : Prop where
  whose : v.table = t.id ∧ v.name = t.config.name
  ascending : v.seats.Pairwise (·.seat < ·.seat)
  seated : v.seats.map (fun x => (⟨x.player, x.name, x.stack, x.seat⟩ : Player)) =
    t.roster.players
  between : t.hand = none →
    v.hand = none ∧ v.phase = .waiting ∧ v.board = [] ∧ v.pots = [] ∧ v.potTotal = 0 ∧
      v.highestBet = 0 ∧ v.dealer = none ∧ v.current = none ∧
      ∀ x ∈ v.seats, x.bet = 0 ∧ x.dealtIn = false ∧ x.folded = false ∧ x.allIn = false
  during : ∀ h, t.hand = some h →
    v.hand = some h.number ∧ v.phase = h.phase ∧ v.board = h.board ∧ v.pots = h.pots ∧
      v.potTotal = h.potTotal ∧ v.highestBet = h.round.highestBet ∧ v.dealer = some h.dealer ∧
      v.current = h.currentPlayer ∧
      ∀ x ∈ v.seats, x.bet = h.round.contribution x.player ∧ x.dealtIn = h.isDealtIn x.player ∧
        x.folded = h.isFolded x.player ∧ x.allIn = h.isAllIn x.player
  middle : ∀ h, t.hand = some h →
    v.potTotal = (v.pots.map Pot.amount).sum + h.round.contributions.values.sum ∧
      h.round.contributions.values.sum = (v.seats.map (·.bet)).sum +
        ((h.round.contributions.entries.filter fun e => !t.roster.contains e.1).map Prod.snd).sum

theorem seats_view : t.view.seats = t.roster.players.map (seatView t.hand) := by
  unfold view publicView
  cases t.hand <;> rfl

/-- The bets of a round are in front of those seated, or were made by players who are gone. -/
theorem total_eq_bets {r : Roster} (hv : r.Valid) (b : Round) :
    b.total = (r.ids.map b.contribution).sum +
      ((b.contributions.entries.filter fun e => !r.contains e.1).map Prod.snd).sum := by
  have hseated : (b.contributions.entries.filter fun e => e.1 ∈ r.ids) =
      b.contributions.entries.filter fun e => r.contains e.1 := by
    refine List.filter_congr fun e _ => ?_
    rw [Bool.eq_iff_iff, decide_eq_true_iff]
    exact Roster.mem_ids_iff
  have hids : (r.ids.map b.contribution).sum =
      ((b.contributions.entries.filter fun e => r.contains e.1).map Prod.snd).sum :=
    hseated ▸ NatMap.sum_chips_of_nodup (m := b.contributions) hv.distinct
  have hperm := List.filter_append_perm (fun e => r.contains e.1) b.contributions.entries
  rw [hids, ← List.sum_append, ← List.map_append, (hperm.map Prod.snd).sum_eq]
  rfl

theorem shownBy_view (hv : t.roster.Valid) : t.ShownBy t.view where
  whose := by
    unfold view publicView
    cases t.hand <;> exact ⟨rfl, rfl⟩
  ascending := by
    rw [seats_view, List.pairwise_map]
    exact hv.players_ascending
  seated := by
    rw [seats_view, List.map_map]
    exact List.map_id _
  between hnone := by
    rw [view, hnone]
    refine ⟨rfl, rfl, rfl, rfl, rfl, rfl, rfl, rfl, fun x hx => ?_⟩
    obtain ⟨p, -, rfl⟩ := List.mem_map.mp hx
    exact ⟨rfl, rfl, rfl, rfl⟩
  during h hh := by
    rw [view, hh]
    refine ⟨rfl, rfl, rfl, rfl, rfl, rfl, rfl, rfl, fun x hx => ?_⟩
    obtain ⟨p, -, rfl⟩ := List.mem_map.mp hx
    exact ⟨rfl, rfl, rfl, rfl⟩
  middle h hh := by
    have hbets : t.view.seats.map (·.bet) = t.roster.ids.map h.round.contribution := by
      rw [seats_view, hh, List.map_map, Roster.ids, List.map_map]
      rfl
    refine ⟨?_, hbets ▸ total_eq_bets hv h.round⟩
    rw [view, hh]
    show h.stakes.total + h.round.total = (h.stakes.pots.map Pot.amount).sum + _
    rw [Stakes.sum_pots]
    rfl

/-- After every message, whatever came of it, a table has published how it is now. -/
theorem view_never_stale {id : TableId} {config : TableConfig} (h : config.validate = .ok ())
    (visits : List Visit) :
    ((create id config).run visits).1.snapshot = ((create id config).run visits).1.view ∧
      ((create id config).run visits).1.ShownBy ((create id config).run visits).1.snapshot := by
  have hw := create_waiting id h
  have hcurrent := snapshot_run hw snapshot_create visits
  refine ⟨hcurrent, ?_⟩
  rw [hcurrent]
  exact shownBy_view (hw.run visits).valid

/-- A table where a hand is dealt when somebody asks for it. -/
def onRequest : TableConfig := { autoStart := false }

/-- Three players are dealt a hand, and the small blind leaves after an attempt to fold out of
turn. -/
def leftABet : List Visit :=
  headsUp ++ [⟨threeKnown, .join 3 "carl" 300 none⟩, ⟨threeKnown, .deal 3⟩,
    ⟨threeKnown, .act 2 .fold⟩, ⟨threeKnown, .leave 2⟩]

-- The small blind is still in the middle, though it is no longer in front of anybody.
theorem view_never_stale_left_a_bet :
    onRequest.validate = .ok () ∧
      (((create 1 onRequest).run leftABet).1.snapshot.potTotal = 15 ∧
        ((create 1 onRequest).run leftABet).1.snapshot.seats.map (·.bet) = [0, 10]) ∧
      ((create 1 onRequest).run leftABet).1.snapshot =
        ((create 1 onRequest).run leftABet).1.view ∧
      ((create 1 onRequest).run leftABet).1.ShownBy
        ((create 1 onRequest).run leftABet).1.snapshot :=
  ⟨by decide, by decide +kernel, view_never_stale (by decide) leftABet⟩

end Holdem.Table
