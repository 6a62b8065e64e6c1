import Holdem.Proofs.Table.Happenings

/-!
# Seats and sessions

Who is seated at a table shows in two places, in the roster of the table and in the sessions of the
players. Whatever happens at a table keeps the two in agreement, and it changes no session of
anybody who is seated elsewhere. A session says that its player is playing once a hand was dealt
while they sat there, whether or not they were dealt in.
-/
namespace Holdem

/-! ## Sessions -/

namespace Lobby
variable {l l' : Lobby} {p q : PlayerId} {op : SessionOp} {before next s : SessionState}

/-- The state of a player's session, if there is one. -/
def state? (l : Lobby) (p : PlayerId) : Option SessionState := (l.sessions.get? p).map (·.state)

theorem stateOf_eq_ok : l.stateOf p = .ok s ↔ l.state? p = some s := by
  unfold stateOf entry state?
  cases l.sessions.get? p <;> simp [Except.map]

/-- Who listens makes no difference to the sessions. -/
@[simp] theorem sessions_mapScope {f : Audience Nat → Audience Nat} :
    (l.mapScope s f).sessions = l.sessions := by
  cases s <;> rfl

/-- Neither does what is told. -/
@[simp] theorem sessions_announce {e : ServerEvent} : (l.announce e).sessions = l.sessions := rfl

@[simp] theorem sessions_tell {table : TableId} {e : GameEvent} :
    (l.tell table e).sessions = l.sessions := by
  unfold tell
  split <;> rfl

theorem sessions_foldl {α : Type} {f : Lobby → α → Lobby}
    (hf : ∀ l a, (f l a).sessions = l.sessions) (news : List α) :
    (news.foldl f l).sessions = l.sessions := by
  induction news generalizing l with
  | nil => rfl
  | cons a rest ih => exact ih.trans (hf l a)

theorem state?_of_sessions (h : l'.sessions = l.sessions) (p : PlayerId) :
    l'.state? p = l.state? p := by
  rw [state?, h, state?]

theorem state?_insert {e : SessionEntry} (h : l'.sessions = l.sessions.insert p e) (q : PlayerId) :
    l'.state? q = if q = p then some e.state else l.state? q := by
  simp only [state?, h, NatMap.get?_insert]
  split <;> rfl

/-- Whoever listens is where they were. -/
theorem state?_listen {room box : Nat} (h : l.listen p room = .ok (box, l')) (q : PlayerId) :
    l'.state? q = l.state? q := by
  unfold listen entry at h
  cases he : l.sessions.get? p with
  | none => simp [he] at h
  | some e =>
      simp only [he] at h
      cases h
      rw [state?_insert (l := l) (p := p) (e := { e with listener := some _ }) sessions_mapScope q]
      split
      · next hq => rw [hq, state?, he]; rfl
      · rfl

/-- A transition takes place when the state permits it, and changes no other session. -/
theorem transition_ok (h : l.transition p op next = .ok (before, l')) :
    l.state? p = some before ∧ before.permits op = true ∧
      ∀ q, l'.state? q = if q = p then some next else l.state? q := by
  unfold transition entry at h
  cases he : l.sessions.get? p with
  | none => simp [he] at h
  | some e =>
      simp only [he] at h
      split at h
      · next hpermits =>
          cases h
          refine ⟨by rw [state?, he]; rfl, hpermits, fun q => ?_⟩
          apply state?_insert (e := { e with state := next })
          cases e.listener with
          | none => rfl
          | some box => simp [moveListener]
      · cases h

/-- A transition to be made if the state permits it. -/
def attempt (l : Lobby) (p : PlayerId) (op : SessionOp) (next : SessionState) : Lobby :=
  match l.transition p op next with
  | .ok (_, l) => l
  | .error _ => l

theorem state?_attempt (op : SessionOp) (next : SessionState) :
    (l.attempt p op next).state? q =
      if q = p then (l.state? q).map fun s => if s.permits op then next else s
      else l.state? q := by
  unfold attempt
  cases ht : l.transition p op next with
  | ok r =>
      obtain ⟨hbefore, hpermits, hstate⟩ := transition_ok ht
      rw [hstate q]
      by_cases hq : q = p
      · rw [if_pos hq, if_pos hq, hq, hbefore, Option.map_some, if_pos hpermits]
      · rw [if_neg hq, if_neg hq]
  | error e =>
      -- Without a transition there is no session, or its state does not permit the operation.
      by_cases hq : q = p
      · subst hq
        unfold transition entry at ht
        cases he : l.sessions.get? q with
        | none => simp [state?, he]
        | some entry =>
            simp only [he] at ht
            split at ht
            · cases ht
            · next hnot => simp [state?, he, hnot]
      · rw [if_neg hq]

end Lobby

/-! ## Being dealt in -/

/-- What is told of hands and seats, for a player who waits to be dealt a hand. -/
def GameEvent.dealt (p : PlayerId) (before : Bool) : GameEvent → Bool
  | .playerJoined q _ _ _ => if q = p then false else before
  | .handStarted .. => true
  | _ => before

/-- Whether a hand was dealt at a table since a player sat down there last. -/
def dealtSince (p : PlayerId) (told : List GameEvent) : Bool := told.foldl (GameEvent.dealt p) false

/-- The session of somebody seated at a table. -/
def seatState (id : TableId) (dealt : Bool) : SessionState :=
  if dealt then .playing id else .seatedWaiting id

section Dealt
variable {p : PlayerId} {told news : List GameEvent} {e : GameEvent} {s s' mid : Spot}

theorem dealtSince_snoc : dealtSince p (told ++ [e]) = e.dealt p (dealtSince p told) :=
  List.foldl_append ..

@[simp] theorem table?_seatState {id : TableId} {dealt : Bool} :
    (seatState id dealt).table? = some id := by
  cases dealt <;> rfl

/-- No hand is dealt while another one moves on. -/
theorem dealtSince_movesOn (hon : Spot.MovesOn s news s') :
    dealtSince p (told ++ news) = dealtSince p told := by
  induction hon generalizing told with
  | prompt | ended => exact dealtSince_snoc
  | street _ _ _ _ ih =>
      rw [List.append_cons, ih]
      exact dealtSince_snoc

/-- Or while it goes on in another way. -/
theorem dealtSince_unfolds (h : s.Unfolds news s') :
    dealtSince p (told ++ news) = dealtSince p told := by
  cases h with
  | acts _ hacts hon =>
      rw [← List.append_assoc, dealtSince_movesOn hon]
      cases hacts with
      | check | fold => exact dealtSince_snoc
      | commit a allIn =>
          rw [List.append_cons, dealtSince_snoc]
          cases allIn <;> exact dealtSince_snoc
  | leaves hdeparts hon =>
      rw [← List.append_assoc, dealtSince_movesOn hon]
      cases hdeparts with
      | absent | folded => rw [List.append_nil]
      | standing => exact dealtSince_snoc
  | stays hdeparts =>
      cases hdeparts with
      | absent | folded => rw [List.append_nil]
      | standing => exact dealtSince_snoc

/-- A hand that is dealt is told of. -/
theorem dealtSince_deals {t : Table} {f : Floor} {dealer : PlayerId} (hv : t.roster.Valid)
    (hdeals : t.Deals f dealer s) : dealtSince p (told ++ s.hand.events) = true := by
  obtain ⟨pos, news, mid, more, hopened, hon, hevents, -⟩ := Hand.movesOn_of_deal hv hdeals.start
  rw [hevents, ← List.append_assoc, dealtSince_movesOn hon]
  cases hopened.opens with
  | blinds =>
      rw [List.append_cons, dealtSince_snoc, dealtSince_snoc]
      rfl

end Dealt

/-! ## At a table -/

/-- Two lobbies have the same players at a table. -/
def SameAt (id : TableId) (l l' : Lobby) : Prop :=
  ∀ p s, s.table? = some id → (l'.state? p = some s ↔ l.state? p = some s)

theorem SameAt.trans {id : TableId} {l l' l'' : Lobby} (h : SameAt id l l')
    (h' : SameAt id l' l'') : SameAt id l l'' :=
  fun p s hs => (h' p s hs).trans (h p s hs)

namespace Table

/-- The sessions agree with who is seated at a table, and with what was told there. -/
structure Seating (t : Table) (l : Lobby) (told : List GameEvent) : Prop where
  present : ∀ p, t.roster.contains p = true →
    l.state? p = some (seatState t.id (dealtSince p told))
  absent : ∀ p s, t.roster.contains p = false → l.state? p = some s → s.table? ≠ some t.id

namespace Seating
variable {t t' : Table} {l l' : Lobby} {told told' : List GameEvent} {p : PlayerId}

/-- Agreement depends on who is seated, what their sessions are and what was told of deals. -/
theorem of_same (h : t.Seating l told) (hid : t'.id = t.id)
    (hroster : ∀ p, t'.roster.contains p = t.roster.contains p) (hsame : SameAt t.id l l')
    (htold : ∀ p, dealtSince p told' = dealtSince p told) : t'.Seating l' told' where
  present p hp := by
    rw [hid, htold p]
    exact (hsame p _ table?_seatState).mpr (h.present p (hroster p ▸ hp))
  absent p s hp hs htable := by
    rw [hid] at htable
    exact h.absent p s (hroster p ▸ hp) ((hsame p s htable).mp hs) htable

/-- Whoever's session is at the table is seated there. -/
theorem contains_of_state {s : SessionState} (h : t.Seating l told) (hs : l.state? p = some s)
    (htable : s.table? = some t.id) : t.roster.contains p = true := by
  cases hin : t.roster.contains p with
  | true => rfl
  | false => exact absurd htable (h.absent p s hin hs)

/-- A table is held as long as somebody is seated there. So it can be handed to all who are dealt a
hand. -/
theorem isHeld {f : Floor} (h : t.Seating f.lobby told) (hin : t.roster.contains p = true) :
    t.isHeld f = true := by
  obtain ⟨e, he, hstate⟩ := Option.map_eq_some_iff.mp (h.present p hin)
  refine Bool.or_eq_true_iff.mpr (.inr (List.any_eq_true.mpr ⟨e, ?_, ?_⟩))
  · exact NatMap.mem_values_of_get? he
  · rw [hstate, table?_seatState]
    exact decide_eq_true rfl

/-- Whoever is seated there is at no other table. -/
theorem elsewhere {other : TableId} (h : t.Seating l told) (hne : other ≠ t.id)
    (hin : t.roster.contains p = true) : ∀ s, l.state? p = some s → s.table? ≠ some other := by
  intro s hs htable
  rw [h.present p hin] at hs
  cases hs
  rw [table?_seatState] at htable
  exact hne (Option.some.inj htable).symm

end Seating

section Moves
variable {p q : PlayerId} {l : Lobby} {id : TableId} {state : SessionState}

/-- The state after a hand was dealt at the table of somebody in a state. -/
def atGame (id : TableId) (state : SessionState) : SessionState :=
  if state.permits .startGame then .playing id else state

theorem atGame_atGame : atGame id (atGame id state) = atGame id state := by
  cases state <;> rfl

theorem atGame_seatState (dealt : Bool) : atGame id (seatState id dealt) = seatState id true := by
  cases dealt <;> rfl

theorem state?_follow :
    (follow id l p).state? q = if q = p then (l.state? q).map (atGame id) else l.state? q :=
  Lobby.state?_attempt .startGame (.playing id)

theorem state?_dismiss :
    (dismiss l p).state? q =
      if q = p then (l.state? q).map fun s => if s.permits .leaveTable then .idle else s
      else l.state? q :=
  Lobby.state?_attempt .leaveTable .idle

theorem state?_foldl_follow (players : List PlayerId) :
    (players.foldl (follow id) l).state? q =
      if q ∈ players then (l.state? q).map (atGame id) else l.state? q := by
  induction players generalizing l with
  | nil => rfl
  | cons p rest ih =>
      have htwice : atGame id ∘ atGame id = atGame id := funext fun _ => atGame_atGame
      rw [List.foldl_cons, ih, state?_follow]
      by_cases hp : q = p
      · rw [if_pos hp, Option.map_map, htwice, ite_self, if_pos (List.mem_cons.mpr (.inl hp))]
      · simp only [List.mem_cons, hp, false_or, if_false]

/-! ## What happens there -/

section Steps
variable {t : Table} {f : Floor} {s : Spot} {told : List GameEvent} {other : TableId}
  {l' : Lobby}

/-- Sessions that neither were at a table nor are there now make no difference there. -/
theorem sameAt_of_moved (h : ∀ p, l'.state? p = l.state? p ∨
    (∀ s, l.state? p = some s → s.table? ≠ some other) ∧
      ∀ s, l'.state? p = some s → s.table? ≠ some other) : SameAt other l l' := by
  intro p s hs
  rcases h p with hsame | ⟨hbefore, hafter⟩
  · rw [hsame]
  · exact ⟨fun h => absurd hs (hafter s h), fun h => absurd hs (hbefore s h)⟩

theorem state?_joined : (joined f id s).lobby.state? p =
    if p ∈ s.roster.ids then (f.lobby.state? p).map (atGame id) else f.lobby.state? p :=
  state?_foldl_follow _

/-- Everybody seated is at the game when a hand is dealt. -/
theorem Seating.deals {dealer : PlayerId} {news : List ServerEvent} (h : t.Seating f.lobby told)
    (hv : t.roster.Valid) (hdeals : t.Deals f dealer s) :
    (t.dealtTo s news).Seating (joined f t.id s).lobby (told ++ s.hand.events) := by
  have hids : s.roster.ids = t.roster.ids := hdeals.begun.restacked.ids_eq
  have hin : ∀ p, (t.dealtTo s news).roster.contains p = true ↔ p ∈ s.roster.ids := fun p =>
    Roster.mem_ids_iff.symm
  constructor
  · intro p hp
    have hbefore := h.present p (Roster.mem_ids_iff.mp (hids ▸ (hin p).mp hp))
    rw [state?_joined, if_pos ((hin p).mp hp), hbefore, dealtSince_deals hv hdeals,
      Option.map_some, atGame_seatState]
    rfl
  · intro p state hp hs
    have hout : p ∉ s.roster.ids := fun hmem => by
      rw [(hin p).mpr hmem] at hp
      cases hp
    rw [state?_joined, if_neg hout] at hs
    refine h.absent p state (Bool.eq_false_iff.mpr fun hmem => hout ?_) hs
    rw [hids]
    exact Roster.mem_ids_iff.mpr hmem

/-- Nobody else is. -/
theorem Seating.deals_aside {dealer : PlayerId} (h : t.Seating f.lobby told)
    (hdeals : t.Deals f dealer s) (hne : other ≠ t.id) :
    SameAt other f.lobby (joined f t.id s).lobby := by
  have hids : s.roster.ids = t.roster.ids := hdeals.begun.restacked.ids_eq
  apply sameAt_of_moved
  intro p
  rw [state?_joined]
  by_cases hp : p ∈ s.roster.ids
  · have hseated : t.roster.contains p = true := Roster.mem_ids_iff.mp (hids ▸ hp)
    refine .inr ⟨h.elsewhere hne hseated, fun state hs htable => ?_⟩
    rw [if_pos hp, h.present p hseated, Option.map_some, atGame_seatState] at hs
    cases hs
    exact hne (Option.some.inj htable).symm
  · exact .inl (if_neg hp)

/-- So it is when one session changes. -/
theorem sameAt_of_one {before next : SessionState} (hbefore : l.state? p = some before)
    (hafter : ∀ q, l'.state? q = if q = p then some next else l.state? q)
    (hleft : before.table? ≠ some other) (hcame : next.table? ≠ some other) :
    SameAt other l l' := by
  apply sameAt_of_moved
  intro q
  rw [hafter q]
  by_cases hqp : q = p
  · rw [if_pos hqp, hqp, hbefore]
    exact .inr ⟨fun s hs => Option.some.inj hs ▸ hleft, fun s hs => Option.some.inj hs ▸ hcame⟩
  · exact .inl (if_neg hqp)

/-- Somebody who was at no table sits down. -/
theorem Seating.sitsDown {name : String} {stack : Chips} {wanted : Option SeatIndex}
    {seat : SeatIndex} {r : Roster} {before : SessionState} (h : t.Seating l told)
    (hv : t.roster.Valid) (hadd : t.roster.add p name stack wanted = .ok (seat, r))
    (hstate : l.transition p .joinTable (.seatedWaiting t.id) = .ok (before, l')) :
    (t.seatedAt r p name stack seat).Seating l' (told ++ [.playerJoined p name seat stack]) := by
  obtain ⟨-, -, hafter⟩ := Lobby.transition_ok hstate
  have hin : ∀ q, (t.seatedAt r p name stack seat).roster.contains q = true ↔
      q = p ∨ t.roster.contains q = true := fun q => by
    obtain ⟨-, -, -, -, -, hperm⟩ := Roster.add_spec hv hadd
    have hmem : q ∈ r.ids ↔ q = p ∨ q ∈ t.roster.ids := by
      rw [Roster.ids, (hperm.map _).mem_iff]
      exact List.mem_cons
    exact Roster.mem_ids_iff.symm.trans (hmem.trans (or_congr_right Roster.mem_ids_iff))
  constructor
  · intro q hq
    rw [hafter q, dealtSince_snoc]
    by_cases hqp : q = p
    · rw [if_pos hqp, GameEvent.dealt, if_pos hqp.symm]
      rfl
    · rw [if_neg hqp, GameEvent.dealt, if_neg (Ne.symm hqp)]
      exact h.present q (((hin q).mp hq).resolve_left hqp)
  · intro q state hq hs
    obtain ⟨hqp, hout⟩ := not_or.mp (mt (hin q).mpr (Bool.eq_false_iff.mp hq))
    rw [hafter q, if_neg hqp] at hs
    exact h.absent q state (Bool.eq_false_iff.mpr hout) hs

theorem sitsDown_aside {before : SessionState}
    (hstate : l.transition p .joinTable (.seatedWaiting t.id) = .ok (before, l'))
    (hne : other ≠ t.id) : SameAt other l l' := by
  obtain ⟨hbefore, hpermits, hafter⟩ := Lobby.transition_ok hstate
  refine sameAt_of_one hbefore hafter (fun htable => ?_) fun htable =>
    hne (Option.some.inj htable).symm
  cases before with
  | idle => cases htable
  | seatedWaiting | playing => cases hpermits

/-- The session of somebody who is seated lets them go. -/
theorem Seating.state?_dismiss (h : t.Seating l told) (hseated : t.roster.contains p = true)
    (q : PlayerId) : (dismiss l p).state? q = if q = p then some .idle else l.state? q := by
  rw [Table.state?_dismiss]
  split
  · next hqp =>
      rw [hqp, h.present p hseated]
      cases dealtSince p told <;> rfl
  · rfl

/-- Somebody who is seated stands up. -/
theorem Seating.standsUp {x : Player} {r : Roster} (h : t.Seating l told) (hv : t.roster.Valid)
    (hremove : t.roster.remove p = .ok (x, r)) :
    (t.leftBy r p x.stack).Seating (dismiss l p) (told ++ [.playerLeft p x.stack]) := by
  obtain ⟨hget, hv', -, -, hperm⟩ := Roster.remove_spec hv hremove
  have hx : x.id = p := ((Roster.get?_eq_some_iff hv).mp hget).2
  have hafter := h.state?_dismiss (Option.isSome_iff_exists.mpr ⟨x, hget⟩)
  have hin : ∀ q, q ≠ p → (t.leftBy r p x.stack).roster.contains q = t.roster.contains q :=
    fun q hqp => congrArg Option.isSome
      (Roster.get?_of_perm_cons hv' hv hperm (hx ▸ hqp)).symm
  have hgone : (t.leftBy r p x.stack).roster.contains p = false := by
    have hdistinct := (hperm.map (·.id)).nodup_iff.mp hv.distinct
    rw [List.map_cons, hx] at hdistinct
    exact Bool.eq_false_iff.mpr fun hmem =>
      (List.nodup_cons.mp hdistinct).1 (Roster.mem_ids_iff.mpr hmem)
  constructor
  · intro q hq
    have hqp : q ≠ p := fun hqp => by
      rw [hqp, hgone] at hq
      cases hq
    rw [hafter q, if_neg hqp, dealtSince_snoc]
    exact h.present q (hin q hqp ▸ hq)
  · intro q state hq hs
    rw [hafter q] at hs
    by_cases hqp : q = p
    · rw [if_pos hqp] at hs
      cases hs
      exact nofun
    · rw [if_neg hqp] at hs
      exact h.absent q state (hin q hqp ▸ hq) hs

theorem Seating.dismiss_aside (h : t.Seating l told) (hseated : t.roster.contains p = true)
    (hne : other ≠ t.id) : SameAt other l (dismiss l p) := by
  have hpresent := h.present p hseated
  exact sameAt_of_one hpresent (h.state?_dismiss hseated) (h.elsewhere hne hseated _ hpresent) nofun

end Steps

/-- What is known of a table while something happens there: the sessions agree with it, at other
tables they are as they were, and nobody gets or loses one. -/
structure Kept (id : TableId) (l : Lobby) (past : List GameEvent) (now : Table × Floor) : Prop where
  same : now.1.id = id
  seating : now.1.Seating now.2.lobby (past ++ now.1.outbox)
  aside : ∀ other, other ≠ id → SameAt other l now.2.lobby
  known : ∀ p, (now.2.lobby.state? p).isSome = (l.state? p).isSome

section Kept
variable {past : List GameEvent} {a b : Table × Floor}

/-- Happenings that concern neither seats nor sessions nor deals. -/
theorem Kept.of_same (h : Kept id l past a) (hid : b.1.id = a.1.id)
    (hroster : ∀ p, b.1.roster.contains p = a.1.roster.contains p)
    (hlobby : b.2.lobby = a.2.lobby)
    (htold : ∀ p, dealtSince p (past ++ b.1.outbox) = dealtSince p (past ++ a.1.outbox)) :
    Kept id l past b where
  same := hid.trans h.same
  seating := h.seating.of_same hid hroster (fun _ _ _ => by rw [hlobby]) htold
  aside other hne := by
    rw [hlobby]
    exact h.aside other hne
  known p := by
    rw [hlobby]
    exact h.known p

theorem Happens.kept (h : Happens a b) (hk : Kept id l past a) : Kept id l past b := by
  have hid := hk.same
  cases h with
  | @deals t f dealer s news hv hnone hdeals =>
      refine ⟨hid, ?_, fun other hne => (hk.aside other hne).trans ?_, fun p => ?_⟩
      · show Seating _ _ (past ++ (t.outbox ++ s.hand.events))
        rw [← List.append_assoc]
        exact hk.seating.deals hv hdeals
      · exact hk.seating.deals_aside hdeals (hid ▸ hne)
      · rw [state?_joined, ← hk.known p]
        split
        · exact Option.isSome_map
        · rfl
  | @goesOn t f h told s hh hquiet ha hunfolds =>
      have hids : s.roster.ids = t.roster.ids := hunfolds.moves.restacked.ids_eq
      have hevents : s.hand.events = told := by
        rw [hunfolds.events, hquiet, List.nil_append]
      refine hk.of_same rfl (fun p => ?_) rfl fun p => ?_
      · rw [Bool.eq_iff_iff]
        exact Roster.mem_ids_iff.symm.trans (hids ▸ Roster.mem_ids_iff)
      · show dealtSince p (past ++ (t.outbox ++ s.hand.events)) = _
        rw [hevents, ← List.append_assoc]
        exact dealtSince_unfolds hunfolds
  | @clears t f h hh hquiet hover =>
      have hsame : t.endHand.id = t.id := by rw [endHand, hh]
      exact hk.of_same hsame (fun p => by rw [roster_endHand]) rfl fun p => by rw [outbox_endHand]
  | @sitsDown t f p name stack wanted seat r before lobby hv hadd hstate =>
      obtain ⟨hbefore, -, hafter⟩ := Lobby.transition_ok hstate
      refine ⟨hid, ?_, fun other hne => (hk.aside other hne).trans ?_, fun q => ?_⟩
      · show Seating _ _ (past ++ (t.outbox ++ [_]))
        rw [← List.append_assoc]
        exact hk.seating.sitsDown hv hadd hstate
      · exact sitsDown_aside hstate (hid ▸ hne)
      · rw [hafter q, ← hk.known q]
        split
        · next hq => rw [hq, hbefore]; rfl
        · rfl
  | @standsUp t f p x r hv hremove =>
      obtain ⟨hget, -⟩ := Roster.remove_spec hv hremove
      have hseated : t.roster.contains p = true := Option.isSome_iff_exists.mpr ⟨x, hget⟩
      refine ⟨hid, ?_, fun other hne => (hk.aside other hne).trans ?_, fun q => ?_⟩
      · show Seating _ _ (past ++ (t.outbox ++ [_]))
        rw [← List.append_assoc]
        exact hk.seating.standsUp hv hremove
      · exact hk.seating.dismiss_aside hseated (hid ▸ hne)
      · rw [state?_dismiss, ← hk.known q]
        split
        · exact Option.isSome_map
        · rfl
  | @talks t f p message =>
      refine hk.of_same rfl (fun _ => rfl) rfl fun q => ?_
      show dealtSince q (past ++ (t.outbox ++ [_])) = _
      rw [← List.append_assoc]
      exact dealtSince_snoc
  | stops => exact hk.of_same rfl (fun _ => rfl) rfl fun _ => rfl

/-- A table that nobody is to sit down at any more is as ready as before. -/
theorem Ready.close {t : Table} (h : t.Ready) :
    ({ t with roster := t.roster.close } : Table).Ready where
  toWaiting :=
    h.toWaiting.reseat ⟨h.valid.seated, h.valid.distinct⟩ rfl fun _ _ _ _ => rfl
  quiet := h.quiet
  noted := h.noted

/-- A message to a table keeps seats and sessions in agreement. -/
theorem Ready.handle_kept {t : Table} {f : Floor} (hr : t.Ready) (hs : t.Seating f.lobby past)
    (m : Message) :
    (t.handle f m).1.id = t.id ∧
      (t.handle f m).1.Seating (t.handle f m).2.1.lobby
        (past ++ (t.respond f m).table.outbox) ∧
      (∀ other, other ≠ t.id → SameAt other f.lobby (t.handle f m).2.1.lobby) ∧
      ∀ p, ((t.handle f m).2.1.lobby.state? p).isSome = (f.lobby.state? p).isSome := by
  have hbefore : Kept t.id f.lobby past (t, f) :=
    { same := rfl
      seating := by
        show t.Seating f.lobby (past ++ t.outbox)
        rw [hr.noted, List.append_nil]
        exact hs
      aside := fun _ _ _ _ _ => Iff.rfl
      known := fun _ => rfl }
  have hafter := (respond_goes (f := f) hr.toWaiting hr.quiet m).keeps (·.kept) hbefore
  have hid : (t.handle f m).1.id = (t.respond f m).table.id := by
    simp only [Table.handle, tellAll]
    split <;> rfl
  have hlobby : (t.handle f m).2.1.lobby.sessions = (t.respond f m).floor.lobby.sessions := by
    simp only [Table.handle, tellAll]
    rw [Lobby.sessions_foldl fun _ _ => Lobby.sessions_announce]
    exact Lobby.sessions_foldl (fun _ _ => Lobby.sessions_tell) _
  have hstate := Lobby.state?_of_sessions hlobby
  refine ⟨hid.trans hafter.same, ?_, fun other hne p s hs => ?_, fun p => ?_⟩
  · exact hafter.seating.of_same hid (fun p => by rw [roster_handle])
      (fun p s _ => by rw [hstate p]) fun _ => rfl
  · rw [hstate p]
    exact hafter.aside other hne p s hs
  · rw [hstate p]
    exact hafter.known p

end Kept
end Moves
end Table
end Holdem
