import Holdem.Proofs.House.Seating
import Holdem.Proofs.Publishing

/-!
# Where a player listens

There is a scope for the house and one for each table, and each has its audience. A player who is
playing belongs to the scope of their table, anybody else to that of the house. A lobby is in tune
when whoever listens does so in the scope they belong to and in no other one, with the box they
opened last. A transition takes a listener along, somebody who begins to listen replaces the
listener they had, and what is told drops nobody whose box still has its owner.
-/
namespace Holdem

/-! ## Boxes with owners -/

namespace Mailroom
variable {α : Type} {m : Mailroom α} {box other : Nat} {message : α}

/-- Whether the owner of a box is still there. -/
def isOpen (m : Mailroom α) (box : Nat) : Bool := m.boxes[box]?.any (·.owned)

theorem Mailbox.owned_put (b : Mailbox α) : (b.put message).2.owned = b.owned := by
  unfold Mailbox.put
  split
  · rfl
  · split <;> rfl

@[simp] theorem isOpen_put : (m.put box message).2.isOpen other = m.isOpen other := by
  unfold put
  split
  · rfl
  · next b hb =>
      simp only [isOpen, List.getElem?_set]
      by_cases hother : box = other
      · subst hother
        have hlt := (List.getElem?_eq_some_iff.mp hb).1
        simp only [if_true, hlt, hb, Option.any_some, Mailbox.owned_put]
      · simp only [hother, if_false]

@[simp] theorem length_put : (m.put box message).2.boxes.length = m.boxes.length := by
  unfold put
  split
  · rfl
  · exact List.length_set

/-- A box whose owner is there may be full, but it is not closed. -/
theorem put_ne_closed (h : m.isOpen box = true) : (m.put box message).1 ≠ .closed := by
  unfold isOpen at h
  unfold put
  split
  · next hb => simp [hb] at h
  · next b hb =>
      rw [hb, Option.any_some] at h
      simp only [Mailbox.put, h, Bool.not_true, Bool.false_eq_true, if_false]
      split <;> nofun

theorem isOpen_openBox (room : Option Nat) :
    (m.openBox room).2.isOpen other = true ↔
      other = (m.openBox room).1 ∨ m.isOpen other = true := by
  simp only [isOpen, openBox, List.getElem?_append, List.getElem?_singleton]
  rcases Nat.lt_trichotomy other m.boxes.length with hlt | heq | hgt
  · simp [hlt, Nat.ne_of_lt hlt]
  · simp [heq]
  · simp [Nat.not_lt_of_gt hgt, Nat.sub_ne_zero_of_lt hgt, Nat.ne_of_gt hgt]

theorem isOpen_takeAll {m' : Mailroom α} {taken : List α} (h : m.takeAll box = some (taken, m')) :
    (∀ other, m'.isOpen other = m.isOpen other) ∧ m'.boxes.length = m.boxes.length := by
  unfold takeAll at h
  split at h
  · cases h
  · next b hb =>
      split at h
      · cases h
        refine ⟨fun other => ?_, List.length_set⟩
        simp only [isOpen, List.getElem?_set]
        by_cases hother : box = other
        · subst hother
          have hlt := (List.getElem?_eq_some_iff.mp hb).1
          simp only [if_true, hlt, hb, Option.any_some]
        · simp only [hother, if_false]
      · cases h

theorem isOpen_of_hangUp (h : (m.hangUp box).isOpen other = true) : m.isOpen other = true := by
  unfold isOpen hangUp at h
  rw [List.getElem?_modify] at h
  unfold isOpen
  cases hb : m.boxes[other]? with
  | none => simp [hb] at h
  | some b =>
      simp only [hb] at h
      split at h
      · cases h
      · exact h

@[simp] theorem length_hangUp : (m.hangUp box).boxes.length = m.boxes.length :=
  List.length_modify ..

end Mailroom

/-! ## What publishing leaves -/

namespace Lobby
variable {note : Notification} {mail : Mailroom Notification} {a : Audience Nat}

/-- Nothing happened to an audience but that listeners whose box is closed were dropped. -/
structure Weeded (isOpen : Nat → Bool) (a a' : Audience Nat) : Prop where
  kept : ∀ p box, a.listeners.get? p = some box → isOpen box = true →
    a'.listeners.get? p = some box
  heard : ∀ p box, a'.listeners.get? p = some box → a.listeners.get? p = some box

/-- While listeners are told, the audience is as it was, and only closed boxes are marked. The
induction is over the listeners still to be told. -/
theorem foldl_deliver (note : Notification) (order : List (PlayerId × Nat))
    {p : Audience.Progress Nat (Mailroom Notification)}
    (hclosed : ∀ e ∈ p.closed, p.world.isOpen e.2 = false) :
    let after := order.foldl (Audience.Progress.tell (deliver note)) p
    after.audience = p.audience ∧ (∀ box, after.world.isOpen box = p.world.isOpen box) ∧
      after.world.boxes.length = p.world.boxes.length ∧
      ∀ e ∈ after.closed, p.world.isOpen e.2 = false := by
  induction order generalizing p with
  | nil => exact ⟨rfl, fun _ => rfl, rfl, hclosed⟩
  | cons e rest ih =>
      have hworld : ∀ box, (p.tell (deliver note) e).world.isOpen box = p.world.isOpen box :=
        fun _ => Mailroom.isOpen_put
      have hmarked : ∀ x ∈ (p.tell (deliver note) e).closed, p.world.isOpen x.2 = false := by
        intro x hx
        simp only [Audience.Progress.tell] at hx
        split at hx
        · next hanswer =>
            rcases List.mem_append.mp hx with hx | hx
            · exact hclosed x hx
            · rw [List.mem_singleton.mp hx]
              exact Bool.eq_false_iff.mpr fun hopen => Mailroom.put_ne_closed hopen hanswer
        · exact hclosed x hx
      obtain ⟨haudience, hopen, hlength, hrest⟩ :=
        ih fun x hx => (hworld x.2).trans (hmarked x hx)
      exact ⟨haudience, fun box => (hopen box).trans (hworld box),
        hlength.trans Mailroom.length_put, fun x hx => (hworld x.2).symm.trans (hrest x hx)⟩

theorem publish_weeded (a : Audience Nat) (note : Notification) (mail : Mailroom Notification) :
    Weeded mail.isOpen a (a.publish (deliver note) mail).2.1 ∧
      (∀ box, (a.publish (deliver note) mail).2.2.isOpen box = mail.isOpen box) ∧
      (a.publish (deliver note) mail).2.2.boxes.length = mail.boxes.length := by
  obtain ⟨haudience, hopen, hlength, hclosed⟩ := foldl_deliver note a.listeners.entries
    (p := { audience := a, world := mail }) fun _ he => absurd he List.not_mem_nil
  have hentries : ∀ p box,
      (a.publish (deliver note) mail).2.1.listeners.get? p = some box ↔
        a.listeners.get? p = some box ∧ (p, box) ∉ (a.listeners.entries.foldl
          (Audience.Progress.tell (deliver note)) { audience := a, world := mail }).closed := by
    intro p box
    rw [← NatMap.mem_entries_iff, ← NatMap.mem_entries_iff, Audience.publish, Audience.publishTo,
      Audience.entries_foldl_dropSame, haudience, List.mem_filter, decide_eq_true_eq]
  refine ⟨⟨fun p box hbox hopen => ?_, fun p box hbox => ((hentries p box).mp hbox).1⟩, hopen,
    hlength⟩
  refine (hentries p box).mpr ⟨hbox, fun hmem => ?_⟩
  exact Bool.false_ne_true ((hclosed _ hmem).symm.trans hopen)

end Lobby

/-! ## Scopes -/

/-- Where something is told: in the house, or at a table. -/
inductive Scope where
  | house
  | table (id : TableId)
deriving DecidableEq

/-- The scope that somebody in a state belongs to. -/
def SessionState.scope : SessionState → Scope
  | .playing table => .table table
  | .idle | .seatedWaiting _ => .house

namespace Lobby
variable {l l' : Lobby} {p q : PlayerId} {box : Nat} {scope : Scope} {op : SessionOp}
  {before next s : SessionState} {e : SessionEntry}

def audience? (l : Lobby) : Scope → Option (Audience Nat)
  | .house => some l.houseAudience
  | .table id => l.tableAudiences.get? id

/-- The box in which somebody hears what is told in a scope. -/
def hears (l : Lobby) (scope : Scope) (p : PlayerId) : Option Nat :=
  (l.audience? scope).bind (·.listeners.get? p)

/-- The box that somebody's session has for them. -/
def box? (l : Lobby) (p : PlayerId) : Option Nat := (l.sessions.get? p).bind (·.listener)

theorem box?_of_listener (he : l.sessions.get? p = some e) (hbox : e.listener = some box) :
    l.box? p = some box := by
  rw [box?, he, Option.bind_some, hbox]

/-- Whether the scope that goes with a state has an audience. -/
def provides (l : Lobby) (scope : Scope) : Bool := (l.audience? scope).isSome

theorem audience?_mapScope {f : Audience Nat → Audience Nat} :
    (l.mapScope s f).audience? scope =
      if scope = s.scope then (l.audience? scope).map f else l.audience? scope := by
  cases s <;> cases scope <;>
    simp [mapScope, audience?, SessionState.scope, NatMap.get?_modify]

@[simp] theorem provides_mapScope {f : Audience Nat → Audience Nat} :
    (l.mapScope s f).provides scope = l.provides scope := by
  rw [provides, audience?_mapScope]
  split
  · exact Option.isSome_map
  · rfl

theorem hears_subscribe (hs : l.provides s.scope = true) :
    (l.mapScope s (·.subscribe p box)).hears scope q =
      if scope = s.scope ∧ q = p then some box else l.hears scope q := by
  rw [hears, audience?_mapScope]
  by_cases hscope : scope = s.scope
  · subst hscope
    obtain ⟨a, ha⟩ := Option.isSome_iff_exists.mp hs
    simp only [hears, ha, if_true, true_and, Option.map_some, Option.bind_some, Audience.subscribe,
      NatMap.get?_insert]
  · simp only [hscope, if_false, false_and, hears]

theorem hears_unsubscribe :
    (l.mapScope s (·.unsubscribe p)).hears scope q =
      if scope = s.scope ∧ q = p then none else l.hears scope q := by
  rw [hears, audience?_mapScope]
  by_cases hscope : scope = s.scope
  · subst hscope
    cases ha : l.audience? s.scope with
    | none => simp [hears, ha]
    | some a =>
        simp only [hears, ha, if_true, true_and, Option.map_some, Option.bind_some,
          Audience.unsubscribe, NatMap.get?_erase]
  · simp only [hscope, if_false, false_and, hears]

theorem hears_moveListener (l : Lobby) (p : PlayerId) (box : Nat) (before : SessionState)
    (hs : l.provides next.scope = true) (scope : Scope) (q : PlayerId) :
    (l.moveListener p box before next).hears scope q =
      if q = p then
        if scope = next.scope then some box
        else if scope = before.scope then none else l.hears scope q
      else l.hears scope q := by
  rw [moveListener, hears_subscribe (by rwa [provides_mapScope]), hears_unsubscribe]
  by_cases hq : q = p <;> simp [hq]

/-! ## Lobbies in tune -/

/-- Whoever listens does so where they belong, and with their own box. -/
structure Tuned (l : Lobby) : Prop where
  apart : l.sessions.get? house = none
  provided : ∀ p e, l.sessions.get? p = some e → l.provides e.state.scope = true
  issued : ∀ p box, l.box? p = some box → box < l.mail.boxes.length
  heard : ∀ p e box, l.sessions.get? p = some e → e.listener = some box →
    l.mail.isOpen box = true → l.hears e.state.scope p = some box
  own : ∀ p scope box, p ≠ house → l.hears scope p = some box →
    ∃ e, l.sessions.get? p = some e ∧ e.listener = some box ∧ e.state.scope = scope

/-- Nobody came, went or moved, and nobody was dropped whose box still has its owner. -/
structure Lasts (l l' : Lobby) : Prop where
  sessions : l'.sessions = l.sessions
  provides : ∀ scope, l'.provides scope = l.provides scope
  boxes : l'.mail.boxes.length = l.mail.boxes.length
  opened : ∀ box, l'.mail.isOpen box = true → l.mail.isOpen box = true
  kept : ∀ scope p box, l.hears scope p = some box → l'.mail.isOpen box = true →
    l'.hears scope p = some box
  heard : ∀ scope p box, l'.hears scope p = some box → l.hears scope p = some box

theorem Lasts.refl (l : Lobby) : Lasts l l where
  sessions := rfl
  provides _ := rfl
  boxes := rfl
  opened _ h := h
  kept _ _ _ h _ := h
  heard _ _ _ h := h

theorem Lasts.trans {l'' : Lobby} (h : Lasts l l') (h' : Lasts l' l'') : Lasts l l'' where
  sessions := h'.sessions.trans h.sessions
  provides scope := (h'.provides scope).trans (h.provides scope)
  boxes := h'.boxes.trans h.boxes
  opened box hopen := h.opened box (h'.opened box hopen)
  kept scope p box hbox hopen :=
    h'.kept scope p box (h.kept scope p box hbox (h'.opened box hopen)) hopen
  heard scope p box hbox := h.heard scope p box (h'.heard scope p box hbox)

theorem Lasts.foldl {α : Type} {f : Lobby → α → Lobby} (hf : ∀ l x, Lasts l (f l x))
    (news : List α) (l : Lobby) : Lasts l (news.foldl f l) := by
  induction news generalizing l with
  | nil => exact .refl l
  | cons x rest ih => exact (hf l x).trans (ih (f l x))

/-- Only the audience that was told can have changed, and only closed boxes were dropped from it. -/
theorem lasts_of_publish (scope : Scope) (note : Notification) {a : Audience Nat}
    (ha : l.audience? scope = some a) (hsessions : l'.sessions = l.sessions)
    (hmail : l'.mail = (a.publish (deliver note) l.mail).2.2)
    (hafter : ∀ other, l'.audience? other =
      if other = scope then some (a.publish (deliver note) l.mail).2.1 else l.audience? other) :
    Lasts l l' := by
  obtain ⟨hweeded, hopen, hlength⟩ := publish_weeded a note l.mail
  have hopened : ∀ box, l'.mail.isOpen box = true → l.mail.isOpen box = true := fun box h => by
    rwa [hmail, hopen] at h
  constructor
  case sessions => exact hsessions
  case boxes => rw [hmail, hlength]
  case opened => exact hopened
  case provides =>
    intro other
    rw [provides, hafter]
    split
    · next hother => rw [hother, provides, ha]; rfl
    · rfl
  case kept =>
    intro other p box hbox h
    rw [hears, hafter]
    split
    · next hother =>
        rw [hother, hears, ha] at hbox
        exact hweeded.kept p box hbox (hopened box h)
    · exact hbox
  case heard =>
    intro other p box hbox
    rw [hears, hafter] at hbox
    split at hbox
    · next hother =>
        rw [hother, hears, ha]
        exact hweeded.heard p box hbox
    · exact hbox

theorem lasts_announce (l : Lobby) (event : ServerEvent) : Lasts l (l.announce event) :=
  lasts_of_publish .house (.server event) rfl rfl rfl fun other => by cases other <;> rfl

theorem lasts_tell (l : Lobby) (table : TableId) (event : GameEvent) :
    Lasts l (l.tell table event) := by
  unfold tell
  cases ha : l.tableAudiences.get? table with
  | none => exact .refl l
  | some a =>
      refine lasts_of_publish (.table table) (.game event) ha rfl rfl fun other => ?_
      cases other with
      | house => rfl
      | table id => simp only [audience?, NatMap.get?_insert, Scope.table.injEq]

/-- Mail that is taken out, or lost with its owner, changes nothing but who is there. -/
theorem lasts_mail {mail : Mailroom Notification}
    (hboxes : mail.boxes.length = l.mail.boxes.length)
    (hopened : ∀ box, mail.isOpen box = true → l.mail.isOpen box = true) :
    Lasts l { l with mail } where
  sessions := rfl
  provides _ := rfl
  boxes := hboxes
  opened := hopened
  kept _ _ _ hbox _ := hbox
  heard _ _ _ hbox := hbox

theorem Tuned.lasts (h : l.Tuned) (hlasts : Lasts l l') : l'.Tuned where
  apart := by rw [hlasts.sessions, h.apart]
  provided p e he := by
    rw [hlasts.provides]
    exact h.provided p e (hlasts.sessions ▸ he)
  issued p box hbox := by
    rw [hlasts.boxes]
    rw [box?, hlasts.sessions] at hbox
    exact h.issued p box hbox
  heard p e box he hbox hopen := hlasts.kept _ p box
    (h.heard p e box (hlasts.sessions ▸ he) hbox (hlasts.opened box hopen)) hopen
  own p scope box hp hbox := by
    rw [hlasts.sessions]
    exact h.own p scope box hp (hlasts.heard scope p box hbox)

/-! ## Coming and going -/

theorem Tuned.register (h : l.Tuned) (hnew : l.sessions.get? p = none) (hp : p ≠ house)
    (name : String) : (l.register p name).Tuned := by
  have hsessions : ∀ q, (l.register p name).sessions.get? q =
      if q = p then some { name } else l.sessions.get? q := fun q => NatMap.get?_insert
  constructor
  case apart => rw [hsessions, if_neg hp.symm, h.apart]
  case provided =>
    intro q e he
    rw [hsessions] at he
    split at he
    · cases he
      rfl
    · exact h.provided q e he
  case issued =>
    intro q box hbox
    rw [box?, hsessions] at hbox
    split at hbox
    · cases hbox
    · exact h.issued q box hbox
  case heard =>
    intro q e box he hbox hopen
    rw [hsessions] at he
    split at he
    · cases he
      cases hbox
    · exact h.heard q e box he hbox hopen
  case own =>
    intro q scope box hq hbox
    obtain ⟨e, he, hown⟩ := h.own q scope box hq hbox
    have hne : q ≠ p := fun heq => by
      rw [heq, hnew] at he
      cases he
    exact ⟨e, by rw [hsessions, if_neg hne, he], hown⟩

/-- A scope that had no audience is given an empty one. -/
theorem Tuned.openAudience {table : TableId} (h : l.Tuned)
    (hnew : l.provides (.table table) = false) : (l.openAudience table).Tuned := by
  have hnone : l.audience? (.table table) = none := by simpa [provides] using hnew
  have hears : ∀ scope q, (l.openAudience table).hears scope q = l.hears scope q := by
    intro scope q
    cases scope with
    | house => rfl
    | table id =>
        simp only [Lobby.hears, audience?, Lobby.openAudience, NatMap.get?_insert] at hnone ⊢
        split
        · next hid => rw [hid, hnone]; rfl
        · rfl
  constructor
  case apart => exact h.apart
  case provided =>
    intro p e he
    have hbefore := h.provided p e he
    cases hscope : e.state.scope with
    | house => rfl
    | table id =>
        rw [hscope] at hbefore
        simp only [provides, audience?, Lobby.openAudience, NatMap.get?_insert]
        split
        · rfl
        · exact hbefore
  case issued => exact h.issued
  case heard =>
    intro p e box he hbox hopen
    rw [hears]
    exact h.heard p e box he hbox hopen
  case own =>
    intro p scope box hp hbox
    rw [hears] at hbox
    exact h.own p scope box hp hbox

/-! ## Transitions -/

/-- How a lobby differs after somebody with a session moved to another state. -/
structure Moved (l : Lobby) (p : PlayerId) (e : SessionEntry) (next : SessionState) (l' : Lobby) :
    Prop where
  sessions : l'.sessions = l.sessions.insert p { e with state := next }
  mail : l'.mail = l.mail
  provides : ∀ scope, l'.provides scope = l.provides scope
  others : ∀ scope q, q ≠ p → l'.hears scope q = l.hears scope q
  unheard : e.listener = none → ∀ scope, l'.hears scope p = l.hears scope p
  taken : ∀ box, e.listener = some box → ∀ scope, l'.hears scope p =
    if scope = next.scope then some box
    else if scope = e.state.scope then none else l.hears scope p

/-- A lobby with another entry for a player. -/
def withEntry (l : Lobby) (p : PlayerId) (e : SessionEntry) : Lobby :=
  { l with sessions := l.sessions.insert p e }

/-- The listener leaves the scope of the state before and goes to that of the next one. -/
theorem moved_moveListener (hs : l.provides next.scope = true) (hbox : e.listener = some box) :
    Moved l p e next
      ((l.withEntry p { e with state := next }).moveListener p box e.state next) := by
  have hears := hears_moveListener (l.withEntry p { e with state := next }) p box e.state hs
  constructor
  case sessions =>
    simp only [moveListener, sessions_mapScope]
    rfl
  case mail =>
    unfold moveListener
    cases e.state <;> cases next <;> rfl
  case provides =>
    intro scope
    simp only [moveListener, provides_mapScope]
    rfl
  case others => exact fun scope q hq => (hears scope q).trans (if_neg hq)
  case unheard =>
    intro hnone
    cases hbox.symm.trans hnone
  case taken =>
    intro box' hbox' scope
    cases hbox.symm.trans hbox'
    exact (hears scope p).trans (if_pos rfl)

theorem transition_moved (hs : l.provides next.scope = true)
    (hok : l.transition p op next = .ok (before, l')) :
    ∃ e, l.sessions.get? p = some e ∧ Moved l p e next l' := by
  unfold transition entry at hok
  cases he : l.sessions.get? p with
  | none => simp [he] at hok
  | some e =>
      simp only [he] at hok
      split at hok
      · cases hok
        refine ⟨e, rfl, ?_⟩
        rcases Option.eq_none_or_eq_some e.listener with hbox | ⟨box, hbox⟩
        · rw [hbox]
          exact ⟨by rw [hbox]; rfl, rfl, fun _ => rfl, fun _ _ _ => rfl, fun _ _ => rfl,
            fun _ hsome => by cases hbox.symm.trans hsome⟩
        · have hmoved := moved_moveListener (p := p) hs hbox
          simp only [withEntry, hbox] at hmoved
          rwa [hbox, Option.elim]
      · cases hok

/-- In a lobby in tune somebody is heard in the scope they moved to, with the box they have, and in
no other one. -/
theorem Tuned.hears_of_moved (h : l.Tuned) (he : l.sessions.get? p = some e)
    (hmoved : Moved l p e next l') (hp : p ≠ house) (scope : Scope) :
    l'.hears scope p = if scope = next.scope then e.listener else none := by
  have hbefore : ∀ box, l.hears scope p = some box →
      e.listener = some box ∧ e.state.scope = scope := by
    intro box hbox
    obtain ⟨e', he', hown⟩ := h.own p scope box hp hbox
    cases he.symm.trans he'
    exact hown
  cases hbox : e.listener with
  | none =>
      rw [ite_self, hmoved.unheard hbox]
      refine Option.eq_none_iff_forall_ne_some.mpr fun box hheard => ?_
      cases hbox.symm.trans (hbefore box hheard).1
  | some box =>
      rw [hmoved.taken box hbox]
      by_cases hnext : scope = next.scope
      · rw [if_pos hnext, if_pos hnext]
      · rw [if_neg hnext, if_neg hnext]
        split
        · rfl
        · next hne =>
            exact Option.eq_none_iff_forall_ne_some.mpr fun box hheard =>
              hne (hbefore box hheard).2.symm

theorem Tuned.ne_house (h : l.Tuned) (he : l.sessions.get? p = some e) : p ≠ house := by
  rintro rfl
  cases h.apart.symm.trans he

theorem Tuned.moved (h : l.Tuned) (hs : l.provides next.scope = true)
    (he : l.sessions.get? p = some e) (hmoved : Moved l p e next l') : l'.Tuned := by
  have hp := h.ne_house he
  have hself := h.hears_of_moved he hmoved hp
  have hsessions : ∀ q, l'.sessions.get? q =
      if q = p then some { e with state := next } else l.sessions.get? q := fun q => by
    rw [hmoved.sessions, NatMap.get?_insert]
  constructor
  case apart => rw [hsessions, if_neg hp.symm, h.apart]
  case provided =>
    intro q e' he'
    rw [hmoved.provides]
    rw [hsessions] at he'
    split at he'
    · cases he'
      exact hs
    · exact h.provided q e' he'
  case issued =>
    intro q box hbox
    rw [hmoved.mail]
    rw [box?, hsessions] at hbox
    split at hbox
    · exact h.issued p box (box?_of_listener he hbox)
    · exact h.issued q box hbox
  case heard =>
    intro q e' box he' hbox hopen
    rw [hmoved.mail] at hopen
    rw [hsessions] at he'
    split at he'
    · next hq =>
        cases he'
        rw [hq, hself, if_pos rfl]
        exact hbox
    · next hq =>
        rw [hmoved.others _ q hq]
        exact h.heard q e' box he' hbox hopen
  case own =>
    intro q scope box hq hbox
    by_cases hqp : q = p
    · rw [hqp, hself] at hbox
      split at hbox
      · next hscope =>
          exact ⟨{ e with state := next }, by rw [hsessions, if_pos hqp], hbox, hscope.symm⟩
      · cases hbox
    · rw [hmoved.others scope q hqp] at hbox
      obtain ⟨e', he', hown⟩ := h.own q scope box hq hbox
      exact ⟨e', by rw [hsessions, if_neg hqp, he'], hown⟩

/-- A lobby in which nobody began to listen since, and nobody came. -/
structure Since (l l' : Lobby) : Prop where
  tuned : l'.Tuned
  box?_eq : ∀ p, l'.box? p = l.box? p
  known : ∀ p, l'.sessions.contains p = l.sessions.contains p
  provides : ∀ scope, l'.provides scope = l.provides scope

theorem Since.trans {l'' : Lobby} (h : Since l l') (h' : Since l' l'') : Since l l'' where
  tuned := h'.tuned
  box?_eq p := (h'.box?_eq p).trans (h.box?_eq p)
  known p := (h'.known p).trans (h.known p)
  provides scope := (h'.provides scope).trans (h.provides scope)

theorem Tuned.since_lasts (h : l.Tuned) (hlasts : Lasts l l') : Since l l' where
  tuned := h.lasts hlasts
  box?_eq p := by rw [box?, hlasts.sessions, box?]
  known p := by rw [hlasts.sessions]
  provides := hlasts.provides

theorem Tuned.since_transition (h : l.Tuned) (hs : l.provides next.scope = true)
    (hok : l.transition p op next = .ok (before, l')) : Since l l' := by
  obtain ⟨e, he, hmoved⟩ := transition_moved hs hok
  refine ⟨h.moved hs he hmoved, fun q => ?_, fun q => ?_, hmoved.provides⟩
  · rw [box?, hmoved.sessions, NatMap.get?_insert, box?]
    split
    · next hq => rw [hq, he]; rfl
    · rfl
  · rw [NatMap.contains, hmoved.sessions, NatMap.get?_insert, NatMap.contains]
    split
    · next hq => rw [hq, he]; rfl
    · rfl

theorem Tuned.since_attempt (h : l.Tuned) (p : PlayerId) (op : SessionOp)
    (hs : l.provides next.scope = true) : Since l (l.attempt p op next) := by
  unfold attempt
  split
  · next hok => exact h.since_transition hs hok
  · exact h.since_lasts (.refl l)

/-! ## Beginning to listen -/

/-- How a lobby differs after somebody with a session began to listen. -/
structure Listened (l : Lobby) (p : PlayerId) (e : SessionEntry) (box : Nat) (l' : Lobby) :
    Prop where
  fresh : box = l.mail.boxes.length
  boxes : l'.mail.boxes.length = box + 1
  sessions : l'.sessions = l.sessions.insert p { e with listener := some box }
  provides : ∀ scope, l'.provides scope = l.provides scope
  opened : ∀ other, l'.mail.isOpen other = true ↔ other = box ∨ l.mail.isOpen other = true
  hears : ∀ scope q, l'.hears scope q =
    if scope = e.state.scope ∧ q = p then some box else l.hears scope q

theorem Tuned.listened {room : Nat} (h : l.Tuned) (hok : l.listen p room = .ok (box, l')) :
    ∃ e, l.sessions.get? p = some e ∧ Listened l p e box l' := by
  unfold listen entry at hok
  cases he : l.sessions.get? p with
  | none => simp [he] at hok
  | some e =>
      simp only [he] at hok
      cases hok
      have hmail : ∀ {l : Lobby} {f : Audience Nat → Audience Nat},
          (l.mapScope e.state f).mail = l.mail := by
        intro l f
        cases e.state <;> rfl
      refine ⟨e, rfl, rfl, ?_, sessions_mapScope, fun scope => ?_, fun other => ?_,
        fun scope q => hears_subscribe (by exact h.provided p e he)⟩
      · rw [hmail]
        exact List.length_append
      · rw [provides_mapScope]
        rfl
      · rw [hmail]
        exact Mailroom.isOpen_openBox (some room)

theorem Tuned.of_listened (h : l.Tuned) (he : l.sessions.get? p = some e)
    (hl : Listened l p e box l') : l'.Tuned := by
  have hp := h.ne_house he
  have hsessions : ∀ q, l'.sessions.get? q =
      if q = p then some { e with listener := some box } else l.sessions.get? q := fun q => by
    rw [hl.sessions, NatMap.get?_insert]
  constructor
  case apart => rw [hsessions, if_neg hp.symm, h.apart]
  case provided =>
    intro q e' he'
    rw [hl.provides]
    rw [hsessions] at he'
    split at he'
    · cases he'
      exact h.provided p e he
    · exact h.provided q e' he'
  case issued =>
    intro q other hother
    rw [hl.boxes]
    rw [box?, hsessions] at hother
    split at hother
    · cases hother
      exact Nat.lt_succ_self _
    · exact Nat.lt_succ_of_lt (hl.fresh ▸ h.issued q other hother)
  case heard =>
    intro q e' other he' hlistener hopen
    rw [hsessions] at he'
    rw [hl.hears]
    split at he'
    · next hq =>
        cases he'
        rw [if_pos ⟨rfl, hq⟩]
        exact hlistener
    · next hq =>
        have hold : other < box := hl.fresh ▸ h.issued q other (box?_of_listener he' hlistener)
        rw [if_neg fun hboth => hq hboth.2]
        exact h.heard q e' other he' hlistener
          (((hl.opened other).mp hopen).resolve_left (Nat.ne_of_lt hold))
  case own =>
    intro q scope other hq hheard
    rw [hl.hears] at hheard
    split at hheard
    · next hboth =>
        exact ⟨{ e with listener := some box }, by rw [hsessions, if_pos hboth.2], hheard,
          hboth.1.symm⟩
    · next hnot =>
        obtain ⟨e', he', hlistener, hscope⟩ := h.own q scope other hq hheard
        have hqp : q ≠ p := fun heq => by
          subst heq
          cases he.symm.trans he'
          exact hnot ⟨hscope.symm, rfl⟩
        exact ⟨e', by rw [hsessions, if_neg hqp, he'], hlistener, hscope⟩

/-- The house listens apart from all players. -/
theorem Tuned.listenAsHouse (h : l.Tuned) : l.listenAsHouse.2.Tuned := by
  have hears : ∀ scope q, q ≠ house → l.listenAsHouse.2.hears scope q = l.hears scope q := by
    intro scope q hq
    cases scope with
    | house =>
        show NatMap.get? (NatMap.insert _ _ _) q = _
        rw [NatMap.get?_insert, if_neg hq]
        rfl
    | table id => rfl
  constructor
  case apart => exact h.apart
  case provided =>
    intro p e he
    have hbefore := h.provided p e he
    cases hscope : e.state.scope with
    | house => rfl
    | table id =>
        rw [hscope] at hbefore
        exact hbefore
  case issued =>
    intro p box hbox
    show box < (l.mail.boxes ++ [_]).length
    rw [List.length_append]
    exact Nat.lt_succ_of_lt (h.issued p box hbox)
  case heard =>
    intro p e box he hbox hopen
    have hold := h.issued p box (box?_of_listener (l := l) he hbox)
    rw [hears _ p (h.ne_house he)]
    exact h.heard p e box he hbox
      (((Mailroom.isOpen_openBox none).mp hopen).resolve_left (Nat.ne_of_lt hold))
  case own =>
    intro p scope box hp hbox
    rw [hears scope p hp] at hbox
    exact h.own p scope box hp hbox

end Lobby
end Holdem
