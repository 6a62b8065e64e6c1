import Holdem.Proofs.House.Changes
import Holdem.Proofs.House.Scopes

/-!
# Whoever listens is told where they are

Players come and begin to listen, take seats, are dealt hands and leave, things are told in every
scope, and boxes are emptied or lose their owners. Whatever happens, in whatever order, a player
whose last box still has its owner listens with it where they are, and nowhere else. That needs
nothing but a lobby in tune and a scope for every table, and each of the things that happen keeps
both.
-/
namespace Holdem

/-! ## What happens at a table -/

namespace Table
variable {t : Table} {f : Floor} {id : TableId} {l : Lobby} {a b : Table × Floor}

/-- Everybody who follows a hand listens at its table. -/
theorem since_foldl_follow (players : List PlayerId) (h : l.Tuned)
    (hs : l.provides (.table id) = true) : l.Since (players.foldl (follow id) l) := by
  induction players generalizing l with
  | nil => exact h.since_lasts (.refl l)
  | cons p rest ih =>
      have hfirst : l.Since (follow id l p) := h.since_attempt p .startGame hs
      exact hfirst.trans (ih hfirst.tuned ((hfirst.provides _).trans hs))

/-- A table, and what became of the lobby there. -/
structure Attended (id : TableId) (l : Lobby) (now : Table × Floor) : Prop where
  same : now.1.id = id
  since : l.Since now.2.lobby

/-- Only somebody who sits down, is dealt a hand or stands up moves. -/
theorem Happens.attended (h : Happens a b) (hs : l.provides (.table id) = true)
    (ha : Attended id l a) : Attended id l b := by
  cases h with
  | @deals t f dealer s news hv hnone hdeals =>
      refine ⟨ha.same, ha.since.trans (since_foldl_follow _ ha.since.tuned ?_)⟩
      rw [ha.since.provides, ha.same]
      exact hs
  | goesOn | talks | stops => exact ⟨ha.same, ha.since⟩
  | clears => exact ⟨id_endHand.trans ha.same, ha.since⟩
  | sitsDown hv hadd hstate =>
      exact ⟨ha.same, ha.since.trans (ha.since.tuned.since_transition rfl hstate)⟩
  | @standsUp t f p x r hv hremove =>
      exact ⟨ha.same, ha.since.trans (ha.since.tuned.since_attempt p .leaveTable rfl)⟩

theorem Ready.attended_handle (hr : t.Ready) (hl : f.lobby.Tuned)
    (hs : f.lobby.provides (.table t.id) = true) (m : Message) :
    Attended t.id f.lobby ((t.handle f m).1, (t.handle f m).2.1) := by
  have hgoes := respond_goes (f := f) hr.toWaiting hr.quiet m
  have hafter : Attended t.id f.lobby ((t.respond f m).table, (t.respond f m).floor) :=
    hgoes.keeps (fun hstep => hstep.attended hs) ⟨rfl, hl.since_lasts (.refl _)⟩
  have htold := (Lobby.Lasts.foldl (fun l e => Lobby.lasts_tell l (t.respond f m).table.id e)
    (t.respond f m).table.outbox (t.respond f m).floor.lobby).trans
      (.foldl Lobby.lasts_announce (t.respond f m).table.announcements _)
  refine ⟨?_, hafter.since.trans (hafter.since.tuned.since_lasts ?_)⟩
  · refine Eq.trans ?_ hafter.same
    simp only [Table.handle, tellAll]
    split <;> rfl
  · simp only [Table.handle, tellAll]
    split <;> exact htold

end Table

/-! ## What happens in a house -/

/-- A house, and the boxes that every player opened to listen, the last one first. -/
structure Scene where
  house : House
  streams : PlayerId → List Nat := fun _ => []

/-- What can happen to those who listen in a house. -/
inductive Incident where
  | register (player : PlayerId) (name : String)
  | openTable (config : TableConfig)
  | listen (player : PlayerId) (room : Nat)
  | listenAsHouse
  | transition (player : PlayerId) (op : SessionOp) (next : SessionState)
  | send (table : TableId) (message : Message)
  | retire (table : TableId)
  | announce (event : ServerEvent)
  | tell (table : TableId) (event : GameEvent)
  | takeAll (box : Nat)
  | hangUp (box : Nat)

namespace Scene

def lobby (s : Scene) : Lobby := s.house.floor.lobby

def mapLobby (s : Scene) (f : Lobby → Lobby) : Scene := { s with house := s.house.mapLobby f }

/-- A number is fresh if no player has it, nor the house. -/
def isFresh (s : Scene) (player : PlayerId) : Bool :=
  !s.lobby.sessions.contains player && player ≠ Holdem.house

/-- A new player is made known under a fresh number. -/
def register (s : Scene) (player : PlayerId) (name : String) : Scene :=
  if s.isFresh player then
    { s with house :=
        { s.house.mapLobby (·.register player name) with
          nextPlayer := max s.house.nextPlayer (player + 1) } }
  else s

/-- A table is opened, if it can be with its settings. -/
def openTable (s : Scene) (config : TableConfig) : Scene :=
  match s.house.createTable config with
  | .ok (_, house) => { s with house }
  | .error _ => s

/-- A player begins to listen, if they are known. -/
def listen (s : Scene) (player : PlayerId) (room : Nat) : Scene :=
  match s.lobby.listen player room with
  | .ok (box, lobby) =>
      { house := s.house.mapLobby fun _ => lobby
        streams := Function.update s.streams player (box :: s.streams player) }
  | .error _ => s

/-- A player moves to a state that goes with the house or with one of its tables. -/
def transition (s : Scene) (player : PlayerId) (op : SessionOp) (next : SessionState) : Scene :=
  if s.lobby.provides next.scope then s.mapLobby (·.attempt player op next) else s

/-- A box is emptied. -/
def takeAll (s : Scene) (box : Nat) : Scene :=
  match s.lobby.mail.takeAll box with
  | some (_, mail) => s.mapLobby fun l => { l with mail }
  | none => s

def step (s : Scene) : Incident → Scene
  | .register player name => s.register player name
  | .openTable config => s.openTable config
  | .listen player room => s.listen player room
  | .listenAsHouse => s.mapLobby (·.listenAsHouse.2)
  | .transition player op next => s.transition player op next
  | .send table message => { s with house := (s.house.send table message).1 }
  | .retire table => { s with house := (s.house.retire table).getD s.house }
  | .announce event => s.mapLobby (·.announce event)
  | .tell table event => s.mapLobby (·.tell table event)
  | .takeAll box => s.takeAll box
  | .hangUp box => s.mapLobby fun l => { l with mail := l.mail.hangUp box }

def run (s : Scene) (steps : List Incident) : Scene := steps.foldl step s

/-- A house as it opens, with nobody in it. -/
def opening (evaluator : Evaluator) (chance : TableId → Nat → Nat → UInt32) : Scene :=
  { house := { floor := { evaluator, chance } } }

/-- The lobby is in tune, the sessions have the last boxes, and every table has its scope. -/
structure Attuned (s : Scene) : Prop where
  tuned : s.lobby.Tuned
  latest : ∀ p, s.lobby.box? p = (s.streams p).head?
  ready : ∀ id t, s.house.tables.get? id = some t → t.id = id ∧ t.Ready
  opened : ∀ id, s.house.tables.contains id = true → id < s.house.nextTable
  provided : ∀ id, s.lobby.provides (.table id) = s.house.tables.contains id
  known : ∀ p, s.lobby.sessions.contains p = true → p < s.house.nextPlayer
  counted : 0 < s.house.nextPlayer

section Steps
variable {s s' : Scene} {p : PlayerId} {id : TableId}

/-- Nobody came or began to listen, and no table was opened. -/
theorem Attuned.of_since (h : s.Attuned) (hsince : s.lobby.Since s'.lobby)
    (hstreams : s'.streams = s.streams)
    (hready : ∀ id t, s'.house.tables.get? id = some t → t.id = id ∧ t.Ready)
    (hsame : ∀ id, s'.house.tables.contains id = s.house.tables.contains id)
    (hnext : s'.house.nextTable = s.house.nextTable)
    (hplayer : s'.house.nextPlayer = s.house.nextPlayer) : s'.Attuned where
  tuned := hsince.tuned
  latest p := by rw [hsince.box?_eq, h.latest, hstreams]
  ready := hready
  opened id hid := by
    rw [hnext]
    exact h.opened id (hsame id ▸ hid)
  provided id := by rw [hsince.provides, h.provided, hsame]
  known p hp := by
    rw [hplayer]
    exact h.known p (hsince.known p ▸ hp)
  counted := hplayer ▸ h.counted

theorem Attuned.mapLobby {f : Lobby → Lobby} (h : s.Attuned) (hf : s.lobby.Since (f s.lobby)) :
    (s.mapLobby f).Attuned :=
  h.of_since hf rfl h.ready (fun _ => rfl) rfl rfl

theorem Attuned.lasts {f : Lobby → Lobby} (h : s.Attuned) (hf : s.lobby.Lasts (f s.lobby)) :
    (s.mapLobby f).Attuned :=
  h.mapLobby (h.tuned.since_lasts hf)

/-- A table that is there may take another shape. -/
theorem Attuned.place {t t' : Table} (h : s.Attuned) (ht : s.house.tables.get? id = some t)
    (hsince : s.lobby.Since s'.lobby) (hstreams : s'.streams = s.streams)
    (htables : s'.house.tables = s.house.tables.insert id t') (ht' : t'.id = id ∧ t'.Ready)
    (hnext : s'.house.nextTable = s.house.nextTable)
    (hplayer : s'.house.nextPlayer = s.house.nextPlayer) : s'.Attuned := by
  refine h.of_since hsince hstreams (fun other x hx => ?_) (fun other => ?_) hnext hplayer
  · rcases NatMap.get?_insert_cases (htables ▸ hx) with ⟨rfl, rfl⟩ | ⟨-, hold⟩
    · exact ht'
    · exact h.ready other x hold
  · rw [htables, NatMap.contains, NatMap.get?_insert]
    split
    · next hother => rw [hother, NatMap.contains, ht]; rfl
    · rfl

theorem Attuned.send (h : s.Attuned) (id : TableId) (m : Message) :
    (s.step (.send id m)).Attuned := by
  by_cases hclosed : ∀ t, s.house.tables.get? id = some t → t.stopped = true
  · simp only [step, (House.send_closed hclosed m).1]
    exact h
  · obtain ⟨t, hopen⟩ := not_forall.mp hclosed
    obtain ⟨ht, hrun⟩ := Classical.not_imp.mp hopen
    obtain ⟨rfl, hready⟩ := h.ready id t ht
    have hs : s.lobby.provides (.table t.id) = true := by
      rw [h.provided, NatMap.contains, ht]
      rfl
    have hattended := hready.attended_handle h.tuned hs m
    simp only [step, (House.send_running ht (Bool.eq_false_iff.mpr hrun) m).1]
    exact h.place ht hattended.since rfl rfl ⟨hattended.same, hready.handle _ m⟩ rfl rfl

theorem Attuned.retire (h : s.Attuned) (id : TableId) : (s.step (.retire id)).Attuned := by
  cases hretire : s.house.retire id with
  | none => simpa only [step, hretire, Option.getD_none] using h
  | some retired =>
      obtain ⟨closed, -, hclose, rfl⟩ := House.retire_eq_some hretire
      obtain ⟨t, ht, -, rfl⟩ := House.closeIfEmpty_eq_some hclose
      obtain ⟨hid, hready⟩ := h.ready id t ht
      simp only [step, hretire]
      exact h.place ht (h.tuned.since_lasts (.refl _)) rfl rfl ⟨hid, hready.close⟩ rfl rfl

theorem Attuned.register (h : s.Attuned) (p : PlayerId) (name : String) :
    (s.register p name).Attuned := by
  unfold Scene.register
  split
  · next hfresh =>
      obtain ⟨hnew, hp⟩ : s.lobby.sessions.get? p = none ∧ p ≠ Holdem.house := by
        simpa [isFresh, NatMap.contains] using hfresh
      have hbox : s.lobby.box? p = none := by rw [Lobby.box?, hnew, Option.bind_none]
      constructor
      case tuned => exact h.tuned.register hnew hp name
      case latest =>
        intro q
        rw [← h.latest, Lobby.box?]
        show ((NatMap.insert _ _ _).get? q).bind _ = _
        rw [NatMap.get?_insert]
        split
        · next hq => rw [hq, hbox]; rfl
        · rfl
      case ready => exact h.ready
      case opened => exact h.opened
      case provided => exact h.provided
      case known =>
        intro q hq
        rcases NatMap.contains_insert.mp hq with hq | hq
        · exact Nat.lt_of_lt_of_le (hq ▸ Nat.lt_succ_self q) (Nat.le_max_right _ _)
        · exact Nat.lt_of_lt_of_le (h.known q hq) (Nat.le_max_left _ _)
      case counted => exact Nat.lt_of_lt_of_le h.counted (Nat.le_max_left _ _)
  · exact h

/-- The house counts its players, so the next number is fresh. -/
theorem Attuned.register_next (h : s.Attuned) (name : String) :
    (s.register s.house.nextPlayer name).house = (s.house.registerPlayer name).2 := by
  have hnew : s.lobby.sessions.contains s.house.nextPlayer = false :=
    Bool.eq_false_iff.mpr fun hin => Nat.lt_irrefl _ (h.known _ hin)
  have hne : s.house.nextPlayer ≠ Holdem.house := Nat.ne_of_gt h.counted
  simp [Scene.register, isFresh, hnew, hne, House.registerPlayer]

/-- A new table has an empty audience. -/
theorem Attuned.openTable (h : s.Attuned) (config : TableConfig) :
    (s.openTable config).Attuned := by
  unfold Scene.openTable
  cases hopen : s.house.createTable config with
  | error e => exact h
  | ok r =>
      obtain ⟨id, opened⟩ := r
      obtain ⟨hv, rfl, rfl⟩ := House.createTable_ok hopen
      have hnew : s.lobby.provides (.table s.house.nextTable) = false := by
        rw [h.provided]
        exact Bool.eq_false_iff.mpr fun hin => Nat.lt_irrefl _ (h.opened _ hin)
      have htold := Lobby.lasts_announce (s.lobby.openAudience s.house.nextTable)
        (.tableCreated s.house.nextTable config.name)
      have htables : ∀ other, (s.house.tables.insert s.house.nextTable
          (.create s.house.nextTable config)).contains other = true ↔
            other = s.house.nextTable ∨ s.house.tables.contains other = true := fun _ =>
        NatMap.contains_insert
      constructor
      case tuned => exact (h.tuned.openAudience hnew).lasts htold
      case latest =>
        intro p
        rw [← h.latest, Lobby.box?, Lobby.box?]
        exact congrArg (fun m => (NatMap.get? m p).bind _) htold.sessions
      case ready =>
        intro other t ht
        rcases NatMap.get?_insert_cases ht with ⟨rfl, rfl⟩ | ⟨-, hold⟩
        · exact ⟨rfl, Table.create_ready _ hv⟩
        · exact h.ready other t hold
      case opened =>
        intro other hin
        rcases (htables other).mp hin with hother | hin
        · rw [hother]
          exact Nat.lt_succ_self _
        · exact Nat.lt_succ_of_lt (h.opened other hin)
      case provided =>
        intro other
        refine (htold.provides _).trans (Bool.eq_iff_iff.mpr (Iff.trans ?_ (htables other).symm))
        rw [← h.provided]
        exact NatMap.contains_insert
      case known => exact h.known
      case counted => exact h.counted

theorem Attuned.listen (h : s.Attuned) (p : PlayerId) (room : Nat) :
    (s.listen p room).Attuned := by
  unfold Scene.listen
  cases hlisten : s.lobby.listen p room with
  | error e => exact h
  | ok r =>
      obtain ⟨box, lobby⟩ := r
      obtain ⟨e, he, hl⟩ := h.tuned.listened hlisten
      constructor
      case tuned => exact h.tuned.of_listened he hl
      case latest =>
        intro q
        show (lobby.sessions.get? q).bind _ =
          (Function.update s.streams p (box :: s.streams p) q).head?
        rw [hl.sessions, NatMap.get?_insert, Function.update_apply]
        split
        · rfl
        · exact h.latest q
      case ready => exact h.ready
      case opened => exact h.opened
      case provided => exact fun id => (hl.provides _).trans (h.provided id)
      case known =>
        intro q hq
        change lobby.sessions.contains q = true at hq
        rw [hl.sessions, NatMap.contains_insert] at hq
        rcases hq with rfl | hq
        · exact h.known q (by rw [NatMap.contains, he]; rfl)
        · exact h.known q hq
      case counted => exact h.counted

theorem Attuned.listenAsHouse (h : s.Attuned) : (s.step .listenAsHouse).Attuned where
  tuned := h.tuned.listenAsHouse
  latest := h.latest
  ready := h.ready
  opened := h.opened
  provided := h.provided
  known := h.known
  counted := h.counted

theorem Attuned.takeAll (h : s.Attuned) (box : Nat) : (s.takeAll box).Attuned := by
  unfold Scene.takeAll
  split
  · next taken mail htake =>
      obtain ⟨hopen, hlength⟩ := Mailroom.isOpen_takeAll htake
      exact h.lasts (Lobby.lasts_mail hlength fun other hother => hopen other ▸ hother)
  · exact h

theorem Attuned.transition (h : s.Attuned) (p : PlayerId) (op : SessionOp) (next : SessionState) :
    (s.transition p op next).Attuned := by
  unfold Scene.transition
  split
  · next hs => exact h.mapLobby (h.tuned.since_attempt p op hs)
  · exact h

theorem Attuned.step (h : s.Attuned) (i : Incident) : (s.step i).Attuned := by
  cases i with
  | register p name => exact h.register p name
  | openTable config => exact h.openTable config
  | listen p room => exact h.listen p room
  | listenAsHouse => exact h.listenAsHouse
  | transition p op next => exact h.transition p op next
  | send id m => exact h.send id m
  | retire id => exact h.retire id
  | announce event => exact h.lasts (Lobby.lasts_announce _ event)
  | tell id event => exact h.lasts (Lobby.lasts_tell _ id event)
  | takeAll box => exact h.takeAll box
  | hangUp box =>
      exact h.lasts (Lobby.lasts_mail Mailroom.length_hangUp fun _ => Mailroom.isOpen_of_hangUp)

theorem Attuned.run (h : s.Attuned) (steps : List Incident) : (s.run steps).Attuned := by
  induction steps generalizing s with
  | nil => exact h
  | cons i rest ih => exact ih (h.step i)

end Steps

/-! ## Where a player listens -/

/-- Somebody who listens and is in a state does so in its scope, with their last box, and in no
other scope. Only if the owner of the box is gone they may have been dropped. -/
structure ListensIn (s : Scene) (p : PlayerId) (box : Nat) (state : SessionState) : Prop where
  placed : s.lobby.stateOf p = .ok state
  owned : s.lobby.mail.isOpen box = true → s.lobby.hears state.scope p = some box
  last : ∀ other, s.lobby.hears state.scope p = some other → other = box
  nowhereElse : ∀ scope, scope ≠ state.scope → s.lobby.hears scope p = none

section Opened
variable {s : Scene} {p : PlayerId} {evaluator : Evaluator}
  {chance : TableId → Nat → Nat → UInt32}

theorem opening_attuned : (opening evaluator chance).Attuned where
  tuned :=
    { apart := rfl
      provided := fun _ _ he => by cases he
      issued := fun _ _ hbox => by cases hbox
      heard := fun _ _ _ he => by cases he
      own := fun p scope box _ hbox => by cases scope <;> cases hbox }
  latest _ := rfl
  ready _ _ ht := by cases ht
  opened _ hid := by cases hid
  provided _ := rfl
  known _ hp := by cases hp
  counted := Nat.one_pos

theorem Attuned.listensIn (h : s.Attuned) (hp : p ≠ Holdem.house) {box : Nat}
    (hlast : (s.streams p).head? = some box) : ∃ state, s.ListensIn p box state := by
  rw [← h.latest, Lobby.box?] at hlast
  obtain ⟨e, he, hbox⟩ := Option.bind_eq_some_iff.mp hlast
  have hown : ∀ scope other, s.lobby.hears scope p = some other →
      other = box ∧ scope = e.state.scope := by
    intro scope other hheard
    obtain ⟨e', he', hother, hscope⟩ := h.tuned.own p scope other hp hheard
    cases he.symm.trans he'
    exact ⟨Option.some.inj (hother.symm.trans hbox), hscope.symm⟩
  refine ⟨e.state, ?_, h.tuned.heard p e box he hbox, fun other hheard => (hown _ other hheard).1,
    fun scope hne => Option.eq_none_iff_forall_ne_some.mpr fun other hheard =>
      hne (hown scope other hheard).2⟩
  rw [Lobby.stateOf_eq_ok, Lobby.state?, he]
  rfl

theorem Attuned.hears_of_silent (h : s.Attuned) (hp : p ≠ Holdem.house) (hnone : s.streams p = [])
    (scope : Scope) : s.lobby.hears scope p = none := by
  refine Option.eq_none_iff_forall_ne_some.mpr fun box hheard => ?_
  obtain ⟨e, he, hbox, -⟩ := h.tuned.own p scope box hp hheard
  have hlast := h.latest p
  rw [Lobby.box?_of_listener he hbox, hnone] at hlast
  cases hlast

/-- Whatever happens, whoever listens does so where they are and nowhere else, and somebody who
never did is told nothing. -/
theorem listens_where_they_are (evaluator : Evaluator) (chance : TableId → Nat → Nat → UInt32)
    (steps : List Incident) (p : PlayerId) (hp : p ≠ Holdem.house) :
    let s := (opening evaluator chance).run steps
    (∀ box, (s.streams p).head? = some box → ∃ state, s.ListensIn p box state) ∧
      (s.streams p = [] → ∀ scope, s.lobby.hears scope p = none) :=
  have h := opening_attuned.run steps
  ⟨fun _ hlast => h.listensIn hp hlast, h.hears_of_silent hp⟩

/-- A player who began to listen twice is dealt a hand and listens there, with the second box. -/
theorem listens_at_the_game :
    (1 : PlayerId) ≠ Holdem.house ∧
      let s := (opening { value := fun _ => HandValue.best } fun _ _ _ => 0).run
        [.register 1 "ann", .register 2 "bob", .openTable {}, .listen 1 256, .listen 1 256,
          .send 1 (.join 1 "ann" 500 none), .send 1 (.join 2 "bob" 500 none), .send 1 (.deal 1),
          .hangUp 0]
      (s.streams 1).head? = some 1 ∧ s.lobby.stateOf 1 = .ok (.playing 1) ∧
        s.lobby.hears (.table 1) 1 = some 1 ∧
        ((∀ box, (s.streams 1).head? = some box → ∃ state, s.ListensIn 1 box state) ∧
          (s.streams 1 = [] → ∀ scope, s.lobby.hears scope 1 = none)) :=
  ⟨by decide, by decide +kernel, by decide +kernel, by decide +kernel,
    listens_where_they_are _ _ _ 1 (by decide)⟩

end Opened
end Scene
end Holdem
