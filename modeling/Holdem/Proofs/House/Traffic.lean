import Holdem.HandValue.Best
import Holdem.Proofs.House.Seating
import Holdem.Request
import Mathlib.Logic.Function.Basic

/-!
# Messages on their way

A request is checked against the session of its player when it is made. The message it comes to is
dealt with later, when the session may be in another state. Any number of messages can be on their
way at once, and they arrive in any order. Tables are opened and removed step by step, and anything
can come in between, but for what a roster is needed for that a removal has got hold of. Whatever is
asked for in whatever order, the sessions agree with who is seated where, and nobody is ever seated
at two tables.
-/
namespace Holdem

namespace House
variable {h : House} {p : PlayerId} {id : TableId} {m : Message}

/-- What a seated player sends to their table, if an operation is permitted. -/
def fromSeat? (h : House) (player : PlayerId) (op : SessionOp) (message : Message) :
    Option (TableId × Message) :=
  (h.seatedAt player op).toOption.map fun table => (table, message)

/-- The message that a request comes to, and the table it is sent to, if the request is permitted.
A table is opened, and the house is talked to, without a message. -/
def message? (h : House) (player : PlayerId) : Request → Option (TableId × Message)
  | .createTable _ _ => none
  | .joinTable table buyIn seat =>
      match h.guard player .joinTable, h.floor.lobby.nameOf player with
      | .ok _, .ok name =>
          if table ∈ h.reachable then some (table, .join player name buyIn seat) else none
      | _, _ => none
  | .startGame => h.fromSeat? player .startGame (.deal player)
  | .act action => h.fromSeat? player (.ofAction action) (.act player action)
  | .deal => h.fromSeat? player .deal (.deal player)
  | .leaveTable => h.fromSeat? player .leaveTable (.leave player)
  | .say message =>
      match h.guard player .say with
      | .ok (.playing table) => some (table, .say player message)
      | _ => none
  | .pocketCards => h.fromSeat? player .pocketCards (.pocket player)

theorem seatedAt_of_fromSeat? {op : SessionOp} {message : Message}
    (hm : h.fromSeat? p op message = some (id, m)) : h.seatedAt p op = .ok id ∧ message = m := by
  unfold fromSeat? at hm
  cases hs : h.seatedAt p op with
  | error e => rw [hs] at hm; cases hm
  | ok table =>
      rw [hs] at hm
      cases hm
      exact ⟨rfl, rfl⟩

theorem fromSeat_of_fromSeat? {op : SessionOp} {message : Message}
    (hm : h.fromSeat? p op message = some (id, m)) : h.fromSeat p op message = h.send id m := by
  obtain ⟨hseat, rfl⟩ := seatedAt_of_fromSeat? hm
  rw [fromSeat, hseat]

/-- A request that nothing comes in between of is answered as its message is. -/
theorem request_of_message? {r : Request} (hm : h.message? p r = some (id, m))
    (hr : r ≠ .leaveTable) : h.request p r = h.send id m := by
  cases r with
  | createTable => cases hm
  | joinTable table buyIn seat =>
      simp only [message?] at hm
      split at hm
      · next hguard hname =>
          split at hm
          · next hreach =>
              cases hm
              simp only [request, joinTable, hguard, hname, if_pos hreach]
          · cases hm
      · cases hm
  | startGame | act | deal | pocketCards => exact fromSeat_of_fromSeat? hm
  | leaveTable => exact absurd rfl hr
  | say message =>
      simp only [message?] at hm
      split at hm
      · next hguard =>
          cases hm
          simp only [request, sayFrom, hguard]
      · cases hm

/-- After somebody left, the table is removed if it is empty. -/
theorem leaveTable_of_message? (hm : h.message? p .leaveTable = some (id, m)) :
    h.request p .leaveTable =
      match h.send id m with
      | (h, .ok chips) => ((h.removeIfEmpty id).2, .ok chips)
      | (h, .error e) => (h, .error e) := by
  obtain ⟨hseat, rfl⟩ := seatedAt_of_fromSeat? hm
  cases hsent : h.send id (.leave p) with
  | mk left answer => cases answer <;> simp only [request, leaveTable, hseat, hsent]

/-- The house when others outside hold its tables. -/
def heldBy (h : House) (held : TableId → Bool) : House := { h with floor := { h.floor with held } }

/-- Whether somebody is seated at a table. -/
def seats (h : House) (id : TableId) (player : PlayerId) : Bool :=
  (h.tables.get? id).any (·.roster.contains player)

/-- What is told at a table that deals with a message. -/
def toldBy (h : House) (id : TableId) (m : Message) : List GameEvent :=
  match h.tables.get? id with
  | none => []
  | some t => if t.stopped then [] else (t.respond h.floor m).table.outbox

/-- What a table that runs answers is what it answers to the message. -/
theorem send_eq {t : Table} {m : Message} (ht : h.tables.get? id = some t)
    (hrun : t.stopped = false) :
    h.send id m =
      ({ h with
        floor := (t.handle h.floor m).2.1
        tables := h.tables.insert id (t.handle h.floor m).1 }, (t.handle h.floor m).2.2) := by
  simp only [send, ht, hrun]
  rfl

theorem closeIfEmpty_eq_some {h' : House} (hclose : h.closeIfEmpty id = some h') :
    ∃ t, h.tables.get? id = some t ∧ t.roster.players = [] ∧
      h' = { h with tables := h.tables.insert id { t with roster := t.roster.close } } := by
  unfold closeIfEmpty at hclose
  split at hclose
  · cases hclose
  · next t ht =>
      split at hclose
      · next hempty =>
          cases hclose
          exact ⟨t, ht, List.isEmpty_iff.mp hempty, rfl⟩
      · cases hclose

/-- A table that runs deals with the messages it is sent. -/
theorem send_running {t : Table} (ht : h.tables.get? id = some t) (hrun : t.stopped = false)
    (m : Message) :
    (h.send id m).1 =
        { h with
          floor := (t.handle h.floor m).2.1
          tables := h.tables.insert id (t.handle h.floor m).1 } ∧
      h.toldBy id m = (t.respond h.floor m).table.outbox := by
  refine ⟨congrArg Prod.fst (send_eq ht hrun), ?_⟩
  simp only [toldBy, ht, hrun]
  rfl

/-- Without a table that runs nothing comes of a message. -/
theorem send_closed (hclosed : ∀ t, h.tables.get? id = some t → t.stopped = true) (m : Message) :
    (h.send id m).1 = h ∧ h.toldBy id m = [] := by
  unfold send toldBy
  cases ht : h.tables.get? id with
  | none => exact ⟨rfl, rfl⟩
  | some t =>
      simp only [hclosed t ht]
      exact ⟨rfl, rfl⟩

end House

/-! ## A house with messages on their way -/

/-- How far the opening of a table has come. It is set up, entered in the list, and then open. -/
inductive OpeningStage where
  | setUp
  | listed
  | opened
deriving Repr, DecidableEq

structure Opening where
  name : String
  stage : OpeningStage
deriving Repr, DecidableEq

/-- How far a removal has come. It has found the table on the list and waits for its roster. It has
closed the roster; it has taken the table off the list; and it has let go of the roster, with the
table off the other list too, where it was found or not. Last of all the table is removed. A removal
that finds no table, or somebody seated, is refused. -/
inductive RemovalStage where
  | waiting
  | shut
  | unlisted
  | released (reached : Bool)
  | removed (reached : Bool)
  | refused
deriving Repr, DecidableEq

structure Removal where
  table : TableId
  stage : RemovalStage
deriving Repr, DecidableEq

/-- Whether a removal keeps everybody else from the roster. -/
def RemovalStage.locks : RemovalStage → Bool
  | .shut | .unlisted => true
  | _ => false

/-- Whether a message is dealt with by way of the roster. -/
def Message.needsRoster : Message → Bool
  | .pocket _ | .close => false
  | _ => true

/-- A house, the messages that were sent and have not arrived, what was told at each table, and what
has become of every opening and of every removal. -/
structure Traffic where
  house : House
  onTheWay : List (TableId × Message) := []
  told : TableId → List GameEvent := fun _ => []
  openings : NatMap Opening := ∅
  removals : List Removal := []

/-- What can occur in a house. -/
inductive Occurrence where
  | register (name : String)
  | openTable (config : TableConfig)
  | carryOn (table : TableId)
  | listen (player : PlayerId)
  | letGo (held : TableId → Bool)
  | ask (player : PlayerId) (request : Request)
  | arrive (place : Nat)
  | remove (table : TableId)
  | goOn (place : Nat)

namespace Traffic

/-- The opening of a table begins, if it can be with its settings. -/
def openTable (tr : Traffic) (config : TableConfig) : Traffic :=
  match config.validate with
  | .error _ => tr
  | .ok _ =>
      { tr with
        house := tr.house.setUp config
        openings := tr.openings.insert tr.house.nextTable ⟨config.name, .setUp⟩ }

/-- The opening of a table is carried on by a step. -/
def carryOn (tr : Traffic) (id : TableId) : Traffic :=
  match tr.openings.get? id with
  | some ⟨name, .setUp⟩ =>
      { tr with
        house := tr.house.enlist id
        openings := tr.openings.insert id ⟨name, .listed⟩ }
  | some ⟨name, .listed⟩ =>
      { tr with
        house := tr.house.connect id name
        openings := tr.openings.insert id ⟨name, .opened⟩ }
  | _ => tr

/-- A player begins to listen. -/
def listen (tr : Traffic) (player : PlayerId) : Traffic :=
  match tr.house.floor.lobby.listen player notificationRoom with
  | .ok (_, lobby) => { tr with house := tr.house.mapLobby fun _ => lobby }
  | .error _ => tr

/-- Whether a removal has got hold of the roster of a table. -/
def locked (tr : Traffic) (id : TableId) : Bool :=
  tr.removals.any fun r => r.table = id && r.stage.locks

/-- A message arrives and is dealt with, if its table can get hold of its roster. -/
def arrive (tr : Traffic) (place : Nat) : Traffic :=
  match tr.onTheWay[place]? with
  | none => tr
  | some (id, m) =>
      if m.needsRoster && tr.locked id then tr
      else
        { tr with
          house := (tr.house.send id m).1
          onTheWay := tr.onTheWay.eraseIdx place
          told := Function.update tr.told id (tr.told id ++ tr.house.toldBy id m) }

/-- A removal begins, and looks the table up. -/
def remove (tr : Traffic) (id : TableId) : Traffic :=
  { tr with
    removals := tr.removals ++ [⟨id, if id ∈ tr.house.listed then .waiting else .refused⟩] }

/-- A removal of a table has come so far, and has left the house so. -/
def reach (tr : Traffic) (place : Nat) (id : TableId) (house : House) (stage : RemovalStage) :
    Traffic :=
  { tr with house, removals := tr.removals.set place ⟨id, stage⟩ }

/-- A removal goes on by a step. Who still can reach the table is told to close it. -/
def goOn (tr : Traffic) (place : Nat) : Traffic :=
  match tr.removals[place]? with
  | some ⟨id, .waiting⟩ =>
      if tr.locked id then tr
      else
        match tr.house.closeIfEmpty id with
        | none => tr.reach place id tr.house .refused
        | some house => tr.reach place id house .shut
  | some ⟨id, .shut⟩ => tr.reach place id (tr.house.unlist id) .unlisted
  | some ⟨id, .unlisted⟩ =>
      tr.reach place id (tr.house.disconnect id) (.released (id ∈ tr.house.reachable))
  | some ⟨id, .released reached⟩ =>
      { tr.reach place id (tr.house.mapLobby (·.announce (.tableRemoved id))) (.removed reached) with
        onTheWay := tr.onTheWay ++ if reached then [(id, .close)] else [] }
  | _ => tr

/-- A request is only checked when it is made, and its message goes on its way. Who outside holds
which table can change at any time. -/
def step (tr : Traffic) : Occurrence → Traffic
  | .register name => { tr with house := (tr.house.registerPlayer name).2 }
  | .openTable config => tr.openTable config
  | .carryOn table => tr.carryOn table
  | .listen player => tr.listen player
  | .letGo held => { tr with house := tr.house.heldBy held }
  | .ask player request =>
      { tr with onTheWay := tr.onTheWay ++ (tr.house.message? player request).toList }
  | .arrive place => tr.arrive place
  | .remove table => tr.remove table
  | .goOn place => tr.goOn place

def run (tr : Traffic) (steps : List Occurrence) : Traffic := steps.foldl step tr

/-- A house as it opens, with nobody in it. -/
def opening (evaluator : Evaluator) (chance : TableId → Nat → Nat → UInt32) : Traffic :=
  { house := { floor := { evaluator, chance } } }

/-- What a step of a removal does to the house, how far it brings the removal, and what it sends. -/
inductive Goes (tr : Traffic) (id : TableId) :
    RemovalStage → House → RemovalStage → List (TableId × Message) → Prop
  | refuses : tr.locked id = false → tr.house.closeIfEmpty id = none →
      Goes tr id .waiting tr.house .refused []
  | shuts {house : House} : tr.locked id = false → tr.house.closeIfEmpty id = some house →
      Goes tr id .waiting house .shut []
  | unlists : Goes tr id .shut (tr.house.unlist id) .unlisted []
  | releases : Goes tr id .unlisted (tr.house.disconnect id)
      (.released (id ∈ tr.house.reachable)) []
  | removes (reached : Bool) : Goes tr id (.released reached)
      (tr.house.mapLobby (·.announce (.tableRemoved id))) (.removed reached)
      (if reached then [(id, .close)] else [])

/-- A removal takes one of its steps, or nothing changes. -/
theorem goOn_cases (tr : Traffic) (place : Nat) : tr.goOn place = tr ∨
    ∃ id old house new sent, tr.removals[place]? = some ⟨id, old⟩ ∧
      tr.Goes id old house new sent ∧
      tr.goOn place =
        { tr.reach place id house new with onTheWay := tr.onTheWay ++ sent } := by
  have hnone : ∀ (id : TableId) (house : House) (new : RemovalStage), tr.reach place id house new =
      { tr.reach place id house new with onTheWay := tr.onTheWay ++ [] } := fun id house new => by
    rw [List.append_nil]
    rfl
  unfold goOn
  split
  · next id hr =>
      split
      · exact .inl rfl
      · next hfree =>
          have hfree := Bool.eq_false_iff.mpr hfree
          split
          · next hclose => exact .inr ⟨id, _, _, _, _, hr, .refuses hfree hclose, hnone ..⟩
          · next house hclose => exact .inr ⟨id, _, _, _, _, hr, .shuts hfree hclose, hnone ..⟩
  · next id hr => exact .inr ⟨id, _, _, _, _, hr, .unlists, hnone ..⟩
  · next id hr => exact .inr ⟨id, _, _, _, _, hr, .releases, hnone ..⟩
  · next id reached hr => exact .inr ⟨id, _, _, _, _, hr, .removes reached, rfl⟩
  · exact .inl rfl

/-- A removal that can take a step takes it. -/
theorem goOn_of_goes {tr : Traffic} {place : Nat} {id : TableId} {old new : RemovalStage}
    {house : House} {sent : List (TableId × Message)} (hr : tr.removals[place]? = some ⟨id, old⟩)
    (hgoes : tr.Goes id old house new sent) :
    tr.goOn place = { tr.reach place id house new with onTheWay := tr.onTheWay ++ sent } := by
  unfold goOn
  cases hgoes with
  | refuses hfree hclose | shuts hfree hclose =>
      simp only [hr, hfree, hclose, List.append_nil]
      rfl
  | unlists | releases =>
      simp only [hr, List.append_nil]
      rfl
  | removes => simp only [hr]

/-- Sessions and tables are numbered from below, and the sessions agree with the tables. -/
structure Orderly (tr : Traffic) : Prop where
  tables : ∀ id t, tr.house.tables.get? id = some t →
    t.id = id ∧ t.Ready ∧ t.Seating tr.house.floor.lobby (tr.told id)
  opened : ∀ id t, tr.house.tables.get? id = some t → id < tr.house.nextTable
  known : ∀ p, (tr.house.floor.lobby.state? p).isSome = true → p < tr.house.nextPlayer
  placed : ∀ p s id, tr.house.floor.lobby.state? p = some s → s.table? = some id →
    ∃ t, tr.house.tables.get? id = some t

section Steps
variable {tr tr' : Traffic}

/-- What is on its way makes no difference, nor does who listens. -/
theorem Orderly.of_same (h : tr.Orderly) (htables : tr'.house.tables = tr.house.tables)
    (hnext : tr'.house.nextTable = tr.house.nextTable)
    (hplayer : tr'.house.nextPlayer = tr.house.nextPlayer)
    (hstate : ∀ p, tr'.house.floor.lobby.state? p = tr.house.floor.lobby.state? p)
    (htold : tr'.told = tr.told) : tr'.Orderly where
  tables id t ht := by
    rw [htables] at ht
    obtain ⟨hid, hready, hseating⟩ := h.tables id t ht
    refine ⟨hid, hready, ?_⟩
    rw [htold]
    exact hseating.of_same rfl (fun _ => rfl) (fun p s _ => by rw [hstate p]) fun _ => rfl
  opened id t ht := by
    rw [hnext]
    exact h.opened id t (htables ▸ ht)
  known p hp := by
    rw [hplayer]
    exact h.known p (hstate p ▸ hp)
  placed p s id hs htable := by
    rw [htables]
    exact h.placed p s id (hstate p ▸ hs) htable

/-- A new player is at no table. -/
theorem Orderly.register (h : tr.Orderly) (name : String) :
    (tr.step (.register name)).Orderly := by
  have hstate : ∀ p, (tr.step (.register name)).house.floor.lobby.state? p =
      if p = tr.house.nextPlayer then some .idle else tr.house.floor.lobby.state? p :=
    Lobby.state?_insert (e := { name }) rfl
  have hnew : tr.house.floor.lobby.state? tr.house.nextPlayer = none :=
    Option.not_isSome_iff_eq_none.mp fun hp => Nat.lt_irrefl _ (h.known _ hp)
  have hsame : ∀ id, SameAt id tr.house.floor.lobby
      (tr.step (.register name)).house.floor.lobby := by
    intro id p s hs
    rw [hstate p]
    split
    · next hp =>
        rw [hp, hnew]
        constructor
        · intro hidle
          cases hidle
          cases hs
        · exact nofun
    · exact Iff.rfl
  refine { tables := fun id t ht => ?_, opened := h.opened, known := ?_, placed := ?_ }
  · obtain ⟨hid, hready, hseating⟩ := h.tables id t ht
    exact ⟨hid, hready, hseating.of_same rfl (fun _ => rfl) (hsame t.id) fun _ => rfl⟩
  · intro p hp
    rw [hstate p] at hp
    show p < tr.house.nextPlayer + 1
    split at hp
    · next heq => exact heq ▸ Nat.lt_succ_self _
    · exact Nat.lt_succ_of_lt (h.known p hp)
  · intro p s id hs htable
    exact h.placed p s id ((hsame id p s htable).mp hs) htable

/-- A table can take the place of another one if the sessions agree with it, and at the other tables
are as they were. -/
theorem Orderly.place (h : tr.Orderly) (id : TableId) (t : Table)
    (htables : tr'.house.tables = tr.house.tables.insert id t)
    (ht : t.id = id ∧ t.Ready ∧ t.Seating tr'.house.floor.lobby (tr'.told id))
    (hothers : ∀ other, other ≠ id →
      SameAt other tr.house.floor.lobby tr'.house.floor.lobby ∧ tr'.told other = tr.told other)
    (hknown : ∀ p, (tr'.house.floor.lobby.state? p).isSome =
      (tr.house.floor.lobby.state? p).isSome)
    (hid : id < tr'.house.nextTable) (hnext : tr.house.nextTable ≤ tr'.house.nextTable)
    (hplayer : tr'.house.nextPlayer = tr.house.nextPlayer) : tr'.Orderly where
  tables other t' ht' := by
    rcases NatMap.get?_insert_cases (htables ▸ ht') with ⟨rfl, rfl⟩ | ⟨hother, hold⟩
    · exact ht
    · obtain ⟨hsame, htold⟩ := hothers other hother
      obtain ⟨hid', hready, hseating⟩ := h.tables other t' hold
      rw [htold]
      exact ⟨hid', hready, hseating.of_same rfl (fun _ => rfl) (hid' ▸ hsame) fun _ => rfl⟩
  opened other t' ht' := by
    rcases NatMap.get?_insert_cases (htables ▸ ht') with ⟨rfl, -⟩ | ⟨-, hold⟩
    · exact hid
    · exact Nat.lt_of_lt_of_le (h.opened other t' hold) hnext
  known p hp := by
    rw [hplayer]
    exact h.known p (hknown p ▸ hp)
  placed p s other hs htable := by
    rw [htables]
    refine NatMap.exists_get?_insert (or_iff_not_imp_left.mpr fun hother => ?_)
    exact h.placed p s other (((hothers other hother).1 p s htable).mp hs) htable

/-- Nobody is at a new table. -/
theorem Orderly.openTable (h : tr.Orderly) (config : TableConfig) :
    (tr.openTable config).Orderly := by
  unfold Traffic.openTable
  cases hv : config.validate with
  | error e => exact h
  | ok _ =>
      let id := tr.house.nextTable
      have hsame : ∀ p, (tr.house.floor.lobby.openAudience id).state? p =
          tr.house.floor.lobby.state? p := Lobby.state?_of_sessions rfl
      refine h.place id (.create id config) rfl ⟨rfl, Table.create_ready id hv, ?_, ?_⟩
        (fun other _ => ⟨fun p s _ => ?_, rfl⟩) (fun p => ?_) (Nat.lt_succ_self _)
        (Nat.le_succ _) rfl
      · intro p hp
        rw [← Roster.mem_ids_iff, Roster.ids] at hp
        simp [Table.create, Roster.players_empty] at hp
      · intro p s _ hs htable
        obtain ⟨t, ht⟩ := h.placed p s id ((hsame p).symm.trans hs) htable
        exact Nat.lt_irrefl _ (h.opened id t ht)
      · exact iff_of_eq (congrArg (· = some s) (hsame p))
      · exact congrArg Option.isSome (hsame p)

/-- What is on the lists makes no difference. -/
theorem Orderly.carryOn (h : tr.Orderly) (id : TableId) : (tr.carryOn id).Orderly := by
  unfold Traffic.carryOn
  split
  · exact h.of_same rfl rfl rfl (fun _ => rfl) rfl
  · exact h.of_same rfl rfl rfl (Lobby.state?_of_sessions Lobby.sessions_announce) rfl
  · exact h

/-- Whoever listens is where they were. -/
theorem Orderly.listen (h : tr.Orderly) (p : PlayerId) : (tr.listen p).Orderly := by
  unfold Traffic.listen
  split
  · next box lobby hlisten => exact h.of_same rfl rfl rfl (Lobby.state?_listen hlisten) rfl
  · exact h

/-- A roster that is closed has nobody on it, and that is all that matters. -/
theorem Orderly.goOn (h : tr.Orderly) (place : Nat) : (tr.goOn place).Orderly := by
  rcases tr.goOn_cases place with hsame | ⟨id, old, house, new, sent, -, hgoes, heq⟩
  · rwa [hsame]
  · rw [heq]
    cases hgoes with
    | refuses | unlists | releases => exact h.of_same rfl rfl rfl (fun _ => rfl) rfl
    | removes =>
        exact h.of_same rfl rfl rfl (Lobby.state?_of_sessions Lobby.sessions_announce) rfl
    | shuts _ hclose =>
        obtain ⟨t, ht, -, rfl⟩ := House.closeIfEmpty_eq_some hclose
        obtain ⟨hid, hready, hseating⟩ := h.tables id t ht
        exact h.place id _ rfl ⟨hid, hready.close, hseating.of_same rfl (fun _ => rfl)
            (fun _ _ _ => Iff.rfl) fun _ => rfl⟩ (fun _ _ => ⟨fun _ _ _ => Iff.rfl, rfl⟩)
          (fun _ => rfl) (h.opened id t ht) (Nat.le_refl _) rfl

/-- A message is dealt with by its table. -/
theorem Orderly.deliver (h : tr.Orderly) (id : TableId) (m : Message)
    (hhouse : tr'.house = (tr.house.send id m).1)
    (htold : tr'.told = Function.update tr.told id (tr.told id ++ tr.house.toldBy id m)) :
    tr'.Orderly := by
  by_cases hclosed : ∀ t, tr.house.tables.get? id = some t → t.stopped = true
  · obtain ⟨hsend, hnothing⟩ := House.send_closed hclosed m
    rw [hsend] at hhouse
    rw [hnothing, List.append_nil, Function.update_eq_self] at htold
    refine h.of_same ?_ ?_ ?_ (fun _ => ?_) htold <;> rw [hhouse]
  · obtain ⟨t, hopen⟩ := not_forall.mp hclosed
    obtain ⟨ht, hrun⟩ := Classical.not_imp.mp hopen
    obtain ⟨hsend, htoldBy⟩ := House.send_running ht (Bool.eq_false_iff.mpr hrun) m
    obtain ⟨hid, hready, hseating⟩ := h.tables id t ht
    obtain ⟨hsame, hafter, haside, hknown⟩ := hready.handle_kept hseating m
    rw [hsend] at hhouse
    rw [htoldBy] at htold
    refine h.place id (t.handle tr.house.floor m).1 (by rw [hhouse])
      ⟨hsame.trans hid, hready.handle _ m, ?_⟩ (fun other hne => ⟨?_, ?_⟩) (fun p => ?_) ?_ ?_ ?_
    · rw [hhouse, htold, Function.update_self]
      exact hafter
    · rw [hhouse]
      exact haside other (hid ▸ hne)
    · rw [htold, Function.update_of_ne hne]
    · rw [hhouse]
      exact hknown p
    · rw [hhouse]
      exact h.opened id t ht
    · rw [hhouse]
    · rw [hhouse]

/-- A message that arrives is dealt with, or stays on its way. -/
theorem Orderly.arrive (h : tr.Orderly) (place : Nat) : (tr.arrive place).Orderly := by
  unfold Traffic.arrive
  split
  · exact h
  · next id m _ =>
      split
      · exact h
      · exact h.deliver id m rfl rfl

theorem Orderly.step (h : tr.Orderly) (o : Occurrence) : (tr.step o).Orderly := by
  cases o with
  | register name => exact h.register name
  | openTable config => exact h.openTable config
  | carryOn id => exact h.carryOn id
  | listen p => exact h.listen p
  | letGo | ask | remove => exact h.of_same rfl rfl rfl (fun _ => rfl) rfl
  | arrive place => exact h.arrive place
  | goOn place => exact h.goOn place

theorem Orderly.run (h : tr.Orderly) (steps : List Occurrence) : (tr.run steps).Orderly := by
  induction steps generalizing tr with
  | nil => exact h
  | cons o rest ih => exact ih (h.step o)

end Steps

/-! ## Seats and sessions -/

/-- What the session of a player says of where they are seated. It says that they are playing when
a hand was dealt there since they sat down. -/
structure Agrees (tr : Traffic) (p : PlayerId) : Prop where
  seated : ∀ id, tr.house.seats id p = true ↔
    tr.house.floor.lobby.stateOf p = .ok (.seatedWaiting id) ∨
      tr.house.floor.lobby.stateOf p = .ok (.playing id)
  once : ∀ id id', tr.house.seats id p = true → tr.house.seats id' p = true → id = id'
  playing : ∀ id, tr.house.floor.lobby.stateOf p = .ok (.playing id) ↔
    tr.house.seats id p = true ∧ dealtSince p (tr.told id) = true

section Opened
variable {tr : Traffic} {id : TableId} {p : PlayerId} {evaluator : Evaluator}
  {chance : TableId → Nat → Nat → UInt32}

/-- Whoever is seated has the state that goes with it. -/
theorem Orderly.state?_of_seats (h : tr.Orderly) (hin : tr.house.seats id p = true) :
    tr.house.floor.lobby.state? p = some (seatState id (dealtSince p (tr.told id))) := by
  unfold House.seats at hin
  cases ht : tr.house.tables.get? id with
  | none => simp [ht] at hin
  | some t =>
      rw [ht, Option.any_some] at hin
      obtain ⟨hid, -, hseating⟩ := h.tables id t ht
      exact hid ▸ hseating.present p hin

/-- Whoever has such a state is seated. -/
theorem Orderly.seats_of_state {s : SessionState} (h : tr.Orderly)
    (hs : tr.house.floor.lobby.state? p = some s) (htable : s.table? = some id) :
    tr.house.seats id p = true := by
  obtain ⟨t, ht⟩ := h.placed p s id hs htable
  obtain ⟨hid, -, hseating⟩ := h.tables id t ht
  rw [House.seats, ht, Option.any_some]
  exact hseating.contains_of_state hs (hid ▸ htable)

theorem Orderly.agrees (h : tr.Orderly) (p : PlayerId) : tr.Agrees p where
  seated id := by
    rw [Lobby.stateOf_eq_ok, Lobby.stateOf_eq_ok]
    constructor
    · intro hin
      have hs := h.state?_of_seats hin
      cases hd : dealtSince p (tr.told id) with
      | false => rw [hd] at hs; exact .inl hs
      | true => rw [hd] at hs; exact .inr hs
    · intro hs
      exact hs.elim (h.seats_of_state · rfl) (h.seats_of_state · rfl)
  once id id' hin hin' := by
    have hsame := (h.state?_of_seats hin).symm.trans (h.state?_of_seats hin')
    have htable := congrArg (Option.bind · SessionState.table?) hsame
    simpa using htable
  playing id := by
    rw [Lobby.stateOf_eq_ok]
    constructor
    · intro hs
      have hin := h.seats_of_state hs rfl
      refine ⟨hin, ?_⟩
      have hsame := hs.symm.trans (h.state?_of_seats hin)
      cases hd : dealtSince p (tr.told id) with
      | true => rfl
      | false => rw [hd] at hsame; cases hsame
    · intro hin
      have hs := h.state?_of_seats hin.1
      rw [hin.2] at hs
      exact hs

theorem opening_orderly : (opening evaluator chance).Orderly where
  tables _ _ ht := by simp [opening] at ht
  opened _ _ ht := by simp [opening] at ht
  known _ hp := by simp [opening, Lobby.state?] at hp
  placed _ _ _ hs := by simp [opening, Lobby.state?] at hs

/-- Whatever is asked for, and in whatever order the messages arrive, a player is seated at a table
exactly when their session says so, which is never at two tables. -/
theorem seats_agree_with_sessions (evaluator : Evaluator)
    (chance : TableId → Nat → Nat → UInt32) (steps : List Occurrence) (p : PlayerId) :
    ((opening evaluator chance).run steps).Agrees p :=
  (opening_orderly.run steps).agrees p

/-- Of two seats that are asked for at once the player gets the one whose table answers first. -/
example :
    let tr := (opening { value := fun _ => HandValue.best } fun _ _ _ => 0).run
      [.register "ann", .openTable {}, .carryOn 1, .carryOn 1, .openTable {}, .carryOn 2, .carryOn 2,
        .ask 1 (.joinTable 1 500 none), .ask 1 (.joinTable 2 500 none), .arrive 1, .arrive 0]
    tr.house.seats 1 1 = false ∧ tr.house.seats 2 1 = true := by
  decide +kernel

end Opened
end Traffic
end Holdem
