import Holdem.Audience
import Holdem.Proofs.ChipMaps

/-!
# Publishing walks a snapshot

Whoever listens when a publishing begins is told once, and nobody else is, whatever the listeners
do to the audience meanwhile and in whatever order they are walked. To speak about who was told,
the publishing is run in a world that keeps notes. A note changes nothing of what is published, so
what the notes say is what happens without them.
-/
namespace Holdem

namespace Audience
variable {L W : Type}

/-- One listener being told: under which number, in which world, and how it reacted. -/
structure Telling (L W : Type) where
  entry : PlayerId × L
  before : W
  reaction : Reaction L W

/-- A listener's reaction in a world that keeps notes. -/
def noting (react : PlayerId → L → W → Reaction L W) (id : PlayerId) (listener : L)
    (w : W × List (Telling L W)) : Reaction L (W × List (Telling L W)) :=
  let r := react id listener w.1
  { receipt := r.receipt
    changes := r.changes
    world := (r.world, w.2 ++ [{ entry := (id, listener), before := w.1, reaction := r }]) }

/-- The listeners that answered they were closed. -/
def closedIn (heard : List (Telling L W)) : List (PlayerId × L) :=
  (heard.filter (·.reaction.receipt = .closed)).map (·.entry)

theorem closedIn_concat (heard : List (Telling L W)) (t : Telling L W) :
    closedIn (heard ++ [t]) =
      if t.reaction.receipt = .closed then closedIn heard ++ [t.entry] else closedIn heard := by
  rw [closedIn, List.filter_append, List.map_append]
  split
  · next hclosed => rw [List.filter_cons_of_pos (by simpa using hclosed)]; rfl
  · next hopen =>
      rw [List.filter_cons_of_neg (by simpa using hopen), List.filter_nil, List.map_nil,
        List.append_nil, closedIn]

/-! ## Dropping closed listeners -/

section Dropping
variable [DecidableEq L]

/-- An entry has its number for itself, so dropping what is under the number drops the entry. -/
theorem entries_dropSame (a : Audience L) (e : PlayerId × L) :
    (a.dropSame e).listeners.entries = a.listeners.entries.filter (· ≠ e) := by
  rw [dropSame]
  split
  · next hsame =>
      rw [unsubscribe, NatMap.erase]
      refine List.filter_congr fun x hx => ?_
      rw [decide_eq_decide, not_iff_not]
      refine ⟨fun hid => Prod.ext hid ?_, fun h => h ▸ rfl⟩
      have hx' : a.listeners.get? x.1 = some x.2 := NatMap.mem_entries_iff.mp hx
      exact Option.some.inj (hx'.symm.trans (hid ▸ hsame))
  · next hother =>
      refine (List.filter_eq_self.mpr fun x hx => ?_).symm
      refine decide_eq_true fun h => hother ?_
      exact NatMap.mem_entries_iff.mp (h ▸ hx)

theorem entries_foldl_dropSame (closed : List (PlayerId × L)) (a : Audience L) :
    (closed.foldl dropSame a).listeners.entries = a.listeners.entries.filter (· ∉ closed) := by
  induction closed generalizing a with
  | nil => exact (List.filter_eq_self.mpr fun x _ => by simp).symm
  | cons e rest ih =>
      rw [List.foldl_cons, ih, entries_dropSame, List.filter_filter]
      refine List.filter_congr fun x _ => ?_
      simp only [List.mem_cons, not_or, Bool.decide_and, Bool.and_comm]

end Dropping

/-! ## The notes of a publishing -/

section Notes
variable {react : PlayerId → L → W → Reaction L W} {a : Audience L} {w : W}
  {done : List (PlayerId × L)} {p : Progress L W} {q : Progress L (W × List (Telling L W))}

/-- How far a publishing has come when it told some listeners, without notes and with them. -/
structure Noted (react : PlayerId → L → W → Reaction L W) (a : Audience L)
    (done : List (PlayerId × L)) (p : Progress L W) (q : Progress L (W × List (Telling L W))) :
    Prop where
  audience : q.audience = p.audience
  accepted : q.accepted = p.accepted
  closed : q.closed = p.closed
  world : q.world.1 = p.world
  told : q.world.2.map (·.entry) = done
  own : ∀ t ∈ q.world.2, t.reaction = react t.entry.1 t.entry.2 t.before
  taken : p.accepted = q.world.2.countP (·.reaction.receipt = .taken)
  gone : p.closed = closedIn q.world.2
  changed : p.audience = (q.world.2.flatMap (·.reaction.changes)).foldl change a

theorem Noted.start (react : PlayerId → L → W → Reaction L W) (a : Audience L) (w : W) :
    Noted react a [] { audience := a, world := w } { audience := a, world := (w, []) } where
  audience := rfl
  accepted := rfl
  closed := rfl
  world := rfl
  told := rfl
  own := fun _ ht => absurd ht List.not_mem_nil
  taken := rfl
  gone := rfl
  changed := rfl

theorem Noted.tell (h : Noted react a done p q) (e : PlayerId × L) :
    Noted react a (done ++ [e]) (p.tell react e) (q.tell (noting react) e) := by
  have hreact : react e.1 e.2 q.world.1 = react e.1 e.2 p.world := by rw [h.world]
  constructor
  case audience => simp only [Progress.tell, noting, hreact, h.audience]
  case accepted => simp only [Progress.tell, noting, hreact, h.accepted]
  case closed => simp only [Progress.tell, noting, hreact, h.closed]
  case world => simp only [Progress.tell, noting, hreact]
  case told =>
    simp only [Progress.tell, noting, List.map_append, h.told, List.map_cons, List.map_nil]
  case own =>
    intro t ht
    rcases List.mem_append.mp ht with ht | ht
    · exact h.own t ht
    · rw [List.mem_singleton.mp ht]
  case taken =>
    simp only [Progress.tell, noting, hreact, List.countP_append, List.countP_singleton, h.taken,
      decide_eq_true_eq]
    split <;> rfl
  case gone =>
    simp only [Progress.tell, noting, closedIn_concat, hreact, h.gone]
  case changed =>
    simp only [Progress.tell, noting, hreact, List.flatMap_append, List.flatMap_singleton,
      List.foldl_append, h.changed]

/-- The induction is over the listeners still to be told. -/
theorem Noted.run (h : Noted react a done p q) (order : List (PlayerId × L)) :
    Noted react a (done ++ order) (order.foldl (Progress.tell react) p)
      (order.foldl (Progress.tell (noting react)) q) := by
  induction order generalizing done p q with
  | nil => rwa [List.append_nil]
  | cons e rest ih =>
      have hrest := ih (h.tell e)
      rwa [List.append_assoc, List.singleton_append] at hrest

/-- Two listeners that do the same in the same world, whatever they answer. -/
def SameDeeds (react react' : PlayerId → L → W → Reaction L W) : Prop :=
  ∀ id l w, (react' id l w).changes = (react id l w).changes ∧
    (react' id l w).world = (react id l w).world

/-- What a listener receives is that it is told, in the world as it is then. -/
def Telling.received (t : Telling L W) : (PlayerId × L) × W := (t.entry, t.before)

/-- The answers have no part in what is received, nor in the world that is passed on. -/
theorem received_foldl_tell {react' : PlayerId → L → W → Reaction L W}
    (hsame : SameDeeds react react') (order : List (PlayerId × L))
    {q' : Progress L (W × List (Telling L W))} (hworld : q'.world.1 = q.world.1)
    (hreceived : q'.world.2.map Telling.received = q.world.2.map Telling.received) :
    let after := order.foldl (Progress.tell (noting react)) q
    let after' := order.foldl (Progress.tell (noting react')) q'
    after'.world.1 = after.world.1 ∧
      after'.world.2.map Telling.received = after.world.2.map Telling.received := by
  induction order generalizing q q' with
  | nil => exact ⟨hworld, hreceived⟩
  | cons e rest ih =>
      apply ih
      · simp only [Progress.tell, noting, hworld, (hsame e.1 e.2 q.world.1).2]
      · simp only [Progress.tell, noting, List.map_append, List.map_cons, List.map_nil, hreceived,
          Telling.received, hworld]

end Notes

/-! ## A whole publishing -/

section Publishing
variable [DecidableEq L] {order : List (PlayerId × L)} {a : Audience L}

/-- The notes of a publishing. -/
def tellings (order : List (PlayerId × L)) (a : Audience L)
    (react : PlayerId → L → W → Reaction L W) (w : W) : List (Telling L W) :=
  (publishTo order a (noting react) (w, [])).2.2.2

/-- What a publishing does to an audience, told by its notes. -/
structure WalksSnapshot (order : List (PlayerId × L)) (a : Audience L)
    (react : PlayerId → L → W → Reaction L W) (w : W) (heard : List (Telling L W)) : Prop where
  /-- Taking notes changes nothing. -/
  unchanged : publishTo order a (noting react) (w, []) =
    ((publishTo order a react w).1, (publishTo order a react w).2.1,
      ((publishTo order a react w).2.2, heard))
  own : ∀ t ∈ heard, t.reaction = react t.entry.1 t.entry.2 t.before
  /-- Whoever listens when it begins is told once, and nobody else is. -/
  once : ∀ id l, (heard.map (·.entry)).count (id, l) =
    if a.listeners.get? id = some l then 1 else 0
  answer : (publishTo order a react w).1 = heard.countP (·.reaction.receipt = .taken)
  /-- All changes count in their order, and then the closed listeners are missing. -/
  left : (publishTo order a react w).2.1.listeners.entries =
    ((heard.flatMap (·.reaction.changes)).foldl change a).listeners.entries.filter
      (· ∉ closedIn heard)
  /-- Other answers would have changed nothing of what anyone received. -/
  apart : ∀ react', SameDeeds react react' →
    (tellings order a react' w).map Telling.received = heard.map Telling.received

theorem count_entries (horder : order.Perm a.listeners.entries) (id : PlayerId) (l : L) :
    order.count (id, l) = if a.listeners.get? id = some l then 1 else 0 := by
  have hnodup : a.listeners.entries.Nodup := a.listeners.ascending.imp fun {x y} hlt heq =>
    Nat.ne_of_lt hlt (congrArg Prod.fst heq)
  rw [horder.count_eq, List.Nodup.count hnodup]
  simp only [NatMap.mem_entries_iff]

/-- Publishing walks the listeners that were there when it began, whatever they do meanwhile. -/
theorem publishTo_walks (horder : order.Perm a.listeners.entries)
    (react : PlayerId → L → W → Reaction L W) (w : W) :
    WalksSnapshot order a react w (tellings order a react w) := by
  have h := Noted.run (Noted.start react a w) order
  rw [List.nil_append] at h
  constructor
  case unchanged =>
    simp only [publishTo, tellings, h.audience, h.accepted, h.closed, ← h.world]
  case own => exact h.own
  case once =>
    intro id l
    rw [tellings, publishTo, h.told]
    exact count_entries horder id l
  case answer => exact h.taken
  case left =>
    rw [publishTo, entries_foldl_dropSame]
    simp only [h.gone, h.changed]
    rfl
  case apart => exact fun react' hsame => (received_foldl_tell hsame order rfl rfl).2

/-- Four listeners. -/
def crowd : Audience Nat where
  name := "crowd"
  listeners := .ofList [(1, 10), (2, 20), (3, 30), (4, 40)]

/-- The second listener puts another one in the place of the first and brings a fifth. The first
and the last of the four are closed. -/
def interfere (id : PlayerId) (_ : Nat) (_ : Unit) : Reaction Nat Unit where
  receipt := if id = 2 then .taken else if id = 3 then .full else .closed
  changes := if id = 2 then [.subscribe 1 11, .subscribe 99 90] else []
  world := ()

/-- The first listener answers that it is closed when it no longer is the one under its number. -/
theorem crowd_walks :
    [(2, 20), (1, 10), (4, 40), (3, 30)].Perm crowd.listeners.entries ∧
      (publishTo [(2, 20), (1, 10), (4, 40), (3, 30)] crowd interfere ()).2.1.listeners.entries =
        [(1, 11), (2, 20), (3, 30), (99, 90)] ∧
      WalksSnapshot [(2, 20), (1, 10), (4, 40), (3, 30)] crowd interfere ()
        (tellings [(2, 20), (1, 10), (4, 40), (3, 30)] crowd interfere ()) :=
  ⟨by decide, by decide, publishTo_walks (by decide) interfere ()⟩

end Publishing
end Audience
end Holdem
