import Holdem.Proofs.Hand.Chronicle
import Holdem.Proofs.Table.Happenings
import Holdem.Proofs.Table.Runs

/-!
# The chronicle of a table

What is told at a table, less the talk and the coming and going, is the chronicle of one hand after
the other. Hands are numbered from one, none is told of while another is, and each is told of to its
end before the next one starts. The chronicle of the hand in play is what was told since the last
one ended.
-/
namespace Holdem

/-- What is told of hands. -/
def story (told : List GameEvent) : List GameEvent := told.filter GameEvent.ofHand

/-- The chapters of so many hands, numbered from one, each of them finished. -/
inductive Chapters : Nat → List GameEvent → Prop
  | nil : Chapters 0 []
  | snoc {hands : Nat} {earlier chapter : List GameEvent} :
      Chapters hands earlier → Chapter (hands + 1) chapter → Finished (hands + 1) chapter →
      Chapters (hands + 1) (earlier ++ chapter)

/-- One hand is told of after another, and only the last may still go on. -/
def HandByHand (told : List GameEvent) : Prop :=
  ∃ hands earlier last, told = earlier ++ last ∧ Chapters hands earlier ∧
    (last = [] ∨ Chapter (hands + 1) last ∧ ∀ e ∈ last, e.ends = false)

theorem story_append (told news : List GameEvent) :
    story (told ++ news) = story told ++ story news :=
  List.filter_append ..

theorem Chapter.story_eq {number : Nat} {told : List GameEvent} (h : Chapter number told) :
    story told = told :=
  List.filter_eq_self.mpr h.ofHand

theorem Recounts.quiet {told : List GameEvent} {h : Hand} (hr : Recounts told h) :
    Recounts told { h with events := [] } :=
  { hr.retain ⟨rfl, rfl, rfl, fun _ => id⟩ with prompted := hr.prompted }

namespace Table

/-- What was told of hands at a table: of all that were played, and of the one in play. -/
inductive Narrated (t : Table) : List GameEvent → Prop
  | between {told : List GameEvent} : t.hand = none → Chapters t.handsPlayed told → Narrated t told
  | during {h : Hand} {hands : Nat} {earlier current : List GameEvent} :
      t.hand = some h → h.number = hands + 1 → t.handsPlayed = hands + 1 →
      Chapters hands earlier → Recounts current h → Narrated t (earlier ++ current)

section Steps
variable {t t' : Table} {told news : List GameEvent} {f : Floor} {h : Hand} {s : Spot}

/-- Only the hand matters, and how many were played. -/
theorem Narrated.of_same (hn : t.Narrated told) (hhand : t'.hand = t.hand)
    (hplayed : t'.handsPlayed = t.handsPlayed) : t'.Narrated told := by
  cases hn with
  | between hnone hchapters => exact .between (hhand.trans hnone) (hplayed ▸ hchapters)
  | during hh hnumber hhands hchapters hcurrent =>
      exact .during (hhand.trans hh) hnumber (hplayed.trans hhands) hchapters hcurrent

/-- A hand that is dealt begins the next chapter. -/
theorem Narrated.deals {dealer : PlayerId} (hn : t.Narrated told) (hv : t.roster.Valid)
    (hnone : t.hand = none) (hdeals : t.Deals f dealer s) (announced : List ServerEvent) :
    (t.dealtTo s announced).Narrated (told ++ s.hand.events) ∧
      story s.hand.events = s.hand.events := by
  obtain ⟨hrecounts, hnumber⟩ := Hand.recounts_deal hv hdeals.start
  cases hn with
  | between _ hchapters =>
      exact ⟨.during rfl hnumber rfl hchapters hrecounts.quiet, hrecounts.story_eq⟩
  | during hh =>
      rw [hnone] at hh
      cases hh

/-- The chapter of a hand goes on with it. -/
theorem Narrated.goesOn (hn : t.Narrated told) (hh : t.hand = some h) (ha : h.Awake t.roster)
    (hunfolds : Spot.Unfolds ⟨h, t.roster, f.evaluator⟩ news s) :
    (t.wentOn s).Narrated (told ++ news) ∧ story news = news := by
  cases hn with
  | between hnone =>
      rw [hnone] at hh
      cases hh
  | @during h' hands earlier current hh' hnumber hhands hchapters hcurrent =>
      cases hh'.symm.trans hh
      have hrecounts := Spot.recounts_unfolds hcurrent ha hunfolds
      have hsame : s.hand.number = hands + 1 := hunfolds.number.trans hnumber
      constructor
      · rw [List.append_assoc]
        exact .during rfl hsame hhands hchapters hrecounts.quiet
      · rw [story, List.filter_eq_self]
        intro e he
        exact hrecounts.ofHand e (List.mem_append_right _ he)

/-- When a hand is over its chapter is finished. -/
theorem Narrated.clears (hn : t.Narrated told) (hh : t.hand = some h) (hover : h.isOver = true) :
    t.endHand.Narrated told := by
  cases hn with
  | between hnone =>
      rw [hnone] at hh
      cases hh
  | during hh' hnumber hhands hchapters hcurrent =>
      cases hh'.symm.trans hh
      have hchapter := hcurrent.toChapter
      have hfinished := hcurrent.ended hover
      rw [hnumber] at hchapter hfinished
      refine .between hand_endHand ?_
      rw [handsPlayed_endHand, hhands]
      exact hchapters.snoc hchapter hfinished

/-- The hand in play is the last that was dealt. -/
theorem Narrated.number_le (hn : t.Narrated told) (hh : t.hand = some h) :
    h.number ≤ t.handsPlayed := by
  cases hn with
  | between hnone =>
      rw [hnone] at hh
      cases hh
  | during hh' hnumber hhands =>
      cases hh'.symm.trans hh
      exact Nat.le_of_eq (hnumber.trans hhands.symm)

end Steps

section Runs
variable {t : Table} {past : List GameEvent} {f : Floor}

/-- With everything that happens at a table the chronicle goes on. -/
theorem Happens.narrated {a b : Table × Floor} (h : Happens a b)
    (hn : a.1.Narrated (past ++ story a.1.outbox)) : b.1.Narrated (past ++ story b.1.outbox) := by
  -- What is told beside the hands is left out of the story.
  have hbeside : ∀ e : GameEvent, e.ofHand = false →
      past ++ story (a.1.outbox ++ [e]) = past ++ story a.1.outbox := fun e he => by
    have hnothing : story [e] = [] := List.filter_cons_of_neg (by rw [he]; exact Bool.false_ne_true)
    rw [story_append, hnothing, List.append_nil]
  cases h with
  | @deals t f dealer s announced hv hnone hdeals =>
      obtain ⟨hdealt, hstory⟩ := hn.deals hv hnone hdeals announced
      show (t.dealtTo s announced).Narrated (past ++ story (t.outbox ++ s.hand.events))
      rw [story_append, hstory, ← List.append_assoc]
      exact hdealt
  | @goesOn t f h told s hh hquiet ha hunfolds =>
      have hevents : s.hand.events = told := by
        rw [hunfolds.events, hquiet, List.nil_append]
      obtain ⟨hwent, hstory⟩ := hn.goesOn hh ha hunfolds
      show (t.wentOn s).Narrated (past ++ story (t.outbox ++ s.hand.events))
      rw [hevents, story_append, hstory, ← List.append_assoc]
      exact hwent
  | clears hh hquiet hover =>
      rw [outbox_endHand]
      exact hn.clears hh hover
  | @sitsDown t f p name stack wanted seat r before lobby hv hadd hstate =>
      have hsame := hbeside (.playerJoined p name seat stack) rfl
      exact (hsame ▸ hn).of_same rfl rfl
  | @standsUp t f p x r hv hremove =>
      have hsame := hbeside (.playerLeft p x.stack) rfl
      exact (hsame ▸ hn).of_same rfl rfl
  | talks p message =>
      have hsame := hbeside (.chatMessage p message) rfl
      exact (hsame ▸ hn).of_same rfl rfl
  | stops => exact hn.of_same rfl rfl

/-- A table between two messages, with the chronicle up to then. -/
structure Chronicled (t : Table) (past : List GameEvent) : Prop extends t.Ready where
  narrated : t.Narrated past

theorem Chronicled.handle (hc : t.Chronicled past) (f : Floor) (m : Message) :
    (t.handle f m).1.Chronicled (past ++ story (t.respond f m).table.outbox) := by
  have hgoes := respond_goes (f := f) hc.toWaiting hc.quiet m
  have hbefore : t.Narrated (past ++ story t.outbox) := by
    rw [hc.noted]
    exact (List.append_nil past).symm ▸ hc.narrated
  have hafter : (t.respond f m).table.Narrated (past ++ story (t.respond f m).table.outbox) :=
    hgoes.keeps (P := fun a => a.1.Narrated (past ++ story a.1.outbox)) (·.narrated) hbefore
  exact ⟨hc.toReady.handle f m, hafter.of_same hand_handle handsPlayed_handle⟩

/-- The chronicle of a table goes on with every message. -/
theorem Chronicled.run (hc : t.Chronicled past) (visits : List Visit) :
    (t.run visits).1.Chronicled (past ++ story ((t.run visits).2.flatMap Entry.told)) := by
  induction visits generalizing t past with
  | nil => exact (List.append_nil past).symm ▸ hc
  | cons v rest ih =>
      have hrest := ih (hc.handle v.floor v.message)
      rw [List.append_assoc, ← story_append] at hrest
      exact hrest

/-- While a hand goes on its chapter is not finished. -/
theorem Narrated.handByHand {told : List GameEvent} (hn : t.Narrated told)
    (hlive : ∀ h, t.hand = some h → h.isOver = false) : HandByHand told := by
  cases hn with
  | between _ hchapters => exact ⟨_, told, [], (List.append_nil told).symm, hchapters, .inl rfl⟩
  | during hh hnumber _ hchapters hcurrent =>
      have hchapter := hcurrent.toChapter
      rw [hnumber] at hchapter
      exact ⟨_, _, _, rfl, hchapters, .inr ⟨hchapter, hcurrent.goesOn (hlive _ hh)⟩⟩

/-- Whatever messages a table deals with, what it tells of hands are chapters numbered from one, and
only the last may be unfinished. In each of them streets are dealt in turn, whoever acts was asked
last and has not folded, and cards are shown after the river only. There is one for every hand that
was played, and that of the hand in play says what has become of it up to now. -/
theorem told_hand_by_hand {id : TableId} {config : TableConfig} (h : config.validate = .ok ())
    (visits : List Visit) :
    HandByHand (story (((create id config).run visits).2.flatMap Entry.told)) ∧
      ((create id config).run visits).1.Narrated
        (story (((create id config).run visits).2.flatMap Entry.told)) := by
  have hopened : (create id config).Chronicled [] := ⟨create_ready id h, .between rfl .nil⟩
  have hchronicled := hopened.run visits
  rw [List.nil_append] at hchronicled
  refine ⟨hchronicled.narrated.handByHand fun hand hhand => ?_, hchronicled.narrated⟩
  exact (hchronicled.live hand hhand).not_over

theorem told_hand_by_hand_heads_up :
    TableConfig.validate {} = .ok () ∧ ((create 1 {}).run headsUp).1.handsPlayed = 1 ∧
      HandByHand (story (((create 1 {}).run headsUp).2.flatMap Entry.told)) ∧
      ((create 1 {}).run headsUp).1.Narrated
        (story (((create 1 {}).run headsUp).2.flatMap Entry.told)) :=
  ⟨by decide, by decide +kernel, told_hand_by_hand (by decide) headsUp⟩

end Runs
end Table
end Holdem
