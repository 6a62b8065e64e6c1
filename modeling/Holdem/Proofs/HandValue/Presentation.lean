import Holdem.Proofs.HandOrder
import Holdem.Proofs.HandValue.Views
import Mathlib.Logic.Equiv.Basic

/-!
# Cards in any order, suits by any name

All that is looked at when a hand is valued is which values there are, how often each occurs, and
the same of the cards of a flush. So the order of the cards makes no difference. Neither does the
name of a suit, as long as there is no second suit with five cards: if there were, the lower of the
two would be the one that counts.
-/
namespace Holdem

/-- A card of the same value in the suit that its own is renamed to. -/
def Card.resuit (σ : Suit → Suit) (c : Card) : Card := { c with suit := σ c.suit }

namespace HandValue

/-- The same values, each as often. -/
def SameValues (cards cards' : List Card) : Prop :=
  (cards.map Card.value).Perm (cards'.map Card.value)

/-- At most one suit has five cards. -/
def OneFlush (cards : List Card) : Prop :=
  ∀ s t, 5 ≤ (ofSuit cards s).length → 5 ≤ (ofSuit cards t).length → s = t

section Views
variable {cards cards' : List Card}

/-! ## What the values decide -/

theorem SameValues.multiplicity (h : SameValues cards cards') (v : Nat) :
    multiplicity cards v = multiplicity cards' v := by
  rw [multiplicity_eq_count, multiplicity_eq_count, h.count_eq]

theorem SameValues.length (h : SameValues cards cards') : cards.length = cards'.length := by
  simpa using h.length_eq

theorem SameValues.distinctValues (h : SameValues cards cards') :
    distinctValues cards = distinctValues cards' := by
  have hset : NatSet.ofList (cards.map Card.value) = NatSet.ofList (cards'.map Card.value) :=
    NatSet.ext fun v => by rw [NatSet.mem_ofList, NatSet.mem_ofList, h.mem_iff]
  rw [HandValue.distinctValues, HandValue.distinctValues, hset]

theorem SameValues.sortedValues (h : SameValues cards cards') :
    sortedValues cards = sortedValues cards' := by
  simp only [HandValue.sortedValues, h.distinctValues, h.multiplicity]

theorem SameValues.groups (h : SameValues cards cards') : groups cards = groups cards' := by
  simp only [HandValue.groups, h.length, h.distinctValues, h.multiplicity]

theorem SameValues.straightHigh? (h : SameValues cards cards') :
    straightHigh? cards = straightHigh? cards' := by
  rw [HandValue.straightHigh?, HandValue.straightHigh?, h.distinctValues]

theorem SameValues.kickers (h : SameValues cards cards') (taken : List Nat) (n : Nat) :
    kickers cards taken n = kickers cards' taken n := by
  rw [HandValue.kickers, HandValue.kickers, h.distinctValues]

theorem SameValues.quadsOrFull? (h : SameValues cards cards') (gs : List (Nat × Nat)) :
    quadsOrFull? cards gs = quadsOrFull? cards' gs := by
  simp only [HandValue.quadsOrFull?, h.kickers]

theorem SameValues.ofGroups (h : SameValues cards cards') (gs : List (Nat × Nat)) :
    ofGroups cards gs = ofGroups cards' gs := by
  simp only [HandValue.ofGroups, h.kickers]

/-- Cards of the same values are worth the same if those of a flush have the same values, too. -/
theorem SameValues.best (h : SameValues cards cards')
    (hflush : Option.Rel SameValues (flushCards? cards) (flushCards? cards')) :
    best cards = best cards' := by
  unfold HandValue.best
  generalize flushCards? cards = flush, flushCards? cards' = flush' at hflush
  cases hflush with
  | none => simp only [h.groups, h.quadsOrFull?, h.straightHigh?, h.ofGroups]
  | some hsuited =>
      simp only [Option.bind_some, hsuited.straightHigh?, hsuited.sortedValues, h.groups,
        h.quadsOrFull?]

/-! ## Which cards make a flush -/

theorem flushCards?_eq (cards : List Card) :
    flushCards? cards = (Suit.all.find? fun s => 5 ≤ (ofSuit cards s).length).map (ofSuit cards) :=
  List.find?_map

/-- The flush is in the same suit however the cards are ordered. -/
theorem flushCards?_perm (h : cards.Perm cards') :
    Option.Rel SameValues (flushCards? cards) (flushCards? cards') := by
  have hsuit : ∀ s, (ofSuit cards s).Perm (ofSuit cards' s) := fun s => h.filter _
  simp only [flushCards?_eq, (hsuit _).length_eq]
  cases Suit.all.find? fun s => decide (5 ≤ (ofSuit cards' s).length) with
  | none => exact .none
  | some s => exact .some ((hsuit s).map Card.value)

theorem ofSuit_resuit (σ : Equiv.Perm Suit) (cards : List Card) (s : Suit) :
    ofSuit (cards.map (Card.resuit σ)) (σ s) = (ofSuit cards s).map (Card.resuit σ) := by
  rw [ofSuit, List.filter_map, ofSuit]
  congr 1
  exact List.filter_congr fun c _ => by simp [Card.resuit]

theorem sameValues_resuit (σ : Suit → Suit) (cards : List Card) :
    SameValues (cards.map (Card.resuit σ)) cards :=
  List.Perm.of_eq (by simp [Card.resuit])

theorem OneFlush.resuit (h : OneFlush cards) (σ : Equiv.Perm Suit) :
    OneFlush (cards.map (Card.resuit σ)) := by
  intro s t hs ht
  rw [← σ.apply_symm_apply s, ofSuit_resuit, List.length_map] at hs
  rw [← σ.apply_symm_apply t, ofSuit_resuit, List.length_map] at ht
  exact σ.symm.injective (h _ _ hs ht)

/-- With the suits renamed the flush is in the suit that its own was renamed to. -/
theorem flushCards?_resuit (h : OneFlush cards) (σ : Equiv.Perm Suit) :
    flushCards? (cards.map (Card.resuit σ)) =
      (flushCards? cards).map (List.map (Card.resuit σ)) := by
  ext suited
  rw [flushCards?_eq_some_of_one (h.resuit σ), Option.map_eq_some_iff]
  constructor
  · rintro ⟨s, rfl, hfive⟩
    rw [← σ.apply_symm_apply s, ofSuit_resuit] at hfive ⊢
    rw [List.length_map] at hfive
    exact ⟨_, (flushCards?_eq_some_of_one h).mpr ⟨_, rfl, hfive⟩, rfl⟩
  · rintro ⟨own, hown, rfl⟩
    obtain ⟨s, rfl, hfive⟩ := (flushCards?_eq_some_of_one h).mp hown
    exact ⟨σ s, (ofSuit_resuit σ cards s).symm, by rwa [List.length_map]⟩

/-! ## What a hand is worth -/

theorem best_perm (h : cards.Perm cards') : best cards = best cards' :=
  SameValues.best (h.map Card.value) (flushCards?_perm h)

theorem best_resuit (h : OneFlush cards) (σ : Equiv.Perm Suit) :
    best (cards.map (Card.resuit σ)) = best cards := by
  refine (sameValues_resuit σ cards).best ?_
  rw [flushCards?_resuit h σ]
  cases flushCards? cards with
  | none => exact .none
  | some suited => exact .some (sameValues_resuit σ suited)

theorem compare_self (v : HandValue) : compare v v = .eq := by
  have hswap := compare_swap v v
  cases h : compare v v with
  | eq => rfl
  | lt | gt =>
      rw [h] at hswap
      cases hswap

/-- The order of the cards makes no difference to what a hand is worth. Nor do the names of the
suits if at most one of them has five cards, so hands that differ in these only tie. Hands of the
same values tie, too, whatever their suits are, if neither has five cards of one. -/
theorem best_ignores_presentation (cards : List Card) :
    (∀ cards', cards'.Perm cards → best cards' = best cards) ∧
      (OneFlush cards → ∀ (σ : Equiv.Perm Suit) (cards' : List Card),
        cards'.Perm (cards.map (Card.resuit σ)) →
          best cards' = best cards ∧ compare (best cards') (best cards) = .eq) ∧
      ((∀ s, (ofSuit cards s).length < 5) → ∀ cards', SameValues cards' cards →
        (∀ s, (ofSuit cards' s).length < 5) →
          best cards' = best cards ∧ compare (best cards') (best cards) = .eq) := by
  refine ⟨fun cards' h => best_perm h, fun hone σ cards' h => ?_, fun hfew cards' h hfew' => ?_⟩
  · have hsame := (best_perm h).trans (best_resuit hone σ)
    exact ⟨hsame, hsame ▸ compare_self _⟩
  · have hnone {l : List Card} (hl : ∀ s, (ofSuit l s).length < 5) : flushCards? l = none := by
      rw [flushCards?_eq, List.find?_eq_none.mpr fun s _ => by simpa using hl s]
      rfl
    have hsame : best cards' = best cards := h.best (by rw [hnone hfew, hnone hfew']; exact .none)
    exact ⟨hsame, hsame ▸ compare_self _⟩

/-- Five spades and two more aces. -/
def spadesAndAces : List Card :=
  [⟨ace, .spade⟩, ⟨13, .spade⟩, ⟨9, .spade⟩, ⟨5, .spade⟩, ⟨2, .spade⟩, ⟨ace, .heart⟩,
    ⟨ace, .diamond⟩]

theorem best_ignores_presentation_of_a_flush :
    (∀ cards', cards'.Perm spadesAndAces → best cards' = best spadesAndAces) ∧
      OneFlush spadesAndAces ∧
      best (spadesAndAces.map (Card.resuit (Equiv.swap .spade .club))).reverse =
        best spadesAndAces ∧
      best spadesAndAces = ⟨.flush, [14, 13, 9, 5, 2]⟩ ∧
      (∀ s, (ofSuit (spadesAndAces.drop 2) s).length < 5) ∧
      best [⟨2, .club⟩, ⟨5, .club⟩, ⟨9, .heart⟩, ⟨ace, .spade⟩, ⟨ace, .club⟩] =
        best (spadesAndAces.drop 2) := by
  have hone : OneFlush spadesAndAces := fun s t => by cases s <;> cases t <;> decide
  have hfew : ∀ s, (ofSuit (spadesAndAces.drop 2) s).length < 5 := fun s => by cases s <;> decide
  obtain ⟨horder, hsuits, -⟩ := best_ignores_presentation spadesAndAces
  obtain ⟨-, -, hvalues⟩ := best_ignores_presentation (spadesAndAces.drop 2)
  refine ⟨horder, hone, (hsuits hone (Equiv.swap .spade .club) _ (List.reverse_perm _)).1,
    by decide, hfew,
    (hvalues hfew _ (by unfold SameValues; decide) fun s => by cases s <;> decide).1⟩

/-- Where two suits have five cards, it matters which of them is the lower. -/
example : ∃ cards : List Card,
    best (cards.map (Card.resuit (Equiv.swap .spade .heart))) ≠ best cards :=
  ⟨[⟨2, .spade⟩, ⟨4, .spade⟩, ⟨6, .spade⟩, ⟨8, .spade⟩, ⟨10, .spade⟩, ⟨3, .heart⟩, ⟨5, .heart⟩,
    ⟨7, .heart⟩, ⟨9, .heart⟩, ⟨11, .heart⟩], by decide⟩

end Views

end HandValue
end Holdem
