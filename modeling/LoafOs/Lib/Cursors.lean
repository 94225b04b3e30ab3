import Mathlib.Data.List.Infix
import Mathlib.Data.List.TakeWhile

/-!
# Scans by a count

A scan over a list that changes between the steps of the scan.  It keeps no
position but the number of items that it has returned, and asks for the item
with this number.  As long as the items returned so far stay the first ones
of the list, nothing is left out and nothing comes twice.
-/

namespace Cursors

universe u

variable {alpha : Type u}

/-- The list as it is now and what the scan has returned. -/
structure Cursor (alpha : Type u) where
  items : List alpha
  returned : List alpha

inductive Event (alpha : Type u) where
  | change (items : List alpha)
  | next (item : alpha)

inductive Step : Cursor alpha → Event alpha → Cursor alpha → Prop
  | change {cursor : Cursor alpha} {items : List alpha} :
      Step cursor (.change items) { cursor with items }
  | next {cursor : Cursor alpha} {item : alpha}
      (here : cursor.items[cursor.returned.length]? = some item) :
      Step cursor (.next item)
        { cursor with returned := cursor.returned ++ [item] }

/-- The scan has nothing left to return. -/
def Ended (cursor : Cursor alpha) : Prop :=
  cursor.items[cursor.returned.length]? = none

/-- The change keeps the returned items in front. -/
def Behind (cursor : Cursor alpha) : Event alpha → Prop
  | .change items => cursor.returned <+: items
  | .next _ => True

/-- The returned items are the first ones of the list. -/
def InFront (cursor : Cursor alpha) : Prop :=
  cursor.returned <+: cursor.items

theorem prefix_snoc {front items : List alpha} {item : alpha}
    (inFront : front <+: items)
    (here : items[front.length]? = some item) :
    front ++ [item] <+: items := by
  obtain ⟨rest, rfl⟩ := inFront
  rw [List.getElem?_append_right (Nat.le_refl _), Nat.sub_self] at here
  cases rest with
  | nil => cases here
  | cons head tail =>
      cases here
      exact ⟨tail, by rw [List.append_assoc, List.singleton_append]⟩

theorem InFront.step {cursor cursor' : Cursor alpha} {event : Event alpha}
    (inFront : InFront cursor) (behind : Behind cursor event)
    (step : Step cursor event cursor') : InFront cursor' := by
  cases step with
  | change => exact behind
  | next here => exact prefix_snoc inFront here

/-- A scan that has ended has returned the whole list. -/
theorem InFront.ended {cursor : Cursor alpha} (inFront : InFront cursor)
    (ended : Ended cursor) : cursor.returned = cursor.items := by
  obtain ⟨rest, isRest⟩ := inFront
  rw [Ended, List.getElem?_eq_none_iff, ← isRest, List.length_append]
    at ended
  have none : rest = [] := List.eq_nil_of_length_eq_zero (by omega)
  rw [← isRest, none, List.append_nil]

/-! ## Lists that change at one item -/

section Filters

variable {items front : List alpha} {item : alpha}
  {listed listed' : alpha → Bool}

theorem filter_congr_others [DecidableEq alpha]
    (others : ∀ other ∈ items, other ≠ item →
      listed' other = listed other) (same : listed' item = listed item) :
    items.filter listed' = items.filter listed := by
  refine List.filter_congr fun other member => ?_
  by_cases here : other = item
  · rw [here, same]
  · exact others other member here

/-- The listed items before one. -/
def before [DecidableEq alpha] (listed : alpha → Bool) (item : alpha)
    (items : List alpha) : List alpha :=
  (items.takeWhile fun other => decide (other ≠ item)).filter listed

theorem before_congr [DecidableEq alpha]
    (others : ∀ other ∈ items, other ≠ item →
      listed' other = listed other) :
    before listed' item items = before listed item items := by
  refine List.filter_congr fun other member => ?_
  have different := List.mem_takeWhile_imp member
  exact others other ((List.takeWhile_prefix _).mem member)
    (of_decide_eq_true different)

theorem before_prefix [DecidableEq alpha] :
    before listed item items <+: items.filter listed :=
  (List.takeWhile_prefix _).filter listed

/-- A change at an item with enough listed items before it. -/
theorem prefix_of_before [DecidableEq alpha]
    (inFront : front <+: items.filter listed)
    (others : ∀ other ∈ items, other ≠ item →
      listed' other = listed other)
    (enough : front.length ≤ (before listed item items).length) :
    front <+: items.filter listed' := by
  have earlier : front <+: before listed item items :=
    List.prefix_of_prefix_length_le inFront before_prefix enough
  rw [← before_congr others] at earlier
  exact earlier.trans before_prefix

/-- Before a listed item that is not in front, everything in front is
listed. -/
theorem le_before_of_not_mem [DecidableEq alpha]
    (inFront : front <+: items.filter listed) (member : item ∈ items)
    (isListed : listed item = true) (outside : item ∉ front) :
    front.length ≤ (before listed item items).length := by
  by_contra long
  have split : before listed item items ++ [item] <+:
      items.filter listed := by
    have dropped : items.dropWhile (fun other => decide (other ≠ item)) ≠
        [] := by
      intro none
      have all := List.dropWhile_eq_nil_iff.mp none item member
      simp at all
    obtain ⟨head, tail, isDropped⟩ := List.exists_cons_of_ne_nil dropped
    have isHead : head = item := by
      have first := List.head?_dropWhile_not
        (fun other => decide (other ≠ item)) items
      rw [isDropped] at first
      simpa using first
    refine ⟨tail.filter listed, ?_⟩
    have whole := List.takeWhile_append_dropWhile
      (p := fun other => decide (other ≠ item)) (l := items)
    rw [isDropped, isHead] at whole
    conv_rhs => rw [← whole]
    rw [List.filter_append, List.filter_cons_of_pos isListed, before,
      List.append_assoc, List.singleton_append]
  have inside : before listed item items ++ [item] <+: front :=
    List.prefix_of_prefix_length_le split inFront (by
      rw [List.length_append, List.length_singleton]
      omega)
  exact outside (inside.mem (List.mem_append_right _
    (List.mem_singleton_self item)))

/-- The removal of an item that is not in front. -/
theorem prefix_of_removed [DecidableEq alpha]
    (inFront : front <+: items.filter listed)
    (others : ∀ other ∈ items, other ≠ item →
      listed' other = listed other) (gone : listed' item = false)
    (outside : item ∉ front) : front <+: items.filter listed' := by
  cases isListed : listed item with
  | false =>
      rw [filter_congr_others others (by rw [gone, isListed])]
      exact inFront
  | true =>
      by_cases member : item ∈ items
      · exact prefix_of_before inFront others
          (le_before_of_not_mem inFront member isListed outside)
      · have same : items.filter listed' = items.filter listed :=
          List.filter_congr fun other isMember =>
            others other isMember fun equal => member (equal ▸ isMember)
        rwa [same]

end Filters

end Cursors
