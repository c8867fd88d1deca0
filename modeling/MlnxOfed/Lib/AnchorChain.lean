/-
Chains of items between anchors: the first anchor links to the first item, each item's exit to the next, and
the last exit stops the chain. The rules say what inserting, removing or replacing one item needs when only
the links next to it are rewritten.
-/

import Mathlib.Algebra.Order.Ring.Int
import Mathlib.Data.List.Basic

namespace MlnxOfed.Lib

open List

variable {Anchor Item : Type*} (exit : Item → Anchor)

def AnchorChain (link : Anchor → Item → Prop) (stop : Anchor → Prop) : Anchor → List Item → Prop
  | anchor, [] => stop anchor
  | anchor, item :: rest => link anchor item ∧ AnchorChain link stop (exit item) rest

def lastExit : Anchor → List Item → Anchor
  | anchor, [] => anchor
  | _, item :: rest => lastExit (exit item) rest

def anchors (start : Anchor) (items : List Item) : List Anchor := start :: items.map exit

variable {exit} {link link' : Anchor → Item → Prop} {stop stop' : Anchor → Prop} {start : Anchor}
  {left right : List Item} {item : Item}

theorem lastExit_mem (start items) : lastExit exit start items ∈ anchors exit start items := by
  induction items generalizing start with
  | nil => exact mem_singleton_self start
  | cons item rest ih => exact .tail _ (ih (exit item))

theorem lastExit_eq_getLast? (start items) :
    lastExit exit start items = (items.getLast?.map exit).getD start := by
  induction items generalizing start with
  | nil => rfl
  | cons item rest ih =>
    rw [lastExit, ih]
    cases rest with
    | nil => rfl
    | cons next rest =>
      rw [getLast?_cons_cons]
      cases last : (next :: rest).getLast? with
      | none => simp at last
      | some found => rfl

namespace AnchorChain

theorem append_iff : AnchorChain exit link stop start (left ++ right) ↔
    AnchorChain exit link (fun _ => True) start left ∧
      AnchorChain exit link stop (lastExit exit start left) right := by
  induction left generalizing start with
  | nil => exact ⟨fun chain => ⟨trivial, chain⟩, fun chain => chain.2⟩
  | cons item rest ih =>
    change (_ ∧ AnchorChain exit link stop (exit item) (rest ++ right)) ↔ _
    rw [ih]
    exact and_assoc.symm

theorem mono {items} (chain : AnchorChain exit link stop start items)
    (links : ∀ anchor ∈ anchors exit start items, ∀ item ∈ items, link anchor item → link' anchor item)
    (stops : ∀ anchor ∈ anchors exit start items, stop anchor → stop' anchor) :
    AnchorChain exit link' stop' start items := by
  induction items generalizing start with
  | nil => exact stops start (mem_singleton_self start) chain
  | cons item rest ih =>
    refine ⟨links start (.head _) item (.head _) chain.1, ?_⟩
    apply ih chain.2
    · intro anchor anchorIn other otherIn
      exact links anchor (.tail _ anchorIn) other (.tail _ otherIn)
    · intro anchor anchorIn
      exact stops anchor (.tail _ anchorIn)

theorem restart {other} (chain : AnchorChain exit link stop start right)
    (first : ∀ item ∈ right.head?, link start item → link' other item)
    (none : right = [] → stop start → stop' other)
    (links : ∀ anchor ∈ right.map exit, ∀ item ∈ right.tail, link anchor item → link' anchor item)
    (stops : ∀ anchor ∈ right.map exit, stop anchor → stop' anchor) :
    AnchorChain exit link' stop' other right := by
  cases right with
  | nil => exact none rfl chain
  | cons item rest =>
    exact ⟨first item rfl chain.1, chain.2.mono links stops⟩

end AnchorChain

end MlnxOfed.Lib
