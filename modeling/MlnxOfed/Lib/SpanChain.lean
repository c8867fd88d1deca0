/-
A chain of records of one size, written from front to back; a write takes spans of the last record and is
filed under a tag.
-/

import MlnxOfed.Lib.FirstFit

namespace MlnxOfed.Lib

open List

structure SpanWrite (Tag Data : Type) where
  record : Nat
  tag : Tag
  spans : List Span
  data : Data

/-- The records are numbered from zero; `added` is the number of the last one. -/
structure SpanChain (Tag Data : Type) where
  added : Nat
  writes : List (SpanWrite Tag Data)

def SpansApart (left right : List Span) : Prop :=
  ∀ span ∈ left, ∀ other ∈ right, span.Disjoint other

instance (left right : List Span) : Decidable (SpansApart left right) :=
  inferInstanceAs (Decidable (∀ span ∈ left, ∀ other ∈ right, span.Disjoint other))

namespace SpanChain

variable {Tag Data : Type}

def begin : SpanChain Tag Data := ⟨0, []⟩

def next (chain : SpanChain Tag Data) : SpanChain Tag Data :=
  { chain with added := chain.added + 1 }

def write (tag : Tag) (spans : List Span) (data : Data) (chain : SpanChain Tag Data) : SpanChain Tag Data :=
  { chain with writes := chain.writes ++ [⟨chain.added, tag, spans, data⟩] }

def tally [DecidableEq Tag] (tag : Tag) (chain : SpanChain Tag Data) : Nat :=
  (chain.writes.map SpanWrite.tag).count tag

structure Sound (chain : SpanChain Tag Data) : Prop where
  recorded : ∀ entry ∈ chain.writes, entry.record ≤ chain.added
  apart : chain.writes.Pairwise fun early late =>
    early.record = late.record → SpansApart early.spans late.spans

def Vacant (spans : List Span) (chain : SpanChain Tag Data) : Prop :=
  ∀ entry ∈ chain.writes, entry.record = chain.added → SpansApart entry.spans spans

@[simp] theorem next_added (chain : SpanChain Tag Data) : chain.next.added = chain.added + 1 := rfl

@[simp] theorem next_writes (chain : SpanChain Tag Data) : chain.next.writes = chain.writes := rfl

section Write

variable (tag : Tag) (spans : List Span) (data : Data)

@[simp] theorem write_added (chain : SpanChain Tag Data) :
    (chain.write tag spans data).added = chain.added := rfl

@[simp] theorem write_writes (chain : SpanChain Tag Data) :
    (chain.write tag spans data).writes = chain.writes ++ [⟨chain.added, tag, spans, data⟩] := rfl

end Write

section Tally

variable [DecidableEq Tag] {tag other : Tag} {spans : List Span} {data : Data}

@[simp] theorem tally_begin : (begin : SpanChain Tag Data).tally tag = 0 := rfl

@[simp] theorem tally_next (chain : SpanChain Tag Data) : chain.next.tally tag = chain.tally tag := rfl

@[simp] theorem tally_write (chain : SpanChain Tag Data) : (chain.write other spans data).tally tag =
      chain.tally tag + if other = tag then 1 else 0 := by
  simp only [tally, write_writes, map_append, count_append, map_cons, map_nil,
    count_cons, count_nil, beq_iff_eq, zero_add]

theorem not_tagged {chain : SpanChain Tag Data} (none : chain.tally tag = 0) :
    ∀ entry ∈ chain.writes, entry.tag ≠ tag := by
  intro entry mem same
  have counted := count_eq_zero.mp none
  exact counted (same ▸ mem_map_of_mem mem)

end Tally

theorem Sound.begin : (begin : SpanChain Tag Data).Sound where
  recorded := by simp [SpanChain.begin]
  apart := .nil

theorem Sound.next {chain : SpanChain Tag Data} (sound : chain.Sound) : chain.next.Sound where
  recorded entry member := Nat.le_succ_of_le (sound.recorded entry member)
  apart := sound.apart

theorem Sound.vacant_next {chain : SpanChain Tag Data} (sound : chain.Sound) (spans) :
    chain.next.Vacant spans := by
  intro entry mem here
  have before := sound.recorded entry mem
  rw [next_added] at here
  omega

theorem Sound.write {chain : SpanChain Tag Data} {spans : List Span} (sound : chain.Sound)
    (vacant : chain.Vacant spans) (tag data) : (chain.write tag spans data).Sound where
  recorded entry member := by
    rcases mem_append.mp member with old | added
    · exact sound.recorded entry old
    · rw [mem_singleton.mp added]
      exact Nat.le.refl
  apart := by
    refine pairwise_append.mpr ⟨sound.apart, pairwise_singleton _ _, ?_⟩
    intro early member late added same
    rw [mem_singleton.mp added] at same ⊢
    exact vacant early member same

theorem Vacant.write {chain : SpanChain Tag Data} {spans taken : List Span} (vacant : chain.Vacant spans)
    (apart : SpansApart taken spans) (tag data) : (chain.write tag taken data).Vacant spans := by
  intro entry mem here
  rcases mem_append.mp mem with old | added
  · exact vacant entry old here
  · rw [mem_singleton.mp added]
    exact apart

section Grows

variable [DecidableEq Tag]

def times (tag : Tag) (count : Nat) : Tag → Nat :=
  fun other => if tag = other then count else 0

theorem times_succ (tag : Tag) (count : Nat) (other : Tag) :
    times tag count other + times tag 1 other = times tag (count + 1) other := by
  simp only [times]
  split <;> rfl

/-- At most `limit` records and, for each tag, exactly `gains` writes are added. -/
structure Grows (gains : Tag → Nat) (limit : Nat) (before after : SpanChain Tag Data) : Prop where
  added : after.added ≤ before.added + limit
  tally : ∀ tag, after.tally tag = before.tally tag + gains tag

variable (chain : SpanChain Tag Data)

theorem Grows.refl : Grows (fun _ => 0) 0 chain chain := ⟨le_rfl, fun _ => rfl⟩

variable {gains more : Tag → Nat} {limit further : Nat}

theorem Grows.trans {first second third : SpanChain Tag Data} (early : Grows gains limit first second)
    (late : Grows more further second third) :
    Grows (fun tag => gains tag + more tag) (limit + further) first third := by
  constructor
  · have := early.added
    have := late.added
    omega
  · intro tag
    rw [late.tally, early.tally, add_assoc]

theorem Grows.next : Grows (fun _ => 0) 1 chain chain.next := ⟨le_rfl, fun _ => rfl⟩

theorem Grows.write (tag spans data) : Grows (times tag 1) 0 chain (chain.write tag spans data) :=
  ⟨le_rfl, fun _ => tally_write chain⟩

theorem Grows.widen {old after : SpanChain Tag Data} (grows : Grows gains limit old after)
    (same : ∀ tag, gains tag = more tag) (below : limit ≤ further) :
    Grows more further old after :=
  ⟨le_trans grows.added (Nat.add_le_add_left below _), fun tag => same tag ▸ grows.tally tag⟩

end Grows

end SpanChain

end MlnxOfed.Lib
