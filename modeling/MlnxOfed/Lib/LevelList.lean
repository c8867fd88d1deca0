/-
Strictly sorted lists of (group, level) pairs in which a group has all levels under each of its own. A walk
back from a place to the next level 0 finds the last group before it.
-/

import Mathlib.Algebra.Order.Ring.Int
import Mathlib.Data.List.Find
import Mathlib.Data.List.Nodup
import Mathlib.Data.List.Perm.Subperm

namespace MlnxOfed.Lib

open List

variable {Group : Type*} [LinearOrder Group]

def Before (first second : Group × Nat) : Prop :=
  first.1 < second.1 ∨ first.1 = second.1 ∧ first.2 < second.2

instance (first second : Group × Nat) : Decidable (Before first second) :=
  inferInstanceAs (Decidable (_ ∨ _))

def Levelled (pairs : List (Group × Nat)) : Prop :=
  ∀ group level, (group, level + 1) ∈ pairs → (group, level) ∈ pairs

def upper (pairs : List (Group × Nat)) (group : Group) : Option (Group × Nat) :=
  pairs.find? fun pair => group < pair.1

def insertBefore (pairs : List (Group × Nat)) (pair : Group × Nat) : List (Group × Nat) :=
  pairs.takeWhile (fun other => ¬ Before pair other) ++ pair :: pairs.dropWhile fun other => ¬ Before pair other

def downToZero : List (Group × Nat) → List (Group × Nat)
  | [] => []
  | pair :: rest => if pair.2 = 0 then [pair] else pair :: downToZero rest

def previous (pairs : List (Group × Nat)) (pair : Group × Nat) : List (Group × Nat) :=
  downToZero (pairs.takeWhile fun other => other ≠ pair).reverse

variable {pairs : List (Group × Nat)} {pair other : Group × Nat}

theorem Before.irrefl (pair : Group × Nat) : ¬ Before pair pair := by
  rintro (less | ⟨-, less⟩)
  · exact lt_irrefl _ less
  · exact lt_irrefl _ less

theorem Before.trans {first second third : Group × Nat} (left : Before first second)
    (right : Before second third) : Before first third := by
  rcases left with less | ⟨same, less⟩
  · rcases right with more | ⟨sameRight, -⟩
    · exact .inl (less.trans more)
    · exact .inl (sameRight ▸ less)
  · rcases right with more | ⟨sameRight, more⟩
    · exact .inl (same ▸ more)
    · exact .inr ⟨same.trans sameRight, less.trans more⟩

theorem Before.total (first second : Group × Nat) (apart : first ≠ second) :
    Before first second ∨ Before second first := by
  rcases lt_trichotomy first.1 second.1 with less | same | more
  · exact .inl (.inl less)
  · rcases Nat.lt_trichotomy first.2 second.2 with less | sameLevel | more
    · exact .inl (.inr ⟨same, less⟩)
    · exact absurd (Prod.ext same sameLevel) apart
    · exact .inr (.inr ⟨same.symm, more⟩)
  · exact .inr (.inl more)

variable {group : Group}

omit [LinearOrder Group] in
theorem Levelled.zero (levelled : Levelled pairs) {level}
    (member : (group, level) ∈ pairs) : (group, 0) ∈ pairs := by
  induction level with
  | zero => exact member
  | succ level ih => exact ih (levelled group level member)

variable (sorted : pairs.Pairwise Before)

include sorted

theorem sorted_nodup : pairs.Nodup := by
  refine sorted.imp ?_
  intro left right old same
  rw [same] at old
  exact Before.irrefl right old

omit sorted in
theorem sorted_ext {first second : List (Group × Nat)} (sortedFirst : first.Pairwise Before)
    (sortedSecond : second.Pairwise Before) (same : ∀ pair, pair ∈ first ↔ pair ∈ second) :
    first = second := by
  have perm := (perm_ext_iff_of_nodup (sorted_nodup sortedFirst) (sorted_nodup sortedSecond)).mpr same
  exact perm.eq_of_pairwise
    (fun left _ _ _ up down => absurd (up.trans down) (Before.irrefl left)) sortedFirst sortedSecond

private theorem takeWhile_before (pair : Group × Nat) :
    ∀ other ∈ pairs.dropWhile (fun other => ¬ Before pair other), Before pair other := by
  induction pairs with
  | nil => exact nofun
  | cons head tail ih =>
    rw [pairwise_cons] at sorted
    by_cases larger : Before pair head
    · rw [dropWhile_cons_of_neg (by simpa using larger)]
      intro other mem
      rcases mem_cons.mp mem with rfl | inTail
      · exact larger
      · exact larger.trans (sorted.1 other inTail)
    · rw [dropWhile_cons_of_pos (by simpa using larger)]
      exact ih sorted.2

theorem insertBefore_split (pair : Group × Nat) (absent : pair ∉ pairs) : ∃ low high, pairs = low ++ high ∧
      insertBefore pairs pair = low ++ pair :: high ∧
      (∀ other ∈ low, Before other pair) ∧ ∀ other ∈ high, Before pair other := by
  refine ⟨pairs.takeWhile (fun other => ¬ Before pair other),
    pairs.dropWhile (fun other => ¬ Before pair other), takeWhile_append_dropWhile.symm, rfl,
    ?_, takeWhile_before sorted pair⟩
  intro other mem
  have notLarger : ¬ Before pair other := by
    have kept := all_eq_true.mp all_takeWhile other mem
    simpa using kept
  have apart : pair ≠ other := by
    intro same
    rw [same] at absent
    exact absent (takeWhile_subset _ mem)
  rcases Before.total pair other apart with larger | smaller
  · exact absurd larger notLarger
  · exact smaller

private theorem split_at (mem : pair ∈ pairs) :
    ∃ low high, pairs = low ++ pair :: high ∧ (pairs.takeWhile fun other => other ≠ pair) = low ∧
      pairs.erase pair = low ++ high ∧
      (∀ other ∈ low, Before other pair) ∧ ∀ other ∈ high, Before pair other := by
  induction pairs with
  | nil => cases mem
  | cons head tail ih =>
    rw [pairwise_cons] at sorted
    by_cases same : head = pair
    · subst same
      refine ⟨[], tail, rfl, ?_, erase_cons_head _ _, nofun, sorted.1⟩
      exact takeWhile_cons_of_neg (by simp)
    have inTail : pair ∈ tail := (mem_cons.mp mem).resolve_left (Ne.symm same)
    obtain ⟨low, high, split, taken, erased, smaller, larger⟩ := ih sorted.2 inTail
    refine ⟨head :: low, high, by rw [split]; rfl, ?_, ?_, ?_, larger⟩
    · rw [takeWhile_cons_of_pos (by simpa using same), taken]
    · rw [erase_cons_tail (by simpa using same), erased]
      rfl
    · intro other otherMember
      rcases mem_cons.mp otherMember with rfl | inLow
      · exact sorted.1 pair inTail
      · exact smaller other inLow

omit sorted in
theorem upper_eq_none : (upper pairs pair.1) = none ↔ ∀ other ∈ pairs, ¬ pair.1 < other.1 := by
  unfold upper
  rw [find?_eq_none]
  simp

omit sorted in
theorem upper_mem (found : upper pairs group = some pair) : pair ∈ pairs ∧ group < pair.1 :=
  ⟨mem_of_find?_eq_some found, by simpa using find?_some found⟩

theorem upper_first (found : upper pairs group = some pair) :
    ∀ other ∈ pairs, group < other.1 → other = pair ∨ Before pair other := by
  obtain ⟨-, low, high, split, smaller⟩ := find?_eq_some_iff_append.mp found
  intro other mem later
  rw [split] at mem sorted
  rcases mem_append.mp mem with inLow | inHigh
  · have notLater := smaller other inLow
    simp only [Bool.not_eq_true', decide_eq_false_iff_not] at notLater
    exact absurd later notLater
  · rcases mem_cons.mp inHigh with same | inRest
    · exact .inl same
    · have after := (pairwise_append.mp sorted).2.1
      exact .inr ((pairwise_cons.mp after).1 other inRest)

theorem upper_of_first (mem : pair ∈ pairs) (later : group < pair.1)
    (first : ∀ other ∈ pairs, group < other.1 → other = pair ∨ Before pair other) :
    upper pairs group = some pair := by
  cases found : upper pairs group with
  | none =>
    have absent := find?_eq_none.mp found pair mem
    rw [decide_eq_true_eq] at absent
    exact absurd later absent
  | some other =>
    obtain ⟨inside, otherLater⟩ := upper_mem found
    rcases first other inside otherLater with same | before
    · rw [same]
    · rcases upper_first sorted found pair mem later with same | back
      · rw [same]
      · exact absurd (before.trans back) (Before.irrefl pair)

theorem upper_level (levelled : Levelled pairs) (found : upper pairs group = some pair) : pair.2 = 0 := by
  obtain ⟨mem, later⟩ := upper_mem found
  obtain ⟨first, level⟩ := pair
  rcases upper_first sorted found (first, 0) (levelled.zero mem) later with same | before
  · exact (congrArg Prod.snd same).symm
  · rcases before with less | ⟨-, less⟩
    · exact absurd less (lt_irrefl _)
    · exact absurd less (Nat.not_lt_zero _)

/-! ### The group before a place -/

omit sorted in
omit [LinearOrder Group] in
theorem downToZero_sublist (pairs : List (Group × Nat)) : (downToZero pairs).Sublist pairs := by
  induction pairs with
  | nil => exact Sublist.slnil
  | cons pair rest ih =>
    rw [downToZero]
    split
    · exact singleton_sublist.mpr (.head _)
    · exact ih.cons_cons pair

theorem previous_nodup : (previous pairs pair).Nodup := by
  refine (downToZero_sublist _).nodup ?_
  rw [nodup_reverse]
  exact (takeWhile_sublist _).nodup (sorted_nodup sorted)

omit sorted in
private theorem downToZero_eq (level) : ∀ {pairs : List (Group × Nat)} {group : Group}
    {rest : List (Group × Nat)}, pairs = (group, level) :: rest →
    pairs.Pairwise (fun left right => Before right left) → Levelled pairs →
    downToZero pairs = pairs.filter fun other => other.1 = group := by
  induction level with
  | zero =>
    intro pairs group rest first sorted _levelled
    subst first
    rw [pairwise_cons] at sorted
    have others : rest.filter (fun other => other.1 = group) = [] := by
      rw [filter_eq_nil_iff]
      intro other member same
      rw [decide_eq_true_eq] at same
      rcases sorted.1 other member with less | ⟨-, less⟩
      · exact lt_irrefl _ (same ▸ less)
      · exact Nat.not_lt_zero _ less
    rw [downToZero, if_pos rfl, filter_cons_of_pos (by simp), others]
  | succ level ih =>
    intro pairs group rest first sorted levelled
    subst first
    have sortedRest := (pairwise_cons.mp sorted).2
    have below := (pairwise_cons.mp sorted).1
    have under : (group, level) ∈ rest := by
      rcases mem_cons.mp (levelled group level (.head _)) with same | inRest
      · exact absurd (congrArg Prod.snd same) (Nat.ne_of_lt (Nat.lt_succ_self level))
      · exact inRest
    have levelledRest : Levelled rest := by
      intro otherGroup otherLevel member
      rcases mem_cons.mp (levelled _ _ (.tail _ member)) with same | inRest
      · have before := below _ member
        rw [← same] at before
        exact absurd before (by
          rintro (less | ⟨-, less⟩)
          · exact lt_irrefl _ less
          · exact absurd less (Nat.not_lt.mpr (Nat.le_succ _)))
      · exact inRest
    obtain ⟨head, tail, split⟩ : ∃ head tail, rest = head :: tail :=
      exists_cons_of_ne_nil (ne_nil_of_mem under)
    have headSame : head = (group, level) := by
      rw [split] at under sortedRest
      rcases mem_cons.mp under with same | inTail
      · exact same.symm
      have above := (pairwise_cons.mp sortedRest).1 _ inTail
      have under := below head (by rw [split]; exact .head _)
      rcases above with less | ⟨same, less⟩
      · rcases under with more | ⟨sameHead, -⟩
        · exact absurd (less.trans more) (lt_irrefl _)
        · exact absurd (sameHead ▸ less) (lt_irrefl _)
      · rcases under with more | ⟨-, lessHead⟩
        · exact absurd (same ▸ more) (lt_irrefl _)
        · dsimp only at less lessHead
          omega
    rw [downToZero, if_neg (Nat.succ_ne_zero level), filter_cons_of_pos (by simp),
      ih (by rw [split, headSame]) sortedRest levelledRest]

theorem mem_previous (levelled : Levelled pairs) (mem : pair ∈ pairs) :
    other ∈ previous pairs pair ↔ other ∈ pairs ∧ Before other pair ∧
      ∀ third ∈ pairs, Before third pair → ¬ other.1 < third.1 := by
  obtain ⟨low, high, split, taken, -, smaller, larger⟩ := split_at sorted mem
  have inLow {third : Group × Nat} (inside : third ∈ pairs) (old : Before third pair) : third ∈ low := by
    rw [split] at inside
    rcases mem_append.mp inside with low | high
    · exact low
    · rcases mem_cons.mp high with same | inHigh
      · exact absurd (same ▸ old) (Before.irrefl pair)
      · exact absurd (old.trans (larger third inHigh)) (Before.irrefl third)
  have lowIn third (inside : third ∈ low) : third ∈ pairs := by
    rw [split]
    exact mem_append_left _ inside
  have sortedLow : low.Pairwise Before := by
    rw [split] at sorted
    exact (pairwise_append.mp sorted).1
  have levelledLow : Levelled low.reverse := by
    intro group level inside
    rw [mem_reverse] at inside ⊢
    have under : Before (group, level) (group, level + 1) := .inr ⟨rfl, Nat.lt_succ_self level⟩
    exact inLow (levelled group level (lowIn _ inside)) (under.trans (smaller _ inside))
  have sortedReverse : low.reverse.Pairwise fun left right => Before right left :=
    pairwise_reverse.mpr sortedLow
  unfold previous
  rw [taken]
  cases back : low.reverse with
  | nil =>
    have empty : low = [] := reverse_eq_nil_iff.mp back
    constructor
    · exact nofun
    · rintro ⟨inside, old, -⟩
      have impossible := inLow inside old
      rw [empty] at impossible
      cases impossible
  | cons last rest =>
    rw [← back, downToZero_eq last.2 back sortedReverse levelledLow, mem_filter, mem_reverse, decide_eq_true_eq]
    have lastIn : last ∈ low := by
      rw [← mem_reverse, back]
      exact .head _
    have greatest third (inside : third ∈ low) : third = last ∨ Before third last := by
      rw [← mem_reverse, back] at inside
      rcases mem_cons.mp inside with same | inRest
      · exact .inl same
      · rw [back] at sortedReverse
        exact .inr ((pairwise_cons.mp sortedReverse).1 third inRest)
    constructor
    · rintro ⟨inside, same⟩
      refine ⟨lowIn other inside, smaller other inside, ?_⟩
      intro third thirdIn old later
      rw [same] at later
      rcases greatest third (inLow thirdIn old) with isLast | less | ⟨sameGroup, -⟩
      · exact lt_irrefl _ (isLast ▸ later)
      · exact lt_irrefl _ (later.trans less)
      · exact lt_irrefl _ (sameGroup ▸ later)
    · rintro ⟨inside, old, first⟩
      refine ⟨inLow inside old, ?_⟩
      rcases greatest other (inLow inside old) with isLast | less | ⟨sameGroup, -⟩
      · rw [isLast]
      · exact absurd less (first last (lowIn last lastIn) (smaller last lastIn))
      · exact sameGroup

theorem previous_length (levelled : Levelled pairs) (mem : pair ∈ pairs) {bound}
    (bounded : ∀ other ∈ pairs, other.2 < bound) : (previous pairs pair).length ≤ bound := by
  have levelsOnce : ((previous pairs pair).map Prod.snd).Nodup := by
    refine (previous_nodup sorted).map_on ?_
    intro first firstMember second secondMember sameLevel
    obtain ⟨firstIn, firstBefore, firstLast⟩ := (mem_previous sorted levelled mem).mp firstMember
    obtain ⟨secondIn, secondBefore, secondLast⟩ :=
      (mem_previous sorted levelled mem).mp secondMember
    have sameGroup : first.1 = second.1 := le_antisymm (not_lt.mp (secondLast first firstIn firstBefore))
        (not_lt.mp (firstLast second secondIn secondBefore))
    exact Prod.ext sameGroup sameLevel
  have inRange : (previous pairs pair).map Prod.snd ⊆ range bound := by
    intro level isLevel
    obtain ⟨other, isPrevious, rfl⟩ := mem_map.mp isLevel
    have inside := ((mem_previous sorted levelled mem).mp isPrevious).1
    exact mem_range.mpr (bounded other inside)
  have length := (subperm_of_subset levelsOnce inRange).length_le
  rw [length_map, length_range] at length
  exact length

omit sorted

section OneMore

variable {more : List (Group × Nat)}

variable (sorted : pairs.Pairwise Before)

include sorted

variable (sortedMore : more.Pairwise Before)

include sortedMore

theorem upper_of_ne (members : ∀ other, other ∈ pairs ↔ other ∈ more ∧ other ≠ pair) {group}
    (apart : upper more group ≠ some pair) : upper pairs group = upper more group := by
  cases found : upper more group with
  | none =>
    unfold upper at found ⊢
    rw [find?_eq_none] at found ⊢
    exact fun other inside => found other ((members other).mp inside).1
  | some next =>
    obtain ⟨inside, later⟩ := upper_mem found
    have notPair : next ≠ pair := by
      intro same
      rw [found, same] at apart
      exact apart rfl
    exact upper_of_first sorted ((members next).mpr ⟨inside, notPair⟩) later
      fun other otherIn => upper_first sortedMore found other ((members other).mp otherIn).1

theorem upper_of_level (levelled : Levelled more)
    (members : ∀ other, other ∈ pairs ↔ other ∈ more ∧ other ≠ pair) (level : pair.2 ≠ 0)
    (group) : upper pairs group = upper more group := by
  refine upper_of_ne sorted sortedMore members ?_
  intro found
  exact level (upper_level sortedMore levelled found)

theorem upper_of_self (members : ∀ other, other ∈ pairs ↔ other ∈ more ∧ other ≠ pair) :
    upper pairs pair.1 = upper more pair.1 := by
  refine upper_of_ne sorted sortedMore members ?_
  intro found
  exact lt_irrefl _ (upper_mem found).2

theorem upper_of_previous (levelled : Levelled more)
    (members : ∀ other, other ∈ pairs ↔ other ∈ more ∧ other ≠ pair) (mem : pair ∈ more) (level : pair.2 = 0)
    (alone : ∀ other ∈ more, other.1 = pair.1 → other = pair) (isPrevious : other ∈ previous more pair) :
    upper more other.1 = some pair ∧ upper pairs other.1 = upper more pair.1 := by
  obtain ⟨inside, old, last⟩ := (mem_previous sortedMore levelled mem).mp isPrevious
  have less : other.1 < pair.1 := by
    rcases old with less | ⟨-, less⟩
    · exact less
    · rw [level] at less
      exact absurd less (Nat.not_lt_zero _)
  constructor
  · refine upper_of_first sortedMore mem less ?_
    intro third thirdIn later
    by_cases same : third = pair
    · exact .inl same
    · rcases Before.total third pair same with back | after
      · exact absurd later (last third thirdIn back)
      · exact .inr after
  rw [← upper_of_self sorted sortedMore members]
  refine find?_congr ?_
  intro third thirdIn
  obtain ⟨inMore, notPair⟩ := (members third).mp thirdIn
  refine decide_eq_decide.mpr ⟨?_, less.trans⟩
  intro later
  rcases Before.total third pair notPair with back | after
  · exact absurd later (last third inMore back)
  · rcases after with more | ⟨same, -⟩
    · exact more
    · exact absurd (alone third inMore same.symm) notPair

theorem upper_of_not_previous (levelled : Levelled more)
    (members : ∀ other, other ∈ pairs ↔ other ∈ more ∧ other ≠ pair) (mem : pair ∈ more)
    (inside : other ∈ more) (notPrevious : other ∉ previous more pair) :
    upper pairs other.1 = upper more other.1 := by
  refine upper_of_ne sorted sortedMore members ?_
  intro found
  refine notPrevious ((mem_previous sortedMore levelled mem).mpr ⟨inside, .inl (upper_mem found).2, ?_⟩)
  intro third thirdIn old later
  rcases upper_first sortedMore found third thirdIn later with same | after
  · exact Before.irrefl pair (same ▸ old)
  · exact Before.irrefl pair (after.trans old)

omit sortedMore

omit sorted

end OneMore

theorem find_before (highest : ∀ other ∈ pairs, other.1 = pair.1 → other.2 ≤ pair.2) :
    pairs.find? (fun other => Before pair other) = upper pairs pair.1 := by
  refine find?_congr ?_
  intro other inside
  refine decide_eq_decide.mpr ⟨?_, .inl⟩
  rintro (less | ⟨same, less⟩)
  · exact less
  · exact absurd less (Nat.not_lt.mpr (highest other inside same.symm))

theorem mem_insertBefore : other ∈ insertBefore pairs pair ↔ other = pair ∨ other ∈ pairs := by
  unfold insertBefore
  rw [mem_append, mem_cons]
  conv_rhs => rw [← takeWhile_append_dropWhile (p := fun other => ¬ Before pair other) (l := pairs), mem_append]
  tauto

theorem sorted_insertBefore (sorted : pairs.Pairwise Before) (absent : pair ∉ pairs) :
    (insertBefore pairs pair).Pairwise Before := by
  obtain ⟨low, high, split, inserted, smaller, larger⟩ := insertBefore_split sorted pair absent
  rw [split] at sorted
  rw [inserted, pairwise_append, pairwise_cons]
  obtain ⟨sortedLow, sortedHigh, across⟩ := pairwise_append.mp sorted
  refine ⟨sortedLow, ⟨larger, sortedHigh⟩, ?_⟩
  intro first inLow second inRest
  rcases mem_cons.mp inRest with same | inHigh
  · rw [same]
    exact smaller first inLow
  · exact across first inLow second inHigh

theorem erase_insertBefore (sorted : pairs.Pairwise Before) (absent : pair ∉ pairs) :
    (insertBefore pairs pair).erase pair = pairs := by
  obtain ⟨low, high, split, inserted, smaller, -⟩ := insertBefore_split sorted pair absent
  have notLow : pair ∉ low := fun inLow => Before.irrefl pair (smaller pair inLow)
  rw [inserted, erase_append_right _ notLow, erase_cons_head, split]

theorem length_insertBefore : (insertBefore pairs pair).length = pairs.length + 1 := by
  unfold insertBefore
  rw [length_append, length_cons, ← add_assoc, ← length_append, takeWhile_append_dropWhile]

end MlnxOfed.Lib
