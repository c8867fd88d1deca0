/-
What holds of a mapping context in every state: the numbers in use stand for their data, a dropped number
keeps its data for the grace period, each item is freed once, and there is a work for the items that wait.
-/

import MlnxOfed.Mapping.MappingCtx
import Mathlib.Data.List.Induction

namespace MlnxOfed.Mapping

open Prod Option List Function Lib

set_option linter.unusedSectionVars false

variable {Data : Type} [DecidableEq Data] {kernel : Kernel}

namespace MappingCtx

def taken (ctx : MappingCtx Data) : List Nat :=
  match ctx.handler with
  | some handler => handler.pendingItems
  | none => []

def held (ctx : MappingCtx Data) : List Nat :=
  ctx.ht ++ (ctx.pendingList ++ ctx.taken)

def key (ctx : MappingCtx Data) (i : Nat) : Nat × Data :=
  ((ctx.item i).id, (ctx.item i).data)

def Awaited (ctx : MappingCtx Data) : Prop :=
  ctx.queued = true ∨ ctx.scheduling = true ∨ ∃ handler, ctx.handler = some handler ∧ handler.minTimeout ≠ 0

structure Indexed (ctx : MappingCtx Data) : Prop where
  resolves : ∀ i ∈ ctx.held, ctx.xarray (ctx.item i).id = some i
  entries : ∀ id i, ctx.xarray id = some i → i ∈ ctx.held ∧ (ctx.item i).id = id ∧ 1 ≤ id ∧ id ≤ ctx.maxId

structure Counted (ctx : MappingCtx Data) : Prop where
  dataOnce : ∀ i ∈ ctx.ht, ∀ j ∈ ctx.ht, (ctx.item i).data = (ctx.item j).data → i = j
  counts : ∀ i ∈ ctx.ht, (ctx.item i).cnt = ctx.uses.count (ctx.key i)
  some : ∀ i ∈ ctx.ht, 0 < (ctx.item i).cnt ∧ (ctx.item i).cnt < 2 ^ 31
  used : ∀ use ∈ ctx.uses, ∃ i ∈ ctx.ht, use = ctx.key i

structure Timed (kernel : Kernel) (ctx : MappingCtx Data) : Prop where
  dropped : ∀ drop ∈ ctx.drops, drop.item ∉ ctx.ht ∧ drop.item < ctx.nextItem ∧
    ctx.key drop.item = (drop.id, drop.data) ∧ drop.time ≤ ctx.clock
  waiting : ∀ drop ∈ ctx.drops, drop.item ∈ ctx.pendingList →
    (ctx.item drop.item).timeout = (drop.time + kernel.grace) % 2 ^ kernel.bits
  late : ∀ drop ∈ ctx.drops, drop.item ∉ ctx.pendingList → drop.time + kernel.grace < ctx.clock
  logged : ∀ i ∈ ctx.pendingList, ∃ drop ∈ ctx.drops, drop.item = i

structure Inv (kernel : Kernel) (ctx : MappingCtx Data) : Prop where
  alive : ctx.refcount ≠ 0
  owned : (ctx.held ++ ctx.freed).Perm (range ctx.nextItem)
  indexed : ctx.Indexed
  counted : ctx.Counted
  timed : ctx.Timed kernel
  awaited : ctx.pendingList ≠ [] → ctx.Awaited
  immediate : ctx.delayedRemoval = false →
    ctx.pendingList = [] ∧ ctx.handler = none ∧ ctx.queued = false ∧ ctx.scheduling = false

/-- After the last `mapping_destroy`. -/
structure Destroyed (ctx : MappingCtx Data) : Prop where
  dead : ctx.refcount = 0
  uses : ctx.uses = []
  xarray : ∀ id, ctx.xarray id = none
  pendingList : ctx.pendingList = []
  freed : ctx.freed.Perm (range ctx.nextItem)

variable {ctx next : MappingCtx Data}

variable (inv : Inv kernel ctx)

include inv

theorem Inv.nodup : (ctx.held ++ ctx.freed).Nodup :=
  inv.owned.nodup_iff.mpr nodup_range

theorem Inv.ht_nodup : ctx.ht.Nodup :=
  (nodup_append.mp (nodup_append.mp inv.nodup).1).1

variable {i : Nat}

theorem Inv.old (mem : i ∈ ctx.held) : i < ctx.nextItem :=
  mem_range.mp (inv.owned.mem_iff.mp (mem_append_left _ mem))

theorem Inv.fresh : ctx.nextItem ∉ ctx.held :=
  fun mem => lt_irrefl _ (inv.old mem)

omit inv in
theorem mem_held_of_ht (member : i ∈ ctx.ht) : i ∈ ctx.held :=
  mem_append_left _ member

omit inv in
theorem mem_held_of_pending (member : i ∈ ctx.pendingList) : i ∈ ctx.held :=
  mem_append_right _ (mem_append_left _ member)

theorem Inv.not_pending (mem : i ∈ ctx.ht) : i ∉ ctx.pendingList ∧ i ∉ ctx.taken := by
  have apart := (nodup_append.mp (nodup_append.mp inv.nodup).1).2.2 i mem
  exact ⟨fun pending => apart i (mem_append_left _ pending) rfl,
    fun inTaken => apart i (mem_append_right _ inTaken) rfl⟩

variable {data : Data} {id : Nat}

theorem Inv.of_use (use : (id, data) ∈ ctx.uses) :
    ∃ i ∈ ctx.ht, (id, data) = ctx.key i ∧ ctx.xarray id = some i := by
  obtain ⟨i, mem, same⟩ := inv.counted.used _ use
  have isId : id = (ctx.item i).id := congrArg fst same
  exact ⟨i, mem, same, isId ▸ inv.indexed.resolves i (mem_held_of_ht mem)⟩

omit inv in
theorem Indexed.congr (indexed : ctx.Indexed) (held : ∀ i, i ∈ next.held ↔ i ∈ ctx.held)
    (xarray : next.xarray = ctx.xarray) (ids : ∀ i, (next.item i).id = (ctx.item i).id)
    (maxId : next.maxId = ctx.maxId) : next.Indexed where
  resolves i member := by
    rw [xarray, ids]
    exact indexed.resolves i ((held i).mp member)
  entries id i found := by
    rw [xarray] at found
    rw [held, ids, maxId]
    exact indexed.entries id i found

omit inv in
theorem Counted.congr (counted : ctx.Counted) (ht : next.ht = ctx.ht)
    (item : ∀ i ∈ ctx.ht, next.item i = ctx.item i) (uses : next.uses = ctx.uses) :
    next.Counted where
  dataOnce i member j other same := by
    rw [ht] at member other
    rw [item i member, item j other] at same
    exact counted.dataOnce i member j other same
  counts i member := by
    rw [ht] at member
    rw [key, item i member, uses]
    exact counted.counts i member
  some i member := by
    rw [ht] at member
    rw [item i member]
    exact counted.some i member
  used use inUses := by
    rw [uses] at inUses
    obtain ⟨i, member, same⟩ := counted.used use inUses
    rw [ht]
    refine ⟨i, member, ?_⟩
    rw [key, item i member]
    exact same

omit inv in
theorem Timed.congr (timed : ctx.Timed kernel) (pending : next.pendingList = ctx.pendingList)
    (drops : next.drops = ctx.drops) (clock : ctx.clock ≤ next.clock) (nextItem : ctx.nextItem ≤ next.nextItem)
    (ht : ∀ i ∈ next.ht, i < ctx.nextItem → i ∈ ctx.ht)
    (keys : ∀ i < ctx.nextItem, next.key i = ctx.key i ∧ (next.item i).timeout = (ctx.item i).timeout) :
    next.Timed kernel where
  dropped drop member := by
    rw [drops] at member
    obtain ⟨notHt, old, isKey, before⟩ := timed.dropped drop member
    exact ⟨fun inHt => notHt (ht _ inHt old), by omega, (keys _ old).1.trans isKey, by omega⟩
  waiting drop member inPending := by
    rw [drops] at member
    rw [pending] at inPending
    rw [(keys _ (timed.dropped drop member).2.1).2]
    exact timed.waiting drop member inPending
  late drop member notPending := by
    rw [drops] at member
    rw [pending] at notPending
    have before := timed.late drop member notPending
    omega
  logged i member := by
    rw [pending] at member
    rw [drops]
    exact timed.logged i member

theorem Inv.of_same (alive : next.refcount ≠ 0) (held : next.held = ctx.held) (ht : next.ht = ctx.ht)
    (pending : next.pendingList = ctx.pendingList) (freed : next.freed = ctx.freed)
    (nextItem : next.nextItem = ctx.nextItem) (xarray : next.xarray = ctx.xarray)
    (item : next.item = ctx.item) (maxId : next.maxId = ctx.maxId) (uses : next.uses = ctx.uses)
    (drops : next.drops = ctx.drops) (clock : ctx.clock ≤ next.clock)
    (awaited : next.pendingList ≠ [] → next.Awaited)
    (immediate : next.delayedRemoval = false → next.pendingList = [] ∧ next.handler = none ∧
      next.queued = false ∧ next.scheduling = false) :
    Inv kernel next where
  alive := alive
  owned := by
    rw [held, freed, nextItem]
    exact inv.owned
  indexed := inv.indexed.congr (fun i => by rw [held]) xarray (fun i => by rw [item]) maxId
  counted := inv.counted.congr ht (fun i _ => by rw [item]) uses
  timed := inv.timed.congr pending drops clock (le_of_eq nextItem.symm)
    (fun i mem _ => ht ▸ mem) (fun i _ => by rw [key, key, item]; exact ⟨rfl, rfl⟩)
  awaited := awaited
  immediate := immediate

omit inv in
theorem keys_of_update (i) (changed : MappingItem Data) (item : next.item = update ctx.item i changed)
    (id : changed.id = (ctx.item i).id) (data : changed.data = (ctx.item i).data)
    (timeout : changed.timeout = (ctx.item i).timeout) (j) :
    next.key j = ctx.key j ∧ (next.item j).timeout = (ctx.item j).timeout := by
  rw [key, key, item]
  by_cases same : j = i
  · rw [same, update_self, id, data, timeout]
    exact ⟨rfl, rfl⟩
  · rw [update_of_ne same]
    exact ⟨rfl, rfl⟩

/-! ### Additions -/

theorem attach_inv (mem : i ∈ ctx.ht) (few : (ctx.item i).cnt + 1 < 2 ^ 31) : Inv kernel (ctx.attach i) := by
  have small : ((ctx.item i).cnt + 1) % 2 ^ 32 = (ctx.item i).cnt + 1 :=
    Nat.mod_eq_of_lt (by omega)
  have others j (other : j ≠ i) : (ctx.attach i).item j = ctx.item j := update_of_ne other _ _
  have self : (ctx.attach i).item i = { ctx.item i with cnt := (ctx.item i).cnt + 1 } := by
    rw [attach, small]
    exact update_self _ _ _
  have keys : ∀ j, (ctx.attach i).key j = ctx.key j ∧ ((ctx.attach i).item j).timeout = (ctx.item j).timeout :=
    keys_of_update i _ rfl rfl rfl rfl
  have uses : (ctx.attach i).uses = ctx.key i :: ctx.uses := rfl
  exact
    { inv with
      indexed := inv.indexed.congr (fun _ => .rfl) rfl (fun j => congrArg fst (keys j).1) rfl
      counted :=
        { dataOnce j inHt other otherHt same := by
            refine inv.counted.dataOnce j inHt other otherHt ?_
            have sameKeys := congrArg snd (keys j).1
            have otherKeys := congrArg snd (keys other).1
            exact sameKeys.symm.trans (same.trans otherKeys)
          counts j inHt := by
            rw [(keys j).1, uses]
            by_cases same : j = i
            · rw [same, self, count_cons_self, ← inv.counted.counts i mem]
            · have apart : ctx.key i ≠ ctx.key j := fun equal =>
                same (inv.counted.dataOnce j inHt i mem (congrArg snd equal).symm)
              rw [others j same, count_cons_of_ne apart]
              exact inv.counted.counts j inHt
          some j inHt := by
            by_cases same : j = i
            · rw [same, self]
              exact ⟨Nat.succ_pos _, few⟩
            · rw [others j same]
              exact inv.counted.some j inHt
          used use inUses := by
            rw [uses] at inUses
            rcases mem_cons.mp inUses with rfl | old
            · exact ⟨i, mem, (keys i).1.symm⟩
            · obtain ⟨j, inHt, same⟩ := inv.counted.used use old
              exact ⟨j, inHt, same.trans (keys j).1.symm⟩ }
      timed := inv.timed.congr rfl rfl le_rfl le_rfl (fun _ inHt _ => inHt) (fun j _ => keys j) }

theorem addFailed_inv : Inv kernel
    { ctx with nextItem := ctx.nextItem + 1, freed := ctx.freed ++ [ctx.nextItem] } :=
  { inv with
    owned := by
      rw [range_succ, ← append_assoc]
      exact inv.owned.append_right _
    indexed := inv.indexed.congr (fun _ => .rfl) rfl (fun _ => rfl) rfl
    counted := inv.counted.congr rfl (fun _ _ => rfl) rfl
    timed := inv.timed.congr rfl rfl le_rfl (Nat.le_succ _) (fun _ inHt _ => inHt) (fun _ _ => ⟨rfl, rfl⟩) }

omit inv in
/-- The state of `mapping_add` after the allocation of a number. -/
def insert (ctx : MappingCtx Data) (data : Data) (id : Nat) : MappingCtx Data :=
  ({ ctx with
    item := update ctx.item ctx.nextItem ⟨data, 0, id, 0⟩
    nextItem := ctx.nextItem + 1
    ht := ctx.nextItem :: ctx.ht
    xarray := update ctx.xarray id (some ctx.nextItem) } :
    MappingCtx Data).attach ctx.nextItem

theorem insert_inv (absent : ∀ i ∈ ctx.ht, (ctx.item i).data ≠ data) (pos : 1 ≤ id) (bounded : id ≤ ctx.maxId)
    (free : ctx.xarray id = none) : Inv kernel (ctx.insert data id) := by
  have self : (ctx.insert data id).item ctx.nextItem = ⟨data, 1, id, 0⟩ := by
    simp only [insert, attach, update_self]
    rfl
  have others i (other : i ≠ ctx.nextItem) : (ctx.insert data id).item i = ctx.item i := by
    simp [insert, attach, update_of_ne other]
  have old : ∀ i ∈ ctx.held, i ≠ ctx.nextItem := fun i member same => inv.fresh (same ▸ member)
  have uses : (ctx.insert data id).uses = (id, data) :: ctx.uses := by
    simp [insert, attach]
  have unused : (id, data) ∉ ctx.uses := by
    intro use
    obtain ⟨i, member, same, -⟩ := inv.of_use use
    exact absent i member (congrArg snd same).symm
  have xarraySelf : (ctx.insert data id).xarray id = some ctx.nextItem :=
    update_self _ _ _
  have xarrayOthers other (different : other ≠ id) : (ctx.insert data id).xarray other = ctx.xarray other :=
      update_of_ne different _ _
  have heldIff i : i ∈ (ctx.insert data id).held ↔ i = ctx.nextItem ∨ i ∈ ctx.held := mem_cons
  exact
    { inv with
      owned := by
        have more := inv.owned.cons ctx.nextItem
        have last := (perm_append_singleton ctx.nextItem (range ctx.nextItem)).symm
        rw [← range_succ] at last
        exact more.trans last
      indexed :=
        { resolves i member := by
            rcases (heldIff i).mp member with rfl | inOld
            · rw [self]
              exact xarraySelf
            have found := inv.indexed.resolves i inOld
            rw [others i (old i inOld)]
            rw [xarrayOthers]
            · exact found
            · intro same
              rw [same, free] at found
              cases found
          entries other i found := by
            by_cases same : other = id
            · rw [same, xarraySelf] at found
              cases found
              rw [self, same]
              exact ⟨(heldIff _).mpr (.inl rfl), rfl, pos, bounded⟩
            · rw [xarrayOthers other same] at found
              obtain ⟨inHeld, rest⟩ := inv.indexed.entries other i found
              rw [others i (old i inHeld)]
              exact ⟨(heldIff i).mpr (.inr inHeld), rest⟩ }
      counted :=
        { dataOnce i member j other same := by
            rcases mem_cons.mp member with rfl | inHt
            · rcases mem_cons.mp other with rfl | otherHt
              · rfl
              · rw [self, others j (old j (mem_held_of_ht otherHt))] at same
                exact absurd same.symm (absent j otherHt)
            · rcases mem_cons.mp other with rfl | otherHt
              · rw [self, others i (old i (mem_held_of_ht inHt))] at same
                exact absurd same (absent i inHt)
              · rw [others i (old i (mem_held_of_ht inHt)), others j (old j (mem_held_of_ht otherHt))] at same
                exact inv.counted.dataOnce i inHt j otherHt same
          counts i member := by
            rw [uses]
            rcases mem_cons.mp member with rfl | inHt
            · rw [key, self, count_cons_self, count_eq_zero.mpr unused]
            · have apart : (id, data) ≠ ctx.key i := fun same =>
                absent i inHt (congrArg snd same).symm
              rw [key, others i (old i (mem_held_of_ht inHt)), ← key, count_cons_of_ne apart]
              exact inv.counted.counts i inHt
          some i member := by
            rcases mem_cons.mp member with rfl | inHt
            · rw [self]
              exact ⟨Nat.one_pos, (by decide : 1 < 2 ^ 31)⟩
            · rw [others i (old i (mem_held_of_ht inHt))]
              exact inv.counted.some i inHt
          used use inUses := by
            rw [uses] at inUses
            rcases mem_cons.mp inUses with rfl | inOld
            · exact ⟨ctx.nextItem, .head _, by rw [key, self]⟩
            · obtain ⟨i, inHt, same⟩ := inv.counted.used use inOld
              refine ⟨i, mem_cons_of_mem _ inHt, ?_⟩
              rw [key, others i (old i (mem_held_of_ht inHt))]
              exact same }
      timed := by
        refine inv.timed.congr rfl rfl le_rfl (Nat.le_succ _) ?_ ?_
        · intro i member isOld
          exact (mem_cons.mp member).resolve_left (by omega)
        · intro i isOld
          rw [key, others i (by omega)]
          exact ⟨rfl, rfl⟩ }

/-! ### Removals -/

theorem release_inv (mem : i ∈ ctx.ht) (several : 1 < (ctx.item i).cnt) : Inv kernel { ctx with
      item := update ctx.item i { ctx.item i with cnt := (ctx.item i).cnt - 1 }
      uses := ctx.uses.erase (ctx.key i) } := by
  generalize isNext : ({ ctx with
    item := update ctx.item i { ctx.item i with cnt := (ctx.item i).cnt - 1 }
    uses := ctx.uses.erase (ctx.key i) } : MappingCtx Data) = next
  have item : next.item = update ctx.item i
    { ctx.item i with cnt := (ctx.item i).cnt - 1 } := by rw [← isNext]
  have self : next.item i = { ctx.item i with cnt := (ctx.item i).cnt - 1 } := by
    rw [item, update_self]
  have others j (other : j ≠ i) : next.item j = ctx.item j := by
    rw [item, update_of_ne other]
  have keys := keys_of_update i _ item rfl rfl rfl
  have uses : next.uses = ctx.uses.erase (ctx.key i) := by rw [← isNext]
  have ht : next.ht = ctx.ht := by rw [← isNext]
  have counted : next.Counted :=
    { dataOnce j inHt other otherHt same := by
        rw [ht] at inHt otherHt
        refine inv.counted.dataOnce j inHt other otherHt ?_
        exact (congrArg snd (keys j).1).symm.trans (same.trans (congrArg snd (keys other).1))
      counts j inHt := by
        rw [ht] at inHt
        rw [(keys j).1, uses]
        by_cases same : j = i
        · rw [same, self, count_erase_self, ← inv.counted.counts i mem]
        · have apart : ctx.key j ≠ ctx.key i := fun equal =>
            same (inv.counted.dataOnce j inHt i mem (congrArg snd equal))
          rw [others j same, count_erase_of_ne apart]
          exact inv.counted.counts j inHt
      some j inHt := by
        rw [ht] at inHt
        by_cases same : j = i
        · have bound := (inv.counted.some i mem).2
          rw [same, self]
          dsimp only
          omega
        · rw [others j same]
          exact inv.counted.some j inHt
      used use inUses := by
        rw [uses] at inUses
        obtain ⟨j, inHt, same⟩ := inv.counted.used use (mem_of_mem_erase inUses)
        rw [ht]
        exact ⟨j, inHt, same.trans (keys j).1.symm⟩ }
  subst isNext
  exact
    { inv with
      indexed := inv.indexed.congr (fun _ => .rfl) rfl (fun j => congrArg fst (keys j).1) rfl
      counted := counted
      timed := inv.timed.congr rfl rfl le_rfl le_rfl (fun _ inHt _ => inHt) (fun j _ => keys j) }

omit inv in
theorem Counted.drop (counted : ctx.Counted) (nodup : ctx.ht.Nodup) (member : i ∈ ctx.ht)
    (last : (ctx.item i).cnt = 1) (ht : next.ht = ctx.ht.erase i)
    (item : ∀ j, j ≠ i → next.item j = ctx.item j) (uses : next.uses = ctx.uses.erase (ctx.key i)) :
    next.Counted := by
  have stays j (inNext : j ∈ next.ht) : j ∈ ctx.ht ∧ j ≠ i ∧ next.item j = ctx.item j := by
    rw [ht] at inNext
    have other : j ≠ i := fun same => nodup.not_mem_erase (same ▸ inNext)
    exact ⟨mem_of_mem_erase inNext, other, item j other⟩
  have apart : ∀ j ∈ ctx.ht, j ≠ i → ctx.key j ≠ ctx.key i := fun j inHt other same =>
    other (counted.dataOnce j inHt i member (congrArg snd same))
  exact
    { dataOnce j inNext other otherNext same := by
        obtain ⟨inHt, -, sameItem⟩ := stays j inNext
        obtain ⟨otherHt, -, otherItem⟩ := stays other otherNext
        rw [sameItem, otherItem] at same
        exact counted.dataOnce j inHt other otherHt same
      counts j inNext := by
        obtain ⟨inHt, other, sameItem⟩ := stays j inNext
        rw [key, sameItem, uses, ← key, count_erase_of_ne (apart j inHt other)]
        exact counted.counts j inHt
      some j inNext := by
        obtain ⟨inHt, -, sameItem⟩ := stays j inNext
        rw [sameItem]
        exact counted.some j inHt
      used use inUses := by
        rw [uses] at inUses
        obtain ⟨j, inHt, same⟩ := counted.used use (mem_of_mem_erase inUses)
        have other : j ≠ i := by
          intro isItem
          rw [same, isItem] at inUses
          have again := count_pos_iff.mpr inUses
          rw [count_erase_self, ← counted.counts i member, last] at again
          omega
        refine ⟨j, ?_, ?_⟩
        · rw [ht]
          exact (mem_erase_of_ne other).mpr inHt
        · rw [key, item j other]
          exact same }

omit inv in
theorem Indexed.erase (indexed : ctx.Indexed) (nodup : ctx.held.Nodup) (held : ctx.held.Perm (i :: next.held))
    (xarray : next.xarray = update ctx.xarray (ctx.item i).id none)
    (ids : ∀ j, (next.item j).id = (ctx.item j).id) (maxId : next.maxId = ctx.maxId) :
    next.Indexed := by
  have gone : i ∉ next.held := (nodup_cons.mp (held.nodup_iff.mp nodup)).1
  have found := indexed.resolves i (held.mem_iff.mpr (.head _))
  constructor
  · intro j member
    have before := indexed.resolves j (held.mem_iff.mpr (.tail _ member))
    rw [xarray, ids, update_of_ne]
    · exact before
    · intro same
      rw [same, found] at before
      cases before
      exact gone member
  intro id j entry
  rw [xarray] at entry
  by_cases same : id = (ctx.item i).id
  · rw [same, update_self] at entry
    cases entry
  rw [update_of_ne same] at entry
  obtain ⟨inHeld, isId, bounds⟩ := indexed.entries id j entry
  rw [ids, maxId]
  refine ⟨?_, isId, bounds⟩
  refine (mem_cons.mp (held.mem_iff.mp inHeld)).resolve_left ?_
  intro isItem
  exact same (isItem ▸ isId).symm

omit inv in
theorem perm_freed {held rest freed} (split : held.Perm (i :: rest)) :
    (rest ++ (freed ++ [i])).Perm (held ++ freed) := by
  rw [← append_assoc]
  exact (perm_append_singleton i (rest ++ freed)).trans (split.append_right freed).symm

theorem freeNow_inv (cnt) (mem : i ∈ ctx.ht) (last : (ctx.item i).cnt = 1) : Inv kernel { ctx with
      item := update ctx.item i { ctx.item i with cnt := cnt }
      ht := ctx.ht.erase i
      xarray := update ctx.xarray (ctx.item i).id none
      freed := ctx.freed ++ [i]
      uses := ctx.uses.erase (ctx.key i) } := by
  have split := perm_cons_erase mem
  exact
    { inv with
      owned := (perm_freed (split.append_right _)).trans inv.owned
      indexed := inv.indexed.erase (nodup_append.mp inv.nodup).1 (split.append_right _) rfl
        (fun j => congrArg fst (keys_of_update i { ctx.item i with cnt := cnt } rfl rfl rfl rfl j).1) rfl
      counted := inv.counted.drop inv.ht_nodup mem last rfl (fun j other => update_of_ne other _ _) rfl
      timed := inv.timed.congr rfl rfl le_rfl le_rfl (fun j inNext _ => mem_of_mem_erase inNext)
        (fun j _ => keys_of_update i { ctx.item i with cnt := cnt } rfl rfl rfl rfl j) }

theorem freeLater_inv (cnt) (mem : i ∈ ctx.ht)
    (last : (ctx.item i).cnt = 1) (delayed : ctx.delayedRemoval = true) :
    Inv kernel { ctx with
      item := update ctx.item i { ctx.item i with
        cnt := cnt
        timeout := (ctx.jiffies kernel + kernel.grace) % 2 ^ kernel.bits }
      ht := ctx.ht.erase i
      pendingList := ctx.pendingList ++ [i]
      scheduling := true
      drops := ⟨i, (ctx.item i).id, (ctx.item i).data, ctx.clock⟩ :: ctx.drops
      uses := ctx.uses.erase (ctx.key i) } := by
  generalize isNext : ({ ctx with
      item := update ctx.item i { ctx.item i with
        cnt := cnt
        timeout := (ctx.jiffies kernel + kernel.grace) % 2 ^ kernel.bits }
      ht := ctx.ht.erase i
      pendingList := ctx.pendingList ++ [i]
      scheduling := true
      drops := ⟨i, (ctx.item i).id, (ctx.item i).data, ctx.clock⟩ :: ctx.drops
      uses := ctx.uses.erase (ctx.key i) } : MappingCtx Data) = next
  have self : next.item i = { ctx.item i with
      cnt := cnt
      timeout := (ctx.jiffies kernel + kernel.grace) % 2 ^ kernel.bits } := by
    rw [← isNext]
    exact update_self _ _ _
  have others j (other : j ≠ i) : next.item j = ctx.item j := by
    rw [← isNext]
    exact update_of_ne other _ _
  have keys j : next.key j = ctx.key j := by
    by_cases same : j = i
    · rw [same, key, self]
      rfl
    · rw [key, others j same]
      rfl
  have ht : next.ht = ctx.ht.erase i := by rw [← isNext]
  have pending : next.pendingList = ctx.pendingList ++ [i] := by rw [← isNext]
  have drops : next.drops = ⟨i, (ctx.item i).id, (ctx.item i).data, ctx.clock⟩ :: ctx.drops := by
    rw [← isNext]
  have sameClock : next.clock = ctx.clock := by rw [← isNext]
  have sameNext : next.nextItem = ctx.nextItem := by rw [← isNext]
  have sameTaken : next.taken = ctx.taken := by
    rw [← isNext]
    rfl
  have held : next.held.Perm ctx.held := by
    unfold MappingCtx.held
    rw [ht, pending, sameTaken, append_assoc, singleton_append, ← append_assoc, ← append_assoc]
    have back : (ctx.ht.erase i ++ ctx.pendingList ++ i :: ctx.taken).Perm
        (i :: (ctx.ht.erase i ++ ctx.pendingList ++ ctx.taken)) := perm_middle
    refine back.trans ?_
    rw [append_assoc, append_assoc, ← cons_append]
    exact (perm_cons_erase mem).symm.append_right _
  have dropOther : ∀ drop ∈ ctx.drops, drop.item ≠ i := fun drop inDrops same =>
    (inv.timed.dropped drop inDrops).1 (same ▸ mem)
  have timed : next.Timed kernel :=
    { dropped drop inNext := by
        rw [drops] at inNext
        rw [ht, sameNext, sameClock, keys]
        rcases mem_cons.mp inNext with rfl | old
        · exact ⟨inv.ht_nodup.not_mem_erase, inv.old (mem_held_of_ht mem), rfl, le_rfl⟩
        · obtain ⟨notHt, rest⟩ := inv.timed.dropped drop old
          exact ⟨fun inHt => notHt (mem_of_mem_erase inHt), rest⟩
      waiting drop inNext inPending := by
        rw [drops] at inNext
        rw [pending] at inPending
        rcases mem_cons.mp inNext with rfl | old
        · rw [self]
          rw [jiffies, Nat.mod_add_mod]
        · have other := dropOther drop old
          rw [others _ other]
          refine inv.timed.waiting drop old ?_
          exact (mem_append.mp inPending).resolve_right (fun isItem => other (mem_singleton.mp isItem))
      late drop inNext notPending := by
        rw [drops] at inNext
        rw [pending, mem_append, not_or, mem_singleton] at notPending
        rw [sameClock]
        rcases mem_cons.mp inNext with rfl | old
        · exact absurd rfl notPending.2
        · exact inv.timed.late drop old notPending.1
      logged j inPending := by
        rw [pending] at inPending
        rw [drops]
        rcases mem_append.mp inPending with old | isItem
        · obtain ⟨drop, inDrops, same⟩ := inv.timed.logged j old
          exact ⟨drop, mem_cons_of_mem _ inDrops, same⟩
        · exact ⟨_, .head _, (mem_singleton.mp isItem).symm⟩ }
  have counted : next.Counted := inv.counted.drop inv.ht_nodup mem last ht others (by rw [← isNext])
  have indexed : next.Indexed := inv.indexed.congr (fun j => held.mem_iff) (by rw [← isNext])
    (fun j => congrArg fst (keys j)) (by rw [← isNext])
  subst isNext
  exact
    { alive := inv.alive
      owned := (held.append_right _).trans inv.owned
      indexed := indexed
      counted := counted
      timed := timed
      awaited _ := .inr (.inl rfl)
      immediate never := by rw [delayed] at never; cases never }

theorem remove_inv (use : (id, data) ∈ ctx.uses) :
    Inv kernel { ctx.mappingRemove kernel id with uses := ctx.uses.erase (id, data) } := by
  obtain ⟨i, mem, same, found⟩ := inv.of_use use
  obtain ⟨some, few⟩ := inv.counted.some i mem
  have less : ((ctx.item i).cnt + (2 ^ 32 - 1)) % 2 ^ 32 = (ctx.item i).cnt - 1 := by
    rw [show (ctx.item i).cnt + (2 ^ 32 - 1) = (ctx.item i).cnt - 1 + 2 ^ 32 by omega,
      Nat.add_mod_right, Nat.mod_eq_of_lt (by omega)]
  rw [same]
  simp only [mappingRemove, found, less]
  by_cases several : 1 < (ctx.item i).cnt
  · have stays : positive ((ctx.item i).cnt - 1) = true := by
      rw [positive, Bool.and_eq_true, decide_eq_true_eq, decide_eq_true_eq]
      omega
    rw [if_pos stays]
    exact release_inv inv mem several
  have last : (ctx.item i).cnt = 1 := by omega
  have goes : ¬ positive ((ctx.item i).cnt - 1) = true := by
    rw [last]
    decide
  rw [if_neg goes]
  unfold mappingFreeItem
  dsimp only
  cases delayed : ctx.delayedRemoval with
  | false =>
    rw [if_pos rfl]
    simp only [mappingRemoveAndFree, update_self]
    have freed := freeNow_inv inv ((ctx.item i).cnt - 1) mem last
    rw [delayed] at freed
    exact freed
  | true =>
    rw [if_neg (by decide)]
    simp only [update_self, update_idem]
    have waits := freeLater_inv inv ((ctx.item i).cnt - 1) mem last delayed
    rw [delayed] at waits
    exact waits

/-! ### The work -/

omit inv in
theorem scan_spec (kernel : Kernel) (ctx : MappingCtx Data) (items : List Nat) :
    (items.foldl (ctx.scanItem kernel) ([], [], 0)).1 = items.filter (fun i => !ctx.expired kernel i) ∧
      (items.foldl (ctx.scanItem kernel) ([], [], 0)).2.1 = (items.filter (ctx.expired kernel)).reverse ∧
      ((items.foldl (ctx.scanItem kernel) ([], [], 0)).2.2 = 0 →
        ∀ i ∈ items.filter (fun i => !ctx.expired kernel i),
          ∃ last ∈ (items.filter fun i => !ctx.expired kernel i).getLast?, (ctx.item last).timeout = 0) := by
  induction items using reverseRecOn with
  | nil => exact ⟨rfl, rfl, fun _ i member => by cases member⟩
  | append_singleton items i ih =>
    rw [foldl_append, foldl_cons, foldl_nil, filter_append, filter_append]
    generalize items.foldl (ctx.scanItem kernel) ([], [], 0) = scan at ih ⊢
    obtain ⟨stay, taken, zero⟩ := ih
    unfold scanItem
    dsimp only
    cases isExpired : ctx.expired kernel i with
    | true =>
      have goes : [i].filter (ctx.expired kernel) = [i] :=
        filter_cons_of_pos isExpired
      have none : [i].filter (fun i => !ctx.expired kernel i) = [] :=
        filter_cons_of_neg (by rw [isExpired]; decide)
      rw [if_pos rfl, goes, none, append_nil, reverse_append]
      exact ⟨stay, by rw [taken]; rfl, zero⟩
    | false =>
      have goes : [i].filter (ctx.expired kernel) = [] :=
        filter_cons_of_neg (by rw [isExpired]; decide)
      have one : [i].filter (fun i => !ctx.expired kernel i) = [i] :=
        filter_cons_of_pos (by rw [isExpired]; rfl)
      rw [if_neg (by decide), goes, one, append_nil, getLast?_concat]
      split
      · exact ⟨by rw [stay], taken, fun isZero _ _ => ⟨i, rfl, isZero⟩⟩
      · next set =>
        rw [Bool.or_eq_true, not_or, decide_eq_true_eq] at set
        exact ⟨by rw [stay], taken, fun isZero => absurd isZero set.1⟩

omit inv in
private theorem grace_lt (kernel : Kernel) : kernel.grace < 2 ^ (kernel.bits - 1) := by
  have slow := kernel.slow
  have wide := kernel.wide
  have half : 2 ^ 31 ≤ 2 ^ (kernel.bits - 1) := Nat.pow_le_pow_right (by decide) (by omega)
  unfold Kernel.grace
  omega

variable {drop : Drop Data}

omit inv in
theorem Timed.expired (timed : ctx.Timed kernel) (member : drop ∈ ctx.drops)
    (pending : drop.item ∈ ctx.pendingList) (isExpired : ctx.expired kernel drop.item = true) :
    drop.time + kernel.grace < ctx.clock := by
  by_contra early
  have before := (timed.dropped drop member).2.2.2
  have small := grace_lt kernel
  have wide := kernel.wide
  rw [MappingCtx.expired, timed.waiting drop member pending, jiffies,
    timeAfter_eq_false (by omega) (by omega) (by omega)] at isExpired
  cases isExpired

omit inv in
theorem Timed.expires (timed : ctx.Timed kernel) (member : drop ∈ ctx.drops)
    (pending : drop.item ∈ ctx.pendingList) (passed : drop.time + kernel.grace < ctx.clock)
    (near : ctx.clock ≤ drop.time + kernel.grace + 2 ^ (kernel.bits - 1)) :
    ctx.expired kernel drop.item = true := by
  have wide := kernel.wide
  rw [MappingCtx.expired, timed.waiting drop member pending, jiffies]
  exact timeAfter_eq_true (by omega) passed near

theorem work_inv (queued : ctx.queued = true) (idle : ctx.handler = none)
    (last : ∀ i ∈ (ctx.pendingList.filter fun i => !ctx.expired kernel i).getLast?,
      (ctx.item i).timeout ≠ 0) : Inv kernel (ctx.mappingWorkHandler kernel) := by
  obtain ⟨stay, taken, zero⟩ := scan_spec kernel ctx ctx.pendingList
  have noneTaken : ctx.taken = [] := by rw [MappingCtx.taken, idle]
  have pending : (ctx.mappingWorkHandler kernel).pendingList =
      ctx.pendingList.filter fun i => !ctx.expired kernel i := stay
  have nextTaken : (ctx.mappingWorkHandler kernel).taken =
      (ctx.pendingList.filter (ctx.expired kernel)).reverse := taken
  have split : ((ctx.pendingList.filter fun i => !ctx.expired kernel i) ++
      (ctx.pendingList.filter (ctx.expired kernel)).reverse).Perm ctx.pendingList :=
    ((reverse_perm _).append_left _).trans (perm_append_comm.trans (filter_append_perm _ _))
  have held : (ctx.mappingWorkHandler kernel).held.Perm ctx.held := by
    unfold MappingCtx.held
    rw [pending, nextTaken, noneTaken, append_nil]
    exact split.append_left ctx.ht
  exact
    { alive := inv.alive
      owned := (held.append_right _).trans inv.owned
      indexed := inv.indexed.congr (fun i => held.mem_iff) rfl (fun _ => rfl) rfl
      counted := inv.counted.congr rfl (fun _ _ => rfl) rfl
      timed :=
        { dropped := inv.timed.dropped
          waiting drop mem inNext := by
            rw [pending] at inNext
            exact inv.timed.waiting drop mem (mem_filter.mp inNext).1
          late drop mem notNext := by
            rw [pending, mem_filter, not_and] at notNext
            by_cases inPending : drop.item ∈ ctx.pendingList
            · refine inv.timed.expired mem inPending ?_
              simpa using notNext inPending
            · exact inv.timed.late drop mem inPending
          logged i inNext := by
            rw [pending] at inNext
            exact inv.timed.logged i (mem_filter.mp inNext).1 }
      awaited some := by
        refine .inr (.inr ⟨_, rfl, ?_⟩)
        intro isZero
        rw [pending] at some
        obtain ⟨i, mem⟩ := exists_mem_of_ne_nil _ some
        obtain ⟨item, isLast, itemZero⟩ := zero isZero i mem
        exact last item isLast itemZero
      immediate never := by
        have noWork := (inv.immediate never).2.2.1
        rw [queued] at noWork
        cases noWork }

theorem freeItem_inv {i minTimeout rest} (running : ctx.handler = some ⟨i :: rest, minTimeout⟩) :
    Inv kernel { ctx.mappingRemoveAndFree i with handler := some ⟨rest, minTimeout⟩ } := by
  have isTaken : ctx.taken = i :: rest := by rw [MappingCtx.taken, running]
  have split : ctx.held.Perm (i :: (ctx.ht ++ (ctx.pendingList ++ rest))) := by
    unfold MappingCtx.held
    rw [isTaken, ← append_assoc, ← append_assoc]
    exact perm_middle
  exact
    { alive := inv.alive
      owned := (perm_freed split).trans inv.owned
      indexed := inv.indexed.erase (nodup_append.mp inv.nodup).1 split rfl (fun _ => rfl) rfl
      counted := inv.counted.congr rfl (fun _ _ => rfl) rfl
      timed := inv.timed.congr rfl rfl le_rfl le_rfl (fun _ inHt _ => inHt) (fun _ _ => ⟨rfl, rfl⟩)
      awaited some := by
        rcases inv.awaited some with queued | scheduling | ⟨handler, isHandler, notZero⟩
        · exact .inl queued
        · exact .inr (.inl scheduling)
        · rw [running] at isHandler
          cases isHandler
          exact .inr (.inr ⟨_, rfl, notZero⟩)
      immediate never := by
        have noHandler := (inv.immediate never).2.1
        rw [running] at noHandler
        cases noHandler }

theorem rearm_inv {minTimeout} (running : ctx.handler = some ⟨[], minTimeout⟩) :
    Inv kernel { ctx with handler := none, queued := ctx.queued || minTimeout ≠ 0 } := by
  have isTaken : ctx.taken = [] := by rw [MappingCtx.taken, running]
  refine inv.of_same inv.alive ?_ rfl rfl rfl rfl rfl rfl rfl rfl rfl le_rfl ?_ ?_
  · unfold MappingCtx.held
    rw [isTaken]
    rfl
  · intro some
    rcases inv.awaited some with queued | scheduling | ⟨handler, isHandler, notZero⟩
    · exact .inl (by dsimp only; rw [queued]; rfl)
    · exact .inr (.inl scheduling)
    · rw [running] at isHandler
      cases isHandler
      exact .inl (by simpa using .inr notZero)
  · intro never
    have noHandler := (inv.immediate never).2.1
    rw [running] at noHandler
    cases noHandler

omit inv in
private theorem flush_fields (items) (ctx : MappingCtx Data) :
    (items.foldl mappingRemoveAndFree ctx).freed = ctx.freed ++ items ∧
      (items.foldl mappingRemoveAndFree ctx).nextItem = ctx.nextItem ∧
      (items.foldl mappingRemoveAndFree ctx).uses = ctx.uses := by
  induction items generalizing ctx with
  | nil => exact ⟨(append_nil _).symm, rfl, rfl⟩
  | cons i rest ih =>
    obtain ⟨freed, nextItem, uses⟩ := ih (ctx.mappingRemoveAndFree i)
    rw [foldl_cons]
    refine ⟨?_, nextItem, uses⟩
    rw [freed, mappingRemoveAndFree, append_assoc]
    rfl

private theorem destroy_destroyed (one : ctx.refcount = 1)
    (idle : ctx.handler = none) (unused : ctx.uses = []) : Destroyed ctx.mappingDestroy := by
  have empty : ctx.ht = [] := by
    refine eq_nil_iff_forall_not_mem.mpr ?_
    intro i mem
    have counts := inv.counted.counts i mem
    have some := (inv.counted.some i mem).1
    rw [unused, count_nil] at counts
    omega
  have pending : ctx.held = ctx.pendingList := by
    rw [MappingCtx.held, MappingCtx.taken, empty, idle, append_nil, nil_append]
  have owned := inv.owned
  rw [pending] at owned
  unfold mappingDestroy
  rw [if_neg (by omega)]
  cases delayed : ctx.delayedRemoval with
  | true =>
    obtain ⟨freed, nextItem, uses⟩ := flush_fields ctx.pendingList ctx
    refine ⟨rfl, uses.trans unused, fun _ => rfl, rfl, ?_⟩
    rw [if_pos rfl, freed, nextItem]
    exact perm_append_comm.trans owned
  | false =>
    refine ⟨rfl, unused, fun _ => rfl, rfl, ?_⟩
    rw [(inv.immediate delayed).1] at owned
    exact owned

omit inv

end MappingCtx

/-! ### Runs -/

open MappingCtx

/-- An item's count does not overflow; the last pending item the work leaves has no timeout of zero; nothing
is in use at the destruction. -/
def Proper (kernel : Kernel) (ctx : MappingCtx Data) : Move Data → Prop
  | .add data _ _ => ∀ i ∈ ctx.ht, (ctx.item i).data = data → (ctx.item i).cnt + 1 < 2 ^ 31
  | .work => ∀ i ∈ (ctx.pendingList.filter fun i => !ctx.expired kernel i).getLast?, (ctx.item i).timeout ≠ 0
  | .destroy => ctx.refcount = 1 → ctx.uses = []
  | _ => True

instance (kernel : Kernel) (ctx : MappingCtx Data) (move : Move Data) :
    Decidable (Proper kernel ctx move) :=
  match move with
  | .add _ _ _ | .work => inferInstanceAs (Decidable (∀ _ ∈ _, _))
  | .destroy => inferInstanceAs (Decidable (_ → _))
  | .tick _ | .createForId | .remove _ _ | .schedule | .freeItem | .rearm => isTrue trivial

inductive Reachable [Inhabited Data] (kernel : Kernel) (maxId : Nat) (delayedRemoval : Bool)
    (kind : MappingCtx Data → Move Data → Prop) : MappingCtx Data → Prop where
  | create (clock : Nat) : Reachable kernel maxId delayedRemoval kind (mappingCreate maxId delayedRemoval clock)
  | step {ctx next : MappingCtx Data} (move : Move Data)
      (reached : Reachable kernel maxId delayedRemoval kind ctx) (isKind : kind ctx move)
      (moved : step kernel ctx move = some next) :
      Reachable kernel maxId delayedRemoval kind next

theorem create_inv [Inhabited Data] (kernel maxId delayedRemoval clock) :
    Inv kernel (mappingCreate maxId delayedRemoval clock : MappingCtx Data) where
  alive := Nat.one_ne_zero
  owned := .refl _
  indexed := ⟨nofun, nofun⟩
  counted := ⟨nofun, nofun, nofun, nofun⟩
  timed := ⟨nofun, nofun, nofun, nofun⟩
  awaited some := absurd rfl some
  immediate _ := ⟨rfl, rfl, rfl, rfl⟩

variable {ctx next : MappingCtx Data}

theorem add_inv (inv : Inv kernel ctx) {data given index}
    (proper : Proper kernel ctx (.add data given index))
    (added : ctx.mappingAdd data given index = some next) : Inv kernel next := by
  unfold mappingAdd at added
  split at added
  · next i found =>
    cases added
    have member := mem_of_find?_eq_some found
    have sameData := find?_some found
    exact attach_inv inv member (proper i member (by simpa using sameData))
  next absent =>
  split at added
  · cases added
    exact inv
  split at added
  · cases added
    exact addFailed_inv inv
  split at added
  · next free =>
    cases added
    refine insert_inv inv ?_ free.1 free.2.1 free.2.2
    intro i member
    simpa using find?_eq_none.mp absent i member
  · cases added

theorem step_inv (inv : Inv kernel ctx) {move} (proper : Proper kernel ctx move)
    (moved : step kernel ctx move = some next) : Inv kernel next ∨ Destroyed next := by
  unfold step at moved
  rw [if_neg inv.alive] at moved
  cases move with
  | tick passed =>
    cases moved
    exact .inl (inv.of_same inv.alive rfl rfl rfl rfl rfl rfl rfl rfl rfl rfl
      (Nat.le_add_right _ _) inv.awaited inv.immediate)
  | createForId =>
    cases moved
    exact .inl (inv.of_same (Nat.succ_ne_zero _) rfl rfl rfl rfl rfl rfl rfl rfl rfl rfl
      le_rfl inv.awaited inv.immediate)
  | add data given index =>
    dsimp only at moved
    split at moved
    · cases moved
    · exact .inl (add_inv inv proper moved)
  | remove id data =>
    dsimp only at moved
    split at moved
    · cases moved
    · next admitted =>
      cases moved
      refine .inl (remove_inv inv ?_)
      by_contra unused
      exact admitted (by simp [unused])
  | schedule =>
    dsimp only at moved
    split at moved
    · next holds =>
      cases moved
      refine .inl (inv.of_same inv.alive rfl rfl rfl rfl rfl rfl rfl rfl rfl rfl
        le_rfl (fun _ => .inl rfl) ?_)
      intro never
      have free := (inv.immediate never).2.2.2
      rw [holds] at free
      cases free
    · cases moved
  | work =>
    dsimp only at moved
    split at moved
    · next ready =>
      cases moved
      rw [Bool.and_eq_true, isNone_iff_eq_none] at ready
      exact .inl (work_inv inv ready.1 ready.2 proper)
    · cases moved
  | freeItem =>
    dsimp only at moved
    split at moved
    · next running =>
      cases moved
      exact .inl (freeItem_inv inv running)
    · cases moved
  | rearm =>
    dsimp only at moved
    split at moved
    · next running =>
      cases moved
      exact .inl (rearm_inv inv running)
    · cases moved
  | destroy =>
    dsimp only at moved
    split at moved
    · cases moved
    next waited =>
    cases moved
    by_cases one : ctx.refcount = 1
    · refine .inr (destroy_destroyed inv one ?_ (proper one))
      by_contra busy
      exact waited (by simp [one, isSome_iff_ne_none.mpr busy])
    · have alive := inv.alive
      refine .inl ?_
      rw [mappingDestroy, if_pos (by omega)]
      exact inv.of_same (by dsimp only; omega) rfl rfl rfl rfl rfl rfl rfl rfl rfl rfl
        le_rfl inv.awaited inv.immediate

variable {delayedRemoval : Bool}

theorem reachable_inv [Inhabited Data] {maxId}
    (reached : Reachable kernel maxId delayedRemoval (Proper kernel) ctx) :
    Inv kernel ctx ∨ Destroyed ctx := by
  induction reached with
  | create clock => exact Or.inl (create_inv kernel maxId delayedRemoval clock)
  | step move _ proper moved ih =>
    rcases ih with inv | destroyed
    · exact step_inv inv proper moved
    · unfold Mapping.step at moved
      rw [if_pos destroyed.dead] at moved
      cases moved

/-! ### What the users see -/

/-- A number in use stands for its data, is the only one for them, and has its own count; numbers are in
range and of one item each; a dropped number keeps its data for the grace period and is not in use again
while its item waits; no item is freed twice or while it has a number, and all are in the end; and while
items wait the work will run, and takes each whose grace period passed. -/
structure Stable (kernel : Kernel) (ctx : MappingCtx Data) : Prop where
  resolves : ∀ id data, (id, data) ∈ ctx.uses → ctx.mappingFind id = some data
  single : ∀ id other data, (id, data) ∈ ctx.uses → (other, data) ∈ ctx.uses → id = other
  counted : ∀ id data, (id, data) ∈ ctx.uses →
    ∃ i, ctx.xarray id = some i ∧ (ctx.item i).cnt = ctx.uses.count (id, data)
  numbers : ∀ id i, ctx.xarray id = some i → 1 ≤ id ∧ id ≤ ctx.maxId ∧
    ∀ other, ctx.xarray other = some i → other = id
  kept : ctx.refcount ≠ 0 → ∀ drop ∈ ctx.drops, ctx.clock ≤ drop.time + kernel.grace →
    ctx.mappingFind drop.id = some drop.data ∧ ∀ data, (drop.id, data) ∉ ctx.uses
  apart : ∀ i ∈ ctx.pendingList, ∀ data, ((ctx.item i).id, data) ∉ ctx.uses
  freedOnce : ctx.freed.Nodup ∧ ∀ id i, ctx.xarray id = some i → i ∉ ctx.freed
  allFreed : ctx.refcount = 0 → ctx.freed.Perm (range ctx.nextItem)
  awaited : ctx.pendingList ≠ [] → ctx.Awaited
  frees : ∀ drop ∈ ctx.drops, drop.item ∈ ctx.pendingList → drop.time + kernel.grace < ctx.clock →
    ctx.clock ≤ drop.time + kernel.grace + 2 ^ (kernel.bits - 1) →
    ∀ next, step kernel ctx .work = some next → drop.item ∈ next.taken

private theorem pending_unused (inv : Inv kernel ctx) {i} (pending : i ∈ ctx.pendingList)
    (data) : ((ctx.item i).id, data) ∉ ctx.uses := by
  intro use
  obtain ⟨j, mem, -, found⟩ := inv.of_use use
  rw [inv.indexed.resolves i (mem_held_of_pending pending)] at found
  cases found
  exact (inv.not_pending mem).1 pending

theorem MappingCtx.Inv.stable (inv : Inv kernel ctx) : Stable kernel ctx where
  resolves id data use := by
    obtain ⟨i, -, same, found⟩ := inv.of_use use
    rw [mappingFind, found, map_some]
    exact congrArg some (congrArg snd same).symm
  single id other data use otherUse := by
    obtain ⟨i, mem, same, found⟩ := inv.of_use use
    obtain ⟨j, otherMember, otherSame, otherFound⟩ := inv.of_use otherUse
    have equal := inv.counted.dataOnce i mem j otherMember
      ((congrArg snd same).symm.trans (congrArg snd otherSame))
    rw [equal] at same
    exact congrArg fst (same.trans otherSame.symm)
  counted id data use := by
    obtain ⟨i, mem, same, found⟩ := inv.of_use use
    exact ⟨i, found, by rw [same]; exact inv.counted.counts i mem⟩
  numbers id i found := by
    obtain ⟨-, isId, bounds⟩ := inv.indexed.entries id i found
    refine ⟨bounds.1, bounds.2, ?_⟩
    intro other otherFound
    exact (inv.indexed.entries other i otherFound).2.1.symm.trans isId
  kept _ drop mem early := by
    have pending : drop.item ∈ ctx.pendingList := by
      by_contra gone
      have late := inv.timed.late drop mem gone
      omega
    have isKey := (inv.timed.dropped drop mem).2.2.1
    have isId : (ctx.item drop.item).id = drop.id := congrArg fst isKey
    refine ⟨?_, fun data => isId ▸ pending_unused inv pending data⟩
    have found := inv.indexed.resolves _ (mem_held_of_pending pending)
    rw [isId] at found
    rw [mappingFind, found, map_some]
    exact congrArg some (congrArg snd isKey)
  apart i pending data := pending_unused inv pending data
  freedOnce := by
    obtain ⟨-, once, apart⟩ := nodup_append.mp inv.nodup
    refine ⟨once, ?_⟩
    intro id i found isFreed
    exact apart i (inv.indexed.entries id i found).1 i isFreed rfl
  allFreed dead := absurd dead inv.alive
  awaited := inv.awaited
  frees drop mem pending passed near next moved := by
    have isExpired := inv.timed.expires mem pending passed near
    simp only [step, if_neg inv.alive] at moved
    split at moved
    · cases moved
      obtain ⟨-, taken, -⟩ := scan_spec kernel ctx ctx.pendingList
      have isTaken : (ctx.mappingWorkHandler kernel).taken =
          (ctx.pendingList.filter (ctx.expired kernel)).reverse := taken
      rw [isTaken, mem_reverse]
      exact mem_filter.mpr ⟨pending, isExpired⟩
    · cases moved

theorem MappingCtx.Destroyed.stable (destroyed : Destroyed ctx) : Stable kernel ctx where
  resolves id data use := by rw [destroyed.uses] at use; cases use
  single id other data use := by rw [destroyed.uses] at use; cases use
  counted id data use := by rw [destroyed.uses] at use; cases use
  numbers id i found := by rw [destroyed.xarray] at found; cases found
  kept alive := absurd destroyed.dead alive
  apart i pending := by rw [destroyed.pendingList] at pending; cases pending
  freedOnce := by
    refine ⟨destroyed.freed.nodup_iff.mpr nodup_range, ?_⟩
    intro id i found
    rw [destroyed.xarray] at found
    cases found
  allFreed _ := destroyed.freed
  awaited some := absurd destroyed.pendingList some
  frees drop _ pending := by rw [destroyed.pendingList] at pending; cases pending

/-- In every run of proper steps the mappings are stable. -/
theorem register_mappings_stable [Inhabited Data] (kernel : Kernel) (maxId : Nat)
    (delayedRemoval : Bool) (ctx : MappingCtx Data)
    (reached : Reachable kernel maxId delayedRemoval (Proper kernel) ctx) : Stable kernel ctx := by
  rcases reachable_inv reached with inv | destroyed
  · exact inv.stable
  · exact destroyed.stable

theorem Reachable.run [Inhabited Data] {maxId kind}
    {test} (reached : Reachable kernel maxId delayedRemoval kind ctx)
    (tests : ∀ ctx move, test ctx move = true → kind ctx move) (moves : List (Move Data))
    (moved : run kernel test ctx moves = some next) :
    Reachable kernel maxId delayedRemoval kind next := by
  induction moves generalizing ctx with
  | nil =>
    cases moved
    exact reached
  | cons move rest ih =>
    unfold Mapping.run at moved
    split at moved
    · next isKind =>
      obtain ⟨middle, first, rested⟩ := bind_eq_some_iff.mp moved
      exact ih (reached.step move (tests ctx move isKind) first) rested
    · cases moved

def narrowKernel : Kernel :=
  ⟨32, 1000, le_rfl, by decide⟩

/-- Dropped data get another number while the old one waits; both items are freed. -/
def againRun : List (Move Nat) :=
  [.add 5 true (some 1), .add 5 true none, .remove 1 5, .remove 1 5, .schedule, .tick 100,
    .add 5 true (some 2), .tick 1901, .work, .freeItem, .rearm, .remove 2 5, .schedule, .destroy]

theorem register_mappings_stable_again :
    ∃ ctx, run narrowKernel (fun ctx move => decide (Proper narrowKernel ctx move))
        (mappingCreate 0 true 7) againRun = some ctx ∧
      ctx.freed = [0, 1] ∧ Stable narrowKernel ctx := by
  have ends : (run narrowKernel (fun ctx move => decide (Proper narrowKernel ctx move))
      (mappingCreate 0 true 7) againRun).map MappingCtx.freed = some [0, 1] := by decide +kernel
  obtain ⟨ctx, moved, final⟩ := map_eq_some_iff.mp ends
  have start : Reachable narrowKernel 0 true (Proper narrowKernel)
      (mappingCreate 0 true 7 : MappingCtx Nat) := .create 7
  have reached := start.run (fun ctx move test => of_decide_eq_true test) againRun moved
  exact ⟨ctx, moved, final, register_mappings_stable _ _ _ _ reached⟩

/-- Two items are dropped in turn, the second 2000 jiffies before the wrap; the work takes the first when
its grace period has passed. -/
def wrapRun : List (Move Nat) :=
  [.add 5 true (some 1), .add 6 true (some 2), .remove 1 5, .schedule, .tick 1, .remove 2 6,
    .schedule, .tick 2000, .work, .freeItem, .rearm]

/-- The second item waits, and no work is scheduled. -/
theorem zero_timeout_unscheduled :
    ¬ ∀ (kernel : Kernel) (maxId : Nat) (delayedRemoval : Bool) (ctx : MappingCtx Nat),
      Reachable kernel maxId delayedRemoval (fun _ _ => True) ctx → Stable kernel ctx := by
  intro always
  have ends : ((run narrowKernel (fun _ _ => true) (mappingCreate 0 true (2 ^ 32 - 2001))
      wrapRun).map fun ctx => (ctx.pendingList, ctx.queued, ctx.scheduling, ctx.handler)) =
        some ([1], false, false, none) := by decide +kernel
  obtain ⟨ctx, moved, final⟩ := map_eq_some_iff.mp ends
  simp only [Prod.mk.injEq] at final
  obtain ⟨pending, queued, scheduling, handler⟩ := final
  have start : Reachable narrowKernel 0 true (fun _ _ => True)
      (mappingCreate 0 true (2 ^ 32 - 2001) : MappingCtx Nat) := .create _
  have reached := start.run (fun _ _ _ => trivial) wrapRun moved
  rcases (always _ _ _ _ reached).awaited (by rw [pending]; decide) with
    isQueued | isScheduling | ⟨running, isRunning, -⟩
  · rw [queued] at isQueued
    cases isQueued
  · rw [scheduling] at isScheduling
    cases isScheduling
  · rw [handler] at isRunning
    cases isRunning

end MlnxOfed.Mapping
