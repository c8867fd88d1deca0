/-
References to a command entry and the slots of the queue: what the functions that get and put references
leave.
-/

import MlnxOfed.Command.CmdEntries

namespace MlnxOfed.Command.Entries

open Option Function

variable {config : Config} {dev : Dev} {e : Nat}

def Ent.core (ent : Ent) : Ent :=
  { ent with refcnt := 0, idxFrees := 0, ret := 0, status := 0, cbTimeout := .idle }

@[simp]
theorem setEnt_self (dev : Dev) (e ent) : (dev.setEnt e ent).ents e = ent := update_self ..

theorem setEnt_other (dev : Dev) (ent : Ent) {e x} (other : x ≠ e) : (dev.setEnt e ent).ents x = dev.ents x :=
  update_of_ne other ..

/-- Everything but the entries, the slots' bits and the messages of the calls agrees. -/
structure SameSlots (dev after : Dev) : Prop where
  next : after.next = dev.next
  entArr : after.entArr = dev.entArr
  toComplete : after.toComplete = dev.toComplete
  toPut : after.toPut = dev.toPut

theorem SameSlots.rfl {dev} : SameSlots dev dev :=
  ⟨Eq.refl _, Eq.refl _, Eq.refl _, Eq.refl _⟩

theorem SameSlots.trans {dev middle after} (first : SameSlots dev middle)
    (second : SameSlots middle after) : SameSlots dev after :=
  ⟨second.next.trans first.next, second.entArr.trans first.entArr,
    second.toComplete.trans first.toComplete, second.toPut.trans first.toPut⟩

theorem setEnt_slots (dev e ent) : SameSlots dev (dev.setEnt e ent) := ⟨rfl, rfl, rfl, rfl⟩

theorem cmdEntPut_slots (dev e) : SameSlots dev (cmdEntPut dev e) := by
  unfold cmdEntPut
  dsimp only
  split
  · exact setEnt_slots ..
  · split <;> exact ⟨rfl, rfl, rfl, rfl⟩

@[simp]
theorem cmdEntPut_pagesSem (dev e) : (cmdEntPut dev e).pagesSem = dev.pagesSem := by
  unfold cmdEntPut
  dsimp only
  split
  · rfl
  · split <;> rfl

@[simp]
theorem cmdEntPut_calls (dev e) : (cmdEntPut dev e).calls = dev.calls := by
  unfold cmdEntPut
  dsimp only
  split
  · rfl
  · split <;> rfl

@[simp]
theorem cmdEntPut_caches (dev e) : (cmdEntPut dev e).caches = dev.caches := by
  unfold cmdEntPut
  dsimp only
  split
  · rfl
  · split <;> rfl

@[simp]
theorem cmdEntPut_numInflight (dev e) : (cmdEntPut dev e).numInflight = dev.numInflight := by
  unfold cmdEntPut
  dsimp only
  split
  · rfl
  · split <;> rfl

theorem cmdEntPut_other (dev) {e x} (other : x ≠ e) : (cmdEntPut dev e).ents x = dev.ents x := by
  unfold cmdEntPut
  dsimp only
  split
  · exact setEnt_other _ _ other
  · split
    · exact setEnt_other _ _ other
    · exact setEnt_other _ _ other

theorem cmdEntPut_self (dev e) : ∃ refcnt idxFrees,
      (cmdEntPut dev e).ents e = { dev.ents e with refcnt := refcnt, idxFrees := idxFrees } := by
  unfold cmdEntPut
  dsimp only
  split
  · exact ⟨_, _, setEnt_self ..⟩
  · split
    · exact ⟨_, _, setEnt_self ..⟩
    · exact ⟨_, _, setEnt_self ..⟩

/-! ### The references that are accounted for -/

def Ent.held (ent : Ent) : Bool :=
  if ent.callback then decide (ent.completions = 0) else ent.waiter

/-- The event's reference: the command is pending, its event undelivered or its work polls. -/
def Ent.awaited (ent : Ent) : Bool :=
  ent.pendingComp || ent.event || decide (ent.work = .polling)

def Ent.refs (ent : Ent) : Nat :=
  (if ent.held then 1 else 0) + (if ent.cbTimeout = .idle then 0 else 1) + (if ent.awaited then 1 else 0)

def Ent.early (ent : Ent) : Prop :=
  ent.work = .queued ∨ ent.work = .blocked

/-- The references that running `mlx5_cmd_trigger_completions` have to the entry. -/
def Dev.triggers (dev : Dev) (e : Nat) : Nat :=
  match (dev.ents e).idx with
  | some i => if dev.entArr i = some e then dev.toComplete i + dev.toPut i else 0
  | none => 0

/-- References and slots fit together; `spare` more references of the entry `e` are about to be put. -/
structure Referenced (config : Config) (dev : Dev) (e spare : Nat) : Prop where
  counted : ∀ x, (dev.ents x).refs + dev.triggers x + (if x = e then spare else 0) ≤ (dev.ents x).refcnt
  slot : ∀ x i, (dev.ents x).idx = some i → 0 < (dev.ents x).refcnt → i ≠ config.maxRegCmds →
    dev.entArr i = some x ∧ dev.bitmask i = false
  awaited : ∀ x, (dev.ents x).awaited = true → ∃ i, (dev.ents x).idx = some i ∧ dev.entArr i = some x
  used : ∀ i, dev.bitmask i = false → dev.entArr i = none ∨ ∃ x, dev.entArr i = some x ∧ 0 < (dev.ents x).refcnt
  placed : ∀ i x, dev.entArr i = some x → (dev.ents x).idx = some i
  triggered : ∀ i, 0 < dev.toComplete i + dev.toPut i → ∃ x, dev.entArr i = some x
  frees : ∀ x, (dev.ents x).idxFrees = if (dev.ents x).idx.isSome = true ∧ (dev.ents x).refcnt = 0 then 1 else 0
  early : ∀ x, (dev.ents x).early → (dev.ents x).idx = none ∧ (dev.ents x).held = true
  page : ∀ x i, (dev.ents x).idx = some i → (i = config.maxRegCmds ↔ (dev.ents x).pageQueue = true)
  events : ∀ x, (dev.ents x).event = true → config.mode = .events
  polls : ∀ x, (dev.ents x).work = .polling → (dev.ents x).polling = true ∨ config.mode = .polling
  fresh : ∀ x, dev.next ≤ x → dev.ents x = Ent.none

structure Ent.Keeps (config : Config) (old new : Ent) : Prop where
  idx : new.idx = old.idx
  refcnt : new.refcnt = old.refcnt
  idxFrees : new.idxFrees = old.idxFrees
  pageQueue : new.pageQueue = old.pageQueue
  awaited : new.awaited = true → old.awaited = true
  early : new.early → old.early ∧ new.held = true
  events : new.event = true → old.event = true
  polls : new.work = .polling → old.work = .polling ∧ new.polling = old.polling

private theorem setEnt_triggers (dev : Dev) {ent} (idx : ent.idx = (dev.ents e).idx) (x : Nat) :
    (dev.setEnt e ent).triggers x = dev.triggers x := by
  unfold Dev.triggers
  by_cases same : x = e
  · subst same
    rw [setEnt_self, idx]
    rfl
  · rw [setEnt_other dev ent same]
    rfl

theorem setEnt_each {ent} {p : Nat → Ent → Prop} (own : p e ent) (rest : ∀ x, p x (dev.ents x)) (x) :
    p x ((dev.setEnt e ent).ents x) :=
  (forall_update_iff _ p).mpr ⟨own, fun x _ => rest x⟩ x

theorem Referenced.setEnt {spare left} (referenced : Referenced config dev e spare)
    {ent} (born : e < dev.next) (keeps : (dev.ents e).Keeps config ent)
    (refs : ent.refs + left ≤ (dev.ents e).refs + spare) :
    Referenced config (dev.setEnt e ent) e left := by
  constructor
  case counted =>
    intro x
    rw [setEnt_triggers dev keeps.idx]
    have before := referenced.counted x
    by_cases same : x = e
    · subst same
      rw [setEnt_self, keeps.refcnt, if_pos rfl]
      rw [if_pos rfl] at before
      omega
    · rw [setEnt_other dev ent same, if_neg same]
      rw [if_neg same] at before
      exact before
  case slot =>
    refine setEnt_each (p := fun x ent => ∀ i, ent.idx = some i → 0 < ent.refcnt → i ≠ config.maxRegCmds →
      dev.entArr i = some x ∧ dev.bitmask i = false) ?_ referenced.slot
    rw [keeps.idx, keeps.refcnt]
    exact referenced.slot e
  case awaited =>
    refine setEnt_each (p := fun x ent => ent.awaited = true → ∃ i, ent.idx = some i ∧ dev.entArr i = some x)
      (fun awaited => ?_) referenced.awaited
    rw [keeps.idx]
    exact referenced.awaited e (keeps.awaited awaited)
  case used =>
    intro i clear
    obtain empty | ⟨x, there, live⟩ := referenced.used i clear
    · exact .inl empty
    refine .inr ⟨x, there, ?_⟩
    by_cases same : x = e
    · subst same
      rw [setEnt_self, keeps.refcnt]
      exact live
    · rw [setEnt_other dev ent same]
      exact live
  case placed =>
    have each := setEnt_each (p := fun x ent => ∀ i, dev.entArr i = some x → ent.idx = some i)
      (by rw [keeps.idx]; exact fun i => referenced.placed i e) fun x i => referenced.placed i x
    exact fun i x => each x i
  case triggered => exact referenced.triggered
  case frees =>
    refine setEnt_each (p := fun _ ent => ent.idxFrees =
      if ent.idx.isSome = true ∧ ent.refcnt = 0 then 1 else 0) ?_ referenced.frees
    rw [keeps.idx, keeps.refcnt, keeps.idxFrees]
    exact referenced.frees e
  case early =>
    refine setEnt_each (p := fun _ ent => ent.early → ent.idx = none ∧ ent.held = true) (fun early => ?_)
      referenced.early
    obtain ⟨before, held⟩ := keeps.early early
    rw [keeps.idx]
    exact ⟨(referenced.early e before).1, held⟩
  case page =>
    refine setEnt_each (p := fun _ ent => ∀ i, ent.idx = some i →
      (i = config.maxRegCmds ↔ ent.pageQueue = true)) ?_ referenced.page
    rw [keeps.idx, keeps.pageQueue]
    exact referenced.page e
  case events =>
    exact setEnt_each (p := fun _ ent => ent.event = true → config.mode = .events)
      (fun event => referenced.events e (keeps.events event)) referenced.events
  case polls =>
    refine setEnt_each (p := fun _ ent => ent.work = .polling → ent.polling = true ∨ config.mode = .polling)
      (fun polls => ?_) referenced.polls
    rw [(keeps.polls polls).2]
    exact referenced.polls e (keeps.polls polls).1
  case fresh =>
    intro x late
    have apart : x ≠ e := by
      change dev.next ≤ x at late
      omega
    rw [setEnt_other dev ent apart]
    exact referenced.fresh x late

variable {spare : Nat}

theorem Referenced.of_same {after} (referenced : Referenced config dev e spare)
    (slots : SameSlots dev after) (ents : after.ents = dev.ents)
    (bitmask : after.bitmask = dev.bitmask) : Referenced config after e spare := by
  obtain ⟨next, entArr, toComplete, toPut⟩ := slots
  cases after
  cases ents
  cases bitmask
  cases next
  cases entArr
  cases toComplete
  cases toPut
  exact { referenced with }

theorem Referenced.move (referenced : Referenced config dev e 0) (x) : Referenced config dev x 0 := by
  refine { referenced with counted := ?_ }
  intro y
  have before := referenced.counted y
  have none : (if y = e then 0 else 0) = 0 := by split <;> rfl
  rw [none] at before
  have none : (if y = x then 0 else 0) = 0 := by split <;> rfl
  rw [none]
  exact before

theorem Referenced.born (referenced : Referenced config dev e spare)
    (live : 0 < (dev.ents e).refcnt) : e < dev.next := by
  by_contra late
  rw [referenced.fresh e (Nat.le_of_not_lt late)] at live
  exact lt_irrefl 0 live

theorem cmdEntPut_many {dev} (many : (dev.ents e).refcnt ≠ 1) :
    cmdEntPut dev e = dev.setEnt e { dev.ents e with refcnt := (dev.ents e).refcnt - 1 } := by
  unfold cmdEntPut
  dsimp only
  rw [if_pos many]

theorem cmdEntPut_last_none {dev} (last : (dev.ents e).refcnt = 1) (idx : (dev.ents e).idx = none) :
    cmdEntPut dev e = dev.setEnt e { dev.ents e with refcnt := 0 } := by
  unfold cmdEntPut
  dsimp only
  rw [if_neg (not_not_intro last), idx]

theorem cmdEntPut_last {dev i} (last : (dev.ents e).refcnt = 1) (idx : (dev.ents e).idx = some i) :
    cmdEntPut dev e = { dev.setEnt e
          { dev.ents e with refcnt := 0, idxFrees := (dev.ents e).idxFrees + 1 } with
        bitmask := update dev.bitmask i true } := by
  unfold cmdEntPut
  dsimp only
  rw [if_neg (not_not_intro last), idx]

theorem cmdEntPut_core (dev e x) : ((cmdEntPut dev e).ents x).core = (dev.ents x).core := by
  by_cases same : x = e
  · subst same
    obtain ⟨refcnt, idxFrees, after⟩ := cmdEntPut_self dev x
    rw [after]
    rfl
  · rw [cmdEntPut_other dev same]

variable {left right : Ent}

theorem eq_of_core {α : Type} (f : Ent → α) (core : left.core = right.core)
    (blind : ∀ ent, f ent.core = f ent) : f left = f right := by
  rw [← blind left, ← blind right, core]

theorem refs_eq_of_core (core : left.core = right.core)
    (timer : left.cbTimeout = right.cbTimeout) : left.refs = right.refs := by
  unfold Ent.refs
  rw [eq_of_core Ent.held core fun _ => rfl, eq_of_core Ent.awaited core fun _ => rfl, timer]

theorem cmdEntPut_cbTimeout (dev e x) : ((cmdEntPut dev e).ents x).cbTimeout = (dev.ents x).cbTimeout := by
  by_cases same : x = e
  · subst same
    obtain ⟨refcnt, idxFrees, after⟩ := cmdEntPut_self dev x
    rw [after]
  · rw [cmdEntPut_other dev same]

private theorem cmdEntPut_triggers (dev e x) : (cmdEntPut dev e).triggers x = dev.triggers x := by
  have idx := eq_of_core Ent.idx (cmdEntPut_core dev e x) fun _ => rfl
  have slots := cmdEntPut_slots dev e
  unfold Dev.triggers
  rw [idx, slots.entArr, slots.toComplete, slots.toPut]

private theorem cmdEntPut_refcnt (dev e) : ((cmdEntPut dev e).ents e).refcnt = (dev.ents e).refcnt - 1 := by
  unfold cmdEntPut
  dsimp only
  split
  · rw [setEnt_self]
  rename_i last
  have one : (dev.ents e).refcnt = 1 := not_not.mp last
  split
  · rw [setEnt_self, one]
  · change ((dev.setEnt e _).ents e).refcnt = _
    rw [setEnt_self, one]

private theorem cmdEntPut_bitmask {dev i} (clear : (cmdEntPut dev e).bitmask i = false) :
    dev.bitmask i = false ∧ ¬((dev.ents e).refcnt = 1 ∧ (dev.ents e).idx = some i) := by
  by_cases last : (dev.ents e).refcnt = 1
  · cases slot : (dev.ents e).idx with
    | none =>
      rw [cmdEntPut_last_none last slot] at clear
      exact ⟨clear, fun both => by cases both.2⟩
    | some own =>
      rw [cmdEntPut_last last slot] at clear
      change update dev.bitmask own true i = false at clear
      by_cases same : i = own
      · rw [same, update_self] at clear
        cases clear
      · rw [update_of_ne same] at clear
        exact ⟨clear, fun both => same (some.inj both.2).symm⟩
  · rw [cmdEntPut_many last] at clear
    exact ⟨clear, fun both => last both.1⟩

private theorem cmdEntPut_idxFrees (dev e) : ((cmdEntPut dev e).ents e).idxFrees = (dev.ents e).idxFrees +
      if (dev.ents e).refcnt = 1 ∧ (dev.ents e).idx.isSome = true then 1 else 0 := by
  by_cases last : (dev.ents e).refcnt = 1
  · cases slot : (dev.ents e).idx with
    | none =>
      rw [cmdEntPut_last_none last slot, setEnt_self, if_neg (fun both => by cases both.2)]
      rfl
    | some own =>
      rw [cmdEntPut_last last slot, if_pos ⟨last, rfl⟩]
      rw [setEnt_self]
  · rw [cmdEntPut_many last, setEnt_self, if_neg (fun both => last both.1)]
    rfl

theorem Referenced.put (referenced : Referenced config dev e (spare + 1)) :
    Referenced config (cmdEntPut dev e) e spare := by
  have own := referenced.counted e
  rw [if_pos rfl] at own
  have live : 0 < (dev.ents e).refcnt := by omega
  have core := cmdEntPut_core dev e
  have idx (x : Nat) : ((cmdEntPut dev e).ents x).idx = (dev.ents x).idx :=
    eq_of_core Ent.idx (core x) fun _ => rfl
  have alive {x : Nat} (pos : 0 < ((cmdEntPut dev e).ents x).refcnt) :
      0 < (dev.ents x).refcnt := by
    by_cases same : x = e
    · rw [same]
      exact live
    · rw [cmdEntPut_other dev same] at pos
      exact pos
  have slots := cmdEntPut_slots dev e
  constructor
  case counted =>
    intro x
    rw [refs_eq_of_core (core x) (cmdEntPut_cbTimeout dev e x), cmdEntPut_triggers]
    have before := referenced.counted x
    by_cases same : x = e
    · subst same
      rw [if_pos rfl] at before ⊢
      rw [cmdEntPut_refcnt]
      omega
    · rw [if_neg same] at before ⊢
      rw [cmdEntPut_other dev same]
      exact before
  case slot =>
    intro x i atSlot pos regular
    rw [idx] at atSlot
    obtain ⟨there, clear⟩ := referenced.slot x i atSlot (alive pos) regular
    rw [slots.entArr]
    refine ⟨there, ?_⟩
    -- the freed slot is that of `e`, and no other live entry has it
    by_cases same : x = e
    · subst same
      rw [cmdEntPut_refcnt] at pos
      rw [cmdEntPut_many (by omega)]
      exact clear
    by_contra set
    have freed : (dev.ents e).idx = some i := by
      by_contra apart
      apply set
      unfold cmdEntPut
      dsimp only
      split
      · exact clear
      split
      · exact clear
      rename_i own found
      change update dev.bitmask own true i = false
      rw [update_of_ne ?_]
      · exact clear
      · intro equal
        rw [found, equal] at apart
        exact apart rfl
    have mine := (referenced.slot e i freed live regular).1
    rw [there] at mine
    exact same (some.inj mine)
  case awaited =>
    intro x awaited
    rw [idx, slots.entArr]
    apply referenced.awaited
    have same : ((cmdEntPut dev e).ents x).awaited = (dev.ents x).awaited :=
      eq_of_core Ent.awaited (core x) fun _ => rfl
    rw [← same]
    exact awaited
  case used =>
    intro i clear
    obtain ⟨before, notLast⟩ := cmdEntPut_bitmask clear
    rw [slots.entArr]
    obtain empty | ⟨x, there, pos⟩ := referenced.used i before
    · exact .inl empty
    refine .inr ⟨x, there, ?_⟩
    by_cases same : x = e
    · subst same
      rw [cmdEntPut_refcnt]
      have several : (dev.ents x).refcnt ≠ 1 := fun last => notLast ⟨last, referenced.placed i x there⟩
      omega
    · rw [cmdEntPut_other dev same]
      exact pos
  case placed =>
    intro i x there
    rw [slots.entArr] at there
    rw [idx]
    exact referenced.placed i x there
  case triggered =>
    rw [slots.entArr, slots.toComplete, slots.toPut]
    exact referenced.triggered
  case frees =>
    intro x
    by_cases same : x = e
    · subst same
      rw [cmdEntPut_idxFrees, cmdEntPut_refcnt, idx, referenced.frees x]
      have before : ¬((dev.ents x).idx.isSome = true ∧ (dev.ents x).refcnt = 0) := by
        intro both
        omega
      rw [if_neg before, zero_add]
      apply if_congr _ rfl rfl
      constructor
      · intro both
        exact ⟨both.2, by omega⟩
      · intro both
        exact ⟨by omega, both.1⟩
    · rw [cmdEntPut_other dev same]
      exact referenced.frees x
  case early =>
    intro x early
    have same : ((cmdEntPut dev e).ents x).held = (dev.ents x).held :=
      eq_of_core Ent.held (core x) fun _ => rfl
    have before : (dev.ents x).early := by
      have work : ((cmdEntPut dev e).ents x).work = (dev.ents x).work :=
        eq_of_core Ent.work (core x) fun _ => rfl
      unfold Ent.early at early ⊢
      rw [work] at early
      exact early
    rw [idx, same]
    exact referenced.early x before
  case page =>
    intro x i atSlot
    rw [idx] at atSlot
    have same : ((cmdEntPut dev e).ents x).pageQueue = (dev.ents x).pageQueue :=
      eq_of_core Ent.pageQueue (core x) fun _ => rfl
    rw [same]
    exact referenced.page x i atSlot
  case events =>
    intro x event
    have same : ((cmdEntPut dev e).ents x).event = (dev.ents x).event :=
      eq_of_core Ent.event (core x) fun _ => rfl
    rw [same] at event
    exact referenced.events x event
  case polls =>
    intro x polls
    have work : ((cmdEntPut dev e).ents x).work = (dev.ents x).work := eq_of_core Ent.work (core x) fun _ => rfl
    have flag : ((cmdEntPut dev e).ents x).polling = (dev.ents x).polling :=
      eq_of_core Ent.polling (core x) fun _ => rfl
    rw [work] at polls
    rw [flag]
    exact referenced.polls x polls
  case fresh =>
    intro x late
    rw [slots.next] at late
    have born := referenced.born live
    rw [cmdEntPut_other dev (by omega : x ≠ e)]
    exact referenced.fresh x late

end MlnxOfed.Command.Entries
