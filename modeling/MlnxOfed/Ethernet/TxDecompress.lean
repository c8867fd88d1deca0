/-
The transmit side expands a session in place: its slots then hold the plain entries of its completions with
the owner bits of their laps.
-/

import MlnxOfed.Ethernet.CqeEntries

namespace MlnxOfed.Ethernet

open Function List Lib

namespace TxCq

def txEntries (log : Nat) : EntryOf := fun session =>
  session.txEntry log

/-! ### Expanding a session -/

def expanded (title miniArr : CqeBytes) (wq : Cqwq) (idx cc : Nat) : CqeBytes :=
  let tmp := copyBytes title 44 miniArr (8 * idx + 4) 4
  let tmp := setOpOwn tmp (opOwn tmp &&& 0xf0)
  let tmp := setOpOwn tmp (opOwn tmp ||| UInt8.ofNat (0x01 &&& wq.getCtrWrapCnt cc))
  copyBytes tmp 60 miniArr (8 * idx) 2

private theorem expanded_eq {session : Session} {title : CqeBytes} {wq : Cqwq} {base index : Nat}
    (narrow : wq.logSz < 32) (opcode : opOwn title &&& 0xf0 = opOwn session.title &&& 0xf0)
    (other : ∀ b, b ≠ 63 → ¬ (44 ≤ b ∧ b < 48) → title b = session.title b) :
    expanded title (session.array (index / 8)) wq (index % 8) ((base + index) % 2 ^ 32) =
      session.txEntry wq.logSz base index := by
  have lap : UInt8.ofNat (0x01 &&& wq.getCtrWrapCnt ((base + index) % 2 ^ 32)) =
      UInt8.ofNat (ringLap wq.logSz (base + index)) := by
    rw [Nat.and_comm, Nat.and_one_is_mod]
    exact congrArg _ (counter_shift_lap narrow)
  have mini {byte : Nat} (small : byte < 8) :
      session.array (index / 8) (8 * (index % 8) + byte) = session.mini index byte := by
    unfold Session.array
    congr 1 <;> omega
  funext b
  unfold expanded
  simp only [lap, opOwn_setOpOwn]
  unfold Session.txEntry Session.opOwnAt copyBytes
  by_cases counter : 60 ≤ b ∧ b < 62
  · rw [if_pos (by omega), if_neg (by omega), if_neg (by omega), if_pos counter, mini (by omega)]
  rw [if_neg (by omega)]
  by_cases own : b = 63
  · rw [setOpOwn_apply, if_pos own, if_pos own, ← opcode]
    rfl
  rw [setOpOwn_apply, if_neg own, setOpOwn_apply, if_neg own, if_neg own, if_neg counter]
  by_cases bytes : 44 ≤ b ∧ b < 48
  · rw [if_pos (by omega), if_pos bytes, ← mini (show b - 40 < 8 by omega)]
    congr 1
    omega
  · rw [if_neg (by omega), if_neg bytes]
    exact other b own bytes

/-- A stretch of slots has been rewritten, the rest of the round is as it was. -/
structure Rewrote (wq : Cqwq) (low high : Nat) (content : Nat → CqeBytes) (after : Cqwq) : Prop where
  logSz : after.logSz = wq.logSz
  cc : after.cc = wq.cc
  inside : ∀ q, low ≤ q → q < high → after.slots (ringSlot wq.logSz q) = content q
  outside : ∀ q, high ≤ q → q < low + 2 ^ wq.logSz →
    after.slots (ringSlot wq.logSz q) = wq.slots (ringSlot wq.logSz q)

theorem Rewrote.trans {wq middle after low mid high content}
    (first : Rewrote wq low mid content middle) (second : Rewrote middle mid high content after)
    (order : low ≤ mid ∧ mid ≤ high) (fits : high ≤ low + 2 ^ wq.logSz) :
    Rewrote wq low high content after where
  logSz := second.logSz.trans first.logSz
  cc := second.cc.trans first.cc
  inside q above below := by
    rcases Nat.lt_or_ge q mid with early | late
    · -- written first, and a round above it lies past what is written next
      rw [← first.inside q above early, ← ringSlot_add_round wq.logSz q, ← first.logSz]
      exact second.outside _ (by rw [first.logSz]; omega) (by rw [first.logSz]; omega)
    · rw [← first.logSz]
      exact second.inside q late below
  outside q above below := by
    rw [← first.outside q (by omega) below, ← first.logSz]
    exact second.outside q above (by rw [first.logSz]; omega)

/-- What the title copied out of the ring still says of its session. -/
structure TitleOf (session : Session) (title : CqeBytes) : Prop where
  opcode : opOwn title &&& 0xf0 = opOwn session.title &&& 0xf0
  other : ∀ b, b ≠ 63 → ¬ (44 ≤ b ∧ b < 48) → title b = session.title b

private def putSlot (wq : Cqwq) (cc : Nat) (cqe : CqeBytes) : Cqwq :=
  { wq with slots := update wq.slots (wq.ctr2ix cc) cqe }

private theorem expandMinis_spec {session title wq}
    {base array idx steps} (narrow : wq.logSz < 32) (of : TitleOf session title)
    (oneArray : idx + steps ≤ 8) (fits : steps ≤ 2 ^ wq.logSz) :
    Rewrote wq (base + (8 * array + idx)) (base + (8 * array + idx) + steps)
      (fun q => session.txEntry wq.logSz base (q - base))
      (expandMinis title (session.array array) steps idx ((base + (8 * array + idx)) % 2 ^ 32) wq) := by
  induction steps generalizing idx wq with
  | zero =>
    exact {
      logSz := rfl
      cc := rfl
      inside q low high := absurd high (by omega)
      outside q low high := rfl }
  | succ steps ih =>
    have entry := @expanded_eq session title wq base (8 * array + idx) narrow of.opcode of.other
    have number : (8 * array + idx) / 8 = array ∧ (8 * array + idx) % 8 = idx := by omega
    rw [number.1, number.2] at entry
    have slot : wq.ctr2ix ((base + (8 * array + idx)) % 2 ^ 32) =
        ringSlot wq.logSz (base + (8 * array + idx)) :=
      counter_and_mask (le_of_lt narrow)
    generalize writtenEq : putSlot wq ((base + (8 * array + idx)) % 2 ^ 32)
      (session.txEntry wq.logSz base (8 * array + idx)) = written
    have first : Rewrote wq (base + (8 * array + idx)) (base + (8 * array + idx) + 1)
        (fun q => session.txEntry wq.logSz base (q - base)) written := by
      rw [← writtenEq]
      refine { logSz := rfl, cc := rfl, inside := ?_, outside := ?_ }
      · intro q low high
        have here : q = base + (8 * array + idx) := by omega
        simp only [putSlot, slot, here, Nat.add_sub_cancel_left]
        exact update_self _ _ _
      · intro q low high
        simp only [putSlot, slot]
        exact update_of_ne (ringSlot_ne (by omega) high).symm _ _
    have counter : ((base + (8 * array + idx)) % 2 ^ 32 + 1) % 2 ^ 32 =
        (base + (8 * array + (idx + 1))) % 2 ^ 32 := by
      rw [Nat.mod_add_mod]
      rfl
    have rest := @ih written (idx + 1) (by rw [first.logSz]; exact narrow) (by omega)
      (by rw [first.logSz]; exact Nat.le_of_succ_le fits)
    rw [first.logSz] at rest
    rw [expandMinis, counter]
    change Rewrote _ _ _ _ (expandMinis _ _ _ _ _ (putSlot wq _ (expanded _ _ wq _ _)))
    rw [entry, writtenEq]
    have ends : base + (8 * array + idx) + (steps + 1) = base + (8 * array + (idx + 1)) + steps := by omega
    rw [ends]
    exact first.trans rest (by omega) (by omega)

private theorem expandArrays_spec {session title wq}
    {base array left} (narrow : wq.logSz < 32) (of : TitleOf session title)
    (fits : session.count ≤ 2 ^ wq.logSz) (some : 0 < left)
    (count : session.count = 8 * array + left)
    (arrays : ∀ offset, 8 * array + 8 ≤ offset → offset < session.count → offset % 8 = 0 →
      wq.slots (ringSlot wq.logSz (base + offset)) = session.array (offset / 8)) :
    Rewrote wq (base + 8 * array) (base + session.count) (fun q => session.txEntry wq.logSz base (q - base))
      (expandArrays title (session.array array) left ((base + 8 * array) % 2 ^ 32) wq) := by
  induction left using Nat.strong_induction_on generalizing array wq with
  | h left ih =>
    rw [expandArrays]
    have once : max 1 (min left 8) = min left 8 := by omega
    have first := @expandMinis_spec session title wq base array 0 (min left 8) narrow of (by omega) (by omega)
    rw [add_zero] at first
    rw [once]
    generalize expandMinis title (session.array array) (min left 8) 0
      ((base + 8 * array) % 2 ^ 32) wq = written at first
    simp only
    split
    · have ends : base + session.count = base + 8 * array + min left 8 := by omega
      rw [ends]
      exact first
    have full : min left 8 = 8 := by omega
    rw [full] at first ⊢
    have counter : ((base + 8 * array) % 2 ^ 32 + 8) % 2 ^ 32 = (base + 8 * (array + 1)) % 2 ^ 32 := by
      rw [Nat.mod_add_mod]
      congr 1
    have kept {offset : Nat} (low : 8 * array + 8 ≤ offset) (high : offset < session.count) :
        written.slots (ringSlot wq.logSz (base + offset)) = wq.slots (ringSlot wq.logSz (base + offset)) :=
      first.outside _ (by omega) (by omega)
    have next : readCqeSlot written ((base + 8 * (array + 1)) % 2 ^ 32) = session.array (array + 1) := by
      unfold readCqeSlot Cqwq.ctr2ix
      rw [first.logSz, counter_and_mask (le_of_lt narrow), kept (by omega) (by omega),
        arrays _ (by omega) (by omega) (by omega)]
      congr 1
      omega
    rw [counter, next]
    have rest := @ih (left - 8) (by omega) written (array + 1) (by rw [first.logSz]; exact narrow)
      (by rw [first.logSz]; exact fits) (by omega) (by omega) (by
        rw [first.logSz]
        intro offset low high mini
        rw [kept (by omega) high]
        exact arrays offset (by omega) high mini)
    rw [first.logSz] at rest
    have middle : base + 8 * array + 8 = base + 8 * (array + 1) := by omega
    rw [middle] at first
    exact first.trans rest (by omega) (by omega)

/-! ### The poll -/

/-- Whole items are pending, a session already expanded counting as plain entries. -/
structure Pending (limit start : Nat) (tx : TxCq) (items : List CqItem) : Prop where
  ring : RingInv limit tx.ring (start + tx.acted.length)
  laid : Laid tx.ring.wq.logSz limit tx.ring.wq.slots (start + tx.acted.length) items
    tx.ring.produced
  sequence : tx.acted ++ entriesFrom tx.ring.wq.logSz (txEntries tx.ring.wq.logSz)
      (start + tx.acted.length) items =
    tx.ring.uncompressed (txEntries tx.ring.wq.logSz)

def plainItems (session : Session) (log base index count : Nat) : List CqItem :=
  (range' index count).map fun i => .plain (session.txEntry log base i)

theorem txEntry_stamped (session : Session) (log base index : Nat) :
    stampOwner log (base + index) (session.txEntry log base index) = session.txEntry log base index ∧
      mlx5GetCqeFormat (session.txEntry log base index) ≠ mlx5Compressed := by
  have own : opOwn (session.txEntry log base index) = session.opOwnAt log (base + index) := rfl
  constructor
  · funext b
    unfold stampOwner
    rw [setOpOwn_apply]
    by_cases here : b = 63
    · rw [if_pos here, here, own]
      exact forall_byte_lap (P := fun byte lap =>
        ((byte &&& 0xf0 ||| UInt8.ofNat lap) &&& 0xfe) ||| UInt8.ofNat lap =
          (byte &&& 0xf0) ||| UInt8.ofNat lap)
        (by decide +kernel) (by decide +kernel) _ _ _
    · rw [if_neg here]
  · unfold mlx5GetCqeFormat mlx5Compressed
    rw [own]
    exact forall_byte_lap (P := fun byte lap =>
      (((byte &&& 0xf0) ||| UInt8.ofNat lap) >>> 2) &&& (3 : UInt8) ≠ (3 : UInt8))
      (by decide +kernel) (by decide +kernel) _ _ _

private theorem plainItems_laid {limit log stop slots session base index count items}
    (written : ∀ i, index ≤ i → i < index + count →
      slots (ringSlot log (base + i)) = session.txEntry log base i)
    (laid : Laid log limit slots (base + (index + count)) items stop) :
    Laid log limit slots (base + index) (plainItems session log base index count ++ items) stop := by
  induction count generalizing index with
  | zero => exact laid
  | succ count ih =>
    have stamped := txEntry_stamped session log base index
    refine ⟨stamped.2, ?_, ?_⟩
    · exact (written index le_rfl (by omega)).trans stamped.1.symm
    · refine @ih (index + 1) (fun i low high => written i (by omega) (by omega)) ?_
      have ends : base + (index + 1 + count) = base + (index + (count + 1)) := by omega
      rw [ends]
      exact laid

private theorem plainItems_entries (session log base index count items) :
    entriesFrom log (txEntries log) (base + index) (plainItems session log base index count ++ items) =
      (range' index count).map (session.txEntry log base) ++
        entriesFrom log (txEntries log) (base + (index + count)) items := by
  induction count generalizing index with
  | zero => rfl
  | succ count ih =>
    have stamped := txEntry_stamped session log base index
    have rest := ih (index + 1)
    unfold plainItems entriesFrom at rest ⊢
    rw [range'_succ, map_cons, cons_append, placed, flatMap_cons, CqItem.entries]
    simp only [stamped.1, map_cons, cons_append, nil_append]
    congr 1
    have ends : base + (index + 1 + count) = base + (index + (count + 1)) := by omega
    rw [ends] at rest
    exact rest

section Poll

variable {limit start : Nat} {tx : TxCq} {items : List CqItem}

theorem Pending.expand {session}
    (pending : Pending limit start tx (.session session :: items)) (small : limit < 2 ^ 16) :
    Pending limit start
      { tx with ring := { tx.ring with wq := decompressCqes tx.ring.wq } }
      (plainItems session tx.ring.wq.logSz (start + tx.acted.length) 0 session.count ++ items) ∧
    (decompressCqes tx.ring.wq).logSz = tx.ring.wq.logSz := by
  obtain ⟨allowed, stands, later⟩ := pending.laid
  have inv := pending.ring
  have reach : start + tx.acted.length + session.count ≤ tx.ring.produced := later.le
  have room := inv.room
  have released := inv.released
  have two : 2 ≤ session.count := allowed.1
  have title : readCqeSlot tx.ring.wq tx.ring.wq.cc =
      session.titleSlot tx.ring.wq.logSz (start + tx.acted.length) := by
    unfold readCqeSlot
    rw [inv.cc, inv.ctr2ix]
    exact stands.1
  have array : readCqeSlot tx.ring.wq ((tx.ring.wq.cc + 1) % 2 ^ 32) = session.array 0 := by
    unfold readCqeSlot
    rw [inv.cc, Nat.mod_add_mod, inv.ctr2ix]
    exact stands.2 1 Nat.one_pos (lt_of_lt_of_le (by decide) two) (.inl rfl)
  have of : TitleOf session (session.titleSlot tx.ring.wq.logSz (start + tx.acted.length)) := {
    opcode := session.titleSlot_opcode _ _
    other b notOwn notCount := session.titleSlot_apply notOwn notCount }
  have rewrote : Rewrote tx.ring.wq (start + tx.acted.length) (start + tx.acted.length + session.count)
      (fun q => session.txEntry tx.ring.wq.logSz (start + tx.acted.length) (q - (start + tx.acted.length)))
      (decompressCqes tx.ring.wq) := by
    unfold decompressCqes
    simp only [title, array, session.titleSlot_count (lt_of_le_of_lt allowed.2.2 small)]
    rw [inv.cc]
    exact @expandArrays_spec session _ tx.ring.wq (start + tx.acted.length) 0 session.count
      inv.narrow of allowed.2.1 (by omega) (by omega) fun offset low high mini =>
        stands.2 offset (by omega) high (.inr mini)
  generalize decompressCqes tx.ring.wq = after at rewrote
  have inside (i : Nat) (below : i < session.count) :
      after.slots (ringSlot tx.ring.wq.logSz (start + tx.acted.length + i)) =
        session.txEntry tx.ring.wq.logSz (start + tx.acted.length) i := by
    have entry := rewrote.inside (start + tx.acted.length + i) (by omega) (by omega)
    simp only [Nat.add_sub_cancel_left] at entry
    exact entry
  refine ⟨⟨?_, ?_, ?_⟩, rewrote.logSz⟩
  · exact {
      narrow := by rw [rewrote.logSz]; exact inv.narrow
      cc := rewrote.cc.trans inv.cc
      released := inv.released
      consumed := inv.consumed
      room := by rw [rewrote.logSz]; exact inv.room
      stale := by
        rw [rewrote.logSz]
        intro q low high
        change tx.ring.produced ≤ q at low
        rw [rewrote.outside q (by omega) high]
        exact inv.stale q low high
      allowed := by rw [rewrote.logSz]; exact inv.allowed }
  · rw [rewrote.logSz]
    refine @plainItems_laid limit tx.ring.wq.logSz tx.ring.produced after.slots session
      (start + tx.acted.length) 0 session.count items (fun i _ below => inside i (by omega)) ?_
    rw [zero_add]
    exact later.congr fun q low high => rewrote.outside q low (by omega)
  · have sequence := pending.sequence
    have expanded := plainItems_entries session tx.ring.wq.logSz (start + tx.acted.length) 0
      session.count items
    have same : ({ tx.ring with wq := after } : CqRing).uncompressed (txEntries after.logSz) =
        tx.ring.uncompressed (txEntries tx.ring.wq.logSz) := by
      unfold CqRing.uncompressed
      rw [rewrote.logSz]
    rw [add_zero, zero_add] at expanded
    rw [same, rewrote.logSz, ← sequence]
    rw [expanded]
    unfold entriesFrom
    rw [placed, flatMap_cons, CqItem.entries, range_eq_range']
    rfl

theorem Pending.pops {cqe} (pending : Pending limit start tx (.plain cqe :: items)) : Pending limit start
      { ring := tx.ring.pop
        acted := tx.acted ++ [tx.ring.pop.wq.slots
          (ringSlot tx.ring.wq.logSz (start + tx.acted.length))] } items := by
  obtain ⟨ok, stands, later⟩ := pending.laid
  have entry : tx.ring.pop.wq.slots (ringSlot tx.ring.wq.logSz (start + tx.acted.length)) =
      stampOwner tx.ring.wq.logSz (start + tx.acted.length) cqe := stands
  have length (last : CqeBytes) : start + (tx.acted ++ [last]).length = start + tx.acted.length + 1 := by
    rw [length_append]
    rfl
  refine ⟨?_, ?_, ?_⟩
  · simp only [length]
    exact pending.ring.pop later.le stands.owner
  · simp only [length]
    exact later
  · have sequence := pending.sequence
    unfold entriesFrom placed at sequence
    rw [flatMap_cons, CqItem.entries] at sequence
    simp only [length, entry, append_assoc]
    exact sequence

theorem Pending.grow (pending : Pending limit start tx items) {after more}
    (grows : Grows limit tx.ring after more) (ring : RingInv limit after (start + tx.acted.length)) :
    Pending limit start { tx with ring := after } (items ++ more) := by
  have laid := pending.ring.laid_grow grows le_rfl pending.laid
  have counted := grows.uncompressed (txEntries tx.ring.wq.logSz) pending.laid
  refine ⟨ring, laid, ?_⟩
  simp only [grows.logSz]
  rw [counted.1, counted.2, ← append_assoc, pending.sequence]

theorem Pending.getCqe (pending : Pending limit start tx items) :
    ∃ more, Pending limit start { tx with ring := tx.ring.getCqe.2 } (items ++ more) ∧
      tx.ring.getCqe.1 = handedOver tx.ring.wq.logSz (start + tx.acted.length) (items ++ more) ∧
      tx.ring.getCqe.2.wq.logSz = tx.ring.wq.logSz := by
  obtain ⟨more, grows, ring⟩ := pending.ring.getCqe_grows
  have grown := pending.grow grows ring
  refine ⟨more, grown, ?_, grows.logSz⟩
  rw [← grows.logSz]
  exact ring.look grown.laid

theorem Pending.drained (pending : Pending limit start tx []) :
    tx.acted = tx.ring.uncompressed (txEntries tx.ring.wq.logSz) := by
  rw [← pending.sequence]
  exact (append_nil _).symm

structure PollDone (limit start budget : Nat) (tx result : TxCq) : Prop where
  inv : ∃ items, Pending limit start result items
  grew : tx.acted.length ≤ result.acted.length
  within : result.acted.length ≤ tx.acted.length + budget
  drained : result.acted.length < tx.acted.length + budget →
    result.acted = result.ring.uncompressed (txEntries tx.ring.wq.logSz)
  logSz : result.ring.wq.logSz = tx.ring.wq.logSz

def actOn (tx : TxCq) (wq : Cqwq) (ci : Nat) : TxCq :=
  { ring := ({ tx.ring with wq := wq } : CqRing).pop
    acted := tx.acted ++ [wq.slots ci] }

private theorem pollLoop_succ (steps ci tx) : TxCq.pollLoop (steps + 1) ci tx = if steps = 0 then
        tx.actOn (if mlx5GetCqeFormat (tx.ring.wq.slots ci) = mlx5Compressed then
          decompressCqes tx.ring.wq else tx.ring.wq) ci
      else
        match (tx.actOn (if mlx5GetCqeFormat (tx.ring.wq.slots ci) = mlx5Compressed then
            decompressCqes tx.ring.wq else tx.ring.wq) ci).ring.getCqe with
        | (none, ring) =>
          { tx.actOn (if mlx5GetCqeFormat (tx.ring.wq.slots ci) = mlx5Compressed then
            decompressCqes tx.ring.wq else tx.ring.wq) ci with ring := ring }
        | (some next, ring) =>
          TxCq.pollLoop steps next
            { tx.actOn (if mlx5GetCqeFormat (tx.ring.wq.slots ci) = mlx5Compressed then
              decompressCqes tx.ring.wq else tx.ring.wq) ci with ring := ring } :=
  rfl

theorem Pending.act {item} (pending : Pending limit start tx (item :: items)) (small : limit < 2 ^ 16) :
    ∃ wq rest, (if mlx5GetCqeFormat (tx.ring.wq.slots
            (ringSlot tx.ring.wq.logSz (start + tx.acted.length))) = mlx5Compressed then
          decompressCqes tx.ring.wq else tx.ring.wq) = wq ∧ wq.logSz = tx.ring.wq.logSz ∧
      Pending limit start (tx.actOn wq (ringSlot tx.ring.wq.logSz (start + tx.acted.length))) rest := by
  obtain ⟨ok, stands, later⟩ := pending.laid
  cases item with
  | plain cqe =>
    have entry : tx.ring.wq.slots (ringSlot tx.ring.wq.logSz (start + tx.acted.length)) =
        stampOwner tx.ring.wq.logSz (start + tx.acted.length) cqe := stands
    have format : ¬ mlx5GetCqeFormat (tx.ring.wq.slots
        (ringSlot tx.ring.wq.logSz (start + tx.acted.length))) = mlx5Compressed := by
      rw [entry, stampOwner_format]
      exact ok
    exact ⟨tx.ring.wq, items, if_neg format, rfl, pending.pops⟩
  | session session =>
    have format : mlx5GetCqeFormat (tx.ring.wq.slots
        (ringSlot tx.ring.wq.logSz (start + tx.acted.length))) = mlx5Compressed := by
      rw [stands.1]
      exact session.titleSlot_compressed _ _
    obtain ⟨expanded, logSz⟩ := pending.expand small
    obtain ⟨below, count⟩ := Nat.exists_eq_add_of_lt
      (show 0 < session.count from lt_of_lt_of_le Nat.zero_lt_two ok.1)
    unfold plainItems at expanded
    rw [count, range'_succ, map_cons, cons_append] at expanded
    have popped := expanded.pops
    simp only [logSz] at popped
    exact ⟨_, _, if_pos format, logSz, popped⟩

theorem Pending.pollLoop {steps item} (pending : Pending limit start tx (item :: items))
    (small : limit < 2 ^ 16) (pos : 0 < steps) :
    PollDone limit start steps tx
      (TxCq.pollLoop steps (ringSlot tx.ring.wq.logSz (start + tx.acted.length)) tx) := by
  induction steps generalizing tx item items with
  | zero => omega
  | succ steps ih =>
    obtain ⟨wq, rest, expanded, logSz, acted⟩ := pending.act small
    rw [pollLoop_succ, expanded]
    generalize nextEq : tx.actOn wq (ringSlot tx.ring.wq.logSz (start + tx.acted.length)) = next at acted
    have length : next.acted.length = tx.acted.length + 1 := by
      rw [← nextEq]
      exact length_append
    have size : next.ring.wq.logSz = tx.ring.wq.logSz := by
      rw [← nextEq]
      exact logSz
    split_ifs with last
    · exact {
        inv := ⟨rest, acted⟩
        grew := by omega
        within := by omega
        drained short := absurd short (by omega)
        logSz := size }
    obtain ⟨more, after, found, grown⟩ := acted.getCqe
    rw [show next.ring.getCqe = (next.ring.getCqe.1, next.ring.getCqe.2) from rfl]
    cases left : rest ++ more with
    | nil =>
      rw [left] at found after
      simp only [found, handedOver]
      exact {
        inv := ⟨[], after⟩
        grew := by simp only; omega
        within := by simp only; omega
        drained _ := by
          rw [← size, ← grown]
          exact after.drained
        logSz := grown.trans size }
    | cons head tail =>
      rw [left] at found after
      simp only [found, handedOver, size]
      have done := ih after (Nat.pos_of_ne_zero last)
      simp only [grown, size] at done
      have grew := done.grew
      have within := done.within
      simp only at grew within
      exact {
        inv := done.inv
        grew := by omega
        within := by omega
        drained short := by
          have drained := done.drained (by simp only; omega)
          simp only [grown, size] at drained
          exact drained
        logSz := by
          have same := done.logSz
          simp only [grown, size] at same
          exact same }

theorem Pending.pollTxCq (pending : Pending limit start tx items) (small : limit < 2 ^ 16) :
    PollDone limit start txCqPollBudget tx (TxCq.pollTxCq true tx) := by
  obtain ⟨more, after, found, grown⟩ := pending.getCqe
  unfold TxCq.pollTxCq
  rw [Bool.not_true, if_neg Bool.false_ne_true,
    show tx.ring.getCqe = (tx.ring.getCqe.1, tx.ring.getCqe.2) from rfl]
  cases left : items ++ more with
  | nil =>
    rw [left] at found after
    simp only [found, handedOver]
    exact {
      inv := ⟨[], after⟩
      grew := le_rfl
      within := Nat.le_add_right _ _
      drained _ := by
        rw [← grown]
        exact after.drained
      logSz := grown }
  | cons head tail =>
    rw [left] at found after
    simp only [found, handedOver]
    have done := after.pollLoop small (show 0 < txCqPollBudget by decide)
    simp only [grown] at done
    obtain ⟨rest, last⟩ := done.inv
    have drained := done.drained
    have logSz := done.logSz
    simp only [grown] at drained logSz
    exact {
      inv := ⟨rest, { last with ring := last.ring.updateDbRecord }⟩
      grew := done.grew
      within := done.within
      drained := drained
      logSz := logSz }

end Poll

end TxCq

end MlnxOfed.Ethernet
