/-
The entries of a completion queue without compression, and the layout of a queue in use: from the consumer
position to the device's, whole items in order; from there on for the rest of the round, slots with the
owner bit of the lap before.
-/

import MlnxOfed.Ethernet.CqeDecompress

namespace MlnxOfed.Ethernet

open Function List Lib

namespace Session

def opOwnAt (session : Session) (log position : Nat) : UInt8 :=
  (opOwn session.title &&& 0xf0) ||| UInt8.ofNat (ringLap log position)

def strides (session : Session) (index : Nat) : Nat :=
  0x7fff &&& be16 (session.mini index) 4

/-- A completion's counter where mini entries have none: strides from the title's on, or the next entry of a
cyclic work queue. -/
def counter (session : Session) (rq : RqParams) (index : Nat) : Nat :=
  if rq.stridingRq then
    (be16 session.title 60 + ((range index).map session.strides).sum) % 2 ^ 16
  else if index = 0 then be16 session.title 60
  else (be16 session.title 60 + index) % 2 ^ min rq.wqLogSz 16

/-- The completion `index` of a received session: byte count, checksum and counter or stride index of its
mini entry over the title, the hash on the first only. -/
def rxEntry (session : Session) (rq : RqParams) (log base index : Nat) : CqeBytes := fun b =>
  if b = 63 then session.opOwnAt log (base + index)
  else if 44 ≤ b ∧ b < 48 then session.mini index (b - 40)
  else if 20 ≤ b ∧ b < 22 then session.mini index (b - 20)
  else if 60 ≤ b ∧ b < 62 then
    if rq.miniCqeHwStridx then session.mini index (b - 58)
    else if b = 60 then UInt8.ofNat (session.counter rq index / 256)
    else UInt8.ofNat (session.counter rq index)
  else if (12 ≤ b ∧ b < 17) ∧ index ≠ 0 then 0
  else session.title b

/-- The completion `index` of a transmit session: byte count and counter of its mini entry over the title.
-/
def txEntry (session : Session) (log base index : Nat) : CqeBytes := fun b =>
  if b = 63 then session.opOwnAt log (base + index)
  else if 44 ≤ b ∧ b < 48 then session.mini index (b - 40)
  else if 60 ≤ b ∧ b < 62 then session.mini index (b - 60)
  else session.title b

end Session

/-- A completion of a session on one side of the driver, by position and index. -/
abbrev EntryOf := Session → Nat → Nat → CqeBytes

def CqItem.entries (log : Nat) (entry : EntryOf) (position : Nat) : CqItem → List CqeBytes
  | plain cqe => [stampOwner log position cqe]
  | session s => (range s.count).map (entry s position)

def CqRing.uncompressed (ring : CqRing) (entry : EntryOf) : List CqeBytes :=
  ring.written.flatMap fun item => item.2.entries ring.wq.logSz entry item.1

theorem forall_byte_lap {P : UInt8 → Nat → Prop}
    (even : ∀ value : Fin 256, P (UInt8.ofBitVec (BitVec.ofFin value)) 0)
    (odd : ∀ value : Fin 256, P (UInt8.ofBitVec (BitVec.ofFin value)) 1)
    (byte log pos) : P byte (ringLap log pos) := by
  have bit := ringLap_lt log pos
  generalize ringLap log pos = lap at bit
  obtain rfl | rfl : lap = 0 ∨ lap = 1 := by omega
  · exact even byte.toBitVec.toFin
  · exact odd byte.toBitVec.toFin

@[simp] theorem opOwn_setOpOwn (cqe value) : opOwn (setOpOwn cqe value) = value := by
  unfold opOwn setOpOwn
  exact update_self _ _ _

theorem setOpOwn_apply (cqe value b) : setOpOwn cqe value b = if b = 63 then value else cqe b :=
  update_apply _ _ _ _

private theorem stampOwner_owner (log position cqe) :
    cqeOwner (stampOwner log position cqe) = ringLap log position := by
  unfold cqeOwner stampOwner
  rw [opOwn_setOpOwn]
  exact forall_byte_lap (P := fun byte lap =>
    ((byte &&& 0xfe) ||| UInt8.ofNat lap).toNat &&& 1 = lap)
    (by decide +kernel) (by decide +kernel) _ _ _

theorem stampOwner_format (log pos cqe) :
    mlx5GetCqeFormat (stampOwner log pos cqe) = mlx5GetCqeFormat cqe := by
  unfold mlx5GetCqeFormat stampOwner
  rw [opOwn_setOpOwn]
  exact forall_byte_lap (P := fun byte lap =>
    (((byte &&& 0xfe) ||| UInt8.ofNat lap) >>> 2) &&& (3 : UInt8) = (byte >>> 2) &&& (3 : UInt8))
    (by decide +kernel) (by decide +kernel) _ _ _

namespace Session

variable (session : Session)

private theorem titleSlot_owner (log position) :
    cqeOwner (session.titleSlot log position) = ringLap log position := by
  unfold cqeOwner titleSlot
  rw [opOwn_setOpOwn]
  exact forall_byte_lap (P := fun byte lap =>
    ((byte &&& 0xf0) ||| 0x0c ||| UInt8.ofNat lap).toNat &&& 1 = lap)
    (by decide +kernel) (by decide +kernel) _ _ _

theorem titleSlot_compressed (log pos) : mlx5GetCqeFormat (session.titleSlot log pos) = mlx5Compressed := by
  unfold mlx5GetCqeFormat titleSlot mlx5Compressed
  rw [opOwn_setOpOwn]
  exact forall_byte_lap (P := fun byte lap =>
    (((byte &&& 0xf0) ||| 0x0c ||| UInt8.ofNat lap) >>> 2) &&& (3 : UInt8) = (3 : UInt8))
    (by decide +kernel) (by decide +kernel) _ _ _

theorem titleSlot_opcode (log pos) :
    opOwn (session.titleSlot log pos) &&& 0xf0 = opOwn session.title &&& 0xf0 := by
  unfold titleSlot
  rw [opOwn_setOpOwn]
  exact forall_byte_lap (P := fun byte lap =>
    ((byte &&& 0xf0) ||| 0x0c ||| UInt8.ofNat lap) &&& 0xf0 = byte &&& 0xf0)
    (by decide +kernel) (by decide +kernel) _ _ _

theorem titleSlot_count {log pos} (small : session.count < 2 ^ 16) :
    be32 (session.titleSlot log pos) 44 % 2 ^ 16 = session.count := by
  have high : session.count / 65536 = 0 := by omega
  unfold be32 be16 titleSlot
  simp only [setOpOwn_apply, putBe32, putBe16, high]
  simp
  omega

theorem titleSlot_apply {log pos b} (other : b ≠ 63)
    (notCount : ¬ (44 ≤ b ∧ b < 48)) : session.titleSlot log pos b = session.title b := by
  unfold titleSlot putBe32 putBe16
  rw [setOpOwn_apply, if_neg other, if_neg (by omega), if_neg (by omega), if_neg (by omega), if_neg (by omega)]

end Session

def ItemAt (log : Nat) (slots : Nat → CqeBytes) (position : Nat) : CqItem → Prop
  | .plain cqe => slots (ringSlot log position) = stampOwner log position cqe
  | .session s =>
    slots (ringSlot log position) = s.titleSlot log position ∧
    ∀ offset, 0 < offset → offset < s.count → offset = 1 ∨ offset % 8 = 0 →
      slots (ringSlot log (position + offset)) = s.array (offset / 8)

def Laid (log limit : Nat) (slots : Nat → CqeBytes) : Nat → List CqItem → Nat → Prop
  | position, [], stop => position = stop
  | position, item :: rest, stop =>
    item.Allowed log limit ∧ ItemAt log slots position item ∧
      Laid log limit slots (position + item.slots) rest stop

def placed : Nat → List CqItem → List (Nat × CqItem)
  | _, [] => []
  | position, item :: rest => (position, item) :: placed (position + item.slots) rest

def entriesFrom (log : Nat) (entry : EntryOf) (position : Nat) (items : List CqItem) : List CqeBytes :=
  (placed position items).flatMap fun item => item.2.entries log entry item.1

section Layout

variable {log limit : Nat} {slots slots' : Nat → CqeBytes} {item : CqItem}

theorem CqItem.Allowed.slots_pos (ok : item.Allowed log limit) : 0 < item.slots := by
  cases item with
  | plain cqe => exact Nat.one_pos
  | session s => exact lt_of_lt_of_le (by decide) ok.1

theorem CqItem.Allowed.slots_le (ok : item.Allowed log limit) : item.slots ≤ 2 ^ log := by
  cases item with
  | plain cqe => exact Nat.one_le_two_pow
  | session s => exact ok.2.1

theorem ItemAt.congr {pos} (ok : item.Allowed log limit) (stands : ItemAt log slots pos item)
    (same : ∀ q, pos ≤ q → q < pos + item.slots →
      slots' (ringSlot log q) = slots (ringSlot log q)) : ItemAt log slots' pos item := by
  have positive := ok.slots_pos
  cases item with
  | plain cqe => exact (same pos le_rfl (by omega)).trans stands
  | session s =>
    refine ⟨(same pos le_rfl (by omega)).trans stands.1, ?_⟩
    intro offset after inside mini
    rw [same (pos + offset) (by omega) (Nat.add_lt_add_left inside _)]
    exact stands.2 offset after inside mini

theorem Laid.le {pos stop items}
    (laid : Laid log limit slots pos items stop) : pos ≤ stop := by
  induction items generalizing pos with
  | nil => exact le_of_eq laid
  | cons item rest ih => exact le_trans (Nat.le_add_right _ _) (ih laid.2.2)

theorem Laid.congr {pos stop items} (laid : Laid log limit slots pos items stop)
    (same : ∀ q, pos ≤ q → q < stop → slots' (ringSlot log q) = slots (ringSlot log q)) :
    Laid log limit slots' pos items stop := by
  induction items generalizing pos with
  | nil => exact laid
  | cons item rest ih =>
    obtain ⟨ok, stands, later⟩ := laid
    have reach := later.le
    refine ⟨ok, stands.congr ok fun q low high => same q low (by omega), ?_⟩
    exact ih later fun q low high => same q (by omega) high

theorem Laid.append {pos middle stop items more}
    (laid : Laid log limit slots pos items middle) (laidMore : Laid log limit slots middle more stop) :
    Laid log limit slots pos (items ++ more) stop := by
  induction items generalizing pos with
  | nil =>
    have start : pos = middle := laid
    rw [start]
    exact laidMore
  | cons item rest ih => exact ⟨laid.1, laid.2.1, ih laid.2.2⟩

theorem placed_append {pos middle items more} (laid : Laid log limit slots pos items middle) :
    placed pos (items ++ more) = placed pos items ++ placed middle more := by
  induction items generalizing pos with
  | nil =>
    have start : pos = middle := laid
    rw [start]
    rfl
  | cons item rest ih =>
    rw [cons_append, placed, placed, cons_append, ih laid.2.2]

end Layout

/-- The device has written some items since an earlier state of the queue. -/
structure Grows (limit : Nat) (before after : CqRing) (items : List CqItem) : Prop where
  logSz : after.wq.logSz = before.wq.logSz
  cc : after.wq.cc = before.wq.cc
  released : after.released = before.released
  grow : before.produced ≤ after.produced
  room : before.produced ≤ before.released + 2 ^ before.wq.logSz →
    after.produced ≤ before.released + 2 ^ before.wq.logSz
  laid : Laid before.wq.logSz limit after.wq.slots before.produced items after.produced
  keep : ∀ q, after.produced ≤ q → q < before.produced + 2 ^ before.wq.logSz →
    after.wq.slots (ringSlot before.wq.logSz q) = before.wq.slots (ringSlot before.wq.logSz q)
  written : after.written = before.written ++ placed before.produced items

section Grows

variable {limit : Nat} {before middle after : CqRing}

theorem Grows.refl (limit ring) : Grows limit ring ring [] where
  logSz := rfl
  cc := rfl
  released := rfl
  grow := le_rfl
  room := id
  laid := rfl
  keep _ _ _ := rfl
  written := (append_nil _).symm

theorem Grows.keep_pending {items} (grows : Grows limit old after items)
    (space : old.produced ≤ old.released + 2 ^ old.wq.logSz) {q}
    (low : old.released ≤ q) (high : q < old.produced) :
    after.wq.slots (ringSlot old.wq.logSz q) = old.wq.slots (ringSlot old.wq.logSz q) := by
  have room := grows.room space
  rw [← ringSlot_add_round]
  exact grows.keep (q + 2 ^ old.wq.logSz) (by omega) (by omega)

theorem Grows.trans {items more} (first : Grows limit old middle items)
    (second : Grows limit middle after more) (space : old.produced ≤ old.released + 2 ^ old.wq.logSz)
    (ordered : old.released ≤ old.produced) :
    Grows limit old after (items ++ more) := by
  have spaceMiddle : middle.produced ≤ middle.released + 2 ^ middle.wq.logSz := by
    rw [first.released, first.logSz]
    exact first.room space
  have growFirst := first.grow
  have growSecond := second.grow
  have roomSecond := second.room spaceMiddle
  rw [first.released, first.logSz] at roomSecond
  have laidFirst : Laid old.wq.logSz limit after.wq.slots old.produced items
      middle.produced := by
    refine first.laid.congr ?_
    intro q low high
    rw [← first.logSz]
    refine second.keep_pending spaceMiddle ?_ high
    rw [first.released]
    omega
  have laidSecond := second.laid
  rw [first.logSz] at laidSecond
  exact {
    logSz := second.logSz.trans first.logSz
    cc := second.cc.trans first.cc
    released := second.released.trans first.released
    grow := le_trans growFirst growSecond
    room _ := roomSecond
    laid := laidFirst.append laidSecond
    keep q low high := by
      rw [← first.keep q (by omega) high, ← first.logSz]
      exact second.keep q low (by rw [first.logSz]; omega)
    written := by rw [second.written, first.written, placed_append laidFirst, append_assoc] }

theorem CqRing.write_grows (ring) {item} (ok : item.Allowed ring.wq.logSz limit) :
    ∃ items, Grows limit ring (ring.write item) items := by
  unfold CqRing.write
  split
  · rename_i space
    have fits := ok.slots_le
    have inside offset (below : offset < item.slots) : writeRing ring.wq.logSz ring.wq.slots ring.produced
        item.slots (item.slotAt ring.wq.logSz ring.produced) (ringSlot ring.wq.logSz (ring.produced + offset))
        = item.slotAt ring.wq.logSz ring.produced offset (ring.wq.slots (ringSlot ring.wq.logSz
        (ring.produced + offset))) := writeRing_inside below fits
    have stands : ItemAt ring.wq.logSz (writeRing ring.wq.logSz ring.wq.slots ring.produced
        item.slots (item.slotAt ring.wq.logSz ring.produced)) ring.produced item := by
      cases item with
      | plain cqe => exact inside 0 Nat.one_pos
      | session s =>
        have first := inside 0 (lt_of_lt_of_le (by decide) ok.1)
        refine ⟨first, ?_⟩
        intro offset after below mini
        rw [inside offset below]
        change s.slotAt _ _ _ _ = _
        unfold Session.slotAt
        rw [if_neg (by omega), if_pos mini]
    exact ⟨[item], {
      logSz := rfl
      cc := rfl
      released := rfl
      grow := Nat.le_add_right _ _
      room _ := space
      laid := ⟨ok, stands, rfl⟩
      keep q low high := writeRing_outside low high
      written := rfl }⟩
  · exact ⟨[], Grows.refl limit ring⟩

theorem CqRing.writeAll_grows (ring) {batch} (ok : ∀ item ∈ batch, item.Allowed ring.wq.logSz limit)
    (space : ring.produced ≤ ring.released + 2 ^ ring.wq.logSz) (ordered : ring.released ≤ ring.produced) :
    ∃ items, Grows limit ring (ring.writeAll batch) items := by
  induction batch generalizing ring with
  | nil => exact ⟨[], Grows.refl limit ring⟩
  | cons item rest ih =>
    rw [forall_mem_cons] at ok
    obtain ⟨first, growsFirst⟩ := ring.write_grows ok.1
    have grow := growsFirst.grow
    obtain ⟨later, growsLater⟩ := ih (ring.write item) (by rw [growsFirst.logSz]; exact ok.2)
      (by rw [growsFirst.released, growsFirst.logSz]; exact growsFirst.room space)
      (by rw [growsFirst.released]; omega)
    exact ⟨first ++ later, growsFirst.trans growsLater space ordered⟩

end Grows

/-! ### The driver's view -/

/-- The queue with the driver at a position: the counter holds it, what is not given back fits the ring, and
from the device's position on the slots of the round are stale. -/
structure RingInv (limit : Nat) (ring : CqRing) (position : Nat) : Prop where
  narrow : ring.wq.logSz < 32
  cc : ring.wq.cc = position % 2 ^ 32
  released : ring.released ≤ position
  consumed : position ≤ ring.produced
  room : ring.produced ≤ ring.released + 2 ^ ring.wq.logSz
  stale : ∀ q, ring.produced ≤ q → q < position + 2 ^ ring.wq.logSz →
    cqeOwner (ring.wq.slots (ringSlot ring.wq.logSz q)) ≠ ringLap ring.wq.logSz q
  allowed : ∀ batch ∈ ring.arrivals, ∀ item ∈ batch, item.Allowed ring.wq.logSz limit

section Driver

variable {limit : Nat} {ring : CqRing} {position : Nat}

variable (inv : RingInv limit ring position)

include inv

theorem RingInv.ctr2ix (q) : ring.wq.ctr2ix (q % 2 ^ 32) = ringSlot ring.wq.logSz q :=
  counter_and_mask (le_of_lt inv.narrow)

theorem RingInv.wrapCnt (q) : ring.wq.getCtrWrapCnt (q % 2 ^ 32) &&& 1 = ringLap ring.wq.logSz q := by
  rw [Nat.and_one_is_mod]
  exact counter_shift_lap inv.narrow

omit inv in
theorem ItemAt.owner {log slots item} (stands : ItemAt log slots position item) :
    cqeOwner (slots (ringSlot log position)) = ringLap log position := by
  cases item with
  | plain cqe =>
    have plain : slots (ringSlot log position) = stampOwner log position cqe := stands
    rw [plain, stampOwner_owner]
  | session s => rw [stands.1, s.titleSlot_owner]

omit inv in
def handedOver (log position : Nat) : List CqItem → Option Nat
  | [] => none
  | _ :: _ => some (ringSlot log position)

variable {items : List CqItem}

theorem RingInv.look (laid : Laid ring.wq.logSz limit ring.wq.slots position items ring.produced) :
    ring.wq.getCqe = handedOver ring.wq.logSz position items := by
  unfold Cqwq.getCqe
  rw [inv.cc]
  simp only [inv.ctr2ix, inv.wrapCnt]
  cases items with
  | nil =>
    have empty : position = ring.produced := laid
    have positive := Nat.two_pow_pos ring.wq.logSz
    exact if_neg (inv.stale position (le_of_eq empty.symm) (by omega))
  | cons item rest => exact if_pos laid.2.1.owner

theorem RingInv.grow {after} (grows : Grows limit ring after items)
    (arrivals : ∀ batch ∈ after.arrivals, batch ∈ ring.arrivals) :
    RingInv limit after position where
  narrow := by rw [grows.logSz]; exact inv.narrow
  cc := by rw [grows.cc]; exact inv.cc
  released := by rw [grows.released]; exact inv.released
  consumed := le_trans inv.consumed grows.grow
  room := by rw [grows.released, grows.logSz]; exact grows.room inv.room
  stale := by
    rw [grows.logSz]
    intro q low high
    have order := inv.consumed
    have grow := grows.grow
    rw [grows.keep q low (by omega)]
    exact inv.stale q (by omega) high
  allowed := by
    rw [grows.logSz]
    exact fun batch listed => inv.allowed batch (arrivals batch listed)

omit inv in
theorem CqRing.writeAll_arrivals (ring : CqRing) (items : List CqItem) :
    (ring.writeAll items).arrivals = ring.arrivals := by
  unfold CqRing.writeAll
  induction items generalizing ring with
  | nil => rfl
  | cons item rest ih =>
    rw [foldl_cons, ih]
    unfold CqRing.write
    split
    · rfl
    · rfl

theorem RingInv.writeAll_grows (ok : ∀ item ∈ items, item.Allowed ring.wq.logSz limit) :
    ∃ more, Grows limit ring (ring.writeAll items) more ∧ RingInv limit (ring.writeAll items) position := by
  obtain ⟨more, grows⟩ := ring.writeAll_grows ok inv.room (le_trans inv.released inv.consumed)
  refine ⟨more, grows, inv.grow grows ?_⟩
  rw [ring.writeAll_arrivals]
  exact fun batch listed => listed

theorem RingInv.getCqe_grows :
    ∃ more, Grows limit ring ring.getCqe.2 more ∧ RingInv limit ring.getCqe.2 position := by
  have headAllowed : ∀ item ∈ ring.arrivals.headD [], item.Allowed ring.wq.logSz limit := by
    cases coming : ring.arrivals with
    | nil => exact fun item listed => absurd listed not_mem_nil
    | cons batch rest => exact inv.allowed batch (by rw [coming]; exact .head _)
  obtain ⟨more, written⟩ := ring.writeAll_grows headAllowed inv.room (le_trans inv.released inv.consumed)
  have grows : Grows limit ring ring.getCqe.2 more := { written with }
  exact ⟨more, grows, inv.grow grows fun batch listed => mem_of_mem_tail listed⟩

theorem RingInv.laid_grow {after items more next}
    (grows : Grows limit ring after more) (ahead : position ≤ next)
    (laid : Laid ring.wq.logSz limit ring.wq.slots next items ring.produced) :
    Laid after.wq.logSz limit after.wq.slots next (items ++ more) after.produced := by
  rw [grows.logSz]
  refine Laid.append (laid.congr fun q low high => ?_) grows.laid
  exact grows.keep_pending inv.room (le_trans inv.released (le_trans ahead low)) high

omit inv in
theorem Grows.uncompressed {after items more next} (grows : Grows limit ring after more) (entry)
    (laid : Laid ring.wq.logSz limit ring.wq.slots next items ring.produced) :
    entriesFrom ring.wq.logSz entry next (items ++ more) = entriesFrom ring.wq.logSz entry next items ++
          entriesFrom ring.wq.logSz entry ring.produced more ∧
      after.uncompressed entry =
        ring.uncompressed entry ++ entriesFrom ring.wq.logSz entry ring.produced more := by
  unfold entriesFrom CqRing.uncompressed
  rw [placed_append laid, grows.written, grows.logSz, flatMap_append, flatMap_append]
  exact ⟨rfl, rfl⟩

theorem RingInv.pop (pending : position < ring.produced)
    (owner : cqeOwner (ring.wq.slots (ringSlot ring.wq.logSz position)) =
      ringLap ring.wq.logSz position) : RingInv limit ring.pop (position + 1) :=
  { inv with
    cc := by
      change (ring.wq.cc + 1) % 2 ^ 32 = _
      rw [inv.cc, Nat.mod_add_mod]
    released := Nat.le_succ_of_le inv.released
    consumed := pending
    stale q low high := by
      rcases Nat.lt_or_ge q (position + 2 ^ ring.wq.logSz) with old | fresh
      · exact inv.stale q low old
      have same : q = position + 2 ^ ring.wq.logSz := by
        change q < position + 1 + 2 ^ ring.wq.logSz at high
        omega
      change cqeOwner (ring.wq.slots (ringSlot ring.wq.logSz q)) ≠ ringLap ring.wq.logSz q
      rw [same, ringSlot_add_round, owner]
      exact (ringLap_add_round_ne _ _).symm }

theorem RingInv.updateDbRecord : RingInv limit ring.updateDbRecord position := by
  have room := inv.room
  have consumed := inv.consumed
  have power : 2 ^ ring.wq.logSz ≤ 2 ^ 31 := Nat.pow_le_pow_right (by decide) (Nat.le_of_lt_succ inv.narrow)
  obtain ⟨distance, apart⟩ := Nat.exists_eq_add_of_le inv.released
  have released : ring.updateDbRecord.released = position := by
    change ring.released + (ring.wq.cc + 2 ^ 32 - ring.released % 2 ^ 32) % 2 ^ 32 = _
    rw [inv.cc, apart, counter_distance (by omega)]
  exact {
    narrow := inv.narrow
    cc := inv.cc
    released := le_of_eq released
    consumed := inv.consumed
    room := by
      rw [released]
      exact le_trans room (Nat.add_le_add_right inv.released _)
    stale := inv.stale
    allowed := inv.allowed }

omit inv

end Driver

end MlnxOfed.Ethernet
