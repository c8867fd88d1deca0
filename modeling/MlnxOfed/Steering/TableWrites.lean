/-
Writing a whole hash table to the device (dr_send.c): a table of more than one post is written in turns,
each with the part that starts at its own index.
-/

import MlnxOfed.Steering.IcmPool
import MlnxOfed.Steering.ModifyMeaning

namespace MlnxOfed.Steering

open Prod List

abbrev SteBytes := List (BitVec 8)

def drSteSizeCtrlBytes : Nat := 32

def drSteSizeTag : Nat := 16

def drSteSizeMask : Nat := 16

def drSteSizeReduced : Nat := drSteSize - drSteSizeMask

def drSteV1TypeMatch : BitVec 8 := 4

def drChunkSizeMax : Nat := 22

/-- `max_post_send_size` of the send ring, for `DR_CHUNK_SIZE_1K`. -/
def maxPostSendSize : Nat := mlx5drIcmPoolChunkSizeToByte 10 .ste

/-- An STE of a table; its copy has `ste_arr->size` bytes. -/
structure HtblSte where
  refcount : Nat
  hwSte : SteBytes

def htblSteSize (legacy : Bool) : Nat := if legacy then drSteSizeReduced else drSteSize

/-- `struct mlx5dr_ste_htbl`, with the address of its chunk. -/
structure SteHtbl where
  legacy : Bool
  chunkSize : Nat
  bounded : chunkSize < drChunkSizeMax
  mrAddr : Nat
  steArr : List HtblSte
  filled : steArr.length = mlx5drIcmPoolChunkSizeToEntries chunkSize
  sized : ∀ ste ∈ steArr, ste.hwSte.length = htblSteSize legacy

structure IcmWrite where
  remoteAddr : Nat
  data : SteBytes

def IcmWrite.bytes (write : IcmWrite) : List (BitVec 8 × Nat) := write.data.zipIdx write.remoteAddr

def StoreOnce (writes : List IcmWrite) (addr : Nat) (contents : SteBytes) : Prop :=
  (writes.flatMap IcmWrite.bytes).Perm (IcmWrite.bytes ⟨addr, contents⟩)

def drSteV1PrepareForPostsend (hwSte : SteBytes) : SteBytes :=
  if hwSte.headD 0 = drSteV1TypeMatch then hwSte
  else
    let rest := hwSte.drop drSteSizeCtrlBytes
    hwSte.take drSteSizeCtrlBytes ++ (rest.drop drSteSizeTag ++ rest.take drSteSizeTag)

/-- `mlx5dr_ste_prepare_for_postsend` for a whole STE. -/
def mlx5drStePrepareForPostsend : SteFormat → SteBytes → SteBytes
  | .v0 => id
  | .v1 => drSteV1PrepareForPostsend

/-- `byte_size`, `iterations` and `num_stes`. -/
structure CopyDetails where
  byteSize : Nat
  iterations : Nat
  numStes : Nat

def SteHtbl.byteSize (htbl : SteHtbl) : Nat := mlx5drIcmPoolChunkSizeToByte htbl.chunkSize .ste

def drGetTblCopyDetails (htbl : SteHtbl) : CopyDetails :=
  if maxPostSendSize < htbl.byteSize then
    ⟨maxPostSendSize, htbl.byteSize / maxPostSendSize, maxPostSendSize / drSteSize⟩
  else ⟨htbl.byteSize, 1, mlx5drIcmPoolChunkSizeToEntries htbl.chunkSize⟩

/-- The posts of the turns from `i` on, up to the first that fails. -/
def postTurns (posted : Nat → Bool) (write : Nat → IcmWrite) : Nat → Nat → List IcmWrite × Bool
  | _, 0 => ([], true)
  | i, turns + 1 =>
    if posted i then
      let (writes, ok) := postTurns posted write (i + 1) turns
      (write i :: writes, ok)
    else ([], false)

def steLine (format : SteFormat) (legacy : Bool) (formattedSte mask : SteBytes) (ste : HtblSte) : SteBytes :=
  if ste.refcount = 0 then formattedSte
  else mlx5drStePrepareForPostsend format (ste.hwSte ++ if legacy then mask else [])

/-- `mlx5dr_send_postsend_htbl`, where the buffer was allocated or not. -/
def mlx5drSendPostsendHtbl (format : SteFormat) (allocated : Bool) (posted : Nat → Bool)
    (htbl : SteHtbl) (formattedSte mask : SteBytes) : List IcmWrite × Bool :=
  let details := drGetTblCopyDetails htbl
  if allocated then
    let formattedSte := mlx5drStePrepareForPostsend format formattedSte
    postTurns posted
      (fun i =>
        let steIndex := (i * (details.byteSize / drSteSize)) % 2 ^ 32
        { remoteAddr := htbl.mrAddr + drSteSize * steIndex
          data := ((htbl.steArr.drop steIndex).take details.numStes).flatMap
            (steLine format htbl.legacy formattedSte mask) })
      0 details.iterations
  else ([], false)

/-- `mlx5dr_send_postsend_formatted_htbl`, which also returns the copies of the STEs. -/
def mlx5drSendPostsendFormattedHtbl (format : SteFormat) (allocated : Bool) (posted : Nat → Bool)
    (htbl : SteHtbl) (steInitData : SteBytes) (updateHwSte : Bool) : (List IcmWrite × Bool) × List SteBytes :=
  let details := drGetTblCopyDetails htbl
  let hwStes := htbl.steArr.map HtblSte.hwSte
  if allocated then
    let updated := replicate details.numStes (steInitData.take (htblSteSize htbl.legacy)) ++
      hwStes.drop details.numStes
    let formattedSte := mlx5drStePrepareForPostsend format steInitData
    (postTurns posted
      (fun i =>
        -- the index of this function has eight bits
        let steIndex := (i * (details.byteSize / drSteSize)) % 2 ^ 8
        { remoteAddr := htbl.mrAddr + drSteSize * steIndex
          data := (replicate details.numStes formattedSte).flatten })
      0 details.iterations, if updateHwSte then updated else hwStes)
  else (([], false), hwStes)

private theorem bytes_append (addr left right) : IcmWrite.bytes ⟨addr, left ++ right⟩ =
      IcmWrite.bytes ⟨addr, left⟩ ++ IcmWrite.bytes ⟨addr + left.length, right⟩ :=
  zipIdx_append ..

variable {posted : Nat → Bool}

theorem postTurns_all (all : ∀ i, posted i = true) (write i turns) :
    postTurns posted write i turns = ((range' i turns).map write, true) := by
  induction turns generalizing i with
  | zero => rfl
  | succ turns ih =>
    rw [postTurns, if_pos (all i), ih (i + 1)]
    rfl

private theorem turns_store {Item : Type} {line : Item → SteBytes} {size per : Nat} {items : List Item}
    (sized : ∀ item ∈ items, (line item).length = size) (addr) {first turns : Nat}
    (whole : items.length = (first + turns) * per) :
    ((range' first turns).map fun i =>
        (⟨addr + size * (i * per), ((items.drop (i * per)).take per).flatMap line⟩ : IcmWrite)).flatMap
          IcmWrite.bytes =
      IcmWrite.bytes ⟨addr + size * (first * per), (items.drop (first * per)).flatMap line⟩ := by
  induction turns generalizing first with
  | zero =>
    rw [drop_eq_nil_of_le (by rw [whole]; exact le_rfl)]
    rfl
  | succ turns ih =>
    have next : (first + 1) * per = first * per + per := Nat.succ_mul first per
    have room : first * per + per ≤ items.length := by
      rw [whole, ← next]
      exact Nat.mul_le_mul_right per (by omega)
    have length : (((items.drop (first * per)).take per).flatMap line).length = size * per := by
      rw [length_flatMap, map_congr_left (g := fun _ => size)]
      · rw [map_const', sum_replicate_nat, length_take, length_drop, Nat.min_eq_left (by omega), mul_comm]
      · intro item mem
        exact sized item (mem_of_mem_drop (mem_of_mem_take mem))
    rw [range'_succ, map_cons, flatMap_cons, ih (by rw [whole]; congr 1; omega), next]
    have split : (items.drop (first * per)).flatMap line = ((items.drop (first * per)).take per).flatMap line ++
          (items.drop (first * per + per)).flatMap line := by
      rw [← flatMap_append, ← drop_drop, take_append_drop]
    rw [split, bytes_append, length, Nat.mul_add, add_assoc]

/-! ### The whole table -/

def SteHtbl.contents (format : SteFormat) (htbl : SteHtbl) (formattedSte mask : SteBytes) : SteBytes :=
  htbl.steArr.flatMap (steLine format htbl.legacy (mlx5drStePrepareForPostsend format formattedSte) mask)

def SteHtbl.formattedContents (format : SteFormat) (htbl : SteHtbl) (steInitData : SteBytes) : SteBytes :=
  htbl.steArr.flatMap fun _ => mlx5drStePrepareForPostsend format steInitData

@[simp] theorem prepareForPostsend_length (format) {hwSte}
    (whole : hwSte.length = drSteSize) : (mlx5drStePrepareForPostsend format hwSte).length = drSteSize := by
  cases format with
  | v0 => exact whole
  | v1 =>
    simp only [drSteSize] at whole
    simp only [mlx5drStePrepareForPostsend, drSteV1PrepareForPostsend, drSteSizeCtrlBytes,
      drSteSizeTag, drSteSize]
    split
    · exact whole
    · simp [whole]

variable (format : SteFormat) {formattedSte mask : SteBytes}

private theorem steLine_length (htbl : SteHtbl) (formatted : formattedSte.length = drSteSize)
    (masked : mask.length = drSteSizeMask) (ste) (mem : ste ∈ htbl.steArr) : (steLine format htbl.legacy
    (mlx5drStePrepareForPostsend format formattedSte) mask ste).length = drSteSize := by
  have own : (ste.hwSte ++ if htbl.legacy then mask else []).length = drSteSize := by
    rw [length_append, htbl.sized ste mem, htblSteSize]
    split
    · simp [masked, drSteSizeReduced, drSteSize, drSteSizeMask]
    · rfl
  rw [steLine]
  split
  · exact prepareForPostsend_length format formatted
  · exact prepareForPostsend_length format own

variable {htbl : SteHtbl}

theorem copyDetails_small (small : htbl.chunkSize ≤ 10) :
    drGetTblCopyDetails htbl = ⟨htbl.byteSize, 1, 2 ^ htbl.chunkSize⟩ := by
  have fits : htbl.byteSize ≤ maxPostSendSize := Nat.mul_le_mul_left _ (by
      rw [mlx5drIcmPoolChunkSizeToEntries, Nat.one_shiftLeft]
      exact Nat.pow_le_pow_right (by decide) small)
  rw [drGetTblCopyDetails, if_neg (Nat.not_lt.mpr fits), mlx5drIcmPoolChunkSizeToEntries, Nat.one_shiftLeft]

theorem copyDetails_large (large : 10 < htbl.chunkSize) :
    drGetTblCopyDetails htbl = ⟨maxPostSendSize, 2 ^ (htbl.chunkSize - 10), 1024⟩ := by
  have size : htbl.byteSize = maxPostSendSize * 2 ^ (htbl.chunkSize - 10) := by
    have parts : 2 ^ htbl.chunkSize = 2 ^ 10 * 2 ^ (htbl.chunkSize - 10) := by
      rw [← Nat.pow_add]
      congr 1
      omega
    rw [SteHtbl.byteSize, maxPostSendSize, mlx5drIcmPoolChunkSizeToByte,
      mlx5drIcmPoolChunkSizeToByte, mlx5drIcmPoolChunkSizeToEntries,
      mlx5drIcmPoolChunkSizeToEntries, Nat.one_shiftLeft, Nat.one_shiftLeft, parts, Nat.mul_assoc]
  have more : maxPostSendSize < htbl.byteSize := by
    rw [size]
    exact (Nat.lt_mul_iff_one_lt_right (by decide)).mpr (Nat.one_lt_two_pow (by omega))
  rw [drGetTblCopyDetails, if_pos more, size, Nat.mul_div_cancel_left _ (by decide)]
  rfl

private theorem copyDetails_split (htbl) :
    (drGetTblCopyDetails htbl).byteSize / drSteSize = (drGetTblCopyDetails htbl).numStes ∧ htbl.steArr.length =
        (drGetTblCopyDetails htbl).iterations * (drGetTblCopyDetails htbl).numStes := by
  rw [htbl.filled, mlx5drIcmPoolChunkSizeToEntries, Nat.one_shiftLeft]
  by_cases small : htbl.chunkSize ≤ 10
  · rw [copyDetails_small small, SteHtbl.byteSize, mlx5drIcmPoolChunkSizeToByte,
      mlx5drIcmPoolChunkSizeToEntries, Nat.one_shiftLeft]
    exact ⟨Nat.mul_div_cancel_left _ (by decide), (one_mul _).symm⟩
  rw [copyDetails_large (Nat.not_le.mp small)]
  have per : maxPostSendSize / drSteSize = 1024 := by decide
  refine ⟨per, ?_⟩
  rw [show 1024 = 2 ^ 10 from rfl, ← Nat.pow_add]
  congr 1
  omega

private theorem postsendHtbl_stores (all : ∀ i, posted i = true) (htbl : SteHtbl)
    (formatted : formattedSte.length = drSteSize) (masked : mask.length = drSteSizeMask) :
    (mlx5drSendPostsendHtbl format true posted htbl formattedSte mask).2 = true ∧
      StoreOnce (mlx5drSendPostsendHtbl format true posted htbl formattedSte mask).1 htbl.mrAddr
        (htbl.contents format formattedSte mask) := by
  obtain ⟨per, whole⟩ := copyDetails_split htbl
  simp only [mlx5drSendPostsendHtbl, if_true, postTurns_all all, true_and, per]
  have few : htbl.steArr.length ≤ 2 ^ 21 := by
    rw [htbl.filled, mlx5drIcmPoolChunkSizeToEntries, Nat.one_shiftLeft]
    exact Nat.pow_le_pow_right (by decide) (Nat.le_of_lt_succ htbl.bounded)
  -- the index of a turn is inside the table, so its 32 bits hold it
  have index i (mem : i ∈ range' 0 (drGetTblCopyDetails htbl).iterations) : i *
      (drGetTblCopyDetails htbl).numStes % 2 ^ 32 = i * (drGetTblCopyDetails htbl).numStes := by
    have turn : i ≤ (drGetTblCopyDetails htbl).iterations := by
      have := mem_range'_1.mp mem
      omega
    have inside := Nat.mul_le_mul_right (drGetTblCopyDetails htbl).numStes turn
    rw [← whole] at inside
    exact Nat.mod_eq_of_lt (by omega)
  rw [← zero_add (drGetTblCopyDetails htbl).iterations] at whole
  have stored := turns_store (steLine_length format htbl formatted masked) htbl.mrAddr whole
  rw [Nat.zero_mul, Nat.mul_zero, add_zero, drop_zero] at stored
  rw [StoreOnce, SteHtbl.contents, ← stored]
  refine Perm.of_eq (congrArg (flatMap IcmWrite.bytes) (map_congr_left ?_))
  intro i mem
  rw [index i mem]

theorem StoreOnce.nodup {writes addr contents}
    (stores : StoreOnce writes addr contents) : ((writes.flatMap IcmWrite.bytes).map snd).Nodup := by
  refine (stores.map snd).nodup_iff.mpr ?_
  rw [IcmWrite.bytes, zipIdx_map_snd]
  exact nodup_range'

private theorem not_storeOnce_twice {write} (some : write.data ≠ []) (rest)
    (addr contents) : ¬ StoreOnce (write :: write :: rest) addr contents := by
  intro stores
  have once := stores.nodup
  rw [flatMap_cons, flatMap_cons, map_append, map_append] at once
  obtain ⟨_, _, apart⟩ := nodup_append.mp once
  obtain ⟨byte, data, same⟩ := exists_cons_of_ne_nil some
  have mem : write.remoteAddr ∈ write.bytes.map snd := by
    rw [IcmWrite.bytes, same, zipIdx_cons]
    exact .head _
  exact apart _ mem _ (mem_append_left _ mem) rfl

private theorem postsendFormattedHtbl_stores (all : ∀ i, posted i = true) (small : htbl.chunkSize ≤ 10)
    (steInitData updateHwSte) :
    StoreOnce (mlx5drSendPostsendFormattedHtbl format true posted htbl steInitData updateHwSte).1.1
      htbl.mrAddr (htbl.formattedContents format steInitData) := by
  have whole : 2 ^ htbl.chunkSize = htbl.steArr.length := by
    rw [htbl.filled, mlx5drIcmPoolChunkSizeToEntries, Nat.one_shiftLeft]
  simp only [mlx5drSendPostsendFormattedHtbl, if_true, postTurns_all all, copyDetails_small small]
  have contents : htbl.formattedContents format steInitData =
      (replicate (2 ^ htbl.chunkSize) (mlx5drStePrepareForPostsend format steInitData)).flatten :=
    by rw [SteHtbl.formattedContents, flatMap_def, map_const', whole]
  rw [StoreOnce, contents]
  exact Perm.of_eq (by simp)

theorem postsendFormattedHtbl_repeats (all : ∀ i, posted i = true) (large : 10 < htbl.chunkSize)
    {steInitData} (formatted : steInitData.length = drSteSize) (updateHwSte) :
    ¬ StoreOnce (mlx5drSendPostsendFormattedHtbl format true posted htbl steInitData updateHwSte).1.1
      htbl.mrAddr (htbl.formattedContents format steInitData) := by
  obtain ⟨more, turns⟩ : ∃ more, 2 ^ (htbl.chunkSize - 10) = more + 2 := by
    refine ⟨2 ^ (htbl.chunkSize - 10) - 2, ?_⟩
    have := Nat.pow_le_pow_right (n := 2) (by decide) (show 1 ≤ htbl.chunkSize - 10 by omega)
    omega
  simp only [mlx5drSendPostsendFormattedHtbl, if_true, postTurns_all all, copyDetails_large large, turns]
  rw [range'_succ, range'_succ, map_cons, map_cons]
  refine not_storeOnce_twice ?_ _ _ _
  intro none
  have length := congrArg length none
  rw [length_flatten, map_replicate, prepareForPostsend_length format formatted, sum_replicate_nat] at length
  exact absurd length (by decide)

/-- Both functions write the table slot by slot, the second only up to a post's size. -/
theorem htblWrites_store_iff (format : SteFormat) {posted : Nat → Bool}
    (all : ∀ i, posted i = true) (htbl : SteHtbl) {formattedSte mask : SteBytes}
    (formatted : formattedSte.length = drSteSize) (masked : mask.length = drSteSizeMask)
    (updateHwSte : Bool) :
    ((mlx5drSendPostsendHtbl format true posted htbl formattedSte mask).2 = true ∧
      StoreOnce (mlx5drSendPostsendHtbl format true posted htbl formattedSte mask).1 htbl.mrAddr
        (htbl.contents format formattedSte mask)) ∧
    (StoreOnce (mlx5drSendPostsendFormattedHtbl format true posted htbl formattedSte updateHwSte).1.1
        htbl.mrAddr (htbl.formattedContents format formattedSte) ↔
      htbl.chunkSize ≤ 10) := by
  refine ⟨postsendHtbl_stores format all htbl formatted masked, ?_, ?_⟩
  · intro stores
    refine Nat.not_lt.mp ?_
    intro large
    exact postsendFormattedHtbl_repeats format all large formatted updateHwSte stores
  · intro small
    exact postsendFormattedHtbl_stores format all small formattedSte updateHwSte

/-- A legacy table whose STEs hold their number; every third is not used. -/
def numberedHtbl (chunkSize : Nat) (bounded : chunkSize < drChunkSizeMax) : SteHtbl :=
  { legacy := true
    chunkSize := chunkSize
    bounded := bounded
    mrAddr := 0x10000
    steArr := (range (mlx5drIcmPoolChunkSizeToEntries chunkSize)).map fun number =>
      ⟨number % 3, BitVec.ofNat 8 number :: replicate 47 (BitVec.ofNat 8 (number / 256))⟩
    filled := by rw [length_map, length_range]
    sized := by
      intro ste member
      obtain ⟨number, _, rfl⟩ := mem_map.mp member
      rfl }

/-- A table of two posts, and a formatted one of eight STEs. -/
theorem htblWrites_store_two_posts :
    let large := numberedHtbl 11 (by decide)
    let small := numberedHtbl 3 (by decide)
    let formattedSte : SteBytes := replicate 32 7 ++ replicate 16 1 ++ replicate 16 2
    let mask : SteBytes := replicate 16 0xf0
    (drGetTblCopyDetails large).iterations = 2 ∧
    ((mlx5drSendPostsendHtbl .v1 true (fun _ => true) large formattedSte mask).2 = true ∧
      StoreOnce (mlx5drSendPostsendHtbl .v1 true (fun _ => true) large formattedSte mask).1 0x10000
        (large.contents .v1 formattedSte mask)) ∧
    StoreOnce (mlx5drSendPostsendFormattedHtbl .v1 true (fun _ => true) small formattedSte true).1.1 0x10000
      (small.formattedContents .v1 formattedSte) := by
  intro large small formattedSte mask
  have formatted : formattedSte.length = drSteSize := rfl
  have masked : mask.length = drSteSizeMask := rfl
  refine ⟨congrArg CopyDetails.iterations (copyDetails_large (by decide)), ?_, ?_⟩
  · exact (htblWrites_store_iff .v1 (fun _ => rfl) large formatted masked true).1
  · exact (htblWrites_store_iff .v1 (fun _ => rfl) small formatted masked true).2.mpr (by decide)

theorem htblWrites_miss_half : ¬ StoreOnce (mlx5drSendPostsendFormattedHtbl .v1 true (fun _ => true)
        (numberedHtbl 11 (by decide)) (replicate 64 0) false).1.1 0x10000
      ((numberedHtbl 11 (by decide)).formattedContents .v1 (replicate 64 0)) :=
  postsendFormattedHtbl_repeats .v1 (fun _ => rfl) (show 10 < 11 by decide) rfl false

end MlnxOfed.Steering
