/-
A directed route request reaches the end of its path and writes down the way back, which the response
retraces. No SMP, whatever its pointer, count and paths, is indexed outside its paths.
-/

import MlnxOfed.Smi.DirectedRoute

namespace MlnxOfed.Smi

open Function Option

variable {Node : Type} {fabric : Fabric Node}

theorem readPath_inside {path index} (lower : 0 ≤ index) (upper : index < 64) :
    (readPath path index).isSome := by
  unfold readPath
  rw [dif_pos ⟨lower, upper⟩]
  rfl

private theorem writePath_inside (path) {index} (value) (lower : 0 ≤ index)
    (upper : index < 64) : (writePath path index value).isSome := by
  unfold writePath
  rw [dif_pos ⟨lower, upper⟩]
  rfl

theorem writePath_spec (path) {index value : Nat} (inside : index < 64) (byte : value < 256) :
    ∃ stored, writePath path index value = some stored ∧ readPath stored index = some value ∧
      ∀ other : Nat, other ≠ index → readPath stored other = readPath path other := by
  have bounds : 0 ≤ (index : Int) ∧ (index : Int) < 64 := by omega
  refine ⟨update path ⟨index, inside⟩ value, ?_, ?_, ?_⟩
  · unfold writePath
    rw [dif_pos bounds, Nat.mod_eq_of_lt byte]
    rfl
  · unfold readPath
    rw [dif_pos bounds]
    exact congrArg some (update_self (⟨index, inside⟩ : Fin 64) value path)
  intro other differs
  unfold readPath
  split
  · refine congrArg some (update_of_ne ?_ _ _)
    intro same
    exact differs (congrArg Fin.val same)
  · rfl

variable (isSwitch : Bool)

theorem smiHandleDrSmpSend_inside (portNum smp) : (smiHandleDrSmpSend isSwitch portNum smp).isSome := by
  unfold smiHandleDrSmpSend IB_SMP_MAX_PATH_HOPS
  split_ifs
  all_goals
    first
    | rw [isSome_map]
      refine readPath_inside (Int.natCast_nonneg _) ?_
      dsimp only [Smp.incHopPtr, Smp.decHopPtr]
      omega
    | rfl

private theorem smiHandleDrSmpRecv_inside (portNum physPortCnt smp) :
    (smiHandleDrSmpRecv isSwitch portNum physPortCnt smp).isSome := by
  unfold smiHandleDrSmpRecv IB_SMP_MAX_PATH_HOPS
  split_ifs
  · rfl
  · rfl
  · rfl
  · obtain ⟨path, stored⟩ := isSome_iff_exists.1
      (writePath_inside smp.returnPath portNum (by omega : 0 ≤ (smp.hopPtr : Int)) (by omega))
    rw [stored, bind_some, isSome_map]
    exact readPath_inside (by omega) (by omega)
  · rw [isSome_map]
    exact writePath_inside smp.returnPath portNum (by omega) (by omega)
  · rfl
  · rfl
  · rw [isSome_map]
    refine readPath_inside (Int.natCast_nonneg _) ?_
    dsimp only [Smp.decHopPtr]
    omega
  · rfl
  · rw [isSome_map]
    exact readPath_inside (by omega) (by omega)
  · rfl
  · rfl
  · rfl

theorem smiHandleDrSmpRecv_kept {isSwitch portNum physPortCnt smp arrived}
    (handled : smiHandleDrSmpRecv isSwitch portNum physPortCnt smp = some (.handle, arrived)) :
    arrived.direction = smp.direction ∧ arrived.hopCnt = smp.hopCnt ∧ smp.hopCnt < 64 := by
  unfold smiHandleDrSmpRecv IB_SMP_MAX_PATH_HOPS at handled
  split_ifs at handled
  all_goals
    simp only [bind_eq_some_iff, map_eq_some_iff, some.injEq, Prod.mk.injEq] at handled
    grind [Smp.decHopPtr]

private theorem smiGetFwdPort_inside {smp} (counted : smp.hopCnt < 64)
    (onward : smiCheckForwardDrSmp smp = .forward) : (smiGetFwdPort smp).isSome := by
  unfold smiCheckForwardDrSmp at onward
  unfold smiGetFwdPort
  split_ifs at onward ⊢
  all_goals exact readPath_inside (by omega) (by omega)

theorem handleOutgoingDrSmp_inside (device portNum smp) :
    (handleOutgoingDrSmp device portNum smp).isSome := by
  unfold handleOutgoingDrSmp
  rw [isSome_map]
  by_cases routed : (if smp.direction then smp.drDlid else smp.drSlid) = IB_LID_PERMISSIVE
  · rw [if_pos routed]
    exact smiHandleDrSmpSend_inside _ _ _
  · rw [if_neg routed]
    rfl

theorem handleIbSmi_inside (device portNum smp) : (handleIbSmi device portNum smp).isSome := by
  obtain ⟨⟨action, arrived⟩, received⟩ := isSome_iff_exists.1
    (smiHandleDrSmpRecv_inside device.isSwitch portNum device.physPortCnt smp)
  unfold handleIbSmi
  rw [received, bind_some]
  cases action with
  | discard => rfl
  | handle =>
    obtain ⟨_, sameCount, counted⟩ := smiHandleDrSmpRecv_kept received
    dsimp only
    rw [if_neg (by decide)]
    split
    · rfl
    · rw [isSome_map]
      exact smiHandleDrSmpSend_inside _ _ _
    rename_i onward
    split
    · obtain ⟨port, found⟩ := isSome_iff_exists.1 (smiGetFwdPort_inside (sameCount ▸ counted) onward)
      rw [found, bind_some, isSome_map]
      exact handleOutgoingDrSmp_inside _ _ _
    · rfl

/-! ### One hop -/

variable {port : Nat}

theorem smiHandleDrSmpSend_outward (smp) (direction : smp.direction = false) (counted : smp.hopCnt < 64)
    (inner : smp.hopPtr < smp.hopCnt) (switched : smp.hopPtr = 0 ∨ isSwitch = true)
    (next : readPath smp.initialPath ((smp.hopPtr + 1 : Nat) : Int) = some port) :
    smiHandleDrSmpSend isSwitch port smp = some (.handle, { smp with hopPtr := smp.hopPtr + 1 }) := by
  have moved : smp.incHopPtr = { smp with hopPtr := smp.hopPtr + 1 } := by
    unfold Smp.incHopPtr
    rw [Nat.mod_eq_of_lt (by omega)]
  have res : ((readPath smp.initialPath smp.incHopPtr.hopPtr).map fun found =>
      (handleIf (found == port), smp.incHopPtr)) = some (.handle, { smp with hopPtr := smp.hopPtr + 1 }) := by
    rw [moved, next, map_some, beq_self_eq_true]
    rfl
  unfold smiHandleDrSmpSend IB_SMP_MAX_PATH_HOPS
  rw [if_neg (by omega), if_pos direction]
  by_cases first : smp.hopPtr = 0
  · rw [if_pos (by omega), res]
  · have switch : ¬ isSwitch = false := by
      rw [switched.resolve_left first]
      decide
    rw [if_neg (by omega), if_pos (by omega), if_neg switch, res]

private theorem smiHandleDrSmpSend_last (port smp)
    (direction : smp.direction = false) (counted : smp.hopCnt < 64) (pos : 1 ≤ smp.hopCnt)
    (last : smp.hopPtr = smp.hopCnt) (permissive : smp.drDlid = IB_LID_PERMISSIVE) :
    smiHandleDrSmpSend isSwitch port smp = some (.handle, { smp with hopPtr := smp.hopCnt + 1 }) := by
  have moved : smp.incHopPtr = { smp with hopPtr := smp.hopCnt + 1 } := by
    unfold Smp.incHopPtr
    rw [last, Nat.mod_eq_of_lt (by omega)]
  unfold smiHandleDrSmpSend IB_SMP_MAX_PATH_HOPS
  rw [if_neg (by omega), if_pos direction, if_neg (by omega), if_neg (by omega), if_pos last, moved,
    permissive, beq_self_eq_true, Bool.or_true]
  rfl

theorem smiHandleDrSmpSend_back (smp)
    (direction : smp.direction = true) (counted : smp.hopCnt < 64) (lower : 2 ≤ smp.hopPtr)
    (upper : smp.hopPtr ≤ smp.hopCnt + 1) (switched : smp.hopPtr = smp.hopCnt + 1 ∨ isSwitch = true)
    (next : readPath smp.returnPath ((smp.hopPtr - 1 : Nat) : Int) = some port) :
    smiHandleDrSmpSend isSwitch port smp = some (.handle, { smp with hopPtr := smp.hopPtr - 1 }) := by
  have moved : smp.decHopPtr = { smp with hopPtr := smp.hopPtr - 1 } := by
    unfold Smp.decHopPtr
    have wrapped : (smp.hopPtr + 255) % 256 = smp.hopPtr - 1 := by omega
    rw [wrapped]
  have res : ((readPath smp.returnPath smp.decHopPtr.hopPtr).map fun found =>
      (handleIf (found == port), smp.decHopPtr)) = some (.handle, { smp with hopPtr := smp.hopPtr - 1 }) := by
    rw [moved, next, map_some, beq_self_eq_true]
    rfl
  have returning : ¬ smp.direction = false := by
    rw [direction]
    decide
  unfold smiHandleDrSmpSend IB_SMP_MAX_PATH_HOPS
  rw [if_neg (by omega), if_neg returning]
  by_cases first : smp.hopPtr = smp.hopCnt + 1
  · rw [if_pos (by omega), res]
  · have switch : ¬ isSwitch = false := by
      rw [switched.resolve_left first]
      decide
    rw [if_neg (by omega), if_pos (by omega), if_neg switch, res]

theorem handleIf_true : handleIf true = .handle := rfl

private theorem smiHandleDrSmpRecv_outward {isSwitch entry physPortCnt port smp}
    (direction : smp.direction = false) (counted : smp.hopCnt < 64) (lower : 1 ≤ smp.hopPtr)
    (inner : smp.hopPtr < smp.hopCnt) (switch : isSwitch = true) (byte : entry < 256)
    (next : readPath smp.initialPath ((smp.hopPtr + 1 : Nat) : Int) = some port)
    (present : port ≤ physPortCnt) :
    ∃ path, smiHandleDrSmpRecv isSwitch entry physPortCnt smp =
        some (.handle, { smp with returnPath := path }) ∧
      readPath path smp.hopPtr = some entry ∧
      ∀ other : Nat, other ≠ smp.hopPtr → readPath path other = readPath smp.returnPath other := by
  obtain ⟨path, stored, here, elsewhere⟩ := writePath_spec smp.returnPath (by omega : smp.hopPtr < 64) byte
  refine ⟨path, ?_, here, elsewhere⟩
  have onward : readPath smp.initialPath ((smp.hopPtr : Int) + 1) = some port := by
    rw [← next]
    norm_cast
  unfold smiHandleDrSmpRecv IB_SMP_MAX_PATH_HOPS
  rw [if_neg (by omega), if_pos direction, if_neg (by omega), if_pos (by omega), switch,
    if_neg (by decide), stored, bind_some, onward, map_some, decide_eq_true present,
    handleIf_true]

private theorem smiHandleDrSmpRecv_last {entry} (physPortCnt) {smp}
    (direction : smp.direction = false) (counted : smp.hopCnt < 64) (pos : 1 ≤ smp.hopCnt)
    (last : smp.hopPtr = smp.hopCnt) (permissive : smp.drDlid = IB_LID_PERMISSIVE) (byte : entry < 256) :
    ∃ path, smiHandleDrSmpRecv isSwitch entry physPortCnt smp =
        some (.handle, { smp with returnPath := path }) ∧
      readPath path smp.hopPtr = some entry ∧
      ∀ other : Nat, other ≠ smp.hopPtr → readPath path other = readPath smp.returnPath other := by
  obtain ⟨path, stored, here, elsewhere⟩ := writePath_spec smp.returnPath (by omega : smp.hopPtr < 64) byte
  refine ⟨path, ?_, here, elsewhere⟩
  unfold smiHandleDrSmpRecv IB_SMP_MAX_PATH_HOPS
  rw [if_neg (by omega), if_pos direction, if_neg (by omega), if_neg (by omega), if_pos last,
    if_pos (by omega), stored, map_some, permissive, beq_self_eq_true, Bool.or_true, handleIf_true]

private theorem smiHandleDrSmpRecv_back {isSwitch} (entry) {physPortCnt port smp}
    (direction : smp.direction = true) (counted : smp.hopCnt < 64) (lower : 2 ≤ smp.hopPtr)
    (upper : smp.hopPtr ≤ smp.hopCnt) (switch : isSwitch = true)
    (next : readPath smp.returnPath ((smp.hopPtr - 1 : Nat) : Int) = some port) (here : port ≤ physPortCnt) :
    smiHandleDrSmpRecv isSwitch entry physPortCnt smp = some (.handle, smp) := by
  have returning : ¬ smp.direction = false := by
    rw [direction]
    decide
  have onward : readPath smp.returnPath ((smp.hopPtr : Int) - 1) = some port := by
    rw [← next]
    congr 1
    omega
  unfold smiHandleDrSmpRecv IB_SMP_MAX_PATH_HOPS
  rw [if_neg (by omega), if_neg returning, if_neg (by omega), if_pos (by omega), switch,
    if_neg (by decide), onward, map_some, decide_eq_true here, handleIf_true]

private theorem smiHandleDrSmpRecv_home {isSwitch entry physPortCnt smp}
    (direction : smp.direction = true) (counted : smp.hopCnt < 64) (pos : 1 ≤ smp.hopCnt)
    (last : smp.hopPtr = 1) (permissive : smp.drSlid = IB_LID_PERMISSIVE) :
    smiHandleDrSmpRecv isSwitch entry physPortCnt smp = some (.handle, { smp with hopPtr := 0 }) := by
  have returning : ¬ smp.direction = false := by
    rw [direction]
    decide
  unfold smiHandleDrSmpRecv IB_SMP_MAX_PATH_HOPS Smp.decHopPtr
  rw [if_neg (by omega), if_neg returning, if_neg (by omega), if_neg (by omega), if_pos last,
    if_pos permissive, last]

theorem handleOutgoingDrSmp_wire {device smp sent}
    (permissive : (if smp.direction then smp.drDlid else smp.drSlid) = IB_LID_PERMISSIVE)
    (routed : smiHandleDrSmpSend device.isSwitch port smp = some (.handle, sent))
    (out : sent.direction = false → sent.hopPtr ≤ sent.hopCnt)
    (back : sent.direction = true → 1 ≤ sent.hopPtr) :
    handleOutgoingDrSmp device port smp = some (.wire sent) := by
  have notHere : smiCheckLocalSmp device sent = .discard := by
    unfold smiCheckLocalSmp
    cases direction : sent.direction with
    | true => simp [handleIf]
    | false =>
      have short := out direction
      have differs : (sent.hopPtr == sent.hopCnt + 1) = false := beq_false_of_ne (by omega)
      rw [differs, Bool.and_false]
      rfl
  have notHome : smiCheckLocalReturningSmp device sent = .discard := by
    unfold smiCheckLocalReturningSmp
    cases direction : sent.direction with
    | false => simp [handleIf]
    | true =>
      have short := back direction
      have differs : (sent.hopPtr == 0) = false := beq_false_of_ne (by omega)
      rw [differs, Bool.and_false]
      rfl
  unfold handleOutgoingDrSmp
  rw [if_pos permissive, routed, map_some]
  dsimp only
  rw [if_neg (by decide), if_pos ⟨notHere, notHome⟩]

theorem handleIbSmi_forward {device entry port smp taken sent}
    (received : smiHandleDrSmpRecv device.isSwitch entry device.physPortCnt smp = some (.handle, taken))
    (onward : smiCheckForwardDrSmp taken = .forward) (switch : device.isSwitch = true)
    (next : smiGetFwdPort taken = some port)
    (outgoing : handleOutgoingDrSmp device port taken = some (.wire sent)) :
    handleIbSmi device entry smp = some (.forwarded port (.wire sent)) := by
  unfold handleIbSmi agentSendResponse
  rw [received, bind_some]
  dsimp only
  rw [if_neg (by decide), onward]
  rw [if_pos switch, next, bind_some, outgoing, map_some]

/-! ### A path through the fabric -/

/-- A request and the path its initial path describes: hop `i` leaves `node i` by the port `exit i` and
enters `node (i + 1)` by `entry (i + 1)`. -/
structure Route (fabric : Fabric Node) (smp : Smp) (node : Nat → Node) (exit entry : Nat → Nat) :
    Prop where
  request : smp.direction = false
  start : smp.hopPtr = 0
  some_hop : 1 ≤ smp.hopCnt
  few_hops : smp.hopCnt ≤ 63
  slid : smp.drSlid = IB_LID_PERMISSIVE
  dlid : smp.drDlid = IB_LID_PERMISSIVE
  path : ∀ hop, hop < smp.hopCnt → readPath smp.initialPath ((hop + 1 : Nat) : Int) = some (exit hop)
  links : ∀ hop, hop < smp.hopCnt → fabric.link (node hop) (exit hop) = some (node (hop + 1), entry (hop + 1))
  switches : ∀ hop, 1 ≤ hop → hop < smp.hopCnt → (fabric.device (node hop)).isSwitch = true
  endpoint : (fabric.device (node smp.hopCnt)).processMad = true

variable {smp sent arrived : Smp} {node : Nat → Node} {exit entry : Nat → Nat}

variable (route : Route fabric smp node exit entry)

include route

variable {hop : Nat}

theorem Route.back (inner : hop < smp.hopCnt) :
    fabric.link (node (hop + 1)) (entry (hop + 1)) = some (node hop, exit hop) :=
  fabric.linkBack _ _ _ _ (route.links hop inner)

theorem Route.entry_present (inner : hop < smp.hopCnt) :
    entry (hop + 1) ≤ (fabric.device (node (hop + 1))).physPortCnt :=
  fabric.portExists _ _ _ _ (route.back inner)

theorem Route.entry_byte (inner : hop < smp.hopCnt) : entry (hop + 1) < 256 := by
  have present := route.entry_present inner
  have byte := fabric.portByte (node (hop + 1))
  omega

theorem Route.exit_present (inner : hop < smp.hopCnt) : exit hop ≤ (fabric.device (node hop)).physPortCnt :=
  fabric.portExists _ _ _ _ (route.links hop inner)

omit route

/-- The request on its way into `node hop`, the entry ports behind it written down. -/
structure Outbound (smp : Smp) (entry : Nat → Nat) (hop : Nat) (sent : Smp) : Prop where
  direction : sent.direction = false
  hopPtr : sent.hopPtr = hop
  hopCnt : sent.hopCnt = smp.hopCnt
  slid : sent.drSlid = IB_LID_PERMISSIVE
  dlid : sent.drDlid = IB_LID_PERMISSIVE
  initialPath : sent.initialPath = smp.initialPath
  returnPath : ∀ behind : Nat, 1 ≤ behind → behind < hop → readPath sent.returnPath behind = some (entry behind)

structure Arrived (smp : Smp) (entry : Nat → Nat) (arrived : Smp) : Prop where
  hopPtr : arrived.hopPtr = smp.hopCnt + 1
  hopCnt : arrived.hopCnt = smp.hopCnt
  slid : arrived.drSlid = IB_LID_PERMISSIVE
  dlid : arrived.drDlid = IB_LID_PERMISSIVE
  returnPath : ∀ hop : Nat, 1 ≤ hop → hop ≤ smp.hopCnt → readPath arrived.returnPath hop = some (entry hop)

variable (route : Route fabric smp node exit entry)

include route

theorem Route.leave : ∃ sent, handleOutgoingDrSmp (fabric.device (node 0)) (exit 0) smp = some (.wire sent) ∧
      Outbound smp entry 1 sent := by
  have counted := route.few_hops
  have pos := route.some_hop
  have start := route.start
  have next : readPath smp.initialPath ((smp.hopPtr + 1 : Nat) : Int) = some (exit 0) := by
    rw [start]
    exact route.path 0 (by omega)
  have routed := smiHandleDrSmpSend_outward (fabric.device (node 0)).isSwitch smp
    route.request (by omega) (by omega) (.inl start) next
  refine ⟨_, handleOutgoingDrSmp_wire ?_ routed ?_ ?_, ?_⟩
  · rw [route.request]
    exact route.slid
  · intro _
    change smp.hopPtr + 1 ≤ smp.hopCnt
    omega
  · intro returning
    have request := route.request
    exact absurd (request.symm.trans returning) (by decide)
  exact
    { route with
      direction := route.request
      hopPtr := by rw [start]
      hopCnt := rfl
      initialPath := rfl
      returnPath behind lower upper := absurd upper (by omega) }

theorem Route.pass (inner : hop + 1 < smp.hopCnt) (outbound : Outbound smp entry (hop + 1) sent) :
    ∃ passed, handleIbSmi (fabric.device (node (hop + 1))) (entry (hop + 1)) sent =
        some (.forwarded (exit (hop + 1)) (.wire passed)) ∧
      Outbound smp entry (hop + 2) passed := by
  obtain ⟨direction, hopPtr, hopCnt, slid, dlid, initialPath, returnPath⟩ := outbound
  have counted := route.few_hops
  have switch := route.switches (hop + 1) (by omega) inner
  have next : readPath sent.initialPath ((sent.hopPtr + 1 : Nat) : Int) = some (exit (hop + 1)) := by
    rw [initialPath, hopPtr]
    exact route.path (hop + 1) inner
  obtain ⟨path, received, here, elsewhere⟩ := smiHandleDrSmpRecv_outward direction (by omega) (by omega)
    (by omega) switch (route.entry_byte (by omega : hop < smp.hopCnt)) next (route.exit_present inner)
  have routed := smiHandleDrSmpSend_outward (fabric.device (node (hop + 1))).isSwitch
    { sent with returnPath := path } direction (by dsimp only; omega) (by dsimp only; omega)
    (.inr switch) next
  refine ⟨{ sent with returnPath := path, hopPtr := sent.hopPtr + 1 }, ?_, ?_⟩
  · refine handleIbSmi_forward received ?_ switch ?_ (handleOutgoingDrSmp_wire ?_ routed ?_ ?_)
    · unfold smiCheckForwardDrSmp
      dsimp only
      rw [if_pos direction, if_pos (by omega)]
    · unfold smiGetFwdPort
      rw [if_pos direction, ← next]
      norm_cast
    · dsimp only
      rw [direction]
      exact slid
    · intro _
      dsimp only
      omega
    · intro returning
      exact absurd (direction.symm.trans returning) (by decide)
  · exact
      { direction := direction
        hopPtr := by rw [hopPtr]
        hopCnt := hopCnt
        slid := slid
        dlid := dlid
        initialPath := initialPath
        returnPath behind lower upper := by
          by_cases last : behind = hop + 1
          · rw [last, ← here, hopPtr]
          · rw [elsewhere behind (by omega)]
            exact returnPath behind lower (by omega) }

theorem Route.arrive (outbound : Outbound smp entry smp.hopCnt sent) :
    ∃ arrived, handleIbSmi (fabric.device (node smp.hopCnt)) (entry smp.hopCnt) sent =
        some (.handled arrived) ∧ Arrived smp entry arrived := by
  obtain ⟨direction, hopPtr, hopCnt, slid, dlid, initialPath, returnPath⟩ := outbound
  have counted := route.few_hops
  have pos := route.some_hop
  have byte : entry smp.hopCnt < 256 := by
    have last := route.entry_byte (by omega : smp.hopCnt - 1 < smp.hopCnt)
    rwa [Nat.sub_add_cancel pos] at last
  obtain ⟨path, received, here, elsewhere⟩ := smiHandleDrSmpRecv_last
    (fabric.device (node smp.hopCnt)).isSwitch (fabric.device (node smp.hopCnt)).physPortCnt
    direction (by omega) (by omega) (by omega) dlid byte
  have routed := smiHandleDrSmpSend_last (fabric.device (node smp.hopCnt)).isSwitch (entry smp.hopCnt)
    { sent with returnPath := path } direction
    (by dsimp only; omega) (by dsimp only; omega) (by dsimp only; omega) dlid
  have sending : smiCheckForwardDrSmp { sent with returnPath := path } = .send := by
    unfold smiCheckForwardDrSmp
    dsimp only
    rw [if_pos direction, if_neg (by omega), if_pos (by omega), if_pos dlid]
  have given : smiCheckLocalSmp (fabric.device (node smp.hopCnt))
      { sent with returnPath := path, hopPtr := sent.hopCnt + 1 } = .handle := by
    unfold smiCheckLocalSmp
    dsimp only
    rw [route.endpoint, direction, beq_self_eq_true]
    rfl
  refine ⟨{ sent with returnPath := path, hopPtr := sent.hopCnt + 1 }, ?_, ?_⟩
  · unfold handleIbSmi
    rw [received, bind_some]
    dsimp only
    rw [if_neg (by decide), sending]
    rw [routed, map_some]
    dsimp only
    rw [if_neg (by decide), given, if_neg (by decide)]
  exact
    { hopPtr := by rw [← hopCnt]
      hopCnt := hopCnt
      slid := slid
      dlid := dlid
      returnPath hop lower upper := by
        by_cases last : hop = smp.hopCnt
        · rw [last, ← here, hopPtr]
        · rw [elsewhere hop (by omega)]
          exact returnPath hop lower (by omega) }

omit route

/-- The ports a request enters from hop `hop` on, when `left` hops are left after it. -/
def forwardTrace (node : Nat → Node) (entry : Nat → Nat) : Nat → Nat → List (Node × Nat)
  | hop, 0 => [(node hop, entry hop)]
  | hop, left + 1 => (node hop, entry hop) :: forwardTrace node entry (hop + 1) left

/-- The ports a response enters from `node hop` on. -/
def returnTrace (node : Nat → Node) (exit : Nat → Nat) : Nat → List (Node × Nat)
  | 0 => [(node 0, exit 0)]
  | hop + 1 => (node (hop + 1), exit (hop + 1)) :: returnTrace node exit hop

theorem Route.carried (route : Route fabric smp node exit entry) (left) : ∀ hop sent, hop + 1 + left =
    smp.hopCnt → Outbound smp entry (hop + 1) sent → ∀ fuel, left < fuel → ∃ arrived, carry fabric fuel
    (node (hop + 1)) (entry (hop + 1)) sent = some ⟨forwardTrace node entry (hop + 1) left, .delivered
    (node smp.hopCnt) arrived⟩ ∧ Arrived smp entry arrived := by
  induction left with
  | zero =>
    intro hop sent total outbound fuel enough
    obtain ⟨fuel, rfl⟩ := Nat.exists_eq_succ_of_ne_zero (by omega : fuel ≠ 0)
    have last : hop + 1 = smp.hopCnt := by omega
    rw [last] at outbound ⊢
    obtain ⟨arrived, handled, final⟩ := route.arrive outbound
    refine ⟨arrived, ?_, final⟩
    unfold carry
    rw [handled]
    rfl
  | succ left ih =>
    intro hop sent total outbound fuel enough
    obtain ⟨fuel, rfl⟩ := Nat.exists_eq_succ_of_ne_zero (by omega : fuel ≠ 0)
    obtain ⟨passed, forwarded, next⟩ := route.pass (by omega) outbound
    obtain ⟨arrived, carried, final⟩ := ih (hop + 1) passed (by omega) next fuel (by omega)
    refine ⟨arrived, ?_, final⟩
    unfold carry
    rw [forwarded]
    dsimp only
    rw [route.links (hop + 1) (by omega)]
    dsimp only
    rw [carried]
    rfl

/-- The response on its way into `node hop`. -/
structure Returning (smp : Smp) (entry : Nat → Nat) (hop : Nat) (sent : Smp) : Prop where
  direction : sent.direction = true
  hopPtr : sent.hopPtr = hop + 1
  hopCnt : sent.hopCnt = smp.hopCnt
  slid : sent.drSlid = IB_LID_PERMISSIVE
  dlid : sent.drDlid = IB_LID_PERMISSIVE
  returnPath : ∀ behind : Nat, 1 ≤ behind → behind ≤ smp.hopCnt →
    readPath sent.returnPath behind = some (entry behind)

def Smp.response (smp : Smp) : Smp := { smp with direction := true }

variable (route : Route fabric smp node exit entry)

include route

theorem Route.reply (final : Arrived smp entry arrived) :
    ∃ sent, handleOutgoingDrSmp (fabric.device (node smp.hopCnt)) (entry smp.hopCnt) arrived.response =
        some (.wire sent) ∧ Returning smp entry (smp.hopCnt - 1) sent := by
  obtain ⟨hopPtr, hopCnt, slid, dlid, returnPath⟩ := final
  have counted := route.few_hops
  have pos := route.some_hop
  have next : readPath arrived.response.returnPath ((arrived.response.hopPtr - 1 : Nat) : Int) =
      some (entry smp.hopCnt) := by
    change readPath arrived.returnPath ((arrived.hopPtr - 1 : Nat) : Int) = _
    rw [hopPtr, Nat.add_sub_cancel]
    exact returnPath smp.hopCnt pos le_rfl
  have routed := smiHandleDrSmpSend_back (fabric.device (node smp.hopCnt)).isSwitch arrived.response rfl
    (by change arrived.hopCnt < 64; omega)
    (by change 2 ≤ arrived.hopPtr; omega) (by change arrived.hopPtr ≤ arrived.hopCnt + 1; omega)
    (.inl (by change arrived.hopPtr = arrived.hopCnt + 1; omega)) next
  refine ⟨_, handleOutgoingDrSmp_wire dlid routed ?_ ?_, ?_⟩
  · nofun
  · intro _
    change 1 ≤ arrived.hopPtr - 1
    omega
  exact
    { direction := rfl
      hopPtr := by change arrived.hopPtr - 1 = _; omega
      hopCnt := hopCnt
      slid := slid
      dlid := dlid
      returnPath := returnPath }

theorem Route.passBack (inner : hop + 1 < smp.hopCnt) (returning : Returning smp entry (hop + 1) sent) :
    ∃ passed, handleIbSmi (fabric.device (node (hop + 1))) (exit (hop + 1)) sent =
        some (.forwarded (entry (hop + 1)) (.wire passed)) ∧
      Returning smp entry hop passed := by
  obtain ⟨direction, hopPtr, hopCnt, slid, dlid, returnPath⟩ := returning
  have counted := route.few_hops
  have switch := route.switches (hop + 1) (by omega) inner
  have next : readPath sent.returnPath ((sent.hopPtr - 1 : Nat) : Int) = some (entry (hop + 1)) := by
    rw [hopPtr, Nat.add_sub_cancel]
    exact returnPath (hop + 1) (by omega) (by omega)
  have received := smiHandleDrSmpRecv_back (exit (hop + 1)) direction (by omega) (by omega)
    (by omega) switch next (route.entry_present (by omega))
  have routed := smiHandleDrSmpSend_back _ sent direction (by omega) (by omega) (by omega) (.inr switch) next
  have turned : ¬ sent.direction = false := by
    rw [direction]
    decide
  refine ⟨{ sent with hopPtr := sent.hopPtr - 1 }, ?_, ?_⟩
  · refine handleIbSmi_forward received ?_ switch ?_ (handleOutgoingDrSmp_wire ?_ routed ?_ ?_)
    · unfold smiCheckForwardDrSmp
      rw [if_neg turned, if_pos (by omega)]
    · unfold smiGetFwdPort
      rw [if_neg turned, ← next]
      congr 1
      omega
    · rw [direction]
      exact dlid
    · intro outward
      exact absurd outward turned
    · intro _
      dsimp only
      omega
  · exact
      { direction := direction
        hopPtr := by dsimp only; omega
        hopCnt := hopCnt
        slid := slid
        dlid := dlid
        returnPath := returnPath }

theorem Route.home (returning : Returning smp entry 0 sent) :
    handleIbSmi (fabric.device (node 0)) (exit 0) sent = some (.handled { sent with hopPtr := 0 }) := by
  obtain ⟨direction, hopPtr, hopCnt, slid, dlid, returnPath⟩ := returning
  have counted := route.few_hops
  have pos := route.some_hop
  have turned : ¬ sent.direction = false := by
    rw [direction]
    decide
  have up : smiCheckForwardDrSmp { sent with hopPtr := 0 } = .localUp := by
    unfold smiCheckForwardDrSmp
    dsimp only
    rw [if_neg turned, if_neg (by omega), if_neg (by omega)]
  unfold handleIbSmi
  rw [smiHandleDrSmpRecv_home direction (by omega) (by omega) (by omega) slid, bind_some]
  dsimp only
  rw [if_neg (by decide), up]

theorem Route.carriedBack (hop) : ∀ sent, hop < smp.hopCnt → Returning smp entry hop sent → ∀ fuel, hop < fuel
    → ∃ home, carry fabric fuel (node hop) (exit hop) sent = some ⟨returnTrace node exit hop, .delivered
    (node 0) home⟩ ∧ home.hopPtr = 0 := by
  induction hop with
  | zero =>
    intro sent inner returning fuel enough
    obtain ⟨fuel, rfl⟩ := Nat.exists_eq_succ_of_ne_zero (by omega : fuel ≠ 0)
    refine ⟨{ sent with hopPtr := 0 }, ?_, rfl⟩
    unfold carry
    rw [route.home returning]
    rfl
  | succ hop ih =>
    intro sent inner returning fuel enough
    obtain ⟨fuel, rfl⟩ := Nat.exists_eq_succ_of_ne_zero (by omega : fuel ≠ 0)
    obtain ⟨passed, forwarded, next⟩ := route.passBack inner returning
    obtain ⟨home, carried, final⟩ := ih passed (by omega) next fuel (by omega)
    refine ⟨home, ?_, final⟩
    unfold carry
    rw [forwarded]
    dsimp only
    rw [route.back (by omega)]
    dsimp only
    rw [carried]
    rfl

theorem Route.delivered {fuel} (enough : smp.hopCnt ≤ fuel) :
    ∃ arrived, emit fabric fuel (node 0) (exit 0) smp =
        some ⟨forwardTrace node entry 1 (smp.hopCnt - 1), .delivered (node smp.hopCnt) arrived⟩ ∧
      Arrived smp entry arrived := by
  have pos := route.some_hop
  obtain ⟨sent, outgoing, outbound⟩ := route.leave
  obtain ⟨arrived, carried, final⟩ :=
    route.carried (smp.hopCnt - 1) 0 sent (by omega) outbound fuel (by omega)
  refine ⟨arrived, ?_, final⟩
  unfold emit
  rw [outgoing]
  rw [route.links 0 (by omega)]
  exact carried

theorem Route.returned (final : Arrived smp entry arrived) {fuel} (enough : smp.hopCnt ≤ fuel) :
    ∃ home, emit fabric fuel (node smp.hopCnt) (entry smp.hopCnt) arrived.response =
        some ⟨returnTrace node exit (smp.hopCnt - 1), .delivered (node 0) home⟩ ∧ home.hopPtr = 0 := by
  have pos := route.some_hop
  obtain ⟨sent, outgoing, returning⟩ := route.reply final
  obtain ⟨home, carried, ended⟩ :=
    route.carriedBack (smp.hopCnt - 1) sent (by omega) returning fuel (by omega)
  refine ⟨home, ?_, ended⟩
  have back := route.back (by omega : smp.hopCnt - 1 < smp.hopCnt)
  rw [Nat.sub_add_cancel pos] at back
  unfold emit
  rw [outgoing]
  rw [back]
  exact carried

omit route

/-- A request that follows links through switches is delivered to the node at their end, with the entry port
of every hop in its return path. Its response enters the ports it left by, in reverse, and is delivered to
its sender with the pointer at 0. The paths of no received or outgoing SMP are indexed outside their
entries. -/
theorem directed_route_retraced (fabric : Fabric Node) :
    (∀ smp node exit entry, Route fabric smp node exit entry → ∀ fuel, smp.hopCnt ≤ fuel →
      ∃ arrived, emit fabric fuel (node 0) (exit 0) smp =
          some ⟨forwardTrace node entry 1 (smp.hopCnt - 1), .delivered (node smp.hopCnt) arrived⟩ ∧
        (∀ hop : Nat, 1 ≤ hop → hop ≤ smp.hopCnt → readPath arrived.returnPath hop = some (entry hop)) ∧
        ∃ home, emit fabric fuel (node smp.hopCnt) (entry smp.hopCnt) arrived.response =
            some ⟨returnTrace node exit (smp.hopCnt - 1), .delivered (node 0) home⟩ ∧
          home.hopPtr = 0) ∧
    ∀ device port smp,
      (handleIbSmi device port smp).isSome ∧ (handleOutgoingDrSmp device port smp).isSome := by
  refine ⟨?_, ?_⟩
  · intro smp node exit entry route fuel enough
    obtain ⟨arrived, delivered, final⟩ := route.delivered enough
    obtain ⟨home, returned, ended⟩ := route.returned final enough
    exact ⟨arrived, delivered, final.returnPath, home, returned, ended⟩
  · intro device port smp
    exact ⟨handleIbSmi_inside device port smp, handleOutgoingDrSmp_inside device port smp⟩

/-- Two adapters, nodes 0 and 2, on ports 1 and 2 of a switch. -/
def twoAdapters : Fabric (Fin 3) where
  device node :=
    if node = 1 then { isSwitch := true, physPortCnt := 2, processMad := true }
    else { isSwitch := false, physPortCnt := 1, processMad := true }
  link node port :=
    if node = 0 ∧ port = 1 then some (1, 1)
    else if node = 1 ∧ port = 1 then some (0, 1)
    else if node = 1 ∧ port = 2 then some (2, 1)
    else if node = 2 ∧ port = 1 then some (1, 2)
    else none
  linkBack := by
    intro node port far entry linked
    split_ifs at linked with here here here here
    all_goals
      obtain ⟨rfl, rfl⟩ := here
      cases linked
      decide
  portExists := by
    intro node port far entry linked
    split_ifs at linked with here here here here
    all_goals
      obtain ⟨rfl, rfl⟩ := here
      cases linked
      decide
  portByte := by decide

def twoHops : Smp where
  direction := false
  hopPtr := 0
  hopCnt := 2
  drSlid := IB_LID_PERMISSIVE
  drDlid := IB_LID_PERMISSIVE
  initialPath index := if index = 1 then 1 else if index = 2 then 2 else 0
  returnPath _ := 0

theorem twoHops_retraced : ∃ arrived,
      emit twoAdapters 2 0 1 twoHops = some ⟨[(1, 1), (2, 1)], .delivered 2 arrived⟩ ∧
      readPath arrived.returnPath 1 = some 1 ∧ readPath arrived.returnPath 2 = some 1 ∧
      ∃ home, emit twoAdapters 2 2 1 arrived.response = some ⟨[(1, 2), (0, 1)], .delivered 0 home⟩ ∧
        home.hopPtr = 0 := by
  have route : Route twoAdapters twoHops (fun hop => if hop = 0 then 0 else if hop = 1 then 1 else 2)
      (fun hop => if hop = 0 then 1 else 2) (fun _ => 1) :=
    { request := rfl
      start := rfl
      some_hop := by decide
      few_hops := by decide
      slid := rfl
      dlid := rfl
      path := by decide
      links := by decide
      switches hop lower upper := by
        have middle : hop = 1 := by
          change hop < 2 at upper
          omega
        subst middle
        rfl
      endpoint := rfl }
  obtain ⟨arrived, delivered, entries, home, returned, ended⟩ :=
    (directed_route_retraced twoAdapters).1 twoHops _ _ _ route 2 (Nat.le_refl 2)
  exact ⟨arrived, delivered, entries 1 (by decide) (by decide), entries 2 (by decide) (by decide), home,
    returned, ended⟩

end MlnxOfed.Smi
