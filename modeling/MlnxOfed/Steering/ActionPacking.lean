/-
Packing in format v1: single, double and triple actions stay inside the action area of their entry, no two
meet, and the size left never goes below zero.
-/

import MlnxOfed.Steering.ActionStes

namespace MlnxOfed.Steering.SteV1

open List Lib MlnxOfed.Lib.SpanChain StePlan

/-! ### The action area -/

/-- The first entry of the chain is the matcher's; those that are added match nothing. -/
def areaByte (lastSteIsMatch : Bool) (record : Nat) : Nat :=
  if record = 0 ∧ lastSteIsMatch = false then bwcAction else matchAction

def areaEnd : Nat := 32

abbrev Entry := SpanWrite (Option DrActionType) SteData

def Entry.IsCounter (entry : Entry) : Prop :=
  entry.tag = some .ctr ∧ entry.spans = [counterId]

def Entry.InArea (lastSteIsMatch : Bool) (entry : Entry) : Prop :=
  ∃ byte size, entry.spans = [⟨8 * byte, 8 * size⟩] ∧
    areaByte lastSteIsMatch entry.record ≤ byte ∧ byte + size ≤ areaEnd

theorem matchAction_le_areaByte (lastSteIsMatch record) : matchAction ≤ areaByte lastSteIsMatch record := by
  unfold areaByte
  split <;> decide

private theorem areaByte_succ (lastSteIsMatch record) : areaByte lastSteIsMatch (record + 1) = matchAction := by
  simp [areaByte]

namespace Cursor

structure Packed (lastSteIsMatch : Bool) (cursor : Cursor) : Prop where
  sound : cursor.chain.Sound
  room : cursor.actionSz ≤ actionTripleSz
  begins : areaByte lastSteIsMatch cursor.chain.added ≤ cursor.action
  meets : cursor.actionSz = 0 ∨ cursor.action + cursor.actionSz = areaEnd
  noUnderflow : cursor.underflow = false
  filled : ∀ entry ∈ cursor.chain.writes, Entry.IsCounter entry ∨ Entry.InArea lastSteIsMatch entry
  behind : ∀ entry ∈ cursor.chain.writes, entry.record = cursor.chain.added →
    ∀ span ∈ entry.spans, span.stop + 8 * cursor.actionSz ≤ 8 * areaEnd

structure Packs (lastSteIsMatch : Bool) (gains : Option DrActionType → Nat) (limit : Nat)
    (before after : Cursor) : Prop where
  packed : Packed lastSteIsMatch after
  grows : Grows gains limit before.chain after.chain

section Steps

variable {lastSteIsMatch : Bool} {cursor : Cursor}

theorem Packed.allow (packed : Packed lastSteIsMatch cursor) (modifyHdr encap ctr) :
    Packed lastSteIsMatch (cursor.allow modifyHdr encap ctr) :=
  { packed with }

theorem Packs.allow {gains limit after}
    (packs : Packs lastSteIsMatch gains limit cursor after) (modifyHdr encap ctr) :
    Packs lastSteIsMatch gains limit cursor (after.allow modifyHdr encap ctr) :=
  ⟨packs.packed.allow _ _ _, packs.grows⟩

variable {gains more : Option DrActionType → Nat} {limit further : Nat}

theorem Packs.widen {after} (packs : Packs lastSteIsMatch gains limit cursor after)
    (same : ∀ tag, gains tag = more tag) (below : limit ≤ further) :
    Packs lastSteIsMatch more further cursor after :=
  ⟨packs.packed, packs.grows.widen same below⟩

theorem Packs.trans {middle after} (early : Packs lastSteIsMatch gains limit cursor middle)
    (late : Packs lastSteIsMatch more further middle after) :
    Packs lastSteIsMatch (fun tag => gains tag + more tag) (limit + further) cursor after :=
  ⟨late.packed, early.grows.trans late.grows⟩

theorem Packs.refl (packed : Packed lastSteIsMatch cursor) :
    Packs lastSteIsMatch (fun _ => 0) 0 cursor cursor :=
  ⟨packed, Grows.refl _⟩

theorem Packed.begin (lastSteIsMatch) : Packed lastSteIsMatch (begin lastSteIsMatch) := by
  refine ⟨Sound.begin, ?_, ?_, .inr ?_, rfl, by simp [Cursor.begin, SpanChain.begin],
    by simp [Cursor.begin, SpanChain.begin]⟩ <;>
    cases lastSteIsMatch <;> decide

variable (packed : Packed lastSteIsMatch cursor)

include packed

theorem arrInitNextMatch_packs : Packs lastSteIsMatch (fun _ => 0) 1 cursor cursor.arrInitNextMatch := by
  refine ⟨⟨packed.sound.next, le_rfl, ?_, .inr rfl, packed.noUnderflow, packed.filled, ?_⟩, Grows.next _⟩
  · exact le_of_eq (areaByte_succ _ _)
  · intro entry mem here
    have before := packed.sound.recorded entry mem
    simp only [arrInitNextMatch, next_added] at here
    omega

variable {size moved : Nat}

theorem put_packs (pos : 0 < size) (fits : size ≤ cursor.actionSz)
    (advanced : moved = size ∨ (moved = 0 ∧ size = cursor.actionSz)) (type data) :
    Packs lastSteIsMatch (times (some type) 1) 0 cursor
      (((cursor.put type size data).consume size).advance moved) := by
  have room : cursor.actionSz ≤ 12 := packed.room
  have left : (cursor.actionSz + 256 - size) % 256 = cursor.actionSz - size := by omega
  have joined : cursor.action + cursor.actionSz = 32 := by
    rcases packed.meets with none | joined
    · omega
    · exact joined
  have apart : cursor.chain.Vacant [⟨8 * cursor.action, 8 * size⟩] := by
    intro entry mem here span taken other added
    have behind := packed.behind entry mem here span taken
    rw [mem_singleton.mp added]
    refine .inl ?_
    simp only [areaEnd] at behind ⊢
    omega
  refine ⟨⟨packed.sound.write apart _ _, ?_, ?_, ?_, ?_, ?_, ?_⟩, Grows.write _ _ _ _⟩
  · simp only [advance, consume, put, left, actionTripleSz]
    omega
  · exact le_trans packed.begins (Nat.le_add_right _ _)
  · simp only [advance, consume, put, left, areaEnd]
    omega
  · simp only [advance, consume, put, packed.noUnderflow, Bool.false_or, decide_eq_false_iff_not]
    omega
  · intro entry mem
    rcases mem_append.mp mem with old | added
    · exact packed.filled entry old
    · rw [mem_singleton.mp added]
      exact .inr ⟨cursor.action, size, rfl, packed.begins, by simp only [areaEnd]; omega⟩
  intro entry mem here span taken
  simp only [advance, consume, put, left, areaEnd]
  rcases mem_append.mp mem with old | added
  · have behind := packed.behind entry old here span taken
    simp only [areaEnd] at behind
    omega
  · rw [mem_singleton.mp added] at taken
    rw [mem_singleton.mp taken]
    simp only [Span.stop]
    omega

theorem place_packs {size} (pos : 0 < size) (fits : size ≤ cursor.actionSz) (type data) :
    Packs lastSteIsMatch (times (some type) 1) 0 cursor (cursor.place type size data) :=
  put_packs packed pos fits (.inl rfl) type data

theorem spill_packs {needed : Prop} [Decidable needed] (pos : 0 < size) (small : size ≤ actionTripleSz)
    (fits : ¬ needed → size ≤ cursor.actionSz) (advanced : moved = size ∨ (moved = 0 ∧ size = actionTripleSz))
    (modifyHdr encap ctr type data) :
    Packs lastSteIsMatch (times (some type) 1) 1 cursor
      ((((if needed then cursor.arrInitNextMatch.allow modifyHdr encap ctr else cursor).put
        type size data).consume size).advance moved) := by
  split_ifs with spills
  · have opened := (arrInitNextMatch_packs packed).allow modifyHdr encap ctr
    refine (opened.trans (put_packs opened.packed pos small ?_ type data)).widen (fun tag => zero_add _) le_rfl
    exact advanced
  have room := packed.room
  have sized := fits spills
  refine (put_packs packed pos sized ?_ type data).widen (fun _ => rfl) (Nat.zero_le _)
  rcases advanced with moves | ⟨stays, full⟩
  · exact .inl moves
  · exact .inr ⟨stays, by omega⟩

theorem putCounterId_packs (first : cursor.chain.tally (some .ctr) = 0) (plan) :
    Packs lastSteIsMatch (times (some .ctr) 1) 0 cursor (cursor.putCounterId plan) := by
  have apart : cursor.chain.Vacant [counterId] := by
    intro entry mem here span taken other added
    rcases packed.filled entry mem with ⟨counts, _⟩ | ⟨byte, size, spans, low, _⟩
    · exact absurd counts (not_tagged first entry mem)
    have area := matchAction_le_areaByte lastSteIsMatch entry.record
    rw [spans] at taken
    rw [mem_singleton.mp taken, mem_singleton.mp added]
    refine .inr ?_
    simp only [counterId, Span.stop, matchAction] at area ⊢
    omega
  refine ⟨{ packed with
    sound := packed.sound.write apart _ _
    filled := ?_
    behind := ?_ }, Grows.write _ _ _ _⟩
  · intro entry mem
    rcases mem_append.mp mem with old | added
    · exact packed.filled entry old
    · rw [mem_singleton.mp added]
      exact .inl ⟨rfl, rfl⟩
  intro entry mem here span taken
  rcases mem_append.mp mem with old | added
  · exact packed.behind entry old here span taken
  · have room := packed.room
    rw [mem_singleton.mp added] at taken
    rw [mem_singleton.mp taken]
    simp only [counterId, Span.stop, areaEnd, actionTripleSz, putCounterId] at room ⊢
    omega

omit packed

end Steps

/-- Of the types that share `attr.reformat` one is written. -/
def reformatType (plan : StePlan) : Option DrActionType :=
  if plan.has .l2ToTnlL2 then some .l2ToTnlL2
  else if plan.has .l2ToTnlL3 then some .l2ToTnlL3
  else if plan.has .insertHdr then some .insertHdr
  else none

def reformatGains (plan : StePlan) : Option DrActionType → Nat :=
  match reformatType plan with
  | some type => times (some type) 1
  | none => fun _ => 0

section Parts

variable {lastSteIsMatch : Bool} {cursor : Cursor} (plan : StePlan)

variable (packed : Packed lastSteIsMatch cursor)

include packed

variable {type : DrActionType}

theorem uses_packs {limit used}
    (packs : plan.has type = true → Packs lastSteIsMatch (times (some type) 1) limit cursor used) :
    Packs lastSteIsMatch (times (some type) (plan.uses type)) limit cursor
      (if plan.has type = true then used else cursor) := by
  split_ifs with here
  · exact (packs here).widen (uses_present here) le_rfl
  · exact (Packs.refl packed).widen (uses_absent here) (Nat.zero_le _)

theorem setAsoFlowMeter_packs :
    Packs lastSteIsMatch (times (some .asoFlowMeter) (plan.uses .asoFlowMeter)) 1 cursor
      (cursor.setAsoFlowMeter plan) := by
  refine uses_packs plan packed fun _ => ?_
  exact spill_packs packed (by decide : 0 < actionDoubleSz) (by decide)
    (fun roomy => Nat.le_of_not_lt roomy) (.inl rfl) cursor.allowModifyHdr cursor.allowEncap
    cursor.allowCtr .asoFlowMeter (asoData plan.attr)

omit packed in
theorem foldl_packs {step} (each : ∀ cursor index, Packed lastSteIsMatch cursor →
      Packs lastSteIsMatch (times (some type) 1) 1 cursor (step cursor index))
    (packed : Packed lastSteIsMatch cursor) (count) :
    Packs lastSteIsMatch (times (some type) count) count cursor ((range count).foldl step cursor) := by
  induction count with
  | zero => exact (Packs.refl packed).widen (fun tag => by simp [times]) le_rfl
  | succ count ih =>
    rw [range_succ, foldl_append]
    exact (ih.trans (each _ count ih.packed)).widen (times_succ _ _) le_rfl

private theorem setTxCtr_packs (first : cursor.chain.tally (some .ctr) = 0) :
    Packs lastSteIsMatch (times (some .ctr) (plan.uses .ctr)) 0 cursor (cursor.setTxCtr plan) :=
  uses_packs plan packed fun _ => putCounterId_packs packed first plan

private theorem setTxModifyHdr_packs (roomy : actionDoubleSz ≤ cursor.actionSz) :
    Packs lastSteIsMatch (times (some .modifyHdr) (plan.uses .modifyHdr)) 0 cursor
      (cursor.setTxModifyHdr plan) := by
  refine uses_packs plan packed fun _ => ?_
  have packs := place_packs packed (by decide : 0 < actionDoubleSz) roomy .modifyHdr (modifyData plan.attr)
  exact packs.allow cursor.allowModifyHdr false cursor.allowCtr

omit packed in
private theorem setTxPushVlan_packs (cursor index) (packed : Packed lastSteIsMatch cursor) :
    Packs lastSteIsMatch (times (some .pushVlan) 1) 1 cursor (cursor.setTxPushVlan plan index) :=
  spill_packs packed (by decide : 0 < actionDoubleSz) (by decide)
    (fun stays => Nat.le_of_not_lt (fun short => stays (.inl short))) (.inl rfl)
    cursor.allowModifyHdr true cursor.allowCtr .pushVlan (.pushVlan (plan.vlanHdr index))

private theorem setTxPushVlans_packs : Packs lastSteIsMatch (times (some .pushVlan) (plan.vlanWrites .pushVlan))
      plan.attr.vlans.count cursor (cursor.setTxPushVlans plan) := by
  unfold setTxPushVlans
  split_ifs with here
  · refine (foldl_packs (setTxPushVlan_packs plan) packed _).widen (fun tag => ?_) le_rfl
    simp [vlanWrites, here]
  · exact (Packs.refl packed).widen (vlanWrites_absent here) (Nat.zero_le _)

theorem reformat_packs {encapped encapped3 inserted}
    (encap : Packs lastSteIsMatch (times (some .l2ToTnlL2) 1) 1 cursor encapped)
    (encapL3 : Packs lastSteIsMatch (times (some .l2ToTnlL3) 1) 1 cursor encapped3)
    (insert : Packs lastSteIsMatch (times (some .insertHdr) 1) 1 cursor inserted) :
    Packs lastSteIsMatch (reformatGains plan) 1 cursor (if plan.has .l2ToTnlL2 = true then encapped
        else if plan.has .l2ToTnlL3 = true then encapped3
        else if plan.has .insertHdr = true then inserted else cursor) := by
  unfold reformatGains reformatType
  by_cases hasEncap : plan.has .l2ToTnlL2 = true
  · rw [if_pos hasEncap, if_pos hasEncap]
    exact encap
  rw [if_neg hasEncap, if_neg hasEncap]
  by_cases hasEncapL3 : plan.has .l2ToTnlL3 = true
  · rw [if_pos hasEncapL3, if_pos hasEncapL3]
    exact encapL3
  · rw [if_neg hasEncapL3, if_neg hasEncapL3]
    split_ifs
    · exact insert
    · exact (Packs.refl packed).widen (fun _ => rfl) (Nat.zero_le _)

private theorem setTxReformat_packs :
    Packs lastSteIsMatch (reformatGains plan) 1 cursor (cursor.setTxReformat plan) := by
  refine reformat_packs plan packed ?_ ?_ ?_
  · exact spill_packs packed (by decide : 0 < actionDoubleSz) (by decide)
      (fun stays => Nat.le_of_not_lt (fun short => stays (.inr short))) (.inl rfl)
      cursor.allowModifyHdr true cursor.allowCtr .l2ToTnlL2 (encapData plan.attr)
  · exact spill_packs packed (by decide : 0 < actionTripleSz) le_rfl
      (fun roomy => Nat.le_of_not_lt roomy) (.inl rfl) cursor.allowModifyHdr
      cursor.allowEncap cursor.allowCtr .l2ToTnlL3 (encapL3Data plan.attr)
  · exact spill_packs packed (by decide : 0 < actionDoubleSz) (by decide)
      (fun stays => Nat.le_of_not_lt (fun short => stays (.inr short))) (.inl rfl)
      cursor.allowModifyHdr cursor.allowEncap cursor.allowCtr .insertHdr (insertHdrData plan.attr)

/-! #### Receive -/

omit packed in
def decapType (plan : StePlan) : Option DrActionType :=
  if plan.has .tnlL3ToL2 then some .tnlL3ToL2
  else if plan.has .tnlL2ToL2 then some .tnlL2ToL2
  else none

omit packed in
def decapGains (plan : StePlan) : Option DrActionType → Nat :=
  match decapType plan with
  | some type => times (some type) 1
  | none => fun _ => 0

private theorem setRxDecap_packs (roomy : actionDoubleSz ≤ cursor.actionSz) :
    Packs lastSteIsMatch (decapGains plan) 0 cursor (cursor.setRxDecap plan) := by
  unfold setRxDecap decapGains decapType
  by_cases decapL3 : plan.has .tnlL3ToL2 = true
  · rw [if_pos decapL3, if_pos decapL3]
    exact (place_packs packed (by decide : 0 < actionDoubleSz) roomy .tnlL3ToL2 _).allow _ _ _
  rw [if_neg decapL3, if_neg decapL3]
  split_ifs
  · have roomier : actionSingleSz ≤ cursor.actionSz :=
      le_trans (by decide : actionSingleSz ≤ actionDoubleSz) roomy
    exact (place_packs packed (by decide : 0 < actionSingleSz) roomier .tnlL2ToL2 _).allow _ _ _
  · exact Packs.refl packed

omit packed in
private theorem setRxPopVlan_packs (cursor index) (packed : Packed lastSteIsMatch cursor) :
    Packs lastSteIsMatch (times (some .popVlan) 1) 1 cursor (cursor.setRxPopVlan index) :=
  spill_packs packed (by decide : 0 < actionSingleSz) (by decide)
    (fun stays => Nat.le_of_not_lt (fun short => stays (.inl short))) (.inl rfl)
    false false false .popVlan .popVlan

private theorem setRxPopVlans_packs : Packs lastSteIsMatch (times (some .popVlan) (plan.vlanWrites .popVlan))
      plan.attr.vlans.count cursor (cursor.setRxPopVlans plan) := by
  unfold setRxPopVlans
  split_ifs with here
  · refine (foldl_packs setRxPopVlan_packs packed _).widen (fun tag => ?_) le_rfl
    simp [vlanWrites, here]
  · exact (Packs.refl packed).widen (vlanWrites_absent here) (Nat.zero_le _)

private theorem setRxFlowTag_packs : Packs lastSteIsMatch (times (some .tag) (plan.uses .tag)) 1 cursor
      (cursor.setRxFlowTag plan) := by
  refine uses_packs plan packed fun _ => ?_
  exact spill_packs packed (by decide : 0 < actionSingleSz) (by decide)
    (fun roomy => Nat.le_of_not_lt roomy) (.inl rfl) true true true .tag
    (.flowTag plan.attr.flowTag)

omit packed in
def Level (cursor : Cursor) : Prop := cursor.allowModifyHdr = cursor.allowCtr

omit packed in
private theorem setRxDecap_level (level : Level cursor) : Level (cursor.setRxDecap plan) := by
  unfold setRxDecap
  split
  · rfl
  · split
    · rfl
    · exact level

omit packed in
private theorem setRxPopVlan_level (index) (level : Level cursor) : Level (cursor.setRxPopVlan index) := by
  unfold setRxPopVlan
  split
  · rfl
  · exact level

omit packed in
private theorem setRxPopVlans_level (level : Level cursor) : Level (cursor.setRxPopVlans plan) := by
  unfold setRxPopVlans
  split
  · generalize plan.attr.vlans.count = count
    induction count with
    | zero => exact level
    | succ count ih =>
      rw [range_succ, foldl_append]
      exact setRxPopVlan_level count ih
  · exact level

omit packed in
private theorem setRxFlowTag_level (level : Level cursor) : Level (cursor.setRxFlowTag plan) := by
  unfold setRxFlowTag
  split
  · split
    · rfl
    · exact level
  · exact level

private theorem setRxModifyHdr_packs : Packs lastSteIsMatch (times (some .modifyHdr) (plan.uses .modifyHdr))
      (plan.uses .modifyHdr) cursor (cursor.setRxModifyHdr plan) := by
  unfold setRxModifyHdr
  by_cases here : plan.has .modifyHdr = true
  · rw [if_pos here]
    have sized (stays : ¬ (cursor.allowModifyHdr = false ∨ cursor.actionSz < actionDoubleSz)) : actionDoubleSz
        ≤ cursor.actionSz := Nat.le_of_not_lt (fun short => stays (.inr short))
    have packs := spill_packs packed (by decide) (by decide) sized (.inl rfl)
      true cursor.allowEncap true .modifyHdr (modifyData plan.attr)
    refine (packs.allow _ false _).widen (uses_present here) ?_
    simp [uses, here]
  · rw [if_neg here]
    exact (Packs.refl packed).widen (uses_absent here) (Nat.zero_le _)

omit packed in
private theorem setRxModifyHdr_allowCtr (level : Level cursor) (present : plan.has .modifyHdr = true) :
    (cursor.setRxModifyHdr plan).allowCtr = true := by
  unfold setRxModifyHdr
  rw [if_pos present]
  by_cases spills : cursor.allowModifyHdr = false ∨ cursor.actionSz < actionDoubleSz
  · simp only [if_pos spills]
    rfl
  simp only [if_neg spills]
  have allowed : cursor.allowModifyHdr = true := by
    cases allowed : cursor.allowModifyHdr with
    | false => exact absurd (.inl allowed) spills
    | true => rfl
  exact level.symm.trans allowed

private theorem setRxCtr_packs (first : cursor.chain.tally (some .ctr) = 0) :
    Packs lastSteIsMatch (times (some .ctr) (plan.uses .ctr))
      (if cursor.allowCtr then 0 else 1) cursor (cursor.setRxCtr plan) := by
  refine uses_packs plan packed fun _ => ?_
  cases cursor.allowCtr with
  | true => exact putCounterId_packs packed first plan
  | false =>
    have opened := (arrInitNextMatch_packs packed).allow true false false
    exact (opened.trans (putCounterId_packs opened.packed first plan)).widen (fun tag => zero_add _) le_rfl

private theorem setRxReformat_packs :
    Packs lastSteIsMatch (reformatGains plan) 1 cursor (cursor.setRxReformat plan) := by
  refine reformat_packs plan packed ?_ ?_ ?_
  · exact (spill_packs packed (by decide : 0 < actionDoubleSz) (by decide)
      (fun roomy => Nat.le_of_not_lt roomy) (.inl rfl) cursor.allowModifyHdr
      cursor.allowEncap cursor.allowCtr .l2ToTnlL2 (encapData plan.attr)).allow false _ _
  · exact (spill_packs packed (by decide : 0 < actionTripleSz) le_rfl
      (fun roomy => Nat.le_of_not_lt roomy) (.inr ⟨rfl, rfl⟩) cursor.allowModifyHdr
      cursor.allowEncap cursor.allowCtr .l2ToTnlL3 (encapL3Data plan.attr)).allow false _ _
  · exact (spill_packs packed (by decide : 0 < actionDoubleSz) (by decide)
      (fun stays => Nat.le_of_not_lt (fun short => stays (.inr short))) (.inl rfl)
      cursor.allowModifyHdr cursor.allowEncap cursor.allowCtr .insertHdr
      (insertHdrData plan.attr)).allow false false _

omit packed

end Parts

def Entry.IsHit (plan : StePlan) (entry : Entry) : Prop :=
  entry.tag = plan.finalType ∧
    entry.spans = [nextTableBase63To48, nextTableBase39To32Size, nextTableBase31To5Size]

structure Complete (lastSteIsMatch : Bool) (plan : StePlan) (gains : Option DrActionType → Nat)
    (limit : Nat) (cursor : Cursor) : Prop where
  sound : cursor.chain.Sound
  noUnderflow : cursor.underflow = false
  filled : ∀ entry ∈ cursor.chain.writes,
    Entry.IsCounter entry ∨ Entry.InArea lastSteIsMatch entry ∨ Entry.IsHit plan entry
  grows : Grows gains limit SpanChain.begin cursor.chain

theorem setHit_complete {lastSteIsMatch plan gains}
    {limit cursor} (packs : Packs lastSteIsMatch gains limit (begin lastSteIsMatch) cursor) :
    Complete lastSteIsMatch plan (fun tag => gains tag + times plan.finalType 1 tag) limit
      (cursor.setHit plan) := by
  have packed := packs.packed
  have apart : cursor.chain.Vacant
      [nextTableBase63To48, nextTableBase39To32Size, nextTableBase31To5Size] := by
    intro entry mem here
    rcases packed.filled entry mem with ⟨_, spans⟩ | ⟨byte, size, spans, low, _⟩
    · rw [spans]
      decide
    have area := matchAction_le_areaByte lastSteIsMatch entry.record
    intro span taken other hit
    rw [spans] at taken
    rw [mem_singleton.mp taken]
    refine .inr ?_
    have early : other.stop ≤ 160 := by
      have every : ∀ field ∈ [nextTableBase63To48, nextTableBase39To32Size,
          nextTableBase31To5Size], field.stop ≤ 160 := by decide
      exact every other hit
    simp only [matchAction] at area ⊢
    omega
  refine ⟨packed.sound.write apart _ _, packed.noUnderflow, ?_, packs.grows.trans (Grows.write _ _ _ _)⟩
  intro entry mem
  rcases mem_append.mp mem with old | added
  · rcases packed.filled entry old with counts | inside
    · exact .inl counts
    · exact .inr (.inl inside)
  · rw [mem_singleton.mp added]
    exact .inr (.inr ⟨rfl, rfl⟩)

theorem begin_roomy (lastSteIsMatch) : actionDoubleSz ≤ (begin lastSteIsMatch).actionSz := by
  cases lastSteIsMatch <;> decide

def txGains (plan : StePlan) (tag : Option DrActionType) : Nat :=
  times (some .ctr) (plan.uses .ctr) tag + times (some .modifyHdr) (plan.uses .modifyHdr) tag +
    times (some .pushVlan) (plan.vlanWrites .pushVlan) tag + reformatGains plan tag +
    times (some .asoFlowMeter) (plan.uses .asoFlowMeter) tag + times plan.finalType 1 tag

theorem setActionsTx_complete (lastSteIsMatch plan) :
    Complete lastSteIsMatch plan (txGains plan) (plan.attr.vlans.count + 2)
      ((begin lastSteIsMatch).setActionsTx plan) := by
  have start := Packed.begin lastSteIsMatch
  have ctr := setTxCtr_packs plan start rfl
  have roomy : actionDoubleSz ≤ ((begin lastSteIsMatch).setTxCtr plan).actionSz := by
    unfold setTxCtr
    split
    · exact begin_roomy lastSteIsMatch
    · exact begin_roomy lastSteIsMatch
  have modify := ctr.trans (setTxModifyHdr_packs plan ctr.packed roomy)
  have push := modify.trans (setTxPushVlans_packs plan modify.packed)
  have reformat := push.trans (setTxReformat_packs plan push.packed)
  have meter := reformat.trans (setAsoFlowMeter_packs plan reformat.packed)
  exact setHit_complete (meter.widen (fun _ => rfl) (by omega))

def rxEarlyGains (plan : StePlan) (tag : Option DrActionType) : Nat :=
  decapGains plan tag + times (some .popVlan) (plan.vlanWrites .popVlan) tag +
    times (some .tag) (plan.uses .tag) tag + times (some .modifyHdr) (plan.uses .modifyHdr) tag

def rxGains (plan : StePlan) (tag : Option DrActionType) : Nat :=
  rxEarlyGains plan tag + times (some .ctr) (plan.uses .ctr) tag + reformatGains plan tag +
    times (some .asoFlowMeter) (plan.uses .asoFlowMeter) tag + times plan.finalType 1 tag

private theorem rxEarlyGains_ctr (plan) : rxEarlyGains plan (some .ctr) = 0 := by
  unfold rxEarlyGains decapGains decapType
  by_cases decapL3 : plan.has .tnlL3ToL2 = true
  · simp [decapL3, times]
  · by_cases decap : plan.has .tnlL2ToL2 = true <;> simp [decapL3, decap, times]

theorem setActionsRx_complete (lastSteIsMatch plan) :
    Complete lastSteIsMatch plan (rxGains plan) (plan.attr.vlans.count + 4)
      ((begin lastSteIsMatch).setActionsRx plan) := by
  have start := Packed.begin lastSteIsMatch
  have level : Level (begin lastSteIsMatch) := rfl
  have decap := setRxDecap_packs plan start (begin_roomy lastSteIsMatch)
  have pop := decap.trans (setRxPopVlans_packs plan decap.packed)
  have tag := pop.trans (setRxFlowTag_packs plan pop.packed)
  have tagLevel := setRxFlowTag_level plan (setRxPopVlans_level plan (setRxDecap_level plan level))
  have modify := tag.trans (setRxModifyHdr_packs plan tag.packed)
  have uncounted := (modify.grows.tally (some .ctr)).trans ((zero_add _).trans (rxEarlyGains_ctr plan))
  have ctr := modify.trans (setRxCtr_packs plan modify.packed uncounted)
  have reformat := ctr.trans (setRxReformat_packs plan ctr.packed)
  have meter := reformat.trans (setAsoFlowMeter_packs plan reformat.packed)
  refine setHit_complete (meter.widen (fun _ => rfl) ?_)
  by_cases here : plan.has .modifyHdr = true
  · rw [if_pos (setRxModifyHdr_allowCtr plan tagLevel here)]
    simp only [uses, here, if_true]
    omega
  · have unused : plan.uses .modifyHdr = 0 := if_neg here
    rw [unused]
    split <;> omega

end Cursor

end MlnxOfed.Steering.SteV1
