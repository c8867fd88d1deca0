/-
Writing the actions in format v0, where each has fields of its own: what shares an entry never shares a
field, and how many entries are added.
-/

import MlnxOfed.Steering.ActionStes

namespace MlnxOfed.Steering.SteV0

open Bool List Lib MlnxOfed.Lib.SpanChain StePlan

def hitSpans : List Span := [nextTableBase63To48, nextTableBase39To32Size, nextTableBase31To5Size]

def counterSpans : List Span := [counterTrigger15To0, counterTrigger23To16]

def rewriteSpans : List Span := [numberOfReWriteActions, headerReWriteActionsPointer]

def decapL3Spans : List Span :=
  [tunnelingAction, rxActionDescription, failOnError, numberOfReWriteActions, headerReWriteActionsPointer]

namespace Cursor

/-- What holds of the cursor after every step of `set_actions`. -/
structure Laid (cursor : Cursor) : Prop where
  sound : cursor.chain.Sound
  hit : ∀ entry ∈ cursor.chain.writes, SpansApart entry.spans hitSpans
  counter : ∀ entry ∈ cursor.chain.writes, entry.tag = some .ctr ∨ SpansApart entry.spans counterSpans

structure Lays (gains : Option DrActionType → Nat) (limit : Nat) (before after : Cursor) :
    Prop where
  laid : Laid after
  grows : Grows gains limit before.chain after.chain

section Steps

variable {cursor : Cursor} (plan : StePlan)

theorem Laid.begin (nicType) : Laid (begin nicType) :=
  ⟨Sound.begin, by simp [Cursor.begin, SpanChain.begin], by simp [Cursor.begin, SpanChain.begin]⟩

variable (laid : Laid cursor)

include laid

theorem Laid.setEntryType (entryType) : Laid (cursor.setEntryType entryType) := { laid with }

theorem Lays.refl : Lays (fun _ => 0) 0 cursor cursor := ⟨laid, Grows.refl _⟩

variable {gains more : Option DrActionType → Nat} {limit further : Nat}

omit laid in
theorem Lays.trans {middle after} (early : Lays gains limit cursor middle)
    (late : Lays more further middle after) :
    Lays (fun tag => gains tag + more tag) (limit + further) cursor after :=
  ⟨late.laid, early.grows.trans late.grows⟩

omit laid in
theorem Lays.widen {after} (lays : Lays gains limit cursor after) (same : ∀ tag, gains tag = more tag)
    (below : limit ≤ further) :
    Lays more further cursor after :=
  ⟨lays.laid, lays.grows.widen same below⟩

theorem arrInitNext_lays (entryType) : Lays (fun _ => 0) 1 cursor (cursor.arrInitNext entryType) :=
  ⟨⟨laid.sound.next, laid.hit, laid.counter⟩, Grows.next _⟩

theorem put_lays {spans} (vacant : cursor.chain.Vacant spans) (clear : SpansApart spans hitSpans)
    {type} (uncounted : type = .ctr ∨ SpansApart spans counterSpans) (data) :
    Lays (times (some type) 1) 0 cursor (cursor.put (some type) spans data) := by
  refine ⟨⟨laid.sound.write vacant _ _, ?_, ?_⟩, Grows.write _ _ _ _⟩
  · intro entry mem
    rcases mem_append.mp mem with old | added
    · exact laid.hit entry old
    · rw [mem_singleton.mp added]
      exact clear
  intro entry mem
  rcases mem_append.mp mem with old | added
  · exact laid.counter entry old
  · rw [mem_singleton.mp added]
    rcases uncounted with counter | apart
    · exact .inl (congrArg some counter)
    · exact .inr apart

omit laid in
theorem vacant_blank {chain : SteChain} (blank : chain.writes = []) (spans) : chain.Vacant spans := by
  intro entry member
  rw [blank] at member
  exact absurd member not_mem_nil

theorem setCounterId_lays (first : cursor.chain.tally (some .ctr) = 0) :
    Lays (times (some .ctr) (plan.uses .ctr)) 0 cursor (cursor.setCounterId plan) := by
  unfold setCounterId
  split_ifs with here
  · have vacant : cursor.chain.Vacant counterSpans := by
      intro entry mem _
      rcases laid.counter entry mem with counter | apart
      · exact absurd counter (not_tagged first entry mem)
      · exact apart
    exact (put_lays laid vacant (by decide) (.inl rfl) _).widen (uses_present here) le_rfl
  · exact (Lays.refl laid).widen (uses_absent here) le_rfl

theorem setRewriteActions_lays (vacant : cursor.chain.Vacant rewriteSpans) :
    Lays (times (some .modifyHdr) 1) 0 cursor (cursor.setRewriteActions plan) :=
  put_lays laid vacant (by decide) (.inr (by decide)) _

/-! ### Transmit -/

private theorem setTxModifyHdr_lays (blank : cursor.chain.writes = []) :
    Lays (times (some .modifyHdr) (plan.uses .modifyHdr)) 0 cursor (cursor.setTxModifyHdr plan) := by
  unfold setTxModifyHdr
  split_ifs with here
  · have lays := setRewriteActions_lays plan (laid.setEntryType .modifyPkt) (vacant_blank blank _)
    exact Lays.widen { lays with } (uses_present here) le_rfl
  · exact (Lays.refl laid).widen (uses_absent here) le_rfl

private theorem setTxPushVlan_lays {index}
    (blank : ¬ (index ≠ 0 ∨ plan.has .modifyHdr = true) → cursor.chain.writes = []) :
    Lays (times (some .pushVlan) 1) 1 cursor (cursor.setTxPushVlan plan index) := by
  unfold setTxPushVlan
  generalize spansEq : [actionType, encapPointerVlanData] ++ (if hasTxEncap plan then [goBack] else []) = spans
  have clear : SpansApart spans hitSpans ∧ SpansApart spans counterSpans := by
    rw [← spansEq]
    cases hasTxEncap plan <;> decide
  by_cases spills : index ≠ 0 ∨ plan.has .modifyHdr = true
  · simp only [if_pos spills]
    have opened := arrInitNext_lays laid .tx
    exact (opened.trans (put_lays opened.laid (laid.sound.vacant_next _) clear.1
      (.inr clear.2) _)).widen (fun _ => zero_add _) le_rfl
  · simp only [if_neg spills]
    exact (put_lays laid (vacant_blank (blank spills) _) clear.1 (.inr clear.2) _).widen
      (fun _ => rfl) (Nat.zero_le _)

private theorem setTxPushVlans_lays (blank : plan.has .modifyHdr = false → cursor.chain.writes = []) :
    Lays (times (some .pushVlan) (plan.vlanWrites .pushVlan)) plan.attr.vlans.count cursor
      (cursor.setTxPushVlans plan) := by
  unfold setTxPushVlans
  split_ifs with here
  · have pushed count : Lays (times (some .pushVlan) count) count cursor ((range count).foldl
        (setTxPushVlan plan) cursor) := by
      induction count with
      | zero => exact (Lays.refl laid).widen (fun tag => by simp [times]) le_rfl
      | succ count ih =>
        rw [range_succ, foldl_append]
        refine (ih.trans (setTxPushVlan_lays plan ih.laid ?_)).widen (times_succ _ _) le_rfl
        intro stays
        obtain ⟨zero, unmodified⟩ := not_or.mp stays
        have none : count = 0 := not_not.mp zero
        subst none
        exact blank (eq_false_iff.mpr unmodified)
    refine (pushed plan.attr.vlans.count).widen (fun tag => ?_) le_rfl
    simp [vlanWrites, here]
  · exact (Lays.refl laid).widen (vlanWrites_absent here) (Nat.zero_le _)

omit laid

/-- One of the two encapsulations is written; nothing else is written for a reformat. -/
def txEncapType (plan : StePlan) : Option DrActionType :=
  if plan.has .l2ToTnlL3 then some .l2ToTnlL3
  else if plan.has .l2ToTnlL2 then some .l2ToTnlL2
  else none

def txEncapGains (plan : StePlan) : Option DrActionType → Nat :=
  match txEncapType plan with
  | some type => times (some type) 1
  | none => fun _ => 0

private theorem setTxEncap_lays (laid : Laid cursor)
    (blank : ¬ (plan.has .modifyHdr || plan.has .pushVlan) = true → cursor.chain.writes = []) :
    Lays (txEncapGains plan) 1 cursor (cursor.setTxEncap plan) := by
  unfold setTxEncap txEncapGains txEncapType
  by_cases encap : hasTxEncap plan = true
  · rw [if_pos encap]
    generalize spansEq : [actionType, txActionDescription, encapPointerVlanData] ++
      (if plan.prioTagRequired then [goBack] else []) = spans
    have clear : SpansApart spans hitSpans ∧ SpansApart spans counterSpans := by
      rw [← spansEq]
      cases plan.prioTagRequired <;> decide
    have lays : ∀ type data, Lays (times (some type) 1) 1 cursor
        ((if plan.has .modifyHdr || plan.has .pushVlan then cursor.arrInitNext .tx
          else cursor).put (some type) spans data) := by
      intro type data
      split_ifs with spills
      · have opened := arrInitNext_lays laid .tx
        exact (opened.trans (put_lays opened.laid (laid.sound.vacant_next _) clear.1
          (.inr clear.2) _)).widen (fun _ => zero_add _) le_rfl
      · exact (put_lays laid (vacant_blank (blank spills) _) clear.1 (.inr clear.2) _).widen
          (fun _ => rfl) (Nat.zero_le _)
    by_cases encapL3 : plan.has .l2ToTnlL3 = true
    · rw [if_pos encapL3, if_pos encapL3]
      exact lays _ _
    have encapL2 : plan.has .l2ToTnlL2 = true := by
      rcases or_eq_true_iff.mp encap with l2 | l3
      · exact l2
      · exact absurd l3 encapL3
    rw [if_neg encapL3, if_neg encapL3, if_pos encapL2]
    exact lays _ _
  · rw [if_neg encap]
    have none := or_eq_false_iff.mp (eq_false_iff.mpr encap)
    rw [if_neg (eq_false_iff.mp none.2), if_neg (eq_false_iff.mp none.1)]
    exact (Lays.refl laid).widen (fun _ => rfl) (Nat.zero_le _)

end Steps

structure Complete (plan : StePlan) (gains : Option DrActionType → Nat) (limit : Nat)
    (cursor : Cursor) : Prop where
  sound : cursor.chain.Sound
  grows : Grows gains limit SpanChain.begin cursor.chain

theorem setHit_complete {plan gains limit}
    {nicType cursor} (lays : Lays gains limit (begin nicType) cursor) :
    Complete plan (fun tag => gains tag + times plan.finalType 1 tag) limit (cursor.setHit plan) :=
  ⟨lays.laid.sound.write (fun entry mem _ => lays.laid.hit entry mem) _ _,
    lays.grows.trans (Grows.write _ _ _ _)⟩

def txGains (plan : StePlan) (tag : Option DrActionType) : Nat :=
  times (some .modifyHdr) (plan.uses .modifyHdr) tag +
    times (some .pushVlan) (plan.vlanWrites .pushVlan) tag + txEncapGains plan tag +
    times (some .ctr) (plan.uses .ctr) tag + times plan.finalType 1 tag

private theorem txEncapGains_ctr (plan) : txEncapGains plan (some .ctr) = 0 := by
  unfold txEncapGains txEncapType
  by_cases encapL3 : plan.has .l2ToTnlL3 = true
  · simp [encapL3, times]
  · by_cases encap : plan.has .l2ToTnlL2 = true <;> simp [encapL3, encap, times]

theorem setActionsTx_complete (plan) : Complete plan (txGains plan) (plan.attr.vlans.count + 1)
      ((begin .tx).setActionsTx plan) := by
  have modify := setTxModifyHdr_lays plan (Laid.begin .tx) rfl
  have unmodified (absent : plan.has .modifyHdr = false) : ((begin .tx).setTxModifyHdr plan).chain.writes =
      [] := by
    unfold setTxModifyHdr
    rw [if_neg (eq_false_iff.mp absent)]
    rfl
  have push := modify.trans (setTxPushVlans_lays plan modify.laid unmodified)
  have unpushed : ¬ (plan.has .modifyHdr || plan.has .pushVlan) = true →
      (((begin .tx).setTxModifyHdr plan).setTxPushVlans plan).chain.writes = [] := by
    intro absent
    obtain ⟨noModify, noPush⟩ := or_eq_false_iff.mp (eq_false_iff.mpr absent)
    unfold setTxPushVlans
    rw [if_neg (eq_false_iff.mp noPush)]
    exact unmodified noModify
  have encap := push.trans (setTxEncap_lays plan push.laid unpushed)
  have uncounted := encap.grows.tally (some .ctr)
  have none : ((((begin .tx).setTxModifyHdr plan).setTxPushVlans plan).setTxEncap
      plan).chain.tally (some .ctr) = 0 := by
    rw [uncounted, txEncapGains_ctr]
    simp [times, Cursor.begin]
  have ctr := encap.trans (setCounterId_lays plan encap.laid none)
  exact setHit_complete (ctr.widen (fun _ => rfl) (by omega))

/-! ### Receive -/

section Receive

variable {cursor : Cursor} (plan : StePlan)

theorem vacant_mono {chain : SteChain} {spans fewer : List Span} (vacant : chain.Vacant spans)
    (subset : fewer ⊆ spans) : chain.Vacant fewer :=
  fun entry mem here span taken other asked =>
    vacant entry mem here span taken other (subset asked)

/-- An entry not of the rewriting type has room for a rewrite, or a flow tag. -/
def RewriteVacant (cursor : Cursor) : Prop :=
  cursor.entryType ≠ .modifyPkt → cursor.chain.Vacant rewriteSpans

def Undecapped (plan : StePlan) : Prop :=
  plan.has .tnlL3ToL2 = false ∧ plan.has .tnlL2ToL2 = false

private theorem setCounterId_vacant {spans} (vacant : cursor.chain.Vacant spans)
    (apart : SpansApart counterSpans spans) : (cursor.setCounterId plan).chain.Vacant spans := by
  unfold setCounterId
  split
  · exact vacant.write apart _ _
  · exact vacant

private theorem setRxDecapL3_lays (laid : Laid cursor) (vacant : cursor.chain.Vacant decapL3Spans) :
    Lays (times (some .tnlL3ToL2) (plan.uses .tnlL3ToL2)) 0 cursor (cursor.setRxDecapL3 plan) := by
  unfold setRxDecapL3
  split_ifs with here
  · have lays := put_lays (laid.setEntryType .modifyPkt) vacant (by decide)
      (.inr (by decide) : .tnlL3ToL2 = DrActionType.ctr ∨ _)
      (.decapL3 plan.attr.decapWithVlan plan.attr.decapActions plan.attr.decapIndex)
    exact Lays.widen { lays with } (uses_present here) le_rfl
  · exact (Lays.refl laid).widen (uses_absent here) le_rfl

theorem setRxDecapL3_vacant (vacant : cursor.chain.Vacant decapL3Spans) (absent : plan.has .tnlL3ToL2 = false) :
    (cursor.setRxDecapL3 plan).chain.Vacant decapL3Spans := by
  unfold setRxDecapL3
  rw [if_neg (eq_false_iff.mp absent)]
  exact vacant

private theorem setRxDecapL3_rewriteVacant (vacant : cursor.chain.Vacant decapL3Spans) :
    RewriteVacant (cursor.setRxDecapL3 plan) := by
  unfold setRxDecapL3
  split
  · exact fun other => absurd rfl other
  · exact fun _ => vacant_mono vacant (by decide)

private theorem setRxDecap_lays (laid : Laid cursor)
    (vacant : plan.has .tnlL2ToL2 = true → cursor.chain.Vacant decapL3Spans) :
    Lays (times (some .tnlL2ToL2) (plan.uses .tnlL2ToL2)) 0 cursor (cursor.setRxDecap plan) := by
  unfold setRxDecap
  split_ifs with here
  · exact (put_lays laid (vacant_mono (vacant here) (by decide)) (by decide)
      (.inr (by decide)) _).widen (uses_present here) le_rfl
  · exact (Lays.refl laid).widen (uses_absent here) le_rfl

private theorem setRxDecap_rewriteVacant (rewriteVacant : RewriteVacant cursor) :
    RewriteVacant (cursor.setRxDecap plan) := by
  unfold setRxDecap
  split
  · exact fun other => (rewriteVacant other).write (by decide) _ _
  · exact rewriteVacant

private theorem setRxDecap_vacant (vacant : cursor.chain.Vacant decapL3Spans) (absent : plan.has .tnlL2ToL2 = false) :
    (cursor.setRxDecap plan).chain.Vacant decapL3Spans := by
  unfold setRxDecap
  rw [if_neg (eq_false_iff.mp absent)]
  exact vacant

private theorem setRxPopVlan_lays (laid : Laid cursor) {index}
    (vacant : index = 0 → Undecapped plan → cursor.chain.Vacant decapL3Spans) :
    Lays (times (some .popVlan) 1) 1 cursor (cursor.setRxPopVlan plan index) := by
  unfold setRxPopVlan
  by_cases spills : index ≠ 0 ∨ plan.has .tnlL2ToL2 = true ∨ plan.has .tnlL3ToL2 = true
  · simp only [if_pos spills]
    have opened := arrInitNext_lays laid .rx
    exact (opened.trans (put_lays opened.laid (laid.sound.vacant_next _) (by decide)
      (.inr (by decide)) _)).widen (fun _ => zero_add _) le_rfl
  simp only [if_neg spills]
  obtain ⟨first, undecapped⟩ := not_or.mp spills
  obtain ⟨noDecap, noDecapL3⟩ := not_or.mp undecapped
  have free := vacant (not_not.mp first) ⟨eq_false_iff.mpr noDecapL3, eq_false_iff.mpr noDecap⟩
  exact (put_lays laid (vacant_mono free (by decide)) (by decide) (.inr (by decide)) _).widen
    (fun _ => rfl) (Nat.zero_le _)

private theorem setRxPopVlan_rewriteVacant (sound : cursor.chain.Sound) (index)
    (rewriteVacant : RewriteVacant cursor) : RewriteVacant (cursor.setRxPopVlan plan index) := by
  unfold setRxPopVlan
  by_cases spills : index ≠ 0 ∨ plan.has .tnlL2ToL2 = true ∨ plan.has .tnlL3ToL2 = true
  · simp only [if_pos spills]
    exact fun _ => (sound.vacant_next rewriteSpans).write (by decide) _ _
  · simp only [if_neg spills]
    exact fun other => (rewriteVacant other).write (by decide) _ _

private theorem setRxPopVlans_lays (laid : Laid cursor) (vacant : Undecapped plan → cursor.chain.Vacant decapL3Spans)
    (rewriteVacant : RewriteVacant cursor) :
    Lays (times (some .popVlan) (plan.vlanWrites .popVlan)) plan.attr.vlans.count cursor
        (cursor.setRxPopVlans plan) ∧ RewriteVacant (cursor.setRxPopVlans plan) := by
  unfold setRxPopVlans
  split_ifs with here
  · have popped count : Lays (times (some .popVlan) count) count cursor ((range count).foldl
        (setRxPopVlan plan) cursor) ∧ RewriteVacant ((range count).foldl (setRxPopVlan plan) cursor) := by
      induction count with
      | zero =>
        exact ⟨(Lays.refl laid).widen (fun tag => by simp [times]) le_rfl, rewriteVacant⟩
      | succ count ih =>
        obtain ⟨lays, stillVacant⟩ := ih
        rw [range_succ, foldl_append]
        refine ⟨(lays.trans (setRxPopVlan_lays plan lays.laid ?_)).widen (times_succ _ _)
          le_rfl, setRxPopVlan_rewriteVacant plan lays.laid.sound count stillVacant⟩
        intro zero undecapped
        subst zero
        exact vacant undecapped
    refine ⟨(popped plan.attr.vlans.count).1.widen (fun tag => ?_) le_rfl, (popped _).2⟩
    simp [vlanWrites, here]
  · exact ⟨(Lays.refl laid).widen (vlanWrites_absent here) (Nat.zero_le _), rewriteVacant⟩

private theorem setRxModifyHdr_lays (laid : Laid cursor) (rewriteVacant : RewriteVacant cursor) :
    Lays (times (some .modifyHdr) (plan.uses .modifyHdr)) 1 cursor (cursor.setRxModifyHdr plan) := by
  unfold setRxModifyHdr
  by_cases here : plan.has .modifyHdr = true
  · rw [if_pos here]
    split_ifs with spills
    · have opened := arrInitNext_lays laid .modifyPkt
      refine (opened.trans (setRewriteActions_lays plan opened.laid
        (laid.sound.vacant_next _))).widen (fun tag => ?_) le_rfl
      rw [zero_add]
      exact uses_present here tag
    · have lays := setRewriteActions_lays plan (laid.setEntryType .modifyPkt) (rewriteVacant spills)
      exact Lays.widen { lays with } (uses_present here) (Nat.zero_le _)
  · rw [if_neg here]
    exact (Lays.refl laid).widen (uses_absent here) (Nat.zero_le _)

private theorem setRxModifyHdr_rewriteVacant (rewriteVacant : RewriteVacant cursor) :
    RewriteVacant (cursor.setRxModifyHdr plan) := by
  unfold setRxModifyHdr
  split
  · split <;> exact fun other => absurd rfl other
  · exact rewriteVacant

private theorem setRxFlowTag_lays (laid : Laid cursor) (rewriteVacant : RewriteVacant cursor) :
    Lays (times (some .tag) (plan.uses .tag)) 1 cursor (cursor.setRxFlowTag plan) := by
  unfold setRxFlowTag
  by_cases here : plan.has .tag = true
  · rw [if_pos here]
    split_ifs with spills
    · have opened := arrInitNext_lays laid .rx
      refine (opened.trans (put_lays opened.laid (laid.sound.vacant_next _) (by decide)
        (.inr (by decide)) _)).widen (fun tag => ?_) le_rfl
      rw [zero_add]
      exact uses_present here tag
    · exact (put_lays laid (vacant_mono (rewriteVacant spills) (by decide)) (by decide)
        (.inr (by decide)) _).widen (uses_present here) (Nat.zero_le _)
  · rw [if_neg here]
    exact (Lays.refl laid).widen (uses_absent here) (Nat.zero_le _)

def rxGains (plan : StePlan) (tag : Option DrActionType) : Nat :=
  times (some .ctr) (plan.uses .ctr) tag + times (some .tnlL3ToL2) (plan.uses .tnlL3ToL2) tag +
    times (some .tnlL2ToL2) (plan.uses .tnlL2ToL2) tag +
    times (some .popVlan) (plan.vlanWrites .popVlan) tag +
    times (some .modifyHdr) (plan.uses .modifyHdr) tag +
    times (some .tag) (plan.uses .tag) tag + times plan.finalType 1 tag

theorem setActionsRx_complete (plan) (apart : plan.has .tnlL2ToL2 = true → plan.has .tnlL3ToL2 = false) :
    Complete plan (rxGains plan) (plan.attr.vlans.count + 2) ((begin .rx).setActionsRx plan) := by
  have ctr := setCounterId_lays plan (Laid.begin .rx) rfl
  have free := setCounterId_vacant plan
    (vacant_blank (rfl : (begin .rx).chain.writes = []) decapL3Spans) (by decide)
  have decapL3 := ctr.trans (setRxDecapL3_lays plan ctr.laid free)
  have rewriteVacant := setRxDecapL3_rewriteVacant plan free
  have decap := decapL3.trans (setRxDecap_lays plan decapL3.laid
    (fun here => setRxDecapL3_vacant plan free (apart here)))
  have decapVacant := setRxDecap_rewriteVacant plan rewriteVacant
  have pop := setRxPopVlans_lays plan decap.laid (fun undecapped =>
    setRxDecap_vacant plan (setRxDecapL3_vacant plan free undecapped.1) undecapped.2) decapVacant
  have popped := decap.trans pop.1
  have modify := popped.trans (setRxModifyHdr_lays plan popped.laid pop.2)
  have tag := modify.trans (setRxFlowTag_lays plan modify.laid (setRxModifyHdr_rewriteVacant plan pop.2))
  exact setHit_complete (tag.widen (fun _ => rfl) (by omega))

end Receive

end Cursor

end MlnxOfed.Steering.SteV0
