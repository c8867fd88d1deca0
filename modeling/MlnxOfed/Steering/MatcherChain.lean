/-
The chain of anchors and start tables over matcher creations, destructions and growing start tables.

Creation links a matcher after all of its writes, so in a domain of one direction a failure costs nothing.
Everything else links first and writes later, or leaves a direction behind: there the chain survives only if
the writes succeed. Once a post has failed nothing is written any more, whatever the functions return.
-/

import Mathlib.Data.List.Nodup
import MlnxOfed.Lib.AnchorChain
import MlnxOfed.Steering.Matcher

namespace MlnxOfed.Steering

open Option Function List Lib NicMatcher Matcher NicTable AnchorChain DrTable

/-! ### A valid chain -/

/-- An anchor points at a start table, for host and device, and the start table knows it. -/
structure NicTable.Link (nic : NicTable) (anchor : Nat) (matcher : NicMatcher) : Prop where
  next : nic.nextHtbl anchor = some matcher.sHtbl
  alwaysHit : (nic.device anchor).alwaysHit = true
  hitAddr : (nic.device anchor).hitAddr = matcher.sHtbl
  pointing : nic.pointingSte matcher.sHtbl = some anchor

structure NicTable.Stop (nic : NicTable) (anchor : Nat) : Prop where
  next : nic.nextHtbl anchor = none
  alwaysMiss : (nic.device anchor).alwaysHit = false
  missAddr : (nic.device anchor).missAddr = nic.defaultIcmAddr

def NicMatcher.htbls (matcher : NicMatcher) : List Nat := [matcher.eAnchor, matcher.sHtbl]

def NicTable.htbls (nic : NicTable) (matchers : List NicMatcher) : List Nat :=
  nic.sAnchor :: matchers.flatMap NicMatcher.htbls

structure NicTable.ChainValid (nic : NicTable) (matchers : List NicMatcher) : Prop where
  distinct : (nic.htbls matchers).Nodup
  chain : AnchorChain eAnchor nic.Link nic.Stop nic.sAnchor matchers

def Matcher.nics (type : NicType) (matchers : List Matcher) : List NicMatcher :=
  matchers.map (·.nic type)

structure DrTable.ChainValid (tbl : DrTable) : Prop where
  sorted : tbl.matcherList.Pairwise fun left right => left.prio ≤ right.prio
  nic : ∀ type ∈ tbl.dmn.nics, (tbl.nicTbl type).ChainValid (nics type tbl.matcherList)

section Chain

variable {nic after : NicTable} {matchers before rest : List NicMatcher} {curr : NicMatcher}

theorem NicTable.htbls_of_eAnchor (mem : curr ∈ matchers) : curr.eAnchor ∈ nic.htbls matchers :=
  mem_cons_of_mem _ (mem_flatMap.mpr ⟨curr, mem, .head _⟩)

theorem NicTable.htbls_of_sHtbl (mem : curr ∈ matchers) : curr.sHtbl ∈ nic.htbls matchers :=
  mem_cons_of_mem _ (mem_flatMap.mpr ⟨curr, mem, mem_cons_of_mem _ (.head _)⟩)

theorem NicTable.htbls_of_anchor {anchor} (mem : anchor ∈ anchors NicMatcher.eAnchor nic.sAnchor matchers) :
    anchor ∈ nic.htbls matchers := by
  rcases mem_cons.mp mem with rfl | exit
  · exact .head _
  · obtain ⟨matcher, inList, rfl⟩ := mem_map.mp exit
    exact htbls_of_eAnchor inList

structure NicTable.SameLinks (nic after : NicTable) (matchers : List NicMatcher) : Prop where
  sAnchor : after.sAnchor = nic.sAnchor
  default : after.defaultIcmAddr = nic.defaultIcmAddr
  next : ∀ id ∈ nic.htbls matchers, after.nextHtbl id = nic.nextHtbl id
  pointing : ∀ id ∈ nic.htbls matchers, after.pointingSte id = nic.pointingSte id
  device : ∀ id ∈ nic.htbls matchers, after.device id = nic.device id

theorem NicTable.SameLinks.trans {middle} (first : nic.SameLinks middle matchers)
    (second : middle.SameLinks after matchers) : nic.SameLinks after matchers := by
  have same : middle.htbls matchers = nic.htbls matchers := by
    rw [htbls, first.sAnchor]
    rfl
  refine ⟨second.sAnchor.trans first.sAnchor, second.default.trans first.default, ?_, ?_, ?_⟩
  · intro id mem
    rw [second.next id (same ▸ mem), first.next id mem]
  · intro id mem
    rw [second.pointing id (same ▸ mem), first.pointing id mem]
  · intro id mem
    rw [second.device id (same ▸ mem), first.device id mem]

theorem NicTable.ChainValid.frame (valid : nic.ChainValid matchers)
    (same : nic.SameLinks after matchers) : after.ChainValid matchers where
  distinct := by
    rw [htbls, same.sAnchor]
    exact valid.distinct
  chain := by
    rw [same.sAnchor]
    apply valid.chain.mono
    · intro anchor anchorIn matcher mem link
      have listed := htbls_of_anchor anchorIn
      refine ⟨?_, ?_, ?_, ?_⟩
      · rw [same.next anchor listed, link.next]
      · rw [same.device anchor listed, link.alwaysHit]
      · rw [same.device anchor listed, link.hitAddr]
      · rw [same.pointing _ (htbls_of_sHtbl mem), link.pointing]
    · intro anchor anchorIn stop
      have listed := htbls_of_anchor anchorIn
      refine ⟨?_, ?_, ?_⟩
      · rw [same.next anchor listed, stop.next]
      · rw [same.device anchor listed, stop.alwaysMiss]
      · rw [same.device anchor listed, stop.missAddr, same.default]

def NicTable.prevAnchor (nic : NicTable) (before : List NicMatcher) : Nat :=
  lastExit eAnchor nic.sAnchor before

theorem NicTable.prevAnchor_eq (nic : NicTable) (before : List NicMatcher) :
    (match before.getLast? with | some prev => prev.eAnchor | none => nic.sAnchor) = nic.prevAnchor before := by
  rw [prevAnchor, lastExit_eq_getLast?]
  cases before.getLast? <;> rfl

theorem NicTable.htbls_append (nic : NicTable) (left right : List NicMatcher) :
    nic.htbls (left ++ right) = nic.htbls left ++ right.flatMap NicMatcher.htbls := by
  rw [NicTable.htbls, flatMap_append]
  rfl

theorem NicTable.ChainValid.apart (valid : nic.ChainValid (before ++ rest)) {id}
    (left : id ∈ nic.htbls before) : id ∉ rest.flatMap NicMatcher.htbls := by
  have distinct := valid.distinct
  rw [NicTable.htbls_append] at distinct
  exact disjoint_of_nodup_append distinct left

theorem mem_htbls_of_sHtbl (mem : curr ∈ rest) : curr.sHtbl ∈ rest.flatMap htbls :=
  mem_flatMap.mpr ⟨curr, mem, mem_cons_of_mem _ (.head _)⟩

theorem mem_htbls_of_eAnchor (mem : curr ∈ rest) : curr.eAnchor ∈ rest.flatMap htbls :=
  mem_flatMap.mpr ⟨curr, mem, .head _⟩

theorem NicTable.prevAnchor_mem (nic : NicTable) (before : List NicMatcher) :
    nic.prevAnchor before ∈ nic.htbls before :=
  htbls_of_anchor (lastExit_mem _ _)

theorem NicTable.ChainValid.front (valid : nic.ChainValid (before ++ rest))
    (next : ∀ id ∈ nic.htbls before, id ≠ nic.prevAnchor before → after.nextHtbl id = nic.nextHtbl id)
    (pointing : ∀ id ∈ nic.htbls before, after.pointingSte id = nic.pointingSte id)
    (device : ∀ id ∈ nic.htbls before, id ≠ nic.prevAnchor before → after.device id = nic.device id) :
    AnchorChain NicMatcher.eAnchor after.Link (fun _ => True) nic.sAnchor before := by
  obtain ⟨front, back⟩ := AnchorChain.append_iff.mp valid.chain
  refine front.mono ?_ fun _ _ => id
  intro anchor anchorIn matcher mem link
  -- The anchor at the place leads on, not back to one of these matchers.
  have other : anchor ≠ nic.prevAnchor before := by
    rintro rfl
    cases rest with
    | nil =>
      have ends : nic.nextHtbl (nic.prevAnchor before) = none := back.next
      rw [link.next] at ends
      cases ends
    | cons first rest =>
      have leads : nic.nextHtbl (nic.prevAnchor before) = some first.sHtbl := back.1.next
      rw [link.next] at leads
      refine valid.apart (NicTable.htbls_of_sHtbl mem) ?_
      rw [some.inj leads]
      exact mem_htbls_of_sHtbl (.head _)
  have listed := NicTable.htbls_of_anchor anchorIn
  refine ⟨?_, ?_, ?_, ?_⟩
  · rw [next anchor listed other, link.next]
  · rw [device anchor listed other, link.alwaysHit]
  · rw [device anchor listed other, link.hitAddr]
  · rw [pointing _ (NicTable.htbls_of_sHtbl mem), link.pointing]

theorem NicTable.ChainValid.back {place anchor}
    (chain : AnchorChain NicMatcher.eAnchor nic.Link nic.Stop place rest)
    (apart : (rest.flatMap NicMatcher.htbls).Nodup)
    (default : after.defaultIcmAddr = nic.defaultIcmAddr)
    (first : ∀ matcher ∈ rest.head?, after.Link anchor matcher)
    (none : rest = [] → after.Stop anchor)
    (next : ∀ id ∈ rest.flatMap NicMatcher.htbls, after.nextHtbl id = nic.nextHtbl id)
    (pointing : ∀ id ∈ rest.flatMap NicMatcher.htbls,
      (∀ matcher ∈ rest.head?, id ≠ matcher.sHtbl) → after.pointingSte id = nic.pointingSte id)
    (device : ∀ id ∈ rest.flatMap NicMatcher.htbls, after.device id = nic.device id) :
    AnchorChain NicMatcher.eAnchor after.Link after.Stop anchor rest := by
  refine chain.restart (fun matcher isFirst _ => first matcher isFirst) (fun empty _ => none empty) ?_ ?_
  · intro exit exitIn matcher mem link
    obtain ⟨owner, ownerIn, rfl⟩ := mem_map.mp exitIn
    have listed := mem_htbls_of_eAnchor ownerIn
    refine ⟨?_, ?_, ?_, ?_⟩
    · rw [next _ listed, link.next]
    · rw [device _ listed, link.alwaysHit]
    · rw [device _ listed, link.hitAddr]
    rw [pointing _ (mem_htbls_of_sHtbl (mem_of_mem_tail mem)), link.pointing]
    cases rest with
    | nil => cases mem
    | cons head tail =>
      intro found isFirst same
      cases isFirst
      rw [flatMap_cons] at apart
      refine disjoint_of_nodup_append apart ?_ (mem_htbls_of_sHtbl mem)
      rw [same]
      exact .tail _ (.head _)
  · intro exit exitIn stop
    obtain ⟨owner, ownerIn, rfl⟩ := mem_map.mp exitIn
    have listed := mem_htbls_of_eAnchor ownerIn
    refine ⟨?_, ?_, ?_⟩
    · rw [next _ listed, stop.next]
    · rw [device _ listed, stop.alwaysMiss]
    · rw [device _ listed, stop.missAddr, default]

theorem NicTable.ChainValid.restNodup (valid : nic.ChainValid (before ++ rest)) :
    (rest.flatMap NicMatcher.htbls).Nodup := by
  have distinct := valid.distinct
  rw [NicTable.htbls_append] at distinct
  exact distinct.of_append_right

end Chain

section Connect

variable {nic : NicTable} {before rest : List NicMatcher} {curr : NicMatcher}
  {next prev : Option NicMatcher} {posts : ConnectPosts}

private theorem drMatcherConnect_failed (failed : (drMatcherConnect nic curr next prev posts).2 = false) :
    let after := (drMatcherConnect nic curr next prev posts).1
    after.sAnchor = nic.sAnchor ∧ after.defaultIcmAddr = nic.defaultIcmAddr ∧
      after.nextHtbl = nic.nextHtbl ∧ after.pointingSte = nic.pointingSte ∧
      ∀ id, id ≠ curr.eAnchor → id ≠ curr.sHtbl → after.device id = nic.device id := by
  obtain ⟨eAnchor, sHtbl, prevHtbl⟩ := posts
  cases ring : nic.errState <;> cases next <;> cases eAnchor <;> cases sHtbl <;> cases prevHtbl <;>
    simp_all [drMatcherConnect, htblInitAndPostsend]

/-- What a connection leaves when all its writes succeed. -/
def NicTable.connected (nic : NicTable) (curr : NicMatcher) (next : Option NicMatcher)
    (prevHtbl : Nat) : NicTable :=
  { nic with
    nextHtbl := match next with
      | some next => update (update nic.nextHtbl prevHtbl (some curr.sHtbl))
          curr.eAnchor (some next.sHtbl)
      | none => update nic.nextHtbl prevHtbl (some curr.sHtbl)
    pointingSte := match next with
      | some next => update (update nic.pointingSte curr.sHtbl (some prevHtbl))
          next.sHtbl (some curr.eAnchor)
      | none => update nic.pointingSte curr.sHtbl (some prevHtbl)
    hwSte := match next with
      | some next => update (update nic.hwSte curr.eAnchor ⟨true, next.sHtbl, 0⟩) prevHtbl ⟨true, curr.sHtbl, 0⟩
      | none => update nic.hwSte prevHtbl ⟨true, curr.sHtbl, 0⟩
    device := update (update (update nic.device curr.eAnchor
      (match next with
        | some next => ⟨true, next.sHtbl, 0⟩
        | none => ⟨false, 0, nic.defaultIcmAddr⟩)) curr.sHtbl ⟨false, 0, curr.eAnchor⟩)
      prevHtbl ⟨true, curr.sHtbl, 0⟩ }

theorem drMatcherConnect_ok (ring : nic.errState = false) (curr : NicMatcher) (before rest : List NicMatcher) :
    drMatcherConnect nic curr rest.head? before.getLast? ⟨.ok, .ok, .ok⟩ =
      (nic.connected curr rest.head? (nic.prevAnchor before), true) := by
  rw [← prevAnchor_eq]
  cases rest.head? <;> cases before.getLast? <;>
    simp [drMatcherConnect, htblInitAndPostsend, connected, ring, ConnectInfo.formattedSte]

theorem NicTable.ChainValid.connect (valid : nic.ChainValid (before ++ rest))
    (freshAnchor : curr.eAnchor ∉ nic.htbls (before ++ rest))
    (freshStart : curr.sHtbl ∉ nic.htbls (before ++ rest)) (apart : curr.eAnchor ≠ curr.sHtbl)
    (unlinked : nic.nextHtbl curr.eAnchor = none) :
    (nic.connected curr rest.head? (nic.prevAnchor before)).ChainValid (before ++ curr :: rest) := by
  have prevIn := nic.prevAnchor_mem before
  rw [NicTable.htbls_append, mem_append, not_or] at freshAnchor freshStart
  have prevAnchor : nic.prevAnchor before ≠ curr.eAnchor := fun same => freshAnchor.1 (same ▸ prevIn)
  have prevStart : nic.prevAnchor before ≠ curr.sHtbl := fun same => freshStart.1 (same ▸ prevIn)
  have prevApart := valid.apart prevIn
  constructor
  · have perm : (nic.htbls (before ++ curr :: rest)).Perm
        (curr.eAnchor :: curr.sHtbl :: nic.htbls (before ++ rest)) := by
      rw [NicTable.htbls_append, NicTable.htbls_append, flatMap_cons]
      exact perm_middle.trans (perm_middle.cons _)
    refine perm.nodup_iff.mpr (nodup_cons.mpr ⟨?_, nodup_cons.mpr ⟨?_, valid.distinct⟩⟩)
    · rw [NicTable.htbls_append, mem_cons, mem_append]
      exact not_or.mpr ⟨apart, not_or.mpr freshAnchor⟩
    · rw [NicTable.htbls_append, mem_append]
      exact not_or.mpr freshStart
  rw [AnchorChain.append_iff]
  refine ⟨valid.front ?_ ?_ ?_, ?_, ?_⟩
  · intro id mem notPrev
    have notNew : id ≠ curr.eAnchor := fun same => freshAnchor.1 (same ▸ mem)
    cases rest <;> simp [NicTable.connected, notPrev, notNew]
  · intro id mem
    have notNew : id ≠ curr.sHtbl := fun same => freshStart.1 (same ▸ mem)
    cases rest with
    | nil => simp [NicTable.connected, notNew]
    | cons first rest =>
      have notNext : id ≠ first.sHtbl := fun same => valid.apart mem (same ▸ mem_htbls_of_sHtbl (.head _))
      simp [NicTable.connected, notNew, notNext]
  · intro id mem notPrev
    have notAnchor : id ≠ curr.eAnchor := fun same => freshAnchor.1 (same ▸ mem)
    have notStart : id ≠ curr.sHtbl := fun same => freshStart.1 (same ▸ mem)
    simp [NicTable.connected, notPrev, notAnchor, notStart]
  · change (nic.connected curr rest.head? (nic.prevAnchor before)).Link (nic.prevAnchor before) curr
    cases rest with
    | nil => constructor <;> simp [NicTable.connected]
    | cons first rest =>
      have notNext : curr.sHtbl ≠ first.sHtbl := fun same => freshStart.2
        (same ▸ mem_htbls_of_sHtbl (.head _))
      constructor <;> simp [NicTable.connected, prevAnchor, notNext]
  have outside id (mem : id ∈ rest.flatMap NicMatcher.htbls) : id ≠ curr.eAnchor ∧ id ≠ curr.sHtbl ∧ id
      ≠ nic.prevAnchor before :=
      ⟨fun same => freshAnchor.2 (same ▸ mem), fun same => freshStart.2 (same ▸ mem),
      fun same => prevApart (same ▸ mem)⟩
  have back := (AnchorChain.append_iff.mp valid.chain).2
  refine NicTable.ChainValid.back back valid.restNodup rfl ?_ ?_ ?_ ?_ ?_
  · intro first isFirst
    have leads : rest.head? = some first := isFirst
    constructor <;>
      simp [NicTable.connected, leads, prevAnchor.symm, apart]
  · rintro rfl
    constructor <;> simp [NicTable.connected, prevAnchor.symm, apart, unlinked]
  · intro id mem
    obtain ⟨notAnchor, _, notPrev⟩ := outside id mem
    cases rest <;> simp [NicTable.connected, notPrev, notAnchor]
  · intro id mem notFirst
    obtain ⟨_, notStart, _⟩ := outside id mem
    cases rest with
    | nil => cases mem
    | cons first rest => simp [NicTable.connected, notStart, notFirst first rfl]
  · intro id mem
    obtain ⟨notAnchor, notStart, notPrev⟩ := outside id mem
    simp [NicTable.connected, notPrev, notAnchor, notStart]

end Connect

section Disconnect

variable {nic : NicTable} {before rest : List NicMatcher} {curr : NicMatcher}

/-- What a disconnection leaves when its write succeeds. -/
def NicTable.disconnected (nic : NicTable) (next : Option NicMatcher) (prevAnchor : Nat) : NicTable :=
  let ste : AnchorSte := match next with
    | some next => ⟨true, next.sHtbl, 0⟩
    | none => ⟨false, 0, nic.defaultIcmAddr⟩
  { nic with
    nextHtbl := update nic.nextHtbl prevAnchor (next.map sHtbl)
    pointingSte := match next with
      | some next => update nic.pointingSte next.sHtbl (some prevAnchor)
      | none => nic.pointingSte
    hwSte := update nic.hwSte prevAnchor ste
    device := update nic.device prevAnchor ste }

private theorem drMatcherDisconnect_ok (ring : nic.errState = false) (before rest : List NicMatcher) :
    drMatcherDisconnect nic rest.head? before.getLast? .ok =
      (nic.disconnected rest.head? (nic.prevAnchor before), true) := by
  rw [← prevAnchor_eq]
  cases rest.head? <;> cases before.getLast? <;>
    simp [drMatcherDisconnect, htblInitAndPostsend, disconnected, ring, ConnectInfo.formattedSte]

theorem NicTable.ChainValid.middle (valid : nic.ChainValid (before ++ curr :: rest)) :
    nic.Link (nic.prevAnchor before) curr ∧ AnchorChain eAnchor nic.Link nic.Stop curr.eAnchor rest :=
  (append_iff.mp valid.chain).2

theorem NicTable.ChainValid.disconnect (valid : nic.ChainValid (before ++ curr :: rest)) :
    (nic.disconnected rest.head? (nic.prevAnchor before)).ChainValid (before ++ rest) := by
  have prevIn := nic.prevAnchor_mem before
  have distinct := valid.distinct
  rw [NicTable.htbls_append, flatMap_cons] at distinct
  have apart : ∀ id ∈ nic.htbls before, id ∉ rest.flatMap NicMatcher.htbls :=
    fun id left right => valid.apart left (by
      rw [flatMap_cons]
      exact mem_append_right _ right)
  constructor
  · change (nic.htbls (before ++ rest)).Nodup
    rw [NicTable.htbls_append]
    exact distinct.sublist ((Sublist.refl _).append (sublist_append_right _ _))
  rw [AnchorChain.append_iff]
  refine ⟨valid.front ?_ ?_ ?_, ?_⟩
  · intro id _ notPrev
    simp [NicTable.disconnected, notPrev]
  · intro id mem
    cases rest with
    | nil => rfl
    | cons first rest =>
      have notNext : id ≠ first.sHtbl := fun same => apart id mem (same ▸ mem_htbls_of_sHtbl (.head _))
      simp [NicTable.disconnected, notNext]
  · intro id _ notPrev
    simp [NicTable.disconnected, notPrev]
  have outside : ∀ id ∈ rest.flatMap NicMatcher.htbls, id ≠ nic.prevAnchor before :=
    fun id mem same => apart _ prevIn (same ▸ mem)
  refine NicTable.ChainValid.back valid.middle.2 valid.restNodup.of_append_right rfl ?_ ?_ ?_ ?_ ?_
  · intro first isFirst
    have leads : rest.head? = some first := isFirst
    constructor <;> simp [NicTable.disconnected, NicTable.prevAnchor, leads]
  · rintro rfl
    constructor <;> simp [NicTable.disconnected, NicTable.prevAnchor]
  · intro id mem
    simp [NicTable.disconnected, outside id mem]
  · intro id mem notFirst
    cases rest with
    | nil => cases mem
    | cons first rest => simp [NicTable.disconnected, notFirst first rfl]
  · intro id mem
    simp [NicTable.disconnected, outside id mem]

end Disconnect

section Grow

variable {nic : NicTable} {before rest : List NicMatcher} {curr : NicMatcher} {newHtbl : Nat}

/-- What a grown start table leaves once the anchor is written. -/
def NicTable.grown (nic : NicTable) (anchor newHtbl : Nat) : NicTable :=
  let ste := (update nic.hwSte newHtbl ⟨false, 0, 0⟩) anchor
  { nic with
    nextHtbl := update (update nic.nextHtbl newHtbl none) anchor (some newHtbl)
    pointingSte := update (update nic.pointingSte newHtbl none) newHtbl (some anchor)
    hwSte := update (update nic.hwSte newHtbl ⟨false, 0, 0⟩) anchor (ste.setHitAddr newHtbl)
    device := update nic.device anchor ⟨(nic.device anchor).alwaysHit, newHtbl, ste.missAddr⟩ }

theorem NicTable.ChainValid.grow (valid : nic.ChainValid (before ++ curr :: rest))
    (fresh : newHtbl ∉ nic.htbls (before ++ curr :: rest)) :
    (nic.grown (nic.prevAnchor before) newHtbl).ChainValid
      (before ++ { curr with sHtbl := newHtbl } :: rest) := by
  have prevIn := nic.prevAnchor_mem before
  have distinct := valid.distinct
  have split : nic.htbls (before ++ curr :: rest) =
      nic.htbls before ++ (curr.eAnchor :: curr.sHtbl :: rest.flatMap NicMatcher.htbls) := by
    rw [NicTable.htbls_append, flatMap_cons]
    rfl
  rw [split] at fresh distinct
  simp only [mem_append, mem_cons, not_or] at fresh
  obtain ⟨freshFront, freshAnchor, _, freshRest⟩ := fresh
  have prevNew : nic.prevAnchor before ≠ newHtbl := fun same => freshFront (same ▸ prevIn)
  have apart id (left : id ∈ nic.htbls before) : id ≠ curr.eAnchor ∧ id ∉ rest.flatMap NicMatcher.htbls := by
    have disjoint : id ∉ curr.eAnchor :: curr.sHtbl :: rest.flatMap NicMatcher.htbls :=
      disjoint_of_nodup_append distinct left
    simp only [mem_cons, not_or] at disjoint
    exact ⟨disjoint.1, disjoint.2.2⟩
  constructor
  · have perm : (nic.htbls (before ++ { curr with sHtbl := newHtbl } :: rest)).Perm
        (newHtbl :: (nic.htbls before ++ (curr.eAnchor :: rest.flatMap NicMatcher.htbls))) := by
      rw [NicTable.htbls_append, flatMap_cons]
      exact ((Perm.refl _).append (Perm.swap _ _ _)).trans perm_middle
    refine perm.nodup_iff.mpr (nodup_cons.mpr ⟨?_, ?_⟩)
    · simp only [mem_append, mem_cons, not_or]
      exact ⟨freshFront, freshAnchor, freshRest⟩
    · exact distinct.sublist ((Sublist.refl _).append ((sublist_cons_self _ _).cons_cons _))
  rw [AnchorChain.append_iff]
  obtain ⟨link, chain⟩ := valid.middle
  refine ⟨valid.front ?_ ?_ ?_, ?_, ?_⟩
  · intro id mem notPrev
    have notNew : id ≠ newHtbl := fun same => freshFront (same ▸ mem)
    simp [NicTable.grown, notPrev, notNew]
  · intro id mem
    have notNew : id ≠ newHtbl := fun same => freshFront (same ▸ mem)
    simp [NicTable.grown, notNew]
  · intro id _ notPrev
    simp [NicTable.grown, notPrev]
  · change (nic.grown (nic.prevAnchor before) newHtbl).Link (nic.prevAnchor before) _
    refine ⟨?_, ?_, ?_, ?_⟩
    · simp [NicTable.grown]
    · simpa [NicTable.grown] using link.alwaysHit
    · simp [NicTable.grown]
    · simp [NicTable.grown]
  -- Nothing behind the matcher's end anchor is touched.
  have outside id (mem : id ∈ curr.eAnchor :: rest.flatMap NicMatcher.htbls) : id ≠ newHtbl ∧ id ≠
      nic.prevAnchor before := by
    rcases mem_cons.mp mem with rfl | later
    · exact ⟨fun same => freshAnchor same.symm, fun same => (apart _ prevIn).1 same.symm⟩
    · exact ⟨fun same => freshRest (same ▸ later), fun same => (apart _ prevIn).2 (same ▸ later)⟩
  have anchorIn anchor (mem : anchor ∈ anchors NicMatcher.eAnchor curr.eAnchor rest) : anchor ∈
      curr.eAnchor :: rest.flatMap NicMatcher.htbls := by
    rcases mem_cons.mp mem with rfl | exit
    · exact .head _
    · obtain ⟨owner, ownerIn, rfl⟩ := mem_map.mp exit
      exact .tail _ (mem_htbls_of_eAnchor ownerIn)
  refine chain.mono ?_ ?_
  · intro anchor mem matcher matcherIn old
    obtain ⟨notNew, notPrev⟩ := outside anchor (anchorIn anchor mem)
    have startNew := (outside matcher.sHtbl (.tail _ (mem_htbls_of_sHtbl matcherIn))).1
    refine ⟨?_, ?_, ?_, ?_⟩
    · simpa [NicTable.grown, notNew, notPrev] using old.next
    · simpa [NicTable.grown, notPrev] using old.alwaysHit
    · simpa [NicTable.grown, notPrev] using old.hitAddr
    · simpa [NicTable.grown, startNew] using old.pointing
  · intro anchor mem old
    obtain ⟨notNew, notPrev⟩ := outside anchor (anchorIn anchor mem)
    refine ⟨?_, ?_, ?_⟩
    · simpa [NicTable.grown, notNew, notPrev] using old.next
    · simpa [NicTable.grown, notPrev] using old.alwaysMiss
    · simpa [NicTable.grown, notPrev] using old.missAddr

end Grow

/-! ### Tables -/

def ConnectPosts.allOk : ConnectPosts := ⟨.ok, .ok, .ok⟩

/-- The write returns 0: it is done, or skipped after an earlier failure. -/
def PostResult.Returns (errState : Bool) (post : PostResult) : Prop :=
  post = .ok ∨ post = .sendFailed ∧ errState = true

structure ConnectPosts.Return (errState : Bool) (posts : ConnectPosts) : Prop where
  eAnchor : posts.eAnchor.Returns errState
  sHtbl : posts.sHtbl.Returns errState
  prevHtbl : posts.prevHtbl.Returns errState

private theorem drMatcherConnect_true_iff (nic curr next prev) (posts) :
    (drMatcherConnect nic curr next prev posts).2 = true ↔ posts.Return nic.errState := by
  obtain ⟨eAnchor, sHtbl, prevHtbl⟩ := posts
  have parts : (ConnectPosts.mk eAnchor sHtbl prevHtbl).Return nic.errState ↔ eAnchor.Returns nic.errState ∧
      sHtbl.Returns nic.errState ∧ prevHtbl.Returns nic.errState :=
    ⟨fun all => ⟨all.1, all.2, all.3⟩, fun all => ⟨all.1, all.2.1, all.2.2⟩⟩
  rw [parts]
  cases ring : nic.errState <;> cases next <;> cases eAnchor <;> cases sHtbl <;> cases prevHtbl <;>
    simp [drMatcherConnect, htblInitAndPostsend, PostResult.Returns, ring]

def DrTable.Fresh (tbl : DrTable) (matcher : Matcher) : Prop :=
  ∀ type ∈ tbl.dmn.nics, (matcher.nic type).eAnchor ∉ (tbl.nicTbl type).htbls (nics type tbl.matcherList) ∧
    (matcher.nic type).sHtbl ∉ (tbl.nicTbl type).htbls (nics type tbl.matcherList) ∧
    (matcher.nic type).eAnchor ≠ (matcher.nic type).sHtbl

instance (tbl : DrTable) (matcher : Matcher) : Decidable (tbl.Fresh matcher) :=
  inferInstanceAs (Decidable (∀ type ∈ tbl.dmn.nics, _ ∧ _ ∧ _))

def DrTable.SameChain (tbl after : DrTable) : Prop :=
  after.matcherList = tbl.matcherList ∧ after.dmn = tbl.dmn ∧
    ∀ type ∈ tbl.dmn.nics, (tbl.nicTbl type).SameLinks (after.nicTbl type) (nics type tbl.matcherList)

theorem DrTable.ChainValid.sameChain {tbl after : DrTable} (valid : tbl.ChainValid)
    (same : tbl.SameChain after) : after.ChainValid := by
  obtain ⟨matchers, dmn, links⟩ := same
  refine ⟨matchers ▸ valid.sorted, ?_⟩
  rw [matchers, dmn]
  intro type mem
  exact (valid.nic type mem).frame (links type mem)

theorem DrTable.SameChain.trans {tbl middle after : DrTable} (first : tbl.SameChain middle)
    (second : middle.SameChain after) : tbl.SameChain after := by
  refine ⟨second.1.trans first.1, second.2.1.trans first.2.1, ?_⟩
  intro type mem
  have later := second.2.2 type (first.2.1 ▸ mem)
  rw [first.1] at later
  exact (first.2.2 type mem).trans later

variable (type : NicType)

theorem Matcher.nics_append (left right) : nics type (left ++ right) = nics type left ++ nics type right :=
  map_append

theorem Matcher.nics_head? (matchers) : (nics type matchers).head? = matchers.head?.map (·.nic type) := by
  rw [nics, head?_map]

theorem Matcher.nics_getLast? (matchers) :
    (nics type matchers).getLast? = matchers.getLast?.map (·.nic type) := by
  rw [nics, getLast?_map]

@[simp]
theorem DrTable.setNic_self (tbl : DrTable) (type nic) : (tbl.setNic type nic).nicTbl type = nic :=
  update_self _ _ _

theorem DrTable.setNic_other (tbl : DrTable) {type other} (nic : NicTable) (apart : other ≠ type) :
    (tbl.setNic type nic).nicTbl other = { tbl.nicTbl other with errState := nic.errState } :=
  update_of_ne apart _ _

theorem NicTable.sameLinks_errState (nic : NicTable) (errState matchers) :
    nic.SameLinks { nic with errState := errState } matchers :=
  ⟨rfl, rfl, fun _ _ => rfl, fun _ _ => rfl, fun _ _ => rfl⟩

/-- No post of the domain has failed. -/
def DrTable.Calm (tbl : DrTable) : Prop := ∀ type, (tbl.nicTbl type).errState = false

theorem DrTable.Calm.setNic_other {tbl : DrTable} (calm : tbl.Calm) {type other} {nic : NicTable}
    (ring : nic.errState = false) (apart : other ≠ type) :
    (tbl.setNic type nic).nicTbl other = tbl.nicTbl other := by
  rw [DrTable.setNic_other _ _ apart, ring, ← calm other]

theorem DrTable.Calm.setNic {tbl : DrTable} (calm : tbl.Calm) (type) (nic : NicTable)
    (ring : nic.errState = false) : (tbl.setNic type nic).Calm := by
  intro other
  by_cases here : other = type
  · rw [here, setNic_self, ring]
  · rw [calm.setNic_other ring here, calm other]

section Alloc

variable {nic : NicTable} {matchers : List NicMatcher} {curr : NicMatcher}

theorem NicTable.htblAlloc_sameLinks {htbl} (fresh : htbl ∉ nic.htbls matchers) :
    nic.SameLinks (nic.htblAlloc htbl) matchers := by
  have other : ∀ id ∈ nic.htbls matchers, id ≠ htbl := fun id mem same => fresh (same ▸ mem)
  refine ⟨rfl, rfl, ?_, ?_, fun _ _ => rfl⟩
  · intro id mem
    exact update_of_ne (other id mem) _ _
  · intro id mem
    exact update_of_ne (other id mem) _ _

private theorem drMatcherConnect_sameLinks {next prev posts}
    (freshAnchor : curr.eAnchor ∉ nic.htbls matchers) (freshStart : curr.sHtbl ∉ nic.htbls matchers)
    (failed : (drMatcherConnect nic curr next prev posts).2 = false) :
    nic.SameLinks (drMatcherConnect nic curr next prev posts).1 matchers := by
  obtain ⟨sAnchor, default, nextSame, pointing, device⟩ := drMatcherConnect_failed failed
  refine ⟨sAnchor, default, fun id _ => congrFun nextSame id, fun id _ => congrFun pointing id, ?_⟩
  intro id mem
  exact device id (fun same => freshAnchor (same ▸ mem)) fun same => freshStart (same ▸ mem)

end Alloc

section Create

variable {tbl : DrTable} {matcher : Matcher} {posts : NicType → ConnectPosts}

private theorem connectNics_ok {before rest} (types) (nodup : types.Nodup) (calm : tbl.Calm)
    (isOk : ∀ type ∈ types, posts type = .allOk) :
    let result := connectNics tbl matcher rest.head? before.getLast? posts types
    result.2 = true ∧ result.1.dmn = tbl.dmn ∧ result.1.matcherList = tbl.matcherList ∧
    (∀ type ∉ types, result.1.nicTbl type = tbl.nicTbl type) ∧
    ∀ type ∈ types, result.1.nicTbl type =
      (tbl.nicTbl type).connected (matcher.nic type) (nics type rest).head?
        ((tbl.nicTbl type).prevAnchor (nics type before)) := by
  induction types generalizing tbl with
  | nil => simp [connectNics]
  | cons type types ih =>
    obtain ⟨absent, others⟩ := nodup_cons.mp nodup
    have connected := drMatcherConnect_ok (calm type) (matcher.nic type) (nics type before) (nics type rest)
    rw [nics_head?, nics_getLast?] at connected
    simp only [connectNics]
    rw [isOk type (.head _), ConnectPosts.allOk, connected]
    simp only [Bool.true_eq_false, if_false]
    generalize nicDef : (tbl.nicTbl type).connected (matcher.nic type)
      (rest.head?.map (·.nic type)) ((tbl.nicTbl type).prevAnchor (nics type before)) = nic
    have ring : nic.errState = false := nicDef ▸ calm type
    obtain ⟨ok, dmn, list, still, done⟩ := ih others (calm.setNic type nic ring) fun other mem =>
      isOk other (.tail _ mem)
    refine ⟨ok, dmn, list, ?_, ?_⟩
    · intro other outside
      rw [mem_cons, not_or] at outside
      rw [still other outside.2, calm.setNic_other ring outside.1]
    · intro other mem
      rcases mem_cons.mp mem with rfl | later
      · rw [still other absent, setNic_self, nics_head?, nicDef]
      · have apart : other ≠ type := by
          rintro rfl
          exact absent later
        rw [done other later, calm.setNic_other ring apart]

theorem DomainType.nics_nodup (dmn : DomainType) : dmn.nics.Nodup := by
  cases dmn <;> decide

/-- If the writes of the first direction return 0, they are done and so are those of the other. -/
def SafeConnectPosts (tbl : DrTable) (posts : NicType → ConnectPosts) : Prop :=
  ∀ type ∈ tbl.dmn.nics.head?, (posts type).Return (tbl.nicTbl type).errState →
    tbl.Calm ∧ ∀ other ∈ tbl.dmn.nics, posts other = .allOk

theorem DomainType.nics_cons (dmn : DomainType) : ∃ type rest, dmn.nics = type :: rest := by
  cases dmn <;> exact ⟨_, _, rfl⟩

private theorem insert_sorted {matchers : List Matcher}
    (sorted : matchers.Pairwise fun left right => left.prio ≤ right.prio) (matcher) :
    (matchers.takeWhile (·.prio < matcher.prio) ++ matcher ::
      matchers.dropWhile (·.prio < matcher.prio)).Pairwise fun left right => left.prio ≤ right.prio := by
  induction matchers with
  | nil => simp
  | cons head rest ih =>
    obtain ⟨least, others⟩ := pairwise_cons.mp sorted
    by_cases lower : head.prio < matcher.prio
    · rw [takeWhile_cons_of_pos (by simpa using lower), dropWhile_cons_of_pos (by simpa using lower)]
      refine pairwise_cons.mpr ⟨?_, ih others⟩
      intro other mem
      rcases mem_append.mp mem with early | late
      · exact least other (takeWhile_subset _ early)
      · rcases mem_cons.mp late with rfl | behind
        · exact le_of_lt lower
        · exact least other (dropWhile_subset _ behind)
    · rw [takeWhile_cons_of_neg (by simpa using lower), dropWhile_cons_of_neg (by simpa using lower)]
      refine pairwise_cons.mpr ⟨?_, sorted⟩
      intro other mem
      rcases mem_cons.mp mem with rfl | behind
      · exact Nat.le_of_not_lt lower
      · exact le_trans (Nat.le_of_not_lt lower) (least other behind)

theorem DrTable.Fresh.matcherInit (fresh : tbl.Fresh matcher) : tbl.SameChain (tbl.matcherInit matcher) := by
  refine ⟨rfl, rfl, ?_⟩
  intro type mem
  obtain ⟨freshAnchor, freshStart, _⟩ := fresh type mem
  exact (NicTable.htblAlloc_sameLinks freshAnchor).trans (NicTable.htblAlloc_sameLinks freshStart)

theorem DrTable.ChainValid.addToTbl (valid : tbl.ChainValid) (fresh : tbl.Fresh matcher)
    (unlinked : ∀ type, (tbl.nicTbl type).nextHtbl (matcher.nic type).eAnchor = none)
    (safe : SafeConnectPosts tbl posts) :
    (drMatcherAddToTbl tbl matcher posts).1.ChainValid ∧ ((drMatcherAddToTbl tbl matcher posts).2 = false →
        tbl.SameChain (drMatcherAddToTbl tbl matcher posts).1) := by
  have split := takeWhile_append_dropWhile (p := (·.prio < matcher.prio)) (l := tbl.matcherList)
  have sorted := insert_sorted valid.sorted matcher
  unfold drMatcherAddToTbl
  generalize tbl.matcherList.takeWhile (·.prio < matcher.prio) = before at *
  generalize tbl.matcherList.dropWhile (·.prio < matcher.prio) = rest at *
  obtain ⟨type, others, isNics⟩ := tbl.dmn.nics_cons
  have decided := drMatcherConnect_true_iff (tbl.nicTbl type) (matcher.nic type) (rest.head?.map (·.nic type))
    (before.getLast?.map (·.nic type)) (posts type)
  by_cases returned : (posts type).Return (tbl.nicTbl type).errState
  · obtain ⟨calm, isOk⟩ := safe type (by rw [isNics]; rfl) returned
    obtain ⟨ok, dmn, _, _, connected⟩ :=
      @connectNics_ok tbl matcher posts before rest tbl.dmn.nics tbl.dmn.nics_nodup calm isOk
    simp only [ok, Bool.true_eq_false, if_false]
    refine ⟨⟨sorted, ?_⟩, nofun⟩
    intro type mem
    change type ∈ (connectNics tbl matcher rest.head? before.getLast? posts tbl.dmn.nics).1.dmn.nics at mem
    rw [dmn] at mem
    obtain ⟨freshAnchor, freshStart, apart⟩ := fresh type mem
    have nicValid := valid.nic type mem
    rw [← split, nics_append] at nicValid freshAnchor freshStart
    have done := connected type mem
    change ((connectNics tbl matcher rest.head? before.getLast? posts tbl.dmn.nics).1.nicTbl
      type).ChainValid (nics type (before ++ matcher :: rest))
    rw [done, nics_append]
    exact nicValid.connect freshAnchor freshStart apart (unlinked type)
  · have failed := Bool.eq_false_iff.mpr fun ok => returned (decided.mp ok)
    have stopped : connectNics tbl matcher rest.head? before.getLast? posts tbl.dmn.nics =
        (tbl.setNic type (drMatcherConnect (tbl.nicTbl type) (matcher.nic type)
          (rest.head?.map (·.nic type)) (before.getLast?.map (·.nic type)) (posts type)).1, false) := by
      simp only [isNics, connectNics, failed, if_true]
    have same : tbl.SameChain (tbl.setNic type (drMatcherConnect (tbl.nicTbl type) (matcher.nic type)
        (rest.head?.map (·.nic type)) (before.getLast?.map (·.nic type)) (posts type)).1) := by
      refine ⟨rfl, rfl, ?_⟩
      intro other otherIn
      by_cases isType : other = type
      · subst isType
        obtain ⟨freshAnchor, freshStart, _⟩ := fresh other otherIn
        rw [setNic_self]
        exact drMatcherConnect_sameLinks freshAnchor freshStart failed
      · rw [setNic_other _ _ isType]
        exact NicTable.sameLinks_errState _ _ _
    simp only [stopped, if_true]
    exact ⟨valid.sameChain same, fun _ => same⟩

theorem DrTable.ChainValid.create (valid : tbl.ChainValid) (fresh : tbl.Fresh matcher) (initialized)
    (safe : initialized = true → SafeConnectPosts tbl posts) : (mlx5drMatcherCreate tbl matcher initialized posts).1.ChainValid ∧
      ((mlx5drMatcherCreate tbl matcher initialized posts).2 = false →
        tbl.SameChain (mlx5drMatcherCreate tbl matcher initialized posts).1) := by
  cases initialized with
  | false =>
    exact ⟨valid, fun _ =>
      ⟨rfl, rfl, fun _ _ => ⟨rfl, rfl, fun _ _ => rfl, fun _ _ => rfl, fun _ _ => rfl⟩⟩⟩
  | true =>
    have start := fresh.matcherInit
    have freshStart : (tbl.matcherInit matcher).Fresh matcher := fresh
    have unlinked type : ((tbl.matcherInit matcher).nicTbl type).nextHtbl (matcher.nic type).eAnchor =
        none := by
      simp [DrTable.matcherInit, NicTable.htblAlloc, update_apply]
    obtain ⟨addedValid, failed⟩ := (valid.sameChain start).addToTbl freshStart unlinked (safe rfl)
    exact ⟨addedValid, fun isFailed => start.trans (failed isFailed)⟩

end Create

section Others

variable {tbl : DrTable} {matcher : Matcher} {before rest : List Matcher}

private theorem disconnectNics_ok {posts} (types) (nodup : types.Nodup) (calm : tbl.Calm)
    (isOk : ∀ type ∈ types, posts type = .ok) :
    let result := disconnectNics tbl rest.head? before.getLast? posts types
    result.2 = true ∧ result.1.dmn = tbl.dmn ∧
    (∀ type ∉ types, result.1.nicTbl type = tbl.nicTbl type) ∧
    ∀ type ∈ types, result.1.nicTbl type = (tbl.nicTbl type).disconnected
      (nics type rest).head? ((tbl.nicTbl type).prevAnchor (nics type before)) := by
  induction types generalizing tbl with
  | nil => simp [disconnectNics]
  | cons type types ih =>
    obtain ⟨absent, others⟩ := nodup_cons.mp nodup
    have disconnected := drMatcherDisconnect_ok (calm type) (nics type before) (nics type rest)
    rw [nics_head?, nics_getLast?] at disconnected
    simp only [disconnectNics]
    rw [isOk type (.head _), disconnected]
    simp only [Bool.true_eq_false, if_false]
    generalize nicDef : (tbl.nicTbl type).disconnected (rest.head?.map (·.nic type))
      ((tbl.nicTbl type).prevAnchor (nics type before)) = nic
    have ring : nic.errState = false := nicDef ▸ calm type
    obtain ⟨ok, dmn, still, done⟩ := ih others (calm.setNic type nic ring) fun other mem =>
      isOk other (.tail _ mem)
    refine ⟨ok, dmn, ?_, ?_⟩
    · intro other outside
      rw [mem_cons, not_or] at outside
      rw [still other outside.2, calm.setNic_other ring outside.1]
    intro other mem
    rcases mem_cons.mp mem with rfl | later
    · rw [still other absent, setNic_self, nics_head?, nicDef]
    · have apart : other ≠ type := by
        rintro rfl
        exact absent later
      rw [done other later, calm.setNic_other ring apart]

theorem DrTable.ChainValid.destroy (valid : tbl.ChainValid) (list : tbl.matcherList = before ++ matcher :: rest)
    (calm : tbl.Calm) {posts} (isOk : ∀ type ∈ tbl.dmn.nics, posts type = .ok) :
    (mlx5drMatcherDestroy tbl before rest posts).ChainValid := by
  obtain ⟨ok, dmn, _, done⟩ :=
    @disconnectNics_ok tbl before rest posts tbl.dmn.nics tbl.dmn.nics_nodup calm isOk
  unfold mlx5drMatcherDestroy drMatcherRemoveFromTbl
  simp only [ok, Bool.true_eq_false, if_false]
  constructor
  · have sorted := valid.sorted
    rw [list] at sorted
    exact sorted.sublist ((Sublist.refl _).append (sublist_cons_self _ _))
  intro type mem
  rw [dmn] at mem
  have nicValid := valid.nic type mem
  rw [list, nics_append] at nicValid
  change ((disconnectNics tbl rest.head? before.getLast? posts tbl.dmn.nics).1.nicTbl
    type).ChainValid (nics type (before ++ rest))
  rw [done type mem, nics_append]
  exact nicValid.disconnect

private theorem drRuleCreateRuleNic_ok {type newHtbl anchor} (ring : (tbl.nicTbl type).errState = false)
    (pointing : (tbl.nicTbl type).pointingSte (matcher.nic type).sHtbl = some anchor) :
    drRuleCreateRuleNic tbl type before matcher rest newHtbl .ok true =
      some { (tbl.setNic type ((tbl.nicTbl type).grown anchor newHtbl)) with
        matcherList := before ++ matcher.setNic type
          { (matcher.nic type) with sHtbl := newHtbl } :: rest } := by
  simp [drRuleCreateRuleNic, drRuleRehashHtbl, pointing, htblAlloc, postAnchorCtrl, grown, AnchorSte.setHitAddr, ring]

private theorem drRuleCreateRuleNic_noMemory (list : tbl.matcherList = before ++ matcher :: rest)
    {type newHtbl inserted after}
    (created : drRuleCreateRuleNic tbl type before matcher rest newHtbl .noMemory inserted = some after) :
    tbl.SameChain after := by
  have sameMatcher : matcher.setNic type (matcher.nic type) = matcher := by simp [Matcher.setNic]
  have sameNic other : ∃ errState, (tbl.setNic type (tbl.nicTbl type)).nicTbl other =
      { tbl.nicTbl other with errState := errState } := by
    by_cases here : other = type
    · exact ⟨(tbl.nicTbl other).errState, by rw [here, setNic_self]⟩
    · exact ⟨_, setNic_other _ _ here⟩
  have same : tbl.SameChain { (tbl.setNic type (tbl.nicTbl type)) with
      matcherList := before ++ matcher.setNic type (matcher.nic type) :: rest } := by
    refine ⟨by rw [sameMatcher, list], rfl, ?_⟩
    intro other _
    obtain ⟨errState, here⟩ := sameNic other
    rw [here]
    exact NicTable.sameLinks_errState _ _ _
  cases inserted <;>
    simp only [drRuleCreateRuleNic, drRuleRehashHtbl, map_some, some.injEq] at created <;>
    exact created ▸ same

/-- An insertion fails to grow the start table before it touches anything, or grows it and succeeds. -/
def SafeGrow (tbl : DrTable) (result : RehashResult) (inserted : Bool) : Prop :=
  result ≠ .copyFailed ∧ (result = .ok → tbl.Calm ∧ inserted = true)

theorem DrTable.ChainValid.grow (valid : tbl.ChainValid) (list : tbl.matcherList = before ++ matcher :: rest)
    {type} (mem : type ∈ tbl.dmn.nics) {newHtbl res inserted}
    (fresh : newHtbl ∉ (tbl.nicTbl type).htbls (Matcher.nics type tbl.matcherList))
    (safe : SafeGrow tbl res inserted) {after}
    (grown : drRuleCreateRuleNic tbl type before matcher rest newHtbl res inserted = some after) :
    after.ChainValid := by
  cases res with
  | copyFailed => exact absurd rfl safe.1
  | noMemory => exact valid.sameChain (drRuleCreateRuleNic_noMemory list grown)
  | ok =>
    obtain ⟨calm, all⟩ := safe.2 rfl
    have nicValid := valid.nic type mem
    rw [list, Matcher.nics_append] at nicValid fresh
    have link := nicValid.middle.1
    rw [all, drRuleCreateRuleNic_ok (calm type) link.pointing] at grown
    cases grown
    have sameNics : ∀ other, other ≠ type → (matcher.setNic type
        { (matcher.nic type) with sHtbl := newHtbl }).nic other = matcher.nic other :=
      fun other apart => update_of_ne apart _ _
    constructor
    · have sorted := valid.sorted
      rw [list] at sorted
      simp only [pairwise_append, pairwise_cons, mem_cons] at sorted ⊢
      obtain ⟨early, ⟨first, late⟩, across⟩ := sorted
      refine ⟨early, ⟨first, late⟩, ?_⟩
      intro left leftIn right rightIn
      rcases rightIn with rfl | later
      · exact across left leftIn matcher (.inl rfl)
      · exact across left leftIn right (.inr later)
    intro other otherIn
    rw [Matcher.nics_append]
    by_cases isType : other = type
    · subst isType
      rw [DrTable.setNic_self]
      have here : Matcher.nics other (matcher.setNic other
          { (matcher.nic other) with sHtbl := newHtbl } :: rest) =
          { (matcher.nic other) with sHtbl := newHtbl } :: Matcher.nics other rest := by
        simp [Matcher.nics, Matcher.setNic]
      rw [here]
      exact nicValid.grow fresh
    have kept : (tbl.setNic type ((tbl.nicTbl type).grown ((tbl.nicTbl type).prevAnchor
        (nics type before)) newHtbl)).nicTbl other = tbl.nicTbl other := calm.setNic_other (calm type) isType
    rw [kept]
    have there := valid.nic other otherIn
    rw [list, Matcher.nics_append] at there
    have same : Matcher.nics other (matcher.setNic type
        { (matcher.nic type) with sHtbl := newHtbl } :: rest) =
        Matcher.nics other (matcher :: rest) := by
      simp only [Matcher.nics, map_cons, sameNics other isType]
    rw [same]
    exact there

end Others

structure MatcherGuards where
  create : DrTable → (NicType → ConnectPosts) → Prop
  destroy : DrTable → (NicType → PostResult) → Prop
  grow : DrTable → RehashResult → Bool → Prop

def MatcherGuards.any : MatcherGuards where
  create _ _ := True
  destroy _ _ := True
  grow _ _ _ := True

def MatcherGuards.safe : MatcherGuards where
  create := SafeConnectPosts
  destroy tbl posts := tbl.Calm ∧ ∀ type ∈ tbl.dmn.nics, posts type = .ok
  grow := SafeGrow

/-- Calls on one table. New hash tables are at addresses no table of the chain has. -/
inductive MatcherStep (guards : MatcherGuards) : DrTable → DrTable → Prop where
  | create (tbl : DrTable) (matcher : Matcher) (initialized : Bool)
      (posts : NicType → ConnectPosts) (fresh : tbl.Fresh matcher)
      (guarded : initialized = true → guards.create tbl posts) :
      MatcherStep guards tbl (mlx5drMatcherCreate tbl matcher initialized posts).1
  | destroy (tbl : DrTable) (before rest : List Matcher) (matcher : Matcher)
      (posts : NicType → PostResult) (list : tbl.matcherList = before ++ matcher :: rest)
      (guarded : guards.destroy tbl posts) :
      MatcherStep guards tbl (mlx5drMatcherDestroy tbl before rest posts)
  | insert (tbl after : DrTable) (before rest : List Matcher) (matcher : Matcher) (type : NicType)
      (newHtbl : Nat) (result : RehashResult) (inserted : Bool)
      (list : tbl.matcherList = before ++ matcher :: rest) (member : type ∈ tbl.dmn.nics)
      (fresh : newHtbl ∉ (tbl.nicTbl type).htbls (nics type tbl.matcherList))
      (guarded : guards.grow tbl result inserted)
      (grown : drRuleCreateRuleNic tbl type before matcher rest newHtbl result inserted = some after) :
      MatcherStep guards tbl after
  /-- Another post of the domain fails (of an insertion, or for another table), or the device does. -/
  | ringFails (tbl : DrTable) : MatcherStep guards tbl (tbl.setErrState true)

def MatcherReachable (guards : MatcherGuards) (dmn : DomainType)
    (sAnchor defaultIcmAddr : NicType → Nat) : DrTable → Prop :=
  Relation.ReflTransGen (MatcherStep guards) (drTableInit dmn sAnchor defaultIcmAddr)

private theorem drTableInit_chainValid (dmn) (sAnchor defaultIcmAddr : NicType → Nat) :
    (drTableInit dmn sAnchor defaultIcmAddr).ChainValid := by
  refine ⟨.nil, ?_⟩
  intro type _
  refine ⟨nodup_singleton _, ?_⟩
  constructor <;>
    simp [drTableInit, drTableInitNic, NicTable.htblAlloc, NicTable.htblInitAndPostsend,
      ConnectInfo.formattedSte]

theorem MatcherReachable.chainValid {dmn sAnchor defaultIcmAddr}
    {tbl} (reachable : MatcherReachable .safe dmn sAnchor defaultIcmAddr tbl) :
    tbl.ChainValid := by
  induction reachable with
  | refl => exact drTableInit_chainValid dmn sAnchor defaultIcmAddr
  | tail _ step ih =>
    cases step with
    | create matcher initialized posts fresh guarded =>
      exact (ih.create fresh initialized guarded).1
    | destroy before rest matcher posts list guarded => exact ih.destroy list guarded.1 guarded.2
    | insert _ before rest matcher type newHtbl res inserted list mem fresh guarded grown =>
      exact ih.grow list mem fresh guarded grown
    | ringFails => exact ih.sameChain ⟨rfl, rfl, fun _ _ => sameLinks_errState _ _ _⟩

def Matcher.at (id prio first : Nat) : Matcher where
  id := id
  prio := prio
  nic
    | .rx => ⟨first, first + 1⟩
    | .tx => ⟨first + 2, first + 3⟩

end MlnxOfed.Steering
